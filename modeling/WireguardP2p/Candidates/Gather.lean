import WireguardP2p.Candidates.Selection

/-! `candidates.py`: the candidates a Linux node finds for itself. What the program learns from the
    outside (the output of `ip -6 -j addr show`, the source address of a probe socket, the state file
    of the port mapper) is a parameter. -/

namespace Candidates
open Ipaddress Python Net

/-- An entry of `addr_info`. -/
structure AddressInfo where
  family : Text
  scope : Text
  flags : List Text
  preferredLifeTime : Option Json
  preferredLft : Option Json
  localAddress : Text

/-- An interface as `ip -6 -j addr show` prints it. -/
structure Interface where
  ifname : Text
  operstate : Text
  addrInfo : List AddressInfo

/-- White space of `str.strip`. -/
def isStrSpace (c : Char) : Bool :=
  isSpace (toAscii c) || (0x1c ≤ c.toNat && c.toNat ≤ 0x1f)

/-- `value == 0 or str(value).strip().lower() in ("0", "0sec")`. -/
def lifetimeOver : Json → Bool
  | .int n => n == 0
  | .bool b => !b
  | .float x => x == .fin 0
  | .str t =>
    let inner := ((t.dropWhile isStrSpace).reverse.dropWhile isStrSpace).reverse
    let lower := inner.map Char.toLower
    lower == "0".toList || lower == "0sec".toList
  | _ => false

/-- `ipv6_address_info_unusable`. -/
def ipv6AddressInfoUnusable (info : AddressInfo) : Bool :=
  info.flags.contains "tentative".toList || info.flags.contains "deprecated".toList ||
    info.preferredLifeTime.any lifetimeOver || info.preferredLft.any lifetimeOver

/-- The address text of an entry `global_ipv6_addresses` uses. -/
def globalAddress (info : AddressInfo) : Option Text :=
  if info.family = "inet6".toList ∧ info.scope = "global".toList ∧ !ipv6AddressInfoUnusable info then
    match ipAddress info.localAddress with
    | some ip => if usableGlobalIpv6 ip then some ip.compressed else none
    | none => none
  else none

/-- `global_ipv6_addresses`; no interfaces when the command or its output fails. -/
def globalIpv6Addresses (interfaces : List Interface) : List Text :=
  let up := interfaces.filter fun i =>
    decide (¬ (i.ifname = "lo".toList ∨ i.operstate = "DOWN".toList))
  keepFirst id [] ((up.flatMap Interface.addrInfo).filterMap globalAddress)

/-- `preferred_source_ipv6`: the source addresses the two targets give, `none` for an `OSError`. -/
def preferredSourceIpv6 : List (Option Text) → Text
  | [] => []
  | none :: rest => preferredSourceIpv6 rest
  | some address :: rest =>
    match ipAddress address with
    | some ip => if usableGlobalIpv6 ip then ip.compressed else preferredSourceIpv6 rest
    | none => preferredSourceIpv6 rest

/-- A candidate the node found itself. -/
def ownCandidate (type : CandidateType) (address : IpAddress) (port : ℕ) (priority : ℤ) : Candidate :=
  { type, family := familyOf address, endpoint := formatEndpoint address port, priority,
    verified := false }

/-- `reflexive6_candidate`. -/
def reflexive6Candidate (address : Text) (listenPort : ℕ) : Option Candidate :=
  match ipAddress address with
  | some ip =>
    if !usableGlobalIpv6 ip || !decide (1 ≤ listenPort ∧ listenPort ≤ 65535) then none
    else some (ownCandidate .reflexive6 ip listenPort (PRIORITY .reflexive6))
  | none => none

/-- The part of `mapped_candidate_from_state` under `try`: `None` when the state is for another
    socket or about to expire. -/
def mappedFromState (listenPort : ℕ) (lanIp : IpAddress) (now : ℚ) (state : Json) :
    Except Raised (Option Candidate) := do
  let .str internalIp := (← state.get "internal_ip").getD .null | .ok none
  if internalIp ≠ lanIp.compressed then .ok none else
  let internalPort ← toInt ((← state.get "internal_port").getD (.int 0))
  if internalPort ≠ listenPort then .ok none else
  let expiresAt ← toFloat ((← state.get "expires_at").getD (.int 0))
  if expiresAt.le (.fin (now + 15)) then .ok none else
  normalizeProbeCandidate ((← state.get "candidate").getD .null)

/-- `mapped_candidate_from_state`; `state` is the content of the state file, if it can be read. -/
def mappedCandidateFromState (listenPort : ℕ) (lanIp : IpAddress) (now : ℚ) (state : Option Json) :
    Except Raised (Option Candidate) :=
  match state with
  | none => .ok none
  | some state =>
    match mappedFromState listenPort lanIp now state with
    | .error e => if e.isTypeOrValueError then .ok none else .error e
    | .ok none => .ok none
    | .ok (some c) =>
      if c.type ≠ .mapped4 then .ok none else .ok (some { c with priority := PRIORITY .mapped4 })

/-- What the node sees of its surroundings. -/
structure Surroundings where
  now : ℚ
  interfaces : List Interface
  sources : List (Option Text)
  portmapState : Option Json

/-- `PREFERRED_HOST6_PRIORITY`. -/
def preferredHost6Priority : ℤ := 910

/-- The `host6` candidate of an address `global_ipv6_addresses` returned. -/
def host6Candidate (preferred : Text) (port : ℕ) (address : Text) : Option Candidate :=
  (ipAddress address).map fun ip =>
    ownCandidate .host6 ip port (if address = preferred then preferredHost6Priority else PRIORITY .host6)

/-- The candidates of the LAN address: none unless it is a private IPv4 address. -/
def lanCandidates (env : Surroundings) (port : ℕ) (lanIp : Text) : Except Raised (List Candidate) :=
  match ipAddress lanIp with
  | some ip =>
    if ip.version = 4 ∧ ip.isPrivate then do
      let mapped ← mappedCandidateFromState port ip env.now env.portmapState
      .ok (ownCandidate .lan4 ip port (PRIORITY .lan4) :: mapped.toList)
    else .ok []
  | none => .ok []

/-- `gather_candidates`. -/
def gatherCandidates (env : Surroundings) (port : ℕ) (lanIp : Text) :
    Except Raised (List Candidate) :=
  if ¬ (1 ≤ port ∧ port ≤ 65535) then .ok []
  else do
    let lan ← lanCandidates env port lanIp
    let preferred := preferredSourceIpv6 env.sources
    let hosts := (globalIpv6Addresses env.interfaces).filterMap (host6Candidate preferred port)
    .ok (dedupeByKey (lan ++ hosts))

/-! ### A live mapping is a probe candidate -/

theorem mappedFromState_ok {port : ℕ} {lanIp : IpAddress} {now : ℚ} {state : Json} {c : Candidate}
    (h : mappedFromState port lanIp now state = .ok (some c)) :
    ∃ value, normalizeProbeCandidate value = .ok (some c) := by
  cases state with
  | obj fields =>
    simp only [mappedFromState, Json.get, bind, Except.bind] at h
    split at h
    · split at h
      · cases h
      · cases hport : toInt ((Json.lookup "internal_port" fields).getD (.int 0)) with
        | error err => simp [hport] at h
        | ok internalPort =>
          cases hexpires : toFloat ((Json.lookup "expires_at" fields).getD (.int 0)) with
          | error err =>
            simp only [hport, hexpires] at h
            split at h <;> cases h
          | ok expiresAt =>
            simp only [hport, hexpires] at h
            split at h
            · cases h
            · split at h
              · cases h
              · exact ⟨_, h⟩
    · cases h
  | _ => cases h

/-- The candidate of the state file is a `mapped4` candidate with an IPv4 endpoint in normal form. -/
theorem mappedCandidateFromState_ok {port : ℕ} {lanIp : IpAddress} {now : ℚ} {state : Option Json}
    {c : Candidate} (h : mappedCandidateFromState port lanIp now state = .ok (some c)) :
    c.type = .mapped4 ∧ c.priority = 800 ∧ c.family = .udp4 ∧ ∃ e, c.endpoint = Endpoint.text e ∧
      ']' ∉ e.address.compressed ∧ e.address.version = 4 := by
  cases state with
  | none => cases h
  | some state =>
    unfold mappedCandidateFromState at h
    cases hstate : mappedFromState port lanIp now state with
    | error err =>
      simp only [hstate] at h
      split at h <;> cases h
    | ok found =>
      cases found with
      | none => simp [hstate] at h
      | some d =>
        obtain ⟨value, hvalue⟩ := mappedFromState_ok hstate
        obtain ⟨e, hendpoint, hclose, hfamily, haddress⟩ := normalizeProbeCandidate_ok hvalue
        simp only [hstate] at h
        split at h
        · cases h
        · rename_i htype
          have htype' := not_not.mp htype
          have hversion : e.address.version = 4 := by simpa [htype', probeAddress] using haddress
          simp only [Except.ok.injEq, Option.some.injEq] at h
          subst h
          refine ⟨htype', rfl, ?_, e, hendpoint, hclose, hversion⟩
          rw [hfamily, familyOf, if_neg (by rw [hversion]; decide)]

/-! ### The addresses found are distinct and usable -/

theorem nodup_globalIpv6Addresses (interfaces : List Interface) :
    (globalIpv6Addresses interfaces).Nodup := by
  have h : ((globalIpv6Addresses interfaces).map id).Nodup := nodup_keepFirst List.nodup_nil
  rwa [List.map_id] at h

theorem usable_of_mem_globalIpv6Addresses {interfaces : List Interface} {a : Text}
    (h : a ∈ globalIpv6Addresses interfaces) :
    ∃ ip, a = IpAddress.compressed ip ∧ usableGlobalIpv6 ip = true := by
  rcases mem_of_mem_keepFirst h with hnil | hmem
  · cases hnil
  · obtain ⟨info, -, hinfo⟩ := List.mem_filterMap.mp hmem
    rw [globalAddress] at hinfo
    split at hinfo
    · split at hinfo
      · rename_i ip _
        split at hinfo
        · rename_i husable
          exact ⟨ip, (Option.some.inj hinfo).symm, husable⟩
        · cases hinfo
      · cases hinfo
    · cases hinfo

end Candidates
