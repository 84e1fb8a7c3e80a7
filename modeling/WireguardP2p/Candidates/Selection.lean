import WireguardP2p.Candidates.Policy

/-! `candidates.py`: which endpoints are what, and which of the advertised candidates are probed. -/

namespace Candidates
open Ipaddress Python Net

/-- `PRIORITY`. -/
def PRIORITY : CandidateType → ℤ
  | .lan4 => 1000
  | .host6 => 900
  | .observed6 => 850
  | .reflexive6 => 825
  | .mapped4 => 800
  | .observed4 => 700
  | .predicted4 => 500

def maxProbeCandidates : ℕ := 5

/-- `NON_HOST_IPV6_NETWORKS`. -/
def nonHostIpv6Networks : List (Network 128) :=
  [net6 [0x64, 0xff9b] 96, net6 [0x64, 0xff9b, 1] 48, net6 [0x100] 64, net6 [0x2001] 32,
   net6 [0x2001, 2] 48, net6 [0x2001, 3] 32, net6 [0x2001, 4, 0x112] 48, net6 [0x2001, 0x10] 28,
   net6 [0x2001, 0x20] 28, net6 [0x2001, 0xdb8] 32, net6 [0x2002] 16, net6 [0x3fff] 20]

/-- `parse_endpoint`: the normal form, the address and the port. -/
def parseEndpoint (value : Json) : Except Raised (Text × IpAddress × ℕ) :=
  (readEndpoint value).map fun e => (formatEndpoint e.address e.port, e.address, e.port)

/-- `usable_global_ipv6` of an address. -/
def usableGlobalIpv6 (ip : IpAddress) : Bool :=
  ip.version == 6 && ip.isGlobal && !ip.isPrivate && !ip.isLinkLocal && !ip.isLoopback &&
    !ip.isMulticast && !nonHostIpv6Networks.any (·.contains ip.toNat)

/-- The address in `10.0.0.0/prefix` style networks: the first 24 bits agree. -/
def sameSubnet24 (a b : IpAddress) : Bool := a.toNat / 2 ^ 8 == b.toNat / 2 ^ 8

/-- `same_private_subnet`, with the prefix length it is called with. -/
def samePrivateSubnet (ourLanIp : Text) (peerLanEndpoint : Json) : Bool :=
  match ipAddress ourLanIp, parseEndpoint peerLanEndpoint with
  | some ours, .ok (_, peer, _) =>
    ours.version == 4 && ours.isPrivate && (peer.version == 4 && peer.isPrivate) &&
      sameSubnet24 peer ours
  | _, _ => false

/-- The addresses a type may have, in `normalize_probe_candidate`. -/
def probeAddress (type : CandidateType) (address : IpAddress) : Bool :=
  match type with
  | .lan4 => address.version == 4 && address.isPrivate
  | .host6 | .observed6 | .reflexive6 => usableGlobalIpv6 address
  | .mapped4 | .observed4 | .predicted4 => address.version == 4

/-- `value.get("priority") or PRIORITY[type]`. -/
def priorityOr (type : CandidateType) (value : Option Json) : Json :=
  match value with
  | some v => if v.truthy then v else .int (PRIORITY type)
  | none => .int (PRIORITY type)

/-- `normalize_probe_candidate`. -/
def normalizeProbeCandidate : Json → Except Raised (Option Candidate)
  | .obj fields => do
    match ← lookupType CandidateType.all (some ((Json.lookup "type" fields).getD (.str []))) with
    | none => .ok none
    | some type =>
      match parseEndpoint ((Json.lookup "endpoint" fields).getD (.str [])) with
      | .error _ => .ok none
      | .ok (endpoint, address, _) =>
        if probeAddress type address then
          let priority ← toInt (priorityOr type (Json.lookup "priority" fields))
          .ok (some { type, family := familyOf address, endpoint, priority,
                      verified := ((Json.lookup "verified" fields).getD (.bool false)).truthy })
        else .ok none
  | _ => .ok none

/-- `str(endpoint_type).lower() in ("lan", "lan4")`; only a text prints as one of these. -/
def isLan : Json → Bool
  | .str t =>
    let lower := t.map Char.toLower
    lower == "lan".toList || lower == "lan4".toList
  | _ => false

/-- `_dedupe_and_sort(candidates, by_endpoint=True)`. -/
def dedupeByEndpoint (cs : List Candidate) : List Candidate :=
  keepFirst Candidate.endpoint [] ((cs.insertionSort Candidate.beforeByEndpoint).filter
    fun c => decide (c.endpoint ≠ []))

/-- `_dedupe_and_sort(candidates, by_endpoint=False)`. -/
def dedupeByKey (cs : List Candidate) : List Candidate :=
  keepFirst Candidate.key [] (cs.insertionSort Candidate.beforeByEndpoint)

/-- The loop over the advertised candidates in `select_probe_candidates`. -/
def admitted (allowLan allowIpv6 : Bool) : List Json → Except Raised (List Candidate)
  | [] => .ok []
  | v :: vs => do
    let candidate ← normalizeProbeCandidate v
    let rest ← admitted allowLan allowIpv6 vs
    match candidate with
    | none => .ok rest
    | some c =>
      if c.type = .lan4 ∧ !allowLan then .ok rest
      else if (c.type = .host6 ∨ c.type = .observed6 ∨ c.type = .reflexive6) ∧ !allowIpv6 then .ok rest
      else .ok (c :: rest)

/-- The candidate made of the legacy endpoint. -/
def legacyCandidate (allowLan allowIpv6 : Bool) (legacyEndpoint : Text) : Option Candidate :=
  match parseEndpoint (.str legacyEndpoint) with
  | .error _ => none
  | .ok (endpoint, address, _) =>
    let type :=
      if allowLan && address.version == 4 && address.isPrivate then some CandidateType.lan4
      else if address.version == 6 && usableGlobalIpv6 address && allowIpv6 then some .host6
      else if address.version == 4 then some .observed4
      else none
    type.map fun t =>
      { type := t, family := familyOf address, endpoint, priority := PRIORITY t,
        verified := t == .observed4 }

/-- The bound at the end of `select_probe_candidates`: the best five, with the observed endpoint in
    the last place if it is not among them. -/
def boundSelection (candidates : List Candidate) : List Candidate :=
  if candidates.length ≤ maxProbeCandidates then candidates
  else
    let selected := candidates.take maxProbeCandidates
    match candidates.find? fun c => decide (c.type = .observed4) with
    | some observed =>
      if observed.endpoint ∈ selected.map Candidate.endpoint then selected
      else (selected.dropLast ++ [observed]).insertionSort Candidate.beforeByEndpoint
    | none => selected

/-- `select_probe_candidates`; an empty legacy endpoint is none. -/
def selectProbeCandidates (values : List Json) (legacyEndpoint : Text) (endpointType : Json)
    (allowIpv6 : Bool) : Except Raised (List Candidate) := do
  let allowLan := isLan endpointType
  let candidates ← admitted allowLan allowIpv6 values
  let legacy := if legacyEndpoint = [] then none else legacyCandidate allowLan allowIpv6 legacyEndpoint
  .ok (boundSelection (dedupeByEndpoint (candidates ++ legacy.toList)))

/-- `candidate_signature`. -/
def candidateSignature (candidates : List Candidate) : Text :=
  [';'].intercalate (candidates.map fun c => c.type.name.toList ++ '|' :: c.endpoint)

/-- `candidate_type_for_endpoint`; `none` is the empty text. -/
def candidateTypeForEndpoint (candidates : List Candidate) (endpoint : Text) : Option CandidateType :=
  (candidates.find? fun c => decide (c.endpoint = endpoint)).map Candidate.type

/-- `candidate_endpoint_exists`. -/
def candidateEndpointExists (candidates : List Candidate) (endpoint : Text) : Bool :=
  (candidateTypeForEndpoint candidates endpoint).isSome

/-- `observed_type_for_endpoint`; `none` is the empty text. -/
def observedTypeForEndpoint (endpoint : Text) : Option CandidateType :=
  match parseEndpoint (.str endpoint) with
  | .error _ => none
  | .ok (_, address, _) =>
    if address.version == 6 && usableGlobalIpv6 address then some .observed6
    else if address.version == 4 && address.isGlobal && !address.isPrivate then some .observed4
    else none

/-- The normal form of an accepted endpoint is its printed form. -/
theorem parseEndpoint_eq {value : Json} {e : Endpoint} (h : readEndpoint value = .ok e) :
    parseEndpoint value = .ok (e.text, e.address, e.port) := by
  rw [parseEndpoint, h]
  rfl

theorem parseEndpoint_ok {value : Json} {r : Text × IpAddress × ℕ} (h : parseEndpoint value = .ok r) :
    ∃ e, readEndpoint value = .ok e ∧ r = (e.text, e.address, e.port) := by
  rw [parseEndpoint] at h
  cases hread : readEndpoint value with
  | error err => simp [hread, Except.map] at h
  | ok e =>
    rw [hread] at h
    simp only [Except.map, Except.ok.injEq] at h
    exact ⟨e, rfl, h.symm⟩

/-- Only the empty list has the empty signature. -/
theorem candidateSignature_ne_nil {cs : List Candidate} (h : cs ≠ []) : candidateSignature cs ≠ [] := by
  unfold candidateSignature
  cases cs with
  | nil => exact absurd rfl h
  | cons c rest =>
    rw [List.map_cons]
    cases rest.map fun c : Candidate => c.type.name.toList ++ '|' :: c.endpoint with
    | nil => simp
    | cons t ts => simp [List.intercalate, List.intersperse]

/-- Distinct candidates are only reordered. -/
theorem dedupeByKey_perm {cs : List Candidate} (h : (cs.map Candidate.key).Nodup) :
    (dedupeByKey cs).Perm cs := by
  have hsort := List.perm_insertionSort Candidate.beforeByEndpoint cs
  have hnodup := (hsort.map Candidate.key).nodup_iff.mpr h
  rw [dedupeByKey, keepFirst_self hnodup]
  exact hsort

/-- A probe candidate is in normal form, with an address its type may have. -/
theorem normalizeProbeCandidate_ok {value : Json} {c : Candidate}
    (h : normalizeProbeCandidate value = .ok (some c)) :
    ∃ e, c.endpoint = Endpoint.text e ∧ ']' ∉ e.address.compressed ∧ c.family = familyOf e.address ∧
      probeAddress c.type e.address = true := by
  cases value with
  | obj fields =>
    rw [normalizeProbeCandidate] at h
    cases htype : lookupType CandidateType.all (some ((Json.lookup "type" fields).getD (.str []))) with
    | error err => simp [htype, bind, Except.bind] at h
    | ok found =>
      cases found with
      | none => simp [htype, bind, Except.bind] at h
      | some type =>
        cases hparse : parseEndpoint ((Json.lookup "endpoint" fields).getD (.str [])) with
        | error err => simp [htype, hparse, bind, Except.bind] at h
        | ok parts =>
          obtain ⟨e, hread, rfl⟩ := parseEndpoint_ok hparse
          simp only [htype, hparse, bind, Except.bind] at h
          split at h
          · rename_i haddress
            split at h
            · cases h
            · simp only [Except.ok.injEq, Option.some.injEq] at h
              subst h
              exact ⟨e, rfl, not_mem_compressed_of_readEndpoint hread, rfl, haddress⟩
          · simp at h
  | _ => cases h

/-- What `usable_global_ipv6` says of an address the other components look at. -/
theorem usableGlobalIpv6_facts {ip : IpAddress} (h : usableGlobalIpv6 ip = true) :
    ip.version = 6 ∧ ip.isGlobal = true ∧ ip.isPrivate = false ∧ ip.isLinkLocal = false ∧
      ip.isMulticast = false := by
  simp only [usableGlobalIpv6, Bool.and_eq_true, beq_iff_eq, Bool.not_eq_true'] at h
  exact ⟨h.1.1.1.1.1.1, h.1.1.1.1.1.2, h.1.1.1.1.2, h.1.1.1.2, h.1.2⟩

/-- Zero is private, so a usable address is not the unspecified one. -/
theorem not_isUnspecified_of_usable {ip : IpAddress} (h : usableGlobalIpv6 ip = true) :
    ip.isUnspecified = false := by
  obtain ⟨h6, -, hpriv, -, -⟩ := usableGlobalIpv6_facts h
  obtain ⟨n, s, rfl⟩ := IpAddress.version_eq_six.mp h6
  by_contra hzero
  have hn : n.val = 0 := by simpa [IpAddress.isUnspecified] using hzero
  have hbad : isPrivate6 0 = true := by decide
  rw [IpAddress.isPrivate, hn, hbad] at hpriv
  cases hpriv

end Candidates
