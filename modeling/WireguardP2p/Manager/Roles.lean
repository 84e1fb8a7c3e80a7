import WireguardP2p.Lib.Raising
import WireguardP2p.Coordinator.Registry

/-! `manage/wireguard-p2p.py`: `set_node_role`. The manager reads and rewrites the two registries the
    coordinator reads; either write may fail before the file is replaced. -/

namespace Manager
open Ipaddress Python Net Candidates Wg Coordinator Raising

/-- `COORDINATOR_IP`. -/
def coordinatorIp : Text := "10.0.0.1".toList

/-- `validate_role_ip`. -/
def validateRoleIp (value : Text) : Except Raised Text :=
  match ipAddress value with
  | none => .error (.runtimeError ("invalid overlay IP: " ++ String.ofList value))
  | some a =>
    if assignable coordinatorIp a then .ok a.compressed
    else .error (.runtimeError ("role IP must be an eligible 10.0.0.x address; " ++
      "coordinator/network/broadcast addresses are not assignable"))

/-- `read_role_registry`. -/
def readRoleRegistry : RoleFile → Except Raised (List Text)
  | .missing => .ok []
  | .unreadable => .error .osError
  | .undecodable => .error .builtinValueError
  | .text t => (((splitLines t).map registryValue).filter (· ≠ [])).mapM validateRoleIp

/-- `int(ipaddress.ip_address(value))`. -/
def addressNumber (value : Text) : ℕ := ((ipAddress value).map IpAddress.toNat).getD 0

/-- The text of a registry: the addresses in order, each on a line. -/
def registryText (values : List Text) : Text :=
  ((values.dedup.insertionSort fun a b => addressNumber a ≤ addressNumber b).map fun v => v ++ ['\n']).flatten

/-- What `write_role_registry` leaves of a file; `replaced` is whether the statements up to `os.replace` do
    not raise. -/
def writeRoleRegistry (replaced : Bool) (values : List Text) : Except Raised RoleFile := do
  let values ← values.mapM validateRoleIp
  if replaced then .ok (.text (registryText values)) else .error .osError

/-- The roles `set_node_role` takes. -/
def roleNamed (role : Text) : Except Raised Role :=
  if role = "client".toList then .ok .client
  else if role = "server".toList then .ok .server
  else if role = "relay_only".toList then .ok .relayOnly
  else .error (.runtimeError "role must be one of: client, server, relay_only")

/-- The addresses of a registry once the address has the role, in the registry of the role `own`. -/
def moved (own role : Role) (address : Text) (values : List Text) : List Text :=
  if role = own then address :: values.filter (· ≠ address) else values.filter (· ≠ address)

/-- Whether the two registries are replaced. -/
structure RoleCalls where
  servers : Bool
  relayOnly : Bool
  deriving DecidableEq

/-- `set_node_role`. -/
def setNodeRole (calls : RoleCalls) (address role : Text) : Raising Registries Raised Text := do
  let address ← ofExcept (validateRoleIp address)
  let role ← ofExcept (roleNamed role)
  let r ← get
  let servers ← ofExcept (readRoleRegistry r.servers)
  let relayOnly ← ofExcept (readRoleRegistry r.relayOnly)
  let file ← ofExcept (writeRoleRegistry calls.servers (moved .server role address servers))
  modify fun r => { r with servers := file }
  let file ← ofExcept (writeRoleRegistry calls.relayOnly (moved .relayOnly role address relayOnly))
  modify fun r => { r with relayOnly := file }
  return address

/-- The manager reads the two sets of addresses. -/
def Reads (r : Registries) (servers relayOnly : List Text) : Prop :=
  readRoleRegistry r.servers = .ok servers ∧ readRoleRegistry r.relayOnly = .ok relayOnly

/-! ### Reading and writing a registry -/

theorem validateRoleIp_ok {value v : Text} (h : validateRoleIp value = .ok v) : Canonical coordinatorIp v := by
  rw [validateRoleIp] at h
  cases hparse : ipAddress value with
  | none => simp [hparse] at h
  | some a =>
    simp only [hparse] at h
    split_ifs at h with ha
    rw [← Except.ok.inj h]
    exact canonical_compressed ha

theorem validateRoleIp_canonical {v : Text} (h : Canonical coordinatorIp v) : validateRoleIp v = .ok v := by
  obtain ⟨a, hparse, ha, hcompressed⟩ := h
  simp only [validateRoleIp, hparse, if_pos ha, hcompressed]

theorem mapM_canonical {vs : List Text} (h : ∀ v ∈ vs, Canonical coordinatorIp v) :
    vs.mapM validateRoleIp = .ok vs := by
  induction vs with
  | nil => rfl
  | cons v vs ih =>
    rw [List.mapM_cons, validateRoleIp_canonical (h v List.mem_cons_self),
      ih fun w hw => h w (List.mem_cons_of_mem v hw)]
    rfl

theorem read_canonical {f : RoleFile} {vs : List Text} (h : readRoleRegistry f = .ok vs) :
    ∀ v ∈ vs, Canonical coordinatorIp v := by
  cases f with
  | missing =>
    obtain rfl := Except.ok.inj h
    exact fun v hv => absurd hv List.not_mem_nil
  | unreadable => cases h
  | undecodable => cases h
  | text t =>
    intro v hv
    obtain ⟨value, -, hvalue⟩ := of_mem_mapM h v hv
    exact validateRoleIp_ok hvalue

theorem moved_canonical {own role : Role} {address : Text} {vs : List Text} (ha : Canonical coordinatorIp address)
    (h : ∀ v ∈ vs, Canonical coordinatorIp v) : ∀ v ∈ moved own role address vs, Canonical coordinatorIp v := by
  intro v hv
  rw [moved] at hv
  split_ifs at hv
  · rcases List.mem_cons.mp hv with rfl | hv
    · exact ha
    · exact h v (List.mem_of_mem_filter hv)
  · exact h v (List.mem_of_mem_filter hv)

theorem mem_moved {own role : Role} {address v : Text} {vs : List Text} :
    v ∈ moved own role address vs ↔ if v = address then role = own else v ∈ vs := by
  rw [moved]
  by_cases hv : v = address <;> by_cases hr : role = own <;> simp [hv, hr]

/-- The registry that is written is read by the coordinator. -/
theorem load_registryText {vs : List Text} (h : ∀ v ∈ vs, Canonical coordinatorIp v) :
    ∃ l, loadRoleRegistry (RoleFile.text (registryText vs)).opened = .ok l ∧ ∀ v, v ∈ l ↔ v ∈ vs := by
  refine ⟨_, load_lines fun v hv => h v ?_, fun v => ?_⟩
  · rwa [List.mem_insertionSort, List.mem_dedup] at hv
  · rw [List.mem_dedup, List.mem_insertionSort, List.mem_dedup]

theorem write_canonical {vs : List Text} (h : ∀ v ∈ vs, Canonical coordinatorIp v) (replaced : Bool) :
    writeRoleRegistry replaced vs =
      if replaced then .ok (.text (registryText vs)) else .error .osError := by
  simp only [writeRoleRegistry, mapM_canonical h, bind, Except.bind]

/-! ### A change of role -/

/-- The address has the role and is in no other registry, the other addresses have the roles they had. -/
structure Framed (r r' : Registries) (address : Text) (role : Role) : Prop where
  taken : peerRole r' address = .ok role
  servers : InRegistry r'.servers address → role = .server
  relayOnly : InRegistry r'.relayOnly address → role = .relayOnly
  others : ∀ ip, ip ≠ address → peerRole r' ip = peerRole r ip

/-- Every role is what it was, and so is `server_ips()`. -/
def Untouched (r r' : Registries) : Prop :=
  ∀ ip, peerRole r' ip = peerRole r ip ∧ (InRegistry r'.servers ip ↔ InRegistry r.servers ip)

/-- All or nothing: the change is made and framed, or it raises and nothing has changed. -/
def AllOrNothing (role : Text) (r : Registries) : Except Raised Text × Registries → Prop
  | (.ok address, r') => ∃ role', roleNamed role = .ok role' ∧ Framed r r' address role'
  | (.error _, r') => Untouched r r'

/-- Once the first registry is replaced: if the second is replaced too, the coordinator has read the same
    roles of the other addresses as the manager; if not, the new set of servers is the one it has read. -/
def Agrees (calls : RoleCalls) (address role : Text) (r : Registries) : Prop :=
  ∀ a role' servers relayOnly, validateRoleIp address = .ok a → roleNamed role = .ok role' →
    Reads r servers relayOnly → calls.servers = true →
      if calls.relayOnly then ∀ ip, ip ≠ a → peerRole r ip = .ok (roleIn servers relayOnly ip)
      else ∀ ip, ip ∈ moved .server role' a servers ↔ InRegistry r.servers ip

theorem untouched_refl (r : Registries) : Untouched r r := fun _ => ⟨rfl, Iff.rfl⟩

/-- The manager reads no file that the coordinator cannot read. -/
theorem load_of_read {f : RoleFile} {vs : List Text} (h : readRoleRegistry f = .ok vs) :
    ∃ l, loadRoleRegistry f.opened = .ok l := by
  cases f with
  | missing => exact ⟨_, rfl⟩
  | unreadable => cases h
  | undecodable => cases h
  | text t => exact ⟨_, rfl⟩

theorem inRegistry_iff {f : RoleFile} {l : List Text} (h : loadRoleRegistry f.opened = .ok l) (ip : Text) :
    InRegistry f ip ↔ ip ∈ l := by
  constructor
  · rintro ⟨l', hl', hip⟩
    rwa [Except.ok.inj (h.symm.trans hl')]
  · exact fun hip => ⟨l, h, hip⟩

section Change
variable {r : Registries} {a : Text} {role : Role} {servers relayOnly : List Text}

/-- Both registries are replaced. -/
theorem framed_iff (ha : Canonical coordinatorIp a) (hread : Reads r servers relayOnly) :
    Framed r ⟨.text (registryText (moved .server role a servers)),
        .text (registryText (moved .relayOnly role a relayOnly))⟩ a role ↔
      ∀ ip, ip ≠ a → peerRole r ip = .ok (roleIn servers relayOnly ip) := by
  obtain ⟨ls, hls, hservers⟩ := load_registryText (@moved_canonical .server role a servers ha (read_canonical hread.1))
  obtain ⟨lr, hlr, hrelay⟩ :=
    load_registryText (@moved_canonical .relayOnly role a relayOnly ha (read_canonical hread.2))
  have hpeer : ∀ ip, peerRole ⟨.text (registryText (moved .server role a servers)),
      .text (registryText (moved .relayOnly role a relayOnly))⟩ ip =
        .ok (roleIn (moved .server role a servers) (moved .relayOnly role a relayOnly) ip) := fun ip =>
    (peerRole_eq hls hlr ip).trans (congrArg _ (roleIn_congr (hservers ip) (hrelay ip)))
  have hother : ∀ ip, ip ≠ a → roleIn (moved .server role a servers) (moved .relayOnly role a relayOnly) ip =
      roleIn servers relayOnly ip := fun ip hip =>
    roleIn_congr (by rw [mem_moved, if_neg hip]) (by rw [mem_moved, if_neg hip])
  constructor
  · intro h ip hip
    rw [← h.others ip hip, hpeer, hother ip hip]
  · intro h
    refine ⟨?_, fun hin => ?_, fun hin => ?_, fun ip hip => ?_⟩
    · rw [hpeer, roleIn]
      simp only [mem_moved, if_true]
      cases role <;> rfl
    · rw [inRegistry_iff hls, hservers, mem_moved, if_pos rfl] at hin
      exact hin
    · rw [inRegistry_iff hlr, hrelay, mem_moved, if_pos rfl] at hin
      exact hin
    · rw [hpeer, hother ip hip, h ip hip]

/-- The first registry is replaced and the second is not. -/
theorem untouched_iff (ha : Canonical coordinatorIp a) (hread : Reads r servers relayOnly) :
    Untouched r { r with servers := .text (registryText (moved .server role a servers)) } ↔
      ∀ ip, ip ∈ moved .server role a servers ↔ InRegistry r.servers ip := by
  obtain ⟨ls, hls, hservers⟩ := load_registryText (@moved_canonical .server role a servers ha (read_canonical hread.1))
  obtain ⟨cs, hcs⟩ := load_of_read hread.1
  obtain ⟨cr, hcr⟩ := load_of_read hread.2
  constructor
  · intro h ip
    rw [← (h ip).2, inRegistry_iff hls, hservers]
  · intro h ip
    have hsame : ip ∈ ls ↔ ip ∈ cs := by rw [hservers, h, inRegistry_iff hcs]
    refine ⟨?_, by rw [inRegistry_iff hls, inRegistry_iff hcs, hsame]⟩
    have hpeer := @peerRole_eq { r with servers := .text (registryText (moved .server role a servers)) } ls cr hls hcr ip
    rw [hpeer, peerRole_eq hcs hcr, roleIn_congr hsame Iff.rfl]

end Change

/-- A change of role is all or nothing, and framed, exactly if the two programs agree on what they read. -/
theorem role_change_iff (calls : RoleCalls) (address role : Text) (r : Registries) :
    AllOrNothing role r ((setNodeRole calls address role).run r) ↔ Agrees calls address role r := by
  cases hvalid : validateRoleIp address with
  | error e =>
    have hrun : (setNodeRole calls address role).run r = (.error e, r) := by
      rw [setNodeRole, hvalid]
      rfl
    rw [hrun]
    exact iff_of_true (untouched_refl r) fun a _ _ _ ha => by cases hvalid.symm.trans ha
  | ok a =>
    cases hrole : roleNamed role with
    | error e =>
      have hrun : (setNodeRole calls address role).run r = (.error e, r) := by
        rw [setNodeRole, hvalid, hrole]
        rfl
      rw [hrun]
      exact iff_of_true (untouched_refl r) fun _ _ _ _ _ hr => by cases hrole.symm.trans hr
    | ok role' =>
      have ha := validateRoleIp_ok hvalid
      by_cases hreads : ∃ servers relayOnly, Reads r servers relayOnly
      · obtain ⟨servers, relayOnly, hread⟩ := hreads
        have hservers := write_canonical (@moved_canonical .server role' a servers ha (read_canonical hread.1)) calls.servers
        have hrelay := write_canonical (@moved_canonical .relayOnly role' a relayOnly ha (read_canonical hread.2))
          calls.relayOnly
        -- the premises of the condition have one solution
        have hagrees : Agrees calls address role r ↔ (calls.servers = true →
            if calls.relayOnly then ∀ ip, ip ≠ a → peerRole r ip = .ok (roleIn servers relayOnly ip)
            else ∀ ip, ip ∈ moved .server role' a servers ↔ InRegistry r.servers ip) := by
          constructor
          · exact fun h => h a role' servers relayOnly hvalid hrole hread
          · intro h a₁ role₁ servers₁ relayOnly₁ hvalid₁ hrole₁ hread₁
            obtain rfl := Except.ok.inj (hvalid.symm.trans hvalid₁)
            obtain rfl := Except.ok.inj (hrole.symm.trans hrole₁)
            obtain rfl := Except.ok.inj (hread.1.symm.trans hread₁.1)
            obtain rfl := Except.ok.inj (hread.2.symm.trans hread₁.2)
            exact h
        rw [hagrees]
        obtain ⟨first, second⟩ := calls
        cases first with
        | false =>
          have hrun : (setNodeRole ⟨false, second⟩ address role).run r = (.error .osError, r) := by
            simp only [setNodeRole, hvalid, hrole, ofExcept_ok_bind, run_get_bind, hread.1, hread.2, hservers,
              Bool.false_eq_true, if_false, run_ofExcept_error]
          rw [hrun]
          exact iff_of_true (untouched_refl r) fun h => by cases h
        | true =>
          cases second with
          | false =>
            have hrun : (setNodeRole ⟨true, false⟩ address role).run r =
                (.error .osError, { r with servers := .text (registryText (moved .server role' a servers)) }) := by
              simp only [setNodeRole, hvalid, hrole, ofExcept_ok_bind, run_get_bind, hread.1, hread.2, hservers,
                hrelay, if_true, run_modify_bind, Bool.false_eq_true, if_false, run_ofExcept_error]
            rw [hrun, AllOrNothing, untouched_iff ha hread]
            exact ⟨fun h _ => h, fun h => h rfl⟩
          | true =>
            have hrun : (setNodeRole ⟨true, true⟩ address role).run r =
                (.ok a, ⟨.text (registryText (moved .server role' a servers)),
                  .text (registryText (moved .relayOnly role' a relayOnly))⟩) := by
              simp only [setNodeRole, hvalid, hrole, ofExcept_ok_bind, run_get_bind, hread.1, hread.2, hservers,
                hrelay, if_true, run_modify_bind]
              rfl
            rw [hrun, AllOrNothing]
            constructor
            · rintro ⟨role₁, hrole₁, hframed⟩ _
              obtain rfl := Except.ok.inj (hrole.symm.trans hrole₁)
              exact (framed_iff ha hread).mp hframed
            · exact fun h => ⟨role', hrole, (framed_iff ha hread).mpr (h rfl)⟩
      · have hrun : ∃ e, (setNodeRole calls address role).run r = (.error e, r) := by
          simp only [setNodeRole, hvalid, hrole, ofExcept_ok_bind, run_get_bind]
          cases hservers : readRoleRegistry r.servers with
          | error e => exact ⟨e, rfl⟩
          | ok servers =>
            rw [ofExcept_ok_bind]
            cases hrelay : readRoleRegistry r.relayOnly with
            | error e => exact ⟨e, rfl⟩
            | ok relayOnly => exact absurd ⟨servers, relayOnly, hservers, hrelay⟩ hreads
        obtain ⟨e, hrun⟩ := hrun
        rw [hrun]
        exact iff_of_true (untouched_refl r) fun _ _ servers relayOnly _ _ hread =>
          absurd ⟨servers, relayOnly, hread⟩ hreads

/-! ### Plain files -/

/-- The only line boundaries of the file are line ends. -/
def Plain : RoleFile → Prop
  | .text t => ∀ c ∈ t, isLineBreak c = true → c = '\n' ∨ c = '\r'
  | _ => True

theorem mem_replaceCrlf : ∀ {t : Text} {c : Char}, c ∈ replaceCrlf t → c ∈ t := by
  intro t
  induction t using replaceCrlf.induct with
  | case1 t ih =>
    intro c hc
    rw [replaceCrlf] at hc
    rcases List.mem_cons.mp hc with rfl | hc
    · simp
    · simp [ih hc]
  | case2 d t hd ih =>
    intro c hc
    rw [replaceCrlf.eq_2 d t hd] at hc
    rcases List.mem_cons.mp hc with rfl | hc
    · exact List.mem_cons_self
    · exact List.mem_cons_of_mem d (ih hc)
  | case3 => exact fun h => h

/-- The lines that name something are the same for both programs. -/
theorem mem_lines_plain {t : Text} (h : Plain (.text t)) {line : Text} (hne : line ≠ []) :
    line ∈ splitLines t ↔ line ∈ fileLines t := by
  have hcongr : (replaceCrlf t).splitOnP isLineBreak = fileLines t := by
    refine splitOnP_congr fun c hc => ?_
    by_cases hbreak : isLineBreak c = true
    · rw [hbreak]
      rcases h c (mem_replaceCrlf hc) hbreak with rfl | rfl <;> rfl
    · rw [Bool.not_eq_true] at hbreak
      rw [hbreak, eq_comm, Bool.or_eq_false_iff, beq_eq_false_iff_ne, beq_eq_false_iff_ne]
      constructor
      · rintro rfl
        exact absurd hbreak (by decide)
      · rintro rfl
        exact absurd hbreak (by decide)
  rw [splitLines, hcongr]
  split_ifs with hlast
  · obtain ⟨lines, hlines⟩ := List.getLast?_eq_some_iff.mp hlast
    rw [hlines, List.dropLast_concat, List.mem_append, List.mem_singleton]
    exact ⟨.inl, fun hmem => hmem.resolve_right hne⟩
  · exact Iff.rfl

/-- What the manager reads of a plain file the coordinator reads. -/
theorem readings_agree {f : RoleFile} {vs : List Text} (hplain : Plain f) (h : readRoleRegistry f = .ok vs)
    (v : Text) : InRegistry f v ↔ v ∈ vs := by
  cases f with
  | missing =>
    obtain rfl := Except.ok.inj h
    exact inRegistry_iff rfl v
  | unreadable => cases h
  | undecodable => cases h
  | text t =>
    rw [inRegistry_iff rfl, List.mem_dedup, List.mem_filterMap]
    have hvalues : ∀ line ∈ splitLines t, registryValue line ≠ [] → ∃ w ∈ vs, validateRoleIp (registryValue line) = .ok w :=
      fun line hline hne => mem_of_mapM h _ (List.mem_filter.mpr ⟨List.mem_map_of_mem hline, decide_eq_true hne⟩)
    have hempty : registryValue [] = [] := rfl
    constructor
    · rintro ⟨line, hline, haddress⟩
      obtain ⟨a, hparse, ha, rfl⟩ := registryAddress_some.mp haddress
      have hne : registryValue line ≠ [] := by
        intro hvalue
        rw [hvalue] at hparse
        cases hparse
      have hline' : line ≠ [] := by
        rintro rfl
        exact hne hempty
      obtain ⟨w, hw, hvalid⟩ := hvalues line ((mem_lines_plain hplain hline').mpr hline) hne
      have hcompressed : validateRoleIp (registryValue line) = .ok a.compressed := by
        simp only [validateRoleIp, hparse]
        exact if_pos ha
      rwa [← Except.ok.inj (hvalid.symm.trans hcompressed)]
    · intro hv
      obtain ⟨value, hvalue, hvalid⟩ := of_mem_mapM h v hv
      obtain ⟨hvalue, hne⟩ := List.mem_filter.mp hvalue
      obtain ⟨line, hline, rfl⟩ := List.mem_map.mp hvalue
      have hne := of_decide_eq_true hne
      have hline' : line ≠ [] := by
        rintro rfl
        exact hne hempty
      refine ⟨line, (mem_lines_plain hplain hline').mp hline, registryAddress_some.mpr ?_⟩
      rw [validateRoleIp] at hvalid
      cases hparse : ipAddress (registryValue line) with
      | none => simp [hparse] at hvalid
      | some a =>
        simp only [hparse] at hvalid
        split_ifs at hvalid with ha
        exact ⟨a, rfl, ha, Except.ok.inj hvalid⟩

/-- In plain files a change that is not interrupted is framed. -/
theorem plain_agrees {r : Registries} (hs : Plain r.servers) (hr : Plain r.relayOnly) (address role : Text) :
    Agrees ⟨true, true⟩ address role r := by
  intro a role' servers relayOnly _ _ hread _
  rw [if_pos rfl]
  intro ip _
  obtain ⟨cs, hcs⟩ := load_of_read hread.1
  obtain ⟨cr, hcr⟩ := load_of_read hread.2
  rw [peerRole_eq hcs hcr, roleIn_congr]
  · rw [← inRegistry_iff hcs, readings_agree hs hread.1]
  · rw [← inRegistry_iff hcr, readings_agree hr hread.2]

/-! ### An interrupted change -/

/-- No registry yet. -/
def noRegistries : Registries := ⟨.missing, .missing⟩

/-- The registry of the servers is replaced, the other write fails: the call raises, and 10.0.0.8 is a
    server. -/
theorem interrupted_change : ¬ AllOrNothing "server".toList noRegistries
    ((setNodeRole ⟨true, false⟩ "10.0.0.8".toList "server".toList).run noRegistries) := by
  have hserver : (peerRole ((setNodeRole ⟨true, false⟩ "10.0.0.8".toList "server".toList).run noRegistries).2
      "10.0.0.8".toList).toOption = some .server := by decide +kernel
  have hraised : ((setNodeRole ⟨true, false⟩ "10.0.0.8".toList "server".toList).run noRegistries).1.toOption =
      none := by decide +kernel
  have hclient : (peerRole noRegistries "10.0.0.8".toList).toOption = some .client := by decide +kernel
  generalize (setNodeRole ⟨true, false⟩ "10.0.0.8".toList "server".toList).run noRegistries = result at hserver hraised
  rcases result with ⟨_ | _, r'⟩
  · intro h
    rw [(h "10.0.0.8".toList).1, hclient] at hserver
    cases hserver
  · cases hraised

end Manager
