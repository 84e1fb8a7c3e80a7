import WireguardP2p.Lib.Runs
import WireguardP2p.Manager.Roles

/-! `manage/wireguard-p2p.py`: the commands `server`, `relay-only` and `role`, one after the other. Two text
    files that two programs read are a book that marks each address; each command writes in the book at one
    address, or stops with one of its two marks made. -/

namespace Manager
open Ipaddress Python Net Candidates Wg Coordinator Raising

inductive Action
  | add
  | remove
  deriving DecidableEq

/-- `manage_servers` and `manage_relay_only`, with an action and an address. -/
def manageRegistry (registry : Registries → RoleFile) (role : Text) (calls : RoleCalls) (action : Action)
    (value : Text) : Raising Registries Raised Unit := do
  let address ← ofExcept (validateRoleIp value)
  match action with
  | .add =>
    let _ ← setNodeRole calls address role
    return ()
  | .remove =>
    let r ← get
    let values ← ofExcept (readRoleRegistry (registry r))
    if address ∈ values then
      let _ ← setNodeRole calls address "client".toList
      return ()
    else return ()

/-- `manage_servers`. -/
def manageServers : RoleCalls → Action → Text → Raising Registries Raised Unit :=
  manageRegistry Registries.servers "server".toList

/-- `manage_relay_only`. -/
def manageRelayOnly : RoleCalls → Action → Text → Raising Registries Raised Unit :=
  manageRegistry Registries.relayOnly "relay_only".toList

/-- `explicit_roles`. -/
def explicitRoles (r : Registries) : Except Raised (Dict Text Role) := do
  let servers ← readRoleRegistry r.servers
  let relayOnly ← readRoleRegistry r.relayOnly
  return relayOnly.foldl (fun d address => d.set address .relayOnly)
    (servers.foldl (fun d address => d.set address .server) .empty)

/-- A command that may change a role. -/
inductive RoleCommand
  | server (action : Action) (value : Text)
  | relayOnly (action : Action) (value : Text)
  /-- `role set`, of `manage_roles`. -/
  | set (address role : Text)
  deriving DecidableEq

def RoleCommand.perform (calls : RoleCalls) : RoleCommand → Raising Registries Raised Unit
  | .server action value => manageServers calls action value
  | .relayOnly action value => manageRelayOnly calls action value
  | .set address role => do
    let _ ← setNodeRole calls address role
    return ()

/-- One command after the other; each returns or raises. -/
def roleMachine : Runs.Machine Registries (RoleCommand × RoleCalls) :=
  ⟨fun r c => some ((c.1.perform c.2).run r).2⟩

/-! ### The book -/

/-- What is marked at an address. -/
structure Marks where
  server : Bool
  relayOnly : Bool
  deriving DecidableEq

def Marks.role (m : Marks) : Role :=
  if m.relayOnly then .relayOnly else if m.server then .server else .client

/-- The role is marked; the second mark is not made if the second write fails, and none if the first does. -/
def Marks.become (m : Marks) (role : Role) (calls : RoleCalls) : Marks where
  server := if calls.servers then decide (role = .server) else m.server
  relayOnly := if calls.servers && calls.relayOnly then decide (role = .relayOnly) else m.relayOnly

abbrev Book := Text → Marks

namespace Book

def become (book : Book) (address : Text) (role : Role) (calls : RoleCalls) : Book :=
  Function.update book address ((book address).become role calls)

/-- What a command of one registry asks for; `kind` are the marks of the registry, for the role `own`. -/
def registryAsks (book : Book) (kind : Marks → Bool) (own : Role) (action : Action) (value : Text) :
    Except Raised (Option (Text × Role)) := do
  let address ← validateRoleIp value
  match action with
  | .add => return some (address, own)
  | .remove => return if kind (book address) then some (address, .client) else none

/-- The address that is to have a role, if the command is not refused and there is something to do. -/
def asks (book : Book) : RoleCommand → Except Raised (Option (Text × Role))
  | .server action value => book.registryAsks Marks.server .server action value
  | .relayOnly action value => book.registryAsks Marks.relayOnly .relayOnly action value
  | .set address role => do
    let address ← validateRoleIp address
    let role ← roleNamed role
    return some (address, role)

/-- The book, once what is asked for is written. -/
def write (book : Book) (calls : RoleCalls) : Except Raised (Option (Text × Role)) → Book
  | .ok (some (address, role)) => book.become address role calls
  | _ => book

/-- What is asked for is done, and the command returns. -/
def done (calls : RoleCalls) : Except Raised (Option (Text × Role)) → Bool
  | .ok (some _) => calls.servers && calls.relayOnly
  | .ok none => true
  | .error _ => false

/-- The book after a command. -/
def after (book : Book) (c : RoleCommand × RoleCalls) : Book := book.write c.2 (book.asks c.1)

/-- The command returns. -/
def returns (book : Book) (c : RoleCommand × RoleCalls) : Bool := done c.2 (book.asks c.1)

/-- The book of two sets of addresses. -/
def ofSets (servers relayOnly : List Text) : Book := fun ip => ⟨decide (ip ∈ servers), decide (ip ∈ relayOnly)⟩

/-- The book of two sets of addresses, after commands. -/
def run (servers relayOnly : List Text) (cs : List (RoleCommand × RoleCalls)) : Book :=
  cs.foldl after (ofSets servers relayOnly)

end Book

/-! ### A file holds the marks of one kind -/

/-- Both programs read the marked addresses in the file. -/
def Marked (f : RoleFile) (mark : Text → Bool) : Prop :=
  ∃ vs, readRoleRegistry f = .ok vs ∧ (∀ ip, ip ∈ vs ↔ mark ip = true) ∧ ∀ ip, InRegistry f ip ↔ mark ip = true

/-- The registries hold the book. -/
structure Holds (r : Registries) (book : Book) : Prop where
  servers : Marked r.servers fun ip => (book ip).server
  relayOnly : Marked r.relayOnly fun ip => (book ip).relayOnly

theorem Marked.congr {f : RoleFile} {mark mark' : Text → Bool} (h : Marked f mark) (he : ∀ ip, mark' ip = mark ip) :
    Marked f mark' := by
  obtain ⟨vs, hvs, hmem, hin⟩ := h
  exact ⟨vs, hvs, fun ip => by rw [hmem, he], fun ip => by rw [hin, he]⟩

theorem holds_ofSets {r : Registries} {servers relayOnly : List Text} (hs : Plain r.servers) (hr : Plain r.relayOnly)
    (hread : Reads r servers relayOnly) : Holds r (.ofSets servers relayOnly) := by
  have hmarked {f : RoleFile} {vs : List Text} (hplain : Plain f) (h : readRoleRegistry f = .ok vs) :
      Marked f fun ip => decide (ip ∈ vs) :=
    ⟨vs, h, fun ip => decide_eq_true_iff.symm, fun ip => (readings_agree hplain h ip).trans decide_eq_true_iff.symm⟩
  exact ⟨hmarked hs hread.1, hmarked hr hread.2⟩

theorem plain_registryText {vs : List Text} (h : ∀ v ∈ vs, Canonical coordinatorIp v) :
    Plain (.text (registryText vs)) := by
  intro c hc hbreak
  obtain ⟨line, hline, hc⟩ := List.mem_flatten.mp hc
  obtain ⟨v, hv, rfl⟩ := List.mem_map.mp hline
  rw [List.mem_insertionSort, List.mem_dedup] at hv
  rcases List.mem_append.mp hc with hc | hc
  · rw [no_break ((h v hv).solid.1.2 c hc)] at hbreak
    cases hbreak
  · exact .inl (List.mem_singleton.mp hc)

/-- What the manager writes it reads back. -/
theorem read_registryText {vs : List Text} (h : ∀ v ∈ vs, Canonical coordinatorIp v) :
    ∃ l, readRoleRegistry (.text (registryText vs)) = .ok l := by
  refine ⟨_, mapM_canonical fun value hvalue => ?_⟩
  obtain ⟨hvalue, hne⟩ := List.mem_filter.mp hvalue
  obtain ⟨line, hline, rfl⟩ := List.mem_map.mp hvalue
  have hsorted : ∀ v ∈ vs.dedup.insertionSort (fun a b => addressNumber a ≤ addressNumber b),
      Canonical coordinatorIp v := by
    intro v hv
    rw [List.mem_insertionSort, List.mem_dedup] at hv
    exact h v hv
  have hline' : line ≠ [] := by
    rintro rfl
    exact absurd rfl (of_decide_eq_true hne)
  rw [mem_lines_plain (plain_registryText h) hline', registryText, fileLines_flatten] at hline
  · rcases List.mem_append.mp hline with hline | hline
    · obtain ⟨hsolid, hhash⟩ := (hsorted line hline).solid
      rw [registryValue_solid hsolid hhash]
      exact hsorted line hline
    · exact absurd (List.mem_singleton.mp hline) hline'
  · intro v hv
    have hsolid := (hsorted v hv).solid.1
    exact ⟨not_mem_of_solid hsolid (by decide), not_mem_of_solid hsolid (by decide)⟩

theorem marked_registryText {vs : List Text} (h : ∀ v ∈ vs, Canonical coordinatorIp v) :
    Marked (.text (registryText vs)) fun ip => decide (ip ∈ vs) := by
  obtain ⟨l, hl⟩ := read_registryText h
  obtain ⟨l', hl', hmem⟩ := load_registryText h
  have hin : ∀ ip, InRegistry (.text (registryText vs)) ip ↔ decide (ip ∈ vs) = true := fun ip => by
    rw [inRegistry_iff hl', hmem, decide_eq_true_iff]
  exact ⟨l, hl, fun ip => (readings_agree (plain_registryText h) hl ip).symm.trans (hin ip), hin⟩

theorem Marked.moved {f : RoleFile} {mark : Text → Bool} {vs : List Text} {own role : Role} {a : Text}
    (h : Marked f mark) (hvs : readRoleRegistry f = .ok vs) (ha : Canonical coordinatorIp a) :
    Marked (.text (registryText (moved own role a vs))) fun ip => if ip = a then decide (role = own) else mark ip := by
  obtain ⟨vs', hvs', hmem, -⟩ := h
  obtain rfl := Except.ok.inj (hvs.symm.trans hvs')
  refine (marked_registryText (moved_canonical ha (read_canonical hvs))).congr fun ip => ?_
  split
  · rename_i he
    exact decide_eq_decide.mpr (by rw [mem_moved, if_pos he])
  · rename_i hne
    rw [Bool.eq_iff_iff, decide_eq_true_iff, mem_moved, if_neg hne, hmem]

/-! ### A command writes in the book -/

section Command
variable {r : Registries} {book : Book}

theorem Holds.reads (h : Holds r book) : ∃ servers relayOnly, Reads r servers relayOnly := by
  obtain ⟨servers, hs, -⟩ := h.servers
  obtain ⟨relayOnly, hr, -⟩ := h.relayOnly
  exact ⟨servers, relayOnly, hs, hr⟩

/-- The marks of one kind, where one address has changed. -/
theorem Marked.update {f : RoleFile} {kind : Marks → Bool} {a : Text} {m : Marks}
    (h : Marked f fun ip => if ip = a then kind m else kind (book ip)) :
    Marked f fun ip => kind (Function.update book a m ip) := by
  refine h.congr fun ip => ?_
  rw [Function.update_apply]
  split <;> rfl

theorem Marked.still {f : RoleFile} {kind : Marks → Bool} {a : Text} {m : Marks}
    (h : Marked f fun ip => kind (book ip)) (hm : kind m = kind (book a)) :
    Marked f fun ip => kind (Function.update book a m ip) := by
  refine h.congr fun ip => ?_
  rw [Function.update_apply]
  split
  · rename_i he
    rw [hm, he]
  · rfl

/-- The registries hold this book, and whether the command returned is this. -/
def Follows {α : Type} (book : Book) (returned : Bool) (result : Except Raised α × Registries) : Prop :=
  Holds result.2 book ∧ result.1.isOk = returned

theorem Follows.done {α : Type} {p : Raising Registries Raised α} {returned : Bool}
    (h : Follows book returned (p.run r)) : Follows book returned ((p >>= fun _ => pure ()).run r) := by
  revert h
  change Follows book returned (p r) → Follows book returned (Raising.andThen p (fun _ => Raising.ret ()) r)
  unfold Raising.andThen
  rcases p r with ⟨_ | _, _⟩
  · exact fun h => ⟨h.1, h.2⟩
  · exact fun h => ⟨h.1, h.2⟩

/-- `set_node_role`, as far as its writes succeed. -/
theorem follows_setNodeRole {calls : RoleCalls} {address name a : Text} {role : Role} (h : Holds r book)
    (ha : validateRoleIp address = .ok a) (hrole : roleNamed name = .ok role) :
    Follows (book.become a role calls) (calls.servers && calls.relayOnly)
      ((setNodeRole calls address name).run r) := by
  obtain ⟨servers, relayOnly, hread⟩ := h.reads
  have hcanonical := validateRoleIp_ok ha
  have hservers := write_canonical (@moved_canonical .server role a servers hcanonical (read_canonical hread.1))
    calls.servers
  have hrelay := write_canonical (@moved_canonical .relayOnly role a relayOnly hcanonical (read_canonical hread.2))
    calls.relayOnly
  have hfirst : Marked (.text (registryText (moved .server role a servers))) _ := h.servers.moved hread.1 hcanonical
  have hsecond : Marked (.text (registryText (moved .relayOnly role a relayOnly))) _ :=
    h.relayOnly.moved hread.2 hcanonical
  obtain ⟨first, second⟩ := calls
  simp only [setNodeRole, ha, hrole, ofExcept_ok_bind, run_get_bind, hread.1, hread.2, hservers, hrelay]
  cases first with
  | false => exact ⟨⟨.still h.servers rfl, .still h.relayOnly rfl⟩, rfl⟩
  | true =>
    cases second with
    | false => exact ⟨⟨.update hfirst, .still h.relayOnly rfl⟩, rfl⟩
    | true => exact ⟨⟨.update hfirst, .update hsecond⟩, rfl⟩

/-- The commands of one registry. -/
theorem follows_manageRegistry {registry : Registries → RoleFile} {kind : Marks → Bool} {name : Text} {own : Role}
    (h : Holds r book) (hkind : Marked (registry r) fun ip => kind (book ip)) (hname : roleNamed name = .ok own)
    (calls : RoleCalls) (action : Action) (value : Text) :
    Follows (book.write calls (book.registryAsks kind own action value))
      (Book.done calls (book.registryAsks kind own action value))
      ((manageRegistry registry name calls action value).run r) := by
  unfold manageRegistry Book.registryAsks
  cases ha : validateRoleIp value with
  | error e => exact ⟨h, rfl⟩
  | ok a =>
    have hagain := validateRoleIp_canonical (validateRoleIp_ok ha)
    cases action with
    | add => exact (follows_setNodeRole h hagain hname).done
    | remove =>
      obtain ⟨vs, hvs, hmem, -⟩ := hkind
      simp only [ofExcept_ok_bind, run_get_bind, hvs]
      by_cases hk : kind (book a) = true
      · rw [if_pos ((hmem a).mpr hk)]
        simp only [bind, Except.bind, pure, Except.pure, if_pos hk]
        exact (follows_setNodeRole h hagain rfl).done
      · rw [if_neg fun hin => hk ((hmem a).mp hin)]
        simp only [bind, Except.bind, pure, Except.pure, if_neg hk]
        exact ⟨h, rfl⟩

/-- A command does what the book says. -/
theorem follows_perform (h : Holds r book) (c : RoleCommand × RoleCalls) :
    Follows (book.after c) (book.returns c) ((c.1.perform c.2).run r) := by
  obtain ⟨command, calls⟩ := c
  cases command with
  | server action value => exact follows_manageRegistry h h.servers rfl calls action value
  | relayOnly action value => exact follows_manageRegistry h h.relayOnly rfl calls action value
  | set address name =>
    simp only [Book.after, Book.returns, Book.asks, RoleCommand.perform]
    cases ha : validateRoleIp address with
    | error e =>
      have hrun : (setNodeRole calls address name).run r = (.error e, r) := by
        rw [setNodeRole, ha]
        rfl
      exact Follows.done (hrun ▸ ⟨h, rfl⟩)
    | ok a =>
      cases hrole : roleNamed name with
      | error e =>
        have hrun : (setNodeRole calls address name).run r = (.error e, r) := by
          rw [setNodeRole, ha, hrole]
          rfl
        exact Follows.done (hrun ▸ ⟨h, rfl⟩)
      | ok role => exact (follows_setNodeRole h ha hrole).done

/-! ### Who reads the book -/

theorem Holds.peerRole (h : Holds r book) (ip : Text) : peerRole r ip = .ok (book ip).role := by
  obtain ⟨servers, hs, -, hservers⟩ := h.servers
  obtain ⟨relayOnly, hr, -, hrelay⟩ := h.relayOnly
  obtain ⟨ls, hls⟩ := load_of_read hs
  obtain ⟨lr, hlr⟩ := load_of_read hr
  rw [peerRole_eq hls hlr, roleIn, Marks.role]
  simp only [← inRegistry_iff hls, ← inRegistry_iff hlr, hservers, hrelay]

theorem get?_foldl_set {values : List Text} {d : Dict Text Role} {role : Role} {ip : Text} :
    (values.foldl (fun d address => d.set address role) d).get? ip = if ip ∈ values then some role else d.get? ip := by
  induction values generalizing d with
  | nil => rfl
  | cons v values ih =>
    rw [List.foldl_cons, ih, Dict.get?_set]
    by_cases hmem : ip ∈ values <;> by_cases hv : ip = v <;> simp [hmem, hv]

/-- `role get`. -/
theorem Holds.explicitRoles (h : Holds r book) :
    ∃ d, explicitRoles r = .ok d ∧ ∀ ip, (d.get? ip).getD .client = (book ip).role := by
  obtain ⟨servers, hs, hservers, -⟩ := h.servers
  obtain ⟨relayOnly, hr, hrelay, -⟩ := h.relayOnly
  have hread : Manager.explicitRoles r = .ok (relayOnly.foldl (fun d address => d.set address .relayOnly)
      (servers.foldl (fun d address => d.set address .server) .empty)) := by
    simp only [Manager.explicitRoles, hs, hr, bind, Except.bind, pure, Except.pure]
  refine ⟨_, hread, fun ip => ?_⟩
  rw [get?_foldl_set, get?_foldl_set, Marks.role]
  simp only [hservers, hrelay]
  split_ifs <;> rfl

end Command

/-- After any commands, whichever of their writes failed, both programs read every role as the book has it, and
    whether the next command returns depends on the book alone. -/
theorem roles_follow {r₀ r : Registries} {servers relayOnly : List Text} {cs : List (RoleCommand × RoleCalls)}
    (hs : Plain r₀.servers) (hr : Plain r₀.relayOnly) (hread : Reads r₀ servers relayOnly)
    (hrun : roleMachine.run r₀ cs = some r) :
    (∀ ip, peerRole r ip = .ok (Book.run servers relayOnly cs ip).role) ∧
      (∃ d, explicitRoles r = .ok d ∧ ∀ ip, (d.get? ip).getD .client = (Book.run servers relayOnly cs ip).role) ∧
      (∀ ip, InRegistry r.servers ip ↔ (Book.run servers relayOnly cs ip).server = true) ∧
      ∀ c, ((c.1.perform c.2).run r).1.isOk = (Book.run servers relayOnly cs).returns c := by
  have hholds : Holds r (Book.run servers relayOnly cs) := by
    refine roleMachine.run_refines (fun r book c r' h hstep => ?_) (holds_ofSets hs hr hread) hrun
    exact Option.some.inj hstep ▸ (follows_perform h c).1
  obtain ⟨-, -, -, hin⟩ := hholds.servers
  exact ⟨hholds.peerRole, hholds.explicitRoles, hin, fun c => (follows_perform hholds c).2⟩

/-- A server is made relay-only, the second write fails, and what is not marked is removed. -/
def interruptedCommands : List (RoleCommand × RoleCalls) :=
  [(.server .add "10.0.0.8".toList, ⟨true, true⟩), (.set "10.0.0.8".toList "relay_only".toList, ⟨true, false⟩),
    (.relayOnly .remove "10.0.0.8".toList, ⟨true, true⟩)]

/-- It is a client then, for both programs; the command can be repeated. -/
theorem roles_follow_interrupted : ∃ r, roleMachine.run noRegistries interruptedCommands = some r ∧
    peerRole r "10.0.0.8".toList = .ok .client ∧
      (((RoleCommand.set "10.0.0.8".toList "relay_only".toList).perform ⟨true, true⟩).run r).1.isOk = true := by
  obtain ⟨hrole, -, -, hreturns⟩ := @roles_follow noRegistries _ [] [] interruptedCommands trivial trivial ⟨rfl, rfl⟩ rfl
  have hclient : (Book.run [] [] interruptedCommands "10.0.0.8".toList).role = .client := by decide +kernel
  have hreturned : (Book.run [] [] interruptedCommands).returns
      (.set "10.0.0.8".toList "relay_only".toList, ⟨true, true⟩) = true := by decide +kernel
  exact ⟨_, rfl, (hrole _).trans (congrArg _ hclient), (hreturns (_, _)).trans hreturned⟩

end Manager
