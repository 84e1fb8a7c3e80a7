import WireguardP2p.Agent.Initiator

/-! Who initiates, over runs. An entry the agent controls as initiator was made by a round, for a server the
    coordinator listed and the node owns the pair with; so of two servers at most one ever has an initiator
    entry for the other. And a round that goes through leaves initiator entries of its own peers only. -/

namespace Agent
open Ipaddress Python Net Candidates Raising Coordinator

/-! ### One initiator for a pair -/

/-- A response of the coordinator lists peers of `l` only, with the endpoint and the handshake of the moment. -/
def Lists (l : PeerList) (result : Json) : Prop := ∀ peers, syncPeers result = .ok peers → ∀ peer ∈ peers,
  ∃ p ∈ l.peers, ∃ (endpoint : Text) (latest : ℤ) (rest : List (Text × Json)),
    peer = { p with endpoint := endpoint, latestHandshake := latest }.toJson rest

/-- A server of the list that the node at `address` owns the pair with. -/
def OwnsServer (l : PeerList) (address : Text) (k : PublicKey) : Prop :=
  ∃ p ∈ l.peers, p.key = k.1 ∧ p.role = .server ∧ Coordinator.serverInitiatorOwnsPair address p.ip = true

/-- The grants of the initiator are for such servers. -/
def InitiatorGrant (Q : PublicKey → Prop) (k : PublicKey) (g : Grant) : Prop :=
  g.controller = .initiator → Q k

/-- The label is at the node `address`, with a response that lists peers of `l`. -/
def InitiatorLabel.At (l : PeerList) (address : Text) : InitiatorLabel → Prop
  | .round env result => env.listenAddress = address ∧ Lists l result
  | _ => True

section Pairs
variable {l : PeerList} {address : Text}

/-- The offers of a round are for servers of the list. -/
theorem brings_roundOffer {env : RoundEnv} {result : Json} {peers : List Json} {rs : RoundSession} {j : ℕ}
    {fields : List (Text × Json)} (hl : Lists l result) (hp : syncPeers result = .ok peers)
    (he : EligiblePeer env peers fields) :
    (roundOffer env rs j fields).Brings (InitiatorGrant (OwnsServer l env.listenAddress)) := by
  intro o ho _
  obtain ⟨p, hpl, endpoint, latest, rest, hobj⟩ := hl peers hp _ he.1
  have helig := he.2
  rw [hobj] at helig
  obtain ⟨hrole, howns⟩ := of_eligible helig
  obtain rfl := Json.obj.inj hobj
  have hkey : Json.str p.key = Json.str o.key.1 := Except.ok.inj (readOffer_fields ho).key
  exact ⟨p, hpl, Json.str.inj hkey, hrole, howns⟩

/-- A step of another thread brings no grant of the initiator. -/
theorem brings_other {Q : PublicKey → Prop} {lab : Label} (h : lab.isInitiator = false) :
    lab.Brings (InitiatorGrant Q) := by
  cases lab with
  | offer env data controller calls =>
    intro o ho hc
    cases controller with
    | initiator => cases h
    | responder =>
      rw [show o.grant.controller = o.controller from rfl, (readOffer_fields ho).controller] at hc
      cases hc
  | _ => trivial

/-- What the initiator thread has made and is about to make is for such servers. -/
structure Owning (Q : PublicKey → Prop) (w : InitiatorWorld) : Prop where
  grants : w.world.shared.Grants (InitiatorGrant Q)
  todo : ∀ lab ∈ w.todo, lab.Brings (InitiatorGrant Q)

theorem owning_step {w w' : InitiatorWorld} {lab : InitiatorLabel} (hs : initiatorMachine.step w lab = some w')
    (hat : lab.At l address) (h : Owning (OwnsServer l address) w) : Owning (OwnsServer l address) w' := by
  cases lab with
  | round env result =>
    obtain ⟨_, rfl⟩ := round_step hs
    obtain ⟨haddress, hlists⟩ := hat
    subst haddress
    refine ⟨h.grants, fun lab hlab => ?_⟩
    rcases mem_serverInitiatorOnce hlab with ⟨peers, rs, j, fields, hp, he, rfl⟩ | ⟨active, rfl⟩
    · exact brings_roundOffer hlists hp he
    · trivial
  | next =>
    obtain ⟨lab, htodo, hstep⟩ := next_step hs
    have hmem : ∀ x ∈ lab :: w'.todo, x.Brings (InitiatorGrant (OwnsServer l address)) := htodo ▸ h.todo
    exact ⟨grants_step hstep (hmem lab List.mem_cons_self) h.grants,
      fun x hx => hmem x (List.mem_cons_of_mem lab hx)⟩
  | other lab =>
    obtain ⟨hother, hstep, htodo⟩ := other_step hs
    exact ⟨grants_step hstep (brings_other hother) h.grants, htodo ▸ h.todo⟩

/-- Every entry the agent controls as initiator is of a listed server above its own address. -/
theorem owning_run {w : InitiatorWorld} {ls : List InitiatorLabel} (hat : ∀ lab ∈ ls, lab.At l address)
    (hrun : initiatorMachine.run .start ls = some w) : Owning (OwnsServer l address) w :=
  initiatorMachine.run_invariant (I := Owning (OwnsServer l address)) (fun _ _ _ hat h hs => owning_step hs hat h)
    ⟨fun k s hs => (by cases hs), fun _ h => absurd h List.not_mem_nil⟩
    (initiatorMachine.along_of_mem hat) hrun

end Pairs

/-- The agent controls an entry for the key as initiator. -/
def InitiatorWorld.Initiates (w : InitiatorWorld) (key : Text) : Prop :=
  ∃ k s, w.world.shared.states.get? k = some s ∧ k.1 = key ∧ s.controller = .initiator

/-- Two servers whose agents are told peers of one list never both initiate with each other, whatever their
    threads, their calls and the network do; and an agent initiates only with a listed server at a higher
    address. -/
theorem one_initiator (l : PeerList) {a b : ListedPeer} (ha : a ∈ l.peers) (hb : b ∈ l.peers)
    {wa wb : InitiatorWorld} {la lb : List InitiatorLabel} (hla : ∀ lab ∈ la, lab.At l a.ip)
    (hlb : ∀ lab ∈ lb, lab.At l b.ip) (hra : initiatorMachine.run .start la = some wa)
    (hrb : initiatorMachine.run .start lb = some wb) :
    ¬ (wa.Initiates b.key ∧ wb.Initiates a.key) ∧
      ∀ key, wa.Initiates key → ∃ p ∈ l.peers, p.key = key ∧ p.role = .server ∧
        Coordinator.serverInitiatorOwnsPair a.ip p.ip = true := by
  have howns {w : InitiatorWorld} {address : Text} (h : Owning (OwnsServer l address) w) {key : Text}
      (hi : w.Initiates key) : ∃ p ∈ l.peers, p.key = key ∧ p.role = .server ∧
        Coordinator.serverInitiatorOwnsPair address p.ip = true := by
    obtain ⟨k, s, hs, rfl, hc⟩ := hi
    exact h.grants k s hs hc
  refine ⟨?_, fun key => howns (owning_run hla hra)⟩
  rintro ⟨hab, hba⟩
  obtain ⟨p, hp, hpk, _, hpo⟩ := howns (owning_run hla hra) hab
  obtain ⟨q, hq, hqk, _, hqo⟩ := howns (owning_run hlb hrb) hba
  obtain rfl := l.key_injective hp hb hpk
  obtain rfl := l.key_injective hq ha hqk
  obtain ⟨x, hx⟩ := l.ipv4 q hq
  obtain ⟨y, hy⟩ := l.ipv4 p hp
  rw [ownsPair_v4 hx hy, decide_eq_true_eq] at hpo
  rw [ownsPair_v4 hy hx, decide_eq_true_eq] at hqo
  exact absurd hpo hqo.asymm

/-! ### Two servers -/

def highKey : PublicKey := ⟨'H' :: List.replicate 42 'A' ++ ['='], by decide⟩

def lowPeer : ListedPeer :=
  ⟨⟨zeroKey.1, "10.0.0.2".toList, "198.51.100.2:51820".toList, []⟩, .server, 1000⟩

def highPeer : ListedPeer :=
  ⟨⟨highKey.1, "10.0.0.10".toList, "198.51.100.10:51820".toList, []⟩, .server, 1000⟩

theorem ipAddress_lowPeer : ipAddress lowPeer.ip = some (.v4 167772162) := by decide +kernel

theorem ipAddress_highPeer : ipAddress highPeer.ip = some (.v4 167772170) := by decide +kernel

def lowAndHigh : PeerList where
  peers := [lowPeer, highPeer]
  key_ne := by simp [lowPeer, highPeer, zeroKey, highKey]
  keys_nodup := by simp [lowPeer, highPeer, zeroKey, highKey]
  ipv4 := by
    intro p hp
    rcases List.mem_pair.mp hp with rfl | rfl
    · exact ⟨_, ipAddress_lowPeer⟩
    · exact ⟨_, ipAddress_highPeer⟩
  ips_nodup := by simp [ipAddress_lowPeer, ipAddress_highPeer]

/-- What the coordinator tells both, without candidates. -/
def pairResponse (peers : List Json) : Json := .obj
  [("protocol".toList, .int 7), ("session_id".toList, .str "0a1b2c3d-0000-4000-8000-00000000000f".toList),
    ("session_started_ns".toList, .int 5), ("peers".toList, .arr peers)]

def bothListed : Json := pairResponse [lowPeer.toJson [], highPeer.toJson []]

theorem lists_bothListed : Lists lowAndHigh bothListed := by
  rintro peers hpeers peer hpeer
  obtain rfl : [lowPeer.toJson [], highPeer.toJson []] = peers := Except.ok.inj hpeers
  rcases List.mem_pair.mp hpeer with rfl | rfl
  · exact ⟨lowPeer, List.mem_cons_self, _, _, [], rfl⟩
  · exact ⟨highPeer, List.mem_cons_of_mem _ List.mem_cons_self, _, _, [], rfl⟩

/-- The round of the node at the address, all calls succeed. -/
def roundEnv (listenAddress : String) : RoundEnv where
  listenAddress := listenAddress.toList
  now := ((1100 : ℕ))
  localIpv4 := .ok "192.168.7.2".toList
  offerEnv _ := nodeEnv ((1100 : ℕ))
  offerCalls _ := .succeed
  cleanup := .succeed

/-- The node at the lower address offers and cleans up, the other only cleans up. -/
def lowRound : List InitiatorLabel := [.round (roundEnv "10.0.0.2") bothListed, .next, .next]

def highRound : List InitiatorLabel := [.round (roundEnv "10.0.0.10") bothListed, .next]

/-- The lower address initiates. -/
theorem one_initiator_lowAndHigh : ∃ wa wb, initiatorMachine.run .start lowRound = some wa ∧
    initiatorMachine.run .start highRound = some wb ∧ wa.todo = [] ∧ wb.todo = [] ∧
      wa.Initiates highPeer.key ∧ ¬ wb.Initiates lowPeer.key := by
  have hlow : (initiatorMachine.run .start lowRound).any (fun w : InitiatorWorld => w.todo.isEmpty &&
      (w.world.shared.states.get? highKey).any fun s : PeerState =>
        decide (s.controller = .initiator)) = true := by decide +kernel
  have hhigh : (initiatorMachine.run .start highRound).any (fun w : InitiatorWorld =>
      w.todo.isEmpty) = true := by decide +kernel
  obtain ⟨wa, hra, ha⟩ := (Option.any_eq_true _ _).mp hlow
  obtain ⟨wb, hrb, hb⟩ := (Option.any_eq_true _ _).mp hhigh
  rw [Bool.and_eq_true] at ha
  obtain ⟨s, hs, hc⟩ := (Option.any_eq_true _ _).mp ha.2
  have hinit : wa.Initiates highPeer.key := ⟨highKey, s, hs, rfl, of_decide_eq_true hc⟩
  have hla : ∀ lab ∈ lowRound, lab.At lowAndHigh lowPeer.ip := by
    simp [lowRound, InitiatorLabel.At, lists_bothListed, roundEnv, lowPeer]
  have hlb : ∀ lab ∈ highRound, lab.At lowAndHigh highPeer.ip := by
    simp [highRound, InitiatorLabel.At, lists_bothListed, roundEnv, highPeer]
  have hone := one_initiator lowAndHigh (List.mem_pair.mpr (.inl rfl)) (List.mem_pair.mpr (.inr rfl)) hla hlb hra hrb
  exact ⟨wa, wb, hra, hrb, List.isEmpty_iff.mp ha.1, List.isEmpty_iff.mp hb, hinit, fun h => hone.1 ⟨hinit, h⟩⟩

/-! ### The end of a round -/

/-- The entries controlled as initiator are of active keys. -/
def ActiveOnly (active : List Text) (sh : Shared) : Prop := sh.Grants (InitiatorGrant fun k => k.1 ∈ active)

section Cleanup
variable {active : List Text} {remove : PublicKey → Outcome}

/-- The loop body leaves an entry of an active key, or of another controller, or none. -/
theorem granted_cleanupPeer (k : PublicKey) (o : Outcome) (sl : Slot) :
    (cleanupPeer (decide (k.1 ∈ active)) o).wp
      (fun _ sl' => Granted (InitiatorGrant (fun k => k.1 ∈ active) k) (sl'.entry.map PeerState.grant))
      (fun _ _ => False) sl := by
  rw [cleanupPeer, wp_bind, wp_entry]
  cases hs : sl.entry with
  | none =>
    rw [wp_pure, hs]
    exact granted_none
  | some s =>
    simp only [wp_ite, wp_bind, wp_pure, wp_handle, wp_removeIfPresent, wp_wgSet, retire, wp_renew,
      wp_update, wp_deleteEntry]
    refine ⟨fun hkept g hg hc => ?_, fun _ => ?_⟩
    · rw [hs] at hg
      obtain rfl := Option.some.inj hg
      exact of_decide_eq_true (hkept.resolve_left fun hne => hne hc)
    · simp [Granted]

/-- The loop leaves what it visits in order, and the rest alone. -/
theorem activeOnly_cleanupLoop (keys : List PublicKey) : ∀ sh : Shared,
    (∀ k s, sh.states.get? k = some s → k ∈ keys ∨ InitiatorGrant (fun k => k.1 ∈ active) k s.grant) →
      (cleanupLoop active remove keys).wp (fun _ sh' => ActiveOnly active sh') (fun _ _ => False) sh := by
  induction keys with
  | nil => exact fun sh h k s hs => (h k s hs).resolve_left List.not_mem_nil
  | cons k ks ih =>
    intro sh h
    rw [cleanupLoop, wp_bind, wp_onKey]
    refine wp_mono (granted_cleanupPeer k (remove k) (sh.slot k)) (fun _ sl hsl => ?_) fun _ _ => False.elim
    rw [wp_bind]
    refine wp_mono (ih (sh.put k sl) fun j s hs => ?_) (fun _ _ h => h) fun _ _ => False.elim
    rw [Shared.get?_put_states] at hs
    by_cases hj : j = k
    · rw [if_pos hj] at hs
      subst hj
      exact .inr (hsl s.grant (by rw [hs, Option.map_some]))
    · rw [if_neg hj] at hs
      exact (h j s hs).imp (fun hm => (List.mem_cons.mp hm).resolve_left hj) id

/-- A cleanup that can read the device leaves initiator entries of active keys only. -/
theorem activeOnly_cleanup {calls : PassCalls} (hq : calls.query = none) (sh : Shared) :
    ActiveOnly active ((cleanupInitiatorStates active calls).run sh).2 := by
  refine wp_run ?_
  rw [cleanupInitiatorStates, wp_bind, wp_queryAll, wp_bind, wp_get, wp_bind]
  refine ⟨fun _ => ?_, fun e he => absurd (hq.symm.trans he) (by simp)⟩
  refine wp_mono (activeOnly_cleanupLoop sh.states.keys sh fun k s hs => .inl (Dict.mem_keys.mpr ⟨s, hs⟩))
    (fun changed sh' h => ?_) fun _ _ => False.elim
  rw [wp_ite, wp_saveAll, wp_pure]
  exact ⟨fun _ => ⟨fun _ => h, fun _ => h⟩, fun _ => h⟩

end Cleanup

/-- No new round begins. -/
def InitiatorLabel.SameRound : InitiatorLabel → Prop
  | .round .. => False
  | _ => True

/-- The round is under way with its cleanup still to come, or it is over. -/
def Finishing (active : List Text) (calls : PassCalls) (w : InitiatorWorld) : Prop :=
  (∃ before, w.todo = before ++ [.cleanupInitiator active calls]) ∨
    w.todo = [] ∧ ActiveOnly active w.world.shared

theorem finishing_step {active : List Text} {calls : PassCalls} (hq : calls.query = none)
    {w w' : InitiatorWorld} {lab : InitiatorLabel} (hs : initiatorMachine.step w lab = some w')
    (hsame : lab.SameRound) (h : Finishing active calls w) : Finishing active calls w' := by
  cases lab with
  | round env result => exact hsame.elim
  | next =>
    obtain ⟨lab, htodo, hstep⟩ := next_step hs
    rcases h with ⟨before, hb⟩ | ⟨hnil, _⟩
    · rw [htodo] at hb
      cases before with
      | nil =>
        obtain ⟨rfl, hrest⟩ := List.cons.inj hb
        obtain hw := Option.some.inj hstep
        exact .inr ⟨hrest, hw ▸ activeOnly_cleanup hq w.world.shared⟩
      | cons x before => exact .inl ⟨before, (List.cons.inj hb).2⟩
    · rw [hnil] at htodo
      cases htodo
  | other lab =>
    obtain ⟨hother, hstep, htodo⟩ := other_step hs
    rcases h with ⟨before, hb⟩ | ⟨hnil, hact⟩
    · exact .inl ⟨before, htodo.trans hb⟩
    · exact .inr ⟨htodo.trans hnil, grants_step hstep (brings_other hother) hact⟩

/-- Once a round that did not raise is over, and until the next one begins, the agent controls as initiator
    only peers the coordinator listed in that round as eligible, whatever the other threads do meanwhile. -/
theorem unlisted_dropped {env : RoundEnv} {result : Json} {active : List Text} {w₀ w : InitiatorWorld}
    {ls : List InitiatorLabel} (hround : (roundOffers env result).2 = .ok active)
    (hq : env.cleanup.query = none) (hsame : ∀ lab ∈ ls, lab.SameRound)
    (hrun : initiatorMachine.run w₀ (.round env result :: ls) = some w) (hover : w.todo = []) (key : Text)
    (hi : w.Initiates key) : Eligible env result key := by
  obtain ⟨w₁, hstep, hrest⟩ := initiatorMachine.run_cons.mp hrun
  obtain ⟨_, rfl⟩ := round_step hstep
  have hinit : Finishing active env.cleanup ⟨w₀.world, serverInitiatorOnce env result⟩ := by
    refine .inl ⟨(roundOffers env result).1, ?_⟩
    rw [serverInitiatorOnce, hround]
  have hfin := initiatorMachine.run_invariant (I := Finishing active env.cleanup)
    (fun _ _ _ hsame h hs => finishing_step hq hs hsame h) hinit (initiatorMachine.along_of_mem hsame) hrest
  rcases hfin with ⟨before, hb⟩ | ⟨_, hact⟩
  · exact absurd (hover.symm.trans hb) (by simp)
  · obtain ⟨k, s, hs, rfl, hc⟩ := hi
    exact spec_roundOffers.2 active hround k.1 (hact k s hs hc)

/-- The peer the lower address still initiates with is the one the round listed. -/
theorem unlisted_dropped_lowRound : ∃ w, initiatorMachine.run .start lowRound = some w ∧
    w.Initiates highPeer.key ∧ Eligible (roundEnv "10.0.0.2") bothListed highPeer.key := by
  have hlow : (initiatorMachine.run .start lowRound).any (fun w : InitiatorWorld => w.todo.isEmpty &&
      (w.world.shared.states.get? highKey).any fun s : PeerState =>
        decide (s.controller = .initiator)) = true := by decide +kernel
  have hround : (roundOffers (roundEnv "10.0.0.2") bothListed).2.toOption.isSome = true := by decide +kernel
  obtain ⟨w, hrun, hw⟩ := (Option.any_eq_true _ _).mp hlow
  rw [Bool.and_eq_true] at hw
  obtain ⟨s, hs, hc⟩ := (Option.any_eq_true _ _).mp hw.2
  have hinit : w.Initiates highPeer.key := ⟨highKey, s, hs, rfl, of_decide_eq_true hc⟩
  cases hactive : (roundOffers (roundEnv "10.0.0.2") bothListed).2 with
  | error e =>
    rw [hactive] at hround
    cases hround
  | ok active =>
    exact ⟨w, hrun, hinit, unlisted_dropped hactive rfl (by simp [InitiatorLabel.SameRound]) hrun
      (List.isEmpty_iff.mp hw.1) highPeer.key hinit⟩

end Agent
