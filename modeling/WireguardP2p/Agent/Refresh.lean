import WireguardP2p.Agent.Fencing

/-! Offers repeat every few seconds, also while a worker is in progress. An unchanged offer leaves the
    worker alone as long as the device peer does not hold the overlay IP: the `if direct` block of
    `handle_offer` takes any route for a Direct, also the route a confirmation has just recreated. -/

namespace Agent
open Ipaddress Python Candidates Raising

/-- The offer repeats what the entry was made from: session, start, instance and candidates. -/
structure Unchanged (s : PeerState) (o : Offer) : Prop where
  session : o.sessionId = s.sessionId
  start : o.sessionStartedNs = s.sessionStartedNs
  peerInstance : o.peerInstanceId = s.peerInstanceId
  signature : candidateSignature o.candidates = s.candidateSignature

/-- The offer keeps the session, the instance and the candidate signature of the entry. -/
structure Repeats (s : PeerState) (o : Offer) : Prop where
  session : o.sessionId = s.sessionId
  sameInstance : instanceChanged s o = false
  signature : candidateSignature o.candidates = s.candidateSignature

theorem Unchanged.repeats {s : PeerState} {o : Offer} (h : Unchanged s o) : Repeats s o :=
  ⟨h.session, by simp [instanceChanged, h.peerInstance], h.signature⟩

/-- The step leaves the worker of the entry alone: the lease, the controller and the candidates are
    refreshed, nothing else of the entry, and no command is issued. -/
structure Undisturbed (k : PublicKey) (s : PeerState) (sh sh' : Shared) : Prop where
  entry : ∃ s', sh'.states.get? k = some s' ∧ s' = { s with
    leaseExpires := s'.leaseExpires, controlExpired := s'.controlExpired,
    controller := s'.controller, candidates := s'.candidates }
  issued : sh'.issued = sh.issued

section Refresh
variable {o : Offer} {s : PeerState} {sl : Slot} {calls : OfferCalls} {Q : Unit → Slot → Prop}
  {E : Raised → Slot → Prop}

theorem refresh_eq (h : Unchanged s o) : s.refresh o = { s with
    ip := o.peerIp, controller := o.controller, leaseExpires := o.leaseExpires,
    controlExpired := false, candidates := o.candidates } := by
  simp only [PeerState.refresh, h.session, h.start, h.peerInstance, ite_self]

theorem wp_replaceEntry_repeated (hs : sl.entry = some s) (h : Repeats s o) :
    (replaceEntry o calls).wp Q E sl ↔ Q () sl := by
  have hi : ¬ instanceChanged s o = true := by rw [h.sameInstance]; exact fun h => by cases h
  have hsid : ¬ s.sessionId ≠ o.sessionId := not_not.mpr h.session.symm
  simp only [replaceEntry, wp_bind, wp_entry, hs]
  rw [if_neg hi, if_neg hsid, wp_pure]

theorem wp_followSignature_same (hs : sl.entry = some s)
    (h : candidateSignature o.candidates = s.candidateSignature) :
    (followSignature o calls).wp Q E sl ↔ Q () sl := by
  simp only [followSignature, wp_bind, wp_entry, hs]
  rw [if_neg (not_not.mpr h.symm), wp_pure]

/-- An offer that repeats the session reaches the `if direct` block with nothing but its control fields
    written. -/
theorem wp_prepareOffer_repeated (hs : sl.entry = some s) (h : Repeats s o)
    {Q : Option ℕ → Slot → Prop} : (prepareOffer o calls).wp Q E sl ↔
      (followDirect o calls).wp (fun _ => (launchIfDue o).wp Q E) E (sl.update (PeerState.refresh o)) := by
  have he : (sl.update (PeerState.refresh o)).entry = some (s.refresh o) := by
    rw [Slot.entry_update, hs, Option.map_some]
  simp only [prepareOffer, wp_bind]
  rw [wp_replaceEntry_repeated hs h, refreshEntry, wp_update, wp_followSignature_same he h.signature]

theorem sessionCheck_unchanged (h : Unchanged s o) : sessionCheck (some s) o = .current := by
  simp [sessionCheck, h.session, h.start]

/-- What an unchanged offer does where the device peer does not hold the route. -/
theorem offerSection_refreshes (hs : sl.entry = some s) (h : Unchanged s o)
    (hrun : s.workerRunning = true) (hq : calls.query = none) (hh : holdsRoute sl.peer o.peerIp = false) :
    (offerSection o calls).wp (fun _ sl' => sl' = sl.update (PeerState.refresh o))
      (fun _ sl' => sl' = sl.update (PeerState.refresh o)) sl := by
  have he : (sl.update (PeerState.refresh o)).entry = some (s.refresh o) := by
    rw [Slot.entry_update, hs, Option.map_some]
  have hdue : probeDue sl.peer o.peerIp o.now (s.refresh o) = false := by
    simp [probeDue, PeerState.refresh, hrun]
  simp only [offerSection, wp_bind, wp_queryPeers, wp_entry, hq, hs, sessionCheck_unchanged h,
    acceptOffer, wp_prepareOffer_repeated hs h.repeats, followDirect, launchIfDue, wp_peer,
    Slot.peer_update, hh, he, hdue, wp_ite, wp_pure, wp_saveState]
  simp

/-- A worker that is disturbed: its mark is cleared, or the device was commanded. -/
def Disturbed (sl sl' : Slot) : Prop :=
  (∀ s', sl'.entry = some s' → s'.workerRunning = false) ∧ sl'.peer = sl.peer ∨
    sl'.issued = .remove :: sl.issued

theorem followDirect_disturbs (hh : holdsRoute sl.peer o.peerIp = true) :
    (followDirect o calls).wp (fun _ => Disturbed sl) (fun _ => Disturbed sl) sl := by
  simp only [followDirect, wp_bind, wp_peer]
  rw [if_pos hh]
  simp only [wp_ite, wp_bind, wp_update, wp_saveState, wp_wgSet, wp_renew]
  have hclear {f : PeerState → PeerState} (hf : ∀ s, (f s).workerRunning = false) :
      Disturbed sl (sl.update f) := by
    refine .inl ⟨fun s' hs' => ?_, rfl⟩
    obtain ⟨s, _, rfl⟩ := Option.map_eq_some_iff.mp hs'
    exact hf s
  refine ⟨fun _ => ⟨fun _ => hclear fun _ => rfl, fun _ => hclear fun _ => rfl⟩, fun _ => ⟨fun _ => ?_,
    fun _ => .inr rfl, fun _ => .inr rfl⟩⟩
  right
  rw [Slot.issued_update, Slot.issued_renew]
  rfl

theorem launchIfDue_disturbs {sl₀ : Slot} (hh : holdsRoute sl₀.peer o.peerIp = true)
    (h : Disturbed sl₀ sl) :
    (launchIfDue o).wp (fun _ => Disturbed sl₀) (fun _ => Disturbed sl₀) sl := by
  simp only [launchIfDue, wp_bind, wp_peer, wp_entry]
  cases hs : sl.entry with
  | none => exact h
  | some s =>
    simp only [wp_ite, wp_bind, wp_pure, startProbe, wp_renew, wp_update, wp_entry]
    refine ⟨fun hdue => ?_, fun _ => h⟩
    rcases h with ⟨_, hp⟩ | hi
    · rw [← hp] at hh
      simp [probeDue, hh] at hdue
    · right
      rw [Slot.issued_update, Slot.issued_renew, hi]

/-- What an unchanged offer does where the device peer holds the route. -/
theorem offerSection_disturbs (hs : sl.entry = some s) (h : Unchanged s o) (hq : calls.query = none)
    (hh : holdsRoute sl.peer o.peerIp = true) :
    (offerSection o calls).wp (fun _ => Disturbed sl) (fun _ => Disturbed sl) sl := by
  simp only [offerSection, wp_bind, wp_queryPeers_none, wp_entry, hq, hs, sessionCheck_unchanged h,
    acceptOffer, wp_prepareOffer_repeated hs h.repeats, wp_saveState, wp_pure]
  refine wp_mono (followDirect_disturbs hh) (fun _ sl₁ h₁ => ?_) fun _ _ h => h
  exact wp_mono (launchIfDue_disturbs hh h₁) (fun _ _ h => ⟨fun _ => h, fun _ => h⟩) fun _ _ h => h

end Refresh

/-- An unchanged offer while a worker is in progress: it leaves the worker alone if the device peer does
    not hold the overlay IP, or could not be read. -/
theorem offer_undisturbed_iff {env : OfferEnv} {data : Json} {controller : Controller} {o : Offer}
    (ho : readOffer env data controller = .ok o) {w : World} {s : PeerState}
    (hs : w.shared.states.get? o.key = some s) (hrun : s.workerRunning = true) (h : Unchanged s o)
    (calls : OfferCalls) :
    Undisturbed o.key s w.shared (w.offer env data controller calls).2.shared ↔
      (calls.query = none → o.peerIp = s.ip ∧ holdsRoute (w.shared.wg.get? o.key) o.peerIp = false) := by
  rw [World.offer_shared ho]
  have hslot : (w.shared.slot o.key).entry = some s := hs
  cases hq : calls.query with
  | some e =>
    have hraise : (offerSection o calls).wp (fun _ sl => sl = w.shared.slot o.key)
        (fun _ sl => sl = w.shared.slot o.key) (w.shared.slot o.key) := by
      simp [offerSection, hq]
    rw [wp_run hraise, Shared.put_slot]
    simp only [reduceCtorEq, false_imp_iff, iff_true]
    exact ⟨⟨s, hs, rfl⟩, rfl⟩
  | none =>
    simp only [true_imp_iff]
    cases hh : holdsRoute (w.shared.wg.get? o.key) o.peerIp with
    | false =>
      rw [wp_run (offerSection_refreshes hslot h hrun hq hh)]
      have he : (w.shared.put o.key ((w.shared.slot o.key).update (PeerState.refresh o))).states.get?
          o.key = some (s.refresh o) := by
        rw [Shared.get?_put_states, if_pos rfl, Slot.entry_update, hslot, Option.map_some]
      simp only [and_true]
      constructor
      · rintro ⟨⟨s', hs', heq⟩, _⟩
        obtain rfl := Option.some.inj (he.symm.trans hs')
        exact congrArg PeerState.ip heq
      · intro hip
        refine ⟨⟨s.refresh o, he, ?_⟩, rfl⟩
        rw [refresh_eq h, hip]
    | true =>
      have hd := wp_run (offerSection_disturbs hslot h hq hh)
      simp only [reduceCtorEq, and_false, iff_false]
      rintro ⟨⟨s', hs', heq⟩, hissued⟩
      rw [Shared.get?_put_states, if_pos rfl] at hs'
      rcases hd with ⟨hclear, _⟩ | hi
      · have hrun' : s'.workerRunning = true := by rw [heq]; exact hrun
        rw [hclear s' hs'] at hrun'
        cases hrun'
      · have hissued : ((offerSection o calls).run (w.shared.slot o.key)).2.issued.map
            (Prod.mk o.key) ++ w.shared.issued = w.shared.issued := hissued
        rw [hi] at hissued
        have hlen := congrArg List.length hissued
        simp only [List.length_append, List.length_map, List.length_cons] at hlen
        omega

/-- A state and an unchanged offer of `peerOffer` at the time `now`, with the fact `p` about them. -/
theorem exists_unchanged (ls : List Label) (now : Time) {p : World → Offer → PeerState → Bool}
    (h : (machine.run World.start ls).any (fun w =>
      (readOffer (nodeEnv now) peerOffer .responder).toOption.any fun o =>
        (w.shared.states.get? o.key).any fun s => decide (s.workerRunning = true ∧
          o.sessionId = s.sessionId ∧ o.sessionStartedNs = s.sessionStartedNs ∧
          o.peerInstanceId = s.peerInstanceId ∧
          candidateSignature o.candidates = s.candidateSignature ∧ p w o s = true)) = true) :
    ∃ w o s, machine.run World.start ls = some w ∧
      readOffer (nodeEnv now) peerOffer .responder = .ok o ∧
      w.shared.states.get? o.key = some s ∧ s.workerRunning = true ∧ Unchanged s o ∧ p w o s = true := by
  obtain ⟨w, hw, h⟩ := (Option.any_eq_true _ _).mp h
  obtain ⟨o, ho, h⟩ := (Option.any_eq_true _ _).mp h
  obtain ⟨s, hs, h⟩ := (Option.any_eq_true _ _).mp h
  obtain ⟨hrun, hsid, hstart, hinst, hsig, hp⟩ := of_decide_eq_true h
  refine ⟨w, o, s, hw, ?_, hs, hrun, ⟨hsid, hstart, hinst, hsig⟩, hp⟩
  cases hr : readOffer (nodeEnv now) peerOffer .responder with
  | error e => simp [hr, Except.toOption] at ho
  | ok o' =>
    rw [hr] at ho
    rw [Option.some.inj ho]

/-- The offer comes again while its probe is in progress. -/
theorem offer_undisturbed_iff_probe : ∃ w o s,
    machine.run World.start [offered 100 .succeed, .launch 0] = some w ∧
      readOffer (nodeEnv 103) peerOffer .responder = .ok o ∧
      w.shared.states.get? o.key = some s ∧ s.workerRunning = true ∧ Unchanged s o ∧
      Undisturbed o.key s w.shared
        (w.offer (nodeEnv 103) peerOffer .responder .succeed).2.shared := by
  obtain ⟨w, o, s, hw, ho, hs, hrun, hun, hp⟩ := exists_unchanged
    [offered 100 .succeed, .launch 0] 103 (p := fun w o s =>
      decide (o.peerIp = s.ip ∧ holdsRoute (w.shared.wg.get? o.key) o.peerIp = false))
    (by decide +kernel)
  exact ⟨w, o, s, hw, ho, hs, hrun, hun,
    (offer_undisturbed_iff ho hs hrun hun .succeed).mpr fun _ => of_decide_eq_true hp⟩

/-- The offer comes again while its confirmation is in progress, before the first handshake of the
    recreated peer: the peer is removed and a new probe started. -/
theorem confirmation_disturbed : ∃ w o s, machine.run World.start confirmRun = some w ∧
    readOffer (nodeEnv 104) peerOffer .responder = .ok o ∧
      w.shared.states.get? o.key = some s ∧ s.workerRunning = true ∧ Unchanged s o ∧
      s.mode = .confirm6 ∧ ¬ Undisturbed o.key s w.shared
        (w.offer (nodeEnv 104) peerOffer .responder .succeed).2.shared := by
  obtain ⟨w, o, s, hw, ho, hs, hrun, hun, hp⟩ := exists_unchanged confirmRun 104
    (p := fun w o s => decide (s.mode = .confirm6) &&
      ((w.offer (nodeEnv 104) peerOffer .responder .succeed).2.shared.states.get? o.key).all fun s' : PeerState =>
        decide (s'.generation ≠ s.generation ∧ s'.mode = .probe))
    (by decide +kernel)
  obtain ⟨hmode, hgen⟩ := Bool.and_eq_true_iff.mp hp
  refine ⟨w, o, s, hw, ho, hs, hrun, hun, of_decide_eq_true hmode, fun ⟨⟨s', hs', heq⟩, _⟩ => ?_⟩
  rw [hs', Option.all_some, decide_eq_true_eq] at hgen
  exact hgen.1 (by rw [heq])

end Agent
