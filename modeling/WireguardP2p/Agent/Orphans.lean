import WireguardP2p.Agent.SessionOrder

/-! No orphan peer. Sections set up a peer only for an entry there is, and delete an entry only once its
    peer is gone: a removal that fails is raised before the entry is deleted. One loop is different:
    `cleanup_initiator_states` catches the error and deletes the entry, so the peer stays without one,
    and orphans are removed at process start only. -/

namespace Agent
open Ipaddress Python Candidates Raising

/-- A peer is tracked: there is an entry, or the agent set up nothing for the key. -/
def Slot.Tracked (added : Prop) (sl : Slot) : Prop := sl.peer.isSome = true →
  sl.entry.isSome = true ∨ ¬ added ∧ ∀ c ∈ sl.issued, c = .remove

section Sections
variable {added : Prop} {sl : Slot}

theorem tracked_of_entry (h : sl.entry.isSome = true) : sl.Tracked added := fun _ => .inl h

theorem tracked_of_no_peer (h : sl.peer = none) : sl.Tracked added := fun hp => by
  rw [h] at hp
  cases hp

theorem tracked_wgSet_remove (o : Outcome) : Keeps (Slot.Tracked added) (wgSet o .remove) := by
  intro sl h
  have hgone : (sl.execute .remove).Tracked added := tracked_of_no_peer rfl
  refine (wp_wgSet o .remove).mpr ⟨fun _ => hgone, fun _ hp => ?_, fun _ => hgone⟩
  rcases h hp with h | ⟨hno, hall⟩
  · exact .inl h
  · refine .inr ⟨hno, fun c hc => ?_⟩
    rcases List.mem_cons.mp hc with rfl | hc
    · rfl
    · exact hall c hc

/-- After a removal that does not fail there is no peer. -/
theorem tracked_removeIfPresent (o : Outcome) (h : sl.Tracked added) : (removeIfPresent o).wp
    (fun _ sl' => sl'.peer = none) (fun _ sl' => sl'.Tracked added) sl := by
  rw [wp_removeIfPresent]
  refine ⟨fun hp => hp, fun _ => ?_⟩
  have hset := tracked_wgSet_remove o sl h
  rw [wp_wgSet] at hset ⊢
  exact ⟨fun _ => rfl, hset.2⟩

/-- What leaves the entry there leaves it tracked. -/
theorem tracked_of_keeps {α : Type} {p : Section α}
    (hp : KeepsField PeerState.control (fun x => x.isSome = true) p) (h : sl.entry.isSome = true) :
    p.wp (fun _ sl' => sl'.Tracked added) (fun _ sl' => sl'.Tracked added) sl := by
  have hsome {sl : Slot} (h : (sl.entry.map PeerState.control).isSome = true) : sl.Tracked added :=
    tracked_of_entry (Option.isSome_map.symm.trans h)
  exact wp_mono (hp sl (Option.isSome_map.trans h)) (fun _ _ h => hsome h) fun _ _ h => hsome h

theorem tracked_offerSection (o : Offer) (calls : OfferCalls) (h : sl.Tracked added) :
    (offerSection o calls).wp (fun _ sl' => sl'.Tracked added) (fun _ sl' => sl'.Tracked added) sl := by
  have hcontrol {sl' : Slot} (h' : sl'.entry.map PeerState.control = some o.control) :
      sl'.Tracked added := tracked_of_entry (by
    obtain ⟨s, hs, _⟩ := Option.map_eq_some_iff.mp h'
    rw [hs, Option.isSome_some])
  simp only [offerSection, wp_bind, wp_queryPeers, wp_entry]
  refine ⟨fun _ => ?_, fun _ _ => h⟩
  cases hc : sessionCheck sl.entry o with
  | stale => exact h
  | startChanged => exact h
  | current =>
    simp only [wp_bind, wp_pure]
    refine wp_mono (control_acceptOffer sl) (fun _ sl' h' => hcontrol h') fun _ sl' h' => ?_
    rcases h' with h' | ⟨_, hsome, h'⟩
    · exact hcontrol h'
    · have hsame := congrArg Option.isSome h'
      rw [Option.isSome_map, Option.isSome_map] at hsame
      exact tracked_of_entry (hsame.trans hsome)

/-- The peer is removed and then the entry is deleted. -/
theorem tracked_discard {α : Type} {p : Section α} (o : Outcome)
    (hp : ∀ sl : Slot, sl.peer = none → p.wp (fun _ sl' => sl'.Tracked added)
      (fun _ sl' => sl'.Tracked added) sl) (h : sl.Tracked added) :
    (do removeIfPresent o; retire; deleteEntry; p).wp (fun _ sl' => sl'.Tracked added)
      (fun _ sl' => sl'.Tracked added) sl := by
  rw [wp_bind]
  refine wp_mono (tracked_removeIfPresent o h) (fun _ sl₁ h₁ => ?_) fun _ _ h => h
  simp only [wp_bind, retire, wp_renew, wp_update, wp_deleteEntry]
  exact hp _ ((Slot.peer_renew sl₁).trans h₁)

theorem tracked_removeSection (r : Removal) (now : Time) (calls : RemoveCalls) (h : sl.Tracked added) :
    (removeSection r now calls).wp (fun _ sl' => sl'.Tracked added)
      (fun _ sl' => sl'.Tracked added) sl := by
  rw [removeSection, wp_bind, wp_entry]
  cases hs : sl.entry with
  | none => exact h
  | some s =>
    have hsome : sl.entry.isSome = true := by rw [hs, Option.isSome_some]
    simp only [wp_ite, wp_pure, wp_bind, wp_queryPeers, wp_peer]
    refine ⟨fun _ => h, fun _ => ⟨fun _ => ⟨fun _ => ?_, fun _ => ?_⟩, fun _ _ => h⟩⟩
    · rw [wp_update, wp_saveState]
      have hexp : ∀ f : PeerState → PeerState, (sl.update f).Tracked added := fun f =>
        tracked_of_entry (Option.isSome_map.trans hsome)
      exact ⟨fun _ => hexp _, fun _ => hexp _⟩
    · have hd := tracked_discard (p := do saveState calls.save; return RemoveReply.removed) calls.remove
        (fun sl' hp => by
          simp only [wp_bind, wp_saveState, wp_pure]
          exact ⟨fun _ => tracked_of_no_peer hp, fun _ => tracked_of_no_peer hp⟩) h
      simpa only [wp_bind, wp_pure] using hd

theorem tracked_monitorProbe (now : Time) (changed : Bool) (h : sl.Tracked added) :
    (monitorProbe now changed).wp (fun _ sl' => sl'.Tracked added)
      (fun _ sl' => sl'.Tracked added) sl := by
  cases hs : sl.entry with
  | none =>
    rw [monitorProbe, wp_bind, wp_entry, hs]
    exact h
  | some s => exact tracked_of_keeps (control_monitorProbe now changed) (by rw [hs, Option.isSome_some])

theorem tracked_monitorRoute (now : Time) (remove : Outcome) (changed : Bool) (h : sl.Tracked added) :
    (monitorRoute now remove changed).wp (fun _ sl' => sl'.Tracked added)
      (fun _ sl' => sl'.Tracked added) sl := by
  rw [monitorRoute, wp_bind, wp_entry]
  cases hs : sl.entry with
  | none => exact h
  | some s =>
    have hsome : sl.entry.isSome = true := by rw [hs, Option.isSome_some]
    simp only [wp_bind, wp_peer, wp_ite, wp_pure, wp_update]
    refine ⟨fun _ => h, fun _ => ⟨fun _ => ⟨fun _ => tracked_of_entry (Option.isSome_map.trans hsome),
      fun _ => ?_⟩, fun _ => tracked_monitorProbe now changed h⟩⟩
    -- the peer is gone before the entry is touched
    have hgone : (wgSet remove .remove).wp (fun _ sl' => sl'.peer = none)
        (fun _ sl' => sl'.Tracked added) sl := by
      have hset := tracked_wgSet_remove remove sl h
      rw [wp_wgSet] at hset ⊢
      exact ⟨fun _ => rfl, hset.2⟩
    refine wp_mono hgone (fun _ sl₁ h₁ => ?_) fun _ _ h => h
    have hp := (Slot.peer_renew sl₁).trans h₁
    simp only [wp_renew, wp_deleteEntry]
    exact ⟨fun _ => tracked_of_no_peer hp, fun _ => tracked_monitorProbe now true (tracked_of_no_peer hp)⟩

theorem tracked_monitorPeer (now : Time) (remove : Outcome) (h : sl.Tracked added) :
    (monitorPeer now remove).wp (fun _ sl' => sl'.Tracked added)
      (fun _ sl' => sl'.Tracked added) sl := by
  rw [monitorPeer, wp_bind, wp_entry]
  cases hs : sl.entry with
  | none => exact h
  | some s =>
    have hsome : sl.entry.isSome = true := by rw [hs, Option.isSome_some]
    simp only [wp_ite, wp_bind, wp_peer, wp_update]
    refine ⟨fun _ => ⟨fun _ => tracked_monitorRoute now remove true
      (tracked_of_entry (Option.isSome_map.trans hsome)), fun _ => ?_⟩,
      fun _ => tracked_monitorRoute now remove false h⟩
    have hd := tracked_discard (p := (return ⟨true, none⟩ : Section MonitorResult)) remove
      (fun sl' hp => tracked_of_no_peer hp) h
    simpa only [wp_bind, wp_pure] using hd

/-- `cleanup_initiator_states` keeps a peer tracked unless its removal fails. -/
theorem tracked_cleanupPeer (active : Bool) (remove : Outcome) (h : sl.Tracked added)
    (htaken : ∀ s, sl.entry = some s → s.controller = .initiator → active = false →
      sl.peer.isSome = true → remove ≠ .failed) :
    (cleanupPeer active remove).wp (fun _ sl' => sl'.Tracked added)
      (fun _ sl' => sl'.Tracked added) sl := by
  rw [cleanupPeer, wp_bind, wp_entry]
  cases hs : sl.entry with
  | none => exact h
  | some s =>
    simp only [wp_ite, wp_bind, wp_pure, wp_handle, wp_removeIfPresent, wp_wgSet, retire, wp_renew,
      wp_update, wp_deleteEntry]
    refine ⟨fun _ => h, fun hc => ⟨fun hp => tracked_of_no_peer hp, fun hp =>
      ⟨fun _ => tracked_of_no_peer rfl, fun hf => ?_, fun _ => tracked_of_no_peer rfl⟩⟩⟩
    rw [not_or, not_not, Bool.not_eq_true] at hc
    refine absurd hf (htaken s hs hc.1 hc.2 ?_)
    rwa [Slot.peer_update, Slot.peer_renew] at hp

/-- Without an entry a step of a worker does nothing to the key. -/
theorem still_of_no_entry (t : Thread) (calls : WorkerCalls) (hs : sl.entry = none) :
    (t.step calls).wp (fun _ sl' => sl' = sl) (fun _ sl' => sl' = sl) sl := by
  unfold Thread.step
  cases t.pc with
  | probe pc =>
    rw [wp_handle]
    cases pc with
    | check ip cs => cases cs <;> simp [probeStep, hs, owns]
    | poll ip a rest b => cases hq : sl.peer <;> simp [probeStep, hq]
    | _ => simp [probeStep, hs, owns]
  | confirm pc =>
    rw [wp_handle]
    cases pc with
    | poll ip e => cases hq : sl.peer <;> simp [confirmStep, hq]
    | _ => simp [confirmStep, hs, ownsDirect, ownsConfirm]
  | cleanup => simp [cleanupWorker, hs]
  | finished => simp

/-- Workers work on entries. -/
theorem tracked_threadStep (t : Thread) (calls : WorkerCalls) (h : sl.Tracked added) :
    (t.step calls).wp (fun _ sl' => sl'.Tracked added) (fun _ sl' => sl'.Tracked added) sl := by
  cases hs : sl.entry with
  | some s => exact tracked_of_keeps (control_threadStep t calls) (by rw [hs, Option.isSome_some])
  | none => exact wp_mono (still_of_no_entry t calls hs) (fun _ _ he => he ▸ h) fun _ _ he => he ▸ h

end Sections

/-! ### Runs -/

/-- The agent has set up the peer of the key. -/
def Shared.Added (sh : Shared) (k : PublicKey) : Prop := ∃ c, c ≠ .remove ∧ (k, c) ∈ sh.issued

/-- Every peer the agent has set up and that is there has an entry. -/
def Shared.Tracked (sh : Shared) : Prop := ∀ k, sh.Added k → (sh.wg.get? k).isSome = true →
  (sh.states.get? k).isSome = true

/-- `cleanup_initiator_states` takes away the peers of the entries it deletes: no removal fails. -/
def RemovalTaken (w : World) : Label → Prop
  | .cleanupInitiator active calls => ∀ k s, w.shared.states.get? k = some s →
    s.controller = .initiator → k.1 ∉ active → (w.shared.wg.get? k).isSome = true →
      calls.remove k ≠ .failed
  | _ => True

section Runs
variable {sh : Shared} {k : PublicKey} {sl : Slot}

theorem Shared.Tracked.slot (h : sh.Tracked) (k : PublicKey) : (sh.slot k).Tracked (sh.Added k) := by
  intro hp
  by_cases ha : sh.Added k
  · exact .inl (h k ha hp)
  · exact .inr ⟨ha, fun c hc => absurd hc List.not_mem_nil⟩

theorem added_put {j : PublicKey} (h : (sh.put k sl).Added j) :
    sh.Added j ∨ j = k ∧ ∃ c ∈ sl.issued, c ≠ .remove := by
  obtain ⟨c, hc, hm⟩ := h
  rw [Shared.put, List.mem_append, List.mem_map] at hm
  rcases hm with ⟨d, hd, he⟩ | hm
  · rw [Prod.mk.injEq] at he
    exact .inr ⟨he.1.symm, d, hd, he.2 ▸ hc⟩
  · exact .inl ⟨c, hc, hm⟩

theorem Shared.Tracked.put (h : sh.Tracked) (hsl : sl.Tracked (sh.Added k)) :
    (sh.put k sl).Tracked := by
  intro j ha hp
  rw [get?_put_states]
  rw [get?_put_wg] at hp
  by_cases hj : j = k
  · rw [if_pos hj] at hp ⊢
    rcases hsl hp with he | ⟨hno, hall⟩
    · exact he
    · rcases added_put ha with ha | ⟨_, c, hc, hne⟩
      · exact absurd (hj ▸ ha) hno
      · exact absurd (hall c hc) hne
  · rw [if_neg hj] at hp ⊢
    rcases added_put ha with ha | ⟨hjk, _⟩
    · exact h j ha (by rwa [Option.isSome_map] at hp)
    · exact absurd hjk hj

theorem Shared.Tracked.onKey {α : Type} {p : Section α} (h : sh.Tracked)
    (hp : p.wp (fun _ sl' => sl'.Tracked (sh.Added k)) (fun _ sl' => sl'.Tracked (sh.Added k))
      (sh.slot k)) : Leaves Shared.Tracked (Agent.onKey k p) sh :=
  wp_onKey.mpr (wp_mono hp (fun _ _ hsl => h.put hsl) fun _ _ hsl => h.put hsl)

/-- The removals the loop of `cleanup_initiator_states` may come to. -/
def CleanupTaken (active : List Text) (remove : PublicKey → Outcome) (sh : Shared) : Prop :=
  ∀ k s, sh.states.get? k = some s → s.controller = .initiator → k.1 ∉ active →
    (sh.wg.get? k).isSome = true → remove k ≠ .failed

theorem tracked_cleanup {active : List Text} {remove : PublicKey → Outcome} (j : PublicKey) :
    Keeps (fun sh => Shared.Tracked sh ∧ CleanupTaken active remove sh)
      (Agent.onKey j (cleanupPeer (decide (j.1 ∈ active)) (remove j))) := by
  rintro sh ⟨h, hc⟩
  have hkept : (cleanupPeer (decide (j.1 ∈ active)) (remove j)).wp
      (fun _ sl' => sl'.Tracked (sh.Added j)) (fun _ sl' => sl'.Tracked (sh.Added j)) (sh.slot j) :=
    tracked_cleanupPeer _ _ (h.slot j) fun s hs hi ha hp =>
      hc j s hs hi (of_decide_eq_false ha) hp
  -- an entry that is there afterwards was there before, with its peer
  have hsame : (cleanupPeer (decide (j.1 ∈ active)) (remove j)).wp
      (fun _ sl' => sl'.entry = none ∨ sl' = sh.slot j) (fun _ sl' => sl'.entry = none ∨ sl' = sh.slot j)
      (sh.slot j) := by
    rw [cleanupPeer, wp_bind, wp_entry]
    cases hs : (sh.slot j).entry with
    | none => exact .inr rfl
    | some s =>
      simp only [wp_ite, wp_bind, wp_pure, wp_handle, wp_removeIfPresent, wp_wgSet, retire, wp_renew,
        wp_update, wp_deleteEntry]
      simp
  have htaken {sl' : Slot} (hsl : sl'.entry = none ∨ sl' = sh.slot j) :
      CleanupTaken active remove (sh.put j sl') := by
    intro k s hs hi ha hp
    rw [Shared.get?_put_states] at hs
    rw [Shared.get?_put_wg] at hp
    by_cases hk : k = j
    · rw [if_pos hk] at hs hp
      rcases hsl with he | rfl
      · rw [he] at hs
        cases hs
      · subst hk
        exact hc k s hs hi ha hp
    · rw [if_neg hk] at hs hp
      rw [Option.isSome_map] at hp
      exact hc k s hs hi ha hp
  refine wp_onKey.mpr (wp_mono (wp_and hkept hsame) (fun _ sl' hsl => ?_) fun _ sl' hsl => ?_)
  · exact ⟨h.put hsl.1, htaken hsl.2⟩
  · exact ⟨h.put hsl.1, htaken hsl.2⟩

theorem tracked_step {w w' : World} {l : Label} (hs : machine.step w l = some w')
    (hsafe : RemovalTaken w l) (h : w.shared.Tracked) : w'.shared.Tracked := by
  by_cases hl : ∃ active calls, l = .cleanupInitiator active calls
  · obtain ⟨active, calls, rfl⟩ := hl
    obtain rfl := Option.some.inj hs
    exact ((keeps_cleanupInitiatorStates fun k => tracked_cleanup k).run ⟨h, hsafe⟩).1
  · refine shared_step hs h (fun env data controller calls o _ _ => ?_) (fun _ data now calls r _ => ?_)
      (fun now calls k _ sh hsh => ?_) (fun active calls k hc => absurd ⟨active, calls, hc⟩ hl)
      (fun i calls t _ _ => ?_) fun k p q hp _ _ => ?_
    · exact h.onKey (tracked_offerSection o calls (h.slot o.key))
    · exact h.onKey (tracked_removeSection r now calls (h.slot r.key))
    · exact hsh.onKey (tracked_monitorPeer now (calls.remove k) (hsh.slot k))
    · exact h.onKey (tracked_threadStep t calls (h.slot t.key))
    · intro j ha hj
      rw [Dict.get?_set] at hj
      by_cases hjk : j = k
      · refine h j ha ?_
        rw [hjk, hp, Option.isSome_some]
      · rw [if_neg hjk] at hj
        exact h j ha hj

end Runs

/-- No orphan peer, whatever STATES holds at the start, in a run in which `cleanup_initiator_states`
    meets no failing removal; any other call to WireGuard may fail. -/
theorem no_orphan_peer {w₀ w : World} {ls : List Label} (hi : w₀.shared.issued = [])
    (hsafe : machine.Along RemovalTaken w₀ ls) (hrun : machine.run w₀ ls = some w) :
    ∀ k, w.shared.Added k → (w.shared.wg.get? k).isSome = true →
      (w.shared.states.get? k).isSome = true := by
  have hinit : w₀.shared.Tracked := by
    rintro k ⟨c, _, hm⟩ _
    rw [hi] at hm
    exact absurd hm List.not_mem_nil
  exact machine.run_invariant (I := fun w => w.shared.Tracked)
    (fun w l w' hok h hs => tracked_step hs hok h) hinit hsafe hrun

/-- An offer the node makes to itself as initiator, and the probe it starts sets up the peer. -/
def initiatorRun : List Label :=
  [.offer (nodeEnv (100 : ℕ)) peerOffer .initiator .succeed, .launch 0] ++
    List.replicate 4 (.worker 0 (workerCalls (100 : ℕ)))

/-- The peer of an initiator is set up and tracked. -/
theorem no_orphan_peer_initiatorRun : ∃ w, machine.run World.start initiatorRun = some w ∧
    (w.shared.wg.get? zeroKey).isSome = true ∧ (w.shared.states.get? zeroKey).isSome = true := by
  have hsome : (machine.run World.start initiatorRun).any (fun w =>
      (w.shared.wg.get? zeroKey).isSome &&
        w.shared.issued.any fun c => decide (c.1 = zeroKey ∧ c.2 ≠ .remove)) = true := by
    decide +kernel
  obtain ⟨w, hrun, hw⟩ := (Option.any_eq_true _ _).mp hsome
  rw [Bool.and_eq_true, List.any_eq_true] at hw
  obtain ⟨hp, c, hc, hd⟩ := hw
  obtain ⟨hk, hne⟩ := of_decide_eq_true hd
  have hsafe : machine.Along RemovalTaken World.start initiatorRun :=
    ⟨trivial, fun _ _ => ⟨trivial, fun _ _ => ⟨trivial, fun _ _ => ⟨trivial, fun _ _ => ⟨trivial,
      fun _ _ => ⟨trivial, fun _ _ => trivial⟩⟩⟩⟩⟩⟩
  exact ⟨w, hrun, hp, no_orphan_peer rfl hsafe hrun zeroKey
    ⟨c.2, hne, hk ▸ hc⟩ hp⟩

/-- Its server is not listed any more, and the removal of its peer fails. -/
def orphanRun : List Label := initiatorRun ++ [.cleanupInitiator [] ⟨none, fun _ => .failed, true⟩]

/-- The peer stays on the device without an entry. -/
theorem orphan_peer : ∃ w, machine.run World.start orphanRun = some w ∧ w.shared.Added zeroKey ∧
    (w.shared.wg.get? zeroKey).isSome = true ∧ w.shared.states.get? zeroKey = none := by
  have hsome : (machine.run World.start orphanRun).any (fun w =>
      ((w.shared.wg.get? zeroKey).isSome && decide (w.shared.states.get? zeroKey = none)) &&
        w.shared.issued.any fun c => decide (c.1 = zeroKey ∧ c.2 ≠ .remove)) = true := by
    decide +kernel
  obtain ⟨w, hrun, hw⟩ := (Option.any_eq_true _ _).mp hsome
  rw [Bool.and_eq_true, Bool.and_eq_true, List.any_eq_true] at hw
  obtain ⟨⟨hp, hn⟩, c, hc, hd⟩ := hw
  obtain ⟨hk, hne⟩ := of_decide_eq_true hd
  exact ⟨w, hrun, ⟨c.2, hne, hk ▸ hc⟩, hp, of_decide_eq_true hn⟩

end Agent
