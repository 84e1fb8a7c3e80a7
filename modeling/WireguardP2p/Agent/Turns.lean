import WireguardP2p.Lib.Fencing
import WireguardP2p.Agent.Sections

/-! What a section does to the ownership of an entry. Outside the workers a section either leaves a
    worker of the entry its generation, and then never marks the entry for one, or it gives the entry
    a new generation with no worker, or it launches: a new generation, marked for a probe. -/

namespace Agent
open Ipaddress Python Net Candidates Raising

/-- The same incarnation of an entry: generation, session and peer instance. -/
structure Same (s s' : PeerState) : Prop where
  generation : s'.generation = s.generation
  session : s'.sessionId = s.sessionId
  peerInstance : s'.peerInstanceId = s.peerInstanceId

/-- The entry stays the incarnation it is; no worker mark and no worker mode appears. -/
structure Kept (s s' : PeerState) : Prop where
  same : Same s s'
  running : s'.workerRunning = true → s.workerRunning = true
  probe : s'.mode = .probe → s.mode = .probe
  confirm6 : s'.mode = .confirm6 → s.mode = .confirm6

theorem Same.refl (s : PeerState) : Same s s := ⟨rfl, rfl, rfl⟩

theorem Same.trans {s s' s'' : PeerState} (h : Same s s') (h' : Same s' s'') : Same s s'' :=
  ⟨h'.generation.trans h.generation, h'.session.trans h.session,
    h'.peerInstance.trans h.peerInstance⟩

theorem Kept.refl (s : PeerState) : Kept s s := ⟨.refl s, id, id, id⟩

theorem Kept.trans {s s' s'' : PeerState} (h : Kept s s') (h' : Kept s' s'') : Kept s s'' :=
  ⟨h.same.trans h'.same, h.running ∘ h'.running, h.probe ∘ h'.probe, h.confirm6 ∘ h'.confirm6⟩

/-- What a section that launches nothing does to an entry: it is kept, or its generation is new and it
    has no worker. No other peer loses a route. -/
structure Turn (sl₀ sl : Slot) : Prop where
  last_le : sl₀.lastGeneration ≤ sl.lastGeneration
  taken : sl.taken = sl₀.taken
  entry : ∀ s, sl.entry = some s → (∃ s₀, sl₀.entry = some s₀ ∧ Kept s₀ s) ∨
    sl₀.lastGeneration < s.generation ∧ s.generation ≤ sl.lastGeneration ∧ s.workerRunning = false

/-- What a section that launches a probe does: the entry has the new generation `g`. -/
structure Launched (sl₀ : Slot) (g : ℕ) (sl : Slot) : Prop where
  new : sl₀.lastGeneration < g
  last : sl.lastGeneration = g
  taken : sl.taken = sl₀.taken
  entry : ∃ s, sl.entry = some s ∧ s.generation = g ∧ s.workerRunning = true ∧ s.mode = .probe

namespace Turn
variable {sl₀ sl : Slot}

theorem refl (sl : Slot) : Turn sl sl := ⟨le_rfl, rfl, fun s hs => .inl ⟨s, hs, .refl s⟩⟩

/-- A command to the device is no matter of ownership. -/
theorem congr {sl' : Slot} (h : Turn sl₀ sl) (he : sl'.entry = sl.entry)
    (hl : sl'.lastGeneration = sl.lastGeneration) (ht : sl'.taken = sl.taken) : Turn sl₀ sl' :=
  ⟨hl ▸ h.last_le, ht.trans h.taken, fun s hs => by rw [hl]; exact h.entry s (he ▸ hs)⟩

theorem delete (h : Turn sl₀ sl) : Turn sl₀ { sl with entry := none } :=
  ⟨h.last_le, h.taken, fun s hs => by simp at hs⟩

theorem update {f : PeerState → PeerState} (h : Turn sl₀ sl) (hf : ∀ s, Kept s (f s)) :
    Turn sl₀ (sl.update f) := by
  refine ⟨h.last_le, h.taken, fun s' hs' => ?_⟩
  obtain ⟨s, hs, rfl⟩ := Option.map_eq_some_iff.mp hs'
  rcases h.entry s hs with ⟨s₀, hs₀, hk⟩ | ⟨hlt, hle, hrun⟩
  · exact .inl ⟨s₀, hs₀, hk.trans (hf s)⟩
  · refine .inr ⟨(hf s).same.generation ▸ hlt, (hf s).same.generation ▸ hle, ?_⟩
    rw [← Bool.not_eq_true] at hrun ⊢
    exact fun hr => hrun ((hf s).running hr)

/-- A new generation, and an update that clears the worker mark. -/
theorem renew_update {f : PeerState → PeerState} (h : Turn sl₀ sl)
    (hf : ∀ s, (f s).generation = s.generation ∧ (f s).workerRunning = false) :
    Turn sl₀ (sl.renew.update f) := by
  refine ⟨h.last_le.trans sl.lastGeneration_le_renew, sl.taken_renew.trans h.taken, fun s' hs' => .inr ?_⟩
  cases he : sl.entry with
  | none => simp [sl.renew_none he, he] at hs'
  | some s =>
    rw [sl.renew_some he] at hs' ⊢
    obtain rfl : f { s with generation := sl.nextGeneration s.generation } = s' := by simpa using hs'
    rw [(hf _).1, (hf _).2]
    exact ⟨h.last_le.trans_lt (sl.lt_nextGeneration _), le_rfl, rfl⟩

/-- Marking the entry for a probe. -/
theorem launch {s : PeerState} {f : PeerState → PeerState} (h : Turn sl₀ sl) (hs : sl.entry = some s)
    (hf : ∀ s, (f s).generation = s.generation ∧ (f s).workerRunning = true ∧ (f s).mode = .probe) :
    Launched sl₀ (sl.nextGeneration s.generation) (sl.renew.update f) := by
  rw [sl.renew_some hs]
  refine ⟨h.last_le.trans_lt (sl.lt_nextGeneration _), rfl, h.taken, _, rfl, ?_⟩
  exact hf { s with generation := sl.nextGeneration s.generation }

end Turn

/-! ### Programs that launch nothing -/

section Keeps
variable {sl₀ : Slot}

theorem keeps_turn_remove (o : Outcome) : Keeps (Turn sl₀) (wgSet o .remove) :=
  fun _ h => (wp_wgSet o _).mpr
    ⟨fun _ => h.congr rfl rfl rfl, fun _ => h.congr rfl rfl rfl, fun _ => h.congr rfl rfl rfl⟩

theorem keeps_turn_removeIfPresent (o : Outcome) : Keeps (Turn sl₀) (removeIfPresent o) :=
  fun sl h => (wp_removeIfPresent o).mpr ⟨fun _ => h, fun _ => keeps_turn_remove o sl h⟩

theorem keeps_turn_update {f : PeerState → PeerState} (hf : ∀ s, Kept s (f s)) :
    Keeps (Turn sl₀) (Agent.update f) := fun _ h => h.update hf

theorem keeps_turn_renew_update {f : PeerState → PeerState} {α : Type} {p : Section α}
    (hf : ∀ s, (f s).generation = s.generation ∧ (f s).workerRunning = false)
    (hp : Keeps (Turn sl₀) p) : Keeps (Turn sl₀) (do renew; Agent.update f; p) :=
  fun _ h => hp _ (h.renew_update hf)

theorem keeps_turn_retire : Keeps (Turn sl₀) retire :=
  fun _ h => h.renew_update fun _ => ⟨rfl, rfl⟩

theorem keeps_turn_deleteEntry : Keeps (Turn sl₀) deleteEntry := fun _ h => h.delete

/-- The entry is an incarnation the offer speaks of, or a new one. -/
def Current (o : Offer) (sl₀ sl : Slot) : Prop := ∀ s, sl.entry = some s →
  s.sessionId = o.sessionId ∧ (o.peerInstanceId = [] ∨ s.peerInstanceId = o.peerInstanceId) ∨
  sl₀.lastGeneration < s.generation ∧ s.generation ≤ sl.lastGeneration ∧ s.workerRunning = false

theorem turn_createEntry (o : Offer) {sl : Slot} (h : Turn sl₀ sl) :
    (createEntry o).wp (fun _ sl' => Turn sl₀ sl' ∧ Current o sl₀ sl') (fun _ _ => False) sl := by
  have hnew := h.last_le.trans_lt (sl.lt_nextGeneration 0)
  refine ⟨⟨hnew.le, h.taken, fun s hs => .inr ?_⟩, fun s hs => .inr ?_⟩ <;>
    (obtain rfl := Option.some.inj hs; exact ⟨hnew, le_rfl, rfl⟩)

/-- The replacement leaves an entry the offer may refresh. -/
theorem turn_replaceEntry (o : Offer) (calls : OfferCalls) {sl : Slot} (h : Turn sl₀ sl) :
    (replaceEntry o calls).wp (fun _ sl' => Turn sl₀ sl' ∧ Current o sl₀ sl') (fun _ => Turn sl₀)
      sl := by
  have hcreate {sl : Slot} (h : Turn sl₀ sl) : (createEntry o).wp
      (fun _ sl' => Turn sl₀ sl' ∧ Current o sl₀ sl') (fun _ => Turn sl₀) sl :=
    wp_mono (turn_createEntry o h) (fun _ _ h => h) fun _ _ => False.elim
  simp only [replaceEntry, wp_bind, wp_entry]
  cases hs : sl.entry with
  | none => exact hcreate h
  | some s =>
    simp only [wp_ite, wp_bind, wp_peer, wp_pure]
    refine ⟨fun _ => ?_, fun hi => ⟨fun _ => ?_, fun hsid => ⟨h, fun s' hs' => .inl ?_⟩⟩⟩
    · refine wp_mono (keeps_turn_retire sl h) (fun _ sl h => ?_) fun _ _ h => h
      exact wp_mono (keeps_turn_removeIfPresent calls.remove sl h) (fun _ sl h => hcreate h)
        fun _ _ h => h
    · have hr : Turn sl₀ (sl.renew.update fun s => { s with workerRunning := false }) :=
        h.renew_update fun _ => ⟨rfl, rfl⟩
      simp only [retire, wp_bind, wp_renew, wp_update]
      refine ⟨fun _ => ⟨hr.update fun _ => ⟨⟨rfl, rfl, rfl⟩, id, nofun, nofun⟩, fun s' hs' => .inr ?_⟩,
        fun _ => ?_⟩
      · rw [Slot.entry_update, Slot.entry_update, sl.renew_some hs] at hs'
        obtain rfl := Option.some.inj hs'
        rw [sl.renew_some hs]
        exact ⟨h.last_le.trans_lt (sl.lt_nextGeneration _), le_rfl, rfl⟩
      · exact wp_mono (keeps_turn_removeIfPresent calls.remove _ hr) (fun _ sl h => hcreate h)
          fun _ _ h => h
    · obtain rfl := Option.some.inj (hs.symm.trans hs')
      refine ⟨not_not.mp hsid, ?_⟩
      by_contra hne
      rw [not_or] at hne
      exact hi (by simpa [instanceChanged] using hne)

theorem turn_refreshEntry (o : Offer) {sl : Slot} (h : Turn sl₀ sl) (hc : Current o sl₀ sl) :
    (refreshEntry o).wp (fun _ => Turn sl₀) (fun _ _ => False) sl := by
  refine ⟨h.last_le, h.taken, fun s' hs' => ?_⟩
  obtain ⟨s, hs, rfl⟩ := Option.map_eq_some_iff.mp hs'
  rcases hc s hs with ⟨hsid, hi⟩ | hnew
  · rcases h.entry s hs with ⟨s₀, hs₀, hk⟩ | hnew
    · refine .inl ⟨s₀, hs₀, hk.trans ⟨⟨rfl, hsid.symm, ?_⟩, id, id, id⟩⟩
      by_cases he : o.peerInstanceId = []
      · simp [PeerState.refresh, he]
      · simpa [PeerState.refresh, he] using (hi.resolve_left he).symm
    · exact .inr hnew
  · exact .inr hnew

theorem keeps_turn_followSignature (o : Offer) (calls : OfferCalls) :
    Keeps (Turn sl₀) (followSignature o calls) := by
  unfold followSignature
  refine .bind keeps_entry fun e => ?_
  cases e with
  | none => exact .pure _
  | some s =>
    refine .ite (fun _ => ?_) fun _ => .pure _
    refine .bind (keeps_turn_update fun _ => ⟨⟨rfl, rfl, rfl⟩, id, id, id⟩) fun _ =>
      keeps_turn_renew_update (fun _ => ⟨rfl, rfl⟩) ?_
    refine .bind keeps_peer fun p => .ite (fun _ => ?_) fun _ => ?_
    · exact .bind (keeps_turn_update fun _ => ⟨⟨rfl, rfl, rfl⟩, id, nofun, nofun⟩) fun _ =>
        keeps_saveState _
    · exact .bind (keeps_turn_removeIfPresent _) fun _ =>
        keeps_turn_update fun _ => ⟨⟨rfl, rfl, rfl⟩, id, nofun, nofun⟩

theorem keeps_turn_followDirect (o : Offer) (calls : OfferCalls) :
    Keeps (Turn sl₀) (followDirect o calls) := by
  unfold followDirect
  refine .bind keeps_peer fun p => .ite (fun _ => .ite (fun _ => ?_) fun _ => ?_) fun _ => .pure _
  · exact .bind (keeps_turn_update fun _ => ⟨⟨rfl, rfl, rfl⟩, nofun, nofun, nofun⟩) fun _ =>
      keeps_saveState _
  · exact .bind (keeps_turn_remove _) fun _ =>
      keeps_turn_renew_update (fun _ => ⟨rfl, rfl⟩) (.pure _)

theorem keeps_turn_removeSection (r : Removal) (now : Time) (calls : RemoveCalls) :
    Keeps (Turn sl₀) (removeSection r now calls) := by
  unfold removeSection
  refine .bind keeps_entry fun e => ?_
  cases e with
  | none => exact .pure _
  | some s =>
    refine .ite (fun _ => .pure _) fun _ => .bind (keeps_queryPeers _) fun _ =>
      .bind keeps_peer fun p => .ite (fun _ => ?_) fun _ => ?_
    · exact .bind (keeps_turn_update fun _ => ⟨⟨rfl, rfl, rfl⟩, nofun, nofun, nofun⟩) fun _ =>
        .bind (keeps_saveState _) fun _ => .pure _
    · exact .bind (keeps_turn_removeIfPresent _) fun _ => .bind keeps_turn_retire fun _ =>
        .bind keeps_turn_deleteEntry fun _ => .bind (keeps_saveState _) fun _ => .pure _

theorem keeps_turn_cleanupPeer (active : Bool) (remove : Outcome) :
    Keeps (Turn sl₀) (cleanupPeer active remove) := by
  unfold cleanupPeer
  refine .bind keeps_entry fun e => ?_
  cases e with
  | none => exact .pure _
  | some s =>
    exact .ite (fun _ => .pure _) fun _ => .bind keeps_turn_retire fun _ =>
      .bind (.handle (keeps_turn_removeIfPresent _) fun _ => .pure _) fun _ =>
        .bind keeps_turn_deleteEntry fun _ => .pure _

end Keeps

/-! ### Programs that may launch -/

/-- The end of a section that may launch. -/
def TurnOrLaunched (sl₀ : Slot) (launch : Option ℕ) (sl : Slot) : Prop :=
  match launch with
  | none => Turn sl₀ sl
  | some g => Launched sl₀ g sl

theorem TurnOrLaunched.taken {sl₀ sl : Slot} : ∀ {launch : Option ℕ}, TurnOrLaunched sl₀ launch sl →
    sl.taken = sl₀.taken
  | none, h => Turn.taken h
  | some _, h => Launched.taken h

variable {sl₀ sl : Slot}

theorem wp_startProbe {s : PeerState} (h : Turn sl₀ sl) (hs : sl.entry = some s) {Q : ℕ → Slot → Prop}
    {E : Raised → Slot → Prop} (hQ : ∀ g sl', Launched sl₀ g sl' → Q g sl') :
    startProbe.wp Q E sl := by
  have hl := h.launch (f := fun s => { s with workerRunning := true, mode := .probe }) hs
    fun _ => ⟨rfl, rfl, rfl⟩
  have hg : ((sl.renew.update fun s => { s with workerRunning := true, mode := .probe }).entry.map
      PeerState.generation).getD 0 = sl.nextGeneration s.generation := by
    simp [sl.renew_some hs]
  simp only [startProbe, wp_bind, wp_renew, wp_update, wp_entry, wp_pure]
  exact hQ _ _ (hg ▸ hl)

theorem turn_launchIfDue (o : Offer) (h : Turn sl₀ sl) :
    (launchIfDue o).wp (TurnOrLaunched sl₀) (fun _ _ => False) sl := by
  simp only [launchIfDue, wp_bind, wp_peer, wp_entry]
  cases hs : sl.entry with
  | none => exact h
  | some s =>
    simp only [wp_ite, wp_bind, wp_pure]
    exact ⟨fun _ => wp_startProbe h hs fun _ _ hl => hl, fun _ => h⟩

theorem turn_monitorLaunch (now : Time) (changed : Bool) (h : Turn sl₀ sl) :
    (monitorLaunch now changed).wp (fun r => TurnOrLaunched sl₀ r.launch) (fun _ _ => False) sl := by
  simp only [monitorLaunch, wp_bind, wp_entry]
  cases hs : sl.entry with
  | none => exact h
  | some s =>
    simp only [wp_ite, wp_bind, wp_pure]
    exact ⟨fun _ => wp_startProbe h hs fun _ _ hl => hl, fun _ => h⟩

theorem turn_monitorProbe (now : Time) (changed : Bool) (h : Turn sl₀ sl) :
    (monitorProbe now changed).wp (fun r => TurnOrLaunched sl₀ r.launch) (fun _ _ => False) sl := by
  simp only [monitorProbe, wp_bind, wp_entry]
  cases hs : sl.entry with
  | none => exact h
  | some s =>
    simp only [wp_ite, wp_bind, wp_pure, wp_update]
    refine ⟨fun _ => ⟨fun _ => h, fun _ => ?_⟩, fun _ => turn_monitorLaunch now changed h⟩
    exact turn_monitorLaunch now true (h.update fun _ => ⟨⟨rfl, rfl, rfl⟩, id, nofun, nofun⟩)

theorem turn_monitorRoute (now : Time) (remove : Outcome) (changed : Bool) (h : Turn sl₀ sl) :
    (monitorRoute now remove changed).wp (fun r => TurnOrLaunched sl₀ r.launch) (fun _ => Turn sl₀)
      sl := by
  simp only [monitorRoute, wp_bind, wp_entry]
  cases hs : sl.entry with
  | none => exact h
  | some s =>
    simp only [wp_ite, wp_bind, wp_pure, wp_update, wp_peer, wp_renew, wp_deleteEntry]
    refine ⟨fun _ => h, fun _ => ⟨fun _ => ⟨fun _ => ?_, fun _ => ?_⟩, fun _ => ?_⟩⟩
    · exact h.update fun _ => ⟨⟨rfl, rfl, rfl⟩, id, nofun, nofun⟩
    · refine wp_mono (keeps_turn_remove remove sl h) (fun _ sl' h' => ?_) fun _ _ h' => h'
      refine ⟨fun _ => ?_, fun _ => ?_⟩
      · exact (h'.renew_update (f := fun s => { s with workerRunning := false }) fun _ => ⟨rfl, rfl⟩).delete
      · exact wp_mono (turn_monitorProbe now true (h'.renew_update fun _ => ⟨rfl, rfl⟩))
          (fun _ _ ht => ht) fun _ _ => False.elim
    · exact wp_mono (turn_monitorProbe now changed h) (fun _ _ ht => ht) fun _ _ => False.elim

theorem turn_monitorPeer (now : Time) (remove : Outcome) (sl : Slot) :
    (monitorPeer now remove).wp (fun r => TurnOrLaunched sl r.launch) (fun _ => Turn sl) sl := by
  simp only [monitorPeer, wp_bind, wp_entry]
  cases hs : sl.entry with
  | none => exact .refl sl
  | some s =>
    simp only [wp_ite, wp_bind, wp_pure, wp_update, wp_peer, wp_deleteEntry]
    refine ⟨fun _ => ⟨fun _ => ?_, fun _ => ?_⟩, fun _ => turn_monitorRoute now remove false (.refl sl)⟩
    · exact turn_monitorRoute now remove true ((Turn.refl sl).update fun _ => ⟨⟨rfl, rfl, rfl⟩, nofun, nofun, nofun⟩)
    · refine wp_mono (keeps_turn_removeIfPresent remove sl (.refl sl)) (fun _ sl' h' => ?_)
        fun _ _ h' => h'
      exact wp_mono (keeps_turn_retire sl' h') (fun _ _ ht => ht.delete) fun _ _ ht => ht

/-- What an offer does before it saves. -/
theorem turn_prepareOffer (o : Offer) (calls : OfferCalls) (sl : Slot) :
    (prepareOffer o calls).wp (TurnOrLaunched sl) (fun _ => Turn sl) sl := by
  rw [prepareOffer, wp_bind]
  refine wp_mono (turn_replaceEntry o calls (.refl sl)) (fun _ sl h => ?_) fun _ _ h => h
  rw [wp_bind]
  refine wp_mono (turn_refreshEntry o h.1 h.2) (fun _ sl h => ?_) fun _ _ => False.elim
  refine (keeps_turn_followSignature o calls).wp_andThen h (fun _ sl h => ?_) fun _ _ h => h
  refine (keeps_turn_followDirect o calls).wp_andThen h (fun _ sl h => ?_) fun _ _ h => h
  exact wp_mono (turn_launchIfDue o h) (fun _ _ h => h) fun _ _ => False.elim

end Agent
