import WireguardP2p.Agent.Worker

/-! Frames: which fields of an entry a section leaves alone. `KeepsField φ R` says that a section keeps
    what holds of `φ` of the entry; with one rule for each command it follows the structure of the
    section. Workers leave all control fields alone, and so does what follows a new candidate signature,
    a route or a probe. -/

namespace Agent
open Ipaddress Python Candidates Raising

/-- The fields that offers and expiry write and workers only read. -/
structure Control where
  sessionId : Text
  sessionStartedNs : ℤ
  ip : Text
  candidates : List Candidate
  controlExpired : Bool
  leaseExpires : PyFloat

def PeerState.control (s : PeerState) : Control :=
  ⟨s.sessionId, s.sessionStartedNs, s.ip, s.candidates, s.controlExpired, s.leaseExpires⟩

/-- The control fields that only offers write. -/
structure Terms where
  sessionId : Text
  sessionStartedNs : ℤ
  ip : Text
  candidates : List Candidate
  deriving DecidableEq

def PeerState.terms (s : PeerState) : Terms := ⟨s.sessionId, s.sessionStartedNs, s.ip, s.candidates⟩

def Control.terms (c : Control) : Terms := ⟨c.sessionId, c.sessionStartedNs, c.ip, c.candidates⟩

def Terms.session (t : Terms) : Text × ℤ := (t.sessionId, t.sessionStartedNs)

/-- The session of an entry, with its start. -/
def PeerState.session (s : PeerState) : Text × ℤ := (s.sessionId, s.sessionStartedNs)

def Control.session (c : Control) : Text × ℤ := (c.sessionId, c.sessionStartedNs)

/-- The program keeps what holds of `φ` of the entry. -/
abbrev KeepsField {α β : Type} (φ : PeerState → β) (R : Option β → Prop) (p : Section α) : Prop :=
  Keeps (fun sl => R (sl.entry.map φ)) p

section Keeps
variable {β : Type} {φ : PeerState → β} {R : Option β → Prop}

theorem field_wgSet (o : Outcome) (c : Command) : KeepsField φ R (wgSet o c) := fun _ h =>
  (wp_wgSet o c).mpr ⟨fun _ => h, fun _ => h, fun _ => h⟩

theorem field_tryWgSet (o : Outcome) (c : Command) : KeepsField φ R (tryWgSet o c) := fun _ h =>
  (wp_tryWgSet o c).mpr ⟨fun _ => h, fun _ => h⟩

theorem field_removeIfPresent (o : Outcome) : KeepsField φ R (removeIfPresent o) := fun sl h =>
  (wp_removeIfPresent o).mpr ⟨fun _ => h, fun _ => field_wgSet o _ sl h⟩

theorem field_update {f : PeerState → PeerState} (hf : ∀ s, φ (f s) = φ s) :
    KeepsField φ R (update f) := fun sl h => by
  rw [wp_update, Slot.entry_update, Option.map_map, show φ ∘ f = φ from funext hf]
  exact h

/-- `φ` does not read the generation. -/
theorem field_renew (hφ : ∀ s g, φ { s with generation := g } = φ s) : KeepsField φ R renew :=
  fun sl h => by
    rw [wp_renew, Slot.entry_renew, Option.map_map]
    exact (congrArg (fun g => R (sl.entry.map g)) (funext fun s => hφ s _)).mpr h

theorem field_retire (hφ : ∀ s g, φ { s with generation := g } = φ s)
    (hr : ∀ s : PeerState, φ { s with workerRunning := false } = φ s) : KeepsField φ R retire :=
  .bind (field_renew hφ) fun _ => field_update hr

theorem field_deleteEntry (hR : R none) : KeepsField φ R deleteEntry := fun _ _ => hR

end Keeps

/-! ### Control fields -/

section Control
variable {R : Option Control → Prop}

/-- The program keeps what holds of the control fields of the entry. -/
abbrev KeepsControl {α : Type} (R : Option Control → Prop) (p : Section α) : Prop :=
  KeepsField PeerState.control R p

/-- A program that leaves the control fields alone leaves what is read off them. -/
theorem field_of_control {α β : Type} (ψ : Control → β) {p : Section α} {R : Option β → Prop}
    (h : KeepsControl (fun x => R (x.map ψ)) p) : KeepsField (ψ ∘ PeerState.control) R p := by
  intro sl hsl
  have hcomp (sl : Slot) : (sl.entry.map PeerState.control).map ψ =
      sl.entry.map (ψ ∘ PeerState.control) := Option.map_map ..
  exact wp_mono (h sl ((congrArg R (hcomp sl)).mpr hsl)) (fun _ t ht => (congrArg R (hcomp t)).mp ht)
    fun _ t ht => (congrArg R (hcomp t)).mp ht

theorem control_renew : KeepsControl R renew := field_renew fun _ _ => rfl

theorem control_retire : KeepsControl R retire := field_retire (fun _ _ => rfl) fun _ => rfl

theorem control_startProbe : KeepsControl R startProbe :=
  .bind control_renew fun _ => .bind (field_update fun _ => rfl) fun _ =>
    .bind keeps_entry fun _ => .pure _

theorem control_followSignature (o : Offer) (calls : OfferCalls) :
    KeepsControl R (followSignature o calls) := by
  refine .bind keeps_entry fun e => ?_
  cases e with
  | none => exact .pure _
  | some s =>
    refine .ite (fun _ => .bind (field_update fun _ => rfl) fun _ => .bind control_renew fun _ =>
      .bind (field_update fun _ => rfl) fun _ => .bind keeps_peer fun p => .ite (fun _ => ?_)
        fun _ => ?_) fun _ => .pure _
    · exact .bind (field_update fun _ => rfl) fun _ => keeps_saveState _
    · exact .bind (field_removeIfPresent _) fun _ => field_update fun _ => rfl

theorem control_followDirect (o : Offer) (calls : OfferCalls) :
    KeepsControl R (followDirect o calls) := by
  refine .bind keeps_peer fun p => .ite (fun _ => .ite (fun _ => ?_) fun _ => ?_) fun _ => .pure _
  · exact .bind (field_update fun _ => rfl) fun _ => keeps_saveState _
  · exact .bind (field_wgSet _ _) fun _ => .bind control_renew fun _ => field_update fun _ => rfl

theorem control_launchIfDue (o : Offer) : KeepsControl R (launchIfDue o) :=
  .bind keeps_peer fun _ => keeps_match (.pure _) fun _ =>
    .ite (fun _ => .bind control_startProbe fun _ => .pure _) fun _ => .pure _

/-- The part of an offer after the control fields. -/
theorem control_follow (o : Offer) (calls : OfferCalls) :
    KeepsControl R (do followSignature o calls; followDirect o calls; launchIfDue o) :=
  .bind (control_followSignature o calls) fun _ => .bind (control_followDirect o calls) fun _ =>
    control_launchIfDue o

theorem control_monitorLaunch (now : Time) (changed : Bool) :
    KeepsControl R (monitorLaunch now changed) :=
  keeps_match (.pure _) fun _ =>
    .ite (fun _ => .bind control_startProbe fun _ => .pure _) fun _ => .pure _

theorem control_monitorProbe (now : Time) (changed : Bool) :
    KeepsControl R (monitorProbe now changed) :=
  keeps_match (.pure _) fun _ => .ite (fun _ => .ite (fun _ => .pure _) fun _ =>
    .bind (field_update fun _ => rfl) fun _ => control_monitorLaunch now true)
      fun _ => control_monitorLaunch now changed

theorem control_monitorRoute (hR : R none) (now : Time) (remove : Outcome) (changed : Bool) :
    KeepsControl R (monitorRoute now remove changed) := by
  refine keeps_match (.pure _) fun s => .bind keeps_peer fun p => .ite (fun _ => .pure _) fun _ =>
    .ite (fun _ => .ite (fun _ => ?_) fun _ => ?_) fun _ => control_monitorProbe now changed
  · exact .bind (field_update fun _ => rfl) fun _ => .pure _
  · refine .bind (field_wgSet _ _) fun _ => .bind control_renew fun _ => .ite (fun _ => ?_) fun _ => ?_
    · exact .bind (field_update fun _ => rfl) fun _ => .bind (field_deleteEntry hR) fun _ => .pure _
    · exact .bind (field_update fun _ => rfl) fun _ => control_monitorProbe now true

theorem control_giveUp (calls : WorkerCalls) : KeepsControl R (giveUp calls) :=
  .bind (field_tryWgSet _ _) fun _ => .bind (field_update fun _ => rfl) fun _ =>
    .bind (keeps_saveState _) fun _ => .pure _

theorem control_probeStep (g : ℕ) (calls : WorkerCalls) :
    ∀ pc : ProbePc, KeepsControl R (probeStep g calls pc)
  | .start => keeps_match (.pure _) fun _ => .ite (fun _ => .pure _) fun _ =>
      .ite (fun _ => .pure _) fun _ => .pure _
  | .cancel => keeps_match (.pure _) fun _ => .ite (fun _ => .bind (field_update fun _ => rfl)
      fun _ => .bind (keeps_saveState _) fun _ => .pure _) fun _ => .pure _
  | .check _ [] => .pure _
  | .check _ (_ :: _) => .bind keeps_entry fun _ => .ite (fun _ => .pure _) fun _ => .pure _
  | .baseline .. => .bind (keeps_queryPeers _) fun _ => .bind keeps_peer fun _ => .pure _
  | .configure .. => .bind keeps_entry fun _ => .ite (fun _ => .pure _) fun _ => .ite
      (fun _ => .bind (field_wgSet _ _) fun _ => .bind (field_update fun _ => rfl) fun _ =>
        .bind (keeps_saveState _) fun _ => .pure _)
      fun _ => .bind (field_tryWgSet _ _) fun _ => .pure _
  | .wait .. => .ite (fun _ => .pure _) fun _ => .ite (fun _ => .pure _) fun _ =>
      .bind keeps_entry fun _ => .ite (fun _ => .pure _) fun _ => .pure _
  | .poll .. => .bind (keeps_queryPeers _) fun _ => .bind keeps_peer fun p => by
      cases p with
      | none => exact .pure _
      | some p => exact .ite (fun _ => .pure _) fun _ => .pure _
  | .promote .. => keeps_match (.pure _) fun _ => .ite (fun _ => .pure _) fun _ =>
      .bind (field_wgSet _ _) fun _ => .bind (field_update fun _ => rfl) fun _ =>
        .bind (keeps_saveState _) fun _ => .pure _
  | .rekey .. => .ite (fun _ => .pure _) fun _ => .pure _
  | .fail => .bind keeps_entry fun _ => .ite (fun _ => .pure _) fun _ => control_giveUp calls

theorem control_confirmStep (g : ℕ) (calls : WorkerCalls) :
    ∀ pc : ConfirmPc, KeepsControl R (confirmStep g calls pc)
  | .setup .. => .ite (fun _ => .pure _) fun _ => .bind keeps_entry fun _ => .ite (fun _ => .pure _)
      fun _ => .bind (field_update fun _ => rfl) fun _ => .ite
        (fun _ => .bind (field_wgSet _ _) fun _ => .bind (field_wgSet _ _) fun _ =>
          .bind (keeps_saveState _) fun _ => .pure _)
        fun _ => .bind (.handle (.bind (field_wgSet _ _) fun _ => field_wgSet _ _)
          fun _ => .pure _) fun _ => .bind (field_tryWgSet _ _) fun _ =>
            .bind (field_update fun _ => rfl) fun _ => .bind (keeps_saveState _) fun _ => .pure _
  | .poll .. => .ite (fun _ => .pure _) fun _ => .ite (fun _ => .pure _) fun _ =>
      .bind (keeps_queryPeers _) fun _ => .bind keeps_peer fun p => by
        cases p with
        | none => exact .pure _
        | some p => exact .ite (fun _ => .pure _) fun _ => .pure _
  | .finalize .. => .bind keeps_entry fun _ => .ite (fun _ => .pure _) fun _ => .ite
      (fun _ => .bind (field_wgSet _ _) fun _ => .bind (field_update fun _ => rfl) fun _ =>
        .bind (keeps_saveState _) fun _ => .pure _)
      fun _ => .bind (field_tryWgSet _ _) fun _ => .pure _
  | .fail => .bind keeps_entry fun _ => .ite (fun _ => .pure _) fun _ => control_giveUp calls

theorem control_threadStep (t : Thread) (calls : WorkerCalls) : KeepsControl R (t.step calls) := by
  unfold Thread.step
  cases t.pc with
  | probe pc => exact .handle (control_probeStep _ calls pc) fun _ => .pure _
  | confirm pc => exact .handle (control_confirmStep _ calls pc) fun _ => .pure _
  | cleanup =>
    refine keeps_match (.pure _) fun s => .ite (fun _ => ?_) fun _ => .pure _
    exact .bind (field_tryWgSet _ _) fun _ => .bind (field_renew fun _ _ => rfl) fun _ =>
      .bind (field_update fun _ => rfl) fun _ =>
        .bind (.handle (keeps_saveState _) fun _ => .pure _) fun _ => .pure _
  | finished => exact .pure _

end Control

/-! ### Offers -/

section Offer
variable {o : Offer} {calls : OfferCalls}

/-- The control fields an offer brings. -/
def Offer.control (o : Offer) : Control :=
  ⟨o.sessionId, o.sessionStartedNs, o.peerIp, o.candidates, false, o.leaseExpires⟩

/-- The replacement leaves an entry, unless the device refuses the removal of its peer: then the control
    fields are as they were. -/
theorem isSome_replaceEntry (sl : Slot) : (replaceEntry o calls).wp
    (fun _ sl' => sl'.entry.isSome = true)
    (fun _ sl' => calls.remove ≠ Outcome.done ∧ sl.entry.isSome = true ∧
      sl'.entry.map PeerState.control = sl.entry.map PeerState.control) sl := by
  have hcreate {E : Raised → Slot → Prop} (sl : Slot) : (createEntry o).wp
      (fun _ sl' => sl'.entry.isSome = true) E sl := rfl
  -- the removal of the peer, then a new entry
  have hanew {sl₁ : Slot} (hsome : sl.entry.isSome = true)
      (h₁ : sl₁.entry.map PeerState.control = sl.entry.map PeerState.control) :
      (do removeIfPresent calls.remove; createEntry o).wp (fun _ sl' => sl'.entry.isSome = true)
        (fun _ sl' => calls.remove ≠ Outcome.done ∧ sl.entry.isSome = true ∧
          sl'.entry.map PeerState.control = sl.entry.map PeerState.control) sl₁ := by
    simp only [wp_bind, wp_removeIfPresent, wp_wgSet]
    refine ⟨fun _ => hcreate _, fun _ => ⟨fun _ => hcreate _, fun hr => ⟨?_, hsome, h₁⟩,
      fun hr => ⟨?_, hsome, h₁⟩⟩⟩
    · rw [hr]
      exact fun h => by cases h
    · rw [hr]
      exact fun h => by cases h
  have hretire : ((sl.renew).update fun s => { s with workerRunning := false }).entry.map
      PeerState.control = sl.entry.map PeerState.control := by
    rw [Slot.entry_update, Slot.entry_renew, Option.map_map, Option.map_map]
    rfl
  rw [replaceEntry, wp_bind, wp_entry]
  cases hs : sl.entry with
  | none => exact hcreate sl
  | some s =>
    have hsome : sl.entry.isSome = true := by rw [hs, Option.isSome_some]
    rw [wp_ite]
    refine ⟨fun _ => ?_, fun _ => ?_⟩
    · rw [wp_bind, retire, wp_bind, wp_renew, wp_update]
      exact hs ▸ hanew hsome hretire
    · rw [wp_ite]
      refine ⟨fun _ => ?_, fun _ => ?_⟩
      · simp only [wp_bind, wp_peer, retire, wp_renew, wp_update, wp_ite]
        refine ⟨fun _ => ?_, fun _ => ?_⟩
        · simp [Slot.entry_renew, hs]
        · have h := hanew hsome hretire
          rw [wp_bind] at h
          exact hs ▸ h
      · rw [wp_pure, hs]
        rfl

/-- An offer found current leaves its control fields, also if a call raises after it; unless the device
    refuses the removal first, then they are as they were. -/
theorem control_acceptOffer (sl : Slot) :
    (acceptOffer o calls).wp (fun _ sl' => sl'.entry.map PeerState.control = some o.control)
      (fun _ sl' => sl'.entry.map PeerState.control = some o.control ∨ calls.remove ≠ Outcome.done ∧
        sl.entry.isSome = true ∧
          sl'.entry.map PeerState.control = sl.entry.map PeerState.control) sl := by
  rw [acceptOffer, wp_bind, prepareOffer, wp_bind]
  refine wp_mono (isSome_replaceEntry sl) (fun _ sl₁ h₁ => ?_) fun _ _ h => .inr h
  obtain ⟨s, hs⟩ := Option.isSome_iff_exists.mp h₁
  rw [wp_bind, refreshEntry, wp_update]
  have hrefresh : (sl₁.update (PeerState.refresh o)).entry.map PeerState.control = some o.control := by
    rw [Slot.entry_update, hs]
    rfl
  refine wp_mono (control_follow (R := (· = some o.control)) o calls _ hrefresh) (fun _ sl₃ h₃ => ?_)
    fun _ _ h => .inl h
  simp only [wp_bind, wp_saveState, wp_pure]
  exact ⟨fun _ => h₃, fun _ => .inl h₃⟩

/-- What an offer makes of the control fields: those of the offer, or what they were. -/
theorem controls_offerSection {R : Option Control → Prop} {sl : Slot}
    (h : R (sl.entry.map PeerState.control))
    (ho : sessionCheck sl.entry o = .current → R (some o.control)) :
    (offerSection o calls).wp (fun _ sl' => R (sl'.entry.map PeerState.control))
      (fun _ sl' => R (sl'.entry.map PeerState.control)) sl := by
  simp only [offerSection, wp_bind, wp_queryPeers, wp_entry]
  refine ⟨fun _ => ?_, fun _ _ => h⟩
  cases hc : sessionCheck sl.entry o with
  | stale => exact h
  | startChanged => exact h
  | current =>
    simp only [wp_bind, wp_pure]
    refine wp_mono (control_acceptOffer sl) (fun _ sl' h' => h' ▸ ho hc) fun _ sl' h' => ?_
    rcases h' with h' | ⟨_, _, h'⟩
    · exact h' ▸ ho hc
    · exact h' ▸ h

/-- What an offer leaves where the device answers: its control fields, or nothing changed. -/
theorem control_offerSection (hq : calls.query = none) (hr : calls.remove = .done) (sl : Slot) :
    (offerSection o calls).wp
      (fun _ sl' => if sessionCheck sl.entry o = .current then
        sl'.entry.map PeerState.control = some o.control else sl' = sl)
      (fun _ sl' => if sessionCheck sl.entry o = .current then
        sl'.entry.map PeerState.control = some o.control else sl' = sl) sl := by
  simp only [offerSection, wp_bind, wp_queryPeers, hq, wp_entry, true_imp_iff, reduceCtorEq,
    false_imp_iff, implies_true, and_true]
  cases sessionCheck sl.entry o with
  | stale => exact rfl
  | startChanged => exact rfl
  | current =>
    simp only [wp_bind, wp_pure, if_true]
    refine wp_mono (control_acceptOffer sl) (fun _ _ h => h) fun _ _ h => ?_
    exact h.resolve_right fun h => h.1 hr

end Offer

end Agent
