import WireguardP2p.Agent.Fields
import WireguardP2p.Agent.Steps

/-! The order of sessions. Only an offer writes the terms of an entry, and only once the check of the
    session has found it current; so while a key keeps an entry its session only moves forward, and
    whatever order offers arrive in, the one with the latest start wins. -/

namespace Agent
open Ipaddress Python Candidates Raising

/-- The session of an offer, with its start. -/
def Offer.session (o : Offer) : Text × ℤ := (o.sessionId, o.sessionStartedNs)

/-- What an offer that is found current makes of the terms of an entry. -/
def Offer.terms (o : Offer) : Terms := ⟨o.sessionId, o.sessionStartedNs, o.peerIp, o.candidates⟩

/-- The session an entry is on, if there is an entry. -/
def Slot.session (sl : Slot) : Option (Text × ℤ) := sl.entry.map PeerState.session

/-! ### Sections and the terms of their entry -/

section Keeps
variable {R : Option Terms → Prop}

/-- The program keeps what holds of the terms of the entry. -/
abbrev KeepsTerms {α : Type} (R : Option Terms → Prop) (p : Section α) : Prop :=
  KeepsField PeerState.terms R p

theorem terms_retire : KeepsTerms R retire := field_of_control Control.terms control_retire

theorem terms_removeSection (hR : R none) (r : Removal) (now : Time) (calls : RemoveCalls) :
    KeepsTerms R (removeSection r now calls) := by
  refine keeps_match (.pure _) fun s => .ite (fun _ => .pure _) fun _ =>
    .bind (keeps_queryPeers _) fun _ => .bind keeps_peer fun p => .ite (fun _ => ?_) fun _ => ?_
  · exact .bind (field_update fun _ => rfl) fun _ => .bind (keeps_saveState _) fun _ => .pure _
  · exact .bind (field_removeIfPresent _) fun _ => .bind terms_retire fun _ =>
      .bind (field_deleteEntry hR) fun _ => .bind (keeps_saveState _) fun _ => .pure _

theorem terms_monitorRoute (hR : R none) (now : Time) (remove : Outcome) (changed : Bool) :
    KeepsTerms R (monitorRoute now remove changed) :=
  field_of_control Control.terms (control_monitorRoute hR now remove changed)

theorem terms_monitorPeer (hR : R none) (now : Time) (remove : Outcome) :
    KeepsTerms R (monitorPeer now remove) := by
  refine keeps_match (.pure _) fun s => .ite (fun _ => .bind keeps_peer fun p => .ite (fun _ => ?_)
    fun _ => ?_) fun _ => terms_monitorRoute hR now remove false
  · exact .bind (field_update fun _ => rfl) fun _ => terms_monitorRoute hR now remove true
  · exact .bind (field_removeIfPresent _) fun _ => .bind terms_retire fun _ =>
      .bind (field_deleteEntry hR) fun _ => .pure _

theorem terms_cleanupPeer (hR : R none) (active : Bool) (remove : Outcome) :
    KeepsTerms R (cleanupPeer active remove) :=
  keeps_match (.pure _) fun _ => .ite (fun _ => .pure _) fun _ => .bind terms_retire fun _ =>
    .bind (.handle (field_removeIfPresent _) fun _ => .pure _) fun _ =>
      .bind (field_deleteEntry hR) fun _ => .pure _

theorem terms_threadStep (t : Thread) (calls : WorkerCalls) : KeepsTerms R (t.step calls) :=
  field_of_control Control.terms (control_threadStep t calls)

end Keeps

/-! ### Offers -/

section Offer
variable {o : Offer} {calls : OfferCalls}

/-- An offer whose session is found current is not older than the entry, and of a later session only if
    it started later. -/
theorem sessionCheck_current {s : PeerState} (h : sessionCheck (some s) o = .current) :
    s.sessionStartedNs ≤ o.sessionStartedNs ∧
      (s.sessionId ≠ o.sessionId → s.sessionStartedNs < o.sessionStartedNs) := by
  have hpos := o.started_pos
  simp only [sessionCheck] at h
  by_cases hsid : s.sessionId = o.sessionId
  · refine ⟨?_, fun hne => absurd hsid hne⟩
    rw [if_neg (not_not.mpr hsid)] at h
    by_cases hc : s.sessionStartedNs ≠ 0 ∧ s.sessionStartedNs ≠ o.sessionStartedNs
    · rw [if_pos hc] at h
      cases h
    · omega
  · rw [if_pos hsid] at h
    by_cases hc : s.sessionStartedNs ≠ 0 ∧ o.sessionStartedNs ≤ s.sessionStartedNs
    · rw [if_pos hc] at h
      cases h
    · exact ⟨by omega, fun _ => by omega⟩

/-- Where sessions and starts belong together, an offer not found current is not later. -/
theorem sessionCheck_not_current {s : PeerState} (h : sessionCheck (some s) o ≠ .current)
    (hd : s.sessionId = o.sessionId ↔ s.sessionStartedNs = o.sessionStartedNs) :
    o.sessionStartedNs ≤ s.sessionStartedNs := by
  simp only [sessionCheck] at h
  by_cases hsid : s.sessionId = o.sessionId
  · exact (hd.mp hsid).ge
  · rw [if_pos hsid] at h
    by_contra hlt
    exact h (if_neg fun hc => hlt hc.2)

/-- What an offer leaves where the device answers: its session, or nothing changed. -/
theorem taken_offerSection (hq : calls.query = none) (hr : calls.remove = .done) (sl : Slot) :
    (offerSection o calls).wp
      (fun _ sl' => if sessionCheck sl.entry o = .current then sl'.session = some o.session else sl' = sl)
      (fun _ sl' => if sessionCheck sl.entry o = .current then sl'.session = some o.session else sl' = sl)
      sl := by
  have hsession {sl' : Slot} (h : if sessionCheck sl.entry o = .current then
      sl'.entry.map PeerState.control = some o.control else sl' = sl) :
      if sessionCheck sl.entry o = .current then sl'.session = some o.session else sl' = sl := by
    by_cases hc : sessionCheck sl.entry o = .current
    · rw [if_pos hc] at h ⊢
      obtain ⟨s, hs, hso⟩ := Option.map_eq_some_iff.mp h
      rw [Slot.session, hs, Option.map_some]
      exact congrArg (some ∘ Control.session) hso
    · rw [if_neg hc] at h ⊢
      exact h
  exact wp_mono (control_offerSection hq hr sl) (fun _ _ => hsession) fun _ _ => hsession

end Offer

/-! ### Rejected offers -/

section Rejected
variable {o : Offer} {calls : OfferCalls}

/-- The errors of a failing `wg set` and of a failing `save_state`. -/
def CallError (e : Raised) : Prop := e = wgError ∨ e = .osError

theorem raises_wgSet (out : Outcome) (c : Command) : Raises CallError (wgSet out c) := fun _ =>
  (wp_wgSet out c).mpr ⟨fun _ => trivial, fun _ => .inl rfl, fun _ => .inl rfl⟩

theorem raises_removeIfPresent (out : Outcome) : Raises CallError (removeIfPresent out) := fun sl =>
  (wp_removeIfPresent out).mpr ⟨fun _ => trivial, fun _ => raises_wgSet out _ sl⟩

theorem raises_saveState (ok : Bool) : Raises CallError (saveState ok) := fun _ =>
  (wp_saveState ok).mpr ⟨fun _ => trivial, fun _ => .inr rfl⟩

theorem raises_entry : Raises CallError entry := .bind .get fun _ => .pure _

theorem raises_peer : Raises CallError peer := .bind .get fun _ => .pure _

theorem raises_update (f : PeerState → PeerState) : Raises CallError (update f) := .modify _

theorem raises_retire : Raises CallError retire := .bind (.modify _) fun _ => .modify _

theorem raises_replaceEntry : Raises CallError (replaceEntry o calls) := by
  refine .bind raises_entry fun e => ?_
  cases e with
  | none => exact .modify _
  | some s =>
    refine .ite (.bind raises_retire fun _ => .bind (raises_removeIfPresent _) fun _ => .modify _)
      (.ite (.bind raises_peer fun _ => .bind raises_retire fun _ => .ite ?_ ?_) (.pure _))
    · exact .bind raises_peer fun _ => raises_update _
    · exact .bind (raises_removeIfPresent _) fun _ => .modify _

theorem raises_followSignature : Raises CallError (followSignature o calls) := by
  refine .bind raises_entry fun e => ?_
  cases e with
  | none => exact .pure _
  | some s =>
    refine .ite (.bind (raises_update _) fun _ => .bind (.modify _) fun _ => .bind (raises_update _)
      fun _ => .bind raises_peer fun _ => .ite ?_ ?_) (.pure _)
    · exact .bind (raises_update _) fun _ => raises_saveState _
    · exact .bind (raises_removeIfPresent _) fun _ => raises_update _

theorem raises_followDirect : Raises CallError (followDirect o calls) :=
  .bind raises_peer fun _ => .ite (.ite (.bind (raises_update _) fun _ => raises_saveState _)
    (.bind (raises_wgSet _ _) fun _ => .bind (.modify _) fun _ => raises_update _)) (.pure _)

theorem raises_launchIfDue : Raises CallError (launchIfDue o) := by
  refine .bind raises_peer fun _ => .bind raises_entry fun e => ?_
  cases e with
  | none => exact .pure _
  | some s => exact .ite (.bind (.bind (.modify _) fun _ => .bind (raises_update _) fun _ =>
      .bind raises_entry fun _ => .pure _) fun _ => .pure _) (.pure _)

/-- Past the check of the session an offer raises only what a failing call raises. -/
theorem raises_acceptOffer : Raises CallError (acceptOffer o calls) :=
  .bind (.bind raises_replaceEntry fun _ => .bind (raises_update _) fun _ =>
    .bind raises_followSignature fun _ => .bind raises_followDirect fun _ => raises_launchIfDue)
    fun _ => .bind (raises_saveState _) fun _ => .pure _

/-- An offer answered `stale_session`, or rejected with `ValueError`, has done nothing. -/
theorem rejected_offerSection (sl : Slot) : (offerSection o calls).wp
    (fun reply sl' => reply = .staleSession → sl' = sl)
    (fun e sl' => (∃ m, e = .valueError m) → sl' = sl) sl := by
  simp only [offerSection, wp_bind, wp_queryPeers, wp_entry]
  refine ⟨fun _ => ?_, fun _ _ _ => trivial⟩
  cases sessionCheck sl.entry o with
  | stale => exact fun _ => rfl
  | startChanged => exact fun _ => rfl
  | current =>
    rw [wp_bind]
    refine wp_mono (raises_acceptOffer sl) (fun _ _ _ => by simp) fun e _ he => ?_
    rintro ⟨m, rfl⟩
    rcases he with he | he <;> cases he

end Rejected

end Agent
