import WireguardP2p.Agent.Turns

/-! When a section launches a probe, read off the entry and the device peer before it: `offerStarts` for
    an offer, `monitorMarks` for a pass of the monitor, and `monitorRemoves` for the passes that ask the
    device to remove the peer. -/

namespace Agent
open Ipaddress Python Net Candidates Raising

/-! ### Offers -/

/-- Whether an offer starts a probe, on the entry `s` that the offer refreshed. -/
def startsAfter (o : Offer) (s : PeerState) (p : Option WgPeer) : Bool :=
  if s.candidateSignature ≠ candidateSignature o.candidates then
    !(holdsRoute p o.peerIp && freshHandshake p o.now &&
      candidateEndpointExists o.candidates (peerEndpoint p))
  else if holdsRoute p o.peerIp then !freshHandshake p o.now
  else decide (s.retryAfter ≤ o.now) && !s.workerRunning

/-- The entry and the peer after the replacement, as far as a launch depends on them. -/
def replaced (o : Offer) (e : Option PeerState) (p : Option WgPeer) : PeerState × Option WgPeer :=
  match e with
  | none => (newPeerState o, p)
  | some s =>
    if instanceChanged s o then (newPeerState o, none)
    else if s.sessionId ≠ o.sessionId then
      if directPeerHealthy p o.peerIp o.now then ({ s with workerRunning := false, retryAfter := 0 }, p)
      else (newPeerState o, none)
    else (s, p)

/-- Whether an offer starts a probe. -/
def offerStarts (o : Offer) (e : Option PeerState) (p : Option WgPeer) : Bool :=
  startsAfter o (replaced o e p).1 (replaced o e p).2

/-- The entry and the peer ask for a probe before the `if direct` block. -/
def DueSoon (o : Offer) (sl : Slot) : Prop := ∃ s, sl.entry = some s ∧
  if holdsRoute sl.peer o.peerIp then freshHandshake sl.peer o.now = false
  else s.retryAfter ≤ o.now ∧ s.workerRunning = false

@[simp] theorem holdsRoute_none (ip : Text) : holdsRoute none ip = false := rfl

theorem startsAfter_congr {o : Offer} {s s' : PeerState} {p : Option WgPeer}
    (hc : s'.candidateSignature = s.candidateSignature) (hr : s'.retryAfter = s.retryAfter)
    (hw : s'.workerRunning = s.workerRunning) : startsAfter o s' p = startsAfter o s p := by
  simp only [startsAfter, hc, hr, hw]

section Offer
variable (o : Offer) (calls : OfferCalls) (sl : Slot)

theorem starts_launchIfDue : (launchIfDue o).wp (fun launch _ => launch.isSome →
    ∃ s, sl.entry = some s ∧ probeDue sl.peer o.peerIp o.now s = true) (fun _ _ => True) sl := by
  simp only [launchIfDue, wp_bind, wp_peer, wp_entry]
  cases hs : sl.entry with
  | none => simp
  | some s =>
    simp only [wp_ite, wp_bind, wp_pure]
    exact ⟨fun hd => wp_mono (wp_trivial _ _) (fun _ _ _ _ => ⟨s, rfl, hd⟩) fun _ _ h => h,
      fun _ => by simp⟩

theorem starts_followDirect : (followDirect o calls).wp (fun _ sl' => ∀ s', sl'.entry = some s' →
    probeDue sl'.peer o.peerIp o.now s' = true → DueSoon o sl) (fun _ _ => True) sl := by
  simp only [followDirect, wp_bind, wp_peer, wp_ite, wp_pure, wp_update, wp_saveState, wp_wgSet,
    wp_renew, implies_true, and_true]
  refine ⟨fun hh => ⟨fun hf _ s' _ hd => ?_, fun hf _ s' hs' _ => ?_⟩, fun hh s' hs' hd => ?_⟩
  · simp [probeDue, hh] at hd
  · obtain ⟨s, hs, _⟩ := Option.map_eq_some_iff.mp hs'
    rw [Slot.entry_renew] at hs
    obtain ⟨s, hs, _⟩ := Option.map_eq_some_iff.mp hs
    exact ⟨s, hs, by simpa [hh] using hf⟩
  · refine ⟨s', hs', ?_⟩
    simpa [probeDue, hh] using hd

theorem starts_followSignature : (followSignature o calls).wp (fun _ sl' => DueSoon o sl' →
    ∃ s, sl.entry = some s ∧ startsAfter o s sl.peer = true) (fun _ _ => True) sl := by
  simp only [followSignature, wp_bind, wp_entry]
  cases hs : sl.entry with
  | none =>
    rintro ⟨s, hs', _⟩
    simp [hs] at hs'
  | some s =>
    simp only [wp_ite, wp_bind, wp_pure, wp_update, wp_renew, wp_peer, wp_saveState,
      wp_removeIfPresent, wp_wgSet, implies_true, and_true]
    refine ⟨fun hsig => ⟨fun hk _ => ?_, fun hk => ?_⟩, fun hsig => ?_⟩
    · rintro ⟨s', _, hd⟩
      simp only [Slot.peer_update, Slot.peer_renew, Bool.and_eq_true] at hd hk
      simp [hk.1.1, hk.1.2] at hd
    · have hstarts : startsAfter o s sl.peer = true := by
        simp only [Slot.peer_update, Slot.peer_renew] at hk
        rw [startsAfter, if_pos hsig, Bool.not_eq_true', ← Bool.not_eq_true]
        exact hk
      exact ⟨fun _ _ => ⟨s, rfl, hstarts⟩, fun _ _ _ => ⟨s, rfl, hstarts⟩⟩
    · rintro ⟨s', hs', hd⟩
      obtain rfl := Option.some.inj (hs.symm.trans hs')
      refine ⟨s, rfl, ?_⟩
      simp only [startsAfter, hsig, if_false]
      by_cases hh : holdsRoute sl.peer o.peerIp = true
      · simpa [hh] using hd
      · simpa [hh] using hd

theorem starts_replaceEntry : (replaceEntry o calls).wp (fun _ sl' => ∀ s', sl'.entry = some s' →
    startsAfter o s' sl'.peer = true → offerStarts o sl.entry sl.peer = true) (fun _ _ => True) sl := by
  simp only [replaceEntry, wp_bind, wp_entry, offerStarts, replaced]
  cases hs : sl.entry with
  | none =>
    intro s' hs' hd
    obtain rfl := Option.some.inj hs'
    exact hd
  | some s =>
    have hremoved {sl' : Slot} (hp : sl'.peer = none) : (createEntry o).wp (fun _ sl'' => ∀ s',
        sl''.entry = some s' → startsAfter o s' sl''.peer = true →
          startsAfter o (newPeerState o) none = true) (fun _ _ => True) sl' := by
      intro s' hs' hd
      obtain rfl := Option.some.inj hs'
      rw [show (_ : Slot).peer = none from hp] at hd
      exact hd
    have hremove (sl' : Slot) : (removeIfPresent calls.remove).wp (fun _ sl'' => (createEntry o).wp
        (fun _ sl''' => ∀ s', sl'''.entry = some s' → startsAfter o s' sl'''.peer = true →
          startsAfter o (newPeerState o) none = true) (fun _ _ => True) sl'') (fun _ _ => True)
            sl' := by
      simp only [wp_removeIfPresent, wp_wgSet, implies_true, and_true]
      exact ⟨fun hp => hremoved hp, fun _ _ => hremoved rfl⟩
    simp only [wp_ite, wp_bind, wp_peer, wp_pure, retire, wp_renew, wp_update]
    refine ⟨fun hi => ?_, fun hi => ⟨fun hsid => ⟨fun hh => ?_, fun hh => ?_⟩, fun hsid => ?_⟩⟩
    · rw [if_pos hi]
      exact hremove _
    · intro s' hs' hd
      rw [if_neg hi, if_pos hsid, if_pos hh]
      rw [Slot.entry_update, Slot.entry_update, Slot.entry_renew, hs] at hs'
      obtain rfl := Option.some.inj hs'
      simpa [startsAfter] using hd
    · rw [if_neg hi, if_pos hsid, if_neg hh]
      exact hremove _
    · intro s' hs' hd
      rw [if_neg hi, if_neg hsid]
      obtain rfl := Option.some.inj (hs.symm.trans hs')
      exact hd

theorem starts_prepareOffer : (prepareOffer o calls).wp
    (fun launch _ => launch.isSome → offerStarts o sl.entry sl.peer = true) (fun _ _ => True) sl := by
  simp only [prepareOffer, wp_bind]
  refine wp_mono (starts_replaceEntry o calls sl) (fun _ sl₁ h₁ => ?_) fun _ _ h => h
  have hrefresh : (refreshEntry o).wp (fun _ sl₂ => ∀ s', sl₂.entry = some s' →
      startsAfter o s' sl₂.peer = true → offerStarts o sl.entry sl.peer = true) (fun _ _ => True)
        sl₁ := by
    intro s' hs' hd
    obtain ⟨s, hs, rfl⟩ := Option.map_eq_some_iff.mp hs'
    exact h₁ s hs hd
  refine wp_mono hrefresh (fun _ sl₂ h₂ => ?_) fun _ _ h => h
  refine wp_mono (starts_followSignature o calls sl₂) (fun _ sl₃ h₃ => ?_) fun _ _ h => h
  refine wp_mono (starts_followDirect o calls sl₃) (fun _ sl₄ h₄ => ?_) fun _ _ h => h
  refine wp_mono (starts_launchIfDue o sl₄) (fun launch _ h₅ hl => ?_) fun _ _ h => h
  obtain ⟨s₄, hs₄, hd₄⟩ := h₅ hl
  obtain ⟨s₂, hs₂, hd₂⟩ := h₃ (h₄ s₄ hs₄ hd₄)
  exact h₂ s₂ hs₂ hd₂

/-- An offer launches, or it turns the entry. A launch it has prepared is lost if the last
    `save_state` raises. -/
theorem turn_acceptOffer : (acceptOffer o calls).wp (TurnOrLaunched sl) (fun _ sl' => Turn sl sl' ∨
    (calls.finalSave = false ∧ offerStarts o sl.entry sl.peer = true) ∧ ∃ g, Launched sl g sl') sl := by
  rw [acceptOffer, wp_bind]
  refine wp_mono (wp_and (turn_prepareOffer o calls sl) (starts_prepareOffer o calls sl))
    (fun launch sl' ⟨hl, hstarts⟩ => ?_) fun _ _ h => .inl h.1
  simp only [wp_bind, wp_saveState, wp_pure]
  refine ⟨fun _ => hl, fun hf => ?_⟩
  cases launch with
  | none => exact .inl hl
  | some g => exact .inr ⟨⟨hf, hstarts rfl⟩, g, hl⟩

/-- The generation an offer's reply carries. -/
def OfferReply.generation : OfferReply → Option ℕ
  | .accepted launch => launch
  | .staleSession => none

/-- The offer is one that starts a probe. -/
def OfferMarks (o : Offer) (e : Option PeerState) (p : Option WgPeer) : Prop :=
  sessionCheck e o = .current ∧ offerStarts o e p = true

theorem turn_offerSection : (offerSection o calls).wp
    (fun reply => TurnOrLaunched sl reply.generation) (fun _ sl' => Turn sl sl' ∨
      (calls.finalSave = false ∧ OfferMarks o sl.entry sl.peer) ∧ ∃ g, Launched sl g sl') sl := by
  simp only [offerSection, wp_bind, wp_queryPeers, wp_entry]
  refine ⟨fun _ => ?_, fun _ _ => .inl (.refl sl)⟩
  cases hc : sessionCheck sl.entry o with
  | stale => exact Turn.refl sl
  | startChanged => exact .inl (.refl sl)
  | current =>
    simp only [wp_bind, wp_pure]
    refine wp_mono (turn_acceptOffer o calls sl) (fun _ _ h => h) fun _ _ h => ?_
    exact h.imp id fun ⟨⟨hf, hs⟩, hl⟩ => ⟨⟨hf, hc, hs⟩, hl⟩

end Offer

/-! ### The monitor -/

/-- Whether a pass of the monitor asks the device to remove the peer of an entry. -/
def monitorRemoves (now : Time) (s : PeerState) (p : Option WgPeer) : Bool :=
  if leaseOver s now then !directPeerHealthy p s.ip now && p.isSome
  else !(decide (s.mode = .confirm6) && s.workerRunning) && holdsRoute p s.ip && !freshHandshake p now

/-- Whether `monitorRoute` marks an entry for a probe. -/
def routeMarks (now : Time) (s : PeerState) (p : Option WgPeer) : Bool :=
  !(decide (s.mode = .confirm6) && s.workerRunning) && !s.candidates.isEmpty &&
    if holdsRoute p s.ip then !freshHandshake p now && !s.controlExpired
    else decide (s.retryAfter ≤ now) && !s.workerRunning

/-- Whether a pass of the monitor marks an entry for a probe. -/
def monitorMarks (now : Time) (s : PeerState) (p : Option WgPeer) : Bool :=
  !leaseOver s now && routeMarks now s p

section Monitor
variable {now : Time} {remove : Outcome} {changed : Bool} {sl : Slot}

/-- The entry asks for a launch at the end of the loop body. -/
def DueLaunch (now : Time) (sl : Slot) : Prop := ∃ s, sl.entry = some s ∧
  s.retryAfter ≤ now ∧ s.workerRunning = false ∧ s.candidates.isEmpty = false

theorem marks_monitorLaunch : (monitorLaunch now changed).wp
    (fun r _ => r.launch.isSome → r.changed = true ∧ DueLaunch now sl) (fun _ _ => False) sl := by
  simp only [monitorLaunch, wp_bind, wp_entry]
  cases hs : sl.entry with
  | none => simp
  | some s =>
    simp only [wp_ite, wp_bind, wp_pure]
    refine ⟨fun hd => ?_, fun _ => by simp⟩
    simp only [startProbe, wp_bind, wp_renew, wp_update, wp_entry, wp_pure]
    refine fun _ => ⟨trivial, s, hs, ?_⟩
    simpa [and_assoc] using hd

theorem marks_monitorProbe : (monitorProbe now changed).wp
    (fun r _ => r.launch.isSome → r.changed = true ∧ DueLaunch now sl) (fun _ _ => False) sl := by
  simp only [monitorProbe, wp_bind, wp_entry]
  cases hs : sl.entry with
  | none => simp
  | some s =>
    simp only [wp_ite, wp_bind, wp_pure, wp_update]
    refine ⟨fun _ => ⟨fun _ => by simp, fun _ => ?_⟩, fun _ => marks_monitorLaunch⟩
    refine wp_mono marks_monitorLaunch (fun r _ h hr => ?_) fun _ _ => False.elim
    obtain ⟨hc, s', hs', hd⟩ := h hr
    obtain ⟨s'', hs'', rfl⟩ := Option.map_eq_some_iff.mp hs'
    exact ⟨hc, s'', hs'', hd⟩

theorem marks_monitorRoute {s : PeerState} (hs : sl.entry = some s) :
    (monitorRoute now remove changed).wp
      (fun r _ => r.launch.isSome → r.changed = true ∧ routeMarks now s sl.peer = true)
      (fun _ _ => (decide (s.mode = .confirm6) && s.workerRunning) = false ∧
        holdsRoute sl.peer s.ip = true ∧ freshHandshake sl.peer now = false ∧ remove ≠ .done) sl := by
  simp only [monitorRoute, wp_bind, wp_entry, hs, wp_peer]
  rw [wp_ite, wp_ite, wp_ite]
  have hnone {p : Prop} (hn : (none : Option ℕ).isSome) : p := by cases hn
  refine ⟨fun _ => hnone, fun hc => ⟨fun hh => ⟨fun _ => hnone, fun hf => ?_⟩, fun hh => ?_⟩⟩
  · have hf' : freshHandshake sl.peer now = false := by simpa using hf
    have hc' : (decide (s.mode = .confirm6) && s.workerRunning) = false := by
      simpa [Decidable.not_and_iff_not_or_not, imp_iff_not_or] using hc
    simp only [wp_bind, wp_wgSet, wp_renew, wp_ite, wp_update, wp_deleteEntry, wp_pure]
    refine ⟨fun _ => ⟨fun _ => hnone, fun he => ?_⟩, fun hr => ⟨hc', hh, hf', by simp [hr]⟩,
      fun hr => ⟨hc', hh, hf', by simp [hr]⟩⟩
    refine wp_mono marks_monitorProbe (fun r _ h hr => ?_) fun _ _ => False.elim
    obtain ⟨hch, s', hs', _, _, hcand⟩ := h hr
    rw [Slot.entry_update, Slot.entry_renew, Slot.entry_execute, hs] at hs'
    obtain rfl := Option.some.inj hs'
    refine ⟨hch, ?_⟩
    have hcand : s.candidates.isEmpty = false := hcand
    simp [routeMarks, hc', hh, hf', hcand, he]
  · have hc' : (decide (s.mode = .confirm6) && s.workerRunning) = false := by
      simpa [Decidable.not_and_iff_not_or_not, imp_iff_not_or] using hc
    refine wp_mono marks_monitorProbe (fun r _ h hr => ?_) fun _ _ => False.elim
    obtain ⟨hch, s', hs', hretry, hrun, hcand⟩ := h hr
    obtain rfl := Option.some.inj (hs.symm.trans hs')
    exact ⟨hch, by simp [routeMarks, hh, hretry, hrun, hcand]⟩

/-- What the loop body does, read off the entry before it. -/
theorem marks_monitorPeer {s : PeerState} (hs : sl.entry = some s) : (monitorPeer now remove).wp
    (fun r _ => r.launch.isSome → r.changed = true ∧ monitorMarks now s sl.peer = true)
    (fun _ _ => monitorRemoves now s sl.peer = true ∧ remove ≠ .done) sl := by
  simp only [monitorPeer, wp_bind, wp_entry, hs, wp_ite, wp_peer, wp_update]
  refine ⟨fun hl => ⟨fun hh => ?_, fun hh => ?_⟩, fun hl => ?_⟩
  · have hs' : (sl.update (PeerState.expire sl.peer)).entry = some (s.expire sl.peer) := by
      rw [Slot.entry_update, hs, Option.map_some]
    have hroute : holdsRoute sl.peer s.ip = true := by
      simp only [directPeerHealthy, Bool.and_eq_true] at hh
      exact hh.1.2
    have hfresh : freshHandshake sl.peer now = true := by
      simp only [directPeerHealthy, Bool.and_eq_true] at hh
      exact hh.2
    refine wp_mono (marks_monitorRoute hs') (fun r _ h hr => ?_) fun _ _ h => ?_
    · have hm := (h hr).2
      simp [routeMarks, PeerState.expire, hroute, hfresh] at hm
    · exact absurd h.2.2.1 (by simp [hfresh])
  · simp only [wp_removeIfPresent, wp_wgSet, retire, wp_bind, wp_renew, wp_update, wp_deleteEntry,
      wp_pure]
    have hremoves (hp : sl.peer.isSome = true) : monitorRemoves now s sl.peer = true := by
      rw [monitorRemoves, if_pos hl, hp, Bool.and_true, Bool.not_eq_true', ← Bool.not_eq_true]
      exact hh
    exact ⟨fun _ => by simp, fun hp => ⟨fun _ => by simp, fun hr => ⟨hremoves hp, by simp [hr]⟩,
      fun hr => ⟨hremoves hp, by simp [hr]⟩⟩⟩
  · have hl' : leaseOver s now = false := by simpa using hl
    refine wp_mono (marks_monitorRoute hs) (fun r _ h hr => ?_) fun _ _ h => ?_
    · obtain ⟨hc, hm⟩ := h hr
      refine ⟨hc, ?_⟩
      simpa [monitorMarks, hl'] using hm
    · exact ⟨by simp [monitorRemoves, hl', h.1, h.2.1, h.2.2.1], h.2.2.2⟩

end Monitor

/-! ### Routes -/

/-- The section takes no route from another peer. -/
abbrev TakesNone {α : Type} (p : Section α) (sl : Slot) : Prop :=
  p.wp (fun _ sl' => sl'.taken = sl.taken) (fun _ sl' => sl'.taken = sl.taken) sl

theorem takesNone_offerSection (o : Offer) (calls : OfferCalls) (sl : Slot) :
    TakesNone (offerSection o calls) sl :=
  wp_mono (turn_offerSection o calls sl) (fun _ _ ht => ht.taken) fun _ _ ht =>
    ht.elim Turn.taken fun ⟨_, _, hl⟩ => hl.taken

theorem takesNone_removeSection (r : Removal) (now : Time) (calls : RemoveCalls) (sl : Slot) :
    TakesNone (removeSection r now calls) sl :=
  wp_mono (keeps_turn_removeSection r now calls sl (.refl sl)) (fun _ _ ht => ht.taken) fun _ _ ht =>
    ht.taken

theorem takesNone_monitorPeer (now : Time) (remove : Outcome) (sl : Slot) :
    TakesNone (monitorPeer now remove) sl :=
  wp_mono (turn_monitorPeer now remove sl) (fun _ _ ht => ht.taken) fun _ _ ht => ht.taken

theorem takesNone_cleanupPeer (active : Bool) (remove : Outcome) (sl : Slot) :
    TakesNone (cleanupPeer active remove) sl :=
  wp_mono (keeps_turn_cleanupPeer active remove sl (.refl sl)) (fun _ _ ht => ht.taken) fun _ _ ht =>
    ht.taken

end Agent
