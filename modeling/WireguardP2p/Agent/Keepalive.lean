import WireguardP2p.Agent.Passes
import WireguardP2p.Agent.LeaseRuns

/-! The keepalive of a Direct no worker is at. Workers set the probing keepalive first and the normal one
    when they have found or confirmed a path. An offer, an expired removal and a pass of the monitor
    declare a Direct too and leave the peer as it is, so the Direct has the keepalive the peer had. -/

namespace Agent
open Ipaddress Python Candidates Raising

/-- The entry is a Direct, and no worker is at it. -/
def Resting (e : Option PeerState) : Prop := ∃ s, e = some s ∧ s.mode = .direct ∧ s.workerRunning = false

/-- The device has the peer, and its keepalive was last set to KEEPALIVE. -/
def Normal (p : Option WgPeer) : Prop := ∃ q, p = some q ∧ q.keepalive = keepalive

/-- A settled Direct uses the normal keepalive. -/
def Regular (v : View) : Prop := Resting v.1 → Normal v.2

def Shared.Regular (sh : Shared) : Prop := ∀ k, Agent.Regular (sh.view k)

/-! ### When a section settles an entry in Direct -/

/-- An offer keeps the Direct it finds: the route is healthy, and the offer brings the signature of the
    entry it continues or a candidate at the endpoint of the peer. -/
def Offer.KeepsDirect (o : Offer) (v : View) : Prop :=
  directPeerHealthy v.2 o.peerIp o.now = true ∧ (∀ s, v.1 = some s → instanceChanged s o = false) ∧
    ((∃ s, v.1 = some s ∧ s.candidateSignature = candidateSignature o.candidates) ∨
      candidateEndpointExists o.candidates (peerEndpoint v.2) = true)

/-- `handle_offer` accepts the offer and keeps the Direct. -/
def Offer.Settles (o : Offer) (v : View) : Prop := sessionCheck v.1 o = .current ∧ o.KeepsDirect v

/-- `handle_remove` keeps the healthy Direct of an expired session. -/
def Removal.Settles (r : Removal) (now : Time) (v : View) : Prop :=
  ∃ s, v.1 = some s ∧ s.sessionId = r.sessionId ∧ s.ip = r.peerIp ∧ r.reason = .expired ∧
    directPeerHealthy v.2 r.peerIp now = true

/-- `monitor_once` keeps the healthy Direct whose lease is over, or finds the route fresh while no worker
    is at the entry. -/
def MonitorSettles (now : Time) (v : View) : Prop :=
  ∃ s, v.1 = some s ∧ if leaseOver s now = true then directPeerHealthy v.2 s.ip now = true
    else s.workerRunning = false ∧ holdsRoute v.2 s.ip = true ∧ freshHandshake v.2 now = true

/-- The section settles the entry if `P`; an entry it leaves settled was so before or was settled by it,
    with the peer it had. -/
structure Settling (P : Prop) (v v' : View) : Prop where
  rests : P → Resting v'.1
  only : Resting v'.1 → v'.2 = v.2 ∧ (P ∨ Resting v.1)

section Settling
variable {P : Prop} {v v' : View}

theorem Settling.refl (h : ¬ P) : Settling P v v := ⟨fun hp => absurd hp h, fun hr => ⟨rfl, Or.inr hr⟩⟩

/-- The section settles the entry. -/
theorem Settling.direct (hp : v'.2 = v.2) (hr : Resting v'.1) (h : P) : Settling P v v' :=
  ⟨fun _ => hr, fun _ => ⟨hp, Or.inl h⟩⟩

/-- The section leaves the entry gone, or with a worker, or not Direct. -/
theorem Settling.restless (h : ¬ P) (hr : ¬ Resting v'.1) : Settling P v v' :=
  ⟨fun hp => absurd hp h, fun h => absurd h hr⟩

/-- The settled Direct is regular exactly if the peer the section found was. -/
theorem Settling.regular_iff (h : Settling P v v') (hv : Regular v) : Regular v' ↔ (P → Normal v.2) := by
  constructor
  · intro hv' hP
    have hrest := h.rests hP
    exact (h.only hrest).1 ▸ hv' hrest
  · intro hn hrest
    obtain ⟨hpeer, hP | hbefore⟩ := h.only hrest
    · exact hpeer ▸ hn hP
    · exact hpeer ▸ hv hbefore

end Settling

theorem not_resting_none : ¬ Resting none := by
  rintro ⟨s, hs, -⟩
  cases hs

theorem not_resting_of_mode {s : PeerState} (h : s.mode ≠ .direct) : ¬ Resting (some s) := by
  rintro ⟨t, ht, hm, -⟩
  exact h (Option.some.inj ht ▸ hm)

theorem not_resting_of_running {s : PeerState} (h : s.workerRunning = true) : ¬ Resting (some s) := by
  rintro ⟨t, ht, -, hr⟩
  rw [← Option.some.inj ht, h] at hr
  cases hr

theorem resting_some {s : PeerState} : Resting (some s) ↔ s.mode = .direct ∧ s.workerRunning = false := by
  constructor
  · rintro ⟨t, ht, h⟩
    exact Option.some.inj ht ▸ h
  · exact fun h => ⟨s, rfl, h⟩

theorem resting_update {sl : Slot} {s : PeerState} {f : PeerState → PeerState} (hs : sl.entry = some s) :
    Resting (sl.update f).entry ↔ (f s).mode = .direct ∧ (f s).workerRunning = false := by
  rw [Slot.entry_update, hs]
  exact resting_some

/-! ### Offers -/

section Offer
variable (o : Offer) (calls : OfferCalls)

/-- An offer keeps the Direct of the entry `s`, which it has refreshed, and of the peer `p`. -/
def Offer.Continues (s : PeerState) (p : Option WgPeer) : Prop :=
  holdsRoute p o.peerIp = true ∧ freshHandshake p o.now = true ∧
    (s.candidateSignature = candidateSignature o.candidates ∨
      candidateEndpointExists o.candidates (peerEndpoint p) = true)

/-- The launch takes the entry out of Direct, and there is none on a route. -/
theorem rests_launchIfDue (sl : Slot) : (launchIfDue o).wp
    (fun _ sl' => sl'.peer = sl.peer ∧ (Resting sl'.entry → Resting sl.entry ∧ sl' = sl) ∧
      (holdsRoute sl.peer o.peerIp = true → sl' = sl)) (fun _ _ => False) sl := by
  rw [launchIfDue, wp_bind, wp_peer, wp_bind, wp_entry]
  cases hs : sl.entry with
  | none => exact ⟨rfl, fun h => absurd h (hs ▸ not_resting_none), fun _ => rfl⟩
  | some s =>
    simp only [wp_ite, wp_bind, startProbe, wp_renew, wp_update, wp_entry, wp_pure]
    refine ⟨fun hdue => ⟨Slot.peer_renew sl, fun h => ?_, fun hroute => ?_⟩,
      fun _ => ⟨trivial, fun h => ⟨hs ▸ h, trivial⟩, fun _ => trivial⟩⟩
    · rw [Slot.entry_update, Slot.entry_renew, hs] at h
      exact absurd h (not_resting_of_running rfl)
    · simp [probeDue, hroute] at hdue

/-- What the blocks after the control fields make of the entry `s` and the peer `p`: a Direct that
    continues, or none unless there was one without a route. -/
structure Followed (continues : Prop) (s : PeerState) (p : Option WgPeer) (v : View) : Prop where
  rests : continues → Resting v.1 ∧ v.2 = p
  only : ¬ continues → Resting v.1 → Resting (some s) ∧ holdsRoute p o.peerIp = false ∧ v.2 = p

/-- The `if direct` block and the launch. -/
theorem followed_followDirect {s : PeerState} {sl : Slot} (hr : calls.remove = .done) (hs : sl.entry = some s) :
    (do followDirect o calls; launchIfDue o).wp
      (fun _ sl' => Followed o (holdsRoute sl.peer o.peerIp = true ∧ freshHandshake sl.peer o.now = true)
        s sl.peer sl'.view)
      (fun _ sl' => Followed o (holdsRoute sl.peer o.peerIp = true ∧ freshHandshake sl.peer o.now = true)
        s sl.peer sl'.view) sl := by
  simp only [followDirect, wp_bind, wp_peer, wp_ite, wp_pure, wp_update, wp_saveState, hr, wp_wgSet_done,
    wp_renew]
  refine ⟨fun hroute => ⟨fun hfresh => ?_, fun hstale => ?_⟩, fun hroute => ?_⟩
  · refine ⟨fun _ => ?_, fun _ => ⟨fun _ => ⟨(resting_update hs).mpr ⟨rfl, rfl⟩, rfl⟩,
      fun hn => absurd ⟨hroute, hfresh⟩ hn⟩⟩
    refine wp_mono (rests_launchIfDue o _) (fun _ sl' h => ?_) fun _ _ h => h.elim
    obtain rfl := h.2.2 hroute
    exact ⟨fun _ => ⟨(resting_update hs).mpr ⟨rfl, rfl⟩, rfl⟩, fun hn => absurd ⟨hroute, hfresh⟩ hn⟩
  · refine wp_mono (rests_launchIfDue o _) (fun _ sl' h => ?_) fun _ _ h => h.elim
    refine ⟨fun hc => absurd hc.2 hstale, fun _ hrest => ?_⟩
    have hbefore := (h.2.1 hrest).1
    rw [Slot.entry_update, Slot.entry_renew, Slot.entry_execute, hs] at hbefore
    exact absurd hbefore (not_resting_of_mode fun h => by cases h)
  · refine wp_mono (rests_launchIfDue o sl) (fun _ sl' h => ?_) fun _ _ h => h.elim
    refine ⟨fun hc => absurd hc.1 hroute, fun _ hrest => ⟨hs ▸ (h.2.1 hrest).1, by simpa using hroute, h.1⟩⟩

/-- The peer keeps the Direct under a new signature. -/
def Offer.Matches (p : Option WgPeer) : Prop :=
  holdsRoute p o.peerIp = true ∧ freshHandshake p o.now = true ∧
    candidateEndpointExists o.candidates (peerEndpoint p) = true

/-- What the signature block leaves: nothing changed under the signature of the entry; under a new one a
    Direct that matches it, or an idle entry without a peer. -/
theorem spec_followSignature {s : PeerState} {sl : Slot} (hr : calls.remove = .done)
    (hs : sl.entry = some s) : (followSignature o calls).wp
      (fun _ t => s.candidateSignature = candidateSignature o.candidates ∧ t = sl ∨
        s.candidateSignature ≠ candidateSignature o.candidates ∧
          ((o.Matches sl.peer ∧ Resting t.entry ∧ t.peer = sl.peer) ∨
            ¬ o.Matches sl.peer ∧ (∃ s', t.entry = some s' ∧ s'.mode = .idle) ∧ t.peer = none))
      (fun _ t => o.Matches sl.peer ∧ Resting t.entry ∧ t.peer = sl.peer) sl := by
  rw [followSignature, wp_bind, wp_entry, hs]
  simp only [wp_bind, wp_ite, wp_pure, wp_update, wp_renew, wp_peer, wp_saveState, hr, wp_removeIfPresent,
    wp_wgSet_done]
  have hentry : ∀ f g : PeerState → PeerState, ∃ s', ((sl.update f).renew.update g).entry = some (g s') :=
    fun f g => by
      rw [Slot.entry_update, Slot.entry_renew, Slot.entry_update, hs]
      exact ⟨_, rfl⟩
  have hpeer : ∀ f g : PeerState → PeerState, ((sl.update f).renew.update g).peer = sl.peer := fun f g =>
    Slot.peer_renew _
  have hkept : ∀ (f g : PeerState → PeerState) (p : Option WgPeer), (∀ s, (g s).workerRunning = false) →
      Resting (((sl.update f).renew.update g).update (keepDirect o p)).entry := fun f g p hg => by
    obtain ⟨s', hs'⟩ := hentry f g
    rw [Slot.entry_update, hs']
    exact resting_some.mpr ⟨rfl, hg s'⟩
  have hidle : ∀ (f g h : PeerState → PeerState) (t : Slot), t.entry = ((sl.update f).renew.update g).entry →
      (∀ s, (h s).mode = .idle) → ∃ s', (t.update h).entry = some s' ∧ s'.mode = .idle := fun f g h t ht hh => by
    obtain ⟨s', hs'⟩ := hentry f g
    rw [Slot.entry_update, ht, hs']
    exact ⟨_, rfl, hh _⟩
  simp only [hpeer]
  refine ⟨fun hsig => ⟨fun hmatch => ?_, fun hmatch => ?_⟩, fun hsig => Or.inl ⟨not_not.mp hsig, trivial⟩⟩
  all_goals rw [Bool.and_eq_true, Bool.and_eq_true, and_assoc] at hmatch
  · rw [Slot.peer_update, hpeer]
    exact ⟨fun _ => Or.inr ⟨hsig, Or.inl ⟨hmatch, hkept _ _ _ fun _ => rfl, rfl⟩⟩,
      fun _ => ⟨hmatch, hkept _ _ _ fun _ => rfl, rfl⟩⟩
  · refine ⟨fun hp => Or.inr ⟨hsig, Or.inr ⟨hmatch, hidle _ _ _ _ rfl fun _ => rfl, ?_⟩⟩,
      fun _ => Or.inr ⟨hsig, Or.inr ⟨hmatch, hidle _ _ _ _ rfl fun _ => rfl, rfl⟩⟩⟩
    rw [Slot.peer_update, hpeer]
    exact hp

/-- The signature block before them. -/
theorem followed_followSignature {s : PeerState} {sl : Slot} (hr : calls.remove = .done)
    (hs : sl.entry = some s) :
    (do followSignature o calls; followDirect o calls; launchIfDue o).wp
      (fun _ sl' => Followed o (o.Continues s sl.peer) s sl.peer sl'.view)
      (fun _ sl' => Followed o (o.Continues s sl.peer) s sl.peer sl'.view) sl := by
  rw [wp_bind]
  refine wp_mono (spec_followSignature o calls hr hs) (fun _ t h => ?_) fun _ t h => ?_
  · rcases h with ⟨hsig, rfl⟩ | ⟨hsig, ⟨hmatch, hrest, hpeer⟩ | ⟨hmatch, ⟨s', hs', hidle⟩, hpeer⟩⟩
    · refine wp_mono (followed_followDirect o calls hr hs) (fun _ t' h' => ?_) fun _ t' h' => ?_
      all_goals
        refine ⟨fun hc => h'.rests ⟨hc.1, hc.2.1⟩, fun hn => h'.only fun hd => ?_⟩
        exact hn ⟨hd.1, hd.2, Or.inl hsig⟩
    · obtain ⟨s', hs', -⟩ := id hrest
      have hc : o.Continues s sl.peer := ⟨hmatch.1, hmatch.2.1, Or.inr hmatch.2.2⟩
      have hdirect : holdsRoute t.peer o.peerIp = true ∧ freshHandshake t.peer o.now = true :=
        hpeer ▸ ⟨hmatch.1, hmatch.2.1⟩
      refine wp_mono (followed_followDirect o calls hr hs') (fun _ t' h' => ?_) fun _ t' h' => ?_
      all_goals exact ⟨fun _ => ⟨(h'.rests hdirect).1, (h'.rests hdirect).2.trans hpeer⟩, fun hn => absurd hc hn⟩
    · have hno : ¬ o.Continues s sl.peer := by
        rintro ⟨hroute, hfresh, hsame | hexists⟩
        · exact hsig hsame
        · exact hmatch ⟨hroute, hfresh, hexists⟩
      refine wp_mono (followed_followDirect o calls hr hs') (fun _ t' h' => ?_) fun _ t' h' => ?_
      all_goals
        refine ⟨fun hc => absurd hc hno, fun _ hrest => absurd (h'.only ?_ hrest).1 (not_resting_of_mode ?_)⟩
        · rw [hpeer]
          exact fun h => by cases h.1
        · rw [hidle]
          exact fun h => by cases h
  · obtain ⟨hmatch, hrest, hpeer⟩ := h
    exact ⟨fun _ => ⟨hrest, hpeer⟩, fun hn => absurd ⟨hmatch.1, hmatch.2.1, Or.inr hmatch.2.2⟩ hn⟩

/-- What the replacement leaves for the blocks that follow. -/
structure Followable (v : View) (s : PeerState) (p : Option WgPeer) : Prop where
  continues : o.Continues s p ↔ o.KeepsDirect v
  peer : o.Continues s p → p = v.2
  resting : Resting (some s) → holdsRoute p o.peerIp = false → Resting v.1 ∧ p = v.2

theorem healthy_iff {p : Option WgPeer} : directPeerHealthy p o.peerIp o.now = true ↔
    holdsRoute p o.peerIp = true ∧ freshHandshake p o.now = true := by
  simp [directPeerHealthy, o.peerIp_ne]

/-- A new entry, once the peer is gone. -/
theorem followable_anew {v : View} (h : ¬ o.KeepsDirect v) {g : ℕ} :
    Followable o v { newPeerState o with generation := g } none := by
  refine ⟨⟨fun hc => ?_, fun hk => absurd hk h⟩, fun hc => ?_, fun hrest _ => ?_⟩
  · cases hc.1
  · cases hc.1
  · exact absurd hrest (not_resting_of_mode fun h => by cases h)

theorem followable_replaceEntry (sl : Slot) (hr : calls.remove = .done) : (replaceEntry o calls).wp
    (fun _ t => ∃ s, t.entry = some s ∧ Followable o sl.view s t.peer) (fun _ _ => False) sl := by
  have hanew : ∀ t : Slot, ¬ o.KeepsDirect sl.view →
      (do removeIfPresent calls.remove; createEntry o).wp
        (fun _ t => ∃ s, t.entry = some s ∧ Followable o sl.view s t.peer) (fun _ _ => False) t := by
    intro t h
    simp only [wp_bind, wp_removeIfPresent, hr, wp_wgSet_done]
    refine ⟨fun hp => ⟨_, rfl, ?_⟩, fun _ => ⟨_, rfl, followable_anew o h⟩⟩
    show Followable o sl.view _ t.peer
    rw [hp]
    exact followable_anew o h
  rw [replaceEntry, wp_bind, wp_entry]
  cases hs : sl.entry with
  | none =>
    refine ⟨_, rfl, ⟨⟨fun hc => ?_, fun hk => ?_⟩, fun _ => rfl, fun hrest _ => ?_⟩⟩
    · refine ⟨(healthy_iff o).mpr ⟨hc.1, hc.2.1⟩, fun s h => ?_, Or.inr ?_⟩
      · cases hs.symm.trans h
      · exact hc.2.2.resolve_left (candidateSignature_ne_nil o.candidates_ne).symm
    · obtain ⟨hh, -, hsame | hexists⟩ := hk
      · obtain ⟨s, h, -⟩ := hsame
        cases hs.symm.trans h
      · exact ⟨((healthy_iff o).mp hh).1, ((healthy_iff o).mp hh).2, Or.inr hexists⟩
    · exact absurd hrest (not_resting_of_mode fun h => by cases h)
  | some s =>
    rw [wp_ite]
    refine ⟨fun hi => ?_, fun hi => ?_⟩
    · rw [wp_bind, retire, wp_bind, wp_renew, wp_update]
      refine hanew _ fun hk => ?_
      rw [hk.2.1 s hs] at hi
      cases hi
    · have hi : instanceChanged s o = false := by simpa using hi
      have hkeeps : o.Continues s sl.peer ↔ o.KeepsDirect sl.view := by
        constructor
        · rintro ⟨hroute, hfresh, hsame⟩
          refine ⟨(healthy_iff o).mpr ⟨hroute, hfresh⟩, fun t ht => ?_, hsame.imp_left fun h => ⟨s, hs, h⟩⟩
          exact Option.some.inj (hs.symm.trans ht) ▸ hi
        · rintro ⟨hh, -, hsame⟩
          obtain ⟨hroute, hfresh⟩ := (healthy_iff o).mp hh
          refine ⟨hroute, hfresh, hsame.imp_left ?_⟩
          rintro ⟨t, ht, h⟩
          exact Option.some.inj (hs.symm.trans ht) ▸ h
      rw [wp_ite]
      refine ⟨fun hsid => ?_, fun _ => ?_⟩
      · simp only [wp_bind, wp_peer, retire, wp_renew, wp_update, wp_ite]
        refine ⟨fun hh => ?_, fun hh => ?_⟩
        · -- a new session that keeps the healthy Direct
          obtain ⟨hroute, -⟩ := (healthy_iff o).mp hh
          have hentry : ∀ f g : PeerState → PeerState,
              (∀ s, (g (f s)).candidateSignature = s.candidateSignature) →
              ∃ s', ((sl.renew.update f).update g).entry = some s' ∧
                s'.candidateSignature = s.candidateSignature := fun f g h => by
            rw [Slot.entry_update, Slot.entry_update, Slot.entry_renew, hs]
            exact ⟨_, rfl, h _⟩
          simp only [Slot.peer_update, Slot.peer_renew]
          obtain ⟨s', hs', hsig⟩ := hentry (fun s => { s with workerRunning := false })
            (fun s => { s with mode := .direct, endpoint := peerEndpoint sl.peer, failures := 0,
                               retryAfter := 0 }) fun _ => rfl
          refine ⟨s', hs', ?_, fun _ => rfl, fun _ hno => ?_⟩
          · rw [Offer.Continues, hsig]
            exact hkeeps
          · rw [hroute] at hno
            cases hno
        · have h := hanew ((sl.renew).update fun s => { s with workerRunning := false }) fun hk => hh hk.1
          rw [wp_bind] at h
          exact h
      · rw [wp_pure]
        refine ⟨s, hs, hkeeps, fun _ => rfl, fun hrest _ => ⟨?_, rfl⟩⟩
        show Resting sl.entry
        exact hs ▸ hrest

/-- What an offer settles. -/
theorem settling_offerSection (sl : Slot) (hq : calls.query = none) (hr : calls.remove = .done) :
    (offerSection o calls).wp (fun _ sl' => Settling (o.Settles sl.view) sl.view sl'.view)
      (fun _ sl' => Settling (o.Settles sl.view) sl.view sl'.view) sl := by
  have hno : sessionCheck sl.entry o ≠ .current → Settling (o.Settles sl.view) sl.view sl.view := fun h =>
    .refl fun hset => h hset.1
  rw [offerSection, wp_bind, hq, wp_queryPeers_none, wp_bind, wp_entry]
  cases hc : sessionCheck sl.entry o with
  | stale => exact hno (hc ▸ fun h => by cases h)
  | startChanged => exact hno (hc ▸ fun h => by cases h)
  | current =>
    simp only [acceptOffer, prepareOffer, wp_bind, wp_pure, wp_saveState]
    refine wp_mono (followable_replaceEntry o calls sl hr) (fun _ t ht => ?_) fun _ _ h => h.elim
    obtain ⟨s, hs, hfollow⟩ := ht
    rw [refreshEntry, wp_update]
    have hrefresh : (t.update (PeerState.refresh o)).entry = some (s.refresh o) := by
      rw [Slot.entry_update, hs, Option.map_some]
    have hend : ∀ v', Followed o (o.Continues (s.refresh o) t.peer) (s.refresh o) t.peer v' →
        Settling (o.Settles sl.view) sl.view v' := by
      intro v' h
      by_cases hcont : o.Continues s t.peer
      · obtain ⟨hrest, hpeer⟩ := h.rests hcont
        exact .direct (hpeer.trans (hfollow.peer hcont)) hrest ⟨hc, hfollow.continues.mp hcont⟩
      · refine ⟨fun hset => absurd (hfollow.continues.mpr hset.2) hcont, fun hrest => ?_⟩
        obtain ⟨hbefore, hroute, hpeer⟩ := h.only hcont hrest
        have hsame : Resting (some s) := resting_some.mpr ((@resting_some (s.refresh o)).mp hbefore)
        obtain ⟨hv, hp⟩ := hfollow.resting hsame hroute
        exact ⟨hpeer.trans hp, Or.inr hv⟩
    have hblocks := followed_followSignature o calls hr hrefresh
    simp only [wp_bind] at hblocks
    refine wp_mono hblocks (fun _ t₂ h₂ => ?_) fun _ t₂ h₂ => hend _ h₂
    refine wp_mono h₂ (fun _ t₃ h₃ => ?_) fun _ t₃ h₃ => hend _ h₃
    exact wp_mono h₃ (fun _ t₄ h₄ => ⟨fun _ => hend _ h₄, fun _ => hend _ h₄⟩) fun _ t₄ h₄ => hend _ h₄

end Offer

/-! ### Removals, the monitor and the initiator -/

section Sections
variable {sl : Slot} {now : Time}

theorem settling_removeSection (r : Removal) {calls : RemoveCalls} (hq : calls.query = none)
    (hr : calls.remove = .done) : (removeSection r now calls).wp
      (fun _ sl' => Settling (r.Settles now sl.view) sl.view sl'.view)
      (fun _ sl' => Settling (r.Settles now sl.view) sl.view sl'.view) sl := by
  rw [removeSection, wp_bind, wp_entry]
  cases hs : sl.entry with
  | none =>
    refine .refl ?_
    rintro ⟨s, h, -⟩
    cases hs.symm.trans h
  | some s =>
    simp only [wp_ite, wp_bind, wp_pure, hq, wp_queryPeers_none, wp_peer, wp_update, wp_saveState,
      wp_removeIfPresent, hr, wp_wgSet_done, retire, wp_renew, wp_deleteEntry]
    have hgone : ¬ r.Settles now sl.view → ∀ t : Slot,
        Settling (r.Settles now sl.view) sl.view (Slot.view { t with entry := none }) := fun h t =>
      .restless h not_resting_none
    refine ⟨fun hother => .refl ?_, fun hsame => ⟨fun hh => ?_, fun hh => ?_⟩⟩
    · rintro ⟨t, ht, hsid, hip, -⟩
      obtain rfl := Option.some.inj (hs.symm.trans ht)
      exact hother.elim (fun h => h hsid) fun h => h hip
    · rw [not_or, not_not, not_not] at hsame
      rw [Bool.and_eq_true, decide_eq_true_iff] at hh
      have hset : r.Settles now sl.view := ⟨s, hs, hsame.1, hsame.2, hh.1, hh.2⟩
      exact ⟨fun _ => .direct rfl ((resting_update hs).mpr ⟨rfl, rfl⟩) hset,
        fun _ => .direct rfl ((resting_update hs).mpr ⟨rfl, rfl⟩) hset⟩
    · have hset : ¬ r.Settles now sl.view := by
        rintro ⟨t, ht, -, -, hreason, hhealthy⟩
        exact hh (by rw [Bool.and_eq_true, decide_eq_true_iff]; exact ⟨hreason, hhealthy⟩)
      exact ⟨fun _ => ⟨fun _ => hgone hset _, fun _ => hgone hset _⟩,
        fun _ => ⟨fun _ => hgone hset _, fun _ => hgone hset _⟩⟩

/-- The end of the loop body leaves the peer; an entry it leaves settled is the one it found. -/
theorem rests_monitorLaunch (changed : Bool) : (monitorLaunch now changed).wp
    (fun _ sl' => sl'.peer = sl.peer ∧ (Resting sl'.entry → Resting sl.entry)) (fun _ _ => False) sl := by
  rw [monitorLaunch, wp_bind, wp_entry]
  cases hs : sl.entry with
  | none => exact ⟨rfl, fun h => hs ▸ h⟩
  | some s =>
    simp only [wp_ite, wp_bind, startProbe, wp_renew, wp_update, wp_entry, wp_pure]
    refine ⟨fun _ => ⟨Slot.peer_renew sl, fun h => ?_⟩, fun _ => ⟨trivial, fun h => hs ▸ h⟩⟩
    rw [Slot.entry_update, Slot.entry_renew, hs] at h
    exact absurd h (not_resting_of_running rfl)

theorem rests_monitorProbe (changed : Bool) : (monitorProbe now changed).wp
    (fun _ sl' => sl'.peer = sl.peer ∧ (Resting sl'.entry → Resting sl.entry)) (fun _ _ => False) sl := by
  rw [monitorProbe, wp_bind, wp_entry]
  cases hs : sl.entry with
  | none => exact ⟨rfl, fun h => hs ▸ h⟩
  | some s =>
    simp only [wp_ite, wp_bind, wp_update, wp_pure]
    refine ⟨fun _ => ⟨fun _ => ⟨trivial, fun h => hs ▸ h⟩, fun _ => ?_⟩, fun _ => hs ▸ rests_monitorLaunch changed⟩
    refine wp_mono (rests_monitorLaunch true) (fun _ t h => ⟨h.1, fun hrest => ?_⟩) fun _ _ h => h
    have hbefore := h.2 hrest
    rw [Slot.entry_update, hs] at hbefore
    exact absurd hbefore (not_resting_of_mode fun h => by cases h)

/-- The loop body after the lease. -/
theorem settling_monitorRoute {s : PeerState} (changed : Bool) (hs : sl.entry = some s) :
    (monitorRoute now .done changed).wp
      (fun _ sl' => Settling (s.workerRunning = false ∧ holdsRoute sl.peer s.ip = true ∧
        freshHandshake sl.peer now = true) sl.view sl'.view) (fun _ _ => False) sl := by
  rw [monitorRoute, wp_bind, wp_entry, hs]
  simp only [wp_bind, wp_peer, wp_ite, wp_pure, wp_update, wp_wgSet_done, wp_renew, wp_deleteEntry]
  refine ⟨fun hc => .refl fun h => ?_, fun _ => ⟨fun hroute => ⟨fun hfresh => ?_, fun hstale => ?_⟩,
    fun hroute => ?_⟩⟩
  · rw [h.1] at hc
    cases hc.2
  · refine ⟨fun h => (resting_update hs).mpr ⟨rfl, h.1⟩, fun hrest => ⟨rfl, Or.inl ⟨?_, hroute, hfresh⟩⟩⟩
    exact ((resting_update hs).mp hrest).2
  · have hno : ¬ (s.workerRunning = false ∧ holdsRoute sl.peer s.ip = true ∧
        freshHandshake sl.peer now = true) := fun h => hstale h.2.2
    refine ⟨fun _ => .restless hno not_resting_none, fun _ => ?_⟩
    refine wp_mono (rests_monitorProbe true) (fun _ t h => .restless hno fun hrest => ?_) fun _ _ h => h
    have hbefore := h.2 hrest
    rw [Slot.entry_update, Slot.entry_renew, Slot.entry_execute, hs] at hbefore
    exact not_resting_of_mode (fun h => by cases h) hbefore
  · refine wp_mono (rests_monitorProbe changed) (fun _ t h => ?_) fun _ _ h => h
    exact ⟨fun hset => absurd hset.2.1 hroute, fun hrest => ⟨h.1, Or.inr (h.2 hrest)⟩⟩

theorem settling_monitorPeer : (monitorPeer now .done).wp
    (fun _ sl' => Settling (MonitorSettles now sl.view) sl.view sl'.view) (fun _ _ => False) sl := by
  rw [monitorPeer, wp_bind, wp_entry]
  cases hs : sl.entry with
  | none =>
    refine .refl ?_
    rintro ⟨s, h, -⟩
    cases hs.symm.trans h
  | some s =>
    have hiff : MonitorSettles now sl.view ↔ if leaseOver s now = true then directPeerHealthy sl.peer s.ip now = true
        else s.workerRunning = false ∧ holdsRoute sl.peer s.ip = true ∧ freshHandshake sl.peer now = true := by
      constructor
      · rintro ⟨t, ht, h⟩
        exact Option.some.inj (hs.symm.trans ht) ▸ h
      · exact fun h => ⟨s, hs, h⟩
    simp only [wp_ite, wp_bind, wp_peer, wp_update, wp_pure, wp_removeIfPresent, wp_wgSet_done, retire,
      wp_renew, wp_deleteEntry, hiff]
    refine ⟨fun hover => ?_, fun hover => ?_⟩
    · rw [if_pos hover]
      refine ⟨fun hh => ?_, fun hh => ?_⟩
      · have he : (sl.update (PeerState.expire sl.peer)).entry = some (s.expire sl.peer) := by
          rw [Slot.entry_update, hs, Option.map_some]
        rw [directPeerHealthy, Bool.and_eq_true, Bool.and_eq_true] at hh
        refine wp_mono (settling_monitorRoute true he) (fun _ t h => ?_) fun _ _ h => h
        have hrest := h.rests ⟨rfl, hh.1.2, hh.2⟩
        refine ⟨fun _ => hrest, fun _ => ⟨(h.only hrest).1, Or.inl ?_⟩⟩
        rw [directPeerHealthy, Bool.and_eq_true, Bool.and_eq_true]
        exact hh
      · exact ⟨fun _ => .restless hh not_resting_none, fun _ => .restless hh not_resting_none⟩
    · rw [if_neg hover]
      exact settling_monitorRoute false hs

/-- `cleanup_initiator_states` leaves an entry alone or deletes it. -/
theorem settling_cleanupPeer (active : Bool) (remove : Outcome) : (cleanupPeer active remove).wp
    (fun _ sl' => Settling False sl.view sl'.view) (fun _ sl' => Settling False sl.view sl'.view) sl := by
  rw [cleanupPeer, wp_bind, wp_entry]
  cases hs : sl.entry with
  | none => exact .refl id
  | some s =>
    simp only [wp_ite, wp_bind, wp_pure, wp_handle, wp_removeIfPresent, wp_wgSet, retire, wp_renew, wp_update,
      wp_deleteEntry]
    have hgone : ∀ t : Slot, Settling False sl.view (Slot.view { t with entry := none }) := fun t =>
      .restless id not_resting_none
    exact ⟨fun _ => .refl id, fun _ => ⟨fun _ => hgone _, fun _ => ⟨fun _ => hgone _, fun _ => hgone _,
      fun _ => hgone _⟩⟩⟩

end Sections

/-! ### Workers -/

section Workers
variable {g : ℕ} {calls : WorkerCalls}

/-- The program leaves a regular key. -/
abbrev KeepsRegular {α : Type} (p : Section α) : Prop := Keeps (fun sl => Regular sl.view) p

/-- Whatever the device did before, the update leaves an entry that is not Direct. -/
theorem regular_update {f : PeerState → PeerState} (hf : ∀ s, (f s).mode ≠ .direct) (sl : Slot) :
    Regular (sl.update f).view := by
  intro hrest
  obtain ⟨s, hs, hm, -⟩ : Resting (sl.update f).entry := hrest
  obtain ⟨s₀, -, rfl⟩ := Option.map_eq_some_iff.mp hs
  exact absurd hm (hf s₀)

theorem regular_giveUp (sl : Slot) : (giveUp calls).wp (fun _ sl' => Regular sl'.view)
    (fun _ sl' => Regular sl'.view) sl := by
  have hidle : ∀ t : Slot, Regular (t.update (PeerState.backOff calls.now)).view := fun t =>
    regular_update (fun _ h => by cases h) t
  simp only [wp_giveUp, wp_tryWgSet]
  exact ⟨fun _ => ⟨fun _ => hidle _, fun _ => hidle _⟩, fun _ => ⟨fun _ => hidle _, fun _ => hidle _⟩⟩

/-- A route set up with the normal keepalive. -/
theorem regular_route (ip e : Text) (f : PeerState → PeerState) (sl : Slot) :
    Regular ((sl.execute (.route ip e keepalive)).update f).view := fun _ => ⟨_, rfl, rfl⟩

theorem regular_probeStep (hset : calls.set = .done) : ∀ pc : ProbePc, KeepsRegular (probeStep g calls pc)
  | .start => keeps_match (.pure _) fun _ => .ite (fun _ => .pure _) fun _ =>
      .ite (fun _ => .pure _) fun _ => .pure _
  | .cancel => keeps_match (.pure _) fun _ => .ite (fun _ => .bind
      (fun sl _ => regular_update (fun _ h => by cases h) sl) fun _ => .bind (keeps_saveState _) fun _ => .pure _)
        fun _ => .pure _
  | .check _ [] => .pure _
  | .check _ (_ :: _) => .bind keeps_entry fun _ => .ite (fun _ => .pure _) fun _ => .pure _
  | .baseline .. => .bind (keeps_queryPeers _) fun _ => .bind keeps_peer fun _ => .pure _
  | .configure _ c _ baseline => by
    refine .bind keeps_entry fun _ => .ite (fun _ => .pure _) fun _ => ?_
    rw [if_pos hset]
    intro sl _
    rw [wp_bind, wp_wgSet_done]
    have hupdate := @regular_update (PeerState.configure c baseline calls.now) (fun _ h => by cases h)
      (sl.execute (.endpoint c.endpoint probeKeepalive))
    exact Keeps.bind (I := fun sl => Regular sl.view) (keeps_saveState _) (fun _ => .pure _) _ hupdate
  | .wait .. => .ite (fun _ => .pure _) fun _ => .ite (fun _ => .pure _) fun _ =>
      .bind keeps_entry fun _ => .ite (fun _ => .pure _) fun _ => .pure _
  | .poll .. => .bind (keeps_queryPeers _) fun _ => .bind keeps_peer fun p => by
      cases p with
      | none => exact .pure _
      | some p => exact .ite (fun _ => .pure _) fun _ => .pure _
  | .promote .. => by
    refine keeps_match (.pure _) fun s => .ite (fun _ => .pure _) fun _ => ?_
    intro sl _
    rw [hset, wp_bind, wp_wgSet_done]
    exact Keeps.bind (I := fun sl => Regular sl.view) (keeps_saveState _) (fun _ => .pure _) _
      (regular_route _ _ _ sl)
  | .rekey .. => .ite (fun _ => .pure _) fun _ => .pure _
  | .fail => .bind keeps_entry fun _ => .ite (fun _ => .pure _) fun _ sl _ => regular_giveUp sl

theorem regular_confirmStep (hset : calls.set = .done) (hremove : calls.remove = .done) :
    ∀ pc : ConfirmPc, KeepsRegular (confirmStep g calls pc)
  | .setup ip e => by
    refine .ite (fun _ => .pure _) fun _ => .bind keeps_entry fun _ => .ite (fun _ => .pure _) fun _ => ?_
    intro sl _
    rw [if_pos ⟨hremove, hset⟩, wp_bind, wp_update, wp_bind, wp_wgSet_done, wp_bind, wp_wgSet_done]
    have hmark : Regular ((((sl.update fun s => { s with
        mode := .confirm6, workerRunning := true, started := calls.now,
        baselineHandshake := 0 }).execute .remove).execute (.route (slash32 ip) e probeKeepalive))).view := by
      rintro ⟨s, hs, hm, -⟩
      obtain ⟨s₀, -, rfl⟩ := Option.map_eq_some_iff.mp hs
      cases hm
    exact Keeps.bind (I := fun sl => Regular sl.view) (keeps_saveState _) (fun _ => .pure _) _ hmark
  | .poll .. => .ite (fun _ => .pure _) fun _ => .ite (fun _ => .pure _) fun _ =>
      .bind (keeps_queryPeers _) fun _ => .bind keeps_peer fun p => by
        cases p with
        | none => exact .pure _
        | some p => exact .ite (fun _ => .pure _) fun _ => .pure _
  | .finalize .. => by
    refine .bind keeps_entry fun _ => .ite (fun _ => .pure _) fun _ => ?_
    intro sl _
    rw [if_pos hset, wp_bind, wp_wgSet_done]
    exact Keeps.bind (I := fun sl => Regular sl.view) (keeps_saveState _) (fun _ => .pure _) _
      (regular_route _ _ _ sl)
  | .fail => .bind keeps_entry fun _ => .ite (fun _ => .pure _) fun _ sl _ => regular_giveUp sl

theorem regular_threadStep (t : Thread) (hwg : calls.WgSucceed) : KeepsRegular (t.step calls) := by
  unfold Thread.step
  cases t.pc with
  | probe pc => exact .handle (regular_probeStep hwg.set pc) fun _ => .pure _
  | confirm pc => exact .handle (regular_confirmStep hwg.set hwg.remove pc) fun _ => .pure _
  | cleanup =>
    refine keeps_match (.pure _) fun s => .ite (fun _ => ?_) fun _ => .pure _
    intro sl _
    rw [hwg.remove, wp_bind, wp_tryWgSet_done, wp_bind, wp_renew]
    have hidle := @regular_update (PeerState.backOff calls.now) (fun _ h => by cases h) (sl.execute .remove).renew
    exact Keeps.bind (I := fun sl => Regular sl.view) (.handle (keeps_saveState _) fun _ => .pure _)
      (fun _ => .pure _) _ hidle
  | finished => exact .pure _

end Workers

/-! ### Runs -/

section Run
variable {sh : Shared} {k : PublicKey} {sl : Slot} {w w' : World}

/-- A route that is taken away leaves the keepalive. -/
theorem regular_put : (sh.put k sl).Regular ↔ Regular sl.view ∧ ∀ j, j ≠ k → Regular (sh.view j) := by
  have hother : ∀ j, j ≠ k → (Regular ((sh.put k sl).view j) ↔ Regular (sh.view j)) := by
    intro j hj
    rw [Shared.view, Shared.get?_put_states, Shared.get?_put_wg, if_neg hj, if_neg hj]
    refine imp_congr Iff.rfl ?_
    show Normal ((sh.wg.get? j).map (Shared.steal sl.taken)) ↔ Normal (sh.wg.get? j)
    cases sh.wg.get? j with
    | none => exact Iff.rfl
    | some p => simp [Normal, Shared.steal]
  constructor
  · exact fun h => ⟨Shared.view_put sh k sl ▸ h k, fun j hj => (hother j hj).mp (h j)⟩
  · rintro ⟨hk, hrest⟩ j
    by_cases hj : j = k
    · subst hj
      exact (Shared.view_put sh j sl).symm ▸ hk
    · exact (hother j hj).mpr (hrest j hj)

/-- A section on one key that settles it if `P`. -/
theorem regular_section {P : Prop} (h : sh.Regular) (hsl : Settling P (sh.view k) sl.view) :
    (sh.put k sl).Regular ↔ (P → Normal (sh.wg.get? k)) := by
  rw [regular_put, hsl.regular_iff (h k)]
  exact ⟨fun hr => hr.1, fun hn => ⟨hn, fun j _ => h j⟩⟩

/-- The device changes a peer, but not its keepalive. -/
theorem regular_device {p q : WgPeer} (h : sh.Regular) (hp : sh.wg.get? k = some p)
    (hq : q.keepalive = p.keepalive) : Shared.Regular { sh with wg := sh.wg.set k q } := by
  intro j hrest
  have hnormal : Normal (sh.wg.get? j) := h j hrest
  show Normal ((sh.wg.set k q).get? j)
  rw [Dict.get?_set]
  split_ifs with hj
  · subst hj
    obtain ⟨p', hp', hk⟩ := hnormal
    obtain rfl := Option.some.inj (hp.symm.trans hp')
    exact ⟨q, rfl, hq.trans hk⟩
  · exact hnormal

/-- Every section that settles an entry in Direct finds the normal keepalive at its peer. -/
def Restored (w : World) : Label → Prop
  | .offer env data controller _ => ∀ o, readOffer env data controller = .ok o →
    o.Settles (w.shared.view o.key) → Normal (w.shared.wg.get? o.key)
  | .remove listenAddress data now _ => ∀ r, readRemoval listenAddress data = .ok r →
    r.Settles now (w.shared.view r.key) → Normal (w.shared.wg.get? r.key)
  | .monitor now _ => ∀ k, MonitorSettles now (w.shared.view k) → Normal (w.shared.wg.get? k)
  | _ => True

theorem regular_monitor {now : Time} {calls : PassCalls} (hq : calls.query = none)
    (hr : ∀ k, calls.remove k = .done) (h : w.shared.Regular) :
    (w.monitor now calls).shared.Regular ↔ ∀ k, MonitorSettles now (w.shared.view k) →
      Normal (w.shared.wg.get? k) := by
  have hbody : ∀ k ∈ w.shared.states.keys, Body (fun _ _ v v' => Settling (MonitorSettles now v) v v')
      (fun _ _ _ => False) now calls.remove k (w.shared.view k) := by
    intro k _ sl hsl
    rw [hr k, ← hsl]
    exact settling_monitorPeer
  have hpass : ∃ launches, Each (fun _ _ v v' => Settling (MonitorSettles now v) v v') w.shared.states.keys
      launches w.shared (w.monitor now calls).shared := by
    rw [World.monitor_shared]
    refine wp_run (R := fun sh' => ∃ launches, Each _ w.shared.states.keys launches w.shared sh')
      (wp_mono (each_monitorOnce hbody) (fun launches sh' h => ⟨launches, h⟩) fun _ sh' h => ?_)
    rcases h with h | h | h
    · exact h
    · obtain ⟨_, _, hE⟩ := h.failed
      exact hE.elim
    · exact absurd hq h.1
  obtain ⟨launches, heach⟩ := hpass
  refine forall_congr' fun k => ?_
  by_cases hk : k ∈ w.shared.states.keys
  · obtain ⟨_, hsettling, -⟩ := heach.visited k hk
    exact hsettling.regular_iff (h k)
  · rw [heach.others k hk]
    refine ⟨fun _ hset => ?_, fun _ => h k⟩
    obtain ⟨s, hs, -⟩ := hset
    exact absurd (Dict.mem_keys.mpr ⟨s, hs⟩) hk

/-- Where the calls to WireGuard succeed, a step from a regular state reaches one exactly if the section it
    runs settles no entry whose peer has another keepalive. -/
theorem regular_step {l : Label} (hs : machine.step w l = some w') (hwg : WgSucceeds l)
    (h : w.shared.Regular) : w'.shared.Regular ↔ Restored w l := by
  cases l with
  | offer env data controller calls =>
    obtain rfl := Option.some.inj hs
    cases ho : readOffer env data controller with
    | error e =>
      rw [World.offer, ho]
      exact ⟨fun _ o h => absurd (ho.symm.trans h) (fun h => by cases h), fun _ => h⟩
    | ok o =>
      rw [World.offer_shared ho, regular_section h
        (wp_run (settling_offerSection o calls (w.shared.slot o.key) hwg.1 hwg.2))]
      refine ⟨fun hn o' ho' => ?_, fun hall => hall o ho⟩
      obtain rfl := Except.ok.inj (ho.symm.trans ho')
      exact hn
  | remove listenAddress data now calls =>
    obtain rfl := Option.some.inj hs
    unfold World.remove
    cases hr : readRemoval listenAddress data with
    | error e => exact ⟨fun _ o h => absurd (hr.symm.trans h) (fun h => by cases h), fun _ => h⟩
    | ok r =>
      have hsettling := wp_run (@settling_removeSection (w.shared.slot r.key) now r calls hwg.1 hwg.2)
      refine (regular_section h hsettling).trans ⟨fun hn r' hr' => ?_, fun hall => hall r hr⟩
      obtain rfl := Except.ok.inj (hr.symm.trans hr')
      exact hn
  | monitor now calls =>
    obtain rfl := Option.some.inj hs
    exact regular_monitor hwg.1 hwg.2 h
  | cleanupInitiator active calls =>
    obtain rfl := Option.some.inj hs
    refine iff_of_true ((keeps_cleanupInitiatorStates fun k sh hsh => wp_onKey.mpr ?_).run h) trivial
    exact wp_mono (settling_cleanupPeer _ _) (fun _ sl hsl => (regular_section hsh hsl).mpr False.elim)
      fun _ sl hsl => (regular_section hsh hsl).mpr False.elim
  | launch i =>
    obtain ⟨_, _, rfl⟩ := launch_step hs
    exact iff_of_true h trivial
  | worker i calls =>
    obtain ⟨t, ht, _, rfl⟩ := worker_step hs
    rw [World.worker_shared]
    refine iff_of_true (regular_put.mpr ⟨?_, fun j _ => h j⟩) trivial
    exact (regular_threadStep t hwg).run (h t.key)
  | handshake k at_ =>
    obtain ⟨p, hp, _, rfl⟩ := handshake_step hs
    exact iff_of_true (regular_device h hp rfl) trivial
  | roam k endpoint =>
    obtain ⟨p, hp, rfl⟩ := roam_step hs
    exact iff_of_true (regular_device h hp rfl) trivial

/-- In a run in which the calls to WireGuard succeed, the Direct entries without a worker have the normal
    keepalive in every state exactly if every section that settled one found it so. -/
theorem settled_keepalive_iff {w₀ w : World} {ls : List Label} (h₀ : Fresh w₀) (hwg : ∀ l ∈ ls, WgSucceeds l)
    (hrun : machine.run w₀ ls = some w) :
    (∀ ls', ls' <+: ls → ∀ w', machine.run w₀ ls' = some w' → ∀ k s, w'.shared.states.get? k = some s →
      s.mode = .direct → s.workerRunning = false →
        ∃ p, w'.shared.wg.get? k = some p ∧ p.keepalive = keepalive) ↔ machine.Along Restored w₀ ls := by
  have hinit : w₀.shared.Regular := by
    rintro k ⟨s, hs, -⟩
    exact absurd ((h₀.states k).symm.trans hs) fun h => by cases h
  rw [← machine.along_iff (I := fun w => w.shared.Regular) (fun w l w' hl h hs => regular_step hs hl h) hinit
    (machine.along_of_mem hwg) hrun]
  refine forall₄_congr fun ls' _ w' _ => forall_congr' fun k => ?_
  constructor
  · rintro h ⟨s, hs, hm, hr⟩
    exact h s hs hm hr
  · exact fun h s hs hm hr => h ⟨s, hs, hm, hr⟩

end Run

/-- The path the probe of `confirmRun` finds is settled with the normal keepalive. -/
theorem settled_keepalive_probed : ∃ w s p, machine.run World.start confirmRun.dropLast = some w ∧
    w.shared.states.get? zeroKey = some s ∧ s.mode = .direct ∧ s.workerRunning = false ∧
      w.shared.wg.get? zeroKey = some p ∧ p.keepalive = keepalive := by
  have hsome : (machine.run World.start confirmRun.dropLast).any (fun w =>
      (w.shared.states.get? zeroKey).any fun s : PeerState =>
        decide (s.mode = .direct ∧ s.workerRunning = false)) = true := by decide +kernel
  obtain ⟨w, hrun, hw⟩ := (Option.any_eq_true _ _).mp hsome
  obtain ⟨s, hs, hx⟩ := (Option.any_eq_true _ _).mp hw
  obtain ⟨hm, hr⟩ := of_decide_eq_true hx
  have hwg : ∀ l ∈ confirmRun.dropLast, WgSucceeds l := fun l hl =>
    wgSucceeds_expiredRun l (List.mem_append_left _ hl)
  have hrestored : machine.Along Restored World.start confirmRun.dropLast := by
    refine ⟨fun o _ hset => ?_, fun _ _ => machine.along_of_forall ?_⟩
    · -- the device has no peer yet
      obtain ⟨-, hh, -⟩ := hset
      have hroute : holdsRoute (World.start.shared.wg.get? o.key) o.peerIp = true := ((healthy_iff o).mp hh).1
      cases hroute
    · simp [List.replicate, Restored]
  obtain ⟨p, hp, hk⟩ := (settled_keepalive_iff fresh_start hwg hrun).mpr hrestored _ (List.prefix_refl _) w hrun
    zeroKey s hs hm hr
  exact ⟨w, s, p, hrun, hs, hm, hr, hp, hk⟩

/-- The peer comes back with a new session while its Direct is being confirmed; the confirmation finds the
    handshake and that the entry is no longer its own. -/
def renewedRun : List Label :=
  confirmRun ++ [.worker 0 (workerCalls (104 : ℕ)), .handshake zeroKey 105,
    .offer (nodeEnv (106 : ℕ)) (sessionOffer "0a1b2c3d-0000-4000-8000-000000000010" 7) .responder .succeed,
    .worker 1 (workerCalls (106 : ℕ)), .worker 1 (workerCalls (106 : ℕ)), .worker 1 (workerCalls (106 : ℕ))]

/-- The Direct of the new session keeps the probing keepalive, and no worker is left to restore it. -/
theorem settled_probing : ∃ w s p, machine.run World.start renewedRun = some w ∧
    (∀ l ∈ renewedRun, WgSucceeds l) ∧ w.shared.states.get? zeroKey = some s ∧ s.mode = .direct ∧
      s.workerRunning = false ∧ w.shared.wg.get? zeroKey = some p ∧ p.keepalive = probeKeepalive ∧
        p.keepalive ≠ keepalive ∧ w.pending = [] ∧ ∀ t ∈ w.threads, t.pc = .finished := by
  have hsome : (machine.run World.start renewedRun).any (fun w =>
      (w.shared.states.get? zeroKey).any fun s : PeerState => (w.shared.wg.get? zeroKey).any fun p : WgPeer =>
        decide (s.mode = .direct ∧ s.workerRunning = false ∧ p.keepalive = probeKeepalive ∧ w.pending = [] ∧
          ∀ t ∈ w.threads, t.pc = .finished)) = true := by decide +kernel
  obtain ⟨w, hrun, hw⟩ := (Option.any_eq_true _ _).mp hsome
  obtain ⟨s, hs, hx⟩ := (Option.any_eq_true _ _).mp hw
  obtain ⟨p, hp, hx⟩ := (Option.any_eq_true _ _).mp hx
  obtain ⟨hm, hr, hk, hpending, hthreads⟩ := of_decide_eq_true hx
  have hcalls (n : Time) : (workerCalls n).WgSucceed := ⟨rfl, rfl, rfl, rfl⟩
  have hconfirm : ∀ l ∈ confirmRun, WgSucceeds l := by
    simp only [confirmRun, offered, List.replicate, List.cons_append, List.nil_append, List.forall_mem_cons]
    exact ⟨⟨rfl, rfl⟩, trivial, hcalls _, hcalls _, hcalls _, hcalls _, trivial, hcalls _, hcalls _, hcalls _,
      hcalls _, hcalls _, fun _ h => absurd h List.not_mem_nil⟩
  have hwg : ∀ l ∈ renewedRun, WgSucceeds l := by
    refine List.forall_mem_append.mpr ⟨hconfirm, ?_⟩
    simp only [List.forall_mem_cons]
    exact ⟨hcalls _, trivial, ⟨rfl, rfl⟩, hcalls _, hcalls _, hcalls _, fun _ h => absurd h List.not_mem_nil⟩
  exact ⟨w, s, p, hrun, hwg, hs, hm, hr, hp, hk, hk ▸ by decide, hpending, hthreads⟩

end Agent
