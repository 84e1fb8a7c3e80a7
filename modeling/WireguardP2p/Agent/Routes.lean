import WireguardP2p.Agent.Fencing
import WireguardP2p.Agent.Fields

/-! Control state and routes, section by section, where every call succeeds. `Matches` says which peer
    the device has for an entry in each mode; every section keeps it, and leaves a worker at work alone
    or takes the entry from it (`Quiet`). -/

namespace Agent
open Ipaddress Python Candidates Raising

/-- The sessions the coordinator opens: the overlay IP of a session, and the key of an overlay IP. -/
structure Sessions where
  ip : Text → Text
  key : Text → PublicKey

/-- The offer is of one of these sessions. -/
structure Sessions.Carries (c : Sessions) (o : Offer) : Prop where
  ip : o.peerIp = c.ip o.sessionId
  key : c.key o.peerIp = o.key

/-- The peer holds none but the given allowed IPs. -/
def Plain (static : List Text) (p : Option WgPeer) : Prop :=
  ∀ q, p = some q → ∀ a ∈ q.allowedIps, a ∈ static

/-- The peer holds the overlay IP and nothing else. -/
def Routed (ip : Text) (p : Option WgPeer) : Prop := ∃ q, p = some q ∧ q.allowedIps = [slash32 ip]

def HasHandshake (p : Option WgPeer) : Prop := ∃ q, p = some q ∧ q.latestHandshake ≠ 0

/-- The peer the device has for an entry. -/
def Matches (static : List Text) (s : PeerState) (p : Option WgPeer) : Prop :=
  match s.mode with
  | .direct => s.workerRunning = false ∧ Routed s.ip p ∧ HasHandshake p
  | .confirm6 => s.workerRunning = true ∧ Routed s.ip p
  | .probe => Plain static p
  | .idle => s.workerRunning = false ∧ Plain static p

/-- The entry of a key is of one of the sessions. -/
structure Known (c : Sessions) (k : PublicKey) (s : PeerState) : Prop where
  ip : s.ip = c.ip s.sessionId
  key : c.key s.ip = k
  ip_ne : s.ip ≠ []
  candidates_ne : s.candidates ≠ []

/-- Entry and peer of a key agree. -/
structure Agrees (c : Sessions) (k : PublicKey) (static : List Text) (sl : Slot) : Prop where
  absent : sl.entry = none → Plain static sl.peer
  known : ∀ s, sl.entry = some s → Known c k s
  peer : ∀ s, sl.entry = some s → Matches static s sl.peer

/-- The worker of the entry is left alone, or it has lost the entry. -/
def Quiet (sl₀ sl : Slot) : Prop :=
  sl₀.lastGeneration ≤ sl.lastGeneration ∧
    ((∀ s, sl.entry = some s → s.workerRunning = true → sl₀.lastGeneration < s.generation) ∨
      (HasHandshake sl₀.peer → HasHandshake sl.peer) ∧ ∀ s, sl.entry = some s →
        ∃ s₀, sl₀.entry = some s₀ ∧ s₀.workerRunning = s.workerRunning ∧ s₀.mode = s.mode ∧
          s₀.generation = s.generation)

theorem plain_none (static : List Text) : Plain static none := nofun

theorem hasHandshake_of_fresh {p : Option WgPeer} {now : Time} (h : freshHandshake p now = true) :
    HasHandshake p := by
  cases p with
  | none => cases h
  | some q => exact ⟨q, rfl, (of_decide_eq_true h).1⟩

theorem Routed.holdsRoute {p : Option WgPeer} {ip : Text} (h : Routed ip p) :
    holdsRoute p ip = true := by
  obtain ⟨q, rfl, hq⟩ := h
  exact holdsRoute_iff.mpr ⟨q, rfl, by simp [hq]⟩

section Agrees
variable {c : Sessions} {k : PublicKey} {static : List Text} {sl sl₀ : Slot} {s : PeerState}

theorem Agrees.of_some (hs : sl.entry = some s) (hk : Known c k s) (hm : Matches static s sl.peer) :
    Agrees c k static sl := by
  refine ⟨fun h => absurd (hs.symm.trans h) nofun, fun t ht => ?_, fun t ht => ?_⟩ <;>
    obtain rfl := Option.some.inj (hs.symm.trans ht)
  · exact hk
  · exact hm

theorem Agrees.of_none (hs : sl.entry = none) (hp : sl.peer = none) : Agrees c k static sl := by
  refine ⟨fun _ => hp ▸ plain_none static, fun t ht => ?_, fun t ht => ?_⟩ <;>
    (rw [hs] at ht; cases ht)

/-- The agreement reads the allowed IPs of the peer and whether it had a handshake. -/
theorem Agrees.of_peer {sl' : Slot} (h : Agrees c k static sl) (he : sl'.entry = sl.entry)
    (hp : Plain static sl.peer → Plain static sl'.peer)
    (hr : ∀ s, sl.entry = some s → Routed s.ip sl.peer → Routed s.ip sl'.peer)
    (hh : HasHandshake sl.peer → HasHandshake sl'.peer) : Agrees c k static sl' := by
  refine ⟨fun hn => hp (h.absent (he ▸ hn)), fun s hs => h.known s (he ▸ hs), fun s hs => ?_⟩
  rw [he] at hs
  have hm := h.peer s hs
  unfold Matches at hm ⊢
  cases hmode : s.mode <;> rw [hmode] at hm
  · exact ⟨hm.1, hp hm.2⟩
  · exact hp hm
  · exact ⟨hm.1, hr s hs hm.2⟩
  · exact ⟨hm.1, hr s hs hm.2.1, hh hm.2.2⟩

/-- The overlay IPs of the sessions are not among the static allowed IPs. -/
abbrev Free (c : Sessions) (static : List Text) : Prop := ∀ sid, slash32 (c.ip sid) ∉ static

theorem Plain.not_holdsRoute (h : Plain static sl.peer) (hfree : Free c static) (sid : Text) :
    holdsRoute sl.peer (c.ip sid) = false := by
  rw [← Bool.not_eq_true, holdsRoute_iff]
  rintro ⟨q, hq, hm⟩
  exact hfree sid (h q hq _ hm)

/-- A peer that holds the overlay IP of a session belongs to an entry with a route. -/
theorem Agrees.holdsRoute (h : Agrees c k static sl) (hfree : Free c static) {sid : Text}
    (hh : Agent.holdsRoute sl.peer (c.ip sid) = true) : ∃ s, sl.entry = some s ∧ s.ip = c.ip sid ∧
      (s.mode = .direct ∧ s.workerRunning = false ∨ s.mode = .confirm6 ∧ s.workerRunning = true) ∧
        Routed s.ip sl.peer := by
  cases he : sl.entry with
  | none =>
    rw [(h.absent he).not_holdsRoute hfree] at hh
    cases hh
  | some s =>
    have hm := h.peer s he
    have hip (hr : Routed s.ip sl.peer) : s.ip = c.ip sid := by
      obtain ⟨q, hq, hqa⟩ := hr
      obtain ⟨q', hq', hm'⟩ := holdsRoute_iff.mp hh
      obtain rfl := Option.some.inj (hq.symm.trans hq')
      rw [hqa, List.mem_singleton] at hm'
      exact (slash32_injective hm').symm
    unfold Matches at hm
    cases hmode : s.mode <;> rw [hmode] at hm
    · rw [hm.2.not_holdsRoute hfree] at hh
      cases hh
    · rw [hm.not_holdsRoute hfree] at hh
      cases hh
    · exact ⟨s, rfl, hip hm.2, .inr ⟨hmode, hm.1⟩, hm.2⟩
    · exact ⟨s, rfl, hip hm.2.1, .inl ⟨hmode, hm.1⟩, hm.2.1⟩

/-- Without the route the entry is on no path. -/
theorem Matches.plain (h : Matches static s sl.peer) (hh : Agent.holdsRoute sl.peer s.ip = false) :
    Plain static sl.peer := by
  unfold Matches at h
  cases hmode : s.mode <;> rw [hmode] at h
  · exact h.2
  · exact h
  · rw [h.2.holdsRoute] at hh
    cases hh
  · rw [h.2.1.holdsRoute] at hh
    cases hh

end Agrees

namespace Quiet
variable {sl₀ sl sl' : Slot}

theorem refl (sl : Slot) : Quiet sl sl := ⟨le_rfl, .inr ⟨id, fun s hs => ⟨s, hs, rfl, rfl, rfl⟩⟩⟩

/-- The entry has no worker. -/
theorem of_idle (hl : sl₀.lastGeneration ≤ sl.lastGeneration)
    (h : ∀ s, sl.entry = some s → s.workerRunning = false) : Quiet sl₀ sl :=
  ⟨hl, .inl fun s hs hr => by rw [h s hs] at hr; cases hr⟩

/-- The entry has a new generation. -/
theorem of_new (hl : sl₀.lastGeneration ≤ sl.lastGeneration)
    (h : ∀ s, sl.entry = some s → sl₀.lastGeneration < s.generation) : Quiet sl₀ sl :=
  ⟨hl, .inl fun s hs _ => h s hs⟩

/-- An update that does not concern the worker. -/
theorem update {f : PeerState → PeerState} (h : Quiet sl₀ sl)
    (hf : ∀ s, (f s).workerRunning = s.workerRunning ∧ (f s).mode = s.mode ∧
      (f s).generation = s.generation) : Quiet sl₀ (sl.update f) := by
  refine ⟨h.1, h.2.imp (fun hi s hs hr => ?_) fun ⟨hp, ho⟩ => ⟨hp, fun s hs => ?_⟩⟩ <;>
    obtain ⟨t, ht, rfl⟩ := Option.map_eq_some_iff.mp hs
  · rw [(hf t).1] at hr
    rw [(hf t).2.2]
    exact hi t ht hr
  · obtain ⟨s₀, hs₀, hr, hm, hg⟩ := ho t ht
    exact ⟨s₀, hs₀, hr.trans (hf t).1.symm, hm.trans (hf t).2.1.symm, hg.trans (hf t).2.2.symm⟩

theorem trans (h : Quiet sl₀ sl) (h' : Quiet sl sl') : Quiet sl₀ sl' := by
  refine ⟨h.1.trans h'.1, ?_⟩
  rcases h'.2 with hn' | ⟨hp', he'⟩
  · exact .inl fun s hs hr => h.1.trans_lt (hn' s hs hr)
  · rcases h.2 with hn | ⟨hp, he⟩
    · refine .inl fun s hs hr => ?_
      obtain ⟨s₁, hs₁, hr₁, _, hg₁⟩ := he' s hs
      rw [← hg₁]
      exact hn s₁ hs₁ (hr₁.trans hr)
    · refine .inr ⟨hp' ∘ hp, fun s hs => ?_⟩
      obtain ⟨s₁, hs₁, hr₁, hm₁, hg₁⟩ := he' s hs
      obtain ⟨s₀, hs₀, hr₀, hm₀, hg₀⟩ := he s₁ hs₁
      exact ⟨s₀, hs₀, hr₀.trans hr₁, hm₀.trans hm₁, hg₀.trans hg₁⟩

/-- Nothing happens to the entry, and the peer keeps its handshake. -/
theorem of_entry (hl : sl₀.lastGeneration ≤ sl.lastGeneration) (he : sl.entry = sl₀.entry)
    (hh : HasHandshake sl₀.peer → HasHandshake sl.peer) : Quiet sl₀ sl :=
  ⟨hl, .inr ⟨hh, fun s hs => ⟨s, he ▸ hs, rfl, rfl, rfl⟩⟩⟩

end Quiet

/-! ### Entries at rest -/

/-- The entry in another mode, without a worker. -/
def Rests (s : PeerState) (mode : Mode) (s' : PeerState) : Prop :=
  s'.ip = s.ip ∧ s'.sessionId = s.sessionId ∧ s'.candidates = s.candidates ∧ s'.mode = mode ∧
    s'.workerRunning = false

section Rests
variable {c : Sessions} {k : PublicKey} {static : List Text} {sl sl₀ : Slot} {s s' : PeerState}
  {mode : Mode}

theorem Known.congr (h : Known c k s) (hip : s'.ip = s.ip) (hsid : s'.sessionId = s.sessionId)
    (hc : s'.candidates = s.candidates) : Known c k s' :=
  ⟨by rw [hip, hsid]; exact h.ip, hip ▸ h.key, hip ▸ h.ip_ne, hc ▸ h.candidates_ne⟩

theorem Rests.known (h : Rests s mode s') (hk : Known c k s) : Known c k s' :=
  hk.congr h.1 h.2.1 h.2.2.1

theorem Rests.quiet (hl : sl₀.lastGeneration ≤ sl.lastGeneration) (hs : sl.entry = some s')
    (h : Rests s mode s') : Quiet sl₀ sl :=
  .of_idle hl fun t ht => by
    obtain rfl := Option.some.inj (hs.symm.trans ht)
    exact h.2.2.2.2

theorem Rests.idle (h : Rests s .idle s') (hp : Plain static sl.peer) : Matches static s' sl.peer := by
  unfold Matches
  rw [h.2.2.2.1]
  exact ⟨h.2.2.2.2, hp⟩

theorem Rests.direct (h : Rests s .direct s') (hr : Routed s.ip sl.peer) (hh : HasHandshake sl.peer) :
    Matches static s' sl.peer := by
  unfold Matches
  rw [h.2.2.2.1]
  exact ⟨h.2.2.2.2, h.1 ▸ hr, hh⟩

end Rests

/-! ### Offers -/

section Offer
variable {c : Sessions} {static : List Text} {o : Offer} {sl sl₀ : Slot}

/-- After the replacement the entry is on the overlay IP of the offer. -/
structure Replaced (static : List Text) (o : Offer) (sl₀ sl : Slot) : Prop where
  entry : ∃ s, sl.entry = some s ∧ s.ip = o.peerIp ∧ Matches static s sl.peer
  quiet : Quiet sl₀ sl

/-- After the control fields the entry agrees with its peer, on the overlay IP of the offer. -/
structure Refreshed (c : Sessions) (static : List Text) (o : Offer) (sl₀ sl : Slot) : Prop where
  entry : ∃ s, sl.entry = some s ∧ s.ip = o.peerIp ∧ Known c o.key s ∧ Matches static s sl.peer
  quiet : Quiet sl₀ sl

theorem Refreshed.agrees (h : Refreshed c static o sl₀ sl) : Agrees c o.key static sl := by
  obtain ⟨s, hs, _, hk, hm⟩ := h.entry
  exact .of_some hs hk hm

theorem routes_createEntry (hl : sl₀.lastGeneration ≤ sl.lastGeneration)
    (hp : Plain static sl.peer) :
    (createEntry o).wp (fun _ => Replaced static o sl₀) (fun _ _ => False) sl := by
  refine ⟨⟨_, rfl, rfl, rfl, hp⟩, .of_idle ?_ fun s hs => ?_⟩
  · exact hl.trans (sl.lt_nextGeneration 0).le
  · obtain rfl := Option.some.inj hs
    rfl

theorem routes_replaceEntry (hfree : Free c static) (hc : c.Carries o) (h : Agrees c o.key static sl) :
    (replaceEntry o .succeed).wp (fun _ => Replaced static o sl) (fun _ _ => False) sl := by
  have hremove {sl₁ : Slot} (hl : sl.lastGeneration ≤ sl₁.lastGeneration) :
      (removeIfPresent OfferCalls.succeed.remove).wp (fun _ sl₂ => (createEntry o).wp
        (fun _ => Replaced static o sl) (fun _ _ => False) sl₂) (fun _ _ => False) sl₁ := by
    rw [wp_removeIfPresent]
    exact ⟨fun hp => routes_createEntry hl (hp ▸ plain_none static), fun _ =>
      routes_createEntry hl (plain_none static)⟩
  have hrenew := sl.lastGeneration_le_renew
  simp only [replaceEntry, wp_bind, wp_entry]
  cases hs : sl.entry with
  | none => exact routes_createEntry le_rfl (h.absent hs)
  | some s =>
    simp only [wp_ite, wp_bind, wp_peer, retire, wp_renew, wp_update, wp_pure]
    refine ⟨fun _ => hremove hrenew, fun _ => ⟨fun _ => ⟨fun hh => ?_, fun _ => hremove hrenew⟩,
      fun hsid => ⟨⟨s, hs, ?_, h.peer s hs⟩, .refl sl⟩⟩⟩
    · simp only [directPeerHealthy, Bool.and_eq_true] at hh
      obtain ⟨⟨_, hroute⟩, hfresh⟩ := hh
      rw [hc.ip] at hroute
      obtain ⟨s', hs', hip, _, hr⟩ := h.holdsRoute hfree hroute
      obtain rfl := Option.some.inj (hs.symm.trans hs')
      have he : ((sl.renew.update fun s => { s with workerRunning := false }).update fun s =>
          { s with mode := .direct, endpoint := peerEndpoint sl.renew.peer, failures := 0,
                   retryAfter := 0 }).entry = some { s with
            generation := sl.nextGeneration s.generation, workerRunning := false, mode := .direct,
            endpoint := peerEndpoint sl.renew.peer, failures := 0, retryAfter := 0 } := by
        simp [Slot.entry_renew, hs]
      refine ⟨⟨_, he, hip.trans hc.ip.symm, rfl, ?_, ?_⟩, .of_idle hrenew fun t ht => ?_⟩
      · rw [Slot.peer_update, Slot.peer_update, Slot.peer_renew]
        exact hr
      · rw [Slot.peer_update, Slot.peer_update, Slot.peer_renew]
        exact hasHandshake_of_fresh hfresh
      · obtain rfl := Option.some.inj (he.symm.trans ht)
        rfl
    · rw [(h.known s hs).ip, not_not.mp hsid, hc.ip]

theorem routes_refreshEntry (hc : c.Carries o) (h : Replaced static o sl₀ sl) :
    (refreshEntry o).wp (fun _ => Refreshed c static o sl₀) (fun _ _ => False) sl := by
  obtain ⟨s, hs, hip, hm⟩ := h.entry
  refine ⟨⟨s.refresh o, ?_, rfl, ⟨hc.ip, hc.key, o.peerIp_ne, o.candidates_ne⟩, ?_⟩, ?_⟩
  · rw [Slot.entry_update, hs, Option.map_some]
  · unfold Matches at hm ⊢
    rw [hip] at hm
    exact hm
  · exact h.quiet.update fun _ => ⟨rfl, rfl, rfl⟩

theorem Refreshed.routed (hfree : Free c static) (hc : c.Carries o) (h : Refreshed c static o sl₀ sl)
    (hh : holdsRoute sl.peer o.peerIp = true) : Routed o.peerIp sl.peer := by
  obtain ⟨s, hs, hip, _, hr⟩ := h.agrees.holdsRoute hfree (hc.ip ▸ hh)
  rw [hc.ip, ← hip]
  exact hr

/-- A refreshed entry that comes to rest off any path. -/
theorem Refreshed.idle {s : PeerState} {sl' : Slot} (hip : s.ip = o.peerIp) (hk : Known c o.key s)
    (hl : sl₀.lastGeneration ≤ sl'.lastGeneration)
    (he : ∃ s', sl'.entry = some s' ∧ Rests s .idle s') (hp : sl'.peer = none) :
    Refreshed c static o sl₀ sl' := by
  obtain ⟨s', hs', hrest⟩ := he
  exact ⟨⟨s', hs', hrest.1.trans hip, hrest.known hk, hrest.idle (hp ▸ plain_none static)⟩,
    hrest.quiet hl hs'⟩

/-- A refreshed entry that comes to rest on the path of the device. -/
theorem Refreshed.direct {s : PeerState} {sl' : Slot} (hip : s.ip = o.peerIp) (hk : Known c o.key s)
    (hl : sl₀.lastGeneration ≤ sl'.lastGeneration)
    (he : ∃ s', sl'.entry = some s' ∧ Rests s .direct s') (hr : Routed o.peerIp sl'.peer)
    (hh : HasHandshake sl'.peer) : Refreshed c static o sl₀ sl' := by
  obtain ⟨s', hs', hrest⟩ := he
  exact ⟨⟨s', hs', hrest.1.trans hip, hrest.known hk, hrest.direct (hip ▸ hr) hh⟩, hrest.quiet hl hs'⟩

theorem routes_followSignature (hfree : Free c static) (hc : c.Carries o)
    (h : Refreshed c static o sl₀ sl) :
    (followSignature o .succeed).wp (fun _ => Refreshed c static o sl₀) (fun _ _ => False) sl := by
  obtain ⟨s, hs, hip, hk, hm⟩ := h.entry
  simp only [followSignature, wp_bind, wp_entry, hs, wp_ite, wp_pure, wp_update, wp_renew, wp_peer,
    wp_saveState_true, wp_removeIfPresent, wp_wgSet_done, OfferCalls.succeed]
  have hlast (f : PeerState → PeerState) : sl₀.lastGeneration ≤ (sl.update f).renew.lastGeneration :=
    h.quiet.1.trans (sl.update f).lastGeneration_le_renew
  refine ⟨fun _ => ⟨fun hkeep => ?_, fun _ => ⟨fun hnone => ?_, fun _ => ?_⟩⟩, fun _ => h⟩
  · simp only [Bool.and_eq_true, Slot.peer_update, Slot.peer_renew] at hkeep
    refine .direct hip hk (hlast _) ?_ ?_ ?_
    · simp [Slot.entry_renew, hs, Rests, keepDirect]
    · simpa using h.routed hfree hc hkeep.1.1
    · simpa using hasHandshake_of_fresh hkeep.1.2
  · exact .idle hip hk (hlast _) (by simp [Slot.entry_renew, hs, Rests]) hnone
  · exact .idle hip hk (hlast _) (by simp [Slot.entry_renew, hs, Rests]) rfl

theorem routes_followDirect (hfree : Free c static) (hc : c.Carries o)
    (h : Refreshed c static o sl₀ sl) :
    (followDirect o .succeed).wp (fun _ => Refreshed c static o sl₀) (fun _ _ => False) sl := by
  obtain ⟨s, hs, hip, hk, hm⟩ := h.entry
  simp only [followDirect, wp_bind, wp_ite, wp_pure, wp_update, wp_renew, wp_peer, wp_saveState_true,
    wp_wgSet_done, OfferCalls.succeed]
  refine ⟨fun hh => ⟨fun hf => ?_, fun _ => ?_⟩, fun _ => h⟩
  · have hr := h.routed hfree hc hh
    refine .direct hip hk h.quiet.1 ?_ hr (hasHandshake_of_fresh hf)
    simp [hs, Rests]
  · refine .idle hip hk (h.quiet.1.trans (Slot.lastGeneration_le_renew (sl.execute _))) ?_ ?_
    · simp [Slot.entry_renew, hs, Rests]
    · simp [Command.apply]

theorem routes_launchIfDue (h : Refreshed c static o sl₀ sl) :
    (launchIfDue o).wp (fun _ => Refreshed c static o sl₀) (fun _ _ => False) sl := by
  obtain ⟨s, hs, hip, hk, hm⟩ := h.entry
  simp only [launchIfDue, startProbe, wp_bind, wp_peer, wp_entry, hs, wp_ite, wp_pure, wp_renew,
    wp_update]
  refine ⟨fun hdue => ?_, fun _ => h⟩
  simp only [probeDue, Bool.and_eq_true, Bool.not_eq_true'] at hdue
  have hplain : Plain static sl.peer := hm.plain (hip ▸ hdue.1.1)
  rw [sl.renew_some hs]
  refine ⟨⟨_, rfl, hip, hk.congr rfl rfl rfl, hplain⟩, .of_new ?_ fun t ht => ?_⟩
  · exact h.quiet.1.trans (sl.lt_nextGeneration _).le
  · obtain rfl := Option.some.inj ht
    exact h.quiet.1.trans_lt (sl.lt_nextGeneration _)

/-- A section that answers an offer keeps the agreement and is quiet. -/
theorem routes_offerSection (hfree : Free c static) (hc : c.Carries o) (h : Agrees c o.key static sl) :
    (offerSection o .succeed).wp (fun _ sl' => Agrees c o.key static sl' ∧ Quiet sl sl')
      (fun _ sl' => Agrees c o.key static sl' ∧ Quiet sl sl') sl := by
  have hquery : OfferCalls.succeed.query = none := rfl
  have hsave : OfferCalls.succeed.finalSave = true := rfl
  simp only [offerSection, wp_bind, hquery, wp_queryPeers_none, wp_entry]
  cases sessionCheck sl.entry o with
  | stale => exact ⟨h, .refl sl⟩
  | startChanged => exact ⟨h, .refl sl⟩
  | current =>
    simp only [acceptOffer, prepareOffer, wp_bind, hsave, wp_saveState_true, wp_pure]
    refine wp_mono (routes_replaceEntry hfree hc h) (fun _ _ h => ?_) fun _ _ => False.elim
    refine wp_mono (routes_refreshEntry hc h) (fun _ _ h => ?_) fun _ _ => False.elim
    refine wp_mono (routes_followSignature hfree hc h) (fun _ _ h => ?_) fun _ _ => False.elim
    refine wp_mono (routes_followDirect hfree hc h) (fun _ _ h => ?_) fun _ _ => False.elim
    refine wp_mono (routes_launchIfDue h) (fun _ _ h => ?_) fun _ _ => False.elim
    exact ⟨h.agrees, h.quiet⟩

end Offer

/-! ### The other sections -/

section Sections
variable {c : Sessions} {k : PublicKey} {static : List Text} {sl sl₀ : Slot}

/-- The agreement, and quiet since `sl₀`. -/
structure Settled (c : Sessions) (k : PublicKey) (static : List Text) (sl₀ sl : Slot) : Prop where
  agrees : Agrees c k static sl
  quiet : Quiet sl₀ sl

theorem Settled.gone (hl : sl₀.lastGeneration ≤ sl.lastGeneration) (he : sl.entry = none)
    (hp : sl.peer = none) : Settled c k static sl₀ sl :=
  ⟨.of_none he hp, .of_idle hl fun _ hs => absurd (he.symm.trans hs) nofun⟩

theorem Settled.idle {s : PeerState} (hk : Known c k s)
    (hl : sl₀.lastGeneration ≤ sl.lastGeneration) (he : ∃ s', sl.entry = some s' ∧ Rests s .idle s')
    (hp : Plain static sl.peer) : Settled c k static sl₀ sl := by
  obtain ⟨s', hs', hrest⟩ := he
  exact ⟨.of_some hs' (hrest.known hk) (hrest.idle hp), hrest.quiet hl hs'⟩

theorem Settled.direct {s : PeerState} (hk : Known c k s)
    (hl : sl₀.lastGeneration ≤ sl.lastGeneration) (he : ∃ s', sl.entry = some s' ∧ Rests s .direct s')
    (hr : Routed s.ip sl.peer) (hh : HasHandshake sl.peer) : Settled c k static sl₀ sl := by
  obtain ⟨s', hs', hrest⟩ := he
  exact ⟨.of_some hs' (hrest.known hk) (hrest.direct hr hh), hrest.quiet hl hs'⟩

/-- A healthy Direct has its route. -/
theorem Agrees.healthy {s : PeerState} (h : Agrees c k static sl) (hfree : Free c static)
    (hs : sl.entry = some s) {now : Time} (hh : directPeerHealthy sl.peer s.ip now = true) :
    Routed s.ip sl.peer ∧ HasHandshake sl.peer := by
  simp only [directPeerHealthy, Bool.and_eq_true] at hh
  have hip := (h.known s hs).ip
  obtain ⟨s', hs', _, _, hr⟩ := h.holdsRoute hfree (hip ▸ hh.1.2)
  obtain rfl := Option.some.inj (hs.symm.trans hs')
  exact ⟨hr, hasHandshake_of_fresh hh.2⟩

theorem routes_removeSection (hfree : Free c static) (r : Removal) (now : Time)
    (h : Agrees c k static sl) :
    (removeSection r now .succeed).wp (fun _ => Settled c k static sl) (fun _ => Settled c k static sl)
      sl := by
  simp only [removeSection, wp_bind, wp_entry]
  cases hs : sl.entry with
  | none => exact ⟨h, .refl sl⟩
  | some s =>
    simp only [wp_ite, wp_bind, wp_pure, wp_queryPeers_none, wp_peer, wp_update, wp_saveState_true,
      wp_removeIfPresent, wp_wgSet_done, retire, wp_renew, wp_deleteEntry, RemoveCalls.succeed]
    have hl := sl.lastGeneration_le_renew
    refine ⟨fun _ => ⟨h, .refl sl⟩, fun hm => ⟨fun hh => ?_, fun _ => ⟨fun hp => ?_, fun _ => ?_⟩⟩⟩
    · rw [not_or, not_not, not_not] at hm
      rw [Bool.and_eq_true, ← hm.2] at hh
      obtain ⟨hr, hhs⟩ := h.healthy hfree hs hh.2
      refine .direct (h.known s hs) le_rfl ?_ hr hhs
      simp [hs, Rests, PeerState.expire]
    · refine .gone hl rfl ?_
      rw [Slot.peer_update, Slot.peer_renew, hp]
    · refine .gone ((sl.execute .remove).lastGeneration_le_renew) rfl ?_
      rw [Slot.peer_update, Slot.peer_renew]
      rfl

theorem routes_cleanupPeer (active : Bool) (h : Agrees c k static sl) :
    (cleanupPeer active .done).wp (fun _ => Settled c k static sl) (fun _ _ => False) sl := by
  simp only [cleanupPeer, wp_bind, wp_entry]
  cases hs : sl.entry with
  | none => exact ⟨h, .refl sl⟩
  | some s =>
    simp only [wp_ite, wp_bind, wp_pure, wp_handle, wp_removeIfPresent, wp_wgSet_done, retire, wp_renew,
      wp_update, wp_deleteEntry]
    have hl := sl.lastGeneration_le_renew
    exact ⟨fun _ => ⟨h, .refl sl⟩, fun _ => ⟨fun hp => .gone hl rfl hp, fun _ => .gone hl rfl rfl⟩⟩

/-- Marking an entry for a probe. -/
theorem routes_startProbe {s : PeerState} (hl : sl₀.lastGeneration ≤ sl.lastGeneration)
    (hs : sl.entry = some s) (hk : Known c k s) (hp : Plain static sl.peer) :
    startProbe.wp (fun _ => Settled c k static sl₀) (fun _ _ => False) sl := by
  simp only [startProbe, wp_bind, wp_renew, wp_update, wp_entry, wp_pure]
  rw [sl.renew_some hs]
  refine ⟨.of_some rfl (hk.congr rfl rfl rfl) hp, .of_new (hl.trans (sl.lt_nextGeneration _).le)
    fun t ht => ?_⟩
  obtain rfl := Option.some.inj ht
  exact hl.trans_lt (sl.lt_nextGeneration _)

theorem routes_monitorLaunch (now : Time) (changed : Bool) (h : Settled c k static sl₀ sl)
    (hp : Plain static sl.peer) :
    (monitorLaunch now changed).wp (fun _ => Settled c k static sl₀) (fun _ _ => False) sl := by
  simp only [monitorLaunch, wp_bind, wp_entry]
  cases hs : sl.entry with
  | none => exact h
  | some s =>
    simp only [wp_ite, wp_bind, wp_pure]
    exact ⟨fun _ => routes_startProbe h.quiet.1 hs (h.agrees.known s hs) hp, fun _ => h⟩

theorem routes_monitorProbe (now : Time) (changed : Bool) (h : Settled c k static sl₀ sl)
    (hp : Plain static sl.peer) :
    (monitorProbe now changed).wp (fun _ => Settled c k static sl₀) (fun _ _ => False) sl := by
  simp only [monitorProbe, wp_bind, wp_entry]
  cases hs : sl.entry with
  | none => exact h
  | some s =>
    simp only [wp_ite, wp_bind, wp_pure, wp_update]
    refine ⟨fun _ => ⟨fun _ => h, fun hr => ?_⟩, fun _ => routes_monitorLaunch now changed h hp⟩
    refine routes_monitorLaunch now true (.idle (h.agrees.known s hs) h.quiet.1 ?_ hp) hp
    simp only [Bool.not_eq_true] at hr
    simp [hs, Rests, hr]

theorem routes_monitorRoute (hfree : Free c static) (now : Time) (changed : Bool)
    (h : Settled c k static sl₀ sl) :
    (monitorRoute now .done changed).wp (fun _ => Settled c k static sl₀) (fun _ _ => False) sl := by
  simp only [monitorRoute, wp_bind, wp_entry]
  cases hs : sl.entry with
  | none => exact h
  | some s =>
    simp only [wp_ite, wp_bind, wp_pure, wp_update, wp_wgSet_done, wp_renew, wp_deleteEntry]
    have hk := h.agrees.known s hs
    refine ⟨fun _ => h, fun hc => ⟨fun hh => ⟨fun hf => ?_, fun _ => ⟨fun _ => ?_, fun _ => ?_⟩⟩,
      fun hh => ?_⟩⟩
    · obtain ⟨s', hs', _, hmode, hr⟩ := h.agrees.holdsRoute hfree (hk.ip ▸ hh)
      obtain rfl := Option.some.inj (hs.symm.trans hs')
      rcases hmode with ⟨_, hrun⟩ | hconf
      · refine .direct hk h.quiet.1 ?_ hr (hasHandshake_of_fresh hf)
        simp [hs, Rests, hrun]
      · exact absurd hconf hc
    · refine .gone (h.quiet.1.trans (sl.execute .remove).lastGeneration_le_renew) rfl ?_
      rw [Slot.peer_update, Slot.peer_renew]
      rfl
    · have hp : Plain static (((sl.execute .remove).renew.update fun s =>
          { s with mode := .idle, endpoint := [], selectedType := none, retryAfter := 0,
                   workerRunning := false }).peer) := by
        rw [Slot.peer_update, Slot.peer_renew]
        exact plain_none static
      refine routes_monitorProbe now true (.idle hk (h.quiet.1.trans
        (sl.execute .remove).lastGeneration_le_renew) ?_ hp) hp
      simp [Slot.entry_renew, hs, Rests]
    · rw [Bool.not_eq_true] at hh
      exact routes_monitorProbe now changed h ((h.agrees.peer s hs).plain hh)

theorem routes_monitorPeer (hfree : Free c static) (now : Time) (h : Agrees c k static sl) :
    (monitorPeer now .done).wp (fun _ => Settled c k static sl) (fun _ _ => False) sl := by
  simp only [monitorPeer, wp_bind, wp_entry]
  cases hs : sl.entry with
  | none => exact ⟨h, .refl sl⟩
  | some s =>
    simp only [wp_ite, wp_bind, wp_pure, wp_update, wp_peer, wp_removeIfPresent, wp_wgSet_done, retire,
      wp_renew, wp_deleteEntry]
    refine ⟨fun _ => ⟨fun hh => ?_, fun _ => ⟨fun hp => ?_, fun _ => ?_⟩⟩,
      fun _ => routes_monitorRoute hfree now false ⟨h, .refl sl⟩⟩
    · obtain ⟨hr, hhs⟩ := h.healthy hfree hs hh
      refine routes_monitorRoute hfree now true (.direct (h.known s hs) le_rfl ?_ hr hhs)
      simp [hs, Rests, PeerState.expire]
    · refine .gone sl.lastGeneration_le_renew rfl ?_
      rw [Slot.peer_update, Slot.peer_renew, hp]
    · refine .gone (sl.execute .remove).lastGeneration_le_renew rfl ?_
      rw [Slot.peer_update, Slot.peer_renew]
      rfl

end Sections

end Agent
