import WireguardP2p.Fleet.World

/-! What the parties agree on. The coordinator draws a UUID for each session, so an id stands for one client and
    one start at every agent and in the table of the coordinator; and a session that is closed and taken back
    from an agent does not come back to it. -/

namespace Fleet
open Ipaddress Python Net Candidates Raising
open Agent (PublicKey)
open Coordinator (Ident)

/-- The entry of the key is of the session. -/
structure OfSession (server : Text) (i : Ident) (k : PublicKey) (g : Agent.Grant) : Prop where
  key : k.1 = i.key
  sessionId : g.sessionId = i.sessionId
  valid : Agent.validateSessionId (.str i.sessionId) = .ok g.sessionId
  started : g.sessionStartedNs = i.sessionStartedNs
  ip : (Agent.validatePeerIp server (.str i.ip)).map Subtype.val = .ok g.ip

/-- The id of a session passes the check of the agent as it is. -/
theorem validateSessionId_uuidText {u : Fin (2 ^ 128)} {id : Text}
    (h : Agent.validateSessionId (.str (uuidText u)) = .ok id) : id = uuidText u := by
  unfold Agent.validateSessionId at h
  dsimp only at h
  cases hp : parseUuid (uuidText u) with
  | none =>
    rw [hp] at h
    cases h
  | some parsed =>
    simp only [hp] at h
    split_ifs at h with hsame
    rw [not_not, toLower_uuidText] at hsame
    exact (Except.ok.inj h).symm.trans hsame.symm

/-- The address an offer is read with does not depend on the server. -/
theorem validatePeerIp_ok {server address : Text} {v : Json}
    (h : (Agent.validatePeerIp server v).map Subtype.val = .ok address) :
    ∃ a, toIpAddress v = .ok a ∧ a.compressed = address := by
  cases hr : Agent.validatePeerIp server v with
  | error e =>
    rw [hr] at h
    cases h
  | ok r =>
    rw [hr] at h
    obtain ⟨a, ha, hchecks⟩ := bind_ok hr
    refine ⟨a, ha, ?_⟩
    by_cases hnet : a.version ≠ 4 ∨ !(net4 [10, 0, 0, 0] 24).contains a.toNat
    · rw [if_pos hnet] at hchecks
      cases hchecks
    · by_cases hself : a.compressed = Agent.vpsAddress ∨ a.compressed = server
      · rw [if_neg hnet, if_pos hself] at hchecks
        cases hchecks
      · rw [if_neg hnet, if_neg hself] at hchecks
        exact (congrArg Subtype.val (Except.ok.inj hchecks)).trans (Except.ok.inj h)

section Idents
variable {used : List (Fin (2 ^ 128))} {A : Ident → Prop} {w : System} {server : Text}

theorem ofSession_of_pushed (hA : Coordinator.Distinct used A) (hnames : w.coordinator.Names A A) {k : PublicKey}
    {g : Agent.Grant} (h : Pushed w.coordinator.log server k g) : ∃ i, A i ∧ OfSession server i k g := by
  obtain ⟨c, peer, body, env, o, hmem, -, rfl, ho, rfl, rfl⟩ := h
  obtain ⟨i, hi, his⟩ := hnames.log _ hmem
  obtain ⟨u, -, hu⟩ := hA.drawn i hi
  have hsays := Agent.readOffer_fields ho
  obtain ⟨id, hid, hsession⟩ := hsays.session
  obtain ⟨n, hn, hstarted⟩ := hsays.started
  obtain ⟨address, haddress, hip⟩ := hsays.ip
  refine ⟨i, hi, ?_, ?_, ?_, ?_, ?_⟩
  · have hkey : Json.str body.peerKey = Json.str o.key.1 := Except.ok.inj hsays.key
    exact (Json.str.inj hkey).symm.trans his.key
  · obtain rfl : Json.str body.sessionId = id := Except.ok.inj hid
    rw [his.sessionId, hu] at hsession
    rw [hu]
    exact validateSessionId_uuidText hsession
  · obtain rfl : Json.str body.sessionId = id := Except.ok.inj hid
    rwa [his.sessionId] at hsession
  · obtain rfl : Json.int body.sessionStartedNs = n := Except.ok.inj hn
    have hint : (body.sessionStartedNs : ℤ) = o.sessionStartedNs := Except.ok.inj hstarted
    exact hint.symm.trans his.started
  · obtain rfl : Json.str body.peerIp = address := Except.ok.inj haddress
    rwa [his.ip] at hip

end Idents

/-- Each UUID of the coordinator is drawn once. -/
def Fresh (ls : List Label) : Prop := (Coordinator.uuids (coordinatorLabels ls)).Nodup

theorem tells_fleet {ls : List Label} {w : System} (hfresh : Fresh ls) (hrun : fleet.run .start ls = some w) :
    ∃ used, Coordinator.Tells used w.coordinator := by
  have hnodup : (Coordinator.uuids (coordinatorLabels ls) ++ []).Nodup := by
    rw [List.append_nil]
    exact hfresh
  obtain ⟨used, htells, -⟩ := Coordinator.tells_run (coordinator_run hrun) hnodup Coordinator.tells_start
  exact ⟨used, htells⟩

/-- An id stands for one session in the whole system: agents whose entries as responder carry the same id have
    them for the same key, the same overlay address and the same start, on whichever servers they are; and so
    does the coordinator when its table still has the session. -/
theorem sessions_agree {ls : List Label} {w : System} (hfresh : Fresh ls) (hrun : fleet.run .start ls = some w)
    {server : Text} {k : PublicKey} {s : Agent.PeerState}
    (hs : (w.agents server).shared.states.get? k = some s) (hc : s.controller = .responder) :
    (∀ server' k' s', (w.agents server').shared.states.get? k' = some s' → s'.controller = .responder →
      s'.sessionId = s.sessionId → k' = k ∧ s'.ip = s.ip ∧ s'.sessionStartedNs = s.sessionStartedNs) ∧
    ∀ ip sess, w.coordinator.store.sessions.get? ip = some sess → sess.sessionId = s.sessionId →
      sess.key = k.1 ∧ (∃ a, toIpAddress (.str ip) = .ok a ∧ a.compressed = s.ip) ∧
        (sess.sessionStartedNs : ℤ) = s.sessionStartedNs := by
  obtain ⟨used, A, hA, hnames⟩ := tells_fleet hfresh hrun
  obtain ⟨i, hi, his⟩ := ofSession_of_pushed hA hnames (backed_run hrun server k s hs hc)
  obtain ⟨a, ha, hip⟩ := validatePeerIp_ok his.ip
  refine ⟨fun server' k' s' hs' hc' hid => ?_, fun ip sess hsess hid => ?_⟩
  · obtain ⟨j, hj, hjs⟩ := ofSession_of_pushed hA hnames (backed_run hrun server' k' s' hs' hc')
    obtain rfl : j = i := hA.inj j i hj hi (hjs.sessionId.symm.trans (hid.trans his.sessionId))
    obtain ⟨b, hb, hip'⟩ := validatePeerIp_ok hjs.ip
    obtain rfl := Except.ok.inj (ha.symm.trans hb)
    exact ⟨Subtype.ext (hjs.key.trans his.key.symm), hip'.symm.trans hip, hjs.started.trans his.started.symm⟩
  · have htabled := hnames.store ip sess hsess
    have hsame := hA.inj _ _ htabled.ident hi (hid.trans his.sessionId)
    refine ⟨(congrArg Ident.key hsame).trans his.key.symm, ⟨a, ?_, hip⟩, ?_⟩
    · rw [← htabled.ip, show sess.ip = i.ip from congrArg Ident.ip hsame]
      exact ha
    · rw [show sess.sessionStartedNs = i.sessionStartedNs from congrArg Ident.sessionStartedNs hsame]
      exact his.started.symm

/-! ### Two servers and a client -/

/-- Another server, and a client whose key is one of WireGuard. -/
def otherServer : Coordinator.ListedPeer :=
  { Coordinator.homeServer with
    key := "other".toList, ip := "10.0.0.3".toList, endpoint := "8.8.8.9:51820".toList }

def keyedClient : Coordinator.ListedPeer := { Coordinator.homeClient with key := Agent.zeroKey.1 }

def listed : List Coordinator.ListedPeer := [Coordinator.homeServer, otherServer, keyedClient]

/-- The client syncs on a thread, its session has the UUID, and both offers are sent. -/
def syncLabels (thread : ℕ) (uuid : Fin (2 ^ 128)) (timeNs : ℕ+) : List Label :=
  .coordinator (.request thread .sync Coordinator.lanBody listed keyedClient.ip) ::
    ([.address 100, .candidates 100, .coordinate 100, .openSession uuid timeNs, .send 100, .send 100] :
      List Coordinator.Act).map fun a => .coordinator (.act thread a)

/-- The offer at a place of the log arrives, every call of its handler succeeds. -/
def arrival (n : ℕ) : Label := .offer n (Agent.nodeEnv ((100 : ℕ))) .succeed

theorem coordinator_of_mem_syncLabels {thread : ℕ} {uuid : Fin (2 ^ 128)} {timeNs : ℕ+} {lab : Label}
    (h : lab ∈ syncLabels thread uuid timeNs) : ∃ l, lab = .coordinator l := by
  rcases List.mem_cons.mp h with rfl | h
  · exact ⟨_, rfl⟩
  · obtain ⟨a, -, rfl⟩ := List.mem_map.mp h
    exact ⟨_, rfl⟩

/-- The agent serves the key as responder, in the session with the id. -/
def serves (w : System) (server : Text) (id : Text) : Bool :=
  ((w.agents server).shared.states.get? Agent.zeroKey).any fun s : Agent.PeerState =>
    decide (s.controller = .responder ∧ s.sessionId = id)

theorem serves_spec {w : System} {server id : Text} (h : serves w server id = true) : ∃ s : Agent.PeerState,
    (w.agents server).shared.states.get? Agent.zeroKey = some s ∧ s.controller = .responder ∧ s.sessionId = id := by
  obtain ⟨s, hs, hx⟩ := (Option.any_eq_true _ _).mp h
  exact ⟨s, hs, of_decide_eq_true hx⟩

/-- Both servers have taken the offer. -/
theorem sessions_agree_twoServers : ∃ (w : System) (s s' : Agent.PeerState),
    fleet.run .start (syncLabels 0 1 1 ++ [arrival 0, arrival 1]) = some w ∧
      (w.agents Coordinator.homeServer.ip).shared.states.get? Agent.zeroKey = some s ∧
      (w.agents otherServer.ip).shared.states.get? Agent.zeroKey = some s' ∧ s'.ip = s.ip ∧
        s'.sessionStartedNs = s.sessionStartedNs := by
  have hsome : (fleet.run .start (syncLabels 0 1 1 ++ [arrival 0, arrival 1])).any (fun w : System =>
      serves w Coordinator.homeServer.ip (uuidText 1) && serves w otherServer.ip (uuidText 1)) = true := by
    decide +kernel
  have hfresh : Fresh (syncLabels 0 1 1 ++ [arrival 0, arrival 1]) := by
    unfold Fresh
    decide +kernel
  obtain ⟨w, hrun, hw⟩ := (Option.any_eq_true _ _).mp hsome
  rw [Bool.and_eq_true] at hw
  obtain ⟨s, hs, hc, hid⟩ := serves_spec hw.1
  obtain ⟨s', hs', hc', hid'⟩ := serves_spec hw.2
  obtain ⟨-, hip, hstarted⟩ := (sessions_agree hfresh hrun hs hc).1 _ _ s' hs' hc' (hid'.trans hid.symm)
  exact ⟨w, s, s', hrun, hs, hs', hip, hstarted⟩

/-! ### The end of a session at an agent -/

/-- The removal names the entry, and the calls it makes go through. -/
theorem gone_removeSection {r : Agent.Removal} {now : Agent.Time} {calls : Agent.RemoveCalls} {sl : Agent.Slot}
    (hreason : r.reason ≠ .expired) (hquery : calls.query = none) (hremove : calls.remove = .done) :
    (Agent.removeSection r now calls).wp
      (fun _ sl' => ∀ s, sl'.entry = some s → ¬ (s.sessionId = r.sessionId ∧ s.ip = r.peerIp))
      (fun _ sl' => ∀ s, sl'.entry = some s → ¬ (s.sessionId = r.sessionId ∧ s.ip = r.peerIp)) sl := by
  unfold Agent.removeSection
  simp only [wp_bind, Agent.wp_entry]
  cases hs : sl.entry with
  | none =>
    intro s h
    rw [hs] at h
    cases h
  | some s =>
    dsimp only
    rw [wp_ite]
    refine ⟨fun hother t ht => ?_, fun _ => ?_⟩
    · rw [hs] at ht
      obtain rfl := Option.some.inj ht
      exact fun h => hother.elim (fun hid => hid h.1) fun hip => hip h.2
    · simp only [wp_bind, hquery, Agent.wp_queryPeers_none, Agent.wp_peer, decide_eq_false hreason, Bool.false_and,
        wp_ite, hremove, Agent.wp_removeIfPresent, Agent.wp_wgSet_done, Agent.retire, Agent.wp_renew, Agent.wp_update,
        Agent.wp_deleteEntry, Agent.wp_saveState, wp_pure]
      simp

/-- What a removal that passed the checks leaves under STATE_LOCK. -/
theorem remove_shared {server : Text} {data : Json} {r : Agent.Removal} (hr : Agent.readRemoval server data = .ok r)
    (w : Agent.World) (now : Agent.Time) (calls : Agent.RemoveCalls) : (w.remove server data now calls).2.shared =
      w.shared.put r.key ((Agent.removeSection r now calls).run (w.shared.slot r.key)).2 := by
  simp only [Agent.World.remove, hr, Raising.run, Agent.onKey]

theorem readReason_name (reason : Agent.RemoveReason) :
    Agent.readReason (some (.str reason.name.toList)) = .ok reason := by
  cases reason <;> decide +kernel

theorem validatePublicKey_val (k : PublicKey) : Agent.validatePublicKey (.str k.1) = .ok k := by
  rw [Agent.validatePublicKey, dif_pos k.2]

/-- A removal is read as one of the entry it is about. -/
theorem readRemoval_ofSession {server : Text} {sess : Coordinator.Session} {k : PublicKey} {g : Agent.Grant}
    (reason : Agent.RemoveReason) (h : OfSession server sess.ident k g) :
    ∃ r, Agent.readRemoval server (removalJson sess reason) = .ok r ∧ r.key = k ∧ r.sessionId = g.sessionId ∧
      r.peerIp = g.ip ∧ r.reason = reason := by
  cases hp : Agent.validatePeerIp server (.str sess.ip) with
  | error e =>
    have hip := h.ip
    rw [show sess.ident.ip = sess.ip from rfl, hp] at hip
    cases hip
  | ok peerIp =>
    have hip := h.ip
    rw [show sess.ident.ip = sess.ip from rfl, hp] at hip
    have hkey : Agent.validatePublicKey (.str sess.key) = .ok k := by
      rw [show sess.key = k.1 from h.key.symm]
      exact validatePublicKey_val k
    refine ⟨⟨k, peerIp.1, g.sessionId, reason⟩, ?_, rfl, rfl, Except.ok.inj hip, rfl⟩
    have hread : Agent.readRemoval server (removalJson sess reason) = (do
        let key ← Agent.validatePublicKey (.str sess.key)
        let peerIp ← Agent.validatePeerIp server (.str sess.ip)
        let sessionId ← Agent.validateSessionId (.str sess.sessionId)
        let reason ← Agent.readReason (some (.str reason.name.toList))
        .ok { key, peerIp := peerIp.1, sessionId, reason }) := rfl
    rw [hread, hkey, hp, show Agent.validateSessionId (.str sess.sessionId) = .ok g.sessionId from h.valid,
      readReason_name]
    rfl

/-- The agent of the server takes the session with the id back: its removal arrives, not for the reason that it
    expired, and the `wg` calls go through. -/
structure TakesBack (w w' : System) (server id : Text) (n : ℕ) (reason : Agent.RemoveReason) (now : Agent.Time)
    (calls : Agent.RemoveCalls) : Prop where
  step : fleet.step w (.remove n reason now calls) = some w'
  removed : ∃ s, w.coordinator.log[n]? = some (.removed s server) ∧ s.sessionId = id
  reason_ne : reason ≠ .expired
  query : calls.query = none
  remove : calls.remove = .done

/-- No entry the agent controls as responder is of the session with the id. -/
abbrev Clean (id : Text) (w : System) (server : Text) : Prop :=
  (w.agents server).shared.Grants fun _ g => g.controller = .responder → g.sessionId ≠ id

/-- Then no entry of the session is left. -/
theorem clean_takesBack {used : List (Fin (2 ^ 128))} {w w' : System} {server id : Text} {n : ℕ}
    {reason : Agent.RemoveReason} {now : Agent.Time} {calls : Agent.RemoveCalls}
    (htells : Coordinator.Tells used w.coordinator)
    (hbacked : (w.agents server).shared.Grants (Backed w.coordinator.log server))
    (h : TakesBack w w' server id n reason now calls) : Clean id w' server := by
  obtain ⟨A, hA, hnames⟩ := htells
  obtain ⟨sess, hremoved, rfl⟩ := h.removed
  have hsess : A sess.ident := hnames.log _ (List.mem_of_getElem? hremoved)
  have hsame : w'.coordinator = w.coordinator := coordinator_still h.step rfl
  have hagent : w'.agents server = ((w.agents server).remove server (removalJson sess reason) now calls).2 := by
    have hstep : w.step (.remove n reason now calls) = some w' := h.step
    unfold System.step at hstep
    dsimp only at hstep
    rw [hremoved] at hstep
    obtain rfl := Option.some.inj hstep
    rw [set_agents, if_pos rfl]
  intro k s hs hc hid
  have hbacked' := backed_step h.step hbacked k s hs hc
  rw [hsame] at hbacked'
  obtain ⟨i, hi, his⟩ := ofSession_of_pushed hA hnames hbacked'
  obtain rfl : i = sess.ident := hA.inj i _ hi hsess (his.sessionId.symm.trans hid)
  obtain ⟨r, hr, rfl, hrid, hrip, hreason⟩ := readRemoval_ofSession reason his
  have hgone := wp_run (@gone_removeSection r now calls ((w.agents server).shared.slot r.key)
    (hreason ▸ h.reason_ne) h.query h.remove)
  rw [hagent, remove_shared hr, Agent.Shared.get?_put_states, if_pos rfl] at hs
  exact hgone s hs ⟨hrid.symm, hrip.symm⟩

/-! ### It does not come back -/

/-- The step does not bring the server an offer of the session from the part `log` of the log. -/
def NoLateOffer (log : List Coordinator.Event) (server id : Text) : Label → Prop
  | .offer n _ _ => ∀ c peer body, log[n]? = some (.offered c peer body) → peer.ip = server → body.sessionId ≠ id
  | _ => True

/-- The step does not draw the id. -/
def Label.Avoids (id : Text) (l : Label) : Prop :=
  ∀ l' u, l.ofCoordinator = some l' → l'.uuid = some u → uuidText u ≠ id

/-- The coordinator has nothing left of the session, and has said nothing of it since the log was `log`. -/
structure Over (log : List Coordinator.Event) (id : Text) (w : System) : Prop where
  drawn : w.coordinator.Names (fun i => ∃ u, i.sessionId = uuidText u) fun i => ∃ u, i.sessionId = uuidText u
  without : ∃ es, w.coordinator.log = log ++ es ∧ Coordinator.World.Without id { w.coordinator with log := es }

section Later
variable {log : List Coordinator.Event} {id server : Text} {w w' : System} {l : Label}

theorem over_step (hs : fleet.step w l = some w') (hl : l.Avoids id) (h : Over log id w) : Over log id w' := by
  cases hc : l.ofCoordinator with
  | none =>
    have hsame := coordinator_still hs hc
    exact ⟨hsame ▸ h.drawn, hsame ▸ h.without⟩
  | some l' =>
    cases l with
    | coordinator l =>
      obtain ⟨hstep, -⟩ := coordinator_step hs
      obtain ⟨es, hlog, hgone⟩ := h.without
      obtain ⟨es', hlog', hsteps⟩ := Coordinator.step_log hstep
      refine ⟨Coordinator.names_step (fun _ h => h) hstep ?_ h.drawn, es ++ es', ?_, ?_⟩
      · rintro i ⟨_, uuid, _, _, _, -, -, rfl⟩
        exact ⟨uuid, rfl⟩
      · rw [hlog', hlog, List.append_assoc]
      · refine Coordinator.names_step (fun _ _ => trivial) (hsteps es) ?_ hgone
        rintro i ⟨_, uuid, _, _, _, rfl, -, rfl⟩
        exact hl _ uuid rfl rfl
    | _ => cases hc

/-- An offer of the session is one from before. -/
theorem Over.offered_ne (h : Over log id w) {n : ℕ} {c : Coordinator.Call} {peer : Coordinator.ListedPeer}
    {body : Coordinator.OfferBody} (hlog : w.coordinator.log[n]? = some (.offered c peer body))
    (hearly : log[n]? = some (.offered c peer body) → body.sessionId ≠ id) : body.sessionId ≠ id := by
  obtain ⟨es, heq, hgone⟩ := h.without
  rw [heq] at hlog
  by_cases hn : n < log.length
  · rw [List.getElem?_append_left hn] at hlog
    exact hearly hlog
  · rw [List.getElem?_append_right (not_lt.mp hn)] at hlog
    obtain ⟨i, hi, his⟩ := hgone.log _ (List.mem_of_getElem? hlog)
    exact fun hid => hi (his.sessionId.symm.trans hid)

theorem clean_step (hs : fleet.step w l = some w') (hl : NoLateOffer log server id l) (ho : Over log id w)
    (h : Clean id w server) : Clean id w' server := by
  rcases agent_step hs server with heq | ⟨lab, hmeets, hstep⟩
  · unfold Clean
    rw [heq]
    exact h
  · refine Agent.grants_step hstep ?_ h
    cases hmeets with
    | own lab hown => exact brings_own hown
    | offer n c peer body env calls hlog hserver =>
      intro o hread _ hid
      have hne := ho.offered_ne hlog fun hearly => hl c peer body hearly hserver
      obtain ⟨i, ⟨u, hu⟩, his⟩ := ho.drawn.log _ (List.mem_of_getElem? hlog)
      obtain ⟨v, hv, hsession⟩ := (Agent.readOffer_fields hread).session
      obtain rfl : Json.str body.sessionId = v := Except.ok.inj hv
      rw [his.sessionId, hu] at hsession hne
      exact hne ((validateSessionId_uuidText hsession).symm.trans hid)
    | remove n s reason now calls hlog => trivial

end Later

theorem fresh_append {ls ls' : List Label} (h : Fresh (ls ++ ls')) : Fresh ls := by
  unfold Fresh coordinatorLabels Coordinator.uuids at h ⊢
  rw [List.filterMap_append, List.filterMap_append] at h
  exact h.of_append_left

/-- The UUIDs drawn before a point are not drawn after it. -/
theorem avoids_after {ls ls' : List Label} (hfresh : Fresh (ls ++ ls')) {w : System}
    (hrun : fleet.run .start ls = some w) : ∃ used, Coordinator.Tells used w.coordinator ∧
      ∀ u ∈ used, ∀ l ∈ ls', l.Avoids (uuidText u) := by
  have hsplit : coordinatorLabels (ls ++ ls') = coordinatorLabels ls ++ coordinatorLabels ls' := List.filterMap_append
  have hnodup : (Coordinator.uuids (coordinatorLabels ls ++ coordinatorLabels ls')).Nodup := by
    rw [← hsplit]
    exact hfresh
  obtain ⟨used, htells, hdrawn⟩ := Coordinator.drawn_before hnodup (coordinator_run hrun)
  refine ⟨used, htells, fun u hu l hl l' v hl' hv heq => hdrawn v ?_ (uuidText_injective heq ▸ hu)⟩
  exact List.mem_filterMap.mpr ⟨l', List.mem_filterMap.mpr ⟨l, hl, hl'⟩, hv⟩

/-- The coordinator closes the session while no call is inside COORDINATE_LOCK. -/
structure Closes (w w' : System) (l : Coordinator.Label) (sess : Coordinator.Session) : Prop where
  step : fleet.step w (.coordinator l) = some w'
  free : w.coordinator.locked = false
  closed : .closed sess ∈ w'.coordinator.log.drop w.coordinator.log.length

theorem over_closes {before : List Label} {l : Coordinator.Label} {w w' : System} {sess : Coordinator.Session}
    (hfresh : Fresh (before ++ [.coordinator l])) (hrun : fleet.run .start before = some w)
    (h : Closes w w' l sess) : Over w'.coordinator.log sess.sessionId w' := by
  obtain ⟨used, htells, havoid⟩ := avoids_after hfresh hrun
  obtain ⟨hstep, -⟩ := coordinator_step h.step
  obtain ⟨used', A, hA, hnames⟩ := tells_fleet hfresh
    (fleet.run_append.mpr ⟨w, hrun, fleet.run_cons.mpr ⟨w', h.step, rfl⟩⟩)
  have hdrawn : ∀ i, A i → ∃ u, i.sessionId = uuidText u := fun i hi => by
    obtain ⟨u, -, hu⟩ := hA.drawn i hi
    exact ⟨u, hu⟩
  refine ⟨hnames.mono hdrawn hdrawn, [], (List.append_nil _).symm, ?_⟩
  refine Coordinator.without_step htells h.free (fun u hu hmem => ?_) hstep h.closed
  exact havoid u hmem _ (List.mem_singleton.mpr rfl) l u rfl hu rfl

/-- A session that was closed and taken back from a server stays away from it. Let the coordinator close it while no
    call is inside COORDINATE_LOCK, let the removal be handled at the server, and let no offer the coordinator made
    before the closing arrive there after the removal: then whatever the clients, the coordinator, the network and
    the agents do in between and afterwards, no entry the agent controls as responder has the id of the session. -/
theorem close_final {before between after : List Label} {l : Coordinator.Label} {w₀ w₁ w₂ w₃ w : System}
    {sess : Coordinator.Session} {server : Text} {n : ℕ} {reason : Agent.RemoveReason} {now : Agent.Time}
    {calls : Agent.RemoveCalls}
    (hfresh : Fresh (before ++ .coordinator l :: (between ++ .remove n reason now calls :: after)))
    (hbefore : fleet.run .start before = some w₀) (hcloses : Closes w₀ w₁ l sess)
    (hbetween : fleet.run w₁ between = some w₂) (htakes : TakesBack w₂ w₃ server sess.sessionId n reason now calls)
    (hafter : fleet.run w₃ after = some w)
    (hlate : ∀ lab ∈ after, NoLateOffer w₁.coordinator.log server sess.sessionId lab) :
    ∀ k s, (w.agents server).shared.states.get? k = some s → s.controller = .responder →
      s.sessionId ≠ sess.sessionId := by
  have hfresh₁ : Fresh ((before ++ [.coordinator l]) ++ (between ++ .remove n reason now calls :: after)) := by
    rwa [List.append_assoc, List.singleton_append]
  have hrun₁ : fleet.run .start (before ++ [.coordinator l]) = some w₁ :=
    fleet.run_append.mpr ⟨w₀, hbefore, fleet.run_cons.mpr ⟨w₁, hcloses.step, rfl⟩⟩
  have hover := over_closes (fresh_append hfresh₁) hbefore hcloses
  -- the id was drawn before, so it is not drawn again
  obtain ⟨used, htells, havoid⟩ := avoids_after hfresh₁ hrun₁
  obtain ⟨A, hA, hnames⟩ := htells
  obtain ⟨u, hu, hid⟩ := hA.drawn _ (hnames.log _ (List.mem_of_mem_drop hcloses.closed))
  have hid : sess.sessionId = uuidText u := hid
  rw [hid] at hover hlate ⊢
  have hover₂ : Over w₁.coordinator.log (uuidText u) w₂ :=
    fleet.run_invariant (I := Over w₁.coordinator.log (uuidText u)) (fun _ _ _ hl h hs => over_step hs hl h) hover
      (fleet.along_of_mem (P := Label.Avoids (uuidText u)) fun lab hlab =>
        havoid u hu lab (List.mem_append_left _ hlab)) hbetween
  have hover₃ : Over w₁.coordinator.log (uuidText u) w₃ := by
    refine over_step htakes.step (havoid u hu _ ?_) hover₂
    exact List.mem_append_right _ List.mem_cons_self
  have hrun₂ : fleet.run .start ((before ++ [.coordinator l]) ++ between) = some w₂ :=
    fleet.run_append.mpr ⟨w₁, hrun₁, hbetween⟩
  have hfresh₂ : Fresh ((before ++ [.coordinator l]) ++ between) := by
    rw [← List.append_assoc] at hfresh₁
    exact fresh_append hfresh₁
  obtain ⟨used₂, htells₂⟩ := tells_fleet hfresh₂ hrun₂
  have hclean : Clean (uuidText u) w₃ server := hid ▸ clean_takesBack htells₂ (backed_run hrun₂ server) htakes
  have hend := fleet.run_invariant
    (I := fun w => Over w₁.coordinator.log (uuidText u) w ∧ Clean (uuidText u) w server)
    (fun _ _ _ hl h hs => ⟨over_step hs hl.1 h.1, clean_step hs hl.2 h.1 h.2⟩) ⟨hover₃, hclean⟩
    (fleet.along_of_mem (P := fun lab => lab.Avoids (uuidText u) ∧
      NoLateOffer w₁.coordinator.log server (uuidText u) lab) fun lab hlab =>
        ⟨havoid u hu lab (List.mem_append_right _ (List.mem_cons_of_mem _ hlab)), hlate lab hlab⟩) hafter
  exact hend.2

/-! ### A client leaves and comes back -/

/-- Both servers take the offer, the answers are recorded, and the request to disconnect is read. -/
def beforeLeaving : List Label :=
  syncLabels 0 1 (Nat.succPNat 0) ++ [arrival 0, arrival 1] ++
    ([.record (.accepted (.obj [("ok".toList, .bool true)])) ((100 : ℕ)),
      .record (.accepted (.obj [("ok".toList, .bool true)])) ((100 : ℕ)), .close, .publish ((100 : ℕ))] :
        List Coordinator.Act).map (fun a => .coordinator (.act 0 a)) ++
    [.coordinator (.request 1 .disconnect .null listed keyedClient.ip)]

/-- The registry is read and the first server is told. -/
def telling : List Label :=
  ([.readRegistry (.lines [Coordinator.homeServer.ip, otherServer.ip]), .remove (.failed []) 101] :
    List Coordinator.Act).map fun a => .coordinator (.act 1 a)

/-- The client syncs again, and its new offer arrives. -/
def comingBack : List Label := syncLabels 2 2 (Nat.succPNat 1) ++ [arrival 5]

/-- The session that is taken back by the event, at which server. -/
def removal : Coordinator.Event → Option (Text × Text)
  | .removed s server => some (server, s.sessionId)
  | _ => none

theorem removal_eq {log : List Coordinator.Event} {n : ℕ} {server id : Text}
    (h : log[n]?.bind removal = some (server, id)) :
    ∃ s, log[n]? = some (.removed s server) ∧ s.sessionId = id := by
  obtain ⟨e, he, hr⟩ := Option.bind_eq_some_iff.mp h
  cases e with
  | removed s address =>
    obtain ⟨rfl, rfl⟩ := Prod.mk.inj (Option.some.inj hr)
    exact ⟨s, he, rfl⟩
  | _ => cases hr

/-- The first server serves the client again, in its new session only. -/
theorem close_final_comingBack : ∃ (w : System) (s : Agent.PeerState),
    fleet.run .start (beforeLeaving ++ .coordinator (.act 1 (.leave .missing)) ::
      (telling ++ .remove 4 .disconnect 101 .succeed :: comingBack)) = some w ∧
    (w.agents Coordinator.homeServer.ip).shared.states.get? Agent.zeroKey = some s ∧ s.sessionId = uuidText 2 ∧
      s.sessionId ≠ uuidText 1 := by
  have hsome : (fleet.run .start beforeLeaving).any (fun w₀ : System => !w₀.coordinator.locked &&
      (fleet.step w₀ (.coordinator (.act 1 (.leave .missing)))).any fun w₁ : System =>
        (((w₁.coordinator.log.drop w₀.coordinator.log.length).filterMap Coordinator.Event.closes).any fun s =>
          decide (s.sessionId = uuidText 1)) && decide (w₁.coordinator.log.length ≤ 5) &&
        (fleet.run w₁ telling).any fun w₂ : System =>
          decide (w₂.coordinator.log[4]?.bind removal = some (Coordinator.homeServer.ip, uuidText 1)) &&
          (fleet.step w₂ (.remove 4 .disconnect 101 .succeed)).any fun w₃ : System =>
            (fleet.run w₃ comingBack).any fun w : System => serves w Coordinator.homeServer.ip (uuidText 2)) =
      true := by decide +kernel
  obtain ⟨w₀, hbefore, h₀⟩ := (Option.any_eq_true _ _).mp hsome
  rw [Bool.and_eq_true, Bool.not_eq_true'] at h₀
  obtain ⟨w₁, hclose, h₁⟩ := (Option.any_eq_true _ _).mp h₀.2
  rw [Bool.and_eq_true, Bool.and_eq_true] at h₁
  obtain ⟨sess, hsess, hid⟩ := List.any_eq_true.mp h₁.1.1
  obtain ⟨e, he, hcloses⟩ := List.mem_filterMap.mp hsess
  obtain ⟨w₂, hbetween, h₂⟩ := (Option.any_eq_true _ _).mp h₁.2
  rw [Bool.and_eq_true] at h₂
  obtain ⟨w₃, hremove, h₃⟩ := (Option.any_eq_true _ _).mp h₂.2
  obtain ⟨w, hafter, hserves⟩ := (Option.any_eq_true _ _).mp h₃
  obtain ⟨s, hs, hc, hnew⟩ := serves_spec hserves
  have hid : sess.sessionId = uuidText 1 := of_decide_eq_true hid
  have hfresh : Fresh (beforeLeaving ++ .coordinator (.act 1 (.leave .missing)) ::
      (telling ++ .remove 4 .disconnect 101 .succeed :: comingBack)) := by
    unfold Fresh
    decide +kernel
  -- what arrives afterwards was sent after the closing
  have hlate : ∀ lab ∈ comingBack, NoLateOffer w₁.coordinator.log Coordinator.homeServer.ip sess.sessionId lab := by
    intro lab hlab
    rcases List.mem_append.mp hlab with hlab | hlab
    · obtain ⟨l, rfl⟩ := coordinator_of_mem_syncLabels hlab
      trivial
    · obtain rfl := List.mem_singleton.mp hlab
      intro c peer body hlog
      rw [List.getElem?_eq_none (of_decide_eq_true h₁.1.2)] at hlog
      cases hlog
  have htakes : TakesBack w₂ w₃ Coordinator.homeServer.ip sess.sessionId 4 .disconnect 101 .succeed :=
    ⟨hremove, removal_eq (hid ▸ of_decide_eq_true h₂.1), by decide, rfl, rfl⟩
  have hfinal := close_final hfresh hbefore ⟨hclose, h₀.1, Coordinator.closes_eq hcloses ▸ he⟩ hbetween htakes hafter
    hlate Agent.zeroKey s hs hc
  refine ⟨w, s, ?_, hs, hnew, hid ▸ hfinal⟩
  exact fleet.run_append.mpr ⟨w₀, hbefore, fleet.run_cons.mpr ⟨w₁, hclose,
    fleet.run_append.mpr ⟨w₂, hbetween, fleet.run_cons.mpr ⟨w₃, hremove, hafter⟩⟩⟩⟩

end Fleet
