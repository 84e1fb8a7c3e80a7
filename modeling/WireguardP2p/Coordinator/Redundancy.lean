import WireguardP2p.Coordinator.Provenance

/-! An offer that is not pushed would have told the server nothing new. The fingerprint joins eight
    fields with `|`; only one of them, the printed candidates, may contain the mark itself, so the
    fields can be read back, and the payload is a function of them and of the session. -/

namespace Coordinator
open Ipaddress Python Net Candidates

/-! ### Texts joined with a mark -/

section Marks
variable {α : Type} {mark : α}

/-- What stands before the first mark. -/
theorem append_mark_inj : ∀ {a b : List α} {r r' : List α}, mark ∉ a → mark ∉ b →
    a ++ mark :: r = b ++ mark :: r' → a = b ∧ r = r'
  | [], [], r, r', _, _, h => ⟨rfl, (List.cons.inj h).2⟩
  | [], y :: b, r, r', _, hb, h => absurd ((List.cons.inj h).1 ▸ List.mem_cons_self) hb
  | x :: a, [], r, r', ha, _, h => absurd ((List.cons.inj h).1 ▸ List.mem_cons_self) ha
  | x :: a, y :: b, r, r', ha, hb, h => by
    obtain ⟨rfl, htail⟩ := List.cons.inj h
    obtain ⟨rfl, hr⟩ := append_mark_inj (fun hm => ha (List.mem_cons_of_mem x hm))
      (fun hm => hb (List.mem_cons_of_mem x hm)) htail
    exact ⟨rfl, hr⟩

/-- What stands behind the last mark. -/
theorem mark_append_inj {a b r r' : List α} (hr : mark ∉ r) (hr' : mark ∉ r')
    (h : a ++ mark :: r = b ++ mark :: r') : a = b ∧ r = r' := by
  have hreverse : r.reverse ++ mark :: a.reverse = r'.reverse ++ mark :: b.reverse := by
    simpa using congrArg List.reverse h
  obtain ⟨hrr, hab⟩ := append_mark_inj (by simpa using hr) (by simpa using hr') hreverse
  exact ⟨List.reverse_injective hab, List.reverse_injective hrr⟩

end Marks

/-! ### Printed candidates -/

theorem sortKeys_toJson (c : Candidate) : c.toJson.sortKeys =
    .obj [("endpoint".toList, .str c.endpoint), ("family".toList, .str c.family.name.toList),
      ("priority".toList, .int c.priority), ("type".toList, .str c.type.name.toList),
      ("verified".toList, .bool c.verified)] := by
  simp [Candidate.toJson, Json.sortKeys, Json.sortFields, List.mergeSort, List.MergeSort.Internal.splitInTwo,
    Json.keyLe]

theorem familyName_injective {f g : Family} (h : f.name.toList = g.name.toList) : f = g := by
  cases f <;> cases g <;> first | rfl | exact absurd h (by decide)

theorem sortKeys_toJson_injective {c d : Candidate} (h : c.toJson.sortKeys = d.toJson.sortKeys) : c = d := by
  rw [sortKeys_toJson, sortKeys_toJson] at h
  simp only [Json.obj.injEq, List.cons.injEq, Prod.mk.injEq, Json.str.injEq, Json.int.injEq, Json.bool.injEq,
    true_and, and_true] at h
  obtain ⟨hendpoint, hfamily, hpriority, htype, hverified⟩ := h
  have htype' := CandidateType.name_injective htype
  have hfamily' := familyName_injective hfamily
  cases c
  cases d
  simp only at hendpoint hfamily' hpriority htype' hverified
  subst hendpoint hfamily' hpriority htype' hverified
  rfl

theorem printable_toJson {c : Candidate} (h : Declared c) : c.toJson.Printable := by
  have hdigits : (Numeral.text 10 c.priority.natAbs).length ≤ 4300 := by
    have hsmall : c.priority.natAbs < 10 ^ 4 := by
      obtain ⟨hlow, hhigh⟩ := h.priority_range
      omega
    have hlen := (Numeral.length_text_le (by norm_num) (by norm_num)).mpr hsmall
    omega
  have hkeys : (["type", "family", "endpoint", "priority", "verified"].map String.toList).Nodup := by decide
  exact ⟨hkeys, trivial, trivial, trivial, hdigits, trivial, trivial⟩

theorem printableItems_map : ∀ {cs : List Candidate}, (∀ c ∈ cs, Declared c) →
    Json.PrintableItems (cs.map Candidate.toJson)
  | [], _ => trivial
  | c :: _, h => ⟨printable_toJson (h c List.mem_cons_self), printableItems_map fun d hd =>
      h d (List.mem_cons_of_mem c hd)⟩

theorem sortItems_map_injective : ∀ {cs ds : List Candidate},
    Json.sortItems (cs.map Candidate.toJson) = Json.sortItems (ds.map Candidate.toJson) → cs = ds
  | [], [], _ => rfl
  | [], _ :: _, h => by cases h
  | _ :: _, [], h => by cases h
  | c :: cs, d :: ds, h => by
    obtain ⟨hhead, htail⟩ := List.cons.inj h
    rw [sortKeys_toJson_injective hhead, sortItems_map_injective htail]

/-- Declared candidates print to different texts. -/
theorem dumps_injective {cs ds : List Candidate} (hc : ∀ c ∈ cs, Declared c) (hd : ∀ c ∈ ds, Declared c)
    (h : (Json.arr (cs.map Candidate.toJson)).dumps = (Json.arr (ds.map Candidate.toJson)).dumps) : cs = ds := by
  have hloads := Json.loads_dumps (v := .arr (cs.map Candidate.toJson)) (printableItems_map hc)
  rw [h, Json.loads_dumps (v := .arr (ds.map Candidate.toJson)) (printableItems_map hd)] at hloads
  exact (sortItems_map_injective (Json.arr.inj (Option.some.inj hloads))).symm

/-! ### Fingerprints -/

/-- The mark between the fields of a fingerprint. -/
def Unmarked (t : Text) : Prop := '|' ∉ t

/-- The key and the endpoint of a peer are free of the mark. -/
def ListedPeer.Unmarked (p : ListedPeer) : Prop := Coordinator.Unmarked p.key ∧ Coordinator.Unmarked p.endpoint

/-- The fields of a call are free of the mark, and its candidates are declared ones. -/
structure Call.Plain (c : Call) : Prop where
  client : c.client.Unmarked
  instanceId : Unmarked c.client.instanceId
  lanEndpoint : Unmarked c.lanEndpoint
  candidates : ∀ x ∈ c.candidates, Declared x
  peers : ∀ p ∈ c.peers, p.Unmarked

/-- What a fingerprint is made of, but for the session. -/
structure SameTerms (c c' : Call) (server server' : ListedPeer) : Prop where
  key : c.client.key = c'.client.key
  instanceId : c.client.instanceId = c'.client.instanceId
  endpoint : c.client.endpoint = c'.client.endpoint
  lanEndpoint : c.lanEndpoint = c'.lanEndpoint
  candidates : c.candidates = c'.candidates
  serverKey : server.key = server'.key
  serverEndpoint : server.endpoint = server'.endpoint

theorem offerFingerprint_eq (client : Peer) (lanEndpoint : Text) (cs : List Candidate) (server : Peer)
    (sessionId : Text) : offerFingerprint client lanEndpoint cs server sessionId =
      sessionId ++ '|' :: (client.key ++ '|' :: (client.instanceId ++ '|' :: (client.endpoint ++ '|' ::
        (lanEndpoint ++ '|' :: ((Json.arr (cs.map Candidate.toJson)).dumps ++ '|' ::
          (server.key ++ '|' :: server.endpoint)))))) := by
  simp [offerFingerprint, List.intercalate, List.intersperse]

/-- Under one session id, a fingerprint tells everything it is made of. -/
theorem sameTerms_of_fingerprint {c c' : Call} (hc : c.Plain) (hc' : c'.Plain) {server server' : ListedPeer}
    (hserver : server.Unmarked) (hserver' : server'.Unmarked) {sessionId : Text}
    (h : (c.job sessionId server).fingerprint = (c'.job sessionId server').fingerprint) :
    SameTerms c c' server server' := by
  have hjoined := h
  simp only [Call.job, offerFingerprint_eq] at hjoined
  have h₁ := (List.cons.inj (List.append_cancel_left hjoined)).2
  obtain ⟨hkey, h₂⟩ := append_mark_inj hc.client.1 hc'.client.1 h₁
  obtain ⟨hinstance, h₃⟩ := append_mark_inj hc.instanceId hc'.instanceId h₂
  obtain ⟨hendpoint, h₄⟩ := append_mark_inj hc.client.2 hc'.client.2 h₃
  obtain ⟨hlan, h₅⟩ := append_mark_inj hc.lanEndpoint hc'.lanEndpoint h₄
  -- the printed candidates may contain the mark, so the rest is read from the right
  have h₆ : ((Json.arr (c.candidates.map Candidate.toJson)).dumps ++ '|' :: server.key) ++ '|' :: server.endpoint =
      ((Json.arr (c'.candidates.map Candidate.toJson)).dumps ++ '|' :: server'.key) ++ '|' :: server'.endpoint := by
    simpa using h₅
  obtain ⟨h₇, hserverEndpoint⟩ := mark_append_inj hserver.2 hserver'.2 h₆
  obtain ⟨hdumps, hserverKey⟩ := mark_append_inj hserver.1 hserver'.1 h₇
  exact ⟨hkey, hinstance, hendpoint, hlan, dumps_injective hc.candidates hc'.candidates hdumps, hserverKey,
    hserverEndpoint⟩

/-- The payload is a function of the terms and of the session, up to the lease. -/
theorem payload_of_sameTerms {c c' : Call} {server server' : ListedPeer} (h : SameTerms c c' server server')
    (hip : c.client.ip = c'.client.ip) {s s' : Session} (hid : s.sessionId = s'.sessionId)
    (hstarted : s.sessionStartedNs = s'.sessionStartedNs) {now' : ℤ} {body : OfferBody}
    (hbody : c'.payload s' server' now' = .ok body) (now : ℤ) :
    c.payload s server now = .ok { body with leaseExpires := now + 180 } := by
  obtain ⟨hkey, hinstance, hendpoint, hlan, hcandidates, -, hserver⟩ := h
  have hclient : c.client.toPeer = c'.client.toPeer := by
    cases hc : c.client.toPeer
    cases hc' : c'.client.toPeer
    simp only [hc, hc'] at hkey hinstance hendpoint hip
    subst hkey hinstance hendpoint hip
    rfl
  have hnat : sameNat server.toPeer c'.client.toPeer = sameNat server'.toPeer c'.client.toPeer := by
    unfold sameNat
    rw [hserver]
  unfold Call.payload pushOffer at hbody ⊢
  rw [hclient, hlan, hcandidates, hid, hstarted, hnat]
  dsimp only at hbody ⊢
  split_ifs at hbody ⊢ <;>
  · cases hbody
    rfl

/-! ### What the sessions record -/

/-- The payload is what the call sends the server under the session. -/
def Sends (c : Call) (s : Session) (server : ListedPeer) (fingerprint : Text) (body : OfferBody) : Prop :=
  c.Plain ∧ server.Unmarked ∧ fingerprint = (c.job s.sessionId server).fingerprint ∧
    ∃ now, c.payload s server now = .ok body

/-- A session records with each fingerprint the payload that was accepted. -/
structure Records (ip : Text) (s : Session) : Prop where
  named : s.sessionId ≠ []
  started : 0 < s.sessionStartedNs
  accepted : ∀ serverIp fingerprint, s.fingerprints.get? serverIp = some fingerprint →
    ∃ body c server, s.accepted.get? serverIp = some body ∧ c.client.ip = ip ∧ Sends c s server fingerprint body

/-- The session that is in force has the identity of the one the call goes on with. -/
def InForce (st : Store) (c : Call) (s : Session) : Prop :=
  ∀ t, st.sessions.get? c.client.ip = some t → t.sessionId = s.sessionId → t.sessionStartedNs = s.sessionStartedNs

/-- The call a thread goes on with is plain, and its session in force. -/
def Rest.Sound (st : Store) : Rest → Prop
  | .offers _ c s => c.Plain ∧ InForce st c s
  | .nothing => True

/-- What is known of a thread: its peers are free of the mark, its call is plain, and what it sent and what
    was accepted are what the call sends. -/
def Thread.Sound (st : Store) : Thread → Prop
  | .received r => r.source.Unmarked ∧ ∀ p ∈ r.peers, p.Unmarked
  | .addressed r _ instanceId => (r.source.Unmarked ∧ ∀ p ∈ r.peers, p.Unmarked) ∧ Coordinator.Unmarked instanceId
  | .announced r a => (r.source.Unmarked ∧ ∀ p ∈ r.peers, p.Unmarked) ∧ Coordinator.Unmarked a.instanceId ∧
      ∀ c ∈ a.advertised, Declared c
  | .waiting _ c => c.Plain
  | .removing _ _ rest => rest.Sound st
  | .offering _ c s queued sent results => c.Plain ∧ InForce st c s ∧
      (∀ j ∈ queued, ∃ server ∈ c.servers, j = c.job s.sessionId server) ∧
      (∀ p ∈ sent, ∃ server ∈ c.servers, p.1 = c.job s.sessionId server ∧ ∃ now, p.2 = c.payload s server now) ∧
      ∀ serverIp r, results.get? serverIp = some r → ∃ server, Sends c s server r.fingerprint r.payload
  | _ => True

theorem Sends.congr {c : Call} {s t : Session} {server : ListedPeer} {fingerprint : Text} {body : OfferBody}
    (h : Sends c s server fingerprint body) (hid : t.sessionId = s.sessionId)
    (hstarted : t.sessionStartedNs = s.sessionStartedNs) : Sends c t server fingerprint body := by
  obtain ⟨hplain, hserver, hfingerprint, now, hpayload⟩ := h
  refine ⟨hplain, hserver, hid ▸ hfingerprint, now, ?_⟩
  unfold Call.payload at hpayload ⊢
  rw [hid, hstarted]
  exact hpayload

/-- Every session of the new table goes on from one of the old, with its identity. -/
def Continues (st st' : Store) : Prop :=
  ∀ ip t', st'.sessions.get? ip = some t' → ∃ t, st.sessions.get? ip = some t ∧ t.sessionId = t'.sessionId ∧
    t.sessionStartedNs = t'.sessionStartedNs

theorem continues_of_sub {st st' : Store}
    (h : ∀ ip s, st'.sessions.get? ip = some s → st.sessions.get? ip = some s) : Continues st st' :=
  fun ip t' ht' => ⟨t', h ip t' ht', rfl, rfl⟩

theorem continues_of_eq {st st' : Store} (h : st'.sessions = st.sessions) : Continues st st' :=
  continues_of_sub fun _ _ hs => h ▸ hs

theorem InForce.continue {st st' : Store} {c : Call} {s : Session} (h : InForce st c s) (hst : Continues st st') :
    InForce st' c s := by
  intro t' ht' hid
  obtain ⟨t, ht, hid', hstarted⟩ := hst _ t' ht'
  exact hstarted.symm.trans (h t ht (hid'.trans hid))

theorem Thread.Sound.continue {st st' : Store} {t : Thread} (h : t.Sound st) (hst : Continues st st') :
    t.Sound st' := by
  cases t with
  | removing todo targets rest =>
    cases rest with
    | offers r c s => exact ⟨h.1, h.2.continue hst⟩
    | nothing => trivial
  | offering r c s queued sent results => exact ⟨h.1, h.2.1.continue hst, h.2.2⟩
  | _ => exact h

/-- A thread outside the lock knows nothing of the tables. -/
theorem Thread.Sound.of_free {st : Store} {t : Thread} (h : t.Sound st) (hfree : t.holds = false) (st' : Store) :
    t.Sound st' := by
  cases t with
  | removing todo targets rest =>
    cases rest with
    | offers r c s => cases hfree
    | nothing => trivial
  | offering r c s queued sent results => cases hfree
  | _ => exact h

/-- Every step keeps the records and the threads sound. -/
abbrev KeepsSound (locked : Bool) (st : Store) (m : Moved) : Prop :=
  Keeps (SessionsAre Records) Thread.Sound (fun _ => True) locked st m

theorem keepsSound {locked : Bool} {st : Store} {m : Moved} (hst : Continues st m.store)
    (hstore : SessionsAre Records m.store) (hthread : ∀ t, m.thread = some t → t.Sound m.store) :
    KeepsSound locked st m where
  store := hstore
  thread := hthread
  events := fun _ _ => trivial
  others := fun _ h _ => h.continue hst

/-! ### The sections -/

theorem unmarked_hex (u : Fin (2 ^ 128)) : Unmarked (uuidHex u) := by
  unfold Unmarked uuidHex
  rw [List.mem_append]
  rintro (h | h)
  · exact absurd (List.eq_of_mem_replicate h) (by decide)
  · exact Numeral.not_mem_text (by norm_num) (by norm_num) _ (by decide) h

theorem unmarked_instance {data : Json} {instanceId : Text} (h : announcedInstance data = .ok instanceId) :
    Unmarked instanceId := by
  unfold announcedInstance at h
  cases hget : data.get "instance_id" with
  | error e =>
    rw [hget] at h
    cases h
  | ok value =>
    rw [hget] at h
    have hvalid : validateInstanceId (some (value.getD (.str []))) = .ok instanceId := h
    unfold validateInstanceId at hvalid
    split at hvalid
    · cases hvalid
      exact List.not_mem_nil
    · cases hvalid
      exact List.not_mem_nil
    · cases hvalid
      exact List.not_mem_nil
    · split at hvalid
      · rename_i hex hhex
        cases hvalid
        obtain ⟨u, -, rfl⟩ := Option.map_eq_some_iff.mp hhex
        exact unmarked_hex u
      · cases hvalid

theorem Announcement.unmarked (a : Announcement) : Unmarked a.lanEndpoint := by
  obtain ⟨ip, hip⟩ := IpAddress.version_eq_four.mp a.lan_private.1
  unfold Unmarked Announcement.lanEndpoint
  rw [hip, List.mem_append, List.mem_cons]
  rintro (h | h | h)
  · exact not_mem_ipv4Text (by decide) (by decide) ip h
  · exact absurd h (by decide)
  · exact Numeral.not_mem_text (by norm_num) (by norm_num) _ (by decide) h

theorem plain_announcedCall {source : ListedPeer} {peers : List ListedPeer} {a : Announced} {now : ℚ}
    (hsource : source.Unmarked) (hpeers : ∀ p ∈ peers, p.Unmarked) (hinstance : Unmarked a.instanceId)
    (hadvertised : ∀ c ∈ a.advertised, Declared c) : (announcedCall source peers a now).Plain where
  client := hsource
  instanceId := hinstance
  lanEndpoint := a.announcement.unmarked
  candidates := hadvertised
  peers := hpeers

theorem Call.Plain.server {c : Call} (h : c.Plain) {server : ListedPeer} (hs : server ∈ c.servers) :
    server.Unmarked := h.peers server (List.mem_of_mem_filter hs)

/-- The session a call goes on with records what it recorded, and is the one in force. -/
theorem records_openSession {c : Call} {uuid : Fin (2 ^ 128)} {timeNs : ℕ+} {st : Store}
    (h : SessionsAre Records st) : Records c.client.ip (openSession c uuid timeNs st).1.session := by
  have hnew : Records c.client.ip (newSession c uuid timeNs) :=
    { named := uuidText_ne_nil uuid
      started := timeNs.pos
      accepted := fun serverIp fingerprint hf => by cases hf }
  have htouch : ∀ s, Records c.client.ip s → Records c.client.ip (s.touch c uuid timeNs) := by
    intro s hs
    have hid : (s.touch c uuid timeNs).sessionId = s.sessionId := if_neg hs.named
    have hstarted : (s.touch c uuid timeNs).sessionStartedNs = s.sessionStartedNs := if_neg hs.started.ne'
    refine ⟨hid ▸ hs.named, hstarted ▸ hs.started, fun serverIp fingerprint hf => ?_⟩
    obtain ⟨body, c', server, hbody, hip, hsends⟩ := hs.accepted serverIp fingerprint hf
    exact ⟨body, c', server, hbody, hip, hsends.congr hid hstarted⟩
  unfold openSession
  dsimp only
  split
  · rename_i s hs
    split_ifs
    · exact hnew
    · exact htouch s (h _ s hs)
  · exact hnew

theorem records_closeCall {c : Call} {s : Session} {results : Dict Text Reply} {st : Store}
    (hst : SessionsAre Records st) (hforce : InForce st c s)
    (hresults : ∀ serverIp r, results.get? serverIp = some r → ∃ server, Sends c s server r.fingerprint r.payload) :
    (closeCall c s.sessionId results).wp (fun _ t => SessionsAre Records t ∧ Continues st t)
      (fun _ t => SessionsAre Records t ∧ Continues st t) st := by
  have hkeeps := @keeps_closeCall_sessions
    (fun ip t => Records ip t ∧ ∃ u, st.sessions.get? ip = some u ∧ u.sessionId = t.sessionId ∧
      u.sessionStartedNs = t.sessionStartedNs) c s.sessionId results
    (fun t ht => ⟨⟨ht.1.named, ht.1.started, ht.1.accepted⟩, ht.2⟩) ?_
  · refine Raising.wp_mono (hkeeps st fun ip t ht => ⟨hst ip t ht, t, ht, rfl, rfl⟩)
      (fun _ t ht => ⟨fun ip u hu => (ht ip u hu).1, fun ip u hu => (ht ip u hu).2⟩)
      fun _ t ht => ⟨fun ip u hu => (ht ip u hu).1, fun ip u hu => (ht ip u hu).2⟩
  · rintro t serverIp r hr hid ⟨hrecords, u, hu, hid', hstarted⟩
    refine ⟨⟨hrecords.named, hrecords.started, fun j fingerprint hf => ?_⟩, u, hu, hid', hstarted⟩
    have hidentity : t.sessionStartedNs = s.sessionStartedNs :=
      hstarted.symm.trans (hforce u hu (hid'.trans hid))
    unfold Session.record at hf ⊢
    dsimp only at hf ⊢
    rw [Dict.get?_set] at hf
    rw [Dict.get?_set]
    by_cases hj : j = serverIp
    · rw [if_pos hj] at hf
      rw [if_pos hj]
      obtain rfl := Option.some.inj hf
      obtain ⟨server, hsends⟩ := hresults serverIp r (Dict.get?_of_mem hr)
      exact ⟨r.payload, c, server, rfl, rfl, hsends.congr hid hidentity⟩
    · rw [if_neg hj] at hf
      rw [if_neg hj]
      obtain ⟨body, c', server, hbody, hip, hsends⟩ := hrecords.accepted j fingerprint hf
      exact ⟨body, c', server, hbody, hip, hsends.congr rfl rfl⟩

/-! ### The threads -/

theorem popSession_sub {ip : Text} {st st' : Store} (h : st'.sessions = st.sessions.erase ip) :
    ∀ j s, st'.sessions.get? j = some s → st.sessions.get? j = some s := by
  intro j s hs
  rw [h, Dict.get?_erase] at hs
  split_ifs at hs
  exact hs

/-- A section, before a thread that is sound. -/
theorem keepsSound_moved {α : Type} {p : Section α} {locked : Bool} {st : Store} {Q : α → Prop} {f : α → Thread}
    (h : p.wp (fun a t => (SessionsAre Records t ∧ Continues st t) ∧ Q a)
      (fun _ t => SessionsAre Records t ∧ Continues st t) st)
    (hf : ∀ a t, Q a → (f a).Sound t) : KeepsSound locked st (p.moved st f) := by
  rcases moved_spec f h with ⟨a, t, ⟨⟨hrecords, ht⟩, ha⟩, heq⟩ | ⟨e, t, ⟨hrecords, ht⟩, heq⟩
  · rw [heq]
    exact keepsSound ht hrecords fun u hu => Option.some.inj hu ▸ hf a t ha
  · rw [heq]
    exact keepsSound ht hrecords fun u hu => by cases hu

theorem announceAddress_instance (source : Text) (data : Json) (now : ℚ) (st : Store) :
    (announceAddress source data now).wp (fun p _ => Unmarked p.2) (fun _ _ => True) st := by
  unfold announceAddress
  cases validateAnnouncement data with
  | error e => trivial
  | ok a =>
    cases hinstance : announcedInstance data with
    | error e => trivial
    | ok instanceId => exact unmarked_instance hinstance

theorem announceCandidates_declared (source : Text) (data : Json) (a : Announcement) (now : ℚ) (st : Store) :
    (announceCandidates source data a now).wp (fun advertised _ => ∀ c ∈ advertised, Declared c) (fun _ _ => True)
      st := by
  unfold announceCandidates
  cases hcs : announcedCandidates data with
  | error e => trivial
  | ok cs => exact declared_advertise (declared_of_announced hcs)

theorem pending_jobs {c : Call} {s : Session} : ∀ j ∈ c.pending s, ∃ server ∈ c.servers, j = c.job s.sessionId server := by
  intro j hj
  obtain ⟨server, hserver, rfl⟩ := List.mem_map.mp (List.mem_of_mem_filter hj)
  exact ⟨server, hserver, rfl⟩

/-- The offers of a call, before the first is sent. -/
theorem sound_offering {st : Store} {r : Request} {c : Call} {s : Session} (hc : c.Plain) (hforce : InForce st c s) :
    (Thread.offering r c s (c.pending s) [] .empty).Sound st :=
  ⟨hc, hforce, pending_jobs, fun p hp => (by cases hp), fun serverIp r hr => (by cases hr)⟩

theorem sound_act {locked : Bool} {st : Store} {t : Thread} {a : Act} {m : Moved} (hst : SessionsAre Records st)
    (ht : t.Sound st) (hm : Moves locked st t a m) : KeepsSound locked st m := by
  have hquiet : ∀ {st' : Store} {u : Thread} {es : List Event}, st'.sessions = st.sessions → u.Sound st →
      KeepsSound locked st ⟨st', some u, es⟩ := fun heq hu =>
    keepsSound (continues_of_eq heq) (hst.congr heq) fun v hv => by
      obtain rfl := Option.some.inj hv
      exact hu.continue (continues_of_eq heq)
  have hdone : ∀ {st' : Store} {es : List Event}, st'.sessions = st.sessions → KeepsSound locked st ⟨st', none, es⟩ :=
    fun heq => keepsSound (continues_of_eq heq) (hst.congr heq) fun v hv => by cases hv
  cases hm with
  | address r now =>
    refine keepsSound_moved (Q := fun p => Unmarked p.2) ?_ fun p t hp => ⟨ht, hp⟩
    exact Raising.wp_mono (Raising.wp_and (sessions_announceAddress r.source.ip r.data now st)
      (announceAddress_instance r.source.ip r.data now st))
      (fun p t h => ⟨⟨hst.congr h.1, continues_of_eq h.1⟩, h.2⟩) fun e t h => ⟨hst.congr h.1, continues_of_eq h.1⟩
  | candidates r a instanceId now =>
    refine keepsSound_moved (Q := fun advertised => ∀ c ∈ advertised, Declared c) ?_
      fun advertised t h => ⟨ht.1, ht.2, h⟩
    exact Raising.wp_mono (Raising.wp_and (sessions_announceCandidates r.source.ip r.data a now st)
      (announceCandidates_declared r.source.ip r.data a now st))
      (fun _ t h => ⟨⟨hst.congr h.1, continues_of_eq h.1⟩, h.2⟩) fun e t h => ⟨hst.congr h.1, continues_of_eq h.1⟩
  | coordinate r a now hrole =>
    exact hquiet rfl (plain_announcedCall ht.1.1 ht.1.2 ht.2.1 ht.2.2)
  | skip r a now hrole => exact hquiet rfl trivial
  | opened r c uuid timeNs hfree =>
    have hsession := @records_openSession c uuid timeNs _ hst
    have hforce : InForce (openSession c uuid timeNs st).2 c (openSession c uuid timeNs st).1.session := by
      intro t ht' _
      have hset : (st.sessions.set c.client.ip (openSession c uuid timeNs st).1.session).get? c.client.ip = some t := ht'
      rw [Dict.get?_set, if_pos rfl] at hset
      rw [Option.some.inj hset]
    have hrecords : SessionsAre Records (openSession c uuid timeNs st).2 := by
      intro ip s hs
      have hset : (st.sessions.set c.client.ip (openSession c uuid timeNs st).1.session).get? ip = some s := hs
      rw [Dict.get?_set] at hset
      split_ifs at hset with hip
      · obtain rfl := Option.some.inj hset
        exact hip ▸ hsession
      · exact hst ip s hset
    refine ⟨?_, ?_, fun _ _ => trivial, fun u hu hnot => ?_⟩
    · unfold afterOpening
      split <;> exact hrecords
    · unfold afterOpening
      split
      · rintro u hu
        obtain rfl := Option.some.inj hu
        exact ⟨ht, hforce⟩
      · rintro u hu
        obtain rfl := Option.some.inj hu
        exact sound_offering ht hforce
    · exact hu.of_free (hnot hfree) _
  | unnamed s todo rest registry hid => exact hquiet rfl ht
  | targets s todo rest registry targets hid htargets => exact hquiet rfl ht
  | unreadable s todo rest registry e hid htargets => exact hdone rfl
  | remove s todo ip targets rest answer now =>
    exact hquiet (sessions_record ip now answer st) ht
  | removed s todo rest => exact hquiet rfl ht
  | goOn r c s => exact hquiet rfl (sound_offering ht.1 ht.2)
  | finish => exact hdone rfl
  | send r c s j queued sent results now =>
    obtain ⟨hc, hforce, hqueued, hsent, hresults⟩ := ht
    refine hquiet rfl ⟨hc, hforce, fun i hi => hqueued i (List.mem_cons_of_mem j hi), fun p hp => ?_, hresults⟩
    rcases List.mem_append.mp hp with hp | hp
    · exact hsent p hp
    · obtain rfl := List.mem_singleton.mp hp
      obtain ⟨server, hserver, rfl⟩ := hqueued j List.mem_cons_self
      exact ⟨server, hserver, rfl, now, rfl⟩
  | record r c s queued j payload sent results answer now =>
    obtain ⟨hc, hforce, hqueued, hsent, hresults⟩ := ht
    refine hquiet (sessions_record _ now _ st)
      ⟨hc, hforce, hqueued, fun p hp => hsent p (List.mem_cons_of_mem _ hp), fun serverIp reply hr => ?_⟩
    unfold takeReply at hr
    split at hr
    · rename_i body info
      rw [Dict.get?_set] at hr
      split_ifs at hr
      · obtain rfl := Option.some.inj hr
        obtain ⟨server, hserver, rfl, at', hpayload⟩ := hsent _ List.mem_cons_self
        exact ⟨server, hc, hc.server hserver, rfl, at', hpayload.symm⟩
      · exact hresults serverIp reply hr
    · exact hresults serverIp reply hr
  | close r c s results =>
    obtain ⟨hc, hforce, -, -, hresults⟩ := ht
    refine keepsSound_moved (Q := fun _ => True) ?_ fun _ _ _ => trivial
    exact Raising.wp_mono (records_closeCall hst hforce hresults) (fun _ _ h => ⟨h, trivial⟩) fun _ _ h => h
  | answer r now hpath => exact hdone rfl
  | publish r now hpath => exact hdone rfl
  | left ip registry o st' hrun =>
    have hpopped := Raising.wp_ok (popSession_spec ip registry st) hrun
    have hsub := popSession_sub hpopped
    exact keepsSound (continues_of_sub hsub) (hst.sub hsub) fun u hu => by
      obtain rfl := Option.some.inj hu
      trivial
  | died ip registry e st' hrun =>
    have hpopped := (Raising.wp_error (popSession_spec ip registry st) hrun).1
    have hsub := popSession_sub hpopped
    exact keepsSound (continues_of_sub hsub) (hst.sub hsub) fun u hu => by cases hu

/-- The peers a request reads are free of the mark. -/
def PeersUnmarked : Label → Prop
  | .request _ _ _ peers _ => ∀ p ∈ peers, p.Unmarked
  | _ => True

/-- Every step keeps the records and the threads sound. -/
theorem sound_parts : Parts (SessionsAre Records) Thread.Sound (fun _ => True) PeersUnmarked where
  act := sound_act
  start := by
    intro locked st i path data peers sourceIp hpeers hst
    refine keepsSound (continues_of_eq rfl) hst fun t ht => ?_
    unfold startThread at ht
    dsimp only at ht
    split at ht
    · cases ht
    · rename_i source hsource
      have hmem : source ∈ peers := List.mem_of_find?_eq_some hsource
      split_ifs at ht <;> cases ht
      · trivial
      · exact ⟨hpeers source hmem, hpeers⟩
  reap := by
    intro locked st now registry hst
    unfold reapMoved
    dsimp only
    split
    · rename_i closed st' hrun
      have hsub := Raising.wp_ok (reap_spec now registry st) hrun
      exact keepsSound (continues_of_sub hsub) (hst.sub hsub) fun t ht => by
        obtain rfl := Option.some.inj ht
        trivial
    · rename_i e st' hrun
      have hsub := (Raising.wp_error (reap_spec now registry st) hrun).1
      exact keepsSound (continues_of_sub hsub) (hst.sub hsub) fun t ht => by cases ht
  list := by
    intro locked st peers now hst
    exact keepsSound (continues_of_eq rfl) (hst.congr rfl) fun t ht => by cases ht

/-- Whenever a call opens or goes on with its session, the offer for a server is pushed, or it would carry,
    but for the lease, the payload whose acceptance by that server the session records. -/
theorem suppressed_redundant {ls : List Label} {w : World}
    (hpeers : coordinator.Along (fun _ => PeersUnmarked) .start ls) (hrun : coordinator.run .start ls = some w)
    {i : ℕ} {r : Request} {c : Call} (hthread : w.threads.get? i = some (.waiting r c)) (uuid : Fin (2 ^ 128))
    (timeNs : ℕ+) {server : ListedPeer} (hserver : server ∈ c.servers) :
    let s := (openSession c uuid timeNs w.store).1.session
    c.job s.sessionId server ∈ c.pending s ∨ ∃ body, s.accepted.get? server.ip = some body ∧
      ∀ now, c.payload s server now = .ok { body with leaseExpires := now + 180 } := by
  intro s
  have hfine := sound_parts.run (fun ip s hs => by simp [emptyStore] at hs) hpeers hrun
  have hplain : c.Plain := hfine.threads i _ hthread
  have hrecords : Records c.client.ip s := records_openSession hfine.store
  cases hdue : c.due s (c.job s.sessionId server) with
  | true => exact Or.inl (List.mem_filter.mpr ⟨List.mem_map_of_mem hserver, hdue⟩)
  | false =>
    have hfingerprint : s.fingerprints.get? server.ip = some (c.job s.sessionId server).fingerprint := by
      unfold Call.due at hdue
      rw [Bool.or_eq_false_iff, Bool.or_eq_false_iff, decide_eq_false_iff_not, not_not] at hdue
      exact hdue.1.2
    obtain ⟨body, c', server', hbody, hip, hplain', hserver', hsame, now', hpayload⟩ :=
      hrecords.accepted _ _ hfingerprint
    have hterms := sameTerms_of_fingerprint hplain hplain' (hplain.server hserver) hserver' hsame
    exact Or.inr ⟨body, hbody, fun now => payload_of_sameTerms hterms hip.symm rfl rfl hpayload now⟩

/-- The client syncs again after ten seconds, up to the lock. -/
def againRun : List Label :=
  syncRun ++ [.request 1 .sync lanBody [homeServer, homeClient] homeClient.ip] ++
    [.address 110, .candidates 110, .coordinate 110].map (.act 1)

/-- The call a thread waits with, if it is to offer. -/
def waitingCall : Thread → Option (Request × Call × ListedPeer)
  | .waiting r c => c.servers.head?.map fun server => (r, c, server)
  | _ => none

theorem againRun_unmarked : coordinator.Along (fun _ => PeersUnmarked) .start againRun := by
  have hpeers : ∀ p ∈ [homeServer, homeClient], '|' ∉ p.key ∧ '|' ∉ p.endpoint := by
    intro p hp
    simp only [List.mem_cons, List.not_mem_nil, or_false] at hp
    rcases hp with rfl | rfl
    · exact ⟨by decide, by decide⟩
    · exact ⟨by decide, by decide⟩
  refine coordinator.along_of_mem fun l hl => ?_
  simp only [againRun, syncRun, List.map_cons, List.map_nil, List.cons_append, List.nil_append, List.mem_cons,
    List.not_mem_nil, or_false] at hl
  rcases hl with rfl | rfl | rfl | rfl | rfl | rfl | rfl | rfl | rfl | rfl | rfl | rfl | rfl <;>
    first | exact hpeers | trivial

/-- The offer of the second sync is pushed again or is the one the session records. -/
theorem suppressed_redundant_againRun : ∃ w r c server, coordinator.run .start againRun = some w ∧
    w.threads.get? 1 = some (.waiting r c) ∧ server ∈ c.servers ∧
    (let s := (openSession c 2 2 w.store).1.session
     c.job s.sessionId server ∈ c.pending s ∨ ∃ body, s.accepted.get? server.ip = some body ∧
       ∀ now, c.payload s server now = .ok { body with leaseExpires := now + 180 }) := by
  have hsome : (coordinator.run .start againRun).any (fun w =>
      ((w.threads.get? 1).bind waitingCall).isSome) = true := by decide +kernel
  obtain ⟨w, hrun, hw⟩ := (Option.any_eq_true _ _).mp hsome
  obtain ⟨⟨r, c, server⟩, hfound⟩ := Option.isSome_iff_exists.mp hw
  obtain ⟨t, ht, hwaiting⟩ := Option.bind_eq_some_iff.mp hfound
  cases t with
  | waiting r' c' =>
    obtain ⟨server', hserver', heq⟩ := Option.map_eq_some_iff.mp hwaiting
    cases heq
    have hmem := List.mem_of_mem_head? hserver'
    exact ⟨w, r, c, server, hrun, ht, hmem, suppressed_redundant againRun_unmarked hrun ht 2 2 hmem⟩
  | _ => cases hwaiting

end Coordinator
