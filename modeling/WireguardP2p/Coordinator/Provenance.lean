import WireguardP2p.Coordinator.Steps
import WireguardP2p.Coordinator.Admissible

/-! Where a candidate comes from. What nodes declare reaches the tables unverified and under four types
    only; what the coordinator observes and predicts it adds when it publishes, from the endpoint it
    sees itself. -/

namespace Coordinator
open Ipaddress Python Net Candidates

/-- A candidate a node may declare. -/
structure Declared (c : Candidate) : Prop where
  type_mem : c.type = .lan4 ∨ c.type = .host6 ∨ c.type = .reflexive6 ∨ c.type = .mapped4
  unverified : c.verified = false
  priority_range : 0 ≤ c.priority ∧ c.priority ≤ 2000

/-- The candidates of a peer whose WireGuard endpoint is `endpoint` are declared ones, the observed one
    and predictions from it. -/
structure Provenance (endpoint : Text) (cs : List Candidate) : Prop where
  observed : ∀ c ∈ cs, c.verified = true ∨ c.type = .observed4 → c.type = .observed4 ∧ c.verified = true ∧
    ∃ ip port, parseEndpoint (.str endpoint) = .ok (c.endpoint, .v4 ip, port)
  predicted : ∀ c ∈ cs, c.type = .predicted4 → ∃ normalized ip port candidatePort,
    parseEndpoint (.str endpoint) = .ok (normalized, .v4 ip, port) ∧ (IpAddress.v4 ip).isGlobal = true ∧
      c.endpoint = formatEndpoint (.v4 ip) candidatePort ∧ 1 ≤ candidatePort ∧ candidatePort ≤ 65535 ∧
      (candidatePort + 2 = port ∨ candidatePort + 1 = port ∨ candidatePort = port + 1 ∨ candidatePort = port + 2)
  distinct : (cs.map Candidate.key).Nodup
  bounded : cs.length ≤ 16

/-! ### The sources of candidates -/

theorem declared_of_validate {values : Json} {cs : List Candidate} (h : validateCandidates values false = .ok cs) :
    ∀ c ∈ cs, Declared c := by
  intro c hc
  obtain ⟨e, hback, htype, -, hverified⟩ := Policy.validateCandidates_ok h hc
  refine ⟨?_, ?_, hback.priority_range⟩
  · revert htype
    cases c.type <;> decide
  · exact hverified rfl

theorem declared_of_announced {data : Json} {cs : List Candidate} (h : announcedCandidates data = .ok cs) :
    ∀ c ∈ cs, Declared c := by
  unfold announcedCandidates at h
  cases hbody : bodyCandidates data with
  | error e =>
    rw [hbody] at h
    cases h
  | ok values =>
    rw [hbody] at h
    exact declared_of_validate h

theorem declared_lanCandidate {ip : IpAddress} {port : ℕ} : ∀ c ∈ (lanCandidate ip port).toList, Declared c := by
  intro c hc
  unfold lanCandidate at hc
  split_ifs at hc
  · cases hc
  · obtain rfl := List.mem_singleton.mp hc
    exact ⟨Or.inl rfl, rfl, by constructor <;> norm_num⟩

theorem declared_advertise {a : Announcement} {cs : List Candidate} (h : ∀ c ∈ cs, Declared c) :
    ∀ c ∈ advertise a cs, Declared c := by
  unfold advertise
  split_ifs
  · exact declared_lanCandidate
  · exact h

theorem declared_legacyLan (lanEndpoint : Text) : ∀ c ∈ legacyLan lanEndpoint, Declared c := by
  intro c hc
  unfold legacyLan at hc
  split_ifs at hc
  · cases hc
  · split at hc
    · cases hc
    · split_ifs at hc
      · exact declared_lanCandidate c hc
      · cases hc

/-- The observed candidate is the endpoint, if that is IPv4. -/
theorem observed_spec {endpoint : Text} {c : Candidate} (h : observedCandidate endpoint = some c) :
    c.type = .observed4 ∧ c.verified = true ∧
      ∃ ip port, parseEndpoint (.str endpoint) = .ok (c.endpoint, .v4 ip, port) := by
  unfold observedCandidate at h
  split at h
  · cases h
  · rename_i normalized address port hparse
    split_ifs at h with hversion
    cases h
    cases address with
    | v4 ip => exact ⟨rfl, rfl, ip, port, hparse⟩
    | v6 ip scope => exact absurd (show (6 : ℕ) ≠ 4 by decide) hversion

/-- A predicted candidate is near the endpoint, if that is a global IPv4 one. -/
theorem predicted_spec {endpoint : Text} {c : Candidate} (h : c ∈ predictedCandidates endpoint) :
    ∃ normalized ip port candidatePort,
      parseEndpoint (.str endpoint) = .ok (normalized, .v4 ip, port) ∧ (IpAddress.v4 ip).isGlobal = true ∧
        c.endpoint = formatEndpoint (.v4 ip) candidatePort ∧ 1 ≤ candidatePort ∧ candidatePort ≤ 65535 ∧
        (candidatePort + 2 = port ∨ candidatePort + 1 = port ∨ candidatePort = port + 1 ∨
          candidatePort = port + 2) := by
  unfold predictedCandidates at h
  split at h
  · cases h
  · rename_i normalized address port hparse
    split_ifs at h with hkind
    · cases h
    · obtain ⟨delta, hdelta, hc⟩ := List.mem_filterMap.mp h
      unfold predictedCandidate at hc
      dsimp only at hc
      split_ifs at hc with hrange
      cases hc
      cases address with
      | v6 ip scope => exact absurd (Or.inl (by simp [IpAddress.version])) hkind
      | v4 ip =>
        refine ⟨normalized, ip, port, (port + delta).toNat, hparse, ?_, rfl, ?_, ?_, ?_⟩
        · by_contra hglobal
          exact hkind (Or.inr (Or.inl (by simpa using hglobal)))
        · omega
        · omega
        · simp only [predicted4Deltas, List.mem_cons, List.not_mem_nil, or_false] at hdelta
          rcases hdelta with rfl | rfl | rfl | rfl <;> omega

theorem predicted_type {endpoint : Text} {c : Candidate} (h : c ∈ predictedCandidates endpoint) :
    c.type = .predicted4 ∧ c.verified = false := by
  unfold predictedCandidates at h
  split at h
  · cases h
  · split_ifs at h
    · cases h
    · obtain ⟨delta, -, hc⟩ := List.mem_filterMap.mp h
      unfold predictedCandidate at hc
      dsimp only at hc
      split_ifs at hc
      cases hc
      exact ⟨rfl, rfl⟩

theorem Declared.unmarked {c : Candidate} (h : Declared c) :
    ¬ (c.verified = true ∨ c.type = .observed4) ∧ c.type ≠ .predicted4 := by
  obtain ⟨htype, hverified, -⟩ := h
  rw [hverified]
  rcases htype with htype | htype | htype | htype <;> rw [htype] <;> decide

/-- What the coordinator merges: declared candidates, then the observed one and predictions. -/
theorem provenance_merge {endpoint : Text} {declared : List (List Candidate)} {predictions : List Candidate}
    (hdeclared : ∀ g ∈ declared, ∀ c ∈ g, Declared c)
    (hpredictions : predictions = [] ∨ predictions = predictedCandidates endpoint) :
    Provenance endpoint (mergeCandidates (declared ++ [(observedCandidate endpoint).toList, predictions])) := by
  have hsource : ∀ c ∈ mergeCandidates (declared ++ [(observedCandidate endpoint).toList, predictions]),
      Declared c ∨ observedCandidate endpoint = some c ∨ c ∈ predictedCandidates endpoint := by
    intro c hc
    obtain ⟨g, hg, hcg⟩ := mem_of_mem_merge hc
    rcases List.mem_append.mp hg with hg | hg
    · exact Or.inl (hdeclared g hg c hcg)
    · rcases List.mem_cons.mp hg with rfl | hg
      · exact Or.inr (Or.inl (Option.mem_toList.mp hcg))
      · obtain rfl := List.mem_singleton.mp hg
        rcases hpredictions with rfl | rfl
        · cases hcg
        · exact Or.inr (Or.inr hcg)
  constructor
  · intro c hc hmark
    rcases hsource c hc with hdec | hobs | hpred
    · exact absurd hmark hdec.unmarked.1
    · exact observed_spec hobs
    · obtain ⟨htype, hverified⟩ := predicted_type hpred
      rw [htype, hverified] at hmark
      rcases hmark with h | h <;> cases h
  · intro c hc htype
    rcases hsource c hc with hdec | hobs | hpred
    · exact absurd htype hdec.unmarked.2
    · rw [(observed_spec hobs).1] at htype
      cases htype
    · exact predicted_spec hpred
  · exact nodup_merge _
  · exact length_merge_le _

theorem provenance_offer (client : Peer) (lanEndpoint : Text) {cs : List Candidate} (h : ∀ c ∈ cs, Declared c) :
    Provenance client.endpoint (offerCandidates client lanEndpoint cs) := by
  refine @provenance_merge client.endpoint [legacyLan lanEndpoint, cs] _ (fun g hg => ?_) ?_
  · rcases List.mem_cons.mp hg with rfl | hg
    · exact declared_legacyLan lanEndpoint
    · exact List.mem_singleton.mp hg ▸ h
  · split_ifs
    · exact Or.inl rfl
    · exact Or.inr rfl

theorem provenance_published (endpoint : Text) (lan : Option LanEntry) {node : Option NodeEntry}
    (h : ∀ e ∈ node, ∀ c ∈ e.candidates, Declared c) :
    Provenance endpoint (publishedCandidates endpoint lan node) := by
  unfold publishedCandidates
  refine @provenance_merge endpoint [(lan.bind fun e => lanCandidate e.announcement.lanIp
    e.announcement.listenPort).toList, (node.map NodeEntry.candidates).getD []] _ (fun g hg => ?_) ?_
  · rcases List.mem_cons.mp hg with rfl | hg
    · cases lan with
      | none => exact fun c hc => by cases hc
      | some e => exact declared_lanCandidate
    · obtain rfl := List.mem_singleton.mp hg
      cases node with
      | none => exact fun c hc => by cases hc
      | some e => exact h e rfl
  · split_ifs
    · exact Or.inl rfl
    · exact Or.inr rfl

/-! ### The tables -/

/-- Every stored candidate is a declared one. -/
def NodeDeclared (st : Store) : Prop :=
  ∀ ip e, st.node.get? ip = some e → ∀ c ∈ e.candidates, Declared c

theorem NodeDeclared.congr {st st' : Store} (h : NodeDeclared st) (heq : st'.node = st.node) : NodeDeclared st' := by
  unfold NodeDeclared
  rw [heq]
  exact h

theorem NodeDeclared.recordNode {st : Store} (h : NodeDeclared st) (ip : Text) {cs : List Candidate} (now : ℚ)
    (hcs : ∀ c ∈ cs, Declared c) : NodeDeclared (recordNodeCandidates ip cs now st) := by
  intro j e he
  unfold recordNodeCandidates at he
  rw [Dict.get?_set] at he
  split_ifs at he
  · cases he
    exact hcs
  · exact h j e he

theorem NodeDeclared.drop {st : Store} (h : NodeDeclared st) (ip : Text) : NodeDeclared (dropCandidates ip st) := by
  intro j e he
  unfold dropCandidates at he
  rw [Dict.get?_erase] at he
  split_ifs at he
  exact h j e he

theorem NodeDeclared.purge {st : Store} (h : NodeDeclared st) (active : List Text) (now : ℚ) :
    NodeDeclared (Coordinator.purge active now st) := by
  intro j e he
  unfold Coordinator.purge keepRecent at he
  rw [Dict.get?_filter, Option.filter_eq_some_iff] at he
  exact h j e he.1

theorem keeps_dropServers (registry : RegistryFile) : (dropServers registry).Keeps NodeDeclared := by
  unfold dropServers
  refine Raising.Keeps.get.bind fun st => Raising.Keeps.ite (fun _ => ?_) fun _ => Raising.Keeps.pure _
  refine Raising.Keeps.bind ?_ fun servers => Raising.Keeps.modify fun t ht => ?_
  · cases loadRoleRegistry registry with
    | ok servers => exact Raising.Keeps.pure _
    | error e => exact Raising.Keeps.raise _
  · induction servers generalizing t with
    | nil => exact ht
    | cons ip ips ih => exact ih _ (ht.drop ip)

theorem keeps_popSession (ip : Text) (registry : RegistryFile) : (popSession ip registry).Keeps NodeDeclared :=
  Raising.Keeps.get.bind fun _ => (Raising.Keeps.modify fun st h =>
    @NodeDeclared.drop { st with sessions := st.sessions.erase ip } (h.congr rfl) ip).bind fun _ =>
      (keeps_dropServers registry).bind fun _ => Raising.Keeps.pure _

theorem keeps_reap (now : ℚ) (registry : RegistryFile) : (reap now registry).Keeps NodeDeclared := by
  refine Raising.Keeps.get.bind fun st => (Raising.Keeps.modify fun t ht => ?_).bind fun _ =>
    (keeps_dropServers registry).bind fun _ => Raising.Keeps.pure _
  generalize st.sessions.entries.filter _ = expired
  induction expired generalizing t with
  | nil => exact ht
  | cons e es ih => exact ih _ (@NodeDeclared.drop { t with sessions := t.sessions.erase e.1 } (ht.congr rfl) e.1)

theorem keeps_recordReplies (clientIp : Text) (now : ℚ) (replies : List (Text × Reply)) :
    (recordReplies clientIp now replies).Keeps NodeDeclared := by
  induction replies with
  | nil => exact Raising.Keeps.pure _
  | cons entry rest ih =>
    obtain ⟨serverIp, r⟩ := entry
    refine Raising.Keeps.bind ?_ fun _ => ih
    refine (Raising.Keeps.modify fun st h => h.congr rfl).bind fun _ => Raising.Keeps.bind ?_ fun _ => ?_
    · unfold learnAddress
      split
      · exact Raising.Keeps.modify fun st h => h.congr rfl
      · exact Raising.Keeps.ite (fun _ => Raising.Keeps.pure _) fun _ => Raising.Keeps.raise _
    · unfold learnCandidates
      split
      · rename_i cs hcs
        exact Raising.Keeps.modify fun st h => h.recordNode serverIp now (declared_of_announced hcs)
      · exact Raising.Keeps.ite (fun _ => Raising.Keeps.pure _) fun _ => Raising.Keeps.raise _

theorem keeps_closeCall (c : Call) (sessionId : Text) (results : Dict Text Reply) :
    (closeCall c sessionId results).Keeps NodeDeclared := by
  refine Raising.Keeps.get.bind fun st => ?_
  split
  · exact Raising.Keeps.pure _
  · exact Raising.Keeps.ite (fun _ => Raising.Keeps.pure _) fun _ =>
      (Raising.Keeps.modify fun t h => h.congr rfl).bind fun _ => keeps_recordReplies _ _ _

/-! ### The threads -/

/-- The candidates of the call a thread goes on with. -/
def Rest.carried : Rest → List Candidate
  | .offers _ c _ => c.candidates
  | .nothing => []

/-- The candidates a thread carries. -/
def Thread.carried : Thread → List Candidate
  | .announced _ a => a.advertised
  | .waiting _ c => c.candidates
  | .removing _ _ rest => rest.carried
  | .offering _ c _ _ _ _ => c.candidates
  | _ => []

/-- The thread carries declared candidates. -/
def Thread.Declares (t : Thread) : Prop := ∀ c ∈ t.carried, Declared c

/-- Whatever goes out has candidates of known provenance. -/
def Event.Traced : Event → Prop
  | .offered c _ body => Provenance c.client.endpoint body.candidates
  | .published peers => ∀ p ∈ peers, Provenance p.peer.endpoint p.candidates
  | _ => True

theorem announceAddress_keeps (source : Text) (data : Json) (now : ℚ) :
    (announceAddress source data now).Keeps NodeDeclared := by
  unfold announceAddress
  refine Raising.Keeps.bind ?_ fun a => Raising.Keeps.bind ?_ fun instanceId =>
    (Raising.Keeps.modify fun st h => h.congr rfl).bind fun _ => Raising.Keeps.pure _
  · cases validateAnnouncement data with
    | ok a => exact Raising.Keeps.pure _
    | error e => exact Raising.Keeps.raise _
  · cases announcedInstance data with
    | ok instanceId => exact Raising.Keeps.pure _
    | error e => exact Raising.Keeps.raise _

theorem announceCandidates_spec (source : Text) (data : Json) (a : Announcement) (now : ℚ) {st : Store}
    (h : NodeDeclared st) : (announceCandidates source data a now).wp
      (fun advertised t => NodeDeclared t ∧ ∀ c ∈ advertised, Declared c) (fun _ t => NodeDeclared t) st := by
  unfold announceCandidates
  cases hcs : announcedCandidates data with
  | error e => exact h
  | ok cs =>
    have hdeclared := declared_advertise (a := a) (declared_of_announced hcs)
    exact ⟨h.recordNode source now hdeclared, hdeclared⟩

theorem payload_traced {c : Call} {s : Session} {server : ListedPeer} {now : ℤ} {body : OfferBody}
    (hpayload : c.payload s server now = .ok body) (h : ∀ x ∈ c.candidates, Declared x) :
    Provenance c.client.endpoint body.candidates := by
  unfold Call.payload pushOffer at hpayload
  dsimp only at hpayload
  split_ifs at hpayload <;>
  · cases hpayload
    exact provenance_offer _ _ h

theorem published_traced (peers : List ListedPeer) (now : ℚ) {st : Store} (h : NodeDeclared st) :
    Event.Traced (.published (peerPayload peers now st).1) := by
  intro p hp
  obtain ⟨q, -, rfl⟩ := List.mem_map.mp hp
  exact provenance_published _ _ fun e he => h.purge _ _ q.ip e he

theorem record_node (ip : Text) (now : ℚ) (answer : Pushed) (st : Store) : (answer.record ip now st).node = st.node := by
  cases answer <;> rfl

/-- A move that leaves the stored and the carried candidates declared. -/
theorem keeps_traced {locked : Bool} {st : Store} {m : Moved} (hstore : NodeDeclared m.store)
    (hthread : ∀ t, m.thread = some t → t.Declares) (hevents : ∀ e ∈ m.events, e.Traced) :
    Keeps NodeDeclared (fun _ => Thread.Declares) Event.Traced locked st m where
  store := hstore
  thread := hthread
  events := hevents
  others := fun _ h _ => h

/-- A section that keeps the tables, before a thread that carries no more than it may. -/
theorem keeps_moved {α : Type} {p : Section α} {locked : Bool} {st : Store} {Q : α → Prop} {f : α → Thread}
    (h : p.wp (fun a t => NodeDeclared t ∧ Q a) (fun _ t => NodeDeclared t) st) (hf : ∀ a, Q a → (f a).Declares) :
    Keeps NodeDeclared (fun _ => Thread.Declares) Event.Traced locked st (p.moved st f) := by
  rcases moved_spec f h with ⟨a, t, ⟨ht, ha⟩, heq⟩ | ⟨e, t, ht, heq⟩
  · rw [heq]
    exact keeps_traced ht (fun u hu => Option.some.inj hu ▸ hf a ha) fun e he => by cases he
  · rw [heq]
    exact keeps_traced ht (fun u hu => by cases hu) fun e he => by cases he

theorem node_openSession (c : Call) (uuid : Fin (2 ^ 128)) (timeNs : ℕ) (st : Store) :
    (openSession c uuid timeNs st).2.node = st.node := rfl

theorem closed_traced {sessions : List Session} : ∀ e ∈ sessions.map Event.closed, e.Traced := by
  intro e he
  obtain ⟨s, -, rfl⟩ := List.mem_map.mp he
  trivial

theorem traced_act {locked : Bool} {st : Store} {t : Thread} {a : Act} {m : Moved} (hst : NodeDeclared st)
    (ht : t.Declares) (hm : Moves locked st t a m) :
    Keeps NodeDeclared (fun _ => Thread.Declares) Event.Traced locked st m := by
  have hquiet : ∀ {t : Thread}, t.Declares → Keeps NodeDeclared (fun _ => Thread.Declares) Event.Traced locked st
      ⟨st, some t, []⟩ := fun ht =>
    keeps_traced hst (fun u hu => Option.some.inj hu ▸ ht) fun e he => by cases he
  cases hm with
  | address r now =>
    refine keeps_moved (Q := fun _ => True) ?_ fun _ _ c hc => by cases hc
    exact Raising.wp_mono (announceAddress_keeps r.source.ip r.data now st hst) (fun _ _ h => ⟨h, trivial⟩)
      fun _ _ h => h
  | candidates r a instanceId now =>
    exact keeps_moved (announceCandidates_spec r.source.ip r.data a now hst) fun _ h => h
  | coordinate r a now hrole => exact hquiet ht
  | skip r a now hrole => exact hquiet fun c hc => by cases hc
  | opened r c uuid timeNs hfree =>
    unfold afterOpening
    split
    · refine keeps_traced (hst.congr rfl) (fun u hu => ?_) fun e he => ?_
      · obtain rfl := Option.some.inj hu
        exact ht
      · obtain rfl := List.mem_singleton.mp he
        trivial
    · refine keeps_traced (hst.congr rfl) (fun u hu => ?_) fun e he => by cases he
      obtain rfl := Option.some.inj hu
      exact ht
  | unnamed s todo rest registry hid => exact hquiet ht
  | targets s todo rest registry targets hid htargets => exact hquiet ht
  | unreadable s todo rest registry e hid htargets =>
    exact keeps_traced hst (fun u hu => by cases hu) fun e he => by cases he
  | remove s todo ip targets rest answer now =>
    refine keeps_traced (hst.congr (record_node ip now answer st)) (fun u hu => ?_) fun e he => ?_
    · obtain rfl := Option.some.inj hu
      exact ht
    · obtain rfl := List.mem_singleton.mp he
      trivial
  | removed s todo rest => exact hquiet ht
  | goOn r c s => exact hquiet ht
  | finish => exact keeps_traced hst (fun u hu => by cases hu) fun e he => by cases he
  | send r c s j queued sent results now =>
    refine keeps_traced hst (fun u hu => ?_) fun e he => ?_
    · obtain rfl := Option.some.inj hu
      exact ht
    · obtain ⟨body, hbody, rfl⟩ := List.mem_map.mp he
      cases hpayload : c.payload s j.server now with
      | error e => simp [hpayload, Except.toOption] at hbody
      | ok b =>
        obtain rfl : body = b := by simpa [hpayload, Except.toOption] using hbody
        exact payload_traced hpayload ht
  | record r c s queued j payload sent results answer now =>
    refine keeps_traced (hst.congr (record_node _ now _ st)) (fun u hu => ?_) fun e he => by cases he
    obtain rfl := Option.some.inj hu
    exact ht
  | close r c s results =>
    refine keeps_moved (Q := fun _ => True) ?_ fun _ _ c hc => by cases hc
    exact Raising.wp_mono (keeps_closeCall c s.sessionId results st hst) (fun _ _ h => ⟨h, trivial⟩) fun _ _ h => h
  | answer r now hpath => exact keeps_traced hst (fun u hu => by cases hu) fun e he => by cases he
  | publish r now hpath =>
    refine keeps_traced (hst.purge _ now) (fun u hu => by cases hu) fun e he => ?_
    obtain rfl := List.mem_singleton.mp he
    exact published_traced r.peers now hst
  | left ip registry o st' hrun =>
    refine keeps_traced (Raising.wp_ok (keeps_popSession ip registry st hst) hrun) (fun u hu => ?_) closed_traced
    obtain rfl := Option.some.inj hu
    exact fun c hc => by cases hc
  | died ip registry e st' hrun =>
    exact keeps_traced (Raising.wp_error (keeps_popSession ip registry st hst) hrun) (fun u hu => by cases hu)
      closed_traced

/-- Every step keeps the stored and the carried candidates declared, and what goes out traced. -/
theorem traced_parts : Parts NodeDeclared (fun _ => Thread.Declares) Event.Traced fun _ => True where
  act := traced_act
  start := by
    intro locked st i path data peers sourceIp _ hst
    refine keeps_traced hst (fun t ht => ?_) fun e he => by cases he
    unfold startThread at ht
    dsimp only at ht
    split at ht
    · cases ht
    · split_ifs at ht <;>
      · cases ht
        exact fun c hc => by cases hc
  reap := by
    intro locked st now registry hst
    have hkeeps := keeps_reap now registry st hst
    unfold reapMoved
    dsimp only
    split
    · rename_i closed st' hrun
      refine keeps_traced (Raising.wp_ok hkeeps hrun) (fun t ht => ?_) closed_traced
      obtain rfl := Option.some.inj ht
      exact fun c hc => by cases hc
    · rename_i e st' hrun
      exact keeps_traced (Raising.wp_error hkeeps hrun) (fun t ht => by cases ht) closed_traced
  list := by
    intro locked st peers now hst
    refine keeps_traced (hst.purge _ now) (fun t ht => by cases ht) fun e he => ?_
    obtain rfl := List.mem_singleton.mp he
    exact published_traced peers now hst

/-- In every run, every offer and every published peer carries candidates of known provenance only. -/
theorem candidates_traced {ls : List Label} {w : World} (hrun : coordinator.run .start ls = some w) :
    (∀ c server body, .offered c server body ∈ w.log → Provenance c.client.endpoint body.candidates) ∧
      ∀ peers, .published peers ∈ w.log → ∀ p ∈ peers, Provenance p.peer.endpoint p.candidates := by
  have hfine := traced_parts.run (fun ip e he => by simp [emptyStore] at he)
    (coordinator.along_true .start ls) hrun
  exact ⟨fun c server body h => hfine.log _ h, fun peers h => hfine.log _ h⟩

/-- Is this an offer, or a list of peers, with an observed candidate? -/
def Event.observes : Event → Bool
  | .offered _ _ body => body.candidates.any fun c => c.verified
  | .published peers => peers.any fun p => p.candidates.any fun c => c.verified
  | _ => false

/-- A sync leaves an offer and a list of peers behind, both with observed candidates. -/
theorem candidates_traced_syncRun : ∃ w, coordinator.run .start syncRun = some w ∧
    (w.log.filter Event.observes).length = 2 ∧
    (∀ c server body, .offered c server body ∈ w.log → Provenance c.client.endpoint body.candidates) ∧
      ∀ peers, .published peers ∈ w.log → ∀ p ∈ peers, Provenance p.peer.endpoint p.candidates := by
  have hsome : (coordinator.run .start syncRun).any (fun w =>
      decide ((w.log.filter Event.observes).length = 2)) = true := by decide +kernel
  obtain ⟨w, hrun, hw⟩ := (Option.any_eq_true _ _).mp hsome
  exact ⟨w, hrun, of_decide_eq_true hw, candidates_traced hrun⟩

end Coordinator
