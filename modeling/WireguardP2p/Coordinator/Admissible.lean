import WireguardP2p.Coordinator.Offer
import WireguardP2p.Agent.Validate

/-! What the coordinator pushes against what the agent accepts. Every candidate the coordinator merges
    into an offer is in normal form with an address and port an agent can use, with one exception: a
    node may announce the LAN address 0.0.0.0, which is private by the tables of `ipaddress` and passes
    `validate_announcement`, but is refused by every endpoint parser. -/

namespace Coordinator
open Ipaddress Python Net Candidates

/-- The agent takes the endpoint of the offer and keeps the candidate list as it is. -/
def Admissible (body : OfferBody) : Prop :=
  (∃ endpoint, Agent.validateEndpoint (.str body.endpoint) = .ok endpoint) ∧
    Agent.validateCandidates (.arr (body.candidates.map Candidate.toJson)) = .ok body.candidates

/-- The body announces no candidates of its own. -/
def noCandidates (data : Json) : Prop :=
  bodyCandidates data = .ok .null ∨ bodyCandidates data = .ok (.arr [])

/-- A candidate the agent takes as it is. -/
def Pushable (c : Candidate) : Prop := ∃ e, c.Backed e ∧ c.type ∈ Agent.policy.allowedTypes

theorem Pushable.validate {c : Candidate} (h : Pushable c) :
    Agent.policy.validateCandidate c.toJson = .ok c := by
  obtain ⟨e, hback, htype⟩ := h
  exact Policy.validateCandidate_toJson hback htype rfl

/-! ### `merge_candidates` -/

theorem mem_of_mem_merge {groups : List (List Candidate)} {c : Candidate}
    (h : c ∈ mergeCandidates groups) : ∃ g ∈ groups, c ∈ g := by
  have hkept := mem_sortByPriority.mp (List.mem_of_mem_take h)
  rcases mem_of_mem_keepFirst hkept with hnil | hmem
  · cases hnil
  · exact List.mem_flatten.mp (List.mem_of_mem_filter hmem)

theorem length_merge_le (groups : List (List Candidate)) :
    (mergeCandidates groups).length ≤ maxCandidates := List.length_take_le ..

theorem pairwise_merge (groups : List (List Candidate)) :
    (mergeCandidates groups).Pairwise Candidate.before :=
  (pairwise_sortByPriority _).sublist (List.take_sublist ..)

theorem nodup_merge (groups : List (List Candidate)) :
    ((mergeCandidates groups).map Candidate.key).Nodup := by
  have hkeys : ((keepFirst Candidate.key []
      (groups.flatten.filter fun c => decide (c.endpoint ≠ []))).map Candidate.key).Nodup :=
    nodup_keepFirst List.nodup_nil
  have hperm := (List.perm_insertionSort Candidate.before (keepFirst Candidate.key []
    (groups.flatten.filter fun c => decide (c.endpoint ≠ [])))).map Candidate.key
  exact (hperm.nodup_iff.mpr hkeys).sublist ((List.take_sublist ..).map Candidate.key)

/-- Up to the bound nothing is lost but repetitions. -/
theorem mem_merge_of_first (c : Candidate) (cs : List Candidate) {groups : List (List Candidate)}
    (hflat : groups.flatten = c :: cs) (hne : c.endpoint ≠ []) (hlen : cs.length < maxCandidates) :
    c ∈ mergeCandidates groups := by
  have hfilter : groups.flatten.filter (fun c => decide (c.endpoint ≠ [])) =
      c :: cs.filter fun c => decide (c.endpoint ≠ []) := by
    rw [hflat, List.filter_cons_of_pos (by simpa using hne)]
  have hkept : c ∈ keepFirst Candidate.key []
      (groups.flatten.filter fun c => decide (c.endpoint ≠ [])) := by
    rw [hfilter, keepFirst, if_neg (by simp)]
    exact subset_keepFirst (List.mem_singleton.mpr rfl)
  have hbound : (sortByPriority (keepFirst Candidate.key []
      (groups.flatten.filter fun c => decide (c.endpoint ≠ [])))).length ≤ maxCandidates := by
    rw [sortByPriority, List.length_insertionSort, hfilter]
    have hle : (keepFirst Candidate.key []
        (c :: cs.filter fun c => decide (c.endpoint ≠ []))).length ≤ _ := length_keepFirst_le _ _
    have hsub := List.length_filter_le (fun c : Candidate => decide (c.endpoint ≠ [])) cs
    rw [List.length_nil, List.length_cons] at hle
    omega
  rw [mergeCandidates, List.take_of_length_le hbound, mem_sortByPriority]
  exact hkept

/-! ### The four builders -/

theorem Announcement.not_mem_compressed (a : Announcement) : ']' ∉ a.lanIp.compressed := by
  obtain ⟨ip, hip⟩ := IpAddress.version_eq_four.mp a.lan_private.1
  exact hip ▸ not_mem_compressed_v4 ip

/-- The announced LAN endpoint reads back, unless the address is the unspecified one. -/
theorem Announcement.read_lanEndpoint (a : Announcement) :
    readEndpoint (.str a.lanEndpoint) = checkEndpoint a.lanIp a.listenPort := by
  rw [a.lanEndpoint_eq, readEndpoint_format a.not_mem_compressed a.port_range.2]

theorem Announcement.usable (a : Announcement) (h : a.lanIp.isUnspecified = false) :
    a.lanIp.isUnspecified = false ∧ a.lanIp.isMulticast = false :=
  ⟨h, IpAddress.not_isMulticast_of_isPrivate a.lan_private.1 a.lan_private.2⟩

theorem Announcement.read_unspecified (a : Announcement) (h : a.lanIp.isUnspecified = true) :
    readEndpoint (.str a.lanEndpoint) = .error (.valueError "invalid endpoint address") := by
  rw [a.read_lanEndpoint, checkEndpoint_unusable a.port_range (by simp [h])]

/-- The LAN candidate of an announcement. -/
def Announcement.candidate (a : Announcement) : Candidate where
  type := .lan4
  family := .udp4
  endpoint := a.lanEndpoint
  priority := 1000
  verified := false

theorem Announcement.lanCandidate_eq (a : Announcement) :
    lanCandidate a.lanIp a.listenPort = some a.candidate := by
  rw [lanCandidate, if_neg (by simp [a.lan_private])]
  rfl

theorem Announcement.pushable (a : Announcement) (h : a.lanIp.isUnspecified = false) :
    Pushable a.candidate := by
  refine ⟨⟨a.lanIp, a.listenPort, a.port_range, a.usable h⟩, ⟨?_, a.not_mem_compressed, ?_, ?_⟩, ?_⟩
  · exact a.lanEndpoint_eq
  · rw [familyOf, if_neg (by rw [a.lan_private.1]; decide)]
    rfl
  · show (0 : ℤ) ≤ 1000 ∧ (1000 : ℤ) ≤ 2000
    omega
  · show CandidateType.lan4 ∈ Agent.policy.allowedTypes
    decide

theorem legacyLan_pushable (a : Announcement) : ∀ c ∈ legacyLan a.lanEndpoint, Pushable c := by
  intro c hc
  by_cases hzero : a.lanIp.isUnspecified = true
  · rw [legacyLan, parseEndpoint, a.read_unspecified hzero] at hc
    split at hc <;> cases hc
  · have hzero' : a.lanIp.isUnspecified = false := by simpa using hzero
    rw [legacyLan, parseEndpoint, a.read_lanEndpoint,
      checkEndpoint_ok a.port_range (a.usable hzero')] at hc
    simp only [Except.map, a.lan_private, a.lanCandidate_eq] at hc
    split at hc
    · cases hc
    · have hmem : c = a.candidate := by simpa using hc
      exact hmem ▸ a.pushable hzero'

theorem observed_pushable {endpoint : Text} {c : Candidate} (h : observedCandidate endpoint = some c) :
    Pushable c := by
  rw [observedCandidate, parseEndpoint] at h
  cases hread : readEndpoint (.str endpoint) with
  | error err => simp [hread, Except.map] at h
  | ok e =>
    simp only [hread, Except.map] at h
    split at h
    · cases h
    · rename_i hversion
      cases h
      have htype : CandidateType.observed4 ∈ Agent.policy.allowedTypes := by decide
      refine ⟨e, ⟨rfl, not_mem_compressed_of_readEndpoint hread, ?_, by constructor <;> norm_num⟩,
        htype⟩
      rw [familyOf, if_neg (by rw [not_not.mp hversion]; decide)]

theorem predicted_pushable {endpoint : Text} : ∀ c ∈ predictedCandidates endpoint, Pushable c := by
  intro c hc
  rw [predictedCandidates, parseEndpoint] at hc
  cases hread : readEndpoint (.str endpoint) with
  | error err => simp [hread, Except.map] at hc
  | ok e =>
    simp only [hread, Except.map] at hc
    split at hc
    · cases hc
    · rename_i hkind
      obtain ⟨delta, -, hdelta⟩ := List.mem_filterMap.mp hc
      rw [predictedCandidate] at hdelta
      split at hdelta
      · rename_i hrange
        have hversion : e.address.version = 4 := by
          by_contra hno
          exact hkind (Or.inl hno)
        have hrange' : 1 ≤ ((e.port : ℤ) + delta).toNat ∧ ((e.port : ℤ) + delta).toNat ≤ 65535 := by
          omega
        have htype : CandidateType.predicted4 ∈ Agent.policy.allowedTypes := by decide
        cases hdelta
        have hclose := not_mem_compressed_of_readEndpoint hread
        refine ⟨⟨e.address, _, hrange', e.usable⟩, ⟨?_, hclose, ?_, by constructor <;> norm_num⟩, htype⟩
        · rw [Endpoint.text, formatEndpoint, if_neg (by rw [hversion]; decide)]
        · rw [familyOf, if_neg (by rw [hversion]; decide)]
      · cases hdelta

/-! ### The accepted body -/

theorem acceptAnnouncement_ok {data : Json} {a : Accepted} (h : acceptAnnouncement data = .ok a) :
    ∃ values validated, bodyCandidates data = .ok values ∧
      validateCandidates values false = .ok validated ∧
      a.advertised = if validated = [] then [a.announcement.candidate] else validated := by
  rw [acceptAnnouncement] at h
  cases hann : validateAnnouncement data with
  | error err => simp [hann, bind, Except.bind] at h
  | ok ann =>
    cases hget : data.get "instance_id" with
    | error err => simp [hann, hget, bind, Except.bind] at h
    | ok value =>
      cases hid : validateInstanceId value with
      | error err => simp [hann, hget, hid, bind, Except.bind] at h
      | ok instanceId =>
        cases hbody : bodyCandidates data with
        | error err => simp [hann, hget, hid, hbody, bind, Except.bind] at h
        | ok values =>
          cases hval : validateCandidates values false with
          | error err => simp [hann, hget, hid, hbody, hval, bind, Except.bind] at h
          | ok validated =>
            simp only [hann, hget, hid, hbody, hval, bind, Except.bind, Except.ok.injEq] at h
            subst h
            refine ⟨values, validated, rfl, hval, ?_⟩
            simp [ann.lanCandidate_eq]

/-- Announced candidates are in normal form, with types the agent knows. -/
theorem validated_pushable {values : Json} {validated : List Candidate}
    (h : validateCandidates values false = .ok validated) : ∀ c ∈ validated, Pushable c := by
  intro c hc
  obtain ⟨e, hback, htype, -⟩ := Policy.validateCandidates_ok h hc
  refine ⟨e, hback, ?_⟩
  revert htype
  cases c.type <;> decide

/-- An offer made of pushable candidates comes back from the agent as it is. -/
theorem validate_merge {groups : List (List Candidate)}
    (h : ∀ g ∈ groups, ∀ c ∈ g, Pushable c) :
    Agent.validateCandidates (.arr ((mergeCandidates groups).map Candidate.toJson)) =
      .ok (mergeCandidates groups) := by
  refine Policy.validateCandidates_self (length_merge_le groups) (nodup_merge groups)
    (pairwise_merge groups) fun c hc => ?_
  obtain ⟨g, hg, hcg⟩ := mem_of_mem_merge hc
  exact (h g hg c hcg).validate

theorem length_predicted_le (endpoint : Text) : (predictedCandidates endpoint).length ≤ 4 := by
  rw [predictedCandidates]
  split
  · simp
  · split
    · simp
    · exact List.length_filterMap_le ..

/-- The merged list of an offer comes back from the agent as it is when the announced one would. -/
theorem validate_offer (a : Announcement) (client : Peer) {advertised : List Candidate}
    (h : ∀ c ∈ advertised, Pushable c) :
    Agent.validateCandidates
        (.arr ((offerCandidates client a.lanEndpoint advertised).map Candidate.toJson)) =
      .ok (offerCandidates client a.lanEndpoint advertised) := by
  refine validate_merge fun g hg c hc => ?_
  simp only [List.mem_cons, List.not_mem_nil, or_false] at hg
  rcases hg with rfl | rfl | rfl | rfl
  · exact legacyLan_pushable a c hc
  · exact h c hc
  · exact observed_pushable (Option.mem_toList.mp hc)
  · split at hc
    · cases hc
    · exact predicted_pushable c hc

/-- The LAN candidate of the unspecified address, announced alone, makes the agent refuse the list. -/
theorem offer_refused {a : Announcement} (hzero : a.lanIp.isUnspecified = true) (client : Peer)
    (r : List Candidate) :
    Agent.validateCandidates
        (.arr ((offerCandidates client a.lanEndpoint [a.candidate]).map Candidate.toJson)) ≠ .ok r := by
  have hne : a.lanEndpoint ≠ [] := by simp [Announcement.lanEndpoint]
  have hlegacy : legacyLan a.lanEndpoint = [] := by
    rw [legacyLan, if_neg hne, parseEndpoint, a.read_unspecified hzero]
    rfl
  have hobs : (observedCandidate client.endpoint).toList.length ≤ 1 := by
    cases observedCandidate client.endpoint <;> simp
  have hpred := length_predicted_le client.endpoint
  have hmem : a.candidate ∈ offerCandidates client a.lanEndpoint [a.candidate] := by
    rw [offerCandidates, hlegacy]
    refine mem_merge_of_first a.candidate
      ((observedCandidate client.endpoint).toList ++ predictedCandidates client.endpoint) ?_ hne ?_
    · have hnomap : ([a.candidate].any fun c => decide (c.type = .mapped4)) = false := rfl
      rw [hnomap]
      simp
    · rw [List.length_append, maxCandidates]
      omega
  intro hok
  obtain ⟨c, hc⟩ := (Policy.validateCandidates_isOk.mp ⟨r, hok⟩).2 _ (List.mem_map_of_mem hmem)
  exact Policy.validateCandidate_unreadable (a.read_unspecified hzero) c hc

/-- Whether the offer made of an accepted body is admissible, for a client whose WireGuard endpoint can
    be read and any server. -/
theorem pushOffer_admissible_iff {data : Json} {a : Accepted} (haccept : acceptAnnouncement data = .ok a)
    {server client : Peer} {e : Endpoint} (hclient : readEndpoint (.str client.endpoint) = .ok e)
    (sessionId : Text) (sessionStartedNs now : ℤ) :
    ∃ body, pushOffer server client a.announcement.lanEndpoint a.advertised sessionId sessionStartedNs
        now = .ok body ∧
      (Admissible body ↔ ¬ (a.announcement.lanIp.isUnspecified = true ∧
        (sameNat server client = true ∨ noCandidates data))) := by
  obtain ⟨values, validated, hbody, hvalidated, hadvertised⟩ := acceptAnnouncement_ok haccept
  have hempty : validated = [] ↔ noCandidates data := by
    rw [noCandidates, hbody, Except.ok.injEq, Except.ok.injEq]
    constructor
    · rintro rfl
      exact Policy.validateCandidates_eq_nil hvalidated
    · rintro (rfl | rfl) <;> cases hvalidated <;> rfl
  have hclientOk : Agent.validateEndpoint (.str client.endpoint) = .ok e.text := by
    rw [Agent.validateEndpoint, hclient]
    rfl
  have hcandidate : (if sameNat server client then a.announcement.lanEndpoint else client.endpoint) ≠
      [] := by
    split
    · simp [Announcement.lanEndpoint]
    · intro h
      rw [h] at hclient
      cases hclient
  refine ⟨_, by rw [pushOffer, if_neg hcandidate], ?_⟩
  rw [Admissible]
  constructor
  · rintro ⟨⟨endpoint, hendpoint⟩, hlist⟩ ⟨hzero, hnat | hnone⟩
    · -- same NAT: the endpoint of the offer is the refused LAN endpoint
      rw [if_pos hnat, Agent.validateEndpoint, a.announcement.read_unspecified hzero] at hendpoint
      cases hendpoint
    · -- nothing announced: the refused LAN endpoint stands in the list
      rw [hadvertised, if_pos (hempty.mpr hnone)] at hlist
      exact offer_refused hzero client _ hlist
  · intro hgood
    have hpushable : ∀ c ∈ a.advertised, Pushable c := by
      intro c hc
      rw [hadvertised] at hc
      split at hc
      · rename_i hnil
        rw [List.mem_singleton.mp hc]
        refine a.announcement.pushable ?_
        by_contra hzero
        exact hgood ⟨by simpa using hzero, Or.inr (hempty.mp hnil)⟩
      · exact validated_pushable hvalidated c hc
    refine ⟨?_, validate_offer a.announcement client hpushable⟩
    split
    · rename_i hnat
      have hzero : a.announcement.lanIp.isUnspecified = false := by
        by_contra hzero
        exact hgood ⟨by simpa using hzero, Or.inl hnat⟩
      exact ⟨_, by rw [Agent.validateEndpoint, a.announcement.read_lanEndpoint,
        checkEndpoint_ok a.announcement.port_range (a.announcement.usable hzero)]; rfl⟩
    · exact ⟨e.text, hclientOk⟩

/-! ### At concrete bodies -/

/-- A body a node can send. -/
def syncBody (lanIp : String) (listenPort : ℤ) (candidates : List Json) : Json :=
  .obj [("lan_ip".toList, .str lanIp.toList), ("listen_port".toList, .int listenPort),
    ("candidates".toList, .arr candidates)]

/-- A peer with a WireGuard endpoint. -/
def peerAt (endpoint : String) : Peer where
  key := []
  ip := []
  endpoint := endpoint.toList
  instanceId := []

/-- A home network behind its own NAT, and the offer made of it. -/
theorem pushOffer_admissible_iff_home :
    ∃ a e, acceptAnnouncement (syncBody "192.168.1.5" 51820 []) = .ok a ∧
      readEndpoint (.str (peerAt "198.51.100.7:41000").endpoint) = .ok e ∧
      ∃ body, pushOffer (peerAt "203.0.113.9:51820") (peerAt "198.51.100.7:41000")
          a.announcement.lanEndpoint a.advertised [] 1 0 = .ok body ∧
        (Admissible body ↔ ¬ (a.announcement.lanIp.isUnspecified = true ∧
          (sameNat (peerAt "203.0.113.9:51820") (peerAt "198.51.100.7:41000") = true ∨
            noCandidates (syncBody "192.168.1.5" 51820 [])))) := by
  obtain ⟨a, ha⟩ := exists_ok (acceptAnnouncement (syncBody "192.168.1.5" 51820 [])) (by decide)
  obtain ⟨e, he⟩ := exists_ok (readEndpoint (.str (peerAt "198.51.100.7:41000").endpoint)) (by decide)
  exact ⟨a, e, ha, he, pushOffer_admissible_iff ha he [] 1 0⟩

/-- A node whose LAN address reads 0.0.0.0 and that announces nothing else. -/
theorem unspecified_lan_not_admissible :
    ∃ a e body, acceptAnnouncement (syncBody "0.0.0.0" 51820 []) = .ok a ∧
      readEndpoint (.str (peerAt "198.51.100.7:41000").endpoint) = .ok e ∧
      pushOffer (peerAt "203.0.113.9:51820") (peerAt "198.51.100.7:41000")
        a.announcement.lanEndpoint a.advertised [] 1 0 = .ok body ∧ ¬ Admissible body := by
  obtain ⟨e, he⟩ := exists_ok (readEndpoint (.str (peerAt "198.51.100.7:41000").endpoint)) (by decide)
  refine ⟨_, e, _, rfl, he, rfl, ?_⟩
  rintro ⟨-, hlist⟩
  exact offer_refused (by decide) _ _ hlist

end Coordinator
