import WireguardP2p.Agent.Refresh
import WireguardP2p.Candidates.Arrival

/-! An offer that comes again with its candidates in another order. What is probed is the same, unless the
    order decides which of two priorities a candidate has, or which LAN address is compared with the node's. -/

namespace Agent
open Ipaddress Python Net Candidates Raising

/-! ### Reading the candidates of an offer -/

/-- `validate_endpoint(data["endpoint"]) if data.get("endpoint") else ""`. -/
def legacyEndpoint : Option Json → Except Raised Text
  | some endpoint => if endpoint.truthy then validateEndpoint endpoint else .ok []
  | none => .ok []

/-- The session and the instance of an offer, and what its candidates were selected from. -/
theorem readOffer_ok {env : OfferEnv} {fields : List (Text × Json)} {controller : Controller} {o : Offer}
    (h : readOffer env (.obj fields) controller = .ok o) :
    (((Json.obj fields).item "session_id" >>= validateSessionId) = .ok o.sessionId ∧
      validatePeerInstanceId (Json.lookup "peer_instance_id" fields) = .ok o.peerInstanceId) ∧
    ∃ advertised legacy type, validateCandidates ((Json.lookup "candidates" fields).getD (.arr [])) = .ok advertised ∧
      legacyEndpoint (Json.lookup "endpoint" fields) = .ok legacy ∧
      offerEndpointType env ((Json.lookup "endpoint_type" fields).getD (.str "WAN".toList))
        ((Json.lookup "candidates" fields).getD (.arr [])) = .ok type ∧
      selectProbeCandidates (advertised.map Candidate.toJson) legacy type true = .ok o.candidates := by
  rw [readOffer] at h
  iterate 4 obtain ⟨_, -, h⟩ := bind_ok h
  obtain ⟨sessionText, hsessionText, h⟩ := bind_ok h
  obtain ⟨session, hsession, h⟩ := bind_ok h
  iterate 2 obtain ⟨_, -, h⟩ := bind_ok h
  obtain ⟨instanceField, hinstanceField, h⟩ := bind_ok h
  obtain rfl := Except.ok.inj hinstanceField
  obtain ⟨peerInstance, hinstance, h⟩ := bind_ok h
  obtain ⟨listed, hlisted, h⟩ := bind_ok h
  obtain rfl := Except.ok.inj hlisted
  obtain ⟨advertised, hadvertised, h⟩ := bind_ok h
  obtain ⟨endpoint, hendpoint, h⟩ := bind_ok h
  obtain rfl := Except.ok.inj hendpoint
  unfold legacyEndpoint
  cases he : Json.lookup "endpoint" fields
  case' some e => by_cases htruthy : e.truthy = true
  all_goals rw [he] at h
  all_goals try dsimp only at h ⊢
  case' pos => rw [if_pos htruthy] at h ⊢
  case' neg => rw [if_neg htruthy] at h ⊢
  all_goals
    obtain ⟨legacy, hlegacy, h⟩ := bind_ok h
    obtain ⟨typeField, htypeField, h⟩ := bind_ok h
    obtain rfl := Except.ok.inj htypeField
    obtain ⟨type, htype, h⟩ := bind_ok h
    obtain ⟨candidates, hselect, h⟩ := bind_ok h
    split at h
    · cases h
    · obtain ⟨lease, -, h⟩ := bind_ok h
      cases lease
      all_goals
        obtain ⟨requested, -, h⟩ := bind_ok h
        obtain rfl := Except.ok.inj h
        refine ⟨⟨?_, hinstance⟩, advertised, legacy, type, hadvertised, hlegacy, htype, hselect⟩
        rw [hsessionText]
        exact hsession

/-! ### Lists in another order -/

/-- What an entry says of the LAN address of the peer, if it is a `lan4` entry. -/
def lanEndpoint : Json → Option Json
  | .obj fields =>
    match Json.lookup "type" fields with
    | some (.str t) =>
      if t = CandidateType.lan4.name.toList then some ((Json.lookup "endpoint" fields).getD (.str [])) else none
    | _ => none
  | _ => none

theorem peerLanEndpoint_eq : ∀ values : List Json,
    peerLanEndpoint values = (values.findSome? lanEndpoint).getD (.str []) := by
  intro values
  induction values with
  | nil => rfl
  | cons v vs ih =>
    rw [List.findSome?_cons]
    cases v with
    | obj fields =>
      cases htype : Json.lookup "type" fields with
      | none => simp [peerLanEndpoint, lanEndpoint, htype, ih]
      | some type =>
        cases type with
        | str t => by_cases ht : t = CandidateType.lan4.name.toList <;> simp [peerLanEndpoint, lanEndpoint, htype, ht, ih]
        | _ => simp [peerLanEndpoint, lanEndpoint, htype, ih]
    | _ => exact ih

/-- The list gives one type and endpoint one priority, and one LAN endpoint at most. -/
structure Unambiguous (values : List Json) : Prop where
  priority : ∀ v ∈ values, ∀ w ∈ values, ∀ c d, policy.validateCandidate v = .ok c →
    policy.validateCandidate w = .ok d → c.key = d.key → c.priority = d.priority
  lan : ∀ v ∈ values, ∀ w ∈ values, ∀ e f, lanEndpoint v = some e → lanEndpoint w = some f → e = f

/-- The second offer lists the entries of the first, in any order and any number of times, and is otherwise
    the same. -/
structure Reordered (data data' : Json) (values values' : List Json) : Prop where
  offers : ∃ fields fields', data = .obj fields ∧ data' = .obj fields' ∧
    Json.lookup "candidates" fields = some (.arr values) ∧ Json.lookup "candidates" fields' = some (.arr values') ∧
      ∀ name, name ≠ "candidates" → Json.lookup name fields = Json.lookup name fields'
  same : ∀ v, v ∈ values ↔ v ∈ values'

section Lists
variable {values values' : List Json}

theorem peerLanEndpoint_congr (hsame : ∀ v, v ∈ values ↔ v ∈ values') (h : Unambiguous values) :
    peerLanEndpoint values = peerLanEndpoint values' := by
  rw [peerLanEndpoint_eq, peerLanEndpoint_eq]
  cases he : values.findSome? lanEndpoint with
  | none =>
    have hnone : values'.findSome? lanEndpoint = none := by
      rw [List.findSome?_eq_none_iff] at he ⊢
      exact fun v hv => he v ((hsame v).mpr hv)
    rw [hnone]
  | some e =>
    obtain ⟨v, hv, hve⟩ := List.exists_of_findSome?_eq_some he
    cases hf : values'.findSome? lanEndpoint with
    | none =>
      rw [List.findSome?_eq_none_iff] at hf
      exact absurd (hf v ((hsame v).mp hv)) (by rw [hve]; exact fun h => by cases h)
    | some f =>
      obtain ⟨w, hw, hwf⟩ := List.exists_of_findSome?_eq_some hf
      rw [h.lan v hv w ((hsame w).mpr hw) e f hve hwf]

theorem offerEndpointType_congr {env env' : OfferEnv} {type : Json} (hlocal : env.localIpv4 = env'.localIpv4)
    (hlan : peerLanEndpoint values = peerLanEndpoint values') :
    offerEndpointType env type (.arr values) = offerEndpointType env' type (.arr values') := by
  simp only [offerEndpointType, hlocal, hlan]

/-- Of the entries with one type and endpoint one is validated, and no others. -/
theorem mem_validated {vs : List Candidate} (h : validateCandidates (.arr values) = .ok vs) :
    (∀ c ∈ vs, ∃ v ∈ values, policy.validateCandidate v = .ok c) ∧
      ∀ v ∈ values, ∃ c, policy.validateCandidate v = .ok c ∧ ∃ d ∈ vs, d.key = c.key := by
  rw [validateCandidates, Policy.validateCandidates] at h
  split at h
  · cases h
  · obtain ⟨validated, hvalidated, h⟩ := bind_ok h
    obtain rfl := Except.ok.inj h
    constructor
    · intro c hc
      rcases mem_of_mem_keepFirst (mem_sortByPriority.mp hc) with hc | hc
      · cases hc
      · exact of_mem_mapM hvalidated c hc
    · intro v hv
      obtain ⟨c, hc, hvc⟩ := mem_of_mapM hvalidated v hv
      refine ⟨c, hvc, ?_⟩
      obtain ⟨d, hd⟩ := Option.isSome_iff_exists.mp
        (List.find?_isSome (p := fun d : Candidate => decide (d.key = c.key)).mpr ⟨c, hc, decide_eq_true rfl⟩)
      have hkey : d.key = c.key := of_decide_eq_true (@List.find?_some _ (fun d : Candidate =>
        decide (d.key = c.key)) _ _ hd)
      refine ⟨d, mem_sortByPriority.mpr (mem_keepFirst.mpr (Or.inr ⟨List.not_mem_nil, ?_⟩)), hkey⟩
      rw [hkey]
      exact hd

/-- The policy of the agent keeps type and priority of a generated entry. -/
theorem assigned_validated {v : Json} {c : Candidate} (hv : Generated v) (h : policy.validateCandidate v = .ok c) :
    Assigned c.type c.priority := by
  obtain ⟨fields, type, priority, rfl, htype, hpriority, hassigned⟩ := hv.fields
  have hp : toInt ((Json.lookup "priority" fields).getD (.int 0)) = .ok priority := by rw [hpriority]; rfl
  unfold Policy.validateCandidate at h
  cases hfound : lookupType policy.allowedTypes (some (.str type.name.toList)) with
  | error e => simp [htype, hfound, bind, Except.bind] at h
  | ok found =>
    cases found with
    | none => simp [htype, hfound, bind, Except.bind] at h
    | some t =>
      obtain rfl := lookupType_named hfound
      cases hread : readEndpoint ((Json.lookup "endpoint" fields).getD (.str [])) with
      | error e => simp [htype, hfound, hread, bind, Except.bind] at h
      | ok e =>
        have hrefusal : policy.refusal t e.address = none := rfl
        simp only [htype, hfound, hread, hrefusal, hp, bind, Except.bind] at h
        split at h
        · cases h
        · split at h
          · cases h
          · obtain rfl := Except.ok.inj h
            exact hassigned

/-- The paths that are validated do not depend on the order. -/
theorem validated_paths (hsame : ∀ v, v ∈ values ↔ v ∈ values') (hunambiguous : Unambiguous values)
    {vs vs' : List Candidate} (h : validateCandidates (.arr values) = .ok vs)
    (h' : validateCandidates (.arr values') = .ok vs') {c : Candidate} (hc : c ∈ vs) : ∃ d ∈ vs', d.path = c.path := by
  obtain ⟨v, hv, hvc⟩ := (mem_validated h).1 c hc
  obtain ⟨c', hvc', d, hd, hkey⟩ := (mem_validated h').2 v ((hsame v).mp hv)
  obtain rfl := Except.ok.inj (hvc.symm.trans hvc')
  obtain ⟨w, hw, hwd⟩ := (mem_validated h').1 d hd
  exact ⟨d, hd, path_eq hkey (hunambiguous.priority w ((hsame w).mpr hw) v hv d c hwd hvc hkey)⟩

theorem Unambiguous.congr (hsame : ∀ v, v ∈ values ↔ v ∈ values') (h : Unambiguous values) :
    Unambiguous values' :=
  ⟨fun v hv w hw => h.priority v ((hsame v).mpr hv) w ((hsame w).mpr hw),
    fun v hv w hw => h.lan v ((hsame v).mpr hv) w ((hsame w).mpr hw)⟩

/-- The dictionaries of candidates with the same paths offer the same paths. -/
theorem offers_mono {vs vs' : List Candidate} (hp : ∀ c ∈ vs, c.priority ≠ 0)
    (h : ∀ c ∈ vs, ∃ d ∈ vs', d.path = c.path) {p : Candidate} (ho : Offers (vs.map Candidate.toJson) p) :
    Offers (vs'.map Candidate.toJson) p := by
  obtain ⟨v, hv, a, ha, rfl⟩ := ho
  obtain ⟨c, hc, rfl⟩ := List.mem_map.mp hv
  obtain ⟨endpoint, address, port, hparse, haddress, rfl⟩ := (normalize_toJson (hp c hc)).mp ha
  obtain ⟨d, hd, hpath⟩ := h c hc
  obtain ⟨ht, he, hpriority⟩ := key_of_path hpath
  refine ⟨d.toJson, List.mem_map_of_mem hd, { d with family := familyOf address, endpoint }, ?_, ?_⟩
  · refine (normalize_toJson (hpriority ▸ hp c hc)).mpr ⟨endpoint, address, port, he ▸ hparse, ht ▸ haddress, rfl⟩
  · simp only [Candidate.path, ht, hpriority]

end Lists

/-! ### The offer again -/

/-- What is probed after an offer does not depend on the order of its candidates. -/
theorem readOffer_reordered {env env' : OfferEnv} {data data' : Json} {controller controller' : Controller}
    {values values' : List Json} {o o' : Offer} (h : Reordered data data' values values')
    (hgenerated : ∀ v ∈ values, Generated v) (hunambiguous : Unambiguous values)
    (hlocal : env.localIpv4 = env'.localIpv4) (ho : readOffer env data controller = .ok o)
    (ho' : readOffer env' data' controller' = .ok o') : o.candidates.map Candidate.path = o'.candidates.map Candidate.path := by
  obtain ⟨fields, fields', rfl, rfl, hvalues, hvalues', hrest⟩ := h.offers
  obtain ⟨-, vs, legacy, type, hvs, hlegacy, htype, hselect⟩ := readOffer_ok ho
  obtain ⟨-, vs', legacy', type', hvs', hlegacy', htype', hselect'⟩ := readOffer_ok ho'
  rw [hvalues] at hvs htype
  rw [hvalues'] at hvs' htype'
  have hsame := h.same
  obtain rfl : legacy = legacy' := by
    rw [hrest "endpoint" (by decide)] at hlegacy
    exact Except.ok.inj (hlegacy.symm.trans hlegacy')
  obtain rfl : type = type' := by
    rw [hrest "endpoint_type" (by decide), Option.getD_some,
      offerEndpointType_congr hlocal (peerLanEndpoint_congr hsame hunambiguous)] at htype
    exact Except.ok.inj (htype.symm.trans htype')
  rw [Option.getD_some] at hvs hvs'
  have hassigned : ∀ {ws : List Json} {us : List Candidate}, (∀ v ∈ ws, Generated v) →
      validateCandidates (.arr ws) = .ok us → ∀ c ∈ us, Assigned c.type c.priority := by
    intro ws us hws hus c hc
    obtain ⟨v, hv, hvc⟩ := (mem_validated hus).1 c hc
    exact assigned_validated (hws v hv) hvc
  have hvs₁ := hassigned hgenerated hvs
  have hvs₂ := hassigned (fun v hv => hgenerated v ((hsame v).mpr hv)) hvs'
  refine select_paths (fun v hv a ha => ?_) (fun p => ⟨?_, ?_⟩) hselect hselect'
  · obtain ⟨c, hc, rfl⟩ := List.mem_map.mp hv
    obtain ⟨_, _, _, -, -, rfl⟩ := (normalize_toJson (hvs₁ c hc).ne_zero).mp ha
    exact hvs₁ c hc
  · exact offers_mono (fun c hc => (hvs₁ c hc).ne_zero) fun c hc => validated_paths hsame hunambiguous hvs hvs' hc
  · exact offers_mono (fun c hc => (hvs₂ c hc).ne_zero) fun c hc =>
      validated_paths (fun v => (hsame v).symm) (hunambiguous.congr hsame) hvs' hvs hc

/-- The other fields of the offer are the same. -/
theorem same_session {env env' : OfferEnv} {data data' : Json} {controller controller' : Controller}
    {values values' : List Json} {o o' : Offer} (h : Reordered data data' values values')
    (ho : readOffer env data controller = .ok o) (ho' : readOffer env' data' controller' = .ok o') :
    o.sessionId = o'.sessionId ∧ o.peerInstanceId = o'.peerInstanceId := by
  obtain ⟨fields, fields', rfl, rfl, -, -, hrest⟩ := h.offers
  obtain ⟨⟨hsession, hinstance⟩, -⟩ := readOffer_ok ho
  obtain ⟨⟨hsession', hinstance'⟩, -⟩ := readOffer_ok ho'
  rw [Json.item, hrest "session_id" (by decide)] at hsession
  rw [hrest "peer_instance_id" (by decide)] at hinstance
  exact ⟨Except.ok.inj (hsession.symm.trans hsession'), Except.ok.inj (hinstance.symm.trans hinstance')⟩

/-- The Direct stays: no command is issued, and the entry is still in Direct. -/
def KeepsDirect (sl sl' : Slot) : Prop :=
  sl'.peer = sl.peer ∧ sl'.issued = sl.issued ∧ ∃ s', sl'.entry = some s' ∧ s'.mode = .direct

/-- An offer that repeats the session keeps a healthy Direct. -/
theorem offerSection_keepsDirect {o : Offer} {calls : OfferCalls} {sl : Slot} {s : PeerState}
    (hs : sl.entry = some s) (h : Repeats s o) (hmode : s.mode = .direct)
    (hroute : holdsRoute sl.peer o.peerIp = true) (hfresh : freshHandshake sl.peer o.now = true) :
    (offerSection o calls).wp (fun _ => KeepsDirect sl) (fun _ => KeepsDirect sl) sl := by
  have hkept : KeepsDirect sl sl := ⟨rfl, rfl, s, hs, hmode⟩
  rw [offerSection, wp_bind, wp_queryPeers]
  refine ⟨fun _ => ?_, fun _ _ => hkept⟩
  rw [wp_bind, wp_entry, hs]
  cases hc : sessionCheck (some s) o with
  | stale => exact hkept
  | startChanged => exact hkept
  | current =>
    have hupdate : ∀ f g : PeerState → PeerState, (∀ s, (g s).mode = .direct) →
        KeepsDirect sl ((sl.update f).update g) := by
      intro f g hg
      refine ⟨rfl, rfl, g (f s), ?_, hg _⟩
      rw [Slot.entry_update, Slot.entry_update, hs]
      rfl
    have hdue : ∀ s', probeDue sl.peer o.peerIp o.now s' = false := fun s' => by simp [probeDue, hroute]
    simp only [acceptOffer, wp_bind, wp_pure, wp_saveState, wp_prepareOffer_repeated hs h, followDirect,
      wp_peer, Slot.peer_update, hroute, hfresh, wp_ite, wp_update, launchIfDue, wp_entry, Slot.entry_update, hs,
      Option.map_some, hdue, Bool.false_eq_true, false_imp_iff, true_and, not_false_eq_true, true_imp_iff,
      not_true_eq_false, and_true]
    exact ⟨fun _ => ⟨fun _ => hupdate _ _ fun _ => rfl, fun _ => hupdate _ _ fun _ => rfl⟩,
      fun _ => hupdate _ _ fun _ => rfl⟩

/-- Probe selection does not depend on the order in which the candidates arrive; nor does the handling of
    an offer, where its list is unambiguous. -/
theorem arrival_order {values values' : List Json} (hgenerated : ∀ v ∈ values, Generated v)
    (hsame : ∀ v, v ∈ values ↔ v ∈ values') :
    (∀ legacy type allowIpv6, ∃ cs ds, selectProbeCandidates values legacy type allowIpv6 = .ok cs ∧
      selectProbeCandidates values' legacy type allowIpv6 = .ok ds ∧ cs.map Candidate.key = ds.map Candidate.key ∧
        candidateSignature cs = candidateSignature ds) ∧
    (Unambiguous values → ∀ env env' data data' controller controller' o o',
      Reordered data data' values values' → env.localIpv4 = env'.localIpv4 →
      readOffer env data controller = .ok o → readOffer env' data' controller' = .ok o' →
      candidateSignature o.candidates = candidateSignature o'.candidates ∧
        ∀ sl s calls, sl.entry = some s → Repeats s o → s.mode = .direct →
          directPeerHealthy sl.peer o'.peerIp o'.now = true →
            (offerSection o' calls).wp (fun _ => KeepsDirect sl) (fun _ => KeepsDirect sl) sl) := by
  constructor
  · intro legacy type allowIpv6
    obtain ⟨cs, ds, hcs, hds, hpaths⟩ := select_reordered hgenerated hsame legacy type allowIpv6
    refine ⟨cs, ds, hcs, hds, ?_, ?_⟩
    · rw [← map_key_path, hpaths, map_key_path]
    · rw [← candidateSignature_path, hpaths, candidateSignature_path]
  · intro hunambiguous env env' data data' controller controller' o o' h hlocal ho ho'
    have hpaths := readOffer_reordered h hgenerated hunambiguous hlocal ho ho'
    have hsignature : candidateSignature o.candidates = candidateSignature o'.candidates := by
      rw [← candidateSignature_path, hpaths, candidateSignature_path]
    refine ⟨hsignature, fun sl s calls hs hrepeats hmode hhealthy => ?_⟩
    obtain ⟨hsession, hinstance⟩ := same_session h ho ho'
    have hrepeats' : Repeats s o' := by
      refine ⟨hsession ▸ hrepeats.session, ?_, hsignature ▸ hrepeats.signature⟩
      have hchanged := hrepeats.sameInstance
      rw [instanceChanged, hinstance] at hchanged
      exact hchanged
    rw [directPeerHealthy, Bool.and_eq_true, Bool.and_eq_true] at hhealthy
    exact offerSection_keepsDirect hs hrepeats' hmode hhealthy.1.2 hhealthy.2

/-! ### Two LAN addresses -/

/-- A `lan4` entry as its generator writes it. -/
def lanEntry (endpoint : String) : Json := .obj [("type".toList, .str "lan4".toList),
  ("endpoint".toList, .str endpoint.toList), ("priority".toList, .int 1000)]

theorem generated_lanEntry (endpoint : String) : Generated (lanEntry endpoint) :=
  ⟨_, .lan4, 1000, rfl, rfl, rfl, .inl rfl⟩

/-- The fields of an offer but for the candidates. -/
def peerFields : List (Text × Json) :=
  [("peer_key".toList, .str zeroKey.1), ("peer_ip".toList, .str "10.0.0.5".toList),
    ("session_id".toList, .str "0a1b2c3d-0000-4000-8000-00000000000f".toList), ("session_started_ns".toList, .int 5),
    ("endpoint".toList, .str "198.51.100.7:41000".toList), ("endpoint_type".toList, .str "WAN".toList)]

/-- An offer of a peer that lists the entries. -/
def listingOffer (values : List Json) : Json := .obj (peerFields ++ [("candidates".toList, .arr values)])

/-- The entries are looked up, everything else is as in any other listing. -/
theorem lookup_listing (values : List Json) (fields : List (Text × Json))
    (hfields : Json.lookup "candidates" fields = none) :
    Json.lookup "candidates" (fields ++ [("candidates".toList, .arr values)]) = some (.arr values) ∧
      ∀ name, name ≠ "candidates" →
        Json.lookup name (fields ++ [("candidates".toList, .arr values)]) = Json.lookup name fields := by
  induction fields with
  | nil =>
    refine ⟨by simp [Json.lookup], fun name hname => ?_⟩
    have hne : "candidates".toList ≠ name.toList := fun h => hname (String.toList_inj.mp h).symm
    rw [List.nil_append, Json.lookup, Json.lookup, Json.lookup, if_neg hne]
  | cons f fields ih =>
    obtain ⟨k, v⟩ := f
    rw [Json.lookup] at hfields
    split_ifs at hfields with hk
    obtain ⟨hfound, hother⟩ := ih hfields
    refine ⟨?_, fun name hname => ?_⟩
    · rw [List.cons_append, Json.lookup, if_neg hk, hfound]
    · rw [List.cons_append, Json.lookup, Json.lookup, hother name hname]

theorem reordered_listingOffer {values values' : List Json} (hsame : ∀ v, v ∈ values ↔ v ∈ values') :
    Reordered (listingOffer values) (listingOffer values') values values' := by
  have hnone : Json.lookup "candidates" peerFields = none := by decide +kernel
  obtain ⟨hfound, hother⟩ := lookup_listing values peerFields hnone
  obtain ⟨hfound', hother'⟩ := lookup_listing values' peerFields hnone
  refine ⟨⟨_, _, rfl, rfl, hfound, hfound', fun name hname => ?_⟩, hsame⟩
  rw [hother name hname, hother' name hname]

/-- The node's own subnet is 192.168.7.0/24. -/
def nearEntry : Json := lanEntry "192.168.7.3:51820"
def farEntry : Json := lanEntry "192.168.9.3:51820"

theorem mem_swap (v : Json) : v ∈ [nearEntry, farEntry] ↔ v ∈ [farEntry, nearEntry] := by
  rw [List.mem_pair, List.mem_pair, or_comm]

theorem generated_pair : ∀ v ∈ [nearEntry, farEntry], Generated v := by
  intro v hv
  rcases List.mem_pair.mp hv with rfl | rfl <;> exact generated_lanEntry _

/-- An entry in Direct at the near endpoint, in the session of the offer and of its candidates. -/
def directEntry (o : Offer) : PeerState :=
  { newPeerState o with
    mode := .direct, endpoint := "192.168.7.3:51820".toList, candidates := o.candidates,
    candidateSignature := candidateSignature o.candidates }

theorem repeats_directEntry (o : Offer) : Repeats (directEntry o) o :=
  ⟨rfl, by simp [instanceChanged, directEntry, newPeerState], rfl⟩

/-- Its WireGuard peer, with a handshake of the time 100. -/
def directSlot (o : Offer) : Slot :=
  ⟨some (directEntry o), some ⟨"192.168.7.3:51820".toList, [slash32 o.peerIp], 100, 10⟩, 0, [], []⟩

/-- A peer with two LAN addresses: the offer that lists the far one first is not probed at either, and its
    healthy Direct at the near one is removed. -/
theorem reordering_drops_direct : ∃ o o', (∀ v ∈ [nearEntry, farEntry], Generated v) ∧
    Reordered (listingOffer [nearEntry, farEntry]) (listingOffer [farEntry, nearEntry])
      [nearEntry, farEntry] [farEntry, nearEntry] ∧
    readOffer (nodeEnv 100) (listingOffer [nearEntry, farEntry]) .responder = .ok o ∧
    readOffer (nodeEnv 101) (listingOffer [farEntry, nearEntry]) .responder = .ok o' ∧
    Repeats (directEntry o) o ∧ directPeerHealthy (directSlot o).peer o'.peerIp o'.now = true ∧
      ((offerSection o' .succeed).run (directSlot o)).2.peer = none := by
  have hfirst : (readOffer (nodeEnv 100) (listingOffer [nearEntry, farEntry]) .responder).toOption.any (fun o =>
      (readOffer (nodeEnv 101) (listingOffer [farEntry, nearEntry]) .responder).toOption.any fun o' =>
        directPeerHealthy (directSlot o).peer o'.peerIp o'.now &&
          decide (((offerSection o' .succeed).run (directSlot o)).2.peer = none)) = true := by decide +kernel
  cases ho : readOffer (nodeEnv 100) (listingOffer [nearEntry, farEntry]) .responder with
  | error e => simp [ho, Except.toOption] at hfirst
  | ok o =>
    cases ho' : readOffer (nodeEnv 101) (listingOffer [farEntry, nearEntry]) .responder with
    | error e => simp [ho, ho', Except.toOption] at hfirst
    | ok o' =>
      simp only [ho, ho', Except.toOption, Option.any_some, Bool.and_eq_true, decide_eq_true_eq] at hfirst
      exact ⟨o, o', generated_pair, reordered_listingOffer mem_swap, rfl, rfl, repeats_directEntry o, hfirst⟩

/-- Two LAN entries in either order. -/
theorem arrival_order_pair : ∃ cs ds,
    selectProbeCandidates [nearEntry, farEntry] [] (.str "LAN".toList) true = .ok cs ∧
      selectProbeCandidates [farEntry, nearEntry] [] (.str "LAN".toList) true = .ok ds ∧
        cs.map Candidate.key = ds.map Candidate.key ∧ candidateSignature cs = candidateSignature ds :=
  (arrival_order generated_pair mem_swap).1 [] (.str "LAN".toList) true

end Agent
