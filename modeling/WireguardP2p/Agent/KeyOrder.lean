import WireguardP2p.Python.JsonText
import WireguardP2p.Agent.Sections

/-! What is signed is printed with the keys of every object in order. The handlers look their fields up by
    name, so they read the same of the printed payload as of the payload that was built: `readOffer` and
    `readRemoval` do not depend on the order of the keys. -/

namespace Python.Json
open Ipaddress

/-- With distinct keys, a field is found wherever it stands. -/
theorem lookup_eq_some {name : String} {v : Json} {fs : List (Text × Json)} (h : (fs.map Prod.fst).Nodup) :
    lookup name fs = some v ↔ (name.toList, v) ∈ fs := by
  induction fs with
  | nil => simp [lookup]
  | cons f fs ih =>
    obtain ⟨k, u⟩ := f
    rw [List.map_cons, List.nodup_cons] at h
    rw [lookup, List.mem_cons]
    by_cases hk : k = name.toList
    · have hnot : (name.toList, v) ∉ fs := fun hm => h.1 (List.mem_map.mpr ⟨_, hm, hk.symm⟩)
      rw [if_pos hk, or_iff_left hnot, Option.some.injEq, Prod.mk.injEq]
      exact ⟨fun hu => ⟨hk.symm, hu.symm⟩, fun hu => hu.2.symm⟩
    · rw [if_neg hk, ih h.2, or_iff_right fun he => hk (Prod.mk.inj he).1.symm]

theorem lookup_perm {name : String} {fs gs : List (Text × Json)} (h : fs.Perm gs) (hn : (fs.map Prod.fst).Nodup) :
    lookup name fs = lookup name gs := by
  have hn' : (gs.map Prod.fst).Nodup := (h.map Prod.fst).nodup_iff.mp hn
  ext v
  rw [lookup_eq_some hn, lookup_eq_some hn', h.mem_iff]

theorem lookup_sortFields (name : String) (fs : List (Text × Json)) :
    lookup name (sortFields fs) = (lookup name fs).map sortKeys := by
  induction fs with
  | nil => rfl
  | cons f fs ih =>
    rw [sortFields, lookup, lookup, ih]
    split <;> rfl

theorem sortKeys_obj (fields : List (Text × Json)) : (obj fields).sortKeys =
    obj ((sortFields fields).mergeSort fun a b => keyLe a.1 b.1) := by rw [sortKeys]

/-- A field of the sorted object is the field of the object, sorted. -/
theorem lookup_sortKeys {fields : List (Text × Json)} (h : (obj fields).Printable) (name : String) :
    lookup name ((sortFields fields).mergeSort fun a b => keyLe a.1 b.1) = (lookup name fields).map sortKeys := by
  have hperm := List.mergeSort_perm (sortFields fields) fun a b => keyLe a.1 b.1
  have hnodup : ((sortFields fields).map Prod.fst).Nodup := by
    rw [map_fst_sortFields]
    exact h.1
  rw [← lookup_perm hperm.symm hnodup, lookup_sortFields]

theorem item_sortKeys {v : Json} (h : v.Printable) (name : String) :
    v.sortKeys.item name = (v.item name).map sortKeys := by
  cases v with
  | obj fields =>
    rw [sortKeys_obj, item, lookup_sortKeys h, item]
    cases lookup name fields <;> rfl
  | arr items => rw [sortKeys]; rfl
  | _ => rfl

theorem get_sortKeys {v : Json} (h : v.Printable) (name : String) :
    v.sortKeys.get name = (v.get name).map fun o => o.map sortKeys := by
  cases v with
  | obj fields =>
    rw [sortKeys_obj, get, lookup_sortKeys h, get]
    rfl
  | arr items => rw [sortKeys]; rfl
  | _ => rfl

/-- The fields of a printable object are printable. -/
theorem printable_lookup {fields : List (Text × Json)} (h : (obj fields).Printable) {name : String} {v : Json}
    (hv : lookup name fields = some v) : v.Printable :=
  printableFields_iff.mp h.2 _ ((lookup_eq_some h.1).mp hv)

theorem printable_item {v u : Json} (h : v.Printable) {name : String} (hu : v.item name = .ok u) : u.Printable := by
  cases v with
  | obj fields =>
    rw [item] at hu
    cases hl : lookup name fields with
    | none =>
      rw [hl] at hu
      cases hu
    | some w =>
      rw [hl] at hu
      exact Except.ok.inj hu ▸ printable_lookup h hl
  | _ => cases hu

theorem printable_get {v u : Json} (h : v.Printable) {name : String} (hu : v.get name = .ok (some u)) :
    u.Printable := by
  cases v with
  | obj fields => exact printable_lookup h (Except.ok.inj hu)
  | _ => cases hu

theorem length_sortItems (vs : List Json) : (sortItems vs).length = vs.length := by
  induction vs with
  | nil => rfl
  | cons v vs ih => rw [sortItems, List.length_cons, ih, List.length_cons]

theorem length_sortFields (fs : List (Text × Json)) : (sortFields fs).length = fs.length := by
  induction fs with
  | nil => rfl
  | cons f fs ih => rw [sortFields, List.length_cons, ih, List.length_cons]

theorem isEmpty_congr {α β : Type} {l : List α} {m : List β} (h : l.length = m.length) : l.isEmpty = m.isEmpty := by
  cases l <;> cases m <;> simp at h ⊢

theorem truthy_sortKeys (v : Json) : v.sortKeys.truthy = v.truthy := by
  cases v with
  | obj fields =>
    rw [sortKeys_obj, truthy, truthy, isEmpty_congr ((List.length_mergeSort _).trans (length_sortFields fields))]
  | arr items => rw [sortKeys, truthy, truthy, isEmpty_congr (length_sortItems items)]
  | _ => rfl

/-! ### Programs that read fields -/

section Reading
variable {v : Json} {β : Type}

theorem item_bind (h : v.Printable) (name : String) {f g : Json → Except Raised β}
    (hfg : ∀ u : Json, u.Printable → f u.sortKeys = g u) : (v.sortKeys.item name >>= f) = (v.item name >>= g) := by
  rw [item_sortKeys h]
  cases hu : v.item name with
  | error e => rfl
  | ok u => exact hfg u (printable_item h hu)

theorem get_bind (h : v.Printable) (name : String) {f g : Option Json → Except Raised β}
    (hfg : ∀ o : Option Json, (∀ u ∈ o, u.Printable) → f (o.map sortKeys) = g o) :
    (v.sortKeys.get name >>= f) = (v.get name >>= g) := by
  rw [get_sortKeys h]
  cases hu : v.get name with
  | error e => rfl
  | ok o => exact hfg o fun u ho => printable_get h (ho ▸ hu)

end Reading

end Python.Json

namespace Agent
open Ipaddress Python Net Candidates

section Fields
variable (v : Json)

theorem validatePublicKey_sortKeys : validatePublicKey v.sortKeys = validatePublicKey v := by
  cases v <;> simp only [Json.sortKeys, validatePublicKey]

theorem toIpAddress_sortKeys : toIpAddress v.sortKeys = toIpAddress v := by
  cases v <;> simp only [Json.sortKeys, toIpAddress]

theorem validatePeerIp_sortKeys (listenAddress : Text) :
    validatePeerIp listenAddress v.sortKeys = validatePeerIp listenAddress v := by
  rw [validatePeerIp, toIpAddress_sortKeys, validatePeerIp]

theorem validateSessionId_sortKeys : validateSessionId v.sortKeys = validateSessionId v := by
  cases v <;> simp only [Json.sortKeys, validateSessionId]

theorem toInt_sortKeys : toInt v.sortKeys = toInt v := by
  cases v <;> simp only [Json.sortKeys, toInt]

theorem toFloat_sortKeys : toFloat v.sortKeys = toFloat v := by
  cases v <;> simp only [Json.sortKeys, toFloat]

theorem validateSessionStartedNs_sortKeys (nowNs : ℤ) :
    validateSessionStartedNs nowNs v.sortKeys = validateSessionStartedNs nowNs v := by
  rw [validateSessionStartedNs, toInt_sortKeys, validateSessionStartedNs]

theorem instanceHex_sortKeys : instanceHex v.sortKeys = instanceHex v := by
  cases v <;> simp only [Json.sortKeys, instanceHex, uuidSource]

theorem validatePeerInstanceId_sortKeys (o : Option Json) :
    validatePeerInstanceId (o.map Json.sortKeys) = validatePeerInstanceId o := by
  cases o with
  | none => rfl
  | some v =>
    unfold validatePeerInstanceId
    simp only [Option.map_some, Json.truthy_sortKeys, instanceHex_sortKeys]

theorem readEndpoint_sortKeys : readEndpoint v.sortKeys = readEndpoint v := by
  cases v <;> simp only [Json.sortKeys, readEndpoint, splitHostPort]

theorem isLan_sortKeys : isLan v.sortKeys = isLan v := by
  cases v <;> simp only [Json.sortKeys, isLan]

theorem readReason_sortKeys (o : Option Json) : readReason (o.map Json.sortKeys) = readReason o := by
  rcases o with _ | v
  · rfl
  · cases v <;> simp only [Option.map_some, Json.sortKeys, readReason]

theorem lookupType_sortKeys (allowed : List CandidateType) (o : Option Json) :
    lookupType allowed (o.map Json.sortKeys) = lookupType allowed o := by
  rcases o with _ | v
  · rfl
  · cases v <;> simp only [Option.map_some, Json.sortKeys, lookupType]

theorem familyMatches_sortKeys (family : Family) (o : Option Json) :
    familyMatches family (o.map Json.sortKeys) = familyMatches family o := by
  rcases o with _ | v
  · rfl
  · cases v <;> simp only [Option.map_some, Json.sortKeys, familyMatches]

theorem validateEndpoint_sortKeys : validateEndpoint v.sortKeys = validateEndpoint v := by
  rw [validateEndpoint, readEndpoint_sortKeys, validateEndpoint]

theorem getD_sortKeys (o : Option Json) {d : Json} (hd : d.sortKeys = d) :
    (o.map Json.sortKeys).getD d = (o.getD d).sortKeys := by
  cases o with
  | none => exact hd.symm
  | some v => rfl

end Fields

/-! ### Candidates -/

theorem validateCandidate_sortKeys (p : Policy) {v : Json} (h : v.Printable) :
    p.validateCandidate v.sortKeys = p.validateCandidate v := by
  cases v with
  | obj fields =>
    rw [Json.sortKeys_obj]
    unfold Policy.validateCandidate
    simp only [Json.lookup_sortKeys h, lookupType_sortKeys, familyMatches_sortKeys,
      getD_sortKeys _ (show (Json.str []).sortKeys = .str [] from rfl),
      getD_sortKeys _ (show (Json.int 0).sortKeys = .int 0 from rfl),
      getD_sortKeys _ (show (Json.bool false).sortKeys = .bool false from rfl),
      readEndpoint_sortKeys, toInt_sortKeys, Json.truthy_sortKeys]
  | arr items => rw [Json.sortKeys]; rfl
  | _ => rfl

theorem mapM_sortItems {β : Type} {f : Json → Except Raised β} (hf : ∀ v : Json, v.Printable → f v.sortKeys = f v)
    {vs : List Json} (h : Json.PrintableItems vs) : (Json.sortItems vs).mapM f = vs.mapM f := by
  induction vs with
  | nil => rfl
  | cons v vs ih => rw [Json.sortItems, List.mapM_cons, List.mapM_cons, hf v h.1, ih h.2]

theorem validateCandidates_sortKeys (p : Policy) {v : Json} (h : v.Printable) :
    p.validateCandidates v.sortKeys = p.validateCandidates v := by
  cases v with
  | arr items =>
    rw [Json.sortKeys]
    unfold Policy.validateCandidates
    dsimp only
    rw [Json.length_sortItems, mapM_sortItems (fun u hu => validateCandidate_sortKeys p hu) h]
  | obj fields => rw [Json.sortKeys_obj]; rfl
  | _ => rfl

theorem peerLanEndpoint_sortItems {vs : List Json} (h : Json.PrintableItems vs) :
    peerLanEndpoint (Json.sortItems vs) = (peerLanEndpoint vs).sortKeys := by
  induction vs with
  | nil => rfl
  | cons v vs ih =>
    rw [Json.sortItems]
    cases v with
    | obj fields =>
      rw [Json.sortKeys_obj]
      unfold peerLanEndpoint
      rw [Json.lookup_sortKeys h.1, Json.lookup_sortKeys h.1, ih h.2]
      cases Json.lookup "type" fields with
      | none => rfl
      | some u =>
        cases u with
        | str t =>
          simp only [Option.map_some, Json.sortKeys]
          split
          · exact getD_sortKeys _ rfl
          · rfl
        | arr items => simp only [Option.map_some, Json.sortKeys]
        | obj fields => simp only [Option.map_some, Json.sortKeys]
        | _ => rfl
    | arr items =>
      rw [Json.sortKeys]
      exact ih h.2
    | _ => exact ih h.2

theorem samePrivateSubnet_sortKeys (ip : Text) (v : Json) : samePrivateSubnet ip v.sortKeys = samePrivateSubnet ip v := by
  unfold samePrivateSubnet parseEndpoint
  rw [readEndpoint_sortKeys]

/-- The endpoint type of the sorted offer reads as that of the offer. -/
theorem offerEndpointType_bind (env : OfferEnv) {e c : Json} (hc : c.Printable) {β : Type}
    {f g : Json → Except Raised β} (hfg : ∀ u : Json, f u.sortKeys = g u) :
    (offerEndpointType env e.sortKeys c.sortKeys >>= f) = (offerEndpointType env e c >>= g) := by
  have hpick {b d : Bool} (hb : b = d) : ((if b = true then Except.ok (Json.str "LAN".toList) else .ok e.sortKeys) >>= f) =
      ((if d = true then .ok (.str "LAN".toList) else .ok e) >>= g) := by
    subst hb
    cases b with
    | false => exact hfg e
    | true => exact hfg (.str _)
  unfold offerEndpointType
  rw [isLan_sortKeys]
  split
  · exact hfg e
  · cases env.localIpv4 with
    | error e => rfl
    | ok ip =>
      cases c with
      | arr items =>
        rw [Json.sortKeys]
        dsimp only
        rw [peerLanEndpoint_sortItems hc]
        exact hpick (samePrivateSubnet_sortKeys ip (peerLanEndpoint items))
      | obj fields =>
        rw [Json.sortKeys_obj]
        exact hpick rfl
      | _ => exact hpick rfl

/-- What `handle_offer` makes of the endpoint type. -/
theorem endpointType_bind (env : OfferEnv) {data listed : Json} (h : data.Printable) (hl : listed.Printable)
    (advertised : List Json) (legacy : Text) {β : Type} {f g : List Candidate → Except Raised β}
    (hfg : ∀ cs, f cs = g cs) :
    (data.sortKeys.get "endpoint_type" >>= fun o =>
        offerEndpointType env (o.getD (.str "WAN".toList)) listed.sortKeys >>= fun endpointType =>
          selectProbeCandidates advertised legacy endpointType true >>= f) =
      (data.get "endpoint_type" >>= fun o =>
        offerEndpointType env (o.getD (.str "WAN".toList)) listed >>= fun endpointType =>
          selectProbeCandidates advertised legacy endpointType true >>= g) := by
  refine Json.get_bind h _ fun o ho => ?_
  rw [getD_sortKeys o (show (Json.str "WAN".toList).sortKeys = .str "WAN".toList from rfl)]
  refine offerEndpointType_bind env hl fun u => ?_
  unfold selectProbeCandidates
  rw [isLan_sortKeys]
  exact bind_congr hfg

/-! ### The handlers -/

/-- `handle_remove` reads the same in any order of the keys. -/
theorem readRemoval_sortKeys (listenAddress : Text) {data : Json} (h : data.Printable) :
    readRemoval listenAddress data.sortKeys = readRemoval listenAddress data := by
  unfold readRemoval
  refine Json.item_bind h _ fun u hu => ?_
  rw [validatePublicKey_sortKeys]
  refine bind_congr fun key => Json.item_bind h _ fun u hu => ?_
  rw [validatePeerIp_sortKeys]
  refine bind_congr fun peerIp => Json.item_bind h _ fun u hu => ?_
  rw [validateSessionId_sortKeys]
  refine bind_congr fun sessionId => Json.get_bind h _ fun o ho => ?_
  rw [readReason_sortKeys]

/-- `handle_offer` reads the same in any order of the keys. -/
theorem readOffer_sortKeys (env : OfferEnv) (controller : Controller) {data : Json} (h : data.Printable) :
    readOffer env data.sortKeys controller = readOffer env data controller := by
  unfold readOffer
  refine Json.item_bind h _ fun u hu => ?_
  rw [validatePublicKey_sortKeys]
  refine bind_congr fun key => Json.item_bind h _ fun u hu => ?_
  rw [validatePeerIp_sortKeys]
  refine bind_congr fun peerIp => Json.item_bind h _ fun u hu => ?_
  rw [validateSessionId_sortKeys]
  refine bind_congr fun sessionId => Json.item_bind h _ fun u hu => ?_
  rw [validateSessionStartedNs_sortKeys]
  refine bind_congr fun started => Json.get_bind h _ fun o ho => ?_
  rw [validatePeerInstanceId_sortKeys]
  refine bind_congr fun instanceId => Json.get_bind h _ fun listed hlisted => ?_
  have hl : (listed.getD (.arr [])).Printable := by
    cases listed with
    | none => trivial
    | some v => exact hlisted v rfl
  dsimp only
  rw [getD_sortKeys listed (show (Json.arr []).sortKeys = .arr [] by rw [Json.sortKeys, Json.sortItems]), validateCandidates,
    validateCandidates_sortKeys policy hl]
  refine bind_congr fun advertised => Json.get_bind h _ fun endpoint hendpoint => ?_
  -- the three ways to the legacy endpoint go on alike
  rcases endpoint with _ | endpoint
  on_goal 2 =>
    simp only [Option.map_some, Json.truthy_sortKeys, validateEndpoint_sortKeys]
    split
  all_goals
    refine bind_congr fun legacy => endpointType_bind env h hl _ _ fun cs => ?_
    by_cases hne : cs = []
    · rw [dif_pos hne, dif_pos hne]
    · rw [dif_neg hne, dif_neg hne]
      refine Json.get_bind h _ fun lease hlease => ?_
      rcases lease with _ | lease
      · rfl
      · simp only [Option.map_some, toFloat_sortKeys]

end Agent
