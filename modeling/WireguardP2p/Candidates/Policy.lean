import WireguardP2p.Candidates.Candidate

/-! The two candidate validators. Coordinator and agent read a JSON list entry by entry, keep the
    first of each `(type, endpoint)` and sort by falling priority; which types are allowed, which
    addresses a type may have and whether a `verified` mark is kept is the `Policy` of the component.
    `validateCandidates_isOk` says which lists a policy accepts, `validateCandidates_self` which lists
    it returns as they are. -/

namespace Candidates
open Ipaddress Python Net

/-- `value.get("type", "")` looked up in a set or dict of type names; a list or dict is unhashable. -/
def lookupType (allowed : List CandidateType) : Option Json → Except Raised (Option CandidateType)
  | some (.str t) => .ok (allowed.find? fun u => decide (u.name.toList = t))
  | some (.arr _) => .error .typeError
  | some (.obj _) => .error .typeError
  | _ => .ok none

/-- `value.get("family") in (None, "", family)`. -/
def familyMatches (family : Family) : Option Json → Bool
  | none => true
  | some .null => true
  | some (.str t) => t == [] || t == family.name.toList
  | _ => false

/-- What a component demands of a candidate. -/
structure Policy where
  allowedTypes : List CandidateType
  /-- The text of the refusal, if the type may not have the address. -/
  refusal : CandidateType → IpAddress → Option String
  keepVerified : Bool

/-- One turn of the loop in `validate_candidates`, up to the check for duplicates. -/
def Policy.validateCandidate (p : Policy) : Json → Except Raised Candidate
  | .obj fields => do
    let some type ← lookupType p.allowedTypes (Json.lookup "type" fields)
      | .error (.valueError "invalid candidate type")
    let e ← readEndpoint ((Json.lookup "endpoint" fields).getD (.str []))
    if let some message := p.refusal type e.address then .error (.valueError message)
    let family := familyOf e.address
    if !familyMatches family (Json.lookup "family" fields) then
      .error (.valueError "candidate family mismatch")
    let priority ← toInt ((Json.lookup "priority" fields).getD (.int 0))
    if ¬ (0 ≤ priority ∧ priority ≤ 2000) then .error (.valueError "invalid candidate priority")
    .ok { type, family, endpoint := e.text, priority,
          verified := p.keepVerified && ((Json.lookup "verified" fields).getD (.bool false)).truthy }
  | _ => .error (.valueError "invalid candidate")

/-- `MAX_CANDIDATES` of the coordinator and the bound in the agent. -/
def maxCandidates : ℕ := 16

/-- `validate_candidates`. -/
def Policy.validateCandidates (p : Policy) : Json → Except Raised (List Candidate)
  | .null => .ok []
  | .arr values =>
    if maxCandidates < values.length then .error (.valueError "invalid candidates")
    else do
      let candidates ← values.mapM p.validateCandidate
      .ok (sortByPriority (keepFirst Candidate.key [] candidates))
  | _ => .error (.valueError "invalid candidates")

/-! ### Which lists a policy accepts -/

theorem mapM_isOk {α β ε : Type} {f : α → Except ε β} : ∀ {l : List α},
    (∃ r, l.mapM f = .ok r) ↔ ∀ a ∈ l, ∃ b, f a = .ok b
  | [] => by simp [pure, Except.pure]
  | a :: l => by
      rw [List.mapM_cons, List.forall_mem_cons, ← mapM_isOk]
      cases f a with
      | error e => simp [bind, Except.bind]
      | ok b => cases l.mapM f <;> simp [bind, Except.bind, pure, Except.pure]

theorem of_mem_mapM {α β ε : Type} {f : α → Except ε β} : ∀ {l : List α} {r : List β},
    l.mapM f = .ok r → ∀ b ∈ r, ∃ a ∈ l, f a = .ok b
  | [], r, h => by
      rw [List.mapM_nil] at h
      cases h
      simp
  | a :: l, r, h => by
      rw [List.mapM_cons] at h
      cases ha : f a with
      | error e => simp [ha, bind, Except.bind] at h
      | ok b =>
        cases hl : l.mapM f with
        | error e => simp [ha, hl, bind, Except.bind] at h
        | ok bs =>
          simp only [ha, hl, bind, Except.bind, pure, Except.pure, Except.ok.injEq] at h
          subst h
          rintro c (_ | ⟨_, hc⟩)
          · exact ⟨a, List.mem_cons_self .., ha⟩
          · obtain ⟨a', ha', hfa⟩ := of_mem_mapM hl c hc
            exact ⟨a', List.mem_cons_of_mem a ha', hfa⟩

theorem mem_of_mapM {α β ε : Type} {f : α → Except ε β} : ∀ {l : List α} {r : List β}, l.mapM f = .ok r →
    ∀ a ∈ l, ∃ b ∈ r, f a = .ok b := by
  intro l
  induction l with
  | nil => exact fun _ a ha => absurd ha List.not_mem_nil
  | cons x xs ih =>
    intro r h a ha
    rw [List.mapM_cons] at h
    cases hx : f x with
    | error e => simp [hx, bind, Except.bind] at h
    | ok y =>
      cases hxs : xs.mapM f with
      | error e => simp [hx, hxs, bind, Except.bind] at h
      | ok ys =>
        simp only [hx, hxs, bind, Except.bind, pure, Except.pure, Except.ok.injEq] at h
        subst h
        rcases List.mem_cons.mp ha with rfl | ha
        · exact ⟨y, List.mem_cons_self, hx⟩
        · obtain ⟨b, hb, hab⟩ := ih hxs a ha
          exact ⟨b, List.mem_cons_of_mem y hb, hab⟩

theorem mapM_map_ok {α β ε : Type} {f : α → Except ε β} {g : β → α} : ∀ {l : List β},
    (∀ b ∈ l, f (g b) = .ok b) → (l.map g).mapM f = .ok l
  | [], _ => rfl
  | b :: l, h => by
      rw [List.map_cons, List.mapM_cons, h b (List.mem_cons_self ..),
        mapM_map_ok fun c hc => h c (List.mem_cons_of_mem b hc)]
      rfl

theorem length_mapM {α β ε : Type} {f : α → Except ε β} : ∀ {l : List α} {r : List β},
    l.mapM f = .ok r → r.length = l.length
  | [], r, h => by
      rw [List.mapM_nil] at h
      cases h
      rfl
  | a :: l, r, h => by
      rw [List.mapM_cons] at h
      cases ha : f a with
      | error e => simp [ha, bind, Except.bind] at h
      | ok b =>
        cases hl : l.mapM f with
        | error e => simp [ha, hl, bind, Except.bind] at h
        | ok bs =>
          simp only [ha, hl, bind, Except.bind, pure, Except.pure, Except.ok.injEq] at h
          rw [← h, List.length_cons, List.length_cons, length_mapM hl]

/-- The candidate is in normal form, with the endpoint `e` behind its text. -/
structure Candidate.Backed (c : Candidate) (e : Endpoint) : Prop where
  endpoint_eq : c.endpoint = e.text
  closed : ']' ∉ e.address.compressed
  family_eq : c.family = familyOf e.address
  priority_range : 0 ≤ c.priority ∧ c.priority ≤ 2000

theorem Candidate.Backed.read {c : Candidate} {e : Endpoint} (h : c.Backed e) :
    readEndpoint (.str e.text) = .ok e := by
  rw [Endpoint.text, readEndpoint_format h.closed e.port_range.2,
    checkEndpoint_ok e.port_range e.usable]

theorem lookupType_name {allowed : List CandidateType} {t : CandidateType} (h : t ∈ allowed) :
    lookupType allowed (some (.str t.name.toList)) = .ok (some t) := by
  have hfind : allowed.find? (fun u => decide (u.name.toList = t.name.toList)) = some t := by
    cases hfound : allowed.find? (fun u => decide (u.name.toList = t.name.toList)) with
    | none => exact absurd (List.find?_eq_none.mp hfound t h) (by simp)
    | some u =>
      have hu := List.find?_some hfound
      rw [decide_eq_true_eq] at hu
      rw [CandidateType.name_injective hu]
  rw [lookupType, hfind]

theorem mem_of_lookupType {allowed : List CandidateType} {value : Option Json} {t : CandidateType}
    (h : lookupType allowed value = .ok (some t)) : t ∈ allowed := by
  unfold lookupType at h
  split at h
  · exact List.mem_of_find?_eq_some (Except.ok.inj h)
  · cases h
  · cases h
  · cases h

namespace Policy
variable {p : Policy} {c : Candidate}

/-- What a policy makes of the dictionary of a candidate in normal form. -/
theorem validateCandidate_toJson {e : Endpoint} (hback : c.Backed e) (htype : c.type ∈ p.allowedTypes)
    (hrefusal : p.refusal c.type e.address = none) :
    p.validateCandidate c.toJson = .ok { c with verified := p.keepVerified && c.verified } := by
  have htypeName : Json.lookup "type" [("type".toList, .str c.type.name.toList),
      ("family".toList, .str c.family.name.toList), ("endpoint".toList, .str c.endpoint),
      ("priority".toList, .int c.priority), ("verified".toList, .bool c.verified)] =
        some (.str c.type.name.toList) := rfl
  have hpriority := hback.priority_range
  unfold validateCandidate Candidate.toJson
  simp only [htypeName, lookupType_name htype]
  simp [Json.lookup, hback.read, hrefusal, bind, Except.bind, familyMatches, toInt, Json.truthy,
    hback.family_eq, hback.endpoint_eq, hpriority]

/-- No policy accepts a candidate whose endpoint cannot be read. -/
theorem validateCandidate_unreadable {err : Raised} (h : readEndpoint (.str c.endpoint) = .error err)
    (d : Candidate) : p.validateCandidate c.toJson ≠ .ok d := by
  unfold validateCandidate Candidate.toJson
  cases htype : lookupType p.allowedTypes (some (.str c.type.name.toList)) with
  | error e => simp [Json.lookup, htype, bind, Except.bind]
  | ok found => cases found <;> simp [Json.lookup, htype, h, bind, Except.bind]

/-- No policy accepts a candidate with an address it refuses to the type. -/
theorem validateCandidate_refused {e : Endpoint} (h : readEndpoint (.str c.endpoint) = .ok e)
    {message : String} (hrefusal : p.refusal c.type e.address = some message) (d : Candidate) :
    p.validateCandidate c.toJson ≠ .ok d := by
  unfold validateCandidate Candidate.toJson
  cases htype : lookupType p.allowedTypes (some (.str c.type.name.toList)) with
  | error err => simp [Json.lookup, htype, bind, Except.bind]
  | ok found =>
    cases found with
    | none => simp [Json.lookup, htype, bind, Except.bind]
    | some t =>
      have ht : t = c.type := by
        rw [lookupType, Except.ok.injEq] at htype
        have hname := List.find?_some htype
        exact CandidateType.name_injective (of_decide_eq_true hname)
      simp [Json.lookup, htype, h, ht, hrefusal, bind, Except.bind]

/-- What a policy says of an entry it accepts. -/
theorem validateCandidate_ok {v : Json} (h : p.validateCandidate v = .ok c) :
    ∃ e, c.Backed e ∧ c.type ∈ p.allowedTypes ∧ p.refusal c.type e.address = none ∧
      (p.keepVerified = false → c.verified = false) := by
  cases v with
  | obj fields =>
    unfold validateCandidate at h
    cases htype : lookupType p.allowedTypes (Json.lookup "type" fields) with
    | error err => simp [htype, bind, Except.bind] at h
    | ok found =>
      cases found with
      | none => simp [htype, bind, Except.bind] at h
      | some type =>
        cases hread : readEndpoint ((Json.lookup "endpoint" fields).getD (.str [])) with
        | error err => simp [htype, hread, bind, Except.bind] at h
        | ok e =>
          cases hrefusal : p.refusal type e.address with
          | some message => simp [htype, hread, hrefusal, bind, Except.bind] at h
          | none =>
            cases hint : toInt ((Json.lookup "priority" fields).getD (.int 0)) with
            | error err =>
              simp only [htype, hread, hrefusal, hint, bind, Except.bind] at h
              split at h <;> cases h
            | ok priority =>
              simp only [htype, hread, hrefusal, hint, bind, Except.bind] at h
              split at h
              · cases h
              · split at h
                · cases h
                · rename_i hpriority
                  cases h
                  exact ⟨e, ⟨rfl, not_mem_compressed_of_readEndpoint hread, rfl,
                    not_not.mp hpriority⟩, mem_of_lookupType htype, hrefusal, fun hkeep => by
                      simp [hkeep]⟩
  | _ => cases h

/-- A list is accepted when it is short enough and each entry is. -/
theorem validateCandidates_isOk {values : List Json} :
    (∃ r, p.validateCandidates (.arr values) = .ok r) ↔
      values.length ≤ maxCandidates ∧ ∀ v ∈ values, ∃ c, p.validateCandidate v = .ok c := by
  rw [validateCandidates, ← mapM_isOk]
  by_cases hlen : maxCandidates < values.length
  · simp [hlen, Nat.not_le.mpr hlen]
  · rw [if_neg hlen]
    cases values.mapM p.validateCandidate with
    | error e => simp [bind, Except.bind]
    | ok cs => simpa [bind, Except.bind] using Nat.le_of_not_lt hlen

/-- Every candidate a policy returns is in normal form and allowed. -/
theorem validateCandidates_ok {values : Json} {cs : List Candidate}
    (h : p.validateCandidates values = .ok cs) (hc : c ∈ cs) :
    ∃ e, c.Backed e ∧ c.type ∈ p.allowedTypes ∧ p.refusal c.type e.address = none ∧
      (p.keepVerified = false → c.verified = false) := by
  unfold validateCandidates at h
  split at h
  · cases h
    cases hc
  · rename_i vs
    split at h
    · cases h
    · cases hmap : vs.mapM p.validateCandidate with
      | error e => simp [hmap, bind, Except.bind] at h
      | ok validated =>
        simp only [hmap, bind, Except.bind, Except.ok.injEq] at h
        rw [← h, mem_sortByPriority] at hc
        rcases mem_of_mem_keepFirst hc with hnil | hmem
        · cases hnil
        · obtain ⟨v, -, hv⟩ := of_mem_mapM hmap c hmem
          exact validateCandidate_ok hv
  · cases h

/-- Only an empty list, or none, is validated to an empty list. -/
theorem validateCandidates_eq_nil {values : Json} (h : p.validateCandidates values = .ok []) :
    values = .null ∨ values = .arr [] := by
  unfold validateCandidates at h
  split at h
  · exact Or.inl rfl
  · rename_i vs
    split at h
    · cases h
    · cases hmap : vs.mapM p.validateCandidate with
      | error e => simp [hmap, bind, Except.bind] at h
      | ok validated =>
        simp only [hmap, bind, Except.bind, Except.ok.injEq] at h
        have hlen := length_mapM hmap
        cases validated with
        | nil => exact Or.inr (by rw [List.length_eq_zero_iff.mp hlen.symm])
        | cons c cs =>
          have hmem : c ∈ sortByPriority (keepFirst Candidate.key [] (c :: cs)) :=
            mem_sortByPriority.mpr (by
              rw [keepFirst, if_neg (by simp)]
              exact subset_keepFirst (List.mem_append_right _ (List.mem_singleton.mpr rfl)))
          rw [h] at hmem
          cases hmem
  · cases h

/-- A list that is short, distinct and ordered comes back as it is, if each entry does. -/
theorem validateCandidates_self {cs : List Candidate} (hlen : cs.length ≤ maxCandidates)
    (hnodup : (cs.map Candidate.key).Nodup) (hsorted : cs.Pairwise Candidate.before)
    (heach : ∀ c ∈ cs, p.validateCandidate c.toJson = .ok c) :
    p.validateCandidates (.arr (cs.map Candidate.toJson)) = .ok cs := by
  rw [validateCandidates, if_neg (by rw [List.length_map]; omega), mapM_map_ok heach]
  show Except.ok (sortByPriority (keepFirst Candidate.key [] cs)) = Except.ok cs
  rw [keepFirst_self hnodup, sortByPriority_eq_self hsorted]

end Policy
end Candidates
