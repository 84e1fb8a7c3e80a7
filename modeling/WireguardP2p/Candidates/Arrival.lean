import WireguardP2p.Candidates.Gather
import WireguardP2p.Candidates.Signature

/-! The order in which candidates arrive. Where every type has priorities of its own, the selection is a
    function of the set of the candidates that are advertised. -/

namespace Candidates
open Ipaddress Python Net

/-- A priority a generator assigns to candidates of the type. -/
def Assigned (type : CandidateType) (priority : ℤ) : Prop :=
  priority = PRIORITY type ∨ type = .host6 ∧ priority = preferredHost6Priority

/-- No two types share a priority. -/
theorem Assigned.type_eq {t u : CandidateType} {p : ℤ} (h : Assigned t p) (h' : Assigned u p) : t = u := by
  unfold Assigned at h h'
  cases t <;> cases u <;> simp [PRIORITY, preferredHost6Priority] at h h' ⊢ <;> omega

theorem Assigned.ne_zero {t : CandidateType} {p : ℤ} (h : Assigned t p) : p ≠ 0 := by
  rcases h with rfl | ⟨-, rfl⟩
  · cases t <;> decide
  · decide

/-- The dictionary of a candidate with the priority its generator assigns. -/
structure Generated (v : Json) : Prop where
  fields : ∃ fields type priority, v = .obj fields ∧ Json.lookup "type" fields = some (.str type.name.toList) ∧
    Json.lookup "priority" fields = some (.int priority) ∧ Assigned type priority

/-- What a signature sees of a candidate, and what decides its place. -/
def Candidate.path (c : Candidate) : Candidate := { c with family := .udp4, verified := false }

/-! ### A selection sees the paths -/

section Path
variable (cs : List Candidate)

theorem keepFirst_map {α β κ : Type} [DecidableEq κ] {key : α → κ} {key' : β → κ} {f : α → β}
    (h : ∀ a, key' (f a) = key a) : ∀ cs kept : List α,
      (keepFirst key kept cs).map f = keepFirst key' (kept.map f) (cs.map f) := by
  intro cs
  induction cs with
  | nil => exact fun kept => rfl
  | cons c cs ih =>
    intro kept
    have hkeys : (kept.map f).map key' = kept.map key := by
      rw [List.map_map]
      exact List.map_congr_left fun a _ => h a
    rw [List.map_cons, keepFirst, keepFirst, h, hkeys]
    split_ifs
    · exact ih kept
    · rw [ih, List.map_append, List.map_singleton]

theorem map_path_sort : (cs.insertionSort Candidate.beforeByEndpoint).map Candidate.path =
    (cs.map Candidate.path).insertionSort Candidate.beforeByEndpoint :=
  List.map_insertionSort _ _ _ _ fun _ _ _ _ => Iff.rfl

theorem map_path_dedupe :
    (dedupeByEndpoint cs).map Candidate.path = dedupeByEndpoint (cs.map Candidate.path) := by
  rw [dedupeByEndpoint, dedupeByEndpoint, ← map_path_sort, List.filter_map]
  exact @keepFirst_map _ _ _ _ Candidate.endpoint Candidate.endpoint Candidate.path (fun _ => rfl) _ []

theorem map_path_bound :
    (boundSelection cs).map Candidate.path = boundSelection (cs.map Candidate.path) := by
  have hfind : (cs.map Candidate.path).find? (fun c => decide (c.type = .observed4)) =
      (cs.find? fun c => decide (c.type = .observed4)).map Candidate.path := List.find?_map ..
  rw [boundSelection, boundSelection, List.length_map]
  by_cases hlen : cs.length ≤ maxProbeCandidates
  · rw [if_pos hlen, if_pos hlen]
  · rw [if_neg hlen, if_neg hlen, hfind]
    cases cs.find? fun c => decide (c.type = .observed4) with
    | none => exact List.map_take ..
    | some o =>
      have hendpoints : ((cs.map Candidate.path).take maxProbeCandidates).map Candidate.endpoint =
          (cs.take maxProbeCandidates).map Candidate.endpoint := by
        rw [← List.map_take, List.map_map]
        rfl
      have ho : o.path.endpoint = o.endpoint := rfl
      dsimp only [Option.map_some]
      rw [hendpoints, ho]
      by_cases ho : o.endpoint ∈ (cs.take maxProbeCandidates).map Candidate.endpoint
      · rw [if_pos ho, if_pos ho, List.map_take]
      · rw [if_neg ho, if_neg ho, map_path_sort, List.map_append, List.map_dropLast, List.map_take,
          List.map_singleton]

theorem candidateSignature_path : candidateSignature (cs.map Candidate.path) = candidateSignature cs := by
  rw [candidateSignature, candidateSignature, List.map_map]
  rfl

theorem map_key_path : (cs.map Candidate.path).map Candidate.key = cs.map Candidate.key := by
  rw [List.map_map]
  rfl

end Path

/-- What is kept of two lists with the same elements, no two of which share a place. -/
theorem dedupe_congr {cs ds : List Candidate} (hsame : ∀ c, c ∈ cs ↔ c ∈ ds)
    (hplace : ∀ c ∈ cs, ∀ d ∈ cs, c.priority = d.priority → c.endpoint = d.endpoint → c = d) :
    dedupeByEndpoint cs = dedupeByEndpoint ds := by
  have hanti : ∀ c ∈ cs, ∀ d ∈ cs, c.endpoint = d.endpoint → c.beforeByEndpoint d → d.beforeByEndpoint c →
      c = d := by
    rintro c hc d hd he (h | ⟨h, -⟩) (h' | ⟨h', -⟩)
    · omega
    · omega
    · omega
    · exact hplace c hc d hd h'.symm.symm he
  have hanti' : ∀ c ∈ ds, ∀ d ∈ ds, c.endpoint = d.endpoint → c.beforeByEndpoint d → d.beforeByEndpoint c →
      c = d := fun c hc d hd => hanti c ((hsame c).mpr hc) d ((hsame d).mpr hd)
  have hmem : ∀ c, c ∈ dedupeByEndpoint cs ↔ c ∈ dedupeByEndpoint ds := by
    intro c
    rw [mem_dedupeByEndpoint, mem_dedupeByEndpoint, bestFor, bestFor, Ranking.best_eq_some_iff hanti,
      Ranking.best_eq_some_iff hanti']
    simp only [hsame]
  have hcs := ranked_dedupeByEndpoint cs
  have hds := ranked_dedupeByEndpoint ds
  have hperm := (List.perm_ext_iff_of_nodup hcs.nodup hds.nodup).mpr hmem
  refine hperm.eq_of_pairwise (fun a b _ _ hab hba => ?_) hcs.sorted hds.sorted
  exact absurd hba (Std.Asymm.asymm a b hab)

/-! ### Lists with the same paths -/

/-- The paths of the candidates a list of dictionaries stands for. -/
def Offers (values : List Json) (p : Candidate) : Prop :=
  ∃ v ∈ values, ∃ c, normalizeProbeCandidate v = .ok (some c) ∧ c.path = p

theorem exists_admitted {allowLan allowIpv6 : Bool} : ∀ {values : List Json},
    (∀ v ∈ values, ∃ r, normalizeProbeCandidate v = .ok r) → ∃ cs, admitted allowLan allowIpv6 values = .ok cs := by
  intro values
  induction values with
  | nil => exact fun _ => ⟨[], rfl⟩
  | cons v vs ih =>
    intro h
    obtain ⟨r, hr⟩ := h v List.mem_cons_self
    obtain ⟨cs, hcs⟩ := ih fun w hw => h w (List.mem_cons_of_mem v hw)
    simp only [admitted, hr, hcs, bind, Except.bind]
    cases r with
    | none => exact ⟨_, rfl⟩
    | some c =>
      dsimp only
      split_ifs <;> exact ⟨_, rfl⟩

/-- The legacy endpoint gets the priority of its type. -/
theorem assigned_legacy {allowLan allowIpv6 : Bool} {legacy : Text} {c : Candidate}
    (h : legacyCandidate allowLan allowIpv6 legacy = some c) : Assigned c.type c.priority := by
  rw [legacyCandidate] at h
  cases hparse : parseEndpoint (.str legacy) with
  | error err => simp [hparse] at h
  | ok parts =>
    rw [hparse] at h
    obtain ⟨t, -, rfl⟩ := Option.map_eq_some_iff.mp h
    exact Or.inl rfl

/-- Two lists that offer the same paths are selected alike. -/
theorem select_paths {values values' : List Json} {legacy : Text} {type : Json} {allowIpv6 : Bool}
    {cs ds : List Candidate} (hassigned : ∀ v ∈ values, ∀ c, normalizeProbeCandidate v = .ok (some c) →
      Assigned c.type c.priority) (hsame : ∀ p, Offers values p ↔ Offers values' p)
    (hcs : selectProbeCandidates values legacy type allowIpv6 = .ok cs)
    (hds : selectProbeCandidates values' legacy type allowIpv6 = .ok ds) :
    cs.map Candidate.path = ds.map Candidate.path := by
  rw [selectProbeCandidates] at hcs hds
  cases hvalues : admitted (isLan type) allowIpv6 values with
  | error e => simp [hvalues, bind, Except.bind] at hcs
  | ok as =>
    cases hvalues' : admitted (isLan type) allowIpv6 values' with
    | error e => simp [hvalues', bind, Except.bind] at hds
    | ok bs =>
      simp only [hvalues, hvalues', bind, Except.bind, Except.ok.injEq] at hcs hds
      generalize hlegacy : (if legacy = [] then none else legacyCandidate (isLan type) allowIpv6 legacy) = l at hcs hds
      have hl : ∀ c ∈ l.toList, Assigned c.type c.priority := by
        intro c hc
        rw [← hlegacy] at hc
        split_ifs at hc
        · cases hc
        · exact assigned_legacy (Option.mem_toList.mp hc)
      -- the paths of the admitted candidates are those that are offered and admitted
      have hpaths : ∀ {vs : List Json} {xs : List Candidate}, admitted (isLan type) allowIpv6 vs = .ok xs →
          ∀ p, p ∈ xs.map Candidate.path ↔ Offers vs p ∧ p.Admitted (isLan type) allowIpv6 := by
        intro vs xs hxs p
        rw [List.mem_map]
        constructor
        · rintro ⟨c, hc, rfl⟩
          obtain ⟨ha, v, hv, hnormal⟩ := (mem_admitted hxs).mp hc
          exact ⟨⟨v, hv, c, hnormal, rfl⟩, ha⟩
        · rintro ⟨⟨v, hv, c, hnormal, rfl⟩, ha⟩
          exact ⟨c, (mem_admitted hxs).mpr ⟨ha, v, hv, hnormal⟩, rfl⟩
      have hmem : ∀ p, p ∈ (as ++ l.toList).map Candidate.path ↔ p ∈ (bs ++ l.toList).map Candidate.path := by
        intro p
        rw [List.map_append, List.map_append, List.mem_append, List.mem_append, hpaths hvalues, hpaths hvalues',
          hsame]
      rw [← hcs, ← hds, map_path_bound, map_path_bound, map_path_dedupe, map_path_dedupe,
        dedupe_congr hmem fun c hc d hd hp he => ?_]
      obtain ⟨c, hca, rfl⟩ := List.mem_map.mp hc
      obtain ⟨d, hda, rfl⟩ := List.mem_map.mp hd
      have hall : ∀ c ∈ as ++ l.toList, Assigned c.type c.priority := by
        intro c hc
        rcases List.mem_append.mp hc with hc | hc
        · obtain ⟨-, v, hv, hnormal⟩ := (mem_admitted hvalues).mp hc
          exact hassigned v hv c hnormal
        · exact hl c hc
      have hp : c.priority = d.priority := hp
      have he : c.endpoint = d.endpoint := he
      have ht : c.type = d.type := (hall c hca).type_eq (hp ▸ hall d hda)
      simp only [Candidate.path, hp, he, ht]

/-! ### Dictionaries -/

theorem lookupType_named {allowed : List CandidateType} {t u : CandidateType}
    (h : lookupType allowed (some (.str t.name.toList)) = .ok (some u)) : u = t := by
  rw [lookupType, Except.ok.injEq] at h
  exact CandidateType.name_injective (of_decide_eq_true (@List.find?_some _ (fun u : CandidateType =>
    decide (u.name.toList = t.name.toList)) _ _ h))

theorem priorityOr_int {t : CandidateType} {p : ℤ} (h : p ≠ 0) : toInt (priorityOr t (some (.int p))) = .ok p := by
  have htruthy : (Json.int p).truthy = true := by simpa [Json.truthy] using h
  rw [priorityOr, if_pos htruthy]
  rfl

/-- What the dictionary of a generated candidate is normalized to. -/
theorem normalize_generated {v : Json} (h : Generated v) :
    ∃ r, normalizeProbeCandidate v = .ok r ∧ ∀ c, r = some c → Assigned c.type c.priority := by
  obtain ⟨fields, type, priority, rfl, htype, hpriority, hassigned⟩ := h.fields
  simp only [normalizeProbeCandidate, htype, Option.getD_some, lookupType_name (CandidateType.mem_all type), bind,
    Except.bind]
  cases parseEndpoint ((Json.lookup "endpoint" fields).getD (.str [])) with
  | error e => exact ⟨none, rfl, fun c h => by cases h⟩
  | ok parts =>
    dsimp only
    split_ifs
    · rw [hpriority, priorityOr_int hassigned.ne_zero]
      refine ⟨_, rfl, fun c h => ?_⟩
      obtain rfl := Option.some.inj h
      exact hassigned
    · exact ⟨none, rfl, fun c h => by cases h⟩

/-- The selection from two lists with the same entries, in any order and any number of times. -/
theorem select_reordered {values values' : List Json} (hgenerated : ∀ v ∈ values, Generated v)
    (hsame : ∀ v, v ∈ values ↔ v ∈ values') (legacy : Text) (type : Json) (allowIpv6 : Bool) :
    ∃ cs ds, selectProbeCandidates values legacy type allowIpv6 = .ok cs ∧
      selectProbeCandidates values' legacy type allowIpv6 = .ok ds ∧
        cs.map Candidate.path = ds.map Candidate.path := by
  have hnormal : ∀ v ∈ values, ∃ r, normalizeProbeCandidate v = .ok r := fun v hv => by
    obtain ⟨r, hr, -⟩ := normalize_generated (hgenerated v hv)
    exact ⟨r, hr⟩
  have hselect : ∀ vs : List Json, (∀ v ∈ vs, ∃ r, normalizeProbeCandidate v = .ok r) →
      ∃ cs, selectProbeCandidates vs legacy type allowIpv6 = .ok cs := by
    intro vs hvs
    obtain ⟨as, has⟩ := @exists_admitted (isLan type) allowIpv6 vs hvs
    rw [selectProbeCandidates, has]
    exact ⟨_, rfl⟩
  obtain ⟨cs, hcs⟩ := hselect values hnormal
  obtain ⟨ds, hds⟩ := hselect values' fun v hv => hnormal v ((hsame v).mpr hv)
  refine ⟨cs, ds, hcs, hds, select_paths (fun v hv c hc => ?_) (fun p => ?_) hcs hds⟩
  · obtain ⟨r, hr, hassigned⟩ := normalize_generated (hgenerated v hv)
    exact hassigned c (Except.ok.inj (hr.symm.trans hc))
  · simp only [Offers, hsame]

/-- What the dictionary of a candidate with a priority is normalized to. -/
theorem normalize_toJson {c a : Candidate} (hp : c.priority ≠ 0) :
    normalizeProbeCandidate c.toJson = .ok (some a) ↔ ∃ endpoint address port,
      parseEndpoint (.str c.endpoint) = .ok (endpoint, address, port) ∧ probeAddress c.type address = true ∧
        a = { c with family := familyOf address, endpoint } := by
  have htype : Json.lookup "type" [("type".toList, .str c.type.name.toList),
      ("family".toList, .str c.family.name.toList), ("endpoint".toList, .str c.endpoint),
      ("priority".toList, .int c.priority), ("verified".toList, .bool c.verified)] =
        some (.str c.type.name.toList) := rfl
  have hpriority : Json.lookup "priority" [("type".toList, .str c.type.name.toList),
      ("family".toList, .str c.family.name.toList), ("endpoint".toList, .str c.endpoint),
      ("priority".toList, .int c.priority), ("verified".toList, .bool c.verified)] =
        some (.int c.priority) := rfl
  have hendpoint : Json.lookup "endpoint" [("type".toList, .str c.type.name.toList),
      ("family".toList, .str c.family.name.toList), ("endpoint".toList, .str c.endpoint),
      ("priority".toList, .int c.priority), ("verified".toList, .bool c.verified)] =
        some (.str c.endpoint) := rfl
  have hverified : Json.lookup "verified" [("type".toList, .str c.type.name.toList),
      ("family".toList, .str c.family.name.toList), ("endpoint".toList, .str c.endpoint),
      ("priority".toList, .int c.priority), ("verified".toList, .bool c.verified)] =
        some (.bool c.verified) := rfl
  simp only [Candidate.toJson, normalizeProbeCandidate, htype, hendpoint, hpriority, hverified, Option.getD_some,
    lookupType_name (CandidateType.mem_all c.type), priorityOr_int hp, bind, Except.bind]
  cases hparse : parseEndpoint (.str c.endpoint) with
  | error e => simp
  | ok parts =>
    obtain ⟨endpoint, address, port⟩ := parts
    dsimp only
    by_cases haddress : probeAddress c.type address = true
    · rw [if_pos haddress]
      constructor
      · intro h
        exact ⟨endpoint, address, port, rfl, haddress, (Option.some.inj (Except.ok.inj h)).symm⟩
      · rintro ⟨endpoint', address', port', hparts, -, rfl⟩
        obtain ⟨rfl, hrest⟩ := Prod.mk.inj (Except.ok.inj hparts)
        obtain ⟨rfl, -⟩ := Prod.mk.inj hrest
        rfl
    · rw [if_neg haddress]
      constructor
      · exact fun h => by cases h
      · rintro ⟨endpoint', address', port', hparts, haddress', -⟩
        obtain ⟨-, hrest⟩ := Prod.mk.inj (Except.ok.inj hparts)
        obtain ⟨rfl, -⟩ := Prod.mk.inj hrest
        exact absurd haddress' haddress

theorem path_eq {c d : Candidate} (hkey : c.key = d.key) (hp : c.priority = d.priority) : c.path = d.path := by
  obtain ⟨ht, he⟩ := Prod.mk.inj hkey
  simp only [Candidate.path, ht, he, hp]

theorem key_of_path {c d : Candidate} (h : c.path = d.path) :
    c.type = d.type ∧ c.endpoint = d.endpoint ∧ c.priority = d.priority := by
  simp only [Candidate.path, Candidate.mk.injEq, true_and, and_true] at h
  exact h

end Candidates
