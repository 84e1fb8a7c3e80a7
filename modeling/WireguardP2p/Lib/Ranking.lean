import Mathlib

/-! Ranked lists. A stable sort puts, of the elements with one key, the best one first, and among equals
    the one that came first; in a list that is in strict order the place of an element is the number of
    elements before it. -/

namespace Ranking

section Best
variable {α κ : Type*} [DecidableEq κ] (r : α → α → Prop) [DecidableRel r] (key : α → κ)

/-- The better of an element and one from further back. -/
def better (c : α) : Option α → α
  | none => c
  | some d => if r c d then c else d

/-- The best element with the key `e`, the first of equals. -/
def best (e : κ) : List α → Option α
  | [] => none
  | c :: cs => if key c = e then some (better r c (best e cs)) else best e cs

variable {r key}

theorem best_mem {e : κ} {w : α} : ∀ {l : List α}, best r key e l = some w → w ∈ l ∧ key w = e
  | c :: cs, h => by
    rw [best] at h
    split_ifs at h with hc
    · have hw := Option.some.inj h
      cases hb : best r key e cs with
      | none =>
        rw [hb, better] at hw
        exact hw ▸ ⟨List.mem_cons_self, hc⟩
      | some d =>
        rw [hb, better] at hw
        split_ifs at hw
        · exact hw ▸ ⟨List.mem_cons_self, hc⟩
        · obtain ⟨hd, hkey⟩ := best_mem hb
          exact hw ▸ ⟨List.mem_cons_of_mem c hd, hkey⟩
    · obtain ⟨hw, hkey⟩ := best_mem h
      exact ⟨List.mem_cons_of_mem c hw, hkey⟩

theorem best_isSome {e : κ} {c : α} : ∀ {l : List α}, c ∈ l → key c = e → (best r key e l).isSome = true
  | d :: ds, hc, hkey => by
    rw [best]
    split_ifs with hd
    · rfl
    · rcases List.mem_cons.mp hc with rfl | hc
      · exact absurd hkey hd
      · exact best_isSome hc hkey

theorem find?_orderedInsert [Std.Total r] [IsTrans α r] {e : κ} {c : α} : ∀ {l : List α}, l.Pairwise r →
    (l.orderedInsert r c).find? (fun d => decide (key d = e)) =
      if key c = e then some (better r c (l.find? fun d => decide (key d = e)))
      else l.find? fun d => decide (key d = e)
  | [], _ => by
    rw [List.orderedInsert_nil, List.find?_cons]
    by_cases hc : key c = e <;> simp [hc, better]
  | b :: l, h => by
    obtain ⟨hb, hl⟩ := List.pairwise_cons.mp h
    by_cases hrb : r c b
    · rw [List.orderedInsert_cons_of_le r l hrb, List.find?_cons]
      by_cases hc : key c = e
      · rw [if_pos hc]
        simp only [hc, decide_true]
        cases hf : (b :: l).find? fun d => decide (key d = e) with
        | none => rfl
        | some d =>
          have hrd : r c d := by
            rcases List.mem_cons.mp (List.mem_of_find?_eq_some hf) with rfl | hd
            · exact hrb
            · exact IsTrans.trans c b d hrb (hb d hd)
          rw [better, if_pos hrd]
      · simp [hc]
    · rw [List.orderedInsert_cons, if_neg hrb, List.find?_cons, List.find?_cons]
      by_cases hbe : key b = e
      · simp [hbe, better, hrb]
      · simp only [hbe, decide_false]
        exact find?_orderedInsert hl

/-- The first element with a key in the sorted list is the best one. -/
theorem find?_insertionSort [Std.Total r] [IsTrans α r] (e : κ) : ∀ l : List α,
    (l.insertionSort r).find? (fun d => decide (key d = e)) = best r key e l
  | [] => rfl
  | c :: cs => by
    rw [List.insertionSort_cons, find?_orderedInsert (List.pairwise_insertionSort r cs),
      find?_insertionSort e cs, best]

theorem le_best [Std.Total r] [IsTrans α r] {e : κ} {w : α} : ∀ {l : List α}, best r key e l = some w →
    ∀ d ∈ l, key d = e → r w d := by
  intro l
  induction l generalizing w with
  | nil => exact fun h => by cases h
  | cons c cs ih =>
    intro h d hd hkey
    have hrefl : r d d := (Std.Total.total d d).elim id id
    rw [best] at h
    split_ifs at h with hc
    · cases hb : best r key e cs with
      | none =>
        rw [hb, better] at h
        obtain rfl := Option.some.inj h
        rcases List.mem_cons.mp hd with rfl | hd
        · exact hrefl
        · exact absurd (best_isSome hd hkey) (by rw [hb]; exact fun h => by cases h)
      | some b =>
        rw [hb, better] at h
        split_ifs at h with hrb
        · obtain rfl := Option.some.inj h
          rcases List.mem_cons.mp hd with rfl | hd
          · exact hrefl
          · exact IsTrans.trans _ b d hrb (ih hb d hd hkey)
        · obtain rfl := Option.some.inj h
          rcases List.mem_cons.mp hd with rfl | hd
          · exact (Std.Total.total d b).resolve_left hrb
          · exact ih hb d hd hkey
    · rcases List.mem_cons.mp hd with rfl | hd
      · exact absurd hkey hc
      · exact ih h d hd hkey

/-- Where no two elements with one key are equally good, the best one is the one before all others. -/
theorem best_eq_some_iff [Std.Total r] [IsTrans α r] {e : κ} {w : α} {l : List α}
    (hanti : ∀ a ∈ l, ∀ b ∈ l, key a = key b → r a b → r b a → a = b) :
    best r key e l = some w ↔ w ∈ l ∧ key w = e ∧ ∀ d ∈ l, key d = e → r w d := by
  constructor
  · intro h
    obtain ⟨hw, hkey⟩ := best_mem h
    exact ⟨hw, hkey, le_best h⟩
  · rintro ⟨hw, hkey, hle⟩
    have hsome : (best r key e l).isSome = true := best_isSome hw hkey
    obtain ⟨b, hb⟩ := Option.isSome_iff_exists.mp hsome
    obtain ⟨hmem, hbkey⟩ := best_mem hb
    rw [hb, hanti b hmem w hw (hbkey.trans hkey.symm) (le_best hb w hw hkey) (hle b hmem hbkey)]

end Best

section Rank
variable {α : Type*} {s : α → α → Prop} [Std.Asymm s]

theorem nodup_of_pairwise {l : List α} (h : l.Pairwise s) : l.Nodup :=
  h.imp fun {a b} hab he => by
    subst he
    exact Std.Asymm.asymm a a hab hab

theorem mem_take_iff {l : List α} (h : l.Nodup) {i n : ℕ} {w : α} (hw : l[i]? = some w) :
    w ∈ l.take n ↔ i < n := by
  obtain ⟨hi, hget⟩ := List.getElem?_eq_some_iff.mp hw
  constructor
  · intro hm
    obtain ⟨k, hk, hkw⟩ := List.mem_take_iff_getElem.mp hm
    have hki : k = i := (List.Nodup.getElem_inj_iff h).mp (hkw.trans hget.symm)
    omega
  · intro hin
    exact List.mem_take_iff_getElem.mpr ⟨i, by omega, hget⟩

variable [DecidableEq α] [DecidableRel s]

/-- The elements before the one at a place are those in order before it. -/
theorem toFinset_take {l : List α} (h : l.Pairwise s) {i : ℕ} {w : α} (hw : l[i]? = some w) :
    (l.take i).toFinset = l.toFinset.filter fun c => s c w := by
  obtain ⟨hi, hget⟩ := List.getElem?_eq_some_iff.mp hw
  have horder := List.pairwise_iff_getElem.mp h
  ext c
  rw [List.mem_toFinset, Finset.mem_filter, List.mem_toFinset]
  constructor
  · intro hc
    obtain ⟨k, hk, rfl⟩ := List.mem_take_iff_getElem.mp hc
    have hki : k < i := by omega
    exact ⟨List.getElem_mem _, hget ▸ horder k i _ hi hki⟩
  · rintro ⟨hc, hcw⟩
    obtain ⟨k, hk, rfl⟩ := List.getElem_of_mem hc
    refine List.mem_take_iff_getElem.mpr ⟨k, ?_, rfl⟩
    by_contra hki
    have hik : i ≤ k := by omega
    rcases hik.eq_or_lt with rfl | hik
    · rw [hget] at hcw
      exact Std.Asymm.asymm w w hcw hcw
    · exact Std.Asymm.asymm _ _ hcw (hget ▸ horder i k hi hk hik)

theorem card_before {l : List α} (h : l.Pairwise s) {i : ℕ} {w : α} (hw : l[i]? = some w) :
    (l.toFinset.filter fun c => s c w).card = i := by
  obtain ⟨hi, -⟩ := List.getElem?_eq_some_iff.mp hw
  rw [← toFinset_take h hw, List.toFinset_card_of_nodup ((nodup_of_pairwise h).sublist (List.take_sublist i l)),
    List.length_take, min_eq_left hi.le]

end Rank
end Ranking
