import Mathlib

/-! Dictionaries that iterate in insertion order. Keys are distinct by construction; storing under a
    key that is present keeps its position, storing under a new key appends. Every operation comes
    with its lookup equation, so that proofs read dictionaries through `get?` only. -/

/-- A finite map with distinct keys, in insertion order. -/
structure Dict (κ ν : Type*) where
  entries : List (κ × ν)
  nodup : (entries.map Prod.fst).Nodup

namespace Dict
variable {κ ν : Type*} [DecidableEq κ]

instance [DecidableEq ν] : DecidableEq (Dict κ ν) := fun a b =>
  decidable_of_iff (a.entries = b.entries) (by cases a; cases b; simp)

def empty : Dict κ ν := ⟨[], List.nodup_nil⟩

def keys (d : Dict κ ν) : List κ := d.entries.map Prod.fst

/-- The value of the first entry under `k`. -/
def find (k : κ) : List (κ × ν) → Option ν
  | [] => none
  | e :: es => if e.1 = k then some e.2 else find k es

def get? (d : Dict κ ν) (k : κ) : Option ν := find k d.entries

/-- Replace the value under a present key, or append. -/
def store (k : κ) (v : ν) : List (κ × ν) → List (κ × ν)
  | [] => [(k, v)]
  | e :: es => if e.1 = k then (k, v) :: es else e :: store k v es

theorem mem_keys_store {k j : κ} {v : ν} : ∀ {l : List (κ × ν)},
    j ∈ (store k v l).map Prod.fst ↔ j = k ∨ j ∈ l.map Prod.fst
  | [] => by simp [store]
  | e :: es => by
      by_cases h : e.1 = k
      · rw [store, if_pos h]
        simp [h]
      · rw [store, if_neg h, List.map_cons, List.mem_cons, mem_keys_store, List.map_cons,
          List.mem_cons]
        tauto

theorem nodup_store (k : κ) (v : ν) : ∀ {l : List (κ × ν)}, (l.map Prod.fst).Nodup →
    ((store k v l).map Prod.fst).Nodup
  | [], _ => by simp [store]
  | e :: es, h => by
      rw [List.map_cons, List.nodup_cons] at h
      by_cases he : e.1 = k
      · rw [store, if_pos he, List.map_cons, List.nodup_cons]
        exact ⟨he ▸ h.1, h.2⟩
      · rw [store, if_neg he, List.map_cons, List.nodup_cons, mem_keys_store]
        exact ⟨by rintro (hk | hm) <;> [exact he hk; exact h.1 hm], nodup_store k v h.2⟩

def set (d : Dict κ ν) (k : κ) (v : ν) : Dict κ ν :=
  ⟨store k v d.entries, nodup_store k v d.nodup⟩

def erase (d : Dict κ ν) (k : κ) : Dict κ ν :=
  ⟨d.entries.filter fun e => decide (e.1 ≠ k),
    d.nodup.sublist (List.filter_sublist.map Prod.fst)⟩

/-- Keep the entries of which `p` holds. -/
def filter (d : Dict κ ν) (p : κ → ν → Bool) : Dict κ ν :=
  ⟨d.entries.filter fun e => p e.1 e.2, d.nodup.sublist (List.filter_sublist.map Prod.fst)⟩

/-- Store `some v`, erase on `none`. -/
def alter (d : Dict κ ν) (k : κ) : Option ν → Dict κ ν
  | some v => d.set k v
  | none => d.erase k

/-- Rewrite every value, keeping keys and order. -/
def mapVals (d : Dict κ ν) (f : κ → ν → ν) : Dict κ ν :=
  ⟨d.entries.map fun e => (e.1, f e.1 e.2), by
    rw [List.map_map]
    exact d.nodup⟩

theorem find_eq_none {k : κ} : ∀ {l : List (κ × ν)}, find k l = none ↔ k ∉ l.map Prod.fst
  | [] => by simp [find]
  | e :: es => by
      by_cases h : e.1 = k
      · simp [find, h]
      · rw [find, if_neg h, find_eq_none, List.map_cons, List.mem_cons, not_or]
        exact ⟨fun hn => ⟨fun hk => h hk.symm, hn⟩, fun hn => hn.2⟩

theorem find_store (k j : κ) (v : ν) : ∀ l : List (κ × ν),
    find j (store k v l) = if j = k then some v else find j l
  | [] => by simp [store, find, eq_comm]
  | e :: es => by
      by_cases h : e.1 = k
      · rw [store, if_pos h]
        by_cases hj : j = k
        · simp [find, hj]
        · simp [find, hj, Ne.symm hj, h]
      · rw [store, if_neg h, find, find, find_store k j v es]
        by_cases hj : j = k
        · simp [hj, h]
        · simp [hj]

theorem store_new {k : κ} {v : ν} : ∀ {l : List (κ × ν)}, k ∉ l.map Prod.fst →
    store k v l = l ++ [(k, v)]
  | [], _ => rfl
  | e :: es, h => by
      rw [List.map_cons, List.mem_cons, not_or] at h
      rw [store, if_neg (Ne.symm h.1), store_new h.2, List.cons_append]

theorem find_filter (k j : κ) : ∀ l : List (κ × ν),
    find j (l.filter fun e => decide (e.1 ≠ k)) = if j = k then none else find j l
  | [] => by simp [find]
  | e :: es => by
      by_cases h : e.1 = k
      · rw [List.filter_cons_of_neg (by simp [h]), find_filter k j es, find]
        by_cases hj : j = k
        · simp [hj]
        · simp [hj, h, Ne.symm hj]
      · rw [List.filter_cons_of_pos (by simp [h]), find, find_filter k j es, find]
        by_cases hj : j = k
        · simp [hj, h]
        · simp [hj]

theorem find_map (f : κ → ν → ν) (j : κ) : ∀ l : List (κ × ν),
    find j (l.map fun e => (e.1, f e.1 e.2)) = (find j l).map (f j)
  | [] => rfl
  | e :: es => by
      rw [List.map_cons, find, find, find_map f j es]
      by_cases h : e.1 = j <;> simp [h]

@[simp] theorem get?_empty (k : κ) : (empty : Dict κ ν).get? k = none := rfl

@[simp] theorem get?_set (d : Dict κ ν) (k j : κ) (v : ν) :
    (d.set k v).get? j = if j = k then some v else d.get? j := find_store k j v d.entries

@[simp] theorem get?_erase (d : Dict κ ν) (k j : κ) :
    (d.erase k).get? j = if j = k then none else d.get? j := find_filter k j d.entries

@[simp] theorem get?_alter (d : Dict κ ν) (k j : κ) (o : Option ν) :
    (d.alter k o).get? j = if j = k then o else d.get? j := by
  cases o with
  | none => exact get?_erase d k j
  | some v => exact get?_set d k j v

@[simp] theorem get?_mapVals (d : Dict κ ν) (f : κ → ν → ν) (j : κ) :
    (d.mapVals f).get? j = (d.get? j).map (f j) := find_map f j d.entries

theorem mem_of_find {k : κ} {v : ν} : ∀ {l : List (κ × ν)}, find k l = some v → (k, v) ∈ l
  | [], h => by simp [find] at h
  | e :: es, h => by
      by_cases he : e.1 = k
      · rw [find, if_pos he, Option.some.injEq] at h
        subst he h
        exact List.mem_cons_self
      · rw [find, if_neg he] at h
        exact List.mem_cons_of_mem e (mem_of_find h)

theorem mem_of_get? {d : Dict κ ν} {k : κ} {v : ν} (h : d.get? k = some v) : (k, v) ∈ d.entries :=
  mem_of_find h

theorem mem_keys {d : Dict κ ν} {k : κ} : k ∈ d.keys ↔ ∃ v, d.get? k = some v := by
  have h := find_eq_none (k := k) (l := d.entries)
  rw [← Option.isSome_iff_exists, Option.isSome_iff_ne_none, Ne, get?, h, not_not]
  rfl

theorem store_find {k : κ} {v : ν} : ∀ {l : List (κ × ν)}, find k l = some v → store k v l = l
  | [], h => by simp [find] at h
  | e :: es, h => by
      by_cases he : e.1 = k
      · rw [find, if_pos he, Option.some.injEq] at h
        rw [store, if_pos he, ← h, ← he]
      · rw [find, if_neg he] at h
        rw [store, if_neg he, store_find h]

/-- Writing back what is there changes nothing. -/
theorem alter_get? (d : Dict κ ν) (k : κ) : d.alter k (d.get? k) = d := by
  cases d with
  | mk entries nodup =>
    cases h : find k entries with
    | none =>
      have hk := find_eq_none.mp h
      rw [get?, h, alter, erase, mk.injEq]
      refine List.filter_eq_self.mpr fun e he => ?_
      simpa using fun hek : e.1 = k => hk (hek ▸ List.mem_map_of_mem he)
    | some v =>
      rw [get?, h, alter, set, mk.injEq]
      exact store_find h

theorem find_of_mem {k : κ} {v : ν} : ∀ {l : List (κ × ν)}, (l.map Prod.fst).Nodup → (k, v) ∈ l →
    find k l = some v
  | [], _, h => by cases h
  | e :: es, hnodup, h => by
      rw [List.map_cons, List.nodup_cons] at hnodup
      rcases List.mem_cons.mp h with rfl | h
      · rw [find, if_pos rfl]
      · have hne : e.1 ≠ k := fun he => hnodup.1 (he ▸ List.mem_map_of_mem (f := Prod.fst) h)
        rw [find, if_neg hne, find_of_mem hnodup.2 h]

theorem get?_of_mem {d : Dict κ ν} {k : κ} {v : ν} (h : (k, v) ∈ d.entries) : d.get? k = some v :=
  find_of_mem d.nodup h

@[simp] theorem get?_filter (d : Dict κ ν) (p : κ → ν → Bool) (k : κ) :
    (d.filter p).get? k = (d.get? k).filter (p k) := by
  cases h : (d.filter p).get? k with
  | some v =>
    obtain ⟨hmem, hp⟩ := List.mem_filter.mp (mem_of_get? h)
    rw [get?_of_mem hmem, Option.filter_some, if_pos hp]
  | none =>
    cases hd : d.get? k with
    | none => rfl
    | some v =>
      rw [Option.filter_some, if_neg fun hp => ?_]
      rw [get?_of_mem (d := d.filter p) (List.mem_filter.mpr ⟨mem_of_get? hd, hp⟩)] at h
      cases h

/-- A new key is stored at the end. -/
theorem entries_set {d : Dict κ ν} {k : κ} (v : ν) (h : k ∉ d.keys) :
    (d.set k v).entries = d.entries ++ [(k, v)] := store_new h

omit [DecidableEq κ] in
theorem mapVals_id (d : Dict κ ν) : (d.mapVals fun _ v => v) = d := by
  cases d
  simp [mapVals]

omit [DecidableEq κ] in
theorem keys_nodup (d : Dict κ ν) : d.keys.Nodup := d.nodup

end Dict
