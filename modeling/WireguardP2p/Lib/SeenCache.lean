import WireguardP2p.Lib.Dict

/-! A bounded cache of what was seen when, against replays. Entries leave it in two ways: `purge` drops
    those from before a cutoff, and storing into a full cache drops the oldest one. While times do not
    decrease the entries stand in the order of their times, so a key can only leave before its time
    when as many others as the cache holds have come after it (`Holds.store`). -/

namespace SeenCache
variable {κ τ : Type*} [DecidableEq κ] [LinearOrder τ]

/-- Drop what was seen before the cutoff. -/
def purge (cutoff : τ) (d : Dict κ τ) : Dict κ τ :=
  ⟨d.entries.filter fun e => decide (cutoff ≤ e.2),
    d.nodup.sublist (List.filter_sublist.map Prod.fst)⟩

/-- The first entry with the least time. -/
def oldest : List (κ × τ) → Option (κ × τ)
  | [] => none
  | e :: es =>
    match oldest es with
    | some m => if m.2 < e.2 then some m else some e
    | none => some e

def evict (d : Dict κ τ) : Dict κ τ :=
  match oldest d.entries with
  | some m => d.erase m.1
  | none => d

/-- Store a new key; a full cache drops its oldest entry first. -/
def store (cap : ℕ) (k : κ) (now : τ) (d : Dict κ τ) : Dict κ τ :=
  (if cap ≤ d.entries.length then evict d else d).set k now

/-- Entries stand in the order of their times, none of them after `now`. -/
structure Ordered (d : Dict κ τ) (now : τ) : Prop where
  sorted : d.entries.Pairwise fun a b => a.2 ≤ b.2
  past : ∀ e ∈ d.entries, e.2 ≤ now

/-- The key stands in the cache with its time, and only these keys after it. -/
def Holds (d : Dict κ τ) (k : κ) (t : τ) (js : Finset κ) : Prop :=
  ∃ older newer, d.entries = older ++ (k, t) :: newer ∧ ∀ e ∈ newer, e.1 ∈ js

variable {d : Dict κ τ} {k j : κ} {t now cutoff : τ} {cap : ℕ} {js : Finset κ}

omit [DecidableEq κ] in
theorem purge_entries (cutoff : τ) (d : Dict κ τ) :
    (purge cutoff d).entries = d.entries.filter fun e => decide (cutoff ≤ e.2) := rfl

omit [DecidableEq κ] in
theorem Ordered.mono {now' : τ} (h : Ordered d now) (hle : now ≤ now') : Ordered d now' :=
  ⟨h.sorted, fun e he => (h.past e he).trans hle⟩

omit [DecidableEq κ] in
theorem Ordered.purge (h : Ordered d now) (cutoff : τ) : Ordered (purge cutoff d) now :=
  ⟨h.sorted.sublist List.filter_sublist, fun e he => h.past e (List.mem_of_mem_filter he)⟩

omit [DecidableEq κ] in
theorem length_purge_le (cutoff : τ) (d : Dict κ τ) :
    (purge cutoff d).entries.length ≤ d.entries.length := List.length_filter_le ..

omit [DecidableEq κ] in
/-- Sorted by time, the oldest entry is the first one. -/
theorem oldest_sorted {e : κ × τ} {es : List (κ × τ)}
    (h : (e :: es).Pairwise fun a b => a.2 ≤ b.2) : oldest (e :: es) = some e := by
  have hmem : ∀ {es : List (κ × τ)} {m : κ × τ}, oldest es = some m → m ∈ es := by
    intro es
    induction es with
    | nil => simp [oldest]
    | cons e es ih =>
      intro m hm
      rw [oldest] at hm
      cases ho : oldest es with
      | none => simp_all
      | some m' =>
        simp only [ho] at hm
        split at hm
        · exact List.mem_cons_of_mem _ (ih (ho.trans hm))
        · simp_all
  rw [List.pairwise_cons] at h
  rw [oldest]
  cases ho : oldest es with
  | none => rfl
  | some m => exact if_neg (not_lt.mpr (h.1 m (hmem ho)))

theorem evict_entries (h : Ordered d now) : (evict d).entries = d.entries.tail := by
  cases hd : d.entries with
  | nil => simp [evict, hd, oldest]
  | cons e es =>
    have hs := h.sorted
    have hnodup := d.nodup
    rw [hd] at hs hnodup
    rw [evict, hd, oldest_sorted hs]
    simp only [Dict.erase, hd, List.tail_cons]
    rw [List.filter_cons_of_neg (by simp), List.filter_eq_self]
    intro x hx
    rw [List.map_cons, List.nodup_cons] at hnodup
    simpa using fun he : x.1 = e.1 => hnodup.1 (he ▸ List.mem_map_of_mem hx)

/-- A purge keeps what is not from before the cutoff. -/
theorem get?_purge (h : d.get? k = some t) (hle : cutoff ≤ t) : (purge cutoff d).get? k = some t :=
  Dict.get?_of_mem (List.mem_filter.mpr ⟨Dict.mem_of_get? h, decide_eq_true hle⟩)

/-- While there is room, storing a key leaves the others. -/
theorem get?_store_of_lt (j : κ) (hroom : d.entries.length < cap) :
    (store cap k now d).get? j = if j = k then some now else d.get? j := by
  rw [store, if_neg (not_le.mpr hroom), Dict.get?_set]

/-- A new key comes last; a full cache loses its first entry. -/
theorem store_entries (h : Ordered d now) (hk : k ∉ d.keys) : (store cap k now d).entries =
    (if cap ≤ d.entries.length then d.entries.tail else d.entries) ++ [(k, now)] := by
  rw [store]
  split
  · have hk' : k ∉ (evict d).entries.map Prod.fst := by
      rw [evict_entries h]
      exact fun hm => hk ((List.tail_sublist _).map Prod.fst |>.subset hm)
    rw [← evict_entries h]
    exact Dict.store_new hk'
  · exact Dict.store_new hk

theorem length_store_le (h : Ordered d now) (hk : k ∉ d.keys) (hcap : 0 < cap)
    (hlen : d.entries.length ≤ cap) : (store cap k now d).entries.length ≤ cap := by
  rw [store_entries h hk, List.length_append, List.length_singleton]
  split
  · rw [List.length_tail]
    omega
  · omega

theorem Ordered.store (h : Ordered d now) (hk : k ∉ d.keys) : Ordered (store cap k now d) now := by
  have hsub : (if cap ≤ d.entries.length then d.entries.tail else d.entries).Sublist d.entries := by
    split
    · exact List.tail_sublist _
    · exact List.Sublist.refl _
  constructor
  · rw [store_entries h hk, List.pairwise_append]
    refine ⟨h.sorted.sublist hsub, List.pairwise_singleton .., fun a ha b hb => ?_⟩
    rw [List.mem_singleton.mp hb]
    exact h.past a (hsub.subset ha)
  · intro e he
    rw [store_entries h hk, List.mem_append, List.mem_singleton] at he
    rcases he with he | rfl
    · exact h.past e (hsub.subset he)
    · exact le_rfl

theorem holds_store (h : Ordered d now) (hk : k ∉ d.keys) : Holds (store cap k now d) k now ∅ :=
  ⟨_, [], store_entries h hk, fun _ he => absurd he List.not_mem_nil⟩

omit [DecidableEq κ] [LinearOrder τ] in
theorem Holds.mem (h : Holds d k t js) : k ∈ d.keys := by
  obtain ⟨older, newer, he, _⟩ := h
  rw [Dict.keys, he]
  simp

omit [DecidableEq κ] [LinearOrder τ] in
theorem Holds.mono {is : Finset κ} (h : Holds d k t js) (hsub : js ⊆ is) : Holds d k t is := by
  obtain ⟨older, newer, he, hnew⟩ := h
  exact ⟨older, newer, he, fun e hm => hsub (hnew e hm)⟩

omit [DecidableEq κ] in
/-- A purge drops a key only for its time. -/
theorem Holds.purge (h : Holds d k t js) (hcut : cutoff ≤ t) : Holds (purge cutoff d) k t js := by
  obtain ⟨older, newer, he, hnew⟩ := h
  refine ⟨older.filter fun e => decide (cutoff ≤ e.2), newer.filter fun e => decide (cutoff ≤ e.2), ?_,
    fun e hm => hnew e (List.mem_of_mem_filter hm)⟩
  rw [purge_entries, he, List.filter_append, List.filter_cons_of_pos (by simpa using hcut)]

/-- The keys after one that is held, and a new one, are as many others. -/
theorem length_newer_lt {older newer : List (κ × τ)} (he : d.entries = older ++ (k, t) :: newer)
    (hnew : ∀ e ∈ newer, e.1 ∈ js) (hj : j ∉ d.keys) :
    newer.length + 1 ≤ ((insert j js).erase k).card := by
  have hnodup := d.nodup
  rw [Dict.keys, he, List.map_append, List.map_cons, List.mem_append, List.mem_cons, not_or, not_or]
    at hj
  rw [he, List.map_append, List.map_cons, List.nodup_append, List.nodup_cons] at hnodup
  obtain ⟨_, ⟨hk, hnodup⟩, _⟩ := hnodup
  have hkeys : (j :: newer.map Prod.fst).Nodup := List.nodup_cons.mpr ⟨hj.2.2, hnodup⟩
  calc newer.length + 1 = (j :: newer.map Prod.fst).toFinset.card := by
        rw [List.toFinset_card_of_nodup hkeys, List.length_cons, List.length_map]
    _ ≤ ((insert j js).erase k).card := by
        refine Finset.card_le_card fun i hi => ?_
        rw [List.mem_toFinset, List.mem_cons] at hi
        rw [Finset.mem_erase, Finset.mem_insert]
        rcases hi with rfl | hi
        · exact ⟨hj.2.1, .inl rfl⟩
        · obtain ⟨e, hm, rfl⟩ := List.mem_map.mp hi
          exact ⟨fun hik => hk (hik ▸ hi), .inr (hnew e hm)⟩

/-- Storing another key drops a key only when as many others as the cache holds came after it. -/
theorem Holds.store (h : Holds d k t js) (ho : Ordered d now) (hj : j ∉ d.keys) :
    cap ≤ ((insert j js).erase k).card ∨ Holds (store cap j now d) k t (insert j js) := by
  obtain ⟨older, newer, he, hnew⟩ := h
  have hnew' : ∀ e ∈ newer ++ [(j, now)], e.1 ∈ insert j js := by
    intro e hm
    rw [List.mem_append, List.mem_singleton] at hm
    rcases hm with hm | rfl
    · exact Finset.mem_insert_of_mem (hnew e hm)
    · exact Finset.mem_insert_self ..
  by_cases hfull : cap ≤ d.entries.length
  · cases older with
    | nil =>
      left
      have hlen := length_newer_lt he hnew hj
      rw [he, List.nil_append, List.length_cons] at hfull
      omega
    | cons e older =>
      refine .inr ⟨older, newer ++ [(j, now)], ?_, hnew'⟩
      rw [store_entries ho hj, if_pos hfull, he]
      simp
  · refine .inr ⟨older, newer ++ [(j, now)], ?_, hnew'⟩
    rw [store_entries ho hj, if_neg hfull, he]
    simp

end SeenCache
