import WireguardP2p.Lib.Ranking
import WireguardP2p.Client.Selection

/-! The observed IPv4 endpoint in the list that is probed. Both programs sort the candidates, keep the
    best one of each endpoint and then the best five, with the first `observed4` candidate in the last
    place if it is not among them. An endpoint that is best advertised under another type is not looked
    for: it stays only if fewer than five others come before it. -/

namespace Candidates
open Ipaddress Python Net

namespace Candidate

/-- Strictly before in the list that is probed. -/
def ahead (c d : Candidate) : Prop :=
  d.priority < c.priority ∨ d.priority = c.priority ∧ c.endpoint < d.endpoint

instance decidableAhead : DecidableRel ahead := fun c d => inferInstanceAs
  (Decidable (d.priority < c.priority ∨ d.priority = c.priority ∧ c.endpoint < d.endpoint))

instance asymmAhead : Std.Asymm ahead := ⟨by
  rintro c d (h | ⟨h, he⟩) (h' | ⟨h', he'⟩)
  · omega
  · omega
  · omega
  · exact lt_asymm he he'⟩

instance totalBefore : Std.Total beforeByEndpoint := ⟨fun c d => by
  rcases lt_trichotomy c.priority d.priority with h | h | h
  · exact .inr (.inl h)
  · rcases le_total c.endpoint d.endpoint with he | he
    · exact .inl (.inr ⟨h.symm, he⟩)
    · exact .inr (.inr ⟨h, he⟩)
  · exact .inl (.inl h)⟩

instance transBefore : IsTrans Candidate beforeByEndpoint := ⟨by
  rintro b c d (h | ⟨h, he⟩) (h' | ⟨h', he'⟩)
  · exact .inl (by omega)
  · exact .inl (by omega)
  · exact .inl (by omega)
  · exact .inr ⟨by omega, he.trans he'⟩⟩

theorem ahead_of_before {c d : Candidate} (h : beforeByEndpoint c d) (hne : c.endpoint ≠ d.endpoint) :
    ahead c d := h.imp id fun ⟨hp, he⟩ => ⟨hp, lt_of_le_of_ne he hne⟩

theorem before_of_ahead {c d : Candidate} (h : ahead c d) : beforeByEndpoint c d :=
  h.imp id fun ⟨hp, he⟩ => ⟨hp, he.le⟩

end Candidate

/-! ### What de-duplication keeps -/

section KeepFirst
variable {α κ : Type} [DecidableEq κ] {key : α → κ}

theorem keepFirst_eq_append_sublist : ∀ (cs kept : List α),
    ∃ new, keepFirst key kept cs = kept ++ new ∧ new.Sublist cs
  | [], kept => ⟨[], by simp [keepFirst], List.Sublist.refl _⟩
  | c :: cs, kept => by
    rw [keepFirst]
    split_ifs with h
    · obtain ⟨new, he, hs⟩ := keepFirst_eq_append_sublist cs kept
      exact ⟨new, he, hs.cons c⟩
    · obtain ⟨new, he, hs⟩ := keepFirst_eq_append_sublist cs (kept ++ [c])
      exact ⟨c :: new, by rw [he, List.append_assoc, List.singleton_append], hs.cons_cons c⟩

theorem keepFirst_sublist (cs : List α) : (keepFirst key [] cs).Sublist cs := by
  obtain ⟨new, he, hs⟩ := @keepFirst_eq_append_sublist α κ _ key cs []
  rw [he]
  exact hs

/-- Of each key the first element is kept. -/
theorem mem_keepFirst {d : α} : ∀ {cs kept : List α}, d ∈ keepFirst key kept cs ↔
    d ∈ kept ∨ key d ∉ kept.map key ∧ cs.find? (fun c => decide (key c = key d)) = some d
  | [], kept => by simp [keepFirst]
  | c :: cs, kept => by
    rw [keepFirst, List.find?_cons]
    by_cases hk : key c = key d
    · split_ifs with h
      · rw [mem_keepFirst, hk.symm]
        simp [h]
      · rw [mem_keepFirst]
        simp only [hk, decide_true, List.map_append, List.map_cons, List.map_nil, List.mem_append,
          List.mem_singleton, Option.some.injEq]
        rw [hk] at h
        constructor
        · rintro ((hd | rfl) | ⟨hn, -⟩)
          · exact .inl hd
          · exact .inr ⟨h, rfl⟩
          · exact absurd (.inr trivial) hn
        · rintro (hd | ⟨-, rfl⟩)
          · exact .inl (.inl hd)
          · exact .inl (.inr rfl)
    · simp only [hk, decide_false]
      split_ifs with h
      · exact mem_keepFirst
      · rw [mem_keepFirst]
        simp only [List.map_append, List.map_cons, List.map_nil, List.mem_append, List.mem_singleton,
          Ne.symm hk, or_false]
        constructor
        · rintro ((hd | rfl) | hd)
          · exact .inl hd
          · exact absurd rfl hk
          · exact .inr hd
        · rintro (hd | hd)
          · exact .inl (.inl hd)
          · exact .inr hd

end KeepFirst

/-- The best candidate with an endpoint, the first of equals. -/
def bestFor (endpoint : Text) (cs : List Candidate) : Option Candidate :=
  Ranking.best Candidate.beforeByEndpoint Candidate.endpoint endpoint cs

theorem mem_dedupeByEndpoint {c : Candidate} {cs : List Candidate} :
    c ∈ dedupeByEndpoint cs ↔ c.endpoint ≠ [] ∧ bestFor c.endpoint cs = some c := by
  rw [dedupeByEndpoint, mem_keepFirst, bestFor, ← Ranking.find?_insertionSort, List.find?_filter]
  simp only [List.not_mem_nil, false_or, List.map_nil, not_false_eq_true, true_and]
  by_cases hc : c.endpoint = []
  · rw [List.find?_eq_none.mpr fun d _ => by simp [hc]]
    simp [hc]
  · have hsame : (fun d : Candidate =>
        decide (decide (d.endpoint ≠ []) = true ∧ decide (d.endpoint = c.endpoint) = true)) =
        fun d => decide (d.endpoint = c.endpoint) := by
      funext d
      by_cases hd : d.endpoint = c.endpoint
      · simp [hd, hc]
      · simp [hd]
    rw [hsame]
    simp [hc]

/-- A list in strict order without two candidates of one endpoint. -/
structure Ranked (cs : List Candidate) : Prop where
  sorted : cs.Pairwise Candidate.ahead
  distinct : (cs.map Candidate.endpoint).Nodup

theorem ranked_dedupeByEndpoint (cs : List Candidate) : Ranked (dedupeByEndpoint cs) := by
  have hsorted : (dedupeByEndpoint cs).Pairwise Candidate.beforeByEndpoint :=
    (List.pairwise_insertionSort Candidate.beforeByEndpoint cs).sublist
      ((keepFirst_sublist _).trans List.filter_sublist)
  have hdistinct : ((dedupeByEndpoint cs).map Candidate.endpoint).Nodup := nodup_keepFirst List.nodup_nil
  exact ⟨(hsorted.and (List.pairwise_map.mp hdistinct)).imp fun h =>
    Candidate.ahead_of_before h.1 h.2, hdistinct⟩

/-! ### The five that stay -/

/-- No more than five, no endpoint twice, in the order of the priorities. -/
structure ProbeList (cs : List Candidate) : Prop where
  length_le : cs.length ≤ 5
  distinct : (cs.map Candidate.endpoint).Nodup
  sorted : cs.Pairwise Candidate.beforeByEndpoint

/-- What becomes of the first `observed4` candidate. -/
def Kept (cs : List Candidate) (w : Candidate) (i : ℕ) : Prop :=
  i ≤ 3 ∨ i = 4 ∧ (w.type = .observed4 ∨ (∃ c ∈ cs.take i, c.type = .observed4) ∨
    ∀ c ∈ cs, c.type ≠ .observed4) ∨
  w.type = .observed4 ∧ ∀ c ∈ cs.take i, c.type ≠ .observed4

namespace Ranked
variable {cs : List Candidate} (h : Ranked cs) {w : Candidate} {i : ℕ}
include h

theorem endpoint_injective {c d : Candidate} (hc : c ∈ cs) (hd : d ∈ cs) (he : c.endpoint = d.endpoint) :
    c = d := List.inj_on_of_nodup_map h.distinct hc hd he

theorem mem_endpoints {ds : List Candidate} (hds : ∀ d ∈ ds, d ∈ cs) {c : Candidate} (hc : c ∈ cs) :
    c.endpoint ∈ ds.map Candidate.endpoint ↔ c ∈ ds := by
  refine ⟨fun hm => ?_, fun hm => List.mem_map_of_mem hm⟩
  obtain ⟨d, hd, he⟩ := List.mem_map.mp hm
  exact h.endpoint_injective (hds d hd) hc he ▸ hd

theorem nodup : cs.Nodup := h.distinct.of_map

theorem probeList_of_sublist {ds : List Candidate} (hds : ds.Sublist cs) (hlen : ds.length ≤ 5) :
    ProbeList ds :=
  ⟨hlen, h.distinct.sublist (hds.map _), (h.sorted.sublist hds).imp Candidate.before_of_ahead⟩

/-- The four best and a fifth from further back. -/
theorem probeList_displaced {o : Candidate} (ho : o ∈ cs) (hno : o ∉ cs.take 4) :
    ProbeList ((cs.take 4 ++ [o]).insertionSort Candidate.beforeByEndpoint) := by
  have hperm := List.perm_insertionSort Candidate.beforeByEndpoint (cs.take 4 ++ [o])
  refine ⟨?_, ?_, List.pairwise_insertionSort _ _⟩
  · rw [hperm.length_eq, List.length_append, List.length_take, List.length_singleton]
    omega
  · rw [(hperm.map Candidate.endpoint).nodup_iff, List.map_append, List.nodup_append]
    refine ⟨h.distinct.sublist ((List.take_sublist 4 cs).map _), List.nodup_singleton _, ?_⟩
    rintro a ha b hb rfl
    rw [List.map_singleton, List.mem_singleton] at hb
    rw [hb, h.mem_endpoints (fun d hd => List.mem_of_mem_take hd) ho] at ha
    exact hno ha

/-- What `boundSelection` leaves of the candidate at a place. -/
theorem boundSelection_spec (hw : cs[i]? = some w) : ProbeList (boundSelection cs) ∧
    (w.endpoint ∈ (boundSelection cs).map Candidate.endpoint ↔ Kept cs w i) := by
  have hmem : w ∈ cs := List.mem_of_getElem? hw
  obtain ⟨hi, hget⟩ := List.getElem?_eq_some_iff.mp hw
  have htake (n : ℕ) : w ∈ cs.take n ↔ i < n := Ranking.mem_take_iff h.nodup hw
  have hsub (n : ℕ) : ∀ d ∈ cs.take n, d ∈ cs := fun d hd => List.mem_of_mem_take hd
  rw [boundSelection]
  by_cases hlen : cs.length ≤ maxProbeCandidates
  · rw [if_pos hlen]
    refine ⟨h.probeList_of_sublist (List.Sublist.refl _) hlen, ?_⟩
    refine ⟨fun _ => ?_, fun _ => List.mem_map_of_mem hmem⟩
    have hlen5 : cs.length ≤ 5 := hlen
    rcases Nat.lt_or_ge i 4 with hlt | hge
    · exact .inl (by omega)
    · have hi4 : i = 4 := by omega
      refine .inr (.inl ⟨hi4, ?_⟩)
      by_cases hobs : ∃ c ∈ cs, c.type = .observed4
      · obtain ⟨c, hc, hco⟩ := hobs
        obtain ⟨k, hk, rfl⟩ := List.getElem_of_mem hc
        rcases Nat.lt_or_ge k i with hki | hik
        · exact .inr (.inl ⟨_, List.mem_take_iff_getElem.mpr ⟨k, by omega, rfl⟩, hco⟩)
        · have hki : k = i := by omega
          subst hki
          exact .inl (hget ▸ hco)
      · push Not at hobs
        exact .inr (.inr hobs)
  · rw [if_neg hlen]
    have hlen5 : 5 < cs.length := Nat.lt_of_not_le hlen
    have hfive : ProbeList (cs.take 5) := h.probeList_of_sublist (List.take_sublist _ _) (by simp)
    have hinfive : w.endpoint ∈ (cs.take 5).map Candidate.endpoint ↔ i < 5 :=
      (h.mem_endpoints (hsub 5) hmem).trans (htake 5)
    cases hfind : cs.find? fun c => decide (c.type = .observed4) with
    | none =>
      have hno : ∀ c ∈ cs, c.type ≠ .observed4 := fun c hc => by
        simpa using List.find?_eq_none.mp hfind c hc
      refine ⟨hfive, hinfive.trans ⟨fun hlt => ?_, fun hk => ?_⟩⟩
      · rcases Nat.lt_or_ge i 4 with hi4 | hi4
        · exact .inl (by omega)
        · exact .inr (.inl ⟨by omega, .inr (.inr hno)⟩)
      · rcases hk with hk | ⟨hk, -⟩ | ⟨hk, -⟩
        · omega
        · omega
        · exact absurd hk (hno w hmem)
    | some o =>
      obtain ⟨ho, j, hj, hjo, hbefore⟩ := List.find?_eq_some_iff_getElem.mp hfind
      have hobs : o.type = .observed4 := by simpa using ho
      have hother : ∀ k (hk : k < j), (cs.get ⟨k, hk.trans hj⟩).type ≠ .observed4 := fun k hk => by
        simpa using hbefore k hk
      have homem : o ∈ cs := hjo ▸ List.getElem_mem hj
      have hoj : cs[j]? = some o := List.getElem?_eq_some_iff.mpr ⟨hj, hjo⟩
      have hotake (n : ℕ) : o ∈ cs.take n ↔ j < n := Ranking.mem_take_iff h.nodup hoj
      have hji : w.type = .observed4 → j ≤ i := fun hwo => by
        by_contra hij
        exact hother i (by omega) ((congrArg Candidate.type hget).trans hwo)
      have hfirst : (∃ c ∈ cs.take i, c.type = .observed4) ↔ j < i := by
        constructor
        · rintro ⟨c, hc, hco⟩
          obtain ⟨k, hk, rfl⟩ := List.mem_take_iff_getElem.mp hc
          by_contra hji
          exact hother k (by omega) hco
        · exact fun hlt => ⟨o, (hotake i).mpr hlt, hobs⟩
      have hnone : (∀ c ∈ cs.take i, c.type ≠ .observed4) ↔ i ≤ j := by
        rw [← not_lt, ← hfirst]
        push Not
        rfl
      have hsome : ¬ ∀ c ∈ cs, c.type ≠ .observed4 := fun hall => hall o homem hobs
      have hwo : i = j → w = o := fun hij => by
        subst hij
        exact hget.symm.trans hjo
      have hkept : Kept cs w i ↔ i ≤ 3 ∨ i = 4 ∧ j ≤ 4 ∨ i = j := by
        rw [Kept, hfirst, hnone]
        constructor
        · rintro (hk | ⟨hk, hw4 | hlt | hall⟩ | ⟨hw4, hij⟩)
          · exact .inl hk
          · exact .inr (.inl ⟨hk, by have := hji hw4; omega⟩)
          · exact .inr (.inl ⟨hk, by omega⟩)
          · exact absurd hall hsome
          · exact .inr (.inr (le_antisymm hij (hji hw4)))
        · rintro (hk | ⟨hk, hj4⟩ | hij)
          · exact .inl hk
          · rcases Nat.lt_or_ge j i with hlt | hge
            · exact .inr (.inl ⟨hk, .inr (.inl hlt)⟩)
            · have hwobs : w.type = .observed4 := hwo (by omega) ▸ hobs
              exact .inr (.inl ⟨hk, .inl hwobs⟩)
          · exact .inr (.inr ⟨hwo hij ▸ hobs, hij.le⟩)
      have hoin : o.endpoint ∈ (cs.take maxProbeCandidates).map Candidate.endpoint ↔ j < 5 :=
        (h.mem_endpoints (hsub 5) homem).trans (hotake 5)
      dsimp only
      by_cases hj5 : j < 5
      · rw [if_pos (hoin.mpr hj5)]
        exact ⟨hfive, hinfive.trans (by rw [hkept]; omega)⟩
      · rw [if_neg fun hin => hj5 (hoin.mp hin)]
        have hdrop : (cs.take maxProbeCandidates).dropLast = cs.take 4 := by
          rw [List.dropLast_take]
          · rfl
          · exact hlen5
        rw [hdrop]
        have hperm := List.perm_insertionSort Candidate.beforeByEndpoint (cs.take 4 ++ [o])
        refine ⟨h.probeList_displaced homem fun hin => hj5 ((hotake 4).mp hin |>.trans (by omega)), ?_⟩
        rw [(hperm.map Candidate.endpoint).mem_iff, h.mem_endpoints (fun d hd => ?_) hmem, List.mem_append,
          List.mem_singleton, htake, hkept]
        · constructor
          · rintro (hlt | heq)
            · exact .inl (by omega)
            · refine .inr (.inr ?_)
              subst heq
              exact (List.Nodup.getElem_inj_iff h.nodup).mp (hget.trans hjo.symm)
          · rintro (hk | ⟨hk, hj4⟩ | hij)
            · exact .inl (by omega)
            · omega
            · exact .inr (hwo hij)
        · rcases List.mem_append.mp hd with hd | hd
          · exact hsub 4 d hd
          · exact List.mem_singleton.mp hd ▸ homem

end Ranked

/-! ### The condition on the candidates that are probed -/

/-- The best candidates of the endpoints that come before `w`. -/
def rivals (cs : List Candidate) (w : Candidate) : Finset Candidate :=
  (cs.filter fun c => decide (bestFor c.endpoint cs = some c ∧ c.ahead w)).toFinset

/-- At most three endpoints come before the observed one; or four, and it is best as `observed4`, or one
    of the four is, or none is; or it is best as `observed4` and none before it is. -/
def Survives (cs : List Candidate) (observed : Text) : Prop := ∃ w, bestFor observed cs = some w ∧
  ((rivals cs w).card ≤ 3 ∨
    (rivals cs w).card = 4 ∧ (w.type = .observed4 ∨ (∃ c ∈ rivals cs w, c.type = .observed4) ∨
      ∀ c ∈ cs, bestFor c.endpoint cs = some c → c.type ≠ .observed4) ∨
    w.type = .observed4 ∧ ∀ c ∈ rivals cs w, c.type ≠ .observed4)

section Inputs
variable {cs : List Candidate} (hne : ∀ c ∈ cs, c.endpoint ≠ [])
include hne

theorem mem_dedupe_iff {c : Candidate} : c ∈ dedupeByEndpoint cs ↔ bestFor c.endpoint cs = some c := by
  rw [mem_dedupeByEndpoint]
  exact ⟨And.right, fun h => ⟨hne c (Ranking.best_mem h).1, h⟩⟩

theorem rivals_eq {w : Candidate} {i : ℕ} (hw : (dedupeByEndpoint cs)[i]? = some w) :
    rivals cs w = ((dedupeByEndpoint cs).take i).toFinset := by
  rw [Ranking.toFinset_take (ranked_dedupeByEndpoint cs).sorted hw]
  ext c
  rw [rivals, List.mem_toFinset, List.mem_filter, Finset.mem_filter, List.mem_toFinset, decide_eq_true_eq,
    mem_dedupe_iff hne]
  exact ⟨fun h => h.2, fun h => ⟨(Ranking.best_mem h.1).1, h⟩⟩

/-- The list that is probed, and when the observed endpoint is in it. -/
theorem boundSelection_observed {observed : Text} (hobs : ∃ c ∈ cs, c.endpoint = observed) :
    ProbeList (boundSelection (dedupeByEndpoint cs)) ∧
    (observed ∈ (boundSelection (dedupeByEndpoint cs)).map Candidate.endpoint ↔ Survives cs observed) := by
  obtain ⟨c, hc, hce⟩ := hobs
  obtain ⟨w, hw⟩ := Option.isSome_iff_exists.mp
    (@Ranking.best_isSome _ _ _ Candidate.beforeByEndpoint _ Candidate.endpoint observed c cs hc hce)
  have hbest : bestFor observed cs = some w := hw
  have hwe : w.endpoint = observed := (Ranking.best_mem hw).2
  have hmem : w ∈ dedupeByEndpoint cs := (mem_dedupe_iff hne).mpr (hwe ▸ hbest)
  obtain ⟨i, hi, hget⟩ := List.getElem_of_mem hmem
  have hwi : (dedupeByEndpoint cs)[i]? = some w := List.getElem?_eq_some_iff.mpr ⟨hi, hget⟩
  have hcard : (rivals cs w).card = i := by
    rw [rivals_eq hne hwi, Ranking.toFinset_take (ranked_dedupeByEndpoint cs).sorted hwi,
      Ranking.card_before (ranked_dedupeByEndpoint cs).sorted hwi]
  have hrival : ∀ c, c ∈ rivals cs w ↔ c ∈ (dedupeByEndpoint cs).take i := fun c => by
    rw [rivals_eq hne hwi, List.mem_toFinset]
  obtain ⟨hlist, hkept⟩ := (ranked_dedupeByEndpoint cs).boundSelection_spec hwi
  refine ⟨hlist, ?_⟩
  rw [← hwe, hkept, hwe, Survives]
  have hall : (∀ c ∈ cs, bestFor c.endpoint cs = some c → c.type ≠ .observed4) ↔
      ∀ c ∈ dedupeByEndpoint cs, c.type ≠ .observed4 :=
    ⟨fun h c hc => h c (Ranking.best_mem ((mem_dedupe_iff hne).mp hc)).1 ((mem_dedupe_iff hne).mp hc),
      fun h c _ hb => h c ((mem_dedupe_iff hne).mpr hb)⟩
  simp only [hbest, Option.some.injEq, exists_eq_left', hcard, hrival, hall, Kept]

end Inputs

/-! ### The two programs -/

/-- The candidate of the observed endpoint. -/
def observedFallback (endpoint : Text) : Candidate := ⟨.observed4, .udp4, endpoint, 700, true⟩

theorem endpoint_ne_of_normalize {value : Json} {c : Candidate}
    (h : normalizeProbeCandidate value = .ok (some c)) : c.endpoint ≠ [] := by
  obtain ⟨e, he, -⟩ := normalizeProbeCandidate_ok h
  rw [he]
  exact formatEndpoint_ne_nil e.address e.port

theorem endpoint_ne_of_admitted {allowLan allowIpv6 : Bool} : ∀ {values : List Json} {cs : List Candidate},
    admitted allowLan allowIpv6 values = .ok cs → ∀ c ∈ cs, c.endpoint ≠ []
  | [], cs, h => by
    obtain rfl := Except.ok.inj h
    simp
  | v :: vs, cs, h => by
    rw [admitted] at h
    cases hv : normalizeProbeCandidate v with
    | error e => simp [hv, bind, Except.bind] at h
    | ok found =>
      cases hrest : admitted allowLan allowIpv6 vs with
      | error e => simp [hv, hrest, bind, Except.bind] at h
      | ok rest =>
        have ih := endpoint_ne_of_admitted hrest
        simp only [hv, hrest, bind, Except.bind] at h
        cases found with
        | none =>
          obtain rfl := Except.ok.inj h
          exact ih
        | some c =>
          dsimp only at h
          split_ifs at h
          · obtain rfl := Except.ok.inj h
            exact ih
          · obtain rfl := Except.ok.inj h
            exact ih
          · obtain rfl := Except.ok.inj h
            intro d hd
            rcases List.mem_cons.mp hd with rfl | hd
            · exact endpoint_ne_of_normalize hv
            · exact ih d hd

/-- `select_probe_candidates` in WAN mode with an IPv4 endpoint. -/
theorem selectProbeCandidates_wan {values : List Json} {legacy observed : Text} {type : Json}
    {allowIpv6 : Bool} {address : IpAddress} {port : ℕ} (hwan : isLan type = false)
    (hparse : parseEndpoint (.str legacy) = .ok (observed, address, port)) (h4 : address.version = 4) :
    selectProbeCandidates values legacy type allowIpv6 = (admitted false allowIpv6 values).map fun cs =>
      boundSelection (dedupeByEndpoint (cs ++ [observedFallback observed])) := by
  have hlegacy : legacy ≠ [] := by
    rintro rfl
    cases hparse
  have hcandidate : legacyCandidate false allowIpv6 legacy = some (observedFallback observed) := by
    rw [legacyCandidate, hparse]
    simp only [Bool.false_and, Bool.false_eq_true, if_false, h4]
    simp only [familyOf, h4, observedFallback, PRIORITY]
    rfl
  rw [selectProbeCandidates, hwan, if_neg hlegacy, hcandidate]
  cases admitted false allowIpv6 values <;> rfl

theorem boundProbeCandidates_eq (cs : List Candidate) :
    Client.boundProbeCandidates cs = boundSelection cs := by
  have hmem (e : Text) (ds : List Candidate) :
      Client.candidateTypeForEndpoint ds e = none ↔ e ∉ ds.map Candidate.endpoint := by
    rw [Client.candidateTypeForEndpoint, candidateTypeForEndpoint, Option.map_eq_none_iff, List.find?_eq_none]
    simp
  have hfive : Client.maxProbeCandidates = maxProbeCandidates := rfl
  rw [Client.boundProbeCandidates, boundSelection, hfive]
  by_cases hlen : cs.length ≤ maxProbeCandidates
  · rw [if_pos hlen, if_pos hlen]
  · rw [if_neg hlen, if_neg hlen]
    cases cs.find? fun c => decide (c.type = .observed4) with
    | none => rfl
    | some o =>
      dsimp only
      by_cases hin : o.endpoint ∈ (cs.take maxProbeCandidates).map Candidate.endpoint
      · rw [if_pos hin, if_neg fun hn => (hmem _ _).mp hn hin]
      · rw [if_neg hin, if_pos ((hmem _ _).mpr hin), Client.sortCandidates]

theorem dedupeProbeCandidates_eq (cs : List Candidate) :
    Client.sortCandidates (Client.dedupeProbeCandidates cs) = dedupeByEndpoint cs :=
  List.Pairwise.insertionSort_eq ((ranked_dedupeByEndpoint cs).sorted.imp Candidate.before_of_ahead)

theorem endpoint_ne_of_advertised {advertised : List Client.RawCandidate} {allowLAN allowIPv6 : Bool} :
    ∀ c ∈ Client.advertisedCandidates advertised allowLAN allowIPv6, c.endpoint ≠ [] := by
  intro c hc
  obtain ⟨raw, -, hraw⟩ := List.mem_filterMap.mp hc
  rw [Client.normalizeCandidate] at hraw
  simp only [Option.bind_eq_bind, Option.bind_eq_some_iff] at hraw
  obtain ⟨⟨ip, portText⟩, -, port, -, hraw⟩ := hraw
  split at hraw
  · cases hraw
  · obtain ⟨type, -, hraw⟩ := Option.bind_eq_some_iff.mp hraw
    split at hraw
    · obtain rfl := Option.some.inj hraw
      exact formatEndpoint_ne_nil ip.toAddress port.toNat
    · cases hraw

/-- `normalizeCandidate` of the observed endpoint. -/
theorem normalize_observed {endpoint : Text} {ip : Fin (2 ^ 32)} {portText : Text} {port : ℤ}
    (hip : Client.endpointAddress endpoint = some (.v4 ip, portText)) (hport : Client.atoi portText = some port)
    (hrange : 1 ≤ port ∧ port ≤ 65535) :
    Client.normalizeCandidate ⟨"observed4".toList, endpoint, Client.candidateDefaultPriority .observed4, true⟩ =
      some (observedFallback (formatEndpoint (.v4 ip) port.toNat)) := by
  have hnamed : Client.candidateTypeNamed "observed4".toList = some .observed4 := by decide
  rw [Client.normalizeCandidate, hip, Option.bind_eq_bind, Option.bind_some]
  simp only [hport, Option.bind_eq_bind, Option.bind_some, hnamed]
  rw [if_neg (by omega)]
  rfl

/-- `buildProbeCandidates` without LAN candidates and with an IPv4 endpoint. -/
theorem buildProbeCandidates_wan (advertised : List Client.RawCandidate) {endpoint lanEndpoint : Text}
    {allowIPv6 : Bool} {ip : Fin (2 ^ 32)} {portText : Text} {port : ℤ}
    (hip : Client.endpointAddress endpoint = some (.v4 ip, portText)) (hport : Client.atoi portText = some port)
    (hrange : 1 ≤ port ∧ port ≤ 65535) :
    Client.buildProbeCandidates advertised endpoint lanEndpoint false allowIPv6 =
      boundSelection (dedupeByEndpoint (Client.advertisedCandidates advertised false allowIPv6 ++
        [observedFallback (formatEndpoint (.v4 ip) port.toNat)])) := by
  have hne : endpoint ≠ [] := by
    rintro rfl
    cases hip
  rw [Client.buildProbeCandidates, if_pos hne, normalize_observed hip hport hrange, dedupeProbeCandidates_eq,
    boundProbeCandidates_eq]
  simp

/-- A list without empty endpoints, with the observed one at its end. -/
theorem boundSelection_append {cs : List Candidate} {observed : Text} (hcs : ∀ c ∈ cs, c.endpoint ≠ [])
    (hobserved : observed ≠ []) :
    ProbeList (boundSelection (dedupeByEndpoint (cs ++ [observedFallback observed]))) ∧
    (observed ∈ (boundSelection (dedupeByEndpoint (cs ++ [observedFallback observed]))).map
      Candidate.endpoint ↔ Survives (cs ++ [observedFallback observed]) observed) := by
  refine boundSelection_observed (fun c hc => ?_) ⟨observedFallback observed, by simp, rfl⟩
  rcases List.mem_append.mp hc with hc | hc
  · exact hcs c hc
  · obtain rfl := List.mem_singleton.mp hc
    exact hobserved

/-- The observed endpoint is in the list that is probed exactly when it survives among the admitted
    candidates; everything else said of that list holds always. -/
theorem observed_selected_iff (allowIpv6 : Bool) :
    (∀ (values : List Json) (legacy observed : Text) (type : Json) (address : IpAddress) (port : ℕ),
      isLan type = false → parseEndpoint (.str legacy) = .ok (observed, address, port) →
      address.version = 4 →
      ((∃ cs, selectProbeCandidates values legacy type allowIpv6 = .ok cs ∧ ProbeList cs ∧
        observed ∈ cs.map Candidate.endpoint) ↔
      ∃ cs, admitted false allowIpv6 values = .ok cs ∧
        Survives (cs ++ [observedFallback observed]) observed)) ∧
    ∀ (advertised : List Client.RawCandidate) (endpoint lanEndpoint portText : Text)
      (ip : Fin (2 ^ 32)) (port : ℤ), Client.endpointAddress endpoint = some (.v4 ip, portText) →
      Client.atoi portText = some port → 1 ≤ port ∧ port ≤ 65535 →
      ((ProbeList (Client.buildProbeCandidates advertised endpoint lanEndpoint false allowIpv6) ∧
        formatEndpoint (.v4 ip) port.toNat ∈
          (Client.buildProbeCandidates advertised endpoint lanEndpoint false allowIpv6).map
            Candidate.endpoint) ↔
      Survives (Client.advertisedCandidates advertised false allowIpv6 ++
        [observedFallback (formatEndpoint (.v4 ip) port.toNat)]) (formatEndpoint (.v4 ip) port.toNat)) := by
  constructor
  · intro values legacy observed type address port hwan hparse h4
    obtain ⟨e, -, he⟩ := parseEndpoint_ok hparse
    rw [Prod.mk.injEq] at he
    have hobserved : observed ≠ [] := he.1 ▸ formatEndpoint_ne_nil e.address e.port
    rw [selectProbeCandidates_wan hwan hparse h4]
    cases hcs : admitted false allowIpv6 values with
    | error err => simp [Except.map]
    | ok cs =>
      obtain ⟨hlist, hin⟩ := boundSelection_append (endpoint_ne_of_admitted hcs) hobserved
      simp only [Except.map, Except.ok.injEq, exists_eq_left', hlist, true_and, hin]
  · intro advertised endpoint lanEndpoint portText ip port hip hport hrange
    rw [buildProbeCandidates_wan advertised hip hport hrange]
    obtain ⟨hlist, hin⟩ := boundSelection_append
      (@endpoint_ne_of_advertised advertised false allowIpv6) (formatEndpoint_ne_nil (.v4 ip) port.toNat)
    rw [hin]
    exact ⟨And.right, fun h => ⟨hlist, h⟩⟩

/-- Five addresses of a host, and a mapping of the very endpoint the coordinator observes. -/
def mappedHost : List Candidate :=
  [⟨.host6, .udp6, "[2600::1]:51820".toList, 910, false⟩, ⟨.host6, .udp6, "[2600::2]:51820".toList, 900, false⟩,
   ⟨.host6, .udp6, "[2600::3]:51820".toList, 900, false⟩, ⟨.host6, .udp6, "[2600::4]:51820".toList, 900, false⟩,
   ⟨.host6, .udp6, "[2600::5]:51820".toList, 900, false⟩, ⟨.mapped4, .udp4, "8.8.8.8:51820".toList, 800, false⟩]

/-- The candidates as the client decodes them. -/
def Candidate.raw (c : Candidate) : Client.RawCandidate :=
  ⟨c.type.name.toList, c.endpoint, c.priority, c.verified⟩

/-- The mapping takes the place of the observed candidate, and the addresses take all five places. -/
theorem observed_lost :
    parseEndpoint (.str "8.8.8.8:51820".toList) = .ok ("8.8.8.8:51820".toList, .v4 134744072, 51820) ∧
    IpAddress.isGlobal (.v4 134744072) = true ∧
    (∃ cs, selectProbeCandidates (mappedHost.map Candidate.toJson) "8.8.8.8:51820".toList
      (.str "WAN".toList) true = .ok cs ∧ "8.8.8.8:51820".toList ∉ cs.map Candidate.endpoint) ∧
    "8.8.8.8:51820".toList ∉ (Client.buildProbeCandidates (mappedHost.map Candidate.raw)
      "8.8.8.8:51820".toList [] false true).map Candidate.endpoint := by
  refine ⟨by decide +kernel, by decide +kernel, ?_, by decide +kernel⟩
  have hlost : (selectProbeCandidates (mappedHost.map Candidate.toJson) "8.8.8.8:51820".toList
      (.str "WAN".toList) true).toOption.any
      (fun cs => decide ("8.8.8.8:51820".toList ∉ cs.map Candidate.endpoint)) = true := by
    decide +kernel
  cases hcs : selectProbeCandidates (mappedHost.map Candidate.toJson) "8.8.8.8:51820".toList
      (.str "WAN".toList) true with
  | error e =>
    rw [hcs] at hlost
    cases hlost
  | ok cs =>
    rw [hcs] at hlost
    exact ⟨cs, rfl, of_decide_eq_true hlost⟩

/-- Without the mapping the observed endpoint takes the last place. -/
theorem observed_selected_iff_hosts :
    (∃ cs, selectProbeCandidates ((mappedHost.take 5).map Candidate.toJson) "8.8.8.8:51820".toList
      (.str "WAN".toList) true = .ok cs ∧ ProbeList cs ∧ "8.8.8.8:51820".toList ∈ cs.map Candidate.endpoint) ∧
    "8.8.8.8:51820".toList ∈ (Client.buildProbeCandidates ((mappedHost.take 5).map Candidate.raw)
      "8.8.8.8:51820".toList [] false true).map Candidate.endpoint := by
  have hbest : bestFor "8.8.8.8:51820".toList (mappedHost.take 5 ++ [observedFallback "8.8.8.8:51820".toList]) =
      some (observedFallback "8.8.8.8:51820".toList) := by decide +kernel
  have hsurvives : Survives (mappedHost.take 5 ++ [observedFallback "8.8.8.8:51820".toList])
      "8.8.8.8:51820".toList := by
    exact ⟨_, hbest, .inr (.inr ⟨rfl, by decide +kernel⟩)⟩
  have hadvertised : Client.advertisedCandidates ((mappedHost.take 5).map Candidate.raw) false true =
      mappedHost.take 5 := by decide +kernel
  have htext : formatEndpoint (.v4 134744072) (51820 : ℤ).toNat = "8.8.8.8:51820".toList := by decide +kernel
  constructor
  · exact ((observed_selected_iff true).1 _ _ _ (.str "WAN".toList) (.v4 134744072) 51820 (by decide)
      (by decide +kernel) rfl).mpr ⟨mappedHost.take 5, by decide +kernel, hsurvives⟩
  · have hgo := ((observed_selected_iff true).2 ((mappedHost.take 5).map Candidate.raw) "8.8.8.8:51820".toList []
      "51820".toList 134744072 51820 (by decide +kernel) (by decide +kernel) (by norm_num)).mpr
    rw [hadvertised, htext] at hgo
    exact (hgo hsurvives).2

end Candidates
