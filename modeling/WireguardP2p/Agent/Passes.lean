import WireguardP2p.Agent.Steps

/-! A pass of the monitor, key by key. The loop visits each key once and touches no other, so what it
    makes of a key is what its body makes of the entry and the peer the key had before the pass. -/

namespace Agent
open Ipaddress Python Candidates Raising

/-- The entry of a key and its device peer. -/
abbrev View := Option PeerState × Option WgPeer

def Slot.view (sl : Slot) : View := (sl.entry, sl.peer)

def Shared.view (sh : Shared) (k : PublicKey) : View := (sh.states.get? k, sh.wg.get? k)

@[simp] theorem Shared.view_slot (sh : Shared) (k : PublicKey) : (sh.slot k).view = sh.view k := rfl

@[simp] theorem Shared.view_put (sh : Shared) (k : PublicKey) (sl : Slot) : (sh.put k sl).view k = sl.view := by
  rw [Shared.view, get?_put_states, get?_put_wg, if_pos rfl, if_pos rfl]
  rfl

theorem Shared.view_put_of_ne {sh : Shared} {k j : PublicKey} {sl : Slot} (hj : j ≠ k) (ht : sl.taken = []) :
    (sh.put k sl).view j = sh.view j := by
  rw [Shared.view, get?_put_states, if_neg hj, Shared.get?_put_wg_of_ne hj ht]
  rfl

/-- What a pass over `keys` with its launches made of each of them, and that it left the others alone. -/
structure Each (R : PublicKey → Option ℕ → View → View → Prop) (keys : List PublicKey)
    (launches : List (PublicKey × ℕ)) (sh sh' : Shared) : Prop where
  visited : ∀ k ∈ keys, ∃ launch, R k launch (sh.view k) (sh'.view k) ∧
    ∀ g, (k, g) ∈ launches → launch = some g
  others : ∀ k, k ∉ keys → sh'.view k = sh.view k
  launched : ∀ l ∈ launches, l.1 ∈ keys

/-- What a pass over `keys` that a failing removal stopped made of each of them. -/
structure Stopped (R : PublicKey → Option ℕ → View → View → Prop) (E : PublicKey → View → View → Prop)
    (keys : List PublicKey) (sh sh' : Shared) : Prop where
  visited : ∀ k ∈ keys, sh'.view k = sh.view k ∨ (∃ launch, R k launch (sh.view k) (sh'.view k)) ∨
    E k (sh.view k) (sh'.view k)
  others : ∀ k, k ∉ keys → sh'.view k = sh.view k
  failed : ∃ k ∈ keys, E k (sh.view k) (sh'.view k)

section Passes
variable {R : PublicKey → Option ℕ → View → View → Prop} {E : PublicKey → View → View → Prop}
  {now : Time} {remove : PublicKey → Outcome}

/-- The body of the loop makes `R` of a key, or raises and makes `E` of it. -/
def Body (R : PublicKey → Option ℕ → View → View → Prop) (E : PublicKey → View → View → Prop) (now : Time)
    (remove : PublicKey → Outcome) (k : PublicKey) (v : View) : Prop := ∀ sl : Slot, sl.view = v →
  (monitorPeer now (remove k)).wp (fun r sl' => R k r.launch v sl'.view) (fun _ sl' => E k v sl'.view) sl

theorem each_monitorLoop (keys : List PublicKey) (hnodup : keys.Nodup) : ∀ sh : Shared,
    (∀ k ∈ keys, Body R E now remove k (sh.view k)) →
      (monitorLoop now remove keys).wp (fun r sh' => Each R keys r.2 sh sh')
        (fun _ sh' => Stopped R E keys sh sh') sh := by
  induction keys with
  | nil =>
    intro sh _
    exact ⟨fun k hk => absurd hk List.not_mem_nil, fun k _ => rfl, fun l hl => absurd hl List.not_mem_nil⟩
  | cons k ks ih =>
    intro sh hbody
    rw [List.nodup_cons] at hnodup
    have hne : ∀ j ∈ ks, j ≠ k := fun j hj h => hnodup.1 (h ▸ hj)
    rw [monitorLoop, wp_bind, wp_onKey]
    refine wp_mono (wp_and (hbody k List.mem_cons_self (sh.slot k) rfl)
      (takesNone_monitorPeer now (remove k) (sh.slot k))) (fun r sl h => ?_) fun _ sl h => ?_
    · obtain ⟨hfirst, htaken⟩ := h
      have hkeep : ∀ j, j ≠ k → (sh.put k sl).view j = sh.view j := fun j hj =>
        Shared.view_put_of_ne hj htaken
      rw [wp_bind]
      refine wp_mono (ih hnodup.2 (sh.put k sl) fun j hj => ?_) (fun q sh' hrest => ?_) fun _ sh' hrest => ?_
      · rw [hkeep j (hne j hj)]
        exact hbody j (List.mem_cons_of_mem k hj)
      · have hk : sh'.view k = sl.view := (hrest.others k hnodup.1).trans (Shared.view_put sh k sl)
        have hmem : ∀ j g, (j, g) ∈ (r.launch.map (Prod.mk k)).toList ++ q.2 →
            j = k ∧ r.launch = some g ∨ (j, g) ∈ q.2 := by
          intro j g hg
          rcases List.mem_append.mp hg with hg | hg
          · obtain ⟨g', hg', heq⟩ := Option.map_eq_some_iff.mp (Option.mem_toList.mp hg)
            obtain ⟨rfl, rfl⟩ := Prod.mk.inj heq
            exact Or.inl ⟨rfl, hg'⟩
          · exact Or.inr hg
        refine ⟨fun j hj => ?_, fun j hj => ?_, fun l hl => ?_⟩
        · rcases List.mem_cons.mp hj with rfl | hj
          · refine ⟨r.launch, hk ▸ hfirst, fun g hg => ?_⟩
            rcases hmem j g hg with h | h
            · exact h.2
            · exact absurd (hrest.launched _ h) hnodup.1
          · obtain ⟨launch, hR, hl⟩ := hrest.visited j hj
            rw [hkeep j (hne j hj)] at hR
            refine ⟨launch, hR, fun g hg => ?_⟩
            rcases hmem j g hg with h | h
            · exact absurd h.1 (hne j hj)
            · exact hl g h
        · rw [List.mem_cons, not_or] at hj
          exact (hrest.others j hj.2).trans (hkeep j hj.1)
        · obtain ⟨j, g⟩ := l
          rcases hmem j g hl with h | h
          · exact h.1 ▸ List.mem_cons_self
          · exact List.mem_cons_of_mem k (hrest.launched _ h)
      · -- a later key stopped the pass
        have hk : sh'.view k = sl.view := (hrest.others k hnodup.1).trans (Shared.view_put sh k sl)
        refine ⟨fun j hj => ?_, fun j hj => ?_, ?_⟩
        · rcases List.mem_cons.mp hj with rfl | hj
          · exact Or.inr (Or.inl ⟨r.launch, hk ▸ hfirst⟩)
          · exact hkeep j (hne j hj) ▸ hrest.visited j hj
        · rw [List.mem_cons, not_or] at hj
          exact (hrest.others j hj.2).trans (hkeep j hj.1)
        · obtain ⟨j, hj, hE⟩ := hrest.failed
          exact ⟨j, List.mem_cons_of_mem k hj, hkeep j (hne j hj) ▸ hE⟩
    · obtain ⟨hfirst, htaken⟩ := h
      have hE : E k (sh.view k) ((sh.put k sl).view k) := (Shared.view_put sh k sl).symm ▸ hfirst
      refine ⟨fun j hj => ?_, fun j hj => ?_, k, List.mem_cons_self, hE⟩
      · rcases List.mem_cons.mp hj with rfl | hj
        · exact Or.inr (Or.inr hE)
        · exact Or.inl (Shared.view_put_of_ne (hne j hj) htaken)
      · rw [List.mem_cons, not_or] at hj
        exact Shared.view_put_of_ne hj.1 htaken

/-- A pass that raises visited every key before, or none, or was stopped. -/
theorem each_monitorOnce {sh : Shared} {calls : PassCalls}
    (hbody : ∀ k ∈ sh.states.keys, Body R E now calls.remove k (sh.view k)) :
    (monitorOnce now calls).wp (fun launches sh' => Each R sh.states.keys launches sh sh')
      (fun _ sh' => (∃ launches, Each R sh.states.keys launches sh sh') ∨
        Stopped R E sh.states.keys sh sh' ∨ calls.query ≠ none ∧ sh' = sh) sh := by
  simp only [monitorOnce, wp_bind, wp_get, wp_ite, wp_pure, wp_queryAll]
  refine ⟨fun he => ?_, fun _ => ⟨fun _ => ?_, fun e he => ?_⟩⟩
  · rw [he]
    exact ⟨fun k hk => absurd hk List.not_mem_nil, fun k _ => rfl, fun l hl => absurd hl List.not_mem_nil⟩
  · refine wp_mono (each_monitorLoop _ sh.states.keys_nodup sh hbody) (fun r sh' h => ?_)
      fun _ sh' h => Or.inr (Or.inl h)
    simp only [wp_saveAll]
    exact ⟨fun _ => ⟨fun _ => h, fun _ => Or.inl ⟨r.2, h⟩⟩, fun _ => h⟩
  · refine Or.inr (Or.inr ⟨?_, trivial⟩)
    rw [he]
    exact fun h => by cases h

end Passes

end Agent
