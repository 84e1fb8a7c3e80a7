import Mathlib

/-! Runs of a labelled machine. A machine is a partial step function: `step s i = none` says that
    the label `i` is not enabled in `s`. Every choice of the environment (a clock reading, a call
    that fails, which thread moves) is part of the label, so a run is a list of labels and can be
    executed. `Along ok` restricts a run to steps that meet a condition on the state before the
    step and the label; an invariant of such steps holds in every state such a run reaches. -/

namespace Runs

/-- A partial step function over states `σ` and labels `ι`. -/
structure Machine (σ ι : Type*) where
  step : σ → ι → Option σ

namespace Machine
variable {σ ι : Type*} (m : Machine σ ι)

/-- The state after the labels, in order; `none` when one of them is not enabled. -/
def run : σ → List ι → Option σ
  | s, [] => some s
  | s, i :: is => (m.step s i).bind fun t => run t is

/-- Every step of the run from `s` meets `ok` in the state it starts from. -/
def Along (ok : σ → ι → Prop) : σ → List ι → Prop
  | _, [] => True
  | s, i :: is => ok s i ∧ ∀ t, m.step s i = some t → Along ok t is

@[simp] theorem run_nil (s : σ) : m.run s [] = some s := rfl

theorem run_cons {s u : σ} {i : ι} {is : List ι} :
    m.run s (i :: is) = some u ↔ ∃ t, m.step s i = some t ∧ m.run t is = some u := by
  simp [run, Option.bind_eq_some_iff]

theorem run_append {s u : σ} : ∀ {is js : List ι},
    m.run s (is ++ js) = some u ↔ ∃ t, m.run s is = some t ∧ m.run t js = some u
  | [], js => by simp
  | i :: is, js => by
      rw [List.cons_append, run_cons]
      constructor
      · rintro ⟨t, ht, hu⟩
        obtain ⟨v, hv, hvu⟩ := run_append.mp hu
        exact ⟨v, m.run_cons.mpr ⟨t, ht, hv⟩, hvu⟩
      · rintro ⟨v, hv, hvu⟩
        obtain ⟨t, ht, htv⟩ := m.run_cons.mp hv
        exact ⟨t, ht, run_append.mpr ⟨v, htv, hvu⟩⟩

theorem along_true : ∀ (s : σ) (is : List ι), m.Along (fun _ _ => True) s is
  | _, [] => trivial
  | _, _ :: is => ⟨trivial, fun t _ => along_true t is⟩

/-- A condition on the labels alone. -/
theorem along_of_mem {P : ι → Prop} : ∀ {s : σ} {is : List ι}, (∀ i ∈ is, P i) →
    m.Along (fun _ => P) s is
  | _, [], _ => trivial
  | _, i :: _, h => ⟨h i List.mem_cons_self, fun _ _ => along_of_mem fun j hj =>
      h j (List.mem_cons_of_mem i hj)⟩

/-- A condition that some labels meet in every state. -/
theorem along_of_forall {ok : σ → ι → Prop} : ∀ {s : σ} {is : List ι}, (∀ i ∈ is, ∀ t, ok t i) → m.Along ok s is
  | _, [], _ => trivial
  | s, i :: _, h => ⟨h i List.mem_cons_self s, fun _ _ => along_of_forall fun j hj =>
      h j (List.mem_cons_of_mem i hj)⟩

variable {m} in
/-- What holds along a run holds of its last step. -/
theorem Along.last {ok : σ → ι → Prop} {i : ι} : ∀ {is : List ι} {s t : σ},
    m.Along ok s (is ++ [i]) → m.run s is = some t → ok t i
  | [], s, t, ⟨hi, _⟩, hrun => by
      rw [run_nil, Option.some.injEq] at hrun
      exact hrun ▸ hi
  | _ :: is, s, t, ⟨_, his⟩, hrun => by
      obtain ⟨u, hu, hut⟩ := m.run_cons.mp hrun
      exact Along.last (his u hu) hut

variable {m} in
/-- The part of an allowed run before a state, and the part after it. -/
theorem Along.split {ok : σ → ι → Prop} {js : List ι} : ∀ {is : List ι} {s t : σ},
    m.Along ok s (is ++ js) → m.run s is = some t → m.Along ok s is ∧ m.Along ok t js
  | [], s, t, hjs, hrun => by
      rw [run_nil, Option.some.injEq] at hrun
      exact ⟨trivial, hrun ▸ hjs⟩
  | _ :: is, s, t, ⟨hi, his⟩, hrun => by
      obtain ⟨u, hu, hut⟩ := m.run_cons.mp hrun
      refine ⟨⟨hi, fun v hv => ?_⟩, (Along.split (his u hu) hut).2⟩
      obtain rfl := Option.some.inj (hu.symm.trans hv)
      exact (Along.split (his u hu) hut).1

instance decidableAlong (ok : σ → ι → Prop) [∀ s i, Decidable (ok s i)] :
    ∀ (s : σ) (is : List ι), Decidable (m.Along ok s is)
  | _, [] => isTrue trivial
  | s, i :: is =>
    match h : m.step s i with
    | none => decidable_of_iff (ok s i) ⟨fun hi => ⟨hi, fun t ht => by simp [h] at ht⟩, And.left⟩
    | some t =>
      have := decidableAlong ok t is
      decidable_of_iff (ok s i ∧ m.Along ok t is)
        ⟨fun ⟨hi, his⟩ => ⟨hi, fun u hu => by
          rw [h] at hu
          exact Option.some.inj hu ▸ his⟩, fun ⟨hi, his⟩ => ⟨hi, his t h⟩⟩

/-- Run rule for a condition: what every allowed step preserves implies it along every allowed run. -/
theorem along_of_invariant {ok ok' : σ → ι → Prop} {I : σ → Prop}
    (hstep : ∀ s i t, ok s i → I s → m.step s i = some t → I t)
    (h : ∀ s i, I s → ok s i → ok' s i) :
    ∀ {s : σ} {is : List ι}, I s → m.Along ok s is → m.Along ok' s is
  | _, [], _, _ => trivial
  | s, i :: _, hs, ⟨hi, his⟩ =>
    ⟨h s i hs hi, fun t ht => along_of_invariant hstep h (hstep s i t hi hs ht) (his t ht)⟩

variable {m} in
theorem Along.and {ok ok' : σ → ι → Prop} : ∀ {s : σ} {is : List ι}, m.Along ok s is →
    m.Along ok' s is → m.Along (fun s i => ok s i ∧ ok' s i) s is
  | _, [], _, _ => trivial
  | _, _ :: _, ⟨hi, his⟩, ⟨hi', his'⟩ => ⟨⟨hi, hi'⟩, fun t ht => (his t ht).and (his' t ht)⟩

/-- Run rule: what every allowed step preserves holds wherever an allowed run ends. -/
theorem run_invariant {ok : σ → ι → Prop} {I : σ → Prop}
    (hstep : ∀ s i t, ok s i → I s → m.step s i = some t → I t) :
    ∀ {is : List ι} {s t : σ}, I s → m.Along ok s is → m.run s is = some t → I t
  | [], s, t, hs, _, hrun => by
      rw [run_nil, Option.some.injEq] at hrun
      exact hrun ▸ hs
  | i :: is, s, t, hs, ⟨hi, his⟩, hrun => by
      obtain ⟨u, hu, hut⟩ := m.run_cons.mp hrun
      exact run_invariant hstep (hstep s i u hi hs hu) (his u hu) hut

/-- Run rule for an exact condition: where a step from an `I`-state reaches one exactly if it meets `C`,
    a run stays among the `I`-states exactly if all its steps meet `C`. -/
theorem along_iff {ok C : σ → ι → Prop} {I : σ → Prop}
    (hstep : ∀ s i t, ok s i → I s → m.step s i = some t → (I t ↔ C s i)) {is : List ι} :
    ∀ {s t : σ}, I s → m.Along ok s is → m.run s is = some t →
      ((∀ js, js <+: is → ∀ u, m.run s js = some u → I u) ↔ m.Along C s is) := by
  induction is with
  | nil =>
    intro s t hs _ _
    refine ⟨fun _ => trivial, fun _ js hjs u hu => ?_⟩
    obtain rfl := List.prefix_nil.mp hjs
    exact Option.some.inj hu ▸ hs
  | cons i is ih =>
    rintro s t hs ⟨hi, his⟩ hrun
    obtain ⟨v, hv, hvt⟩ := m.run_cons.mp hrun
    have hiff := hstep s i v hi hs hv
    constructor
    · intro h
      have hIv : I v := h [i] (List.prefix_append [i] is) v (m.run_cons.mpr ⟨v, hv, rfl⟩)
      refine ⟨hiff.mp hIv, fun u hu => ?_⟩
      obtain rfl := Option.some.inj (hv.symm.trans hu)
      refine (ih hIv (his v hv) hvt).mp fun js hjs u hu => h (i :: js) ?_ u (m.run_cons.mpr ⟨v, hv, hu⟩)
      exact (List.prefix_cons_inj i).mpr hjs
    · rintro ⟨hC, hrest⟩ js hjs u hu
      have hIv : I v := hiff.mpr hC
      cases js with
      | nil => exact Option.some.inj hu ▸ hs
      | cons j js =>
        obtain ⟨rfl, htail⟩ := List.cons_prefix_cons.mp hjs
        obtain ⟨v', hv', hu⟩ := m.run_cons.mp hu
        obtain rfl := Option.some.inj (hv.symm.trans hv')
        exact (ih hIv (his v hv) hvt).mpr (hrest v hv) js htail u hu

/-- Run rule for a relation between the first and the last state: a reflexive and transitive
    relation that every allowed step from an `I`-state respects. -/
theorem run_relation {ok : σ → ι → Prop} {I : σ → Prop} {R : σ → σ → Prop}
    (hrefl : ∀ s, R s s) (htrans : ∀ s t u, R s t → R t u → R s u)
    (hstep : ∀ s i t, ok s i → I s → m.step s i = some t → I t ∧ R s t) :
    ∀ {is : List ι} {s t : σ}, I s → m.Along ok s is → m.run s is = some t → R s t
  | [], s, t, _, _, hrun => by
      rw [run_nil, Option.some.injEq] at hrun
      exact hrun ▸ hrefl s
  | i :: is, s, t, hs, ⟨hi, his⟩, hrun => by
      obtain ⟨u, hu, hut⟩ := m.run_cons.mp hrun
      obtain ⟨hIu, hRu⟩ := hstep s i u hi hs hu
      exact htrans s u t hRu (run_relation hrefl htrans hstep hIu (his u hu) hut)

/-- Refinement rule: where every step follows the step of an abstract model, every run does. -/
theorem run_refines {τ : Type*} {R : σ → τ → Prop} {f : τ → ι → τ}
    (hstep : ∀ s a i t, R s a → m.step s i = some t → R t (f a i)) :
    ∀ {is : List ι} {s t : σ} {a : τ}, R s a → m.run s is = some t → R t (is.foldl f a)
  | [], s, t, a, h, hrun => by
      rw [run_nil, Option.some.injEq] at hrun
      exact hrun ▸ h
  | i :: is, s, t, a, h, hrun => by
      obtain ⟨u, hu, hut⟩ := m.run_cons.mp hrun
      rw [List.foldl_cons]
      exact run_refines hstep (hstep s a i u h hu) hut

end Machine
end Runs
