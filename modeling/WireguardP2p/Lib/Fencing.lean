import Mathlib

/-! Fencing tokens. Every resource has at most one current token, and a counter bounds the tokens
    handed out so far. A system advances when a resource keeps its token, loses it, or gets one above
    the counter. A token that is not current any more is then never current again, so a party that
    checks its token before it acts is fenced off for good. -/

/-- The current token of each resource with the bearer it was made for, and the greatest token handed
    out. -/
structure Fence (κ ι : Type*) where
  current : κ → Option (ℕ × ι)
  last : ℕ

namespace Fence
variable {κ ι : Type*} {f f' f'' : Fence κ ι} {k : κ} {g : ℕ}

/-- Tokens are kept with their bearers, dropped, or replaced by new ones. -/
structure Advance (f f' : Fence κ ι) : Prop where
  last_le : f.last ≤ f'.last
  current : ∀ k g i, f'.current k = some (g, i) →
    f.current k = some (g, i) ∨ f.last < g ∧ g ≤ f'.last

/-- A token that was handed out and is not current. -/
def Stale (f : Fence κ ι) (k : κ) (g : ℕ) : Prop := g ≤ f.last ∧ ∀ i, f.current k ≠ some (g, i)

/-- Every current token was handed out. -/
def Bounded (f : Fence κ ι) : Prop := ∀ k g i, f.current k = some (g, i) → g ≤ f.last

theorem Advance.refl (f : Fence κ ι) : Advance f f := ⟨le_rfl, fun _ _ _ h => .inl h⟩

theorem Advance.trans (h : Advance f f') (h' : Advance f' f'') : Advance f f'' := by
  refine ⟨le_trans h.last_le h'.last_le, fun k g i hg => ?_⟩
  have hle := h.last_le
  have hle' := h'.last_le
  rcases h'.current k g i hg with hk | ⟨hlt, hg⟩
  · rcases h.current k g i hk with hk | ⟨hlt, hg⟩
    · exact .inl hk
    · exact .inr ⟨hlt, by omega⟩
  · exact .inr ⟨by omega, hg⟩

theorem Advance.bounded (h : Advance f f') (hf : Bounded f) : Bounded f' := by
  intro k g i hg
  rcases h.current k g i hg with hk | ⟨_, hle⟩
  · exact le_trans (hf k g i hk) h.last_le
  · exact hle

/-- A stale token stays stale. -/
theorem Stale.advance (hs : Stale f k g) (h : Advance f f') : Stale f' k g := by
  refine ⟨le_trans hs.1 h.last_le, fun i hg => ?_⟩
  rcases h.current k g i hg with hk | ⟨hlt, _⟩
  · exact hs.2 i hk
  · exact absurd hs.1 (by omega)

/-- A token never changes its bearer. -/
theorem Advance.bearer {i j : ι} (h : Advance f f') (hf : Bounded f) (hi : f.current k = some (g, i))
    (hj : f'.current k = some (g, j)) : i = j := by
  rcases h.current k g j hj with hk | ⟨hlt, _⟩
  · rw [hi, Option.some.injEq, Prod.mk.injEq] at hk
    exact hk.2
  · exact absurd (hf k g i hi) (by omega)

end Fence
