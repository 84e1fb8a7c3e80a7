import Mathlib

/-! Programs that may raise. `Raising σ ε α` updates a state and ends with a value or a raised
    error; a raise keeps the updates made before it, as exceptions of the usual imperative
    languages do. `wp` is the weakest precondition with one postcondition for the normal end and one
    for the raising end; the rules below push it through a program, one command at a time. -/

/-- A program over the state `σ` that returns an `α` or raises an `ε`. -/
def Raising (σ ε α : Type) := σ → Except ε α × σ

namespace Raising
variable {σ ε α β : Type}

/-- Run on a state. -/
def run (p : Raising σ ε α) (s : σ) : Except ε α × σ := p s

def ret (a : α) : Raising σ ε α := fun s => (.ok a, s)

def andThen (p : Raising σ ε α) (f : α → Raising σ ε β) : Raising σ ε β := fun s =>
  match p s with
  | (.ok a, t) => f a t
  | (.error e, t) => (.error e, t)

instance : Monad (Raising σ ε) where
  pure := ret
  bind := andThen

/-- Read the state. -/
def get : Raising σ ε σ := fun s => (.ok s, s)

/-- Update the state. -/
def modify (f : σ → σ) : Raising σ ε Unit := fun s => (.ok (), f s)

def raise (e : ε) : Raising σ ε α := fun s => (.error e, s)

/-- `try p except h`: the handler starts from the state the raise left. -/
def handle (p : Raising σ ε α) (h : ε → Raising σ ε α) : Raising σ ε α := fun s =>
  match p s with
  | (.ok a, t) => (.ok a, t)
  | (.error e, t) => h e t

/-- A value, or the error there is instead of it. -/
def ofExcept : Except ε α → Raising σ ε α
  | .ok a => pure a
  | .error e => raise e

theorem ofExcept_ok_bind (a : α) (f : α → Raising σ ε β) : (ofExcept (.ok a) >>= f) = f a := rfl

theorem run_ofExcept_error (e : ε) (f : α → Raising σ ε β) (s : σ) :
    (ofExcept (.error e) >>= f).run s = (.error e, s) := rfl

/-- A computation that ends normally is one of its first part, and one of the rest. -/
theorem bind_ok {x : Except ε α} {f : α → Except ε β} {b : β} (h : (x >>= f) = .ok b) :
    ∃ a, x = .ok a ∧ f a = .ok b := by
  cases x with
  | error e => cases h
  | ok a => exact ⟨a, rfl, h⟩

theorem run_get_bind (f : σ → Raising σ ε β) (s : σ) : (get >>= f).run s = (f s).run s := rfl

theorem run_modify_bind (g : σ → σ) (f : Unit → Raising σ ε β) (s : σ) :
    (modify g >>= f).run s = (f ()).run (g s) := rfl

/-- The program ends normally in `Q` or raises in `E`. -/
def wp (p : Raising σ ε α) (Q : α → σ → Prop) (E : ε → σ → Prop) (s : σ) : Prop :=
  match p s with
  | (.ok a, t) => Q a t
  | (.error e, t) => E e t

variable {Q : α → σ → Prop} {E : ε → σ → Prop} {s : σ}

@[simp] theorem wp_pure (a : α) : wp (pure a : Raising σ ε α) Q E s = Q a s := rfl

@[simp] theorem wp_get {Q : σ → σ → Prop} : wp (get : Raising σ ε σ) Q E s = Q s s := rfl

@[simp] theorem wp_modify (f : σ → σ) {Q : Unit → σ → Prop} :
    wp (modify f : Raising σ ε Unit) Q E s = Q () (f s) := rfl

@[simp] theorem wp_raise (e : ε) : wp (raise e : Raising σ ε α) Q E s = E e s := rfl

@[simp] theorem wp_bind (p : Raising σ ε α) (f : α → Raising σ ε β) {Q : β → σ → Prop} :
    wp (p >>= f) Q E s = wp p (fun a t => wp (f a) Q E t) E s := by
  show wp (andThen p f) Q E s = _
  unfold wp andThen
  rcases p s with ⟨_ | _, _⟩ <;> rfl

@[simp] theorem wp_handle (p : Raising σ ε α) (h : ε → Raising σ ε α) :
    wp (handle p h) Q E s = wp p Q (fun e t => wp (h e) Q E t) s := by
  unfold wp handle
  rcases p s with ⟨_ | _, _⟩ <;> rfl

@[simp] theorem wp_ite (c : Prop) [Decidable c] (p q : Raising σ ε α) :
    wp (if c then p else q) Q E s = ((c → wp p Q E s) ∧ (¬ c → wp q Q E s)) := by
  by_cases h : c <;> simp [h]

/-- Consequence rule. -/
theorem wp_mono {p : Raising σ ε α} {Q' : α → σ → Prop} {E' : ε → σ → Prop}
    (h : wp p Q E s) (hQ : ∀ a t, Q a t → Q' a t) (hE : ∀ e t, E e t → E' e t) :
    wp p Q' E' s := by
  unfold wp at h ⊢
  generalize p s = r at h ⊢
  rcases r with ⟨e | a, t⟩
  · exact hE e t h
  · exact hQ a t h

theorem wp_trivial (p : Raising σ ε α) (s : σ) : wp p (fun _ _ => True) (fun _ _ => True) s := by
  unfold wp
  rcases p s with ⟨_ | _, _⟩ <;> exact trivial

/-- Two facts about the same program hold together. -/
theorem wp_and {p : Raising σ ε α} {Q' : α → σ → Prop} {E' : ε → σ → Prop}
    (h : wp p Q E s) (h' : wp p Q' E' s) :
    wp p (fun a t => Q a t ∧ Q' a t) (fun e t => E e t ∧ E' e t) s := by
  unfold wp at h h' ⊢
  generalize p s = r at h h' ⊢
  rcases r with ⟨e | a, t⟩ <;> exact ⟨h, h'⟩

/-- What `wp` says of the result of a run that ended normally. -/
theorem wp_ok {p : Raising σ ε α} {a : α} {t : σ} (h : wp p Q E s) (hrun : p.run s = (.ok a, t)) :
    Q a t := by
  unfold wp at h
  rw [show p s = (.ok a, t) from hrun] at h
  exact h

/-- What `wp` says of the result of a run that raised. -/
theorem wp_error {p : Raising σ ε α} {e : ε} {t : σ} (h : wp p Q E s)
    (hrun : p.run s = (.error e, t)) : E e t := by
  unfold wp at h
  rw [show p s = (.error e, t) from hrun] at h
  exact h

/-- The precondition of a program that is known to end normally. -/
theorem wp_iff_of_ok {p : Raising σ ε α} {a : α} {t : σ} (hrun : p.run s = (.ok a, t)) : wp p Q E s ↔ Q a t := by
  rw [wp, show p s = (.ok a, t) from hrun]

theorem wp_iff_of_error {p : Raising σ ε α} {e : ε} {t : σ} (hrun : p.run s = (.error e, t)) :
    wp p Q E s ↔ E e t := by
  rw [wp, show p s = (.error e, t) from hrun]

/-- A run that ends with a value. -/
theorem exists_ok {p : Raising σ ε α} (h : (p.run s).1.toOption.isSome = true) :
    ∃ a, p.run s = (.ok a, (p.run s).2) := by
  generalize p.run s = r at h
  rcases r with ⟨_ | a, t⟩
  · cases h
  · exact ⟨a, rfl⟩

/-- The state a program leaves behind, however it ends. -/
theorem wp_run {R : σ → Prop} {p : Raising σ ε α} (h : wp p (fun _ => R) (fun _ => R) s) :
    R (p.run s).2 := by
  unfold wp at h
  show R (p s).2
  generalize p s = r at h ⊢
  rcases r with ⟨_ | _, _⟩ <;> exact h

/-! ### Invariants of a program -/

/-- The program keeps `I`, however it ends. -/
def Keeps (I : σ → Prop) (p : Raising σ ε α) : Prop := ∀ s, I s → wp p (fun _ => I) (fun _ => I) s

namespace Keeps
variable {I : σ → Prop} {p : Raising σ ε α}

theorem pure (a : α) : Keeps I (pure a : Raising σ ε α) := fun _ h => h

theorem get : Keeps I (get : Raising σ ε σ) := fun _ h => h

theorem raise (e : ε) : Keeps I (raise e : Raising σ ε α) := fun _ h => h

theorem modify {f : σ → σ} (h : ∀ s, I s → I (f s)) : Keeps I (modify f : Raising σ ε Unit) := h

theorem bind {f : α → Raising σ ε β} (hp : Keeps I p) (hf : ∀ a, Keeps I (f a)) :
    Keeps I (p >>= f) := fun s hs =>
  (wp_bind p f).mpr (wp_mono (hp s hs) (fun a t ht => hf a t ht) fun _ _ ht => ht)

theorem handle {h : ε → Raising σ ε α} (hp : Keeps I p) (hh : ∀ e, Keeps I (h e)) :
    Keeps I (handle p h) := fun s hs =>
  (wp_handle p h).mpr (wp_mono (hp s hs) (fun _ _ ht => ht) fun e t ht => hh e t ht)

theorem ite {c : Prop} [Decidable c] {q : Raising σ ε α} (hp : c → Keeps I p) (hq : ¬ c → Keeps I q) :
    Keeps I (if c then p else q) := by
  by_cases hc : c
  · rw [if_pos hc]
    exact hp hc
  · rw [if_neg hc]
    exact hq hc

/-- A program whose errors are swallowed raises none. -/
theorem swallow {s : σ} (hp : Keeps I p) (hs : I s) (a : α) :
    wp (Raising.handle p fun _ => Pure.pure a) (fun _ => I) (fun _ _ => False) s :=
  (wp_handle p _).mpr (wp_mono (hp s hs) (fun _ _ ht => ht) fun _ _ ht => ht)

/-- A program that keeps `I`, before another. -/
theorem wp_andThen {β : Type} {f : α → Raising σ ε β} {Q : β → σ → Prop} {E : ε → σ → Prop} {s : σ}
    (hp : Keeps I p) (hs : I s) (hf : ∀ a t, I t → wp (f a) Q E t) (hE : ∀ e t, I t → E e t) :
    wp (p >>= f) Q E s := (wp_bind p f).mpr (wp_mono (hp s hs) hf hE)

/-- The state a program that keeps `I` leaves behind. -/
theorem run {s : σ} (hp : Keeps I p) (hs : I s) : I (p.run s).2 := wp_run (hp s hs)

end Keeps

/-! ### The errors of a program -/

/-- Every error the program raises is one of `P`. -/
def Raises (P : ε → Prop) (p : Raising σ ε α) : Prop :=
  ∀ s, wp p (fun _ _ => True) (fun e _ => P e) s

namespace Raises
variable {P : ε → Prop} {p : Raising σ ε α}

theorem pure (a : α) : Raises P (pure a : Raising σ ε α) := fun _ => trivial

theorem get : Raises P (get : Raising σ ε σ) := fun _ => trivial

theorem raise {e : ε} (h : P e) : Raises P (raise e : Raising σ ε α) := fun _ => h

theorem modify (f : σ → σ) : Raises P (modify f : Raising σ ε Unit) := fun _ => trivial

theorem bind {f : α → Raising σ ε β} (hp : Raises P p) (hf : ∀ a, Raises P (f a)) :
    Raises P (p >>= f) := fun s =>
  (wp_bind p f).mpr (wp_mono (hp s) (fun a t _ => hf a t) fun _ _ h => h)

theorem ite {c : Prop} [Decidable c] {q : Raising σ ε α} (hp : Raises P p) (hq : Raises P q) :
    Raises P (if c then p else q) := by
  by_cases hc : c
  · rw [if_pos hc]
    exact hp
  · rw [if_neg hc]
    exact hq

end Raises

end Raising
