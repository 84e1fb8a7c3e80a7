import Mathlib

/-! Positional numerals as text, in any base up to sixteen: what `str`, `%x` and `strconv.Itoa` print
    and what the readers of addresses and ports read back. `read` accepts exactly nonempty texts of
    digits of its base; `read_text` is the round trip. -/

namespace Numeral

/-- The value of a hexadecimal digit, either case. -/
def digitVal (c : Char) : Option ℕ :=
  if '0' ≤ c ∧ c ≤ '9' then some (c.toNat - 48)
  else if 'a' ≤ c ∧ c ≤ 'f' then some (c.toNat - 87)
  else if 'A' ≤ c ∧ c ≤ 'F' then some (c.toNat - 55)
  else none

/-- The value of a digit of base `b`. -/
def digitIn (b : ℕ) (c : Char) : Option ℕ := (digitVal c).filter (· < b)

/-- Read on from the value of the digits already read. -/
def readFrom (b : ℕ) : ℕ → List Char → Option ℕ
  | acc, [] => some acc
  | acc, c :: cs => (digitIn b c).bind fun d => readFrom b (acc * b + d) cs

/-- The value of a nonempty text of base `b` digits. -/
def read (b : ℕ) (t : List Char) : Option ℕ := if t = [] then none else readFrom b 0 t

/-- The shortest numeral of `n`, lower case. -/
def text (b n : ℕ) : List Char := Nat.toDigits b n

theorem digitVal_digitChar {d : ℕ} (h : d < 16) : digitVal d.digitChar = some d := by
  interval_cases d <;> rfl

theorem digitIn_digitChar {b d : ℕ} (hb : b ≤ 16) (h : d < b) : digitIn b d.digitChar = some d := by
  rw [digitIn, digitVal_digitChar (lt_of_lt_of_le h hb)]
  simp [h]

theorem readFrom_append (b : ℕ) : ∀ (s t : List Char) (acc : ℕ),
    readFrom b acc (s ++ t) = (readFrom b acc s).bind fun n => readFrom b n t
  | [], _, _ => rfl
  | c :: cs, t, acc => by
      rw [List.cons_append, readFrom, readFrom]
      cases digitIn b c with
      | none => rfl
      | some d => exact readFrom_append b cs t (acc * b + d)

theorem text_of_lt {b n : ℕ} (h : n < b) : text b n = [n.digitChar] := Nat.toDigits_of_lt_base h

theorem text_of_le {b n : ℕ} (hb : 1 < b) (h : b ≤ n) :
    text b n = text b (n / b) ++ [(n % b).digitChar] := Nat.toDigits_of_base_le hb h

theorem text_ne_nil (b n : ℕ) : text b n ≠ [] := Nat.toDigits_ne_nil

theorem readFrom_text {b : ℕ} (hb : 1 < b) (hb' : b ≤ 16) (n : ℕ) :
    readFrom b 0 (text b n) = some n := by
  induction n using Nat.strongRecOn with
  | _ n ih =>
    by_cases h : n < b
    · rw [text_of_lt h, readFrom, digitIn_digitChar hb' h]
      simp [readFrom]
    · have hle : b ≤ n := Nat.le_of_not_lt h
      have hlt : n % b < b := Nat.mod_lt n (by omega)
      rw [text_of_le hb hle, readFrom_append, ih (n / b) (Nat.div_lt_self (by omega) hb),
        Option.bind_some, readFrom, digitIn_digitChar hb' hlt]
      simp [readFrom, Nat.div_add_mod']

/-- Reading back what `text` prints. -/
theorem read_text {b : ℕ} (hb : 1 < b) (hb' : b ≤ 16) (n : ℕ) : read b (text b n) = some n := by
  rw [read, if_neg (text_ne_nil b n), readFrom_text hb hb']

/-- Every character of a numeral is a digit of its base. -/
theorem digitIn_of_mem_text {b : ℕ} (hb : 1 < b) (hb' : b ≤ 16) (n : ℕ) :
    ∀ c ∈ text b n, ∃ d < b, c = d.digitChar ∧ digitIn b c = some d := by
  induction n using Nat.strongRecOn with
  | _ n ih =>
    intro c hc
    by_cases h : n < b
    · rw [text_of_lt h, List.mem_singleton] at hc
      exact ⟨n, h, hc, hc ▸ digitIn_digitChar hb' h⟩
    · rw [text_of_le hb (Nat.le_of_not_lt h), List.mem_append, List.mem_singleton] at hc
      rcases hc with hc | hc
      · exact ih (n / b) (Nat.div_lt_self (by omega) hb) c hc
      · have hlt : n % b < b := Nat.mod_lt n (by omega)
        exact ⟨n % b, hlt, hc, hc ▸ digitIn_digitChar hb' hlt⟩

/-- A character that is no digit does not occur in a numeral. -/
theorem not_mem_text {b : ℕ} (hb : 1 < b) (hb' : b ≤ 16) (n : ℕ) {c : Char}
    (hc : digitVal c = none) : c ∉ text b n := by
  intro hm
  obtain ⟨d, -, -, hd⟩ := digitIn_of_mem_text hb hb' n c hm
  simp [digitIn, hc] at hd

theorem length_text_le {b n k : ℕ} (hb : 1 < b) (hk : 0 < k) :
    (text b n).length ≤ k ↔ n < b ^ k := Nat.length_toDigits_le_iff hb hk

/-- Only zero has a numeral that starts with the digit zero. -/
theorem head_text {b : ℕ} (hb : 1 < b) (hb' : b ≤ 16) {n : ℕ} (hn : 0 < n) :
    (text b n).head? ≠ some '0' := by
  induction n using Nat.strongRecOn with
  | _ n ih =>
    by_cases h : n < b
    · rw [text_of_lt h, List.head?_cons, Ne, Option.some.injEq]
      intro h0
      have := digitVal_digitChar (lt_of_lt_of_le h hb')
      rw [h0] at this
      have h48 : digitVal '0' = some 0 := rfl
      rw [h48, Option.some.injEq] at this
      omega
    · have hle : b ≤ n := Nat.le_of_not_lt h
      have hrec := ih (n / b) (Nat.div_lt_self hn hb) (Nat.div_pos hle (by omega))
      obtain ⟨c, cs, hcs⟩ := List.exists_cons_of_ne_nil (text_ne_nil b (n / b))
      rw [hcs] at hrec
      rw [text_of_le hb hle, hcs]
      exact hrec

end Numeral
