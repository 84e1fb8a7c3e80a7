import Mathlib
import WireguardP2p.Lib.Numerals
import WireguardP2p.Net.AddressText

/-! The Python values the programs read from JSON, and the built-in conversions they apply to them:
    `int`, `float`, truth testing, `dict.get`, `ip_address`. A conversion that raises returns the
    error; a text the program itself passes to an exception is kept, the texts of the built-ins are
    not. Unicode digits and white space follow the tables of Python 3.11. -/

namespace Python
open Ipaddress

/-- The exceptions the programs tell apart. -/
inductive Raised
  | keyError (key : String)
  | typeError
  | attributeError
  | overflowError
  /-- `ValueError` with the text of the program. -/
  | valueError (message : String)
  /-- `ValueError` of a built-in: `int`, `float`, `ip_address`, `UUID`. -/
  | builtinValueError
  | permissionError (message : String)
  | runtimeError (message : String)
  | osError
  deriving DecidableEq

/-- Caught by `except ValueError`. -/
def Raised.isValueError : Raised → Bool
  | valueError _ => true
  | builtinValueError => true
  | _ => false

/-- Caught by `except (TypeError, ValueError)`. -/
def Raised.isTypeOrValueError (e : Raised) : Bool := e == .typeError || e.isValueError

/-- A floating-point number; a finite one is its exact value. -/
inductive PyFloat
  | fin (q : ℚ)
  | inf
  | negInf
  | nan
  deriving DecidableEq

/-- What `json.loads` returns. -/
inductive Json
  | null
  | bool (b : Bool)
  | int (n : ℤ)
  | float (x : PyFloat)
  | str (t : Text)
  | arr (items : List Json)
  | obj (fields : List (Text × Json))

namespace Json

/-- `value.get(name)` on a dict. -/
def lookup (name : String) : List (Text × Json) → Option Json
  | [] => none
  | (k, v) :: fields => if k = name.toList then some v else lookup name fields

/-- `data[name]`. -/
def item (name : String) : Json → Except Raised Json
  | obj fields =>
    match lookup name fields with
    | some v => .ok v
    | none => .error (.keyError name)
  | _ => .error .typeError

/-- `data.get(name)`, `None` when missing. -/
def get (name : String) : Json → Except Raised (Option Json)
  | obj fields => .ok (lookup name fields)
  | _ => .error .attributeError

/-- `bool(value)`. -/
def truthy : Json → Bool
  | null => false
  | bool b => b
  | int n => n != 0
  | float x => x != .fin 0
  | str t => t != []
  | arr items => !items.isEmpty
  | obj fields => !fields.isEmpty

end Json

/-- A conversion that does not raise returns a value. -/
theorem exists_ok {α : Type} (x : Except Raised α) (h : x.toBool = true) : ∃ a, x = .ok a := by
  cases x with
  | error e => cases h
  | ok a => exact ⟨a, rfl⟩

/-! ### `int(text)` -/

/-- The zeros of the decimal digit blocks of Unicode outside ASCII. -/
def digitZeros : List ℕ :=
  [0x660, 0x6f0, 0x7c0, 0x966, 0x9e6, 0xa66, 0xae6, 0xb66, 0xbe6, 0xc66, 0xce6, 0xd66, 0xde6, 0xe50,
   0xed0, 0xf20, 0x1040, 0x1090, 0x17e0, 0x1810, 0x1946, 0x19d0, 0x1a80, 0x1a90, 0x1b50, 0x1bb0,
   0x1c40, 0x1c50, 0xa620, 0xa8d0, 0xa900, 0xa9d0, 0xa9f0, 0xaa50, 0xabf0, 0xff10, 0x104a0, 0x10d30,
   0x11066, 0x110f0, 0x11136, 0x111d0, 0x112f0, 0x11450, 0x114d0, 0x11650, 0x116c0, 0x11730, 0x118e0,
   0x11950, 0x11c50, 0x11d50, 0x11da0, 0x16a60, 0x16ac0, 0x16b50, 0x1d7ce, 0x1d7d8, 0x1d7e2, 0x1d7ec,
   0x1d7f6, 0x1e140, 0x1e2f0, 0x1e950, 0x1fbf0]

/-- White space outside ASCII. -/
def wideSpaces : List ℕ :=
  [0x85, 0xa0, 0x1680, 0x2000, 0x2001, 0x2002, 0x2003, 0x2004, 0x2005, 0x2006, 0x2007, 0x2008, 0x2009,
   0x200a, 0x2028, 0x2029, 0x202f, 0x205f, 0x3000]

/-- Decimal digits and white space to ASCII. -/
def toAscii (c : Char) : Char :=
  if c.toNat < 128 then c
  else match digitZeros.find? fun z => decide (z ≤ c.toNat ∧ c.toNat < z + 10) with
    | some z => Nat.digitChar (c.toNat - z)
    | none => if c.toNat ∈ wideSpaces then ' ' else c

/-- ASCII white space as the C locale has it. -/
def isSpace (c : Char) : Bool := c.toNat == 32 || (9 ≤ c.toNat && c.toNat ≤ 13)

/-- Drop white space at both ends. -/
def strip (t : Text) : Text := ((t.dropWhile isSpace).reverse.dropWhile isSpace).reverse

/-- A leading sign and the rest. -/
def splitSign : Text → Bool × Text
  | '+' :: t => (false, t)
  | '-' :: t => (true, t)
  | t => (false, t)

/-- `0x` before a base 16 numeral, with at most one underscore after it. -/
def dropHexPrefix : Text → Text
  | '0' :: 'x' :: '_' :: t => t
  | '0' :: 'X' :: '_' :: t => t
  | '0' :: 'x' :: t => t
  | '0' :: 'X' :: t => t
  | t => t

/-- Digits with single underscores between them; at most 4300 decimal digits. -/
def readDigits (b : ℕ) (t : Text) : Option ℕ :=
  let groups := t.splitOn '_'
  if [] ∈ groups then none
  else if b = 10 ∧ 4300 < groups.flatten.length then none
  else Numeral.read b groups.flatten

def signed (neg : Bool) (n : ℕ) : ℤ := if neg then -n else n

/-- `int(text, b)`; `none` is a `ValueError`. -/
def intText (b : ℕ) (t : Text) : Option ℤ :=
  let (neg, digits) := splitSign (strip (t.map toAscii))
  (readDigits b (if b = 16 then dropHexPrefix digits else digits)).map (signed neg)

/-- `int(value)`. -/
def toInt : Json → Except Raised ℤ
  | .bool b => .ok (if b then 1 else 0)
  | .int n => .ok n
  | .float (.fin q) => .ok (q.num.tdiv q.den)
  | .float .nan => .error .builtinValueError
  | .float _ => .error .overflowError
  | .str t =>
    match intText 10 t with
    | some n => .ok n
    | none => .error .builtinValueError
  | _ => .error .typeError

/-! ### `float(value)` -/

/-- Digits with single underscores between them, possibly none. -/
def readFraction (t : Text) : Option (ℕ × ℕ) :=
  if t = [] then some (0, 0)
  else
    let groups := t.splitOn '_'
    if [] ∈ groups then none
    else (Numeral.read 10 groups.flatten).map fun n => (n, groups.flatten.length)

/-- An unsigned decimal literal: digits, a point, digits, an exponent. -/
def readDecimal (t : Text) : Option ℚ :=
  let (mantissa, exponent) := t.span fun c => decide (c ≠ 'e' ∧ c ≠ 'E')
  let (whole, fraction) := mantissa.span fun c => decide (c ≠ '.')
  if whole = [] ∧ fraction.tail = [] then none
  else do
    let (n, _) ← readFraction whole
    let (f, k) ← readFraction fraction.tail
    let e ← if exponent = [] then some 0
      else
        let (neg, digits) := splitSign exponent.tail
        (readDigits 10 digits).map (signed neg)
    some (((n : ℚ) + f / 10 ^ k) * (10 : ℚ) ^ e)

/-- `float(text)`; `none` is a `ValueError`. -/
def floatText (t : Text) : Option PyFloat :=
  let (neg, body) := splitSign (strip (t.map toAscii))
  let lower := body.map Char.toLower
  if lower = "inf".toList ∨ lower = "infinity".toList then some (if neg then .negInf else .inf)
  else if lower = "nan".toList then some .nan
  else (readDecimal body).map fun q => .fin (if neg then -q else q)

/-- `float(value)`. -/
def toFloat : Json → Except Raised PyFloat
  | .bool b => .ok (.fin (if b then 1 else 0))
  | .int n => .ok (.fin n)
  | .float x => .ok x
  | .str t =>
    match floatText t with
    | some x => .ok x
    | none => .error .builtinValueError
  | _ => .error .typeError

/-- `a <= b`, false when one of them is not a number. -/
def PyFloat.le : PyFloat → PyFloat → Bool
  | fin p, fin q => p ≤ q
  | nan, _ => false
  | _, nan => false
  | negInf, _ => true
  | _, inf => true
  | _, _ => false

/-- `a < b`, false when one of them is not a number. -/
def PyFloat.lt (a b : PyFloat) : Bool := a.le b && a != b

/-! ### `ip_address(value)` -/

/-- `ipaddress.ip_address(value)`: a text, or the address of that number (a `bool` is a number). The
    text of any other value is no address. -/
def toIpAddress : Json → Except Raised IpAddress
  | .str t =>
    match ipAddress t with
    | some a => .ok a
    | none => .error .builtinValueError
  | .int n => ofNumber n
  | .bool b => ofNumber (if b then 1 else 0)
  | _ => .error .builtinValueError
where
  ofNumber (n : ℤ) : Except Raised IpAddress :=
    if 0 ≤ n ∧ n < 2 ^ 32 then .ok (.v4 (Fin.ofNat _ n.toNat))
    else if 0 ≤ n ∧ n < 2 ^ 128 then .ok (.v6 (Fin.ofNat _ n.toNat) none)
    else .error .builtinValueError

/-! ### Reading back a printed number -/

theorem digitChar_facts {d : ℕ} (h : d < 10) : toAscii d.digitChar = d.digitChar ∧
    isSpace d.digitChar = false ∧ d.digitChar ≠ '+' ∧ d.digitChar ≠ '-' ∧ d.digitChar ≠ '_' := by
  interval_cases d <;> decide

theorem strip_eq_self {t : Text} (h : ∀ c ∈ t, isSpace c = false) : strip t = t := by
  have hdrop : ∀ u : Text, (∀ c ∈ u, isSpace c = false) → u.dropWhile isSpace = u := by
    intro u hu
    cases u with
    | nil => rfl
    | cons c cs => rw [List.dropWhile_cons_of_neg (by simp [hu c (by simp)])]
  rw [strip, hdrop t h, hdrop t.reverse fun c hc => h c (List.mem_reverse.mp hc),
    List.reverse_reverse]

theorem mem_text {n : ℕ} : ∀ c ∈ Numeral.text 10 n, toAscii c = c ∧ isSpace c = false ∧ c ≠ '+' ∧
    c ≠ '-' ∧ c ≠ '_' := by
  intro c hc
  obtain ⟨d, hd, rfl, -⟩ := Numeral.digitIn_of_mem_text (by norm_num) (by norm_num) n c hc
  exact digitChar_facts hd

theorem splitSign_text (n : ℕ) : splitSign (Numeral.text 10 n) = (false, Numeral.text 10 n) := by
  have hmem := mem_text (n := n)
  unfold splitSign
  split
  · rename_i t heq
    exact absurd rfl (hmem '+' (heq ▸ List.mem_cons_self ..)).2.2.1
  · rename_i t heq
    exact absurd rfl (hmem '-' (heq ▸ List.mem_cons_self ..)).2.2.2.1
  · rfl

/-- `int(str(n)) == n` for every number of at most 4300 digits. -/
theorem intText_text {n : ℕ} (hlen : (Numeral.text 10 n).length ≤ 4300) :
    intText 10 (Numeral.text 10 n) = some (n : ℤ) := by
  have hmem := mem_text (n := n)
  have hmap : (Numeral.text 10 n).map toAscii = Numeral.text 10 n :=
    (List.map_congr_left fun c hc => (hmem c hc).1).trans (List.map_id _)
  have hsplit : (Numeral.text 10 n).splitOn '_' = [Numeral.text 10 n] :=
    splitOn_of_notMem fun hc => (hmem '_' hc).2.2.2.2 rfl
  have hread : readDigits 10 (Numeral.text 10 n) = some n := by
    rw [readDigits, hsplit, if_neg (by simpa using (Numeral.text_ne_nil 10 n).symm),
      List.flatten_singleton, if_neg (by omega), Numeral.read_text (by norm_num) (by norm_num)]
  rw [intText, hmap, strip_eq_self fun c hc => (hmem c hc).2.1, splitSign_text]
  simp only [if_neg (show ¬ (10 = 16) by decide), hread, Option.map_some, signed,
    Bool.false_eq_true, if_false]

theorem toInt_text {n : ℕ} (hlen : (Numeral.text 10 n).length ≤ 4300) :
    toInt (.str (Numeral.text 10 n)) = .ok n := by
  rw [toInt, intText_text hlen]

end Python
