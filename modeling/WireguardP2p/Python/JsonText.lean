import WireguardP2p.Lib.Dict
import WireguardP2p.Python.Value

/-! `json.dumps` and `json.loads`. Values are printed without spaces, in ASCII, with the fields of every
    object in the order of their keys; a float is not printed. The main result is the round trip
    `loads_dumps`: what was printed is read back, with its fields in that order. -/

namespace Python
open Ipaddress

/-! ### Printing -/

/-- `str(n)`. -/
def reprInt (n : ℤ) : Text :=
  if n < 0 then '-' :: Numeral.text 10 n.natAbs else Numeral.text 10 n.natAbs

/-- Four hexadecimal digits. -/
def hex4 (n : ℕ) : Text :=
  [(n / 4096 % 16).digitChar, (n / 256 % 16).digitChar, (n / 16 % 16).digitChar, (n % 16).digitChar]

/-- The short escapes, with what they stand for. -/
def shortEscapes : List (Char × Char) :=
  [('"', '"'), ('\\', '\\'), ('n', '\n'), ('r', '\r'), ('t', '\t'), ('f', '\x0c'), ('b', '\x08')]

/-- A character outside ASCII, or a control character: one escape, or a surrogate pair. -/
def escapeUnicode (n : ℕ) : Text :=
  if n < 0x10000 then '\\' :: 'u' :: hex4 n
  else '\\' :: 'u' :: hex4 (0xd800 + (n - 0x10000) / 1024) ++
    '\\' :: 'u' :: hex4 (0xdc00 + (n - 0x10000) % 1024)

def escapeChar (c : Char) : Text :=
  match shortEscapes.find? fun e => e.2 == c with
  | some e => ['\\', e.1]
  | none => if 32 ≤ c.toNat ∧ c.toNat ≤ 126 then [c] else escapeUnicode c.toNat

def quote (t : Text) : Text := '"' :: t.flatMap escapeChar ++ ['"']

namespace Json

mutual

def print : Json → Text
  | null => "null".toList
  | bool b => if b then "true".toList else "false".toList
  | int n => reprInt n
  | float _ => []
  | str t => quote t
  | arr [] => ['[', ']']
  | arr (v :: vs) => '[' :: print v ++ printItems vs
  | obj [] => ['{', '}']
  | obj (f :: fs) => '{' :: quote f.1 ++ ':' :: print f.2 ++ printFields fs

/-- The items after the first one. -/
def printItems : List Json → Text
  | [] => [']']
  | v :: vs => ',' :: print v ++ printItems vs

/-- The fields after the first one. -/
def printFields : List (Text × Json) → Text
  | [] => ['}']
  | f :: fs => ',' :: quote f.1 ++ ':' :: print f.2 ++ printFields fs

end

mutual

/-- No float, no number of more than 4300 digits; the keys of an object are distinct. -/
def Printable : Json → Prop
  | float _ => False
  | int n => (Numeral.text 10 n.natAbs).length ≤ 4300
  | arr items => PrintableItems items
  | obj fields => (fields.map Prod.fst).Nodup ∧ PrintableFields fields
  | _ => True

def PrintableItems : List Json → Prop
  | [] => True
  | v :: vs => v.Printable ∧ PrintableItems vs

def PrintableFields : List (Text × Json) → Prop
  | [] => True
  | f :: fs => f.2.Printable ∧ PrintableFields fs

end

/-- The order of keys: by code points. -/
def keyLe : Text → Text → Bool
  | [], _ => true
  | _ :: _, [] => false
  | c :: cs, d :: ds => c.toNat < d.toNat || (c == d && keyLe cs ds)

mutual

/-- `sort_keys=True`. -/
def sortKeys : Json → Json
  | arr items => arr (sortItems items)
  | obj fields => obj ((sortFields fields).mergeSort fun a b => keyLe a.1 b.1)
  | v => v

def sortItems : List Json → List Json
  | [] => []
  | v :: vs => v.sortKeys :: sortItems vs

def sortFields : List (Text × Json) → List (Text × Json)
  | [] => []
  | f :: fs => (f.1, f.2.sortKeys) :: sortFields fs

end

/-- `json.dumps(value, separators=(",", ":"), sort_keys=True)`. -/
def dumps (v : Json) : Text := v.sortKeys.print

end Json

/-! ### Reading -/

def isJsonSpace (c : Char) : Bool := c == ' ' || c == '\t' || c == '\n' || c == '\r'

def skipSpace (t : Text) : Text := t.dropWhile isJsonSpace

/-- Four hexadecimal digits, either case. -/
def readHex4 : Text → Option (ℕ × Text)
  | a :: b :: c :: d :: t => (Numeral.read 16 [a, b, c, d]).map fun n => (n, t)
  | _ => none

/-- What follows `\u`. A surrogate must be half of a pair here, as no text holds one alone. -/
def readUnicode (t : Text) : Option (Char × Text) := do
  let (hi, t) ← readHex4 t
  if 0xd800 ≤ hi ∧ hi < 0xdc00 then
    match t with
    | '\\' :: 'u' :: t =>
      let (lo, t) ← readHex4 t
      if 0xdc00 ≤ lo ∧ lo < 0xe000 then
        some (Char.ofNat (0x10000 + (hi - 0xd800) * 1024 + (lo - 0xdc00)), t)
      else none
    | _ => none
  else if 0xdc00 ≤ hi ∧ hi < 0xe000 then none
  else some (Char.ofNat hi, t)

/-- One character of a string. -/
def readChar : Text → Option (Char × Text)
  | [] => none
  | '\\' :: 'u' :: t => readUnicode t
  | '\\' :: '/' :: t => some ('/', t)
  | '\\' :: c :: t => (shortEscapes.find? fun e => e.1 == c).map fun e => (e.2, t)
  | c :: t => if c.toNat < 32 ∨ c = '\\' then none else some (c, t)

/-- The rest of a string after its opening quote; `n` bounds its length. -/
def readString : ℕ → Text → Option (Text × Text)
  | 0, _ => none
  | n + 1, t =>
    match t with
    | '"' :: t => some ([], t)
    | t => do
      let (c, t) ← readChar t
      let (s, t) ← readString n t
      some (c :: s, t)

def isDigit (c : Char) : Bool := '0' ≤ c && c ≤ '9'

/-- The digits of a fraction or of an exponent, after `mark`; none if there is no digit. -/
def readDigitsAfter (mark : Text) (t : Text) : Text × Text :=
  let (digits, rest) := t.span isDigit
  if digits = [] then ([], mark ++ t) else (mark ++ digits, rest)

def readFractionPart : Text → Text × Text
  | '.' :: t => readDigitsAfter ['.'] t
  | t => ([], t)

def readExponentPart : Text → Text × Text
  | 'e' :: '+' :: t => readDigitsAfter ['e', '+'] t
  | 'e' :: '-' :: t => readDigitsAfter ['e', '-'] t
  | 'e' :: t => readDigitsAfter ['e'] t
  | 'E' :: '+' :: t => readDigitsAfter ['E', '+'] t
  | 'E' :: '-' :: t => readDigitsAfter ['E', '-'] t
  | 'E' :: t => readDigitsAfter ['E'] t
  | t => ([], t)

/-- The digits before the point: `0`, or digits that do not start with it. -/
def readWhole (t : Text) : Text × Text :=
  match t with
  | '0' :: t => (['0'], t)
  | t => t.span isDigit

def splitMinus : Text → Bool × Text
  | '-' :: t => (true, t)
  | t => (false, t)

/-- A number: an `int` of at most 4300 digits, or a float. -/
def readNumber (t : Text) : Option (Json × Text) :=
  let (neg, t) := splitMinus t
  let (whole, t) := readWhole t
  let (fraction, t) := readFractionPart t
  let (exponent, t) := readExponentPart t
  if whole = [] then none
  else if fraction = [] ∧ exponent = [] then
    if 4300 < whole.length then none
    else (Numeral.read 10 whole).map fun n => (.int (signed neg n), t)
  else (floatText ((if neg then ['-'] else []) ++ whole ++ fraction ++ exponent)).map fun x => (.float x, t)

/-- The words of JSON, with those that Python adds. -/
def literals : List (Text × Json) :=
  [("null".toList, .null), ("true".toList, .bool true), ("false".toList, .bool false),
   ("NaN".toList, .float .nan), ("Infinity".toList, .float .inf),
   ("-Infinity".toList, .float .negInf)]

def readLiteral (t : Text) : Option (Json × Text) :=
  (literals.find? fun l => l.1.isPrefixOf t).map fun l => (l.2, t.drop l.1.length)

/-- `dict(pairs)`: a later value replaces an earlier one. -/
def dictOf (pairs : List (Text × Json)) : List (Text × Json) :=
  pairs.foldl (fun fields f => Dict.store f.1 f.2 fields) []

mutual

/-- One value; `n` bounds the length of the text. -/
def readValue : ℕ → Text → Option (Json × Text)
  | 0, _ => none
  | n + 1, t =>
    match t with
    | '"' :: t => (readString n t).map fun (s, t) => (.str s, t)
    | '[' :: t =>
      match skipSpace t with
      | ']' :: t => some (.arr [], t)
      | t => do
        let (v, t) ← readValue n t
        let (vs, t) ← readItems n (skipSpace t)
        some (.arr (v :: vs), t)
    | '{' :: t =>
      match skipSpace t with
      | '}' :: t => some (.obj [], t)
      | t => do
        let (f, t) ← readField n t
        let (fs, t) ← readFields n (skipSpace t)
        some (.obj (dictOf (f :: fs)), t)
    | t => readLiteral t <|> readNumber t

/-- The items after the first one, to the closing bracket. -/
def readItems : ℕ → Text → Option (List Json × Text)
  | 0, _ => none
  | n + 1, t =>
    match t with
    | ']' :: t => some ([], t)
    | ',' :: t => do
      let (v, t) ← readValue n (skipSpace t)
      let (vs, t) ← readItems n (skipSpace t)
      some (v :: vs, t)
    | _ => none

/-- A key with its value. -/
def readField : ℕ → Text → Option ((Text × Json) × Text)
  | 0, _ => none
  | n + 1, t =>
    match t with
    | '"' :: t => do
      let (k, t) ← readString n t
      match skipSpace t with
      | ':' :: t =>
        let (v, t) ← readValue n (skipSpace t)
        some ((k, v), t)
      | _ => none
    | _ => none

/-- The fields after the first one, to the closing brace. -/
def readFields : ℕ → Text → Option (List (Text × Json) × Text)
  | 0, _ => none
  | n + 1, t =>
    match t with
    | '}' :: t => some ([], t)
    | ',' :: t => do
      let (f, t) ← readField n (skipSpace t)
      let (fs, t) ← readFields n (skipSpace t)
      some (f :: fs, t)
    | _ => none

end

/-- `json.loads(text)`; `none` is a `JSONDecodeError`. -/
def loads (t : Text) : Option Json := do
  let (v, t) ← readValue (2 * t.length + 2) (skipSpace t)
  if skipSpace t = [] then some v else none

/-! ### Characters and strings -/

theorem readHex4_hex4 {n : ℕ} (h : n < 0x10000) (r : Text) : readHex4 (hex4 n ++ r) = some (n, r) := by
  have hdigit (d : ℕ) : Numeral.digitIn 16 (d % 16).digitChar = some (d % 16) :=
    Numeral.digitIn_digitChar le_rfl (by omega)
  have hread : Numeral.read 16 (hex4 n) = some n := by
    simp only [hex4, Numeral.read, Numeral.readFrom, hdigit, Option.bind_some,
      reduceCtorEq, if_false, Option.some.injEq]
    omega
  exact congrArg (Option.map fun n => (n, r)) hread

theorem readUnicode_bmp {c : Char} (h : c.toNat < 0x10000) (r : Text) :
    readUnicode (hex4 c.toNat ++ r) = some (c, r) := by
  have hvalid : c.toNat < 0xd800 ∨ 0xdfff < c.toNat ∧ c.toNat < 0x110000 := c.valid
  rw [readUnicode, readHex4_hex4 h]
  simp only [Option.bind_eq_bind, Option.bind_some]
  rw [if_neg (by omega), if_neg (by omega), Char.ofNat_toNat]

theorem readUnicode_pair {hi lo : ℕ} {c : Char} (hhi : 0xd800 ≤ hi ∧ hi < 0xdc00)
    (hlo : 0xdc00 ≤ lo ∧ lo < 0xe000)
    (hc : 0x10000 + (hi - 0xd800) * 1024 + (lo - 0xdc00) = c.toNat) (r : Text) :
    readUnicode (hex4 hi ++ '\\' :: 'u' :: hex4 lo ++ r) = some (c, r) := by
  rw [readUnicode, List.append_assoc, readHex4_hex4 (by omega)]
  simp only [Option.bind_eq_bind, Option.bind_some, List.cons_append]
  rw [if_pos hhi, readHex4_hex4 (by omega)]
  simp only [Option.bind_some]
  rw [if_pos hlo, hc, Char.ofNat_toNat]

theorem readChar_escapeUnicode (c : Char) (r : Text) :
    readChar (escapeUnicode c.toNat ++ r) = some (c, r) := by
  rw [escapeUnicode]
  by_cases h : c.toNat < 0x10000
  · rw [if_pos h]
    exact readUnicode_bmp h r
  · have hvalid : c.toNat < 0xd800 ∨ 0xdfff < c.toNat ∧ c.toNat < 0x110000 := c.valid
    rw [if_neg h]
    exact readUnicode_pair (by omega) (by omega) (by omega) r

theorem readChar_plain {c : Char} (h : 32 ≤ c.toNat) (hc : c ≠ '\\') (r : Text) :
    readChar (c :: r) = some (c, r) := by
  rw [readChar.eq_def]
  split
  · rename_i heq
    cases heq
  · rename_i heq
    exact absurd (List.cons.inj heq).1 hc
  · rename_i heq
    exact absurd (List.cons.inj heq).1 hc
  · rename_i heq
    exact absurd (List.cons.inj heq).1 hc
  · rename_i heq
    obtain ⟨rfl, rfl⟩ := List.cons.inj heq
    rw [if_neg (by simp only [hc, or_false]; omega)]

/-- Reading back one escaped character. -/
theorem readChar_escapeChar (c : Char) (r : Text) : readChar (escapeChar c ++ r) = some (c, r) := by
  rw [escapeChar]
  cases hf : shortEscapes.find? fun e => e.2 == c with
  | some e =>
    have hc := List.find?_some hf
    obtain rfl := eq_of_beq hc
    have hmem := List.mem_of_find?_eq_some hf
    simp only [shortEscapes, List.mem_cons, List.not_mem_nil, or_false] at hmem
    rcases hmem with rfl | rfl | rfl | rfl | rfl | rfl | rfl <;> rfl
  | none =>
    have hc : c ≠ '\\' := by
      rintro rfl
      cases hf
    by_cases hr : 32 ≤ c.toNat ∧ c.toNat ≤ 126
    · simp only [if_pos hr]
      exact readChar_plain hr.1 hc r
    · simp only [if_neg hr]
      exact readChar_escapeUnicode c r

/-- No escaped character is the closing quote. -/
theorem escapeChar_head (c : Char) : ∃ d t, escapeChar c = d :: t ∧ d ≠ '"' := by
  rw [escapeChar]
  cases hf : shortEscapes.find? fun e => e.2 == c with
  | some e => exact ⟨_, _, rfl, by decide⟩
  | none =>
    by_cases hr : 32 ≤ c.toNat ∧ c.toNat ≤ 126
    · refine ⟨c, [], if_pos hr, ?_⟩
      rintro rfl
      cases hf
    · simp only [if_neg hr, escapeUnicode]
      split <;> exact ⟨_, _, rfl, by decide⟩

theorem readString_quote (r : Text) : ∀ (t : Text) (n : ℕ),
    (t.flatMap escapeChar ++ '"' :: r).length < n →
      readString n (t.flatMap escapeChar ++ '"' :: r) = some (t, r)
  | [], n + 1, _ => rfl
  | c :: t, n + 1, hn => by
    obtain ⟨d, u, hd, hne⟩ := escapeChar_head c
    have hlen : (t.flatMap escapeChar ++ '"' :: r).length < n := by
      rw [List.flatMap_cons, hd] at hn
      simp only [List.cons_append, List.append_assoc, List.length_cons, List.length_append] at hn ⊢
      omega
    have hchar := readChar_escapeChar c (t.flatMap escapeChar ++ '"' :: r)
    rw [List.flatMap_cons, List.append_assoc]
    rw [hd, List.cons_append] at hchar ⊢
    rw [readString.eq_def]
    simp only
    split
    · rename_i heq
      exact absurd (List.cons.inj heq).1 hne
    · simp only [hchar, Option.bind_eq_bind, Option.bind_some, readString_quote r t n hlen]

/-! ### Numbers -/

/-- What may follow a value. -/
def Delimits (r : Text) : Prop := ∀ c ∈ r.head?, c = ',' ∨ c = ']' ∨ c = '}'

theorem isDigit_digitChar {d : ℕ} (h : d < 10) : isDigit d.digitChar = true := by
  interval_cases d <;> rfl

theorem isDigit_of_mem_text {n : ℕ} {c : Char} (h : c ∈ Numeral.text 10 n) : isDigit c = true := by
  obtain ⟨d, hd, rfl, _⟩ := Numeral.digitIn_of_mem_text (by norm_num) (by norm_num) n c h
  exact isDigit_digitChar hd

theorem Delimits.span {r : Text} (h : Delimits r) : r.span isDigit = ([], r) := by
  rw [List.span_eq_takeWhile_dropWhile]
  cases r with
  | nil => rfl
  | cons c r =>
    have hc : isDigit c = false := by
      rcases h c rfl with rfl | rfl | rfl <;> rfl
    rw [List.takeWhile_cons_of_neg (by simp [hc]), List.dropWhile_cons_of_neg (by simp [hc])]

theorem Delimits.fraction {r : Text} (h : Delimits r) : readFractionPart r = ([], r) := by
  cases r with
  | nil => rfl
  | cons c r => rcases h c rfl with rfl | rfl | rfl <;> rfl

theorem Delimits.exponent {r : Text} (h : Delimits r) : readExponentPart r = ([], r) := by
  cases r with
  | nil => rfl
  | cons c r => rcases h c rfl with rfl | rfl | rfl <;> rfl

theorem span_text (n : ℕ) {r : Text} (h : Delimits r) :
    (Numeral.text 10 n ++ r).span isDigit = (Numeral.text 10 n, r) := by
  have hr := h.span
  rw [List.span_eq_takeWhile_dropWhile, Prod.mk.injEq] at hr
  have hall : ∀ c ∈ Numeral.text 10 n, isDigit c = true := fun c hc => isDigit_of_mem_text hc
  rw [List.span_eq_takeWhile_dropWhile, List.takeWhile_append_of_pos hall,
    List.dropWhile_append_of_pos hall, hr.1, hr.2, List.append_nil]

theorem readWhole_text (n : ℕ) {r : Text} (h : Delimits r) :
    readWhole (Numeral.text 10 n ++ r) = (Numeral.text 10 n, r) := by
  by_cases hn : n = 0
  · subst hn
    rfl
  · rw [readWhole.eq_def]
    split
    · rename_i heq
      obtain ⟨d, ds, hd⟩ := List.exists_cons_of_ne_nil (Numeral.text_ne_nil 10 n)
      have hhead := Numeral.head_text (by norm_num) (by norm_num) (Nat.pos_of_ne_zero hn)
        (b := 10)
      rw [hd, List.cons_append] at heq
      rw [hd, List.head?_cons, (List.cons.inj heq).1] at hhead
      exact absurd rfl hhead
    · exact span_text n h

/-- A numeral starts with a digit. -/
theorem text_head (n : ℕ) : ∃ d < 10, ∃ t, Numeral.text 10 n = d.digitChar :: t := by
  obtain ⟨c, t, hc⟩ := List.exists_cons_of_ne_nil (Numeral.text_ne_nil 10 n)
  obtain ⟨d, hd, rfl, _⟩ := Numeral.digitIn_of_mem_text (by norm_num) (by norm_num) n c
    (hc ▸ List.mem_cons_self)
  exact ⟨d, hd, t, hc⟩

theorem splitMinus_text (n : ℕ) (r : Text) :
    splitMinus (Numeral.text 10 n ++ r) = (false, Numeral.text 10 n ++ r) := by
  obtain ⟨d, hd, t, ht⟩ := text_head n
  rw [ht]
  interval_cases d <;> rfl

theorem reprInt_eq (n : ℤ) : reprInt n = (if n < 0 then ['-'] else []) ++ Numeral.text 10 n.natAbs := by
  rw [reprInt]
  split <;> rfl

theorem splitMinus_reprInt (n : ℤ) (r : Text) :
    splitMinus (reprInt n ++ r) = (decide (n < 0), Numeral.text 10 n.natAbs ++ r) := by
  rw [reprInt]
  by_cases h : n < 0
  · rw [if_pos h, decide_eq_true h]
    rfl
  · rw [if_neg h, decide_eq_false h]
    exact splitMinus_text _ r

theorem readLiteral_reprInt (n : ℤ) (r : Text) : readLiteral (reprInt n ++ r) = none := by
  obtain ⟨d, hd, t, ht⟩ := text_head n.natAbs
  rw [reprInt_eq, ht]
  by_cases h : n < 0
  · rw [if_pos h]
    interval_cases d <;> rfl
  · rw [if_neg h]
    interval_cases d <;> rfl

theorem readNumber_reprInt {n : ℤ} (h : (Numeral.text 10 n.natAbs).length ≤ 4300) {r : Text}
    (hr : Delimits r) : readNumber (reprInt n ++ r) = some (.int n, r) := by
  have hsign : signed (decide (n < 0)) n.natAbs = n := by
    unfold signed
    split
    · rename_i hn
      have := of_decide_eq_true hn
      omega
    · rename_i hn
      have : ¬ n < 0 := by simpa using hn
      omega
  simp only [readNumber, splitMinus_reprInt, readWhole_text _ hr, hr.fraction, hr.exponent]
  rw [if_neg (Numeral.text_ne_nil 10 _), if_pos ⟨trivial, trivial⟩, if_neg (by omega),
    Numeral.read_text (by norm_num) (by norm_num), Option.map_some, hsign]

/-! ### The round trip -/

theorem foldl_store {pairs : List (Text × Json)} : ∀ {fields : List (Text × Json)},
    ((fields ++ pairs).map Prod.fst).Nodup →
      pairs.foldl (fun fields f => Dict.store f.1 f.2 fields) fields = fields ++ pairs := by
  induction pairs with
  | nil => simp
  | cons f pairs ih =>
    intro fields h
    have hnew : f.1 ∉ fields.map Prod.fst := by
      rw [List.map_append, List.map_cons] at h
      exact fun hm => (List.nodup_append.mp h).2.2 _ hm _ List.mem_cons_self rfl
    rw [List.foldl_cons, Dict.store_new hnew, ih (by simpa using h), List.append_assoc,
      List.singleton_append]

theorem dictOf_eq {pairs : List (Text × Json)} (h : (pairs.map Prod.fst).Nodup) :
    dictOf pairs = pairs := foldl_store h

theorem skipSpace_cons {c : Char} {t : Text} (h : isJsonSpace c = false) :
    skipSpace (c :: t) = c :: t := List.dropWhile_cons_of_neg (by simp [h])

/-- A printed value starts with no space and no bracket that closes. -/
def Opens (t : Text) : Prop := ∃ c u, t = c :: u ∧ isJsonSpace c = false ∧ c ≠ ']'

theorem Opens.skip {t : Text} (h : Opens t) (r : Text) : skipSpace (t ++ r) = t ++ r := by
  obtain ⟨c, u, rfl, hc, _⟩ := h
  exact skipSpace_cons hc

theorem opens_reprInt (n : ℤ) : Opens (reprInt n) := by
  obtain ⟨d, hd, t, ht⟩ := text_head n.natAbs
  rw [reprInt_eq, ht]
  by_cases h : n < 0
  · exact ⟨'-', _, by rw [if_pos h]; rfl, rfl, by decide⟩
  · exact ⟨d.digitChar, t, by rw [if_neg h]; rfl, by interval_cases d <;> rfl,
      by interval_cases d <;> decide⟩

theorem Json.Printable.opens_print {v : Json} (h : v.Printable) : Opens v.print := by
  cases v with
  | null => exact ⟨_, _, rfl, rfl, by decide⟩
  | bool b => cases b <;> exact ⟨_, _, rfl, rfl, by decide⟩
  | int n => exact opens_reprInt n
  | float x => exact h.elim
  | str t => exact ⟨_, _, rfl, rfl, by decide⟩
  | arr items => cases items <;> exact ⟨_, _, rfl, rfl, by decide⟩
  | obj fields => cases fields <;> exact ⟨_, _, rfl, rfl, by decide⟩

theorem Delimits.items (vs : List Json) (r : Text) : Delimits (Json.printItems vs ++ r) := by
  intro c hc
  cases vs with
  | nil => exact .inr (.inl (Option.some.inj hc).symm)
  | cons v vs => exact .inl (Option.some.inj hc).symm

theorem Delimits.fields (fs : List (Text × Json)) (r : Text) :
    Delimits (Json.printFields fs ++ r) := by
  intro c hc
  cases fs with
  | nil => exact .inr (.inr (Option.some.inj hc).symm)
  | cons f fs => exact .inl (Option.some.inj hc).symm

theorem Delimits.skip {r : Text} (h : Delimits r) : skipSpace r = r := by
  cases r with
  | nil => rfl
  | cons c r => exact skipSpace_cons (by rcases h c rfl with rfl | rfl | rfl <;> rfl)

theorem length_lt_of_append {t u : Text} {n : ℕ} (h : (t ++ u).length < n) : u.length < n := by
  rw [List.length_append] at h
  omega

/-- A field is read back if its value is. -/
theorem readField_print {k : Text} {v : Json} (hp : v.Printable) {r : Text} {n : ℕ}
    (hn : (quote k ++ ':' :: v.print ++ r).length < n)
    (hv : ∀ m, (v.print ++ r).length < m → readValue m (v.print ++ r) = some (v, r)) :
    readField n (quote k ++ ':' :: v.print ++ r) = some ((k, v), r) := by
  obtain ⟨m, rfl⟩ : ∃ m, n = m + 1 := ⟨n - 1, by omega⟩
  have htext : quote k ++ ':' :: v.print ++ r =
      '"' :: (k.flatMap escapeChar ++ '"' :: (':' :: (v.print ++ r))) := by simp [quote]
  rw [htext] at hn ⊢
  have hlen := Nat.lt_of_succ_lt_succ hn
  have hrest : (v.print ++ r).length < m := by
    simp only [List.length_append, List.length_cons] at hlen ⊢
    omega
  have hcolon : skipSpace (':' :: (v.print ++ r)) = ':' :: (v.print ++ r) := skipSpace_cons rfl
  rw [readField]
  simp only [readString_quote _ k m hlen, Option.bind_eq_bind, Option.bind_some, hcolon,
    hp.opens_print.skip r, hv m hrest]

namespace Json

mutual

/-- Reading back a printed value, in front of anything that may follow one. -/
theorem readValue_print : ∀ (v : Json) (n : ℕ) (r : Text), v.Printable → Delimits r →
    (v.print ++ r).length < n → readValue n (v.print ++ r) = some (v, r)
  | null, n + 1, r, _, _, _ => rfl
  | bool true, n + 1, r, _, _, _ => rfl
  | bool false, n + 1, r, _, _, _ => rfl
  | int k, n + 1, r, h, hr, _ => by
    obtain ⟨d, hd, t, ht⟩ := text_head k.natAbs
    have hlit := readLiteral_reprInt k r
    have hnum := readNumber_reprInt h hr
    rw [print]
    rw [reprInt_eq, ht] at hlit hnum ⊢
    by_cases hk : k < 0
    · rw [if_pos hk] at hlit hnum ⊢
      simp only [List.cons_append, List.nil_append] at hlit hnum ⊢
      rw [readValue]
      · rw [hlit, hnum]
        rfl
      all_goals intros; simp_all
    · rw [if_neg hk] at hlit hnum ⊢
      simp only [List.cons_append, List.nil_append] at hlit hnum ⊢
      rw [readValue]
      · rw [hlit, hnum]
        rfl
      all_goals intro u hu; interval_cases d <;> simp at hu
  | float x, _, _, h, _, _ => h.elim
  | str t, n + 1, r, _, _, hn => by
    rw [print, quote] at hn ⊢
    simp only [List.cons_append, List.append_assoc, List.nil_append] at hn ⊢
    rw [readValue, readString_quote r t n (Nat.lt_of_succ_lt_succ hn)]
    rfl
  | arr [], n + 1, r, _, _, _ => rfl
  | arr (v :: vs), n + 1, r, h, _, hn => by
    rw [print] at hn ⊢
    simp only [List.cons_append, List.append_assoc] at hn ⊢
    have hn := Nat.lt_of_succ_lt_succ hn
    obtain ⟨c, u, hc, hsp, hne⟩ := Printable.opens_print h.1
    have hv := readValue_print v n (printItems vs ++ r) h.1 (.items vs r) hn
    have hvs := readItems_print vs n r h.2 (length_lt_of_append hn)
    have hskip := (Delimits.items vs r).skip
    rw [hc, List.cons_append] at hv ⊢
    rw [readValue]
    simp only [skipSpace_cons hsp]
    split
    · rename_i heq
      exact absurd (List.cons.inj heq).1 hne
    · simp only [hv, Option.bind_eq_bind, Option.bind_some, hskip, hvs]
  | obj [], n + 1, r, _, _, _ => rfl
  | obj (f :: fs), n + 1, r, h, _, hn => by
    rw [print] at hn ⊢
    have hf : f.2.Printable := h.2.1
    have htext : '{' :: quote f.1 ++ ':' :: f.2.print ++ printFields fs ++ r =
        '{' :: (quote f.1 ++ ':' :: f.2.print ++ (printFields fs ++ r)) := by simp
    rw [htext] at hn ⊢
    have hn := Nat.lt_of_succ_lt_succ hn
    have hfield := readField_print hf hn fun m hm =>
      readValue_print f.2 m (printFields fs ++ r) hf (.fields fs r) hm
    have hfs := readFields_print fs n r h.2.2 (length_lt_of_append hn)
    have hskip := (Delimits.fields fs r).skip
    have hquote : quote f.1 ++ ':' :: f.2.print ++ (printFields fs ++ r) =
        '"' :: (f.1.flatMap escapeChar ++ ['"'] ++ ':' :: f.2.print ++ (printFields fs ++ r)) := rfl
    rw [hquote] at hfield ⊢
    rw [readValue]
    simp only [skipSpace_cons (show isJsonSpace '"' = false from rfl)]
    split
    · rename_i heq
      exact absurd (List.cons.inj heq).1 (by decide)
    · simp only [hfield, Option.bind_eq_bind, Option.bind_some, hskip, hfs, dictOf_eq h.1]

theorem readItems_print : ∀ (vs : List Json) (n : ℕ) (r : Text), PrintableItems vs →
    (printItems vs ++ r).length < n → readItems n (printItems vs ++ r) = some (vs, r)
  | [], n + 1, r, _, _ => rfl
  | v :: vs, n + 1, r, h, hn => by
    rw [printItems] at hn ⊢
    simp only [List.cons_append, List.append_assoc] at hn ⊢
    have hn := Nat.lt_of_succ_lt_succ hn
    have hv := readValue_print v n (printItems vs ++ r) h.1 (.items vs r) hn
    have hvs := readItems_print vs n r h.2 (length_lt_of_append hn)
    rw [readItems]
    simp only [(Printable.opens_print h.1).skip, hv, Option.bind_eq_bind, Option.bind_some,
      (Delimits.items vs r).skip, hvs]

theorem readFields_print : ∀ (fs : List (Text × Json)) (n : ℕ) (r : Text), PrintableFields fs →
    (printFields fs ++ r).length < n → readFields n (printFields fs ++ r) = some (fs, r)
  | [], n + 1, r, _, _ => rfl
  | f :: fs, n + 1, r, h, hn => by
    rw [printFields] at hn ⊢
    have htext : ',' :: quote f.1 ++ ':' :: f.2.print ++ printFields fs ++ r =
        ',' :: (quote f.1 ++ ':' :: f.2.print ++ (printFields fs ++ r)) := by simp
    rw [htext] at hn ⊢
    have hn := Nat.lt_of_succ_lt_succ hn
    have hfield := readField_print h.1 hn fun m hm =>
      readValue_print f.2 m (printFields fs ++ r) h.1 (.fields fs r) hm
    have hfs := readFields_print fs n r h.2 (length_lt_of_append hn)
    have hskip : skipSpace (quote f.1 ++ ':' :: f.2.print ++ (printFields fs ++ r)) =
        quote f.1 ++ ':' :: f.2.print ++ (printFields fs ++ r) := skipSpace_cons rfl
    rw [readFields]
    simp only [hskip, hfield, Option.bind_eq_bind, Option.bind_some, (Delimits.fields fs r).skip, hfs]

end

/-! ### The order of the fields -/

theorem printableFields_iff : ∀ {fs : List (Text × Json)},
    PrintableFields fs ↔ ∀ f ∈ fs, f.2.Printable
  | [] => by simp [PrintableFields]
  | f :: fs => by rw [PrintableFields, printableFields_iff, List.forall_mem_cons]

theorem map_fst_sortFields : ∀ fs : List (Text × Json),
    (sortFields fs).map Prod.fst = fs.map Prod.fst
  | [] => rfl
  | f :: fs => by rw [sortFields, List.map_cons, List.map_cons, map_fst_sortFields fs]

mutual

theorem printable_sortKeys : ∀ (v : Json), v.Printable → v.sortKeys.Printable
  | null, h => h
  | bool _, h => h
  | int _, h => h
  | float _, h => h
  | str _, h => h
  | arr items, h => printable_sortItems items h
  | obj fields, h => by
    have hperm := List.mergeSort_perm (sortFields fields) fun a b => keyLe a.1 b.1
    refine ⟨(hperm.map Prod.fst).nodup_iff.mpr ?_, printableFields_iff.mpr fun f hf => ?_⟩
    · rw [map_fst_sortFields]
      exact h.1
    · exact printableFields_iff.mp (printable_sortFields fields h.2) f (hperm.mem_iff.mp hf)

theorem printable_sortItems : ∀ (vs : List Json), PrintableItems vs → PrintableItems (sortItems vs)
  | [], h => h
  | v :: vs, h => ⟨printable_sortKeys v h.1, printable_sortItems vs h.2⟩

theorem printable_sortFields : ∀ (fs : List (Text × Json)), PrintableFields fs →
    PrintableFields (sortFields fs)
  | [], h => h
  | f :: fs, h => ⟨printable_sortKeys f.2 h.1, printable_sortFields fs h.2⟩

end

/-- `json.loads(json.dumps(value))` gives the value back, its fields in the order of the keys. -/
theorem loads_dumps {v : Json} (h : v.Printable) : loads v.dumps = some v.sortKeys := by
  have hp := printable_sortKeys v h
  have hread := readValue_print v.sortKeys (2 * v.dumps.length + 2) [] hp (by simp [Delimits])
    (by rw [List.append_nil, dumps]; omega)
  have hskip := (hp.opens_print).skip []
  rw [List.append_nil] at hread hskip
  rw [loads, dumps, hskip]
  rw [dumps] at hread
  rw [hread]
  rfl

end Json

end Python
