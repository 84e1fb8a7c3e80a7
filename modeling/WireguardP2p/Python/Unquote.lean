import WireguardP2p.Notification.Signature

/-! `urllib.parse.unquote`: the escapes of every run of ASCII characters are taken for the bytes they stand for
    and decoded as UTF-8, with U+FFFD for what is not valid. A text whose bytes are all escaped is read back. -/

namespace Python
open Ipaddress Notification

/-! ### UTF-8 with replacement -/

def replacement : Char := Char.ofNat 0xFFFD

/-- What may follow a first byte: the bounds of every byte of a character but the first. -/
def followers (first : UInt8) : List (UInt8 × UInt8) :=
  let any : UInt8 × UInt8 := (0x80, 0xBF)
  if first < 0xC2 then []
  else if first ≤ 0xDF then [any]
  else if first = 0xE0 then [(0xA0, 0xBF), any]
  else if first = 0xED then [(0x80, 0x9F), any]
  else if first ≤ 0xEF then [any, any]
  else if first = 0xF0 then [(0x90, 0xBF), any, any]
  else if first ≤ 0xF3 then [any, any, any]
  else if first = 0xF4 then [(0x80, 0x8F), any, any]
  else []

/-- How many bytes are as they must be. -/
def following : List (UInt8 × UInt8) → List UInt8 → ℕ
  | (low, high) :: bounds, b :: bytes => if low ≤ b ∧ b ≤ high then following bounds bytes + 1 else 0
  | _, _ => 0

/-- `bytes.decode("utf-8", "replace")`, behind the next `skipped` bytes: a character that is begun and not
    completed is replaced as one. -/
def decodeFrom : ℕ → Bytes → Text
  | _, [] => []
  | skipped + 1, _ :: bytes => decodeFrom skipped bytes
  | 0, b :: bytes =>
    match (b :: bytes).toByteArray.utf8DecodeChar? 0 with
    | some c => c :: decodeFrom (c.utf8Size - 1) bytes
    | none => replacement :: decodeFrom (following (followers b) bytes) bytes

def decodeReplace : Bytes → Text := decodeFrom 0

/-! ### Escapes -/

def isAscii (c : Char) : Bool := decide (c.toNat < 128)

/-- `unquote_to_bytes`, of ASCII characters. -/
def unquoteToBytes : Text → Bytes
  | '%' :: h :: l :: t =>
    match Numeral.digitIn 16 h, Numeral.digitIn 16 l with
    | some high, some low => UInt8.ofNat (16 * high + low) :: unquoteToBytes t
    | _, _ => 37 :: unquoteToBytes (h :: l :: t)
  | c :: t => UInt8.ofNat c.toNat :: unquoteToBytes t
  | [] => []

/-- A run of characters that are all ASCII or all not. -/
def unquoteRun (run : Text) : Text := if run.all isAscii then decodeReplace (unquoteToBytes run) else run

def unquote (t : Text) : Text :=
  if '%' ∉ t then t else (t.splitBy fun c d => isAscii c == isAscii d).flatMap unquoteRun

/-- Every byte as an escape. -/
def quoted (t : Text) : Text :=
  (encode t).flatMap fun b => ['%', (b.toNat / 16).digitChar, (b.toNat % 16).digitChar]

/-! ### Reading back -/

theorem decodeFrom_append (front bytes : Bytes) : decodeFrom front.length (front ++ bytes) = decodeFrom 0 bytes := by
  induction front with
  | nil => rfl
  | cons b front ih => exact ih

theorem decodeReplace_encode (t : Text) : decodeReplace (encode t) = t := by
  induction t with
  | nil => rfl
  | cons c t ih =>
    have hlen := String.length_utf8EncodeChar c
    rcases hbytes : String.utf8EncodeChar c with _ | ⟨b, front⟩
    · rw [hbytes] at hlen
      exact absurd hlen.symm c.utf8Size_pos.ne'
    · have hdecode := @ByteArray.utf8DecodeChar?_utf8EncodeChar_append (encode t).toByteArray c
      rw [hbytes] at hdecode
      have hsplit : encode (c :: t) = b :: (front ++ encode t) := by
        rw [encode, List.flatMap_cons, hbytes]
        rfl
      have hrest : c.utf8Size - 1 = front.length := by
        rw [hbytes, List.length_cons] at hlen
        omega
      rw [decodeReplace, hsplit, decodeFrom]
      rw [← List.toByteArray_append, List.cons_append] at hdecode
      rw [hdecode]
      simp only
      rw [hrest, decodeFrom_append]
      exact congrArg (c :: ·) ih

theorem unquoteToBytes_escape (bs : Bytes) :
    unquoteToBytes (bs.flatMap fun b => ['%', (b.toNat / 16).digitChar, (b.toNat % 16).digitChar]) = bs := by
  induction bs with
  | nil => rfl
  | cons b bs ih =>
    have hlt := b.toNat_lt
    have hbyte : UInt8.ofNat (16 * (b.toNat / 16) + b.toNat % 16) = b := by rw [Nat.div_add_mod, UInt8.ofNat_toNat]
    rw [List.flatMap_cons]
    simp only [List.cons_append, List.nil_append]
    rw [unquoteToBytes, Numeral.digitIn_digitChar le_rfl (by omega), Numeral.digitIn_digitChar le_rfl (by omega)]
    simp only
    rw [hbyte, ih]

theorem mem_quoted {t : Text} {c : Char} (h : c ∈ quoted t) : c = '%' ∨ ∃ d < 16, c = d.digitChar := by
  obtain ⟨b, -, hb⟩ := List.mem_flatMap.mp h
  have hlt := b.toNat_lt
  simp only [List.mem_cons, List.not_mem_nil, or_false] at hb
  rcases hb with rfl | rfl | rfl
  · exact .inl rfl
  · exact .inr ⟨_, by omega, rfl⟩
  · exact .inr ⟨_, by omega, rfl⟩

theorem ascii_quoted (t : Text) : ∀ c ∈ quoted t, isAscii c = true := by
  intro c hc
  have hdigit : ∀ d < 16, isAscii d.digitChar = true := by decide
  rcases mem_quoted hc with rfl | ⟨d, hd, rfl⟩
  · rfl
  · exact hdigit d hd

/-- A text whose bytes are all escaped is read back. -/
theorem unquote_quoted (t : Text) : unquote (quoted t) = t := by
  cases t with
  | nil => rfl
  | cons c t =>
    have hascii := ascii_quoted (c :: t)
    have hpercent : '%' ∈ quoted (c :: t) := by
      rcases hbytes : encode (c :: t) with _ | ⟨b, bs⟩
      · have hread := decodeReplace_encode (c :: t)
        rw [hbytes, decodeReplace, decodeFrom] at hread
        cases hread
      · rw [quoted, hbytes, List.flatMap_cons]
        exact List.mem_cons_self
    have hchain : (quoted (c :: t)).IsChain fun c d => (isAscii c == isAscii d) = true := by
      refine List.Pairwise.isChain (List.pairwise_of_forall_mem_list fun a ha b hb => ?_)
      rw [hascii a ha, hascii b hb]
      rfl
    rw [unquote, if_neg (not_not.mpr hpercent), List.splitBy_of_isChain (List.ne_nil_of_mem hpercent) hchain,
      List.flatMap_singleton, unquoteRun, if_pos (List.all_eq_true.mpr hascii), quoted, unquoteToBytes_escape,
      decodeReplace_encode]

theorem unquote_plain {t : Text} (h : '%' ∉ t) : unquote t = t := if_pos h

example : unquote "a%2e%E4%BD%A0%C0%AF%zz".toList =
    ['a', '.', Char.ofNat 0x4F60, replacement, replacement, '%', 'z', 'z'] := by
  decide +kernel

end Python
