import WireguardP2p.Lib.Raising
import WireguardP2p.Lib.SeenCache
import WireguardP2p.Python.JsonText
import WireguardP2p.Python.Upper

/-! Signed notifications: what the coordinator signs (`signed_post`) and what the agent checks before it
    takes a notification (`verify_signed_notification`). The signed fields are joined by line breaks,
    so they can be told apart as long as none of the first four holds one (`signaturePayload_injective`).
    The keyed hash is a parameter; a clock reading is an exact number. -/

namespace Notification
open Ipaddress Python

abbrev Bytes := List UInt8

/-- `text.encode()`. -/
def encode (t : Text) : Bytes := t.flatMap String.utf8EncodeChar

/-- `body.decode()`; `none` is a `UnicodeDecodeError`. -/
def decode (b : Bytes) : Option Text := (b.toByteArray.utf8Decode?).map Array.toList

/-- `signature_payload`: the fields joined by line breaks. -/
def signaturePayload (method path timestamp nonce : Text) (body : Bytes) : Bytes :=
  encode (upper method) ++ 10 :: (encode path ++ 10 :: (encode timestamp ++ 10 :: (encode nonce ++
    10 :: body)))

/-- The hexadecimal digits of some bytes, lower case. -/
def hexText (bs : Bytes) : Text :=
  bs.flatMap fun b => [(b.toNat / 16).digitChar, (b.toNat % 16).digitChar]

/-- `bytes.fromhex(text)`, which skips white space between the bytes; `none` is a `ValueError`. -/
def fromHex : Text → Option Bytes
  | [] => some []
  | [c] => if isSpace c then some [] else none
  | c :: d :: t =>
    if isSpace c then fromHex (d :: t)
    else do
      let hi ← Numeral.digitIn 16 c
      let lo ← Numeral.digitIn 16 d
      let bs ← fromHex t
      some (UInt8.ofNat (16 * hi + lo) :: bs)

/-- `text.lower()`, of hexadecimal digits. -/
def lower (t : Text) : Text := t.map Char.toLower

def nonceError : Raised := .permissionError "invalid notification nonce"

/-- `validate_nonce`; a header that is missing is `none`. -/
def validateNonce : Option Text → Except Raised Text
  | none => .error nonceError
  | some value =>
    if value.length ≠ 32 then .error nonceError
    else
      match fromHex value with
      | none => .error nonceError
      | some decoded => if decoded.length ≠ 16 then .error nonceError else .ok (lower value)

/-- `hmac.compare_digest` on texts, which must be ASCII. -/
def compareDigest (a b : Text) : Except Raised Bool :=
  if (a ++ b).all fun c => decide (c.toNat < 128) then .ok (a == b) else .error .typeError

/-! ### Sending -/

/-- The two notifications the coordinator sends. -/
inductive Notice
  | offer
  | remove
  deriving DecidableEq

def Notice.path : Notice → Text
  | offer => "/offer".toList
  | remove => "/remove".toList

/-- A notification as it was signed. -/
structure Signed where
  method : Text
  path : Text
  timestamp : Text
  nonce : Text
  body : Bytes
  deriving DecidableEq

def Signed.payload (s : Signed) : Bytes :=
  signaturePayload s.method s.path s.timestamp s.nonce s.body

/-- What `secrets.token_hex(16)` is made from. -/
abbrev Token := { bs : Bytes // bs.length = 16 }

/-- The dictionary that is sent. -/
abbrev Payload := { v : Json // v.Printable }

/-- `signed_post`, at `int(time.time())`. -/
def signedPost (notice : Notice) (payload : Payload) (time : ℤ) (token : Token) : Signed :=
  ⟨"POST".toList, notice.path, reprInt time, hexText token.1, encode payload.1.dumps⟩

/-! ### Receiving -/

/-- The arguments of `verify_signed_notification`; a header that is missing is `none`. -/
structure Call where
  method : Text
  path : Text
  timestamp : Option Text
  nonce : Option Text
  signature : Option Text
  body : Bytes
  deriving DecidableEq

def notificationMaxSkew : ℚ := 30
def nonceTtl : ℚ := 60
def maxSeenNonces : ℕ := 4096

/-- The least number that is too large for `float`. -/
@[irreducible] def floatLimit : ℕ := 2 ^ 1024 - 2 ^ 970

abbrev Seen := Dict Text ℚ

/-- `int(timestamp_text)`. -/
def readTimestamp : Option Text → Except Raised ℤ
  | none => .error (.permissionError "invalid notification timestamp")
  | some t =>
    match intText 10 t with
    | some n => .ok n
    | none => .error (.permissionError "invalid notification timestamp")

/-- The checks before the nonce is looked up; `hexdigest` is HMAC-SHA256 under the shared key. -/
def checkNotification (hexdigest : Bytes → Text) (c : Call) (now : ℚ) : Except Raised Text := do
  let timestamp ← readTimestamp c.timestamp
  if floatLimit ≤ timestamp.natAbs then .error .overflowError
  else if notificationMaxSkew < |now - timestamp| then .error (.permissionError "expired notification")
  else
    let nonce ← validateNonce c.nonce
    let expected := hexdigest (signaturePayload c.method c.path (c.timestamp.getD []) nonce c.body)
    let same ← compareDigest (c.signature.getD []) expected
    if same then .ok nonce else .error (.permissionError "invalid notification signature")

/-- `consume_nonce`. -/
def consumeNonce (nonce : Text) (now : ℚ) : Raising Seen Raised Unit := do
  Raising.modify (SeenCache.purge (now - nonceTtl))
  let seen ← Raising.get
  if (seen.get? nonce).isSome then Raising.raise (.permissionError "replayed notification")
  else Raising.modify (SeenCache.store maxSeenNonces nonce now)

/-- `json.loads(body.decode())`. -/
def readBody (body : Bytes) : Except Raised Json :=
  match decode body with
  | none => .error .builtinValueError
  | some t =>
    match loads t with
    | none => .error .builtinValueError
    | some v => .ok v

/-- `verify_signed_notification`. -/
def verifySignedNotification (hexdigest : Bytes → Text) (c : Call) (now : ℚ) :
    Raising Seen Raised Json := do
  let nonce ← Raising.ofExcept (checkNotification hexdigest c now)
  consumeNonce nonce now
  Raising.ofExcept (readBody c.body)

/-! ### Bytes -/

theorem decode_encode (t : Text) : decode (encode t) = some t := by
  have h : (encode t).toByteArray.utf8Decode? = some t.toArray := List.utf8Decode?_utf8Encode
  rw [decode, h, Option.map_some]

theorem encode_injective {t u : Text} (h : encode t = encode u) : t = u := by
  have hd := decode_encode t
  rw [h, decode_encode, Option.some.injEq] at hd
  exact hd.symm

theorem newline_not_mem_utf8 {c : Char} (h : c ≠ '\n') : (10 : UInt8) ∉ String.utf8EncodeChar c := by
  have hv : c.val.toNat ≠ 10 := fun hv => h (Char.toNat_inj.mp hv)
  have hbyte {n : ℕ} (hn : n % 256 ≠ 10) : (10 : UInt8) ≠ UInt8.ofNat n := by
    intro he
    have := congrArg UInt8.toNat he
    rw [UInt8.toNat_ofNat'] at this
    exact hn this.symm
  unfold String.utf8EncodeChar
  simp only
  split
  · simp only [List.mem_singleton]
    exact hbyte (by omega)
  · split
    · simp only [List.mem_cons, List.not_mem_nil, or_false, not_or]
      exact ⟨hbyte (by omega), hbyte (by omega)⟩
    · split
      · simp only [List.mem_cons, List.not_mem_nil, or_false, not_or]
        exact ⟨hbyte (by omega), hbyte (by omega), hbyte (by omega)⟩
      · simp only [List.mem_cons, List.not_mem_nil, or_false, not_or]
        exact ⟨hbyte (by omega), hbyte (by omega), hbyte (by omega), hbyte (by omega)⟩

theorem newline_not_mem_encode {t : Text} (h : '\n' ∉ t) : (10 : UInt8) ∉ encode t := by
  rw [encode, List.mem_flatMap]
  rintro ⟨c, hc, hb⟩
  exact newline_not_mem_utf8 (fun he => h (he ▸ hc)) hb

/-- Two texts cut at their first separator. -/
theorem cut_inj {α : Type} {a : α} {r s : List α} : ∀ {x y : List α}, a ∉ x → a ∉ y →
    x ++ a :: r = y ++ a :: s → x = y ∧ r = s
  | [], [], _, _, h => ⟨rfl, (List.cons.inj h).2⟩
  | [], b :: _, _, hy, h => absurd (List.mem_cons.mpr (.inl (List.cons.inj h).1)) hy
  | b :: _, [], hx, _, h => absurd (List.mem_cons.mpr (.inl (List.cons.inj h).1.symm)) hx
  | b :: x, c :: y, hx, hy, h => by
    rw [List.mem_cons, not_or] at hx hy
    obtain ⟨hbc, ht⟩ := List.cons.inj h
    obtain ⟨hxy, hrs⟩ := cut_inj hx.2 hy.2 ht
    exact ⟨by rw [hbc, hxy], hrs⟩

theorem field_inj {t u : Text} {r s : Bytes} (ht : '\n' ∉ t) (hu : '\n' ∉ u)
    (h : encode t ++ 10 :: r = encode u ++ 10 :: s) : t = u ∧ r = s := by
  obtain ⟨htu, hrs⟩ := cut_inj (newline_not_mem_encode ht) (newline_not_mem_encode hu) h
  exact ⟨encode_injective htu, hrs⟩

/-- The signed fields can be told apart. -/
theorem signaturePayload_injective {m m' p p' t t' n n' : Text} {b b' : Bytes}
    (hm : '\n' ∉ m) (hm' : '\n' ∉ m') (hp : '\n' ∉ p) (hp' : '\n' ∉ p') (ht : '\n' ∉ t)
    (ht' : '\n' ∉ t') (hn : '\n' ∉ n) (hn' : '\n' ∉ n')
    (h : signaturePayload m p t n b = signaturePayload m' p' t' n' b') :
    upper m = upper m' ∧ p = p' ∧ t = t' ∧ n = n' ∧ b = b' := by
  obtain ⟨hmm, h⟩ := field_inj (newline_not_mem_upper hm) (newline_not_mem_upper hm') h
  obtain ⟨hpp, h⟩ := field_inj hp hp' h
  obtain ⟨htt, h⟩ := field_inj ht ht' h
  obtain ⟨hnn, hbb⟩ := field_inj hn hn' h
  exact ⟨hmm, hpp, htt, hnn, hbb⟩

/-! ### What was signed -/

theorem newline_not_mem_reprInt (n : ℤ) : '\n' ∉ reprInt n := by
  have hdigits := Numeral.not_mem_text (by norm_num) (by norm_num) n.natAbs (show
    Numeral.digitVal '\n' = none from rfl) (b := 10)
  rw [reprInt]
  split
  · rw [List.mem_cons, not_or]
    exact ⟨by decide, hdigits⟩
  · exact hdigits

theorem digitChar_ne_newline {d : ℕ} (h : d < 16) : d.digitChar ≠ '\n' := by
  interval_cases d <;> decide

theorem newline_not_mem_hexText (bs : Bytes) : '\n' ∉ hexText bs := by
  rw [hexText, List.mem_flatMap]
  rintro ⟨b, _, hb⟩
  have hlt := b.toNat_lt
  simp only [List.mem_cons, List.not_mem_nil, or_false] at hb
  rcases hb with hb | hb
  · exact digitChar_ne_newline (by omega) hb.symm
  · exact digitChar_ne_newline (by omega) hb.symm

/-- The fields of a signed notification hold no line break. -/
structure Signed.Headers (s : Signed) : Prop where
  method : '\n' ∉ s.method
  path : '\n' ∉ s.path
  timestamp : '\n' ∉ s.timestamp
  nonce : '\n' ∉ s.nonce

theorem signedPost_headers (notice : Notice) (payload : Payload) (time : ℤ) (token : Token) :
    (signedPost notice payload time token).Headers where
  method := show '\n' ∉ "POST".toList by decide
  path := show '\n' ∉ notice.path by cases notice <;> decide
  timestamp := newline_not_mem_reprInt time
  nonce := newline_not_mem_hexText token.1

/-- The body of a signed notification is read back. -/
theorem readBody_signedPost (notice : Notice) (payload : Payload) (time : ℤ) (token : Token) :
    readBody (signedPost notice payload time token).body = .ok payload.1.sortKeys := by
  rw [readBody, signedPost, decode_encode]
  simp only [Json.loads_dumps payload.2]

/-! ### What a call must be to be taken -/

/-- A nonce that passes its check, and what it is looked up as. -/
theorem validateNonce_ok {v : Option Text} {n : Text} (h : validateNonce v = .ok n) :
    ∃ t, v = some t ∧ n = lower t := by
  cases v with
  | none => cases h
  | some t =>
    refine ⟨t, rfl, ?_⟩
    rw [validateNonce] at h
    split at h
    · cases h
    · cases hd : fromHex t with
      | none =>
        rw [hd] at h
        cases h
      | some decoded =>
        rw [hd] at h
        simp only at h
        split at h
        · cases h
        · exact (Except.ok.inj h).symm

theorem readTimestamp_ok {v : Option Text} {n : ℤ} (h : readTimestamp v = .ok n) :
    ∃ t, v = some t ∧ intText 10 t = some n := by
  cases v with
  | none => cases h
  | some t =>
    refine ⟨t, rfl, ?_⟩
    rw [readTimestamp] at h
    cases hi : intText 10 t with
    | none =>
      rw [hi] at h
      cases h
    | some k =>
      rw [hi] at h
      rw [Except.ok.inj h]

/-- What the checks before the nonce is looked up leave to know. -/
structure Checked (hexdigest : Bytes → Text) (c : Call) (now : ℚ) (nonce : Text) : Prop where
  timestamp : ∃ t n, c.timestamp = some t ∧ intText 10 t = some n ∧
    |now - n| ≤ notificationMaxSkew
  text : ∃ t, c.nonce = some t ∧ nonce = lower t
  signature : c.signature.getD [] =
    hexdigest (signaturePayload c.method c.path (c.timestamp.getD []) nonce c.body)

theorem checkNotification_ok {hexdigest : Bytes → Text} {c : Call} {now : ℚ} {nonce : Text}
    (h : checkNotification hexdigest c now = .ok nonce) : Checked hexdigest c now nonce := by
  rw [checkNotification] at h
  cases ht : readTimestamp c.timestamp with
  | error e =>
    rw [ht] at h
    cases h
  | ok timestamp =>
    rw [ht] at h
    change (if _ then _ else _) = _ at h
    split at h
    · cases h
    split at h
    · cases h
    rename_i hskew
    cases hn : validateNonce c.nonce with
    | error e =>
      rw [hn] at h
      cases h
    | ok n =>
      rw [hn] at h
      change (compareDigest _ _ >>= _) = _ at h
      rw [compareDigest] at h
      split at h
      · change (if _ then _ else _) = _ at h
        split at h
        · rename_i hsame
          obtain rfl := Except.ok.inj h
          obtain ⟨t, htext, hint⟩ := readTimestamp_ok ht
          exact ⟨⟨t, timestamp, htext, hint, not_lt.mp hskew⟩, validateNonce_ok hn, eq_of_beq hsame⟩
        · cases h
      · cases h

theorem consumeNonce_replayed {nonce : Text} {now : ℚ} {seen : Seen}
    (h : nonce ∈ (SeenCache.purge (now - nonceTtl) seen).keys) : consumeNonce nonce now seen =
      (.error (.permissionError "replayed notification"), SeenCache.purge (now - nonceTtl) seen) := by
  obtain ⟨t, ht⟩ := Dict.mem_keys.mp h
  simp [consumeNonce, bind, Raising.andThen, Raising.modify, Raising.get, Raising.raise, ht]

theorem consumeNonce_stored {nonce : Text} {now : ℚ} {seen : Seen}
    (h : nonce ∉ (SeenCache.purge (now - nonceTtl) seen).keys) : consumeNonce nonce now seen =
      (.ok (), SeenCache.store maxSeenNonces nonce now (SeenCache.purge (now - nonceTtl) seen)) := by
  have ht : (SeenCache.purge (now - nonceTtl) seen).get? nonce = none := by
    rw [Option.eq_none_iff_forall_ne_some]
    exact fun t ht => h (Dict.mem_keys.mpr ⟨t, ht⟩)
  simp [consumeNonce, bind, Raising.andThen, Raising.modify, Raising.get, ht]

/-- What a call does: its checks fail, or it is a replay, or its nonce is stored. -/
inductive Verified (hexdigest : Bytes → Text) (c : Call) (now : ℚ) (seen : Seen) :
    Except Raised Json × Seen → Prop
  | refused (e : Raised) : Verified hexdigest c now seen (.error e, seen)
  | replayed (e : Raised) (nonce : Text) (hc : Checked hexdigest c now nonce)
      (hm : nonce ∈ (SeenCache.purge (now - nonceTtl) seen).keys) :
      Verified hexdigest c now seen (.error e, SeenCache.purge (now - nonceTtl) seen)
  | stored (nonce : Text) (hc : Checked hexdigest c now nonce)
      (hm : nonce ∉ (SeenCache.purge (now - nonceTtl) seen).keys) :
      Verified hexdigest c now seen (readBody c.body,
        SeenCache.store maxSeenNonces nonce now (SeenCache.purge (now - nonceTtl) seen))

/-- A call that passes its checks, with a nonce that is not in the cache. -/
theorem verify_stored {hexdigest : Bytes → Text} {c : Call} {now : ℚ} {nonce : Text} {seen : Seen}
    (hcheck : checkNotification hexdigest c now = .ok nonce)
    (hm : nonce ∉ (SeenCache.purge (now - nonceTtl) seen).keys) :
    (verifySignedNotification hexdigest c now).run seen = (readBody c.body,
      SeenCache.store maxSeenNonces nonce now (SeenCache.purge (now - nonceTtl) seen)) := by
  have hrun : (verifySignedNotification hexdigest c now).run seen =
      Raising.andThen (consumeNonce nonce now) (fun _ => Raising.ofExcept (readBody c.body)) seen := by
    rw [verifySignedNotification, hcheck]
    rfl
  have hread : ∀ s : Seen, Raising.ofExcept (readBody c.body) s = (readBody c.body, s) := by
    intro s
    cases readBody c.body <;> rfl
  rw [hrun, Raising.andThen, consumeNonce_stored hm]
  exact hread _

theorem verified (hexdigest : Bytes → Text) (c : Call) (now : ℚ) (seen : Seen) :
    Verified hexdigest c now seen ((verifySignedNotification hexdigest c now).run seen) := by
  cases hcheck : checkNotification hexdigest c now with
  | error e =>
    have hrun : (verifySignedNotification hexdigest c now).run seen = (.error e, seen) := by
      rw [verifySignedNotification, hcheck]
      rfl
    exact hrun ▸ .refused e
  | ok nonce =>
    have hc := checkNotification_ok hcheck
    by_cases hm : nonce ∈ (SeenCache.purge (now - nonceTtl) seen).keys
    · have hrun : (verifySignedNotification hexdigest c now).run seen =
          Raising.andThen (consumeNonce nonce now) (fun _ => Raising.ofExcept (readBody c.body))
            seen := by
        rw [verifySignedNotification, hcheck]
        rfl
      rw [hrun, Raising.andThen, consumeNonce_replayed hm]
      exact .replayed _ nonce hc hm
    · rw [verify_stored hcheck hm]
      exact .stored nonce hc hm

end Notification
