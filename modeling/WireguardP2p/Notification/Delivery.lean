import WireguardP2p.Notification.Signature

/-! A notification that arrives as it was sent: its time and its nonce are read back as they were
    printed, its signature is the one that is expected, so within its time it passes every check. -/

namespace Notification
open Ipaddress Python

/-! ### The nonce -/

theorem hexText_cons (b : UInt8) (bs : Bytes) : hexText (b :: bs) =
    (b.toNat / 16).digitChar :: (b.toNat % 16).digitChar :: hexText bs := rfl

theorem length_hexText (bs : Bytes) : (hexText bs).length = 2 * bs.length := by
  induction bs with
  | nil => rfl
  | cons b bs ih =>
    rw [hexText_cons, List.length_cons, List.length_cons, ih, List.length_cons]
    omega

/-- A hexadecimal digit is no white space and has no upper case. -/
theorem hexDigit_facts {d : ℕ} (h : d < 16) : isSpace d.digitChar = false ∧
    d.digitChar.toLower = d.digitChar ∧ d.digitChar.toNat < 128 := by
  interval_cases d <;> decide

/-- The digits of some bytes are read back. -/
theorem fromHex_hexText (bs : Bytes) : fromHex (hexText bs) = some bs := by
  induction bs with
  | nil => rfl
  | cons b bs ih =>
    have hlt := b.toNat_lt
    have hhi : b.toNat / 16 < 16 := by omega
    have hlo : b.toNat % 16 < 16 := by omega
    have hbyte : UInt8.ofNat (16 * (b.toNat / 16) + b.toNat % 16) = b := by
      rw [Nat.div_add_mod, UInt8.ofNat_toNat]
    rw [hexText_cons, fromHex, (hexDigit_facts hhi).1, Numeral.digitIn_digitChar le_rfl hhi,
      Numeral.digitIn_digitChar le_rfl hlo, ih]
    simp only [Bool.false_eq_true, if_false, Option.bind_eq_bind, Option.bind_some, hbyte]

theorem lower_hexText (bs : Bytes) : lower (hexText bs) = hexText bs := by
  induction bs with
  | nil => rfl
  | cons b bs ih =>
    have hlt := b.toNat_lt
    rw [lower] at ih
    rw [lower, hexText_cons, List.map_cons, List.map_cons, ih,
      (hexDigit_facts (show b.toNat / 16 < 16 by omega)).2.1,
      (hexDigit_facts (show b.toNat % 16 < 16 by omega)).2.1]

theorem validateNonce_hexText (token : Token) : validateNonce (some (hexText token.1)) = .ok (hexText token.1) := by
  have hlen : (hexText token.1).length = 32 := by rw [length_hexText, token.2]
  rw [validateNonce, if_neg (not_not.mpr hlen), fromHex_hexText]
  simp only
  rw [if_neg (not_not.mpr token.2), lower_hexText]

/-! ### The time -/

/-- A number that fits in a float has no more digits than `int` takes. -/
theorem length_text_of_lt {n : ℕ} (h : n < floatLimit) : (Numeral.text 10 n).length ≤ 4300 := by
  have hlimit : floatLimit ≤ 2 ^ 1024 := by
    unfold floatLimit
    exact Nat.sub_le (2 ^ 1024) (2 ^ 970)
  have hbase (k : ℕ) : 2 ^ k ≤ 10 ^ k := Nat.pow_le_pow_left (by norm_num) k
  have hpow {k m : ℕ} (hk : k ≤ m) : 10 ^ k ≤ 10 ^ m := Nat.pow_le_pow_right (by norm_num) hk
  refine (Numeral.length_text_le (by norm_num) (by norm_num)).mpr ?_
  exact h.trans_le ((hlimit.trans (hbase 1024)).trans (hpow (by norm_num)))

theorem reprInt_natCast (n : ℕ) : reprInt n = Numeral.text 10 n := by
  rw [reprInt, if_neg (by omega), Int.natAbs_natCast]

theorem readTimestamp_reprInt {n : ℕ} (h : n < floatLimit) : readTimestamp (some (reprInt n)) = .ok (n : ℤ) := by
  rw [readTimestamp, reprInt_natCast, intText_text (length_text_of_lt h)]

/-! ### The signature -/

/-- What `hexdigest` returns is ASCII. -/
def Ascii (hexdigest : Bytes → Text) : Prop := ∀ b, ∀ c ∈ hexdigest b, c.toNat < 128

theorem ascii_hexText : Ascii hexText := by
  intro bs c hc
  rw [hexText, List.mem_flatMap] at hc
  obtain ⟨b, -, hc⟩ := hc
  have hlt := b.toNat_lt
  simp only [List.mem_cons, List.not_mem_nil, or_false] at hc
  rcases hc with rfl | rfl
  · exact (hexDigit_facts (show b.toNat / 16 < 16 by omega)).2.2
  · exact (hexDigit_facts (show b.toNat % 16 < 16 by omega)).2.2

theorem compareDigest_self {t : Text} (h : ∀ c ∈ t, c.toNat < 128) : compareDigest t t = .ok true := by
  have hall : (t ++ t).all (fun c => decide (c.toNat < 128)) = true := by
    rw [List.all_eq_true]
    intro c hc
    rw [List.mem_append, or_self] at hc
    exact decide_eq_true (h c hc)
  rw [compareDigest, if_pos hall, beq_self_eq_true]

/-- The call made with a notification as it was sent. -/
def Signed.sent (s : Signed) (hexdigest : Bytes → Text) : Call :=
  ⟨s.method, s.path, some s.timestamp, some s.nonce, some (hexdigest s.payload), s.body⟩

/-- Within its time a notification that arrives as it was sent passes the checks. -/
theorem checkNotification_sent {hexdigest : Bytes → Text} (hascii : Ascii hexdigest) (notice : Notice)
    (payload : Payload) {time : ℕ} (htime : time < floatLimit) (token : Token) {now : ℚ}
    (hnow : |now - time| ≤ notificationMaxSkew) :
    checkNotification hexdigest ((signedPost notice payload time token).sent hexdigest) now =
      .ok (hexText token.1) := by
  have hread : readTimestamp ((signedPost notice payload time token).sent hexdigest).timestamp = .ok (time : ℤ) :=
    readTimestamp_reprInt htime
  have hnonce : validateNonce ((signedPost notice payload time token).sent hexdigest).nonce =
      .ok (hexText token.1) := validateNonce_hexText token
  have hsame : compareDigest (((signedPost notice payload time token).sent hexdigest).signature.getD [])
      (hexdigest (signedPost notice payload time token).payload) = .ok true := compareDigest_self (hascii _)
  rw [checkNotification, hread]
  change (if _ then _ else _) = _
  rw [if_neg (by rw [Int.natAbs_natCast]; exact not_le.mpr htime), if_neg (by rw [Int.cast_natCast]; exact not_lt.mpr hnow),
    hnonce]
  change (compareDigest _ (hexdigest (signedPost notice payload time token).payload) >>= _) = _
  rw [hsame]
  rfl

/-- So it is accepted, and its payload is read back, when its nonce is not among the recent ones. -/
theorem verify_sent {hexdigest : Bytes → Text} (hascii : Ascii hexdigest) (notice : Notice) (payload : Payload)
    {time : ℕ} (htime : time < floatLimit) (token : Token) {now : ℚ} (hnow : |now - time| ≤ notificationMaxSkew)
    {seen : Seen} (hnew : hexText token.1 ∉ (SeenCache.purge (now - nonceTtl) seen).keys) :
    (verifySignedNotification hexdigest ((signedPost notice payload time token).sent hexdigest) now).run seen =
      (.ok payload.1.sortKeys, SeenCache.store maxSeenNonces (hexText token.1) now
        (SeenCache.purge (now - nonceTtl) seen)) := by
  rw [verify_stored (checkNotification_sent hascii notice payload htime token hnow) hnew]
  exact congrArg (fun r => (r, _)) (readBody_signedPost notice payload time token)

end Notification
