import WireguardP2p.Candidates.Gather

/-! `wg show INTERFACE dump`: one line for the interface, then one line of eight fields for each peer.
    Fields stand between tabs and hold no white space, so the readers get the fields back by trimming
    the output, splitting it into lines and the lines at the tabs. -/

namespace Wg
open Ipaddress Python Candidates Numeral

/-- What stands in a field: text without white space. -/
abbrev Field := { t : Text // t ≠ [] ∧ ∀ c ∈ t, isStrSpace c = false }

/-- A peer of the device; `keepalive` is `none` when it is off, `latestHandshake` a `time64_t`. -/
structure Peer where
  key : Field
  presharedKey : Option Field
  endpoint : Option Field
  allowedIps : List Field
  latestHandshake : ℕ
  rx : ℕ
  tx : ℕ
  keepalive : Option ℕ
  endpoint_ne : ∀ e ∈ endpoint, e.1 ≠ "(none)".toList
  allowedIps_ne : ∀ a ∈ allowedIps, ',' ∉ a.1 ∧ a.1 ≠ "(none)".toList
  latestHandshake_lt : latestHandshake < 2 ^ 63
  keepalive_lt : ∀ n ∈ keepalive, n < 2 ^ 16

/-- A WireGuard device: no two peers with one key. -/
structure Interface where
  privateKey : Option Field
  publicKey : Option Field
  listenPort : ℕ
  fwmark : Option ℕ
  peers : List Peer
  nodup : (peers.map fun p => p.key.1).Nodup

/-! ### What `wg` prints -/

def orNone : Option Field → Text
  | none => "(none)".toList
  | some f => f.1

def allowedText : List Field → Text
  | [] => "(none)".toList
  | as => [','].intercalate (as.map Subtype.val)

def keepaliveText : Option ℕ → Text
  | none => "off".toList
  | some n => text 10 n

def fwmarkText : Option ℕ → Text
  | none => "off".toList
  | some m => "0x".toList ++ text 16 m

def Peer.fields (p : Peer) : List Text :=
  [p.key.1, orNone p.presharedKey, orNone p.endpoint, allowedText p.allowedIps, text 10 p.latestHandshake,
    text 10 p.rx, text 10 p.tx, keepaliveText p.keepalive]

def Interface.fields (i : Interface) : List Text :=
  [orNone i.privateKey, orNone i.publicKey, text 10 i.listenPort, fwmarkText i.fwmark]

def line (fields : List Text) : Text := ['\t'].intercalate fields

/-- The output of lines of fields, each ended with a line end. -/
def output (ls : List (List Text)) : Text := ((ls.map line).map fun l => l ++ ['\n']).flatten

def Interface.dump (i : Interface) : Text := output (i.fields :: i.peers.map Peer.fields)

/-! ### Splitting text -/

/-- Drop the characters of a class at both ends. -/
def trim (p : Char → Bool) (t : Text) : Text := ((t.dropWhile p).reverse.dropWhile p).reverse

/-- `unicode.IsSpace`. -/
def isGoSpace (c : Char) : Bool := isSpace (toAscii c)

/-- `\r\n` to `\n`. -/
def replaceCrlf : Text → Text
  | '\r' :: '\n' :: t => '\n' :: replaceCrlf t
  | c :: t => c :: replaceCrlf t
  | [] => []

/-- The line boundaries of `str.splitlines`. -/
def isLineBreak (c : Char) : Bool :=
  decide (c.toNat ∈ [0xa, 0xb, 0xc, 0xd, 0x1c, 0x1d, 0x1e, 0x85, 0x2028, 0x2029])

/-- `text.splitlines()`. -/
def splitLines (t : Text) : List Text :=
  let lines := (replaceCrlf t).splitOnP isLineBreak
  if lines.getLast? = some [] then lines.dropLast else lines

/-! ### Fields hold no white space -/

/-- Text that is not empty and has no white space. -/
def Solid (t : Text) : Prop := t ≠ [] ∧ ∀ c ∈ t, isStrSpace c = false

theorem solid_text {b : ℕ} (hb : 1 < b) (hb' : b ≤ 16) (n : ℕ) : Solid (text b n) := by
  refine ⟨text_ne_nil b n, fun c hc => ?_⟩
  obtain ⟨d, hd, rfl, -⟩ := digitIn_of_mem_text hb hb' n c hc
  have hd16 : d < 16 := by omega
  interval_cases d <;> decide

theorem no_space_of_all {t : Text} (h : t.all (fun c => !isStrSpace c) = true) :
    ∀ c ∈ t, isStrSpace c = false := by
  intro c hc
  simpa using List.all_eq_true.mp h c hc

theorem solid_none : Solid "(none)".toList := ⟨by decide, no_space_of_all (by decide)⟩

theorem solid_off : Solid "off".toList := ⟨by decide, no_space_of_all (by decide)⟩

theorem solid_orNone : ∀ f, Solid (orNone f)
  | none => solid_none
  | some f => f.2

theorem Solid.append {s t : Text} (hs : ∀ c ∈ s, isStrSpace c = false) (ht : Solid t) :
    Solid (s ++ t) := by
  refine ⟨List.append_ne_nil_of_right_ne_nil s ht.1, fun c hc => ?_⟩
  rcases List.mem_append.mp hc with hc | hc
  · exact hs c hc
  · exact ht.2 c hc

theorem solid_intercalate {sep : Text} (hsep : ∀ c ∈ sep, isStrSpace c = false) :
    ∀ as : List Text, as ≠ [] → (∀ a ∈ as, Solid a) → Solid (sep.intercalate as)
  | [], h, _ => absurd rfl h
  | [a], _, h => by
    rw [List.intercalate_singleton]
    exact h a List.mem_cons_self
  | a :: b :: as, _, h => by
    rw [List.intercalate_cons_cons, List.append_assoc]
    have hrest : Solid (sep.intercalate (b :: as)) :=
      solid_intercalate hsep (b :: as) (by simp) fun c hc => h c (List.mem_cons_of_mem a hc)
    exact (hrest.append hsep).append (h a List.mem_cons_self).2

theorem solid_allowedText : ∀ as, Solid (allowedText as)
  | [] => solid_none
  | a :: as => by
    refine solid_intercalate (no_space_of_all (by decide)) _ (by simp) fun t ht => ?_
    obtain ⟨f, -, rfl⟩ := List.mem_map.mp ht
    exact f.2

theorem solid_keepaliveText : ∀ k, Solid (keepaliveText k)
  | none => solid_off
  | some n => solid_text (by norm_num) (by norm_num) n

theorem solid_fwmarkText : ∀ m, Solid (fwmarkText m)
  | none => solid_off
  | some m => (solid_text (by norm_num) (by norm_num) m).append (no_space_of_all (by decide))

theorem Peer.solid_fields (p : Peer) : ∀ t ∈ p.fields, Solid t := by
  have hnum (n : ℕ) : Solid (text 10 n) := solid_text (by norm_num) (by norm_num) n
  intro t ht
  simp only [fields, List.mem_cons, List.not_mem_nil, or_false] at ht
  rcases ht with rfl | rfl | rfl | rfl | rfl | rfl | rfl | rfl
  · exact p.key.2
  · exact solid_orNone _
  · exact solid_orNone _
  · exact solid_allowedText _
  · exact hnum _
  · exact hnum _
  · exact hnum _
  · exact solid_keepaliveText _

theorem Interface.solid_fields (i : Interface) : ∀ t ∈ i.fields, Solid t := by
  intro t ht
  simp only [fields, List.mem_cons, List.not_mem_nil, or_false] at ht
  rcases ht with rfl | rfl | rfl | rfl
  · exact solid_orNone _
  · exact solid_orNone _
  · exact solid_text (by norm_num) (by norm_num) _
  · exact solid_fwmarkText _

/-! ### Reading the lines back -/

/-- A text that starts and ends with a character outside the class. -/
def Bounded (p : Char → Bool) (t : Text) : Prop :=
  (∃ c u, t = c :: u ∧ p c = false) ∧ ∃ u c, t = u ++ [c] ∧ p c = false

theorem Solid.bounded {p : Char → Bool} {t : Text} (h : Solid t)
    (hp : ∀ c, isStrSpace c = false → p c = false) : Bounded p t := by
  obtain ⟨c, u, rfl⟩ := List.exists_cons_of_ne_nil h.1
  refine ⟨⟨c, u, rfl, hp c (h.2 c List.mem_cons_self)⟩,
    (c :: u).dropLast, (c :: u).getLast h.1, (List.dropLast_append_getLast h.1).symm, ?_⟩
  exact hp _ (h.2 _ (List.getLast_mem h.1))

theorem Bounded.append {p : Char → Bool} {s t : Text} (m : Text) (hs : Bounded p s) (ht : Bounded p t) :
    Bounded p (s ++ (m ++ t)) := by
  obtain ⟨⟨c, u, rfl, hc⟩, -⟩ := hs
  obtain ⟨-, v, d, rfl, hd⟩ := ht
  exact ⟨⟨c, u ++ (m ++ (v ++ [d])), rfl, hc⟩, c :: u ++ (m ++ v), d, by simp, hd⟩

theorem bounded_intercalate {p : Char → Bool} {sep : Text} :
    ∀ as : List Text, as ≠ [] → (∀ a ∈ as, Bounded p a) → Bounded p (sep.intercalate as)
  | [], h, _ => absurd rfl h
  | [a], _, h => by
    rw [List.intercalate_singleton]
    exact h a List.mem_cons_self
  | a :: b :: as, _, h => by
    rw [List.intercalate_cons_cons, List.append_assoc]
    exact (h a List.mem_cons_self).append sep
      (bounded_intercalate (b :: as) (by simp) fun c hc => h c (List.mem_cons_of_mem a hc))

/-- Trimming takes away the line end and no more. -/
theorem trim_line_end {p : Char → Bool} {t : Text} (h : Bounded p t) (hn : p '\n' = true) :
    trim p (t ++ ['\n']) = t := by
  obtain ⟨⟨c, u, hcu, hc⟩, v, d, hvd, hd⟩ := h
  have hfront : (t ++ ['\n']).dropWhile p = t ++ ['\n'] := by
    rw [hcu, List.cons_append, List.dropWhile_cons_of_neg (by simp [hc])]
  have hback : (t ++ ['\n']).reverse.dropWhile p = t.reverse := by
    rw [List.reverse_append, List.reverse_singleton, List.singleton_append,
      List.dropWhile_cons_of_pos hn, hvd, List.reverse_append, List.reverse_singleton,
      List.singleton_append, List.dropWhile_cons_of_neg (by simp [hd])]
  rw [trim, hfront, hback, List.reverse_reverse]

theorem flatten_lines : ∀ ls : List Text, ls ≠ [] →
    (ls.map fun l => l ++ ['\n']).flatten = ['\n'].intercalate ls ++ ['\n']
  | [], h => absurd rfl h
  | [l], _ => by simp
  | l :: m :: ls, _ => by
    rw [List.map_cons, List.flatten_cons, flatten_lines (m :: ls) (by simp), List.intercalate_cons_cons]
    simp

theorem splitOnP_congr {p q : Char → Bool} : ∀ {t : Text}, (∀ c ∈ t, p c = q c) →
    t.splitOnP p = t.splitOnP q
  | [], _ => by simp [List.splitOnP_nil]
  | c :: t, h => by
    rw [List.splitOnP_cons_eq_if_modifyHead, List.splitOnP_cons_eq_if_modifyHead,
      splitOnP_congr fun d hd => h d (List.mem_cons_of_mem c hd), h c List.mem_cons_self]

theorem replaceCrlf_eq_self : ∀ {t : Text}, '\r' ∉ t → replaceCrlf t = t
  | [], _ => rfl
  | c :: t, h => by
    rw [List.mem_cons, not_or] at h
    have hc : c ≠ '\r' := Ne.symm h.1
    rw [replaceCrlf.eq_2 c t fun u hu => absurd hu hc, replaceCrlf_eq_self h.2]

theorem not_mem_of_solid {t : Text} {c : Char} (h : Solid t) (hc : isStrSpace c = true) : c ∉ t :=
  fun hm => by
    rw [h.2 c hm] at hc
    cases hc

theorem no_break {c : Char} (h : isStrSpace c = false) : isLineBreak c = false := by
  by_contra hb
  rw [Bool.not_eq_false, isLineBreak, decide_eq_true_eq] at hb
  have hspace : isStrSpace (Char.ofNat c.toNat) = true := by
    simp only [List.mem_cons, List.not_mem_nil, or_false] at hb
    rcases hb with h | h | h | h | h | h | h | h | h | h <;> rw [h] <;> decide
  rw [Char.ofNat_toNat, h] at hspace
  cases hspace

theorem no_goSpace {c : Char} (h : isStrSpace c = false) : isGoSpace c = false := by
  rw [isStrSpace, Bool.or_eq_false_iff] at h
  exact h.1

/-- A line of fields: no white space but the tabs. -/
theorem mem_line {fields : List Text} (hf : ∀ t ∈ fields, Solid t) :
    ∀ c ∈ line fields, c = '\t' ∨ isStrSpace c = false := by
  induction fields with
  | nil => simp [line]
  | cons a as ih =>
    intro c hc
    have ha : c ∈ a → c = '\t' ∨ isStrSpace c = false := fun h =>
      .inr ((hf a List.mem_cons_self).2 c h)
    cases as with
    | nil =>
      rw [line, List.intercalate_singleton] at hc
      exact ha hc
    | cons b bs =>
      rw [line, List.intercalate_cons_cons, List.mem_append, List.mem_append, List.mem_singleton] at hc
      rcases hc with (hc | hc) | hc
      · exact ha hc
      · exact .inl hc
      · exact ih (fun t ht => hf t (List.mem_cons_of_mem a ht)) c hc

theorem splitOn_line {fields : List Text} (hne : fields ≠ []) (hf : ∀ t ∈ fields, Solid t) :
    (line fields).splitOn '\t' = fields :=
  List.splitOn_intercalate '\t' (fun t ht => not_mem_of_solid (hf t ht) (by decide)) hne

section Lines
variable {ls : List (List Text)}

theorem trim_output {p : Char → Bool} (hp : ∀ c, isStrSpace c = false → p c = false)
    (hn : p '\n' = true) (hne : ls ≠ []) (hls : ∀ fs ∈ ls, fs ≠ [] ∧ ∀ t ∈ fs, Solid t) :
    trim p (output ls) = ['\n'].intercalate (ls.map line) := by
  rw [output, flatten_lines _ (by simpa using hne)]
  refine trim_line_end (bounded_intercalate _ (by simpa using hne) fun l hl => ?_) hn
  obtain ⟨fs, hfs, rfl⟩ := List.mem_map.mp hl
  exact bounded_intercalate fs (hls fs hfs).1 fun t ht => ((hls fs hfs).2 t ht).bounded hp

theorem mem_lines (hls : ∀ fs ∈ ls, ∀ t ∈ fs, Solid t) :
    ∀ c ∈ ['\n'].intercalate (ls.map line), c = '\n' ∨ c = '\t' ∨ isStrSpace c = false := by
  induction ls with
  | nil => simp
  | cons fs ls ih =>
    have hfs := mem_line (hls fs List.mem_cons_self)
    intro c hc
    cases ls with
    | nil =>
      rw [List.map_singleton, List.intercalate_singleton] at hc
      exact .inr (hfs c hc)
    | cons gs ls =>
      rw [List.map_cons, List.map_cons, List.intercalate_cons_cons, List.mem_append, List.mem_append,
        List.mem_singleton, ← List.map_cons] at hc
      rcases hc with (hc | hc) | hc
      · exact .inr (hfs c hc)
      · exact .inl hc
      · exact ih (fun g hg => hls g (List.mem_cons_of_mem fs hg)) c hc

theorem splitOn_lines (hne : ls ≠ []) (hls : ∀ fs ∈ ls, ∀ t ∈ fs, Solid t) :
    (['\n'].intercalate (ls.map line)).splitOn '\n' = ls.map line := by
  refine List.splitOn_intercalate '\n' (fun l hl hn => ?_) (by simpa using hne)
  obtain ⟨fs, hfs, rfl⟩ := List.mem_map.mp hl
  rcases mem_line (hls fs hfs) '\n' hn with h | h <;> revert h <;> decide

theorem replaceCrlf_lines (hls : ∀ fs ∈ ls, ∀ t ∈ fs, Solid t) :
    replaceCrlf (['\n'].intercalate (ls.map line)) = ['\n'].intercalate (ls.map line) := by
  refine replaceCrlf_eq_self fun hr => ?_
  rcases mem_lines hls '\r' hr with h | h | h <;> revert h <;> decide

theorem splitLines_lines (hne : ls ≠ []) (hls : ∀ fs ∈ ls, fs ≠ [] ∧ ∀ t ∈ fs, Solid t) :
    splitLines (['\n'].intercalate (ls.map line)) = ls.map line := by
  have hsolid : ∀ fs ∈ ls, ∀ t ∈ fs, Solid t := fun fs h => (hls fs h).2
  have hbreak : ∀ c ∈ ['\n'].intercalate (ls.map line), isLineBreak c = (c == '\n') := by
    intro c hc
    rcases mem_lines hsolid c hc with rfl | rfl | h
    · decide
    · decide
    · rw [no_break h, eq_comm, beq_eq_false_iff_ne]
      rintro rfl
      revert h
      decide
  rw [splitLines, replaceCrlf_lines hsolid, splitOnP_congr hbreak, ← List.splitOn_eq_splitOnP,
    splitOn_lines hne hsolid, if_neg]
  intro hlast
  obtain ⟨fs, hfs, hnil⟩ := List.mem_map.mp (List.mem_of_getLast? hlast)
  obtain ⟨⟨c, u, hcu, -⟩, -⟩ := @bounded_intercalate isStrSpace ['\t'] fs
    (hls fs hfs).1 fun t ht => ((hls fs hfs).2 t ht).bounded fun _ h => h
  rw [line, hcu] at hnil
  cases hnil

end Lines

/-! ### The lines of a dump -/

theorem Interface.solid_lines (i : Interface) :
    ∀ fs ∈ i.fields :: i.peers.map Peer.fields, fs ≠ [] ∧ ∀ t ∈ fs, Solid t := by
  intro fs hfs
  rcases List.mem_cons.mp hfs with rfl | hfs
  · exact ⟨by simp [fields], i.solid_fields⟩
  · obtain ⟨p, -, rfl⟩ := List.mem_map.mp hfs
    exact ⟨by simp [Peer.fields], p.solid_fields⟩

theorem Interface.trim_dump (i : Interface) {p : Char → Bool}
    (hp : ∀ c, isStrSpace c = false → p c = false) (hn : p '\n' = true) :
    trim p i.dump = ['\n'].intercalate ((i.fields :: i.peers.map Peer.fields).map line) :=
  trim_output hp hn (by simp) i.solid_lines

/-- What `splitlines` makes of the stripped output. -/
theorem Interface.splitLines_dump (i : Interface) :
    splitLines (trim isStrSpace i.dump) = line i.fields :: i.peers.map fun p => line p.fields := by
  rw [i.trim_dump (fun _ h => h) (by decide), splitLines_lines (by simp) i.solid_lines]
  simp

/-- What `strings.Split` makes of it. -/
theorem Interface.splitOn_dump (i : Interface) :
    (replaceCrlf (trim isGoSpace i.dump)).splitOn '\n' =
      line i.fields :: i.peers.map fun p => line p.fields := by
  have hsolid : ∀ fs ∈ i.fields :: i.peers.map Peer.fields, ∀ t ∈ fs, Solid t := fun fs h =>
    (i.solid_lines fs h).2
  rw [i.trim_dump (fun _ => no_goSpace) (by decide), replaceCrlf_lines hsolid,
    splitOn_lines (by simp) hsolid]
  simp

theorem Peer.splitOn_line (p : Peer) : (line p.fields).splitOn '\t' = p.fields :=
  Wg.splitOn_line (by simp [fields]) p.solid_fields

end Wg
