import Mathlib
import WireguardP2p.Net.Address
import WireguardP2p.Lib.Numerals

/-! The text of IP addresses, read and printed as `ipaddress` does (Python 3.11). An IPv4 address is
    four decimal octets without leading zeros; an IPv6 address is eight hexadecimal hextets, of which
    the first longest run of at least two zeros is printed as `::`, with an optional `%zone`. The
    main result is the round trip `ipAddress_compressed`: reading the printed text gives the address
    back, for every address. -/

namespace Ipaddress
open Numeral

/-- A decimal octet: one to three ASCII digits, no leading zero, at most 255. -/
def parseOctet (t : Text) : Option ℕ :=
  if t.length ≤ 3 ∧ (t = ['0'] ∨ t.head? ≠ some '0') then (read 10 t).filter (· ≤ 255) else none

/-- `IPv4Address._ip_int_from_string`. -/
def ipv4FromString (t : Text) : Option (Fin (2 ^ 32)) :=
  match t.splitOn '.' with
  | [a, b, c, d] => do
    some (Fin.ofNat (2 ^ 32)
      (ofDigits (2 ^ 8) [← parseOctet a, ← parseOctet b, ← parseOctet c, ← parseOctet d]))
  | _ => none

/-- A hextet: one to four hexadecimal digits. -/
def parseHextet (t : Text) : Option ℕ := if t.length ≤ 4 then read 16 t else none

/-- The hextets before `::`; the text may start with `:` only as part of `::`. -/
def hiParts (first : Text) (before : List Text) : Option (List Text) :=
  if first = [] then (if before = [] then some [] else none) else some (first :: before)

/-- The hextets after `::`; the text may end with `:` only as part of `::`. -/
def loParts (after : List Text) (last : Text) : Option (List Text) :=
  if last = [] then (if after = [] then some [] else none) else some (after ++ [last])

/-- The eight hextets named by the parts between colons. An empty inner part is the `::`; there may
    be one, and it stands for at least one zero hextet. -/
def expand : List Text → Option (List ℕ)
  | [] => none
  | first :: rest =>
    match rest.dropLast.span fun p => decide (p ≠ []) with
    | (_, []) => if rest.length = 7 then (first :: rest).mapM parseHextet else none
    | (before, _ :: after) =>
      if [] ∈ after then none
      else do
        let hi ← hiParts first before
        let lo ← loParts after (rest.getLastD [])
        if hi.length + lo.length < 8 then
          let hs ← hi.mapM parseHextet
          let ls ← lo.mapM parseHextet
          some (hs ++ List.replicate (8 - (hi.length + lo.length)) 0 ++ ls)
        else none

/-- An IPv4 address in the last part stands for two hextets. -/
def ipv4Suffix (parts : List Text) : Option (List Text) :=
  if '.' ∈ parts.getLastD [] then
    (ipv4FromString (parts.getLastD [])).map fun ip =>
      parts.dropLast ++ [text 16 (ip / 2 ^ 16), text 16 (ip % 2 ^ 16)]
  else some parts

/-- `IPv6Address._ip_int_from_string`. -/
def ipv6FromString (t : Text) : Option (Fin (2 ^ 128)) :=
  if (t.splitOn ':').length < 3 then none
  else do
    let parts ← ipv4Suffix (t.splitOn ':')
    if 9 < parts.length then none
    else (expand parts).map fun hs => Fin.ofNat (2 ^ 128) (ofDigits (2 ^ 16) hs)

/-- `_split_scope_id`: `none` when the text is refused. -/
def splitScopeId (t : Text) : Option (Text × Option Scope) :=
  match t.span fun c => decide (c ≠ '%') with
  | (addr, []) => some (addr, none)
  | (addr, _ :: s) =>
    if h : s ≠ [] ∧ '%' ∉ s ∧ '/' ∉ s then some (addr, some ⟨s, h⟩) else none

/-- `IPv6Address(text)`. -/
def ipv6Address (t : Text) : Option IpAddress :=
  if '/' ∈ t then none
  else do
    let (addr, scope) ← splitScopeId t
    some (.v6 (← ipv6FromString addr) scope)

/-- `IPv4Address(text)`. -/
def ipv4Address (t : Text) : Option IpAddress :=
  if '/' ∈ t then none else (ipv4FromString t).map .v4

/-- `ip_address(text)`: an IPv4 address if the text reads as one, else an IPv6 address. -/
def ipAddress (t : Text) : Option IpAddress :=
  match ipv4Address t with
  | some a => some a
  | none => ipv6Address t

/-- The big-endian base `2 ^ w` digits of a number, `k` of them. -/
def toDigitsBE (w k n : ℕ) : List ℕ := (List.range k).map fun i => n / 2 ^ (w * (k - 1 - i)) % 2 ^ w

/-- The loop of `_compress_hextets`: index, best run and current run of zeros (start and length). -/
def longestZeros : List ℕ → ℕ → ℕ × ℕ → ℕ × ℕ → ℕ × ℕ
  | [], _, best, _ => best
  | h :: hs, i, best, cur =>
    if h = 0 then
      let cur := if cur.2 = 0 then (i, 1) else (cur.1, cur.2 + 1)
      longestZeros hs (i + 1) (if best.2 < cur.2 then cur else best) cur
    else longestZeros hs (i + 1) best (0, 0)

/-- `_compress_hextets`: the longest run of at least two zero hextets becomes one empty part, next to
    an empty part of its own at either end of the address. -/
def compressHextets (hs : List ℕ) : List Text :=
  let (start, len) := longestZeros hs 0 (0, 0) (0, 0)
  if 1 < len then
    let hi := (hs.take start).map (text 16)
    let lo := (hs.drop (start + len)).map (text 16)
    (if start = 0 then [[]] else hi) ++ [[]] ++ (if start + len = hs.length then [[]] else lo)
  else hs.map (text 16)

/-- `str(IPv4Address)`. -/
def ipv4Text (ip : ℕ) : Text := ['.'].intercalate ((toDigitsBE 8 4 ip).map (text 10))

/-- `str(IPv6Address)` before the zone. -/
def ipv6Text (ip : ℕ) : Text := [':'].intercalate (compressHextets (toDigitsBE 16 8 ip))

/-- `address.compressed`. -/
def IpAddress.compressed : IpAddress → Text
  | .v4 ip => ipv4Text ip
  | .v6 ip none => ipv6Text ip
  | .v6 ip (some s) => ipv6Text ip ++ '%' :: s.1

/-! ### Reading back printed digits -/

theorem parseOctet_text {d : ℕ} (h : d < 256) : parseOctet (text 10 d) = some d := by
  have hlen : (text 10 d).length ≤ 3 := (length_text_le (by norm_num) (by norm_num)).mpr (by omega)
  have hzero : text 10 d = ['0'] ∨ (text 10 d).head? ≠ some '0' := by
    rcases Nat.eq_zero_or_pos d with rfl | hd
    · exact Or.inl rfl
    · exact Or.inr (head_text (by norm_num) (by norm_num) hd)
  rw [parseOctet, if_pos ⟨hlen, hzero⟩, read_text (by norm_num) (by norm_num)]
  simp only [Option.filter_some, decide_eq_true_eq]
  rw [if_pos (by omega)]

theorem parseHextet_text {d : ℕ} (h : d < 65536) : parseHextet (text 16 d) = some d := by
  have hlen : (text 16 d).length ≤ 4 := (length_text_le (by norm_num) (by norm_num)).mpr (by omega)
  rw [parseHextet, if_pos hlen, read_text (by norm_num) (by norm_num)]

theorem mapM_parseHextet : ∀ {hs : List ℕ}, (∀ h ∈ hs, h < 65536) →
    (hs.map (text 16)).mapM parseHextet = some hs
  | [], _ => rfl
  | h :: hs, hlt => by
      rw [List.map_cons, List.mapM_cons, parseHextet_text (hlt h (by simp)),
        mapM_parseHextet fun k hk => hlt k (List.mem_cons_of_mem _ hk)]
      rfl

theorem toDigitsBE_succ (w k n : ℕ) :
    toDigitsBE w (k + 1) n = n / 2 ^ (w * k) % 2 ^ w :: toDigitsBE w k n := by
  simp only [toDigitsBE, List.range_succ_eq_map, List.map_cons, List.map_map, Nat.add_sub_cancel,
    Nat.sub_zero, List.cons.injEq, true_and]
  refine List.map_congr_left fun i _ => ?_
  rw [Function.comp_apply, show k - (i + 1) = k - 1 - i by omega]

/-- Reading big-endian digits on from `acc`. -/
theorem foldl_toDigitsBE (w n : ℕ) : ∀ k acc : ℕ,
    (toDigitsBE w k n).foldl (fun acc d => acc * 2 ^ w + d) acc =
      acc * 2 ^ (w * k) + n % 2 ^ (w * k)
  | 0, acc => by simp [toDigitsBE, Nat.mod_one]
  | k + 1, acc => by
      rw [toDigitsBE_succ, List.foldl_cons, foldl_toDigitsBE w n k, Nat.mul_succ, pow_add,
        Nat.mod_mul]
      ring

theorem ofDigits_toDigitsBE {w k n : ℕ} (h : n < 2 ^ (w * k)) :
    ofDigits (2 ^ w) (toDigitsBE w k n) = n := by
  rw [ofDigits, foldl_toDigitsBE, Nat.zero_mul, Nat.zero_add, Nat.mod_eq_of_lt h]

theorem lt_of_mem_toDigitsBE {w k n d : ℕ} (h : d ∈ toDigitsBE w k n) : d < 2 ^ w := by
  obtain ⟨i, -, rfl⟩ := List.mem_map.mp h
  exact Nat.mod_lt _ (Nat.two_pow_pos w)

/-! ### IPv4 -/

theorem not_mem_intercalate {c sep : Char} (hne : c ≠ sep) : ∀ {ls : List Text},
    (∀ l ∈ ls, c ∉ l) → c ∉ [sep].intercalate ls
  | [], _ => by simp
  | [l], h => by simpa using h l (by simp)
  | l :: k :: ls, h => by
      have hrec : c ∉ [sep].intercalate (k :: ls) :=
        not_mem_intercalate hne fun m hm => h m (List.mem_cons_of_mem _ hm)
      rw [List.intercalate_cons_cons, List.mem_append, List.mem_append, List.mem_singleton]
      rintro ((hl | hs) | hr)
      · exact h l (by simp) hl
      · exact hne hs
      · exact hrec hr

theorem not_mem_ipv4Text {c : Char} (hc : digitVal c = none) (hdot : c ≠ '.') (ip : ℕ) :
    c ∉ ipv4Text ip := by
  refine not_mem_intercalate hdot fun l hl => ?_
  obtain ⟨d, -, rfl⟩ := List.mem_map.mp hl
  exact not_mem_text (by norm_num) (by norm_num) d hc

theorem ipv4FromString_text (ip : Fin (2 ^ 32)) : ipv4FromString (ipv4Text ip) = some ip := by
  have hdots : ∀ l ∈ (toDigitsBE 8 4 ip).map (text 10), '.' ∉ l := by
    intro l hl
    obtain ⟨d, -, rfl⟩ := List.mem_map.mp hl
    exact not_mem_text (by norm_num) (by norm_num) d rfl
  have hsplit : (ipv4Text ip).splitOn '.' = (toDigitsBE 8 4 ip).map (text 10) :=
    List.splitOn_intercalate '.' hdots (by simp [toDigitsBE])
  have hread : ∀ d ∈ toDigitsBE 8 4 ip, parseOctet (text 10 d) = some d := fun d hd =>
    parseOctet_text (lt_of_mem_toDigitsBE hd)
  have hval := ofDigits_toDigitsBE (w := 8) (k := 4) ip.2
  rw [ipv4FromString, hsplit]
  simp only [toDigitsBE, List.range, List.range.loop, List.map_cons, List.map_nil] at hread hval ⊢
  simp only [List.mem_cons, forall_eq_or_imp] at hread
  simp only [hread, Option.bind_eq_bind, Option.bind_some]
  rw [hval, Fin.ofNat_val_eq_self]

/-! ### The longest run of zeros -/

/-- The run `r` (start and length) of `hs` is all zeros. -/
def ZeroRun (hs : List ℕ) (r : ℕ × ℕ) : Prop := ∀ j, r.1 ≤ j → j < r.1 + r.2 → hs[j]? = some 0

/-- The loop keeps a zero run as its best; the current run is one that ends at the index. -/
theorem longestZeros_spec (full : List ℕ) : ∀ (hs : List ℕ) (i : ℕ) (best cur : ℕ × ℕ),
    full.drop i = hs → ZeroRun full best → ZeroRun full cur → (cur.2 = 0 ∨ cur.1 + cur.2 = i) →
    ZeroRun full (longestZeros hs i best cur)
  | [], _, _, _, _, hbest, _, _ => hbest
  | h :: hs, i, best, cur, hdrop, hbest, hcur, hend => by
      have hi : full[i]? = some h := by
        have := congrArg List.head? hdrop
        simpa [List.head?_drop] using this
      have hdrop' : full.drop (i + 1) = hs := by
        rw [← List.drop_drop, hdrop, List.drop_one, List.tail_cons]
      rw [longestZeros]
      by_cases h0 : h = 0
      · rw [if_pos h0]
        set cur' : ℕ × ℕ := if cur.2 = 0 then (i, 1) else (cur.1, cur.2 + 1) with hcur'
        have hrun : ZeroRun full cur' := by
          intro j hj hj'
          by_cases hc : cur.2 = 0
          · simp only [hcur', if_pos hc] at hj hj'
            rw [show j = i by omega, hi, h0]
          · simp only [hcur', if_neg hc] at hj hj'
            rcases Nat.lt_or_ge j (cur.1 + cur.2) with hlt | hge
            · exact hcur j hj hlt
            · rw [show j = i by omega, hi, h0]
        have hend' : cur'.2 = 0 ∨ cur'.1 + cur'.2 = i + 1 := by
          by_cases hc : cur.2 = 0
          · simp [hcur', hc]
          · simp only [hcur', if_neg hc]; omega
        refine longestZeros_spec full hs (i + 1) _ cur' hdrop' ?_ hrun hend'
        split
        · exact hrun
        · exact hbest
      · rw [if_neg h0]
        exact longestZeros_spec full hs (i + 1) best (0, 0) hdrop' hbest
          (fun j _ hj => by simp at hj) (Or.inl rfl)

/-- A nonempty zero run splits the list around its zeros. -/
theorem ZeroRun.split {hs : List ℕ} {s l : ℕ} (h : ZeroRun hs (s, l)) (hl : 0 < l) :
    s + l ≤ hs.length ∧ hs = hs.take s ++ List.replicate l 0 ++ hs.drop (s + l) := by
  have hlast := h (s + l - 1) (by simp only; omega) (by simp only; omega)
  have hle : s + l ≤ hs.length := by
    obtain ⟨hlt, -⟩ := List.getElem?_eq_some_iff.mp hlast
    omega
  have hmid : (hs.drop s).take l = List.replicate l 0 := by
    refine List.eq_replicate_iff.mpr ⟨by simp; omega, fun x hx => ?_⟩
    obtain ⟨k, hk⟩ := List.getElem?_of_mem hx
    obtain ⟨hlt, -⟩ := List.getElem?_eq_some_iff.mp hk
    have hkl : k < l := by simp at hlt; omega
    rw [List.getElem?_take_of_lt hkl, List.getElem?_drop, h (s + k) (by simp only; omega)
      (by simp only; omega), Option.some.injEq] at hk
    exact hk.symm
  refine ⟨hle, ?_⟩
  rw [← hmid, ← List.drop_drop, List.append_assoc, List.take_append_drop, List.take_append_drop]

/-! ### IPv6 -/

theorem parts_ne_nil {hs : List ℕ} {p : Text} (hp : p ∈ hs.map (text 16)) : p ≠ [] := by
  obtain ⟨h, -, rfl⟩ := List.mem_map.mp hp
  exact text_ne_nil 16 h

/-- Nonempty parts are passed over up to the first empty one. -/
theorem span_parts {ps tail : List Text} (hps : ∀ p ∈ ps, p ≠ []) (htail : ∀ p ∈ tail.head?, p = []) :
    ((ps ++ tail).span fun p => decide (p ≠ [])) = (ps, tail) := by
  rw [List.span_eq_takeWhile_dropWhile, List.takeWhile_append_of_pos (by simpa using hps),
    List.dropWhile_append_of_pos (by simpa using hps)]
  cases tail with
  | nil => simp
  | cons t ts =>
    have ht : t = [] := htail t rfl
    simp [ht]

/-- Without `::` the parts are the hextets themselves. -/
theorem expand_full {hs : List ℕ} (hlen : hs.length = 8) (hlt : ∀ h ∈ hs, h < 65536) :
    expand (hs.map (text 16)) = some hs := by
  match hs, hlen with
  | h :: hs, hlen =>
    have hspan : ((hs.map (text 16)).dropLast.span fun p => decide (p ≠ [])) =
        ((hs.map (text 16)).dropLast, []) := by
      have h : (((hs.map (text 16)).dropLast ++ []).span fun p => decide (p ≠ [])) =
          ((hs.map (text 16)).dropLast, []) :=
        span_parts (fun p hp => parts_ne_nil (List.dropLast_subset _ hp)) (by simp)
      rwa [List.append_nil] at h
    rw [List.map_cons, expand, hspan]
    simp only
    rw [if_pos (by simpa using hlen), ← List.map_cons, mapM_parseHextet hlt]

/-- With `::` between the hextets `hi` and `lo`. -/
theorem expand_compressed {hi lo : List ℕ} (hlen : hi.length + lo.length < 8)
    (hhi : ∀ h ∈ hi, h < 65536) (hlo : ∀ h ∈ lo, h < 65536) :
    expand ((if hi = [] then [[]] else hi.map (text 16)) ++ [[]] ++
        (if lo = [] then [[]] else lo.map (text 16))) =
      some (hi ++ List.replicate (8 - (hi.length + lo.length)) 0 ++ lo) := by
  set L : List Text := if lo = [] then [[]] else lo.map (text 16) with hL
  have hLne : L ≠ [] := by
    by_cases h : lo = [] <;> simp [hL, h]
  have hafter : [] ∉ L.dropLast := by
    by_cases h : lo = []
    · simp [hL, h]
    · rw [hL, if_neg h]
      exact fun hm => parts_ne_nil (List.dropLast_subset _ hm) rfl
  have hlast : loParts L.dropLast (L.getLastD []) = some (lo.map (text 16)) := by
    by_cases h : lo = []
    · simp [hL, h, loParts]
    · have hne : lo.map (text 16) ≠ [] := by simpa using h
      have hmem := List.getLast_mem hne
      rw [hL, if_neg h, List.getLastD_eq_getLast?, List.getLast?_eq_some_getLast hne,
        Option.getD_some, loParts, if_neg (parts_ne_nil hmem), List.dropLast_append_getLast hne]
  -- the first part and the parts before `::`
  obtain ⟨first, before, hparts, hfirst, hbefore⟩ : ∃ first before,
      (if hi = [] then [[]] else hi.map (text 16)) = first :: before ∧
      hiParts first before = some (hi.map (text 16)) ∧ ∀ p ∈ before, p ≠ [] := by
    cases hi with
    | nil => exact ⟨[], [], rfl, rfl, by simp⟩
    | cons h hs =>
      refine ⟨text 16 h, hs.map (text 16), by simp, ?_, fun p hp => parts_ne_nil hp⟩
      rw [hiParts, if_neg (text_ne_nil 16 h), List.map_cons]
  have hdrop : (before ++ [[]] ++ L).dropLast = before ++ [] :: L.dropLast := by
    rw [List.dropLast_append_of_ne_nil hLne, List.append_assoc, List.singleton_append]
  have hgetLast : (before ++ [[]] ++ L).getLastD [] = L.getLastD [] := by
    rw [List.getLastD_eq_getLast?, List.getLast?_append_of_ne_nil _ hLne,
      List.getLastD_eq_getLast?]
  rw [hparts, List.cons_append, List.cons_append, expand, hdrop, span_parts hbefore (by simp)]
  simp only
  rw [if_neg hafter, hgetLast, hlast, hfirst]
  simp only [Option.bind_eq_bind, Option.bind_some, List.length_map, if_pos hlen,
    mapM_parseHextet hhi, mapM_parseHextet hlo]

/-- What `compressHextets` prints: the hextets, or the hextets around a run of zeros. -/
theorem compressHextets_cases {hs : List ℕ} (hlen : hs.length = 8) :
    compressHextets hs = hs.map (text 16) ∨
    ∃ hi lo : List ℕ, hi.length + lo.length < 7 ∧
      hs = hi ++ List.replicate (8 - (hi.length + lo.length)) 0 ++ lo ∧
      compressHextets hs = (if hi = [] then [[]] else hi.map (text 16)) ++ [[]] ++
        (if lo = [] then [[]] else lo.map (text 16)) := by
  have hrun : ZeroRun hs (longestZeros hs 0 (0, 0) (0, 0)) :=
    longestZeros_spec hs hs 0 (0, 0) (0, 0) rfl (fun j _ hj => by simp at hj)
      (fun j _ hj => by simp at hj) (Or.inl rfl)
  unfold compressHextets
  generalize longestZeros hs 0 (0, 0) (0, 0) = r at hrun ⊢
  obtain ⟨start, len⟩ := r
  by_cases h : 1 < len
  · obtain ⟨hle, hsplit⟩ := hrun.split (by omega)
    have hzeros : 8 - ((hs.take start).length + (hs.drop (start + len)).length) = len := by
      simp; omega
    refine Or.inr ⟨hs.take start, hs.drop (start + len), by simp; omega, by rw [hzeros]; exact hsplit, ?_⟩
    have hhi : hs.take start = [] ↔ start = 0 := by
      rw [← List.length_eq_zero_iff, List.length_take]; omega
    have hlo : hs.drop (start + len) = [] ↔ start + len = hs.length := by
      rw [List.drop_eq_nil_iff]; omega
    simp only [if_pos h, hhi, hlo]
  · exact Or.inl (by simp only [if_neg h])

theorem expand_compressHextets {hs : List ℕ} (hlen : hs.length = 8) (hlt : ∀ h ∈ hs, h < 65536) :
    expand (compressHextets hs) = some hs := by
  rcases compressHextets_cases hlen with h | ⟨hi, lo, hshort, hsplit, h⟩
  · rw [h, expand_full hlen hlt]
  · have hmem : ∀ x, x ∈ hi ∨ x ∈ lo → x < 65536 := fun x hx => hlt x (by
      rw [hsplit]; rcases hx with hx | hx <;> simp [hx])
    rw [h, expand_compressed (by omega) (fun x hx => hmem x (Or.inl hx))
      (fun x hx => hmem x (Or.inr hx)), ← hsplit]

/-- Printed parts are empty or hexadecimal, so they hold no separator. -/
theorem not_mem_compressHextets {hs : List ℕ} (hlen : hs.length = 8) {c : Char}
    (hc : digitVal c = none) : ∀ p ∈ compressHextets hs, c ∉ p := by
  have hmap : ∀ l : List ℕ, ∀ p ∈ l.map (text 16), c ∉ p := by
    intro l p hp
    obtain ⟨d, -, rfl⟩ := List.mem_map.mp hp
    exact not_mem_text (by norm_num) (by norm_num) d hc
  have hopt : ∀ l : List ℕ, ∀ p ∈ (if l = [] then [[]] else l.map (text 16)), c ∉ p := by
    intro l p hp
    split at hp
    · rw [List.mem_singleton.mp hp]; simp
    · exact hmap l p hp
  intro p hp
  rcases compressHextets_cases hlen with h | ⟨hi, lo, -, -, h⟩
  · rw [h] at hp
    exact hmap hs p hp
  · rw [h, List.mem_append, List.mem_append, List.mem_singleton] at hp
    rcases hp with (hp | hp) | hp
    · exact hopt hi p hp
    · rw [hp]; simp
    · exact hopt lo p hp

theorem length_compressHextets {hs : List ℕ} (hlen : hs.length = 8) :
    3 ≤ (compressHextets hs).length ∧ (compressHextets hs).length ≤ 9 := by
  have hopt : ∀ l : List ℕ, 1 ≤ (if l = [] then [[]] else l.map (text 16)).length ∧
      (if l = [] then [[]] else l.map (text 16)).length ≤ l.length + 1 := by
    intro l
    cases l <;> simp
  rcases compressHextets_cases hlen with h | ⟨hi, lo, hshort, -, h⟩
  · rw [h, List.length_map]; omega
  · have hhi := hopt hi
    have hlo := hopt lo
    rw [h, List.length_append, List.length_append, List.length_singleton]; omega

theorem ipv6FromString_text (ip : Fin (2 ^ 128)) : ipv6FromString (ipv6Text ip) = some ip := by
  have hlen : (toDigitsBE 16 8 ip).length = 8 := by simp [toDigitsBE]
  have hparts := length_compressHextets hlen
  have hsplit : (ipv6Text ip).splitOn ':' = compressHextets (toDigitsBE 16 8 ip) :=
    List.splitOn_intercalate ':' (not_mem_compressHextets hlen rfl)
      (List.ne_nil_of_length_pos (by omega))
  have hsuffix : ipv4Suffix (compressHextets (toDigitsBE 16 8 ip)) =
      some (compressHextets (toDigitsBE 16 8 ip)) := by
    have hne : compressHextets (toDigitsBE 16 8 ip) ≠ [] := List.ne_nil_of_length_pos (by omega)
    rw [ipv4Suffix, List.getLastD_eq_getLast?, List.getLast?_eq_some_getLast hne, Option.getD_some,
      if_neg (not_mem_compressHextets hlen rfl _ (List.getLast_mem hne))]
  rw [ipv6FromString, hsplit, if_neg (by omega), hsuffix]
  simp only [Option.bind_eq_bind, Option.bind_some]
  rw [if_neg (by omega), expand_compressHextets hlen fun h hh => lt_of_mem_toDigitsBE hh,
    Option.map_some, ofDigits_toDigitsBE (w := 16) (k := 8) ip.2, Fin.ofNat_val_eq_self]

theorem not_mem_ipv6Text {c : Char} (hc : digitVal c = none) (hcolon : c ≠ ':') (ip : ℕ) :
    c ∉ ipv6Text ip :=
  not_mem_intercalate hcolon (not_mem_compressHextets (by simp [toDigitsBE]) hc)

/-- An IPv6 text holds a colon. -/
theorem colon_mem_ipv6Text (ip : ℕ) : ':' ∈ ipv6Text ip := by
  have hlen : (toDigitsBE 16 8 ip).length = 8 := by simp [toDigitsBE]
  have h := (length_compressHextets hlen).1
  unfold ipv6Text
  match compressHextets (toDigitsBE 16 8 ip), h with
  | p :: q :: ps, _ =>
    rw [List.intercalate_cons_cons]
    simp

/-- A text with a colon is no IPv4 address. -/
theorem ipv4FromString_colon {t : Text} (h : ':' ∈ t) : ipv4FromString t = none := by
  have hread : ∀ {p : Text}, ':' ∈ p → parseOctet p = none := by
    intro p hp
    have hfrom : ∀ (q : Text) (acc : ℕ), ':' ∈ q → readFrom 10 acc q = none := by
      intro q
      induction q with
      | nil => simp
      | cons c cs ih =>
        intro acc hq
        rw [readFrom]
        rcases List.mem_cons.mp hq with rfl | hcs
        · rfl
        · cases digitIn 10 c with
          | none => rfl
          | some d => exact ih _ hcs
    unfold parseOctet Numeral.read
    split
    · rw [if_neg (List.ne_nil_of_mem hp), hfrom p 0 hp]; rfl
    · rfl
  have hjoin : ['.'].intercalate (t.splitOn '.') = t := List.intercalate_splitOn '.'
  rw [ipv4FromString]
  split
  · rename_i a b c d heq
    have hmem : ':' ∈ a ∨ ':' ∈ b ∨ ':' ∈ c ∨ ':' ∈ d := by
      by_contra hno
      push Not at hno
      rw [← hjoin, heq] at h
      exact not_mem_intercalate (by decide) (by simpa using hno) h
    rcases hmem with hm | hm | hm | hm <;> simp [hread hm]
  · rfl

/-- A text without `%` is passed over up to the first `%` after it. -/
theorem span_percent {t tail : Text} (ht : '%' ∉ t) (htail : ∀ c ∈ tail.head?, c = '%') :
    ((t ++ tail).span fun c => decide (c ≠ '%')) = (t, tail) := by
  have hpos : ∀ c ∈ t, decide (c ≠ '%') = true := fun c hc => by
    simpa using fun h : c = '%' => ht (h ▸ hc)
  rw [List.span_eq_takeWhile_dropWhile, List.takeWhile_append_of_pos hpos,
    List.dropWhile_append_of_pos hpos]
  cases tail with
  | nil => simp
  | cons c cs =>
    have hc : c = '%' := htail c rfl
    simp [hc]

theorem splitScopeId_text {t : Text} (ht : '%' ∉ t) (s : Scope) :
    splitScopeId (t ++ '%' :: s.1) = some (t, some s) := by
  rw [splitScopeId, span_percent ht (by simp)]
  simp [s.2]

theorem splitScopeId_none {t : Text} (ht : '%' ∉ t) : splitScopeId t = some (t, none) := by
  have h : ((t ++ []).span fun c => decide (c ≠ '%')) = (t, []) := span_percent ht (by simp)
  rw [List.append_nil] at h
  rw [splitScopeId, h]

/-- Round trip: `ip_address(a.compressed) == a`. -/
theorem ipAddress_compressed (a : IpAddress) : ipAddress a.compressed = some a := by
  cases a with
  | v4 ip =>
    rw [ipAddress, IpAddress.compressed, ipv4Address, if_neg (not_mem_ipv4Text rfl (by decide) ip),
      ipv4FromString_text]
    rfl
  | v6 ip scope =>
    have hpct : '%' ∉ ipv6Text ip := not_mem_ipv6Text rfl (by decide) ip
    have hslash : '/' ∉ ipv6Text ip := not_mem_ipv6Text rfl (by decide) ip
    cases scope with
    | none =>
      rw [ipAddress, IpAddress.compressed, ipv4Address, if_neg hslash,
        ipv4FromString_colon (colon_mem_ipv6Text ip), Option.map_none]
      simp only [ipv6Address, if_neg hslash, splitScopeId_none hpct, ipv6FromString_text,
        Option.bind_eq_bind, Option.bind_some]
    | some s =>
      have hslash' : '/' ∉ ipv6Text ip ++ '%' :: s.1 := by simp [hslash, s.2]
      have hcolon : ':' ∈ ipv6Text ip ++ '%' :: s.1 :=
        List.mem_append_left _ (colon_mem_ipv6Text ip)
      rw [ipAddress, IpAddress.compressed, ipv4Address, if_neg hslash',
        ipv4FromString_colon hcolon, Option.map_none]
      simp only [ipv6Address, if_neg hslash', splitScopeId_text hpct, ipv6FromString_text,
        Option.bind_eq_bind, Option.bind_some]

theorem compressed_ne_nil (a : IpAddress) : a.compressed ≠ [] := by
  intro h
  have hread := ipAddress_compressed a
  rw [h, show ipAddress [] = none from rfl] at hread
  cases hread

/-! ### Characters of a text that reads as an IPv6 address -/

theorem splitOn_of_notMem {c : Char} {t : Text} (h : c ∉ t) : t.splitOn c = [t] := by
  have hjoin : ([c].intercalate [t]).splitOn c = [t] :=
    List.splitOn_intercalate c (by simpa using h) (by simp)
  rwa [List.intercalate_singleton] at hjoin

theorem colon_of_ipv6FromString {t : Text} {ip : Fin (2 ^ 128)} (h : ipv6FromString t = some ip) :
    ':' ∈ t := by
  by_contra hno
  rw [ipv6FromString, splitOn_of_notMem hno] at h
  simp at h

theorem splitScopeId_subset {t addr : Text} {scope : Option Scope}
    (h : splitScopeId t = some (addr, scope)) :
    (∀ c ∈ addr, c ∈ t) ∧ ∀ z ∈ scope, ∀ c ∈ z.1, c ∈ t := by
  rw [splitScopeId, List.span_eq_takeWhile_dropWhile] at h
  have htake : ∀ c ∈ t.takeWhile (fun c => decide (c ≠ '%')), c ∈ t := fun c hc =>
    (List.takeWhile_sublist _).subset hc
  have hdrop : ∀ c ∈ t.dropWhile (fun c => decide (c ≠ '%')), c ∈ t := fun c hc =>
    (List.dropWhile_sublist _).subset hc
  generalize t.takeWhile (fun c => decide (c ≠ '%')) = before at h htake
  generalize t.dropWhile (fun c => decide (c ≠ '%')) = after at h hdrop
  cases after with
  | nil =>
    simp only [Option.some.injEq, Prod.mk.injEq] at h
    obtain ⟨rfl, rfl⟩ := h
    exact ⟨htake, by simp⟩
  | cons c zone =>
    by_cases hzone : zone ≠ [] ∧ '%' ∉ zone ∧ '/' ∉ zone
    · simp only [dif_pos hzone, Option.some.injEq, Prod.mk.injEq] at h
      obtain ⟨rfl, rfl⟩ := h
      refine ⟨htake, ?_⟩
      rintro z hz d hd
      rw [Option.mem_some_iff] at hz
      subst hz
      exact hdrop d (List.mem_cons_of_mem c hd)
    · simp [dif_neg hzone] at h

/-- An IPv6 address has a colon, and its zone is part of its text. -/
theorem mem_of_ipAddress_v6 {t : Text} {ip : Fin (2 ^ 128)} {scope : Option Scope}
    (h : ipAddress t = some (.v6 ip scope)) : ':' ∈ t ∧ ∀ z ∈ scope, ∀ c ∈ z.1, c ∈ t := by
  have h6 : ipv6Address t = some (.v6 ip scope) := by
    rw [ipAddress, ipv4Address] at h
    split at h
    · rename_i a h4
      split at h4
      · cases h4
      · obtain ⟨ip4, -, rfl⟩ := Option.map_eq_some_iff.mp h4
        cases h
    · exact h
  rw [ipv6Address] at h6
  split at h6
  · cases h6
  · obtain ⟨⟨addr, zone⟩, hsplit, h6⟩ := Option.bind_eq_some_iff.mp h6
    obtain ⟨ip', hip, h6⟩ := Option.bind_eq_some_iff.mp h6
    simp only [Option.some.injEq, IpAddress.v6.injEq] at h6
    obtain ⟨rfl, rfl⟩ := h6
    obtain ⟨haddr, hzone⟩ := splitScopeId_subset hsplit
    exact ⟨haddr _ (colon_of_ipv6FromString hip), hzone⟩

end Ipaddress
