import WireguardP2p.Python.Uuid

/-! What `str(uuid)` prints: lower case, and another text for another UUID. -/

namespace Python

theorem readFrom_zeros : ∀ (n : ℕ) (t : Ipaddress.Text),
    Numeral.readFrom 16 0 (List.replicate n '0' ++ t) = Numeral.readFrom 16 0 t
  | 0, t => rfl
  | n + 1, t => by
      rw [List.replicate_succ, List.cons_append, Numeral.readFrom]
      exact readFrom_zeros n t

/-- The digits read back. -/
theorem readFrom_uuidHex (u : Fin (2 ^ 128)) : Numeral.readFrom 16 0 (uuidHex u) = some u.val := by
  unfold uuidHex
  rw [readFrom_zeros, Numeral.readFrom_text (by norm_num) (by norm_num)]

theorem uuidHex_injective {u v : Fin (2 ^ 128)} (h : uuidHex u = uuidHex v) : u = v := by
  have hread := readFrom_uuidHex u
  rw [h, readFrom_uuidHex] at hread
  exact Fin.ext (Option.some.inj hread).symm

/-- Without the dashes the text is the digits. -/
theorem digits_uuidText (u : Fin (2 ^ 128)) : (uuidText u).filter (· ≠ '-') = uuidHex u := by
  have hkeep : ∀ t : Ipaddress.Text, (∀ c ∈ t, c ∈ uuidHex u) → t.filter (· ≠ '-') = t := by
    intro t ht
    refine List.filter_eq_self.mpr fun c hc => decide_eq_true ?_
    rintro rfl
    have hmem := ht _ hc
    unfold uuidHex at hmem
    rcases List.mem_append.mp hmem with h | h
    · exact absurd (List.eq_of_mem_replicate h) (by decide)
    · exact Numeral.not_mem_text (by norm_num) (by norm_num) _ (by decide) h
  have hpart (k n : ℕ) : (((uuidHex u).drop k).take n).filter (· ≠ '-') = ((uuidHex u).drop k).take n :=
    hkeep _ fun c hc => List.mem_of_mem_drop (List.mem_of_mem_take hc)
  have hfirst := hpart 0 8
  have hlast : ((uuidHex u).drop 20).filter (· ≠ '-') = (uuidHex u).drop 20 :=
    hkeep _ fun c hc => List.mem_of_mem_drop hc
  have hjoin : uuidHex u = ((uuidHex u).take 8 ++ ((uuidHex u).drop 8).take 4 ++ ((uuidHex u).drop 12).take 4 ++
      ((uuidHex u).drop 16).take 4 ++ (uuidHex u).drop 20) := by
    have hstep (k n : ℕ) : (uuidHex u).take k ++ ((uuidHex u).drop k).take n = (uuidHex u).take (k + n) :=
      (List.take_add ..).symm
    rw [hstep, hstep, hstep, List.take_append_drop]
  unfold uuidText
  simp only [List.filter_append, List.filter_cons, hpart, hlast, List.drop_zero] at hfirst ⊢
  rw [hfirst]
  conv_rhs => rw [hjoin]
  simp

theorem uuidText_injective {u v : Fin (2 ^ 128)} (h : uuidText u = uuidText v) : u = v := by
  have hdigits := digits_uuidText u
  rw [h, digits_uuidText] at hdigits
  exact uuidHex_injective hdigits.symm

theorem toLower_digitChar {d : ℕ} (h : d < 16) : d.digitChar.toLower = d.digitChar := by
  interval_cases d <;> rfl

/-- `str(uuid).lower()` is `str(uuid)`. -/
theorem toLower_uuidText (u : Fin (2 ^ 128)) : (uuidText u).map Char.toLower = uuidText u := by
  have hchar : ∀ c ∈ uuidHex u, c.toLower = c := by
    intro c hc
    unfold uuidHex at hc
    rcases List.mem_append.mp hc with h | h
    · rw [List.eq_of_mem_replicate h]
      rfl
    · obtain ⟨d, hd, rfl, -⟩ := Numeral.digitIn_of_mem_text (by norm_num) (by norm_num) _ c h
      exact toLower_digitChar hd
  have hkeep (t : Ipaddress.Text) (ht : ∀ c ∈ t, c ∈ uuidHex u) : t.map Char.toLower = t := by
    induction t with
    | nil => rfl
    | cons c t ih =>
      rw [List.map_cons, hchar c (ht c List.mem_cons_self), ih fun d hd => ht d (List.mem_cons_of_mem c hd)]
  have hpart (k n : ℕ) : (((uuidHex u).drop k).take n).map Char.toLower = ((uuidHex u).drop k).take n :=
    hkeep _ fun c hc => List.mem_of_mem_drop (List.mem_of_mem_take hc)
  have hfirst : ((uuidHex u).take 8).map Char.toLower = (uuidHex u).take 8 :=
    hkeep _ fun c hc => List.mem_of_mem_take hc
  have hlast : ((uuidHex u).drop 20).map Char.toLower = (uuidHex u).drop 20 :=
    hkeep _ fun c hc => List.mem_of_mem_drop hc
  have hdash : Char.toLower '-' = '-' := rfl
  unfold uuidText
  simp only [List.map_append, List.map_cons, hpart, hfirst, hlast, hdash]

end Python
