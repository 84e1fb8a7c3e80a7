import WireguardP2p.Lib.FileTree

/-! The lexical functions of Go's `path/filepath` on Unix: `Clean`, `Join`, `Dir`, `Rel`. A cleaned path is
    a rooted or unrooted list of names, with `..` in front only, and only where it is unrooted. -/

namespace Filepath
open FileTree

/-- `..` on the stack of the names so far, the latest first. -/
def goUp (rooted : Bool) : List Name → List Name
  | [] => if rooted then [] else [up]
  | top :: rest => if top = up then up :: top :: rest else rest

/-- One name more on the stack. -/
def cleanStep (rooted : Bool) (stack : List Name) (n : Name) : List Name :=
  if n = [] ∨ n = ['.'] then stack
  else if n = up then goUp rooted stack
  else n :: stack

def cleanParts (rooted : Bool) (names : List Name) : List Name := (names.foldl (cleanStep rooted) []).reverse

/-- The text of a cleaned path. -/
def render (rooted : Bool) (names : List Name) : List Char :=
  if rooted then '/' :: ['/'].intercalate names
  else if names = [] then ['.'] else ['/'].intercalate names

/-- `Clean`. -/
def clean (path : List Char) : List Char := render (isAbs path) (cleanParts (isAbs path) (path.splitOn '/'))

/-- `Join` of two elements; empty ones are ignored. -/
def join (a b : List Char) : List Char :=
  if a = [] then if b = [] then [] else clean b
  else if b = [] then clean a else clean (a ++ '/' :: b)

/-- `Dir`: all but the last element, cleaned. -/
def dir (path : List Char) : List Char :=
  render (isAbs path) (cleanParts (isAbs path) (path.splitOn '/').dropLast)

/-- The names that lead from one list of names to another. -/
def relParts : List Name → List Name → Option (List Name)
  | [], target => some target
  | b :: base, [] => if b = up then none else some (List.replicate (b :: base).length up)
  | b :: base, t :: target =>
    if b = t then relParts base target
    else if b = up then none else some (List.replicate (b :: base).length up ++ t :: target)

/-- `Rel`; there is no relative path between a rooted and an unrooted one, or out of an unknown directory. -/
def rel (base target : List Char) : Option (List Char) :=
  if isAbs base ≠ isAbs target then none
  else (relParts (parts (clean base)) (parts (clean target))).map (render false)

/-! ### Cleaned paths -/

/-- The names of a cleaned path. -/
structure Cleaned (rooted : Bool) (names : List Name) : Prop where
  name : ∀ n ∈ names, n ≠ [] ∧ n ≠ ['.'] ∧ '/' ∉ n
  ups : ∃ count rest, names = List.replicate count up ++ rest ∧ up ∉ rest ∧ (rooted = true → count = 0)

section Clean
variable {rooted : Bool} {names : List Name}

theorem not_mem_splitOn : ∀ path : List Char, ∀ n ∈ path.splitOn '/', '/' ∉ n := by
  intro path
  induction path with
  | nil => simp
  | cons c cs ih =>
    intro n hn
    rw [List.splitOn_cons_eq_if_modifyHead] at hn
    split_ifs at hn with hc
    · rcases List.mem_cons.mp hn with rfl | hn
      · exact List.not_mem_nil
      · exact ih n hn
    · cases hsplit : cs.splitOn '/' with
      | nil => exact absurd hsplit (List.splitOn_ne_nil '/' cs)
      | cons first rest =>
        rw [hsplit] at hn ih
        rcases List.mem_cons.mp hn with rfl | hn
        · rw [List.mem_cons, not_or]
          exact ⟨fun h => hc (by rw [h, beq_self_eq_true]), ih first List.mem_cons_self⟩
        · exact ih n (List.mem_cons_of_mem first hn)

theorem cleaned_goUp {stack : List Name} (h : Cleaned rooted stack.reverse) :
    Cleaned rooted (goUp rooted stack).reverse := by
  have hname : up ≠ [] ∧ up ≠ ['.'] ∧ '/' ∉ up := ⟨by decide, by decide, by decide⟩
  cases stack with
  | nil =>
    cases rooted with
    | true => exact h
    | false =>
      refine ⟨fun n hn => ?_, 1, [], rfl, List.not_mem_nil, fun h => by cases h⟩
      rw [List.mem_singleton.mp hn]
      exact hname
  | cons top below =>
    obtain ⟨count, rest, heq, hrest, hrooted⟩ := h.ups
    rw [List.reverse_cons] at heq
    rw [goUp]
    by_cases hup : top = up
    · -- another `..` in front, where nothing but `..` is yet
      rw [if_pos hup]
      rcases List.eq_nil_or_concat rest with rfl | ⟨rest, last, rfl⟩
      · rw [List.append_nil] at heq
        have hcount : count ≠ 0 := by
          rintro rfl
          simp at heq
        refine ⟨fun n hn => ?_, count + 1, [], ?_, List.not_mem_nil, fun hr => absurd (hrooted hr) hcount⟩
        · rw [List.reverse_cons, List.mem_append, List.mem_singleton] at hn
          rcases hn with hn | rfl
          · exact h.name n hn
          · exact hname
        · rw [List.reverse_cons, List.reverse_cons, heq, List.append_nil, List.replicate_succ']
      · rw [List.concat_eq_append] at heq hrest
        rw [← List.append_assoc] at heq
        obtain ⟨-, hlast⟩ := List.append_inj' heq rfl
        obtain rfl := List.singleton_injective hlast
        exact absurd (List.mem_append_right rest (hup ▸ List.mem_cons_self)) hrest
    · rw [if_neg hup]
      rcases List.eq_nil_or_concat rest with rfl | ⟨rest, last, rfl⟩
      · rw [List.append_nil] at heq
        have hmem : top ∈ List.replicate count up := heq ▸ List.mem_append_right _ List.mem_cons_self
        exact absurd (List.eq_of_mem_replicate hmem) hup
      · rw [List.concat_eq_append] at heq hrest
        rw [← List.append_assoc] at heq
        obtain ⟨hbelow, -⟩ := List.append_inj' heq rfl
        refine ⟨fun n hn => h.name n ?_, count, rest, hbelow, fun hn => hrest (List.mem_append_left _ hn), hrooted⟩
        rw [List.reverse_cons]
        exact List.mem_append_left _ hn

/-- The step keeps the stack clean. -/
theorem cleaned_step {stack : List Name} {n : Name} (h : Cleaned rooted stack.reverse) (hn : '/' ∉ n) :
    Cleaned rooted (cleanStep rooted stack n).reverse := by
  rw [cleanStep]
  by_cases hempty : n = [] ∨ n = ['.']
  · rw [if_pos hempty]
    exact h
  · rw [if_neg hempty]
    by_cases hup : n = up
    · rw [if_pos hup]
      exact cleaned_goUp h
    · obtain ⟨count, rest, heq, hrest, hrooted⟩ := h.ups
      rw [not_or] at hempty
      rw [if_neg hup]
      refine ⟨fun m hm => ?_, count, rest ++ [n], ?_, ?_, hrooted⟩
      · rw [List.reverse_cons, List.mem_append, List.mem_singleton] at hm
        rcases hm with hm | rfl
        · exact h.name m hm
        · exact ⟨hempty.1, hempty.2, hn⟩
      · rw [List.reverse_cons, heq, List.append_assoc]
      · rw [List.mem_append, List.mem_singleton, not_or]
        exact ⟨hrest, Ne.symm hup⟩

theorem cleaned_cleanParts (h : ∀ n ∈ names, '/' ∉ n) : Cleaned rooted (cleanParts rooted names) := by
  have hall : ∀ (ns stack : List Name), (∀ n ∈ ns, '/' ∉ n) → Cleaned rooted stack.reverse →
      Cleaned rooted (ns.foldl (cleanStep rooted) stack).reverse := by
    intro ns
    induction ns with
    | nil => exact fun _ _ hs => hs
    | cons n ns ih =>
      intro stack hns hs
      exact ih _ (fun m hm => hns m (List.mem_cons_of_mem n hm)) (cleaned_step hs (hns n List.mem_cons_self))
  exact hall names [] h ⟨by simp, 0, [], rfl, List.not_mem_nil, fun _ => rfl⟩

/-- Without `..` behind a name there is nothing to clean. -/
theorem cleanParts_cleaned (h : Cleaned rooted names) : cleanParts rooted names = names := by
  have hups : ∀ count, (rooted = true → count = 0) →
      (List.replicate count up).foldl (cleanStep rooted) [] = List.replicate count up := by
    intro count
    induction count with
    | zero => exact fun _ => rfl
    | succ count ih =>
      intro hcount
      obtain rfl : rooted = false := by
        cases rooted
        · rfl
        · exact absurd (hcount rfl) (Nat.succ_ne_zero count)
      have hup : ∀ stack, cleanStep false stack up = goUp false stack := fun stack => by simp [cleanStep, up]
      rw [List.replicate_succ', List.foldl_append, ih (by simp), List.foldl_cons, List.foldl_nil, hup,
        ← List.replicate_succ']
      cases count with
      | zero => rfl
      | succ count => rw [List.replicate_succ, goUp, if_pos rfl, ← List.replicate_succ, ← List.replicate_succ]
  have hnames : ∀ (ns stack : List Name), (∀ n ∈ ns, n ≠ [] ∧ n ≠ ['.'] ∧ n ≠ up) →
      ns.foldl (cleanStep rooted) stack = ns.reverse ++ stack := by
    intro ns
    induction ns with
    | nil => exact fun _ _ => rfl
    | cons n ns ih =>
      intro stack hns
      obtain ⟨hne, hdot, hup⟩ := hns n List.mem_cons_self
      have hstep : cleanStep rooted stack n = n :: stack := by simp [cleanStep, hne, hdot, hup]
      rw [List.foldl_cons, hstep, ih _ fun m hm => hns m (List.mem_cons_of_mem n hm), List.reverse_cons,
        List.append_assoc]
      rfl
  obtain ⟨count, rest, rfl, hrest, hrooted⟩ := h.ups
  rw [cleanParts, List.foldl_append, hups count hrooted, hnames rest _ fun n hn => ?_]
  · rw [List.reverse_append, List.reverse_reverse, List.reverse_replicate]
  · obtain ⟨hne, hdot, -⟩ := h.name n (List.mem_append_right _ hn)
    exact ⟨hne, hdot, fun hup => hrest (hup ▸ hn)⟩

/-- The text of a cleaned path, split. -/
theorem splitOn_render (h : Cleaned rooted names) : (render rooted names).splitOn '/' =
    if names = [] then if rooted then [[], []] else [['.']] else if rooted then [] :: names else names := by
  have hslash : ∀ n ∈ names, '/' ∉ n := fun n hn => (h.name n hn).2.2
  have hrooted : ('/' :: ['/'].intercalate names).splitOn '/' = [] :: (['/'].intercalate names).splitOn '/' := by
    rw [List.splitOn_cons_eq_if_modifyHead]
    rfl
  rw [render]
  by_cases hnil : names = []
  · subst hnil
    cases rooted <;> rfl
  · rw [if_neg hnil, if_neg hnil]
    cases rooted with
    | true => simp only [if_true, hrooted, List.splitOn_intercalate '/' hslash hnil]
    | false => simp only [Bool.false_eq_true, if_false, List.splitOn_intercalate '/' hslash hnil]

/-- The text of a cleaned path is read back. -/
theorem parts_render (h : Cleaned rooted names) : parts (render rooted names) = names := by
  have hkeep : names.filter (fun n => n ≠ [] ∧ n ≠ ['.']) = names := by
    rw [List.filter_eq_self]
    intro n hn
    exact decide_eq_true ⟨(h.name n hn).1, (h.name n hn).2.1⟩
  rw [parts, splitOn_render h]
  split_ifs with hnil hrooted hrooted
  · rw [hnil]
    rfl
  · rw [hnil]
    rfl
  · rw [List.filter_cons_of_neg (by simp), hkeep]
  · exact hkeep

theorem isAbs_render (h : Cleaned rooted names) : isAbs (render rooted names) = rooted := by
  rw [render]
  cases rooted with
  | true => rfl
  | false =>
    rw [if_neg Bool.false_ne_true]
    split_ifs with hnil
    · rfl
    · obtain ⟨n, rest, rfl⟩ := List.exists_cons_of_ne_nil hnil
      obtain ⟨hne, -, hslash⟩ := h.name n List.mem_cons_self
      obtain ⟨c, cs, rfl⟩ := List.exists_cons_of_ne_nil hne
      have hc : c ≠ '/' := fun hc => hslash (hc ▸ List.mem_cons_self)
      cases rest <;> simp [isAbs, List.intercalate, List.intersperse, hc]

/-- What `Clean` gives. -/
theorem exists_cleaned (path : List Char) : ∃ names, Cleaned (isAbs path) names ∧
    clean path = render (isAbs path) names :=
  ⟨_, cleaned_cleanParts (not_mem_splitOn path), rfl⟩

theorem cleanParts_empty (ns : List Name) : cleanParts rooted ([] :: ns) = cleanParts rooted ns := by
  have hstep : cleanStep rooted [] [] = [] := if_pos (.inl rfl)
  rw [cleanParts, List.foldl_cons, hstep, cleanParts]

theorem clean_render (h : Cleaned rooted names) : clean (render rooted names) = render rooted names := by
  have hparts : cleanParts rooted ((render rooted names).splitOn '/') = names := by
    rw [splitOn_render h]
    split_ifs with hnil hrooted hrooted
    · rw [hnil, cleanParts_empty, cleanParts_empty]
      rfl
    · rw [hnil]
      rfl
    · rw [cleanParts_empty, cleanParts_cleaned h]
    · exact cleanParts_cleaned h
  rw [clean, isAbs_render h, hparts]

theorem cleaned_dropLast (h : Cleaned rooted names) : Cleaned rooted names.dropLast := by
  obtain ⟨count, rest, rfl, hrest, hrooted⟩ := h.ups
  refine ⟨fun n hn => h.name n (List.mem_of_mem_dropLast hn), ?_⟩
  rcases List.eq_nil_or_concat rest with rfl | ⟨rest, last, rfl⟩
  · refine ⟨count - 1, [], ?_, List.not_mem_nil, fun hr => by rw [hrooted hr]⟩
    rw [List.append_nil, List.append_nil, List.dropLast_replicate]
  · rw [List.concat_eq_append] at hrest ⊢
    refine ⟨count, rest, ?_, fun hup => hrest (List.mem_append_left _ hup), hrooted⟩
    rw [← List.append_assoc, List.dropLast_concat]

/-- All but the last name. -/
theorem parts_dir (h : Cleaned rooted names) :
    isAbs (dir (render rooted names)) = rooted ∧ parts (dir (render rooted names)) = names.dropLast := by
  have hparts : cleanParts rooted ((render rooted names).splitOn '/').dropLast = names.dropLast := by
    rw [splitOn_render h]
    split_ifs with hnil hrooted hrooted
    · rw [hnil]
      exact cleanParts_empty []
    · rw [hnil]
      rfl
    · rw [List.dropLast_cons_of_ne_nil hnil, cleanParts_empty, cleanParts_cleaned (cleaned_dropLast h)]
    · exact cleanParts_cleaned (cleaned_dropLast h)
  rw [dir, isAbs_render h, hparts]
  exact ⟨isAbs_render (cleaned_dropLast h), parts_render (cleaned_dropLast h)⟩

end Clean

/-! ### Relative paths -/

/-- The way out of the base begins with `..`; any other way leads on from the base. -/
theorem relParts_spec : ∀ {base target way : List Name}, relParts base target = some way →
    way.head? = some up ∨ target = base ++ way := by
  intro base
  induction base with
  | nil =>
    intro target way h
    right
    cases target <;> exact Option.some.inj h
  | cons b base ih =>
    intro target way h
    cases target with
    | nil =>
      rw [relParts] at h
      split_ifs at h
      rw [← Option.some.inj h]
      exact .inl rfl
    | cons t target =>
      rw [relParts] at h
      split_ifs at h with hsame
      · subst hsame
        rcases ih h with hway | rfl
        · exact .inl hway
        · exact .inr rfl
      · rw [← Option.some.inj h]
        exact .inl rfl

/-- Behind a name there is no `..`. -/
theorem not_mem_behind {rooted : Bool} {before behind : List Name} {n : Name}
    (h : Cleaned rooted (before ++ n :: behind)) (hn : n ≠ up) : up ∉ behind := by
  obtain ⟨count, rest, heq, hrest, -⟩ := h.ups
  rcases List.append_eq_append_iff.mp heq with ⟨ups, hups, hnames⟩ | ⟨ups, hups, hnames⟩
  · cases ups with
    | nil =>
      rw [List.nil_append] at hnames
      exact fun hmem => hrest (hnames ▸ List.mem_cons_of_mem n hmem)
    | cons m ups =>
      obtain ⟨rfl, -⟩ := List.cons.inj hnames
      have hmem : n ∈ List.replicate count up := hups ▸ List.mem_append_right before List.mem_cons_self
      exact absurd (List.eq_of_mem_replicate hmem) hn
  · intro hmem
    exact hrest (hnames ▸ List.mem_append_right ups (List.mem_cons_of_mem n hmem))

theorem head?_render {names : List Name} (h : names.head? = some up) :
    render false names = up ∨ ['.', '.', '/'] <+: render false names := by
  obtain ⟨rest, rfl⟩ := List.head?_eq_some_iff.mp h
  cases rest with
  | nil => exact .inl rfl
  | cons n rest => exact .inr ⟨['/'].intercalate (n :: rest), rfl⟩

/-- A relative path that does not begin with `..` leads on from the base. -/
theorem rel_spec {rooted rooted' : Bool} {base target : List Name} {way : List Char} (hbase : Cleaned rooted base)
    (htarget : Cleaned rooted' target) (h : rel (render rooted base) (render rooted' target) = some way)
    (hup : way ≠ up) (hleads : ¬ ['.', '.', '/'] <+: way) :
    rooted = rooted' ∧ ∃ names, target = base ++ names ∧ up ∉ names := by
  rw [rel, isAbs_render hbase, isAbs_render htarget] at h
  split_ifs at h with hrooted
  rw [clean_render hbase, clean_render htarget, parts_render hbase, parts_render htarget] at h
  obtain ⟨names, hnames, rfl⟩ := Option.map_eq_some_iff.mp h
  have hhead : names.head? ≠ some up := by
    intro hhead
    rcases head?_render hhead with hrender | hrender
    · exact hup hrender
    · exact hleads hrender
  refine ⟨by simpa using hrooted, names, (relParts_spec hnames).resolve_left hhead, fun hmem => ?_⟩
  rw [(relParts_spec hnames).resolve_left hhead] at htarget
  cases names with
  | nil => exact List.not_mem_nil hmem
  | cons n rest =>
    have hn : n ≠ up := fun hn => hhead (hn ▸ rfl)
    rcases List.mem_cons.mp hmem with hmem | hmem
    · exact hn hmem.symm
    · exact not_mem_behind htarget hn hmem

theorem isAbs_clean (path : List Char) : isAbs (clean path) = isAbs path := by
  obtain ⟨names, hnames, heq⟩ := exists_cleaned path
  rw [heq, isAbs_render hnames]

theorem rel_clean (base target : List Char) : rel (clean base) target = rel base target := by
  obtain ⟨names, hnames, heq⟩ := exists_cleaned base
  rw [rel, rel, isAbs_clean, heq, clean_render hnames]

theorem clean_ne_nil (path : List Char) : clean path ≠ [] := by
  obtain ⟨names, hnames, heq⟩ := exists_cleaned path
  intro hnil
  have hsplit := splitOn_render hnames
  rw [← heq, hnil, List.splitOn_nil] at hsplit
  split_ifs at hsplit with hempty hrooted hrooted
  · cases hsplit
  · cases hsplit
  · cases hsplit
    exact hempty rfl
  · exact (hnames.name [] (hsplit ▸ List.mem_cons_self)).1 rfl

/-- A joined path is clean. -/
theorem exists_join {a b : List Char} (hb : b ≠ []) : ∃ rooted names, Cleaned rooted names ∧
    join a b = render rooted names := by
  rw [join, if_neg hb, if_neg hb]
  split_ifs
  · obtain ⟨names, h⟩ := exists_cleaned b
    exact ⟨_, names, h⟩
  · obtain ⟨names, h⟩ := exists_cleaned (a ++ '/' :: b)
    exact ⟨_, names, h⟩

end Filepath
