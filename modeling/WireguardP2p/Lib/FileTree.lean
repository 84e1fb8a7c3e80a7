import Mathlib

/-! File systems with symbolic links. A tree says what is at every location; a path is walked from a
    location, following at most so many links. `walk` is the walk of a kernel, which fails where a
    directory is missing; `trace` goes on by name where nothing is there. A tree in which no location below
    a directory is a link is walked there by names alone. -/

namespace FileTree

abbrev Name := List Char

/-- The names that lead from the root to a place. -/
abbrev Loc := List Name

inductive Node
  | dir
  /-- A regular file; two names with one number are hard links. -/
  | file (number : ℕ)
  | link (target : List Char)
  deriving DecidableEq

/-- What is where: every node lies in a directory. -/
structure Tree where
  node : Loc → Option Node
  root : node [] = some .dir
  parent : ∀ loc name, node (loc ++ [name]) ≠ none → node loc = some .dir

/-- Add a node to a directory. -/
def Tree.insert (t : Tree) (loc : Loc) (name : Name) (x : Node) (hdir : t.node loc = some .dir)
    (hnew : t.node (loc ++ [name]) = none) : Tree where
  node := Function.update t.node (loc ++ [name]) (some x)
  root := by
    rw [Function.update_of_ne (by simp)]
    exact t.root
  parent := by
    intro l n h
    -- nothing lies below the new node
    have hnot : l ≠ loc ++ [name] := by
      rintro rfl
      by_cases hself : loc ++ [name] ++ [n] = loc ++ [name]
      · simp at hself
      · rw [Function.update_of_ne hself] at h
        rw [t.parent _ n h] at hnew
        cases hnew
    rw [Function.update_of_ne hnot]
    by_cases hsame : l ++ [n] = loc ++ [name]
    · rw [(List.append_inj' hsame rfl).1]
      exact hdir
    · rw [Function.update_of_ne hsame] at h
      exact t.parent l n h

section Insert
variable {t : Tree} {loc : Loc} {name : Name} {x : Node} {hdir : t.node loc = some .dir}
  {hnew : t.node (loc ++ [name]) = none}

@[simp] theorem insert_self : (t.insert loc name x hdir hnew).node (loc ++ [name]) = some x :=
  Function.update_self ..

theorem insert_of_ne {l : Loc} (h : l ≠ loc ++ [name]) : (t.insert loc name x hdir hnew).node l = t.node l :=
  Function.update_of_ne h ..

end Insert

/-- Everything in `t` is still there in `t'`. -/
def Grows (t t' : Tree) : Prop := ∀ loc x, t.node loc = some x → t'.node loc = some x

@[refl] theorem Grows.refl (t : Tree) : Grows t t := fun _ _ h => h

theorem Grows.trans {t t' t'' : Tree} (h : Grows t t') (h' : Grows t' t'') : Grows t t'' :=
  fun loc x hx => h' loc x (h loc x hx)

theorem grows_insert {t : Tree} {loc : Loc} {name : Name} {x : Node} {hdir : t.node loc = some .dir}
    {hnew : t.node (loc ++ [name]) = none} : Grows t (t.insert loc name x hdir hnew) := by
  intro l y hy
  rw [insert_of_ne, hy]
  rintro rfl
  rw [hnew] at hy
  cases hy

/-- Add a node where nothing is, if its parent is a directory. -/
def Tree.add (t : Tree) (loc : Loc) (x : Node) : Option Tree :=
  if h : loc ≠ [] ∧ t.node loc.dropLast = some .dir ∧ t.node loc = none then
    some (t.insert loc.dropLast (loc.getLast h.1) x h.2.1 (by rw [List.dropLast_append_getLast]; exact h.2.2))
  else none

theorem add_eq_some {t t' : Tree} {loc : Loc} {x : Node} (h : t.add loc x = some t') :
    t.node loc = none ∧ t'.node loc = some x ∧ (∀ l, l ≠ loc → t'.node l = t.node l) ∧ Grows t t' := by
  rw [Tree.add] at h
  split_ifs at h with hloc
  obtain rfl := Option.some.inj h
  have hlast : loc.dropLast ++ [loc.getLast hloc.1] = loc := List.dropLast_append_getLast hloc.1
  exact ⟨hloc.2.2, (congrArg _ hlast.symm).trans insert_self, fun l hl => insert_of_ne (by rwa [hlast]), grows_insert⟩

/-- No location at or below `top` is a link. -/
def Linkless (t : Tree) (top : Loc) : Prop := ∀ loc target, top <+: loc → t.node loc ≠ some (.link target)

theorem dir_of_add {t t' : Tree} {loc : Loc} {n : Name} {x : Node} (h : t.add (loc ++ [n]) x = some t') :
    t.node loc = some .dir := by
  rw [Tree.add] at h
  split_ifs at h with hloc
  have hdir := hloc.2.1
  rwa [List.dropLast_concat] at hdir

theorem Linkless.add {t t' : Tree} {top loc : Loc} {x : Node} (h : Linkless t top) (hadd : t.add loc x = some t')
    (hx : ∀ target, x ≠ .link target) : Linkless t' top := by
  obtain ⟨-, hself, hother, -⟩ := add_eq_some hadd
  intro l target hl hlink
  by_cases hsame : l = loc
  · rw [hsame, hself] at hlink
    exact hx target (Option.some.inj hlink)
  · rw [hother l hsame] at hlink
    exact h l target hl hlink

/-- The root alone. -/
def Tree.bare : Tree := ⟨fun loc => if loc = [] then some .dir else none, rfl, fun loc name h => by simp at h⟩

/-- A directory more, if it can be made. -/
def Tree.withDir (loc : Loc) (t : Tree) : Tree := (t.add loc .dir).getD t

theorem withDir_of_ne {t : Tree} {loc l : Loc} (h : l ≠ loc) : (t.withDir loc).node l = t.node l := by
  rw [Tree.withDir]
  cases hadd : t.add loc .dir with
  | none => rfl
  | some t' => exact (add_eq_some hadd).2.2.1 l h

theorem bare_of_ne {l : Loc} (h : l ≠ []) : Tree.bare.node l = none := if_neg h

theorem linkless_bare (top : Loc) : Linkless .bare top := by
  intro loc target _ hlink
  by_cases hloc : loc = []
  · rw [hloc, Tree.bare.root] at hlink
    cases hlink
  · rw [bare_of_ne hloc] at hlink
    cases hlink

theorem Linkless.withDir {t : Tree} {top : Loc} (h : Linkless t top) (loc : Loc) : Linkless (t.withDir loc) top := by
  rw [Tree.withDir]
  cases hadd : t.add loc .dir with
  | none => exact h
  | some t' => exact h.add hadd fun _ h => by cases h

/-! ### Paths -/

/-- The parent of the current location. -/
def up : Name := ['.', '.']

def isAbs (path : List Char) : Bool := path.head? == some '/'

/-- The names of a path; empty ones and `.` lead nowhere. -/
def parts (path : List Char) : List Name := (path.splitOn '/').filter fun n => n ≠ [] ∧ n ≠ ['.']

/-- Where the walk of a path begins. -/
def base (path : List Char) (loc : Loc) : Loc := if isAbs path then [] else loc

/-- The walk up to the first link, which is left to `follow`. The last name may be missing. -/
def walkWith (follow : Loc → List Name → Option Loc) (t : Tree) : Loc → List Name → Option Loc
  | loc, [] => some loc
  | loc, n :: rest =>
    if n = up then walkWith follow t loc.dropLast rest
    else match t.node (loc ++ [n]) with
      | some .dir => walkWith follow t (loc ++ [n]) rest
      | some (.link target) => follow (base target loc) (parts target ++ rest)
      | some (.file _) => if rest = [] then some (loc ++ [n]) else none
      | none => if rest = [] then some (loc ++ [n]) else none

/-- The walk that follows at most `links` links, in the last name too. -/
def walk (t : Tree) : ℕ → Loc → List Name → Option Loc
  | 0 => walkWith (fun _ _ => none) t
  | links + 1 => walkWith (walk t links) t

/-- How many links the Linux kernel follows in one path. -/
def maxLinks : ℕ := 40

/-- The walk that takes a missing name, and a file, for a directory. -/
def traceWith (follow : Loc → List Name → Option Loc) (t : Tree) : Loc → List Name → Option Loc
  | loc, [] => some loc
  | loc, n :: rest =>
    if n = up then traceWith follow t loc.dropLast rest
    else match t.node (loc ++ [n]) with
      | some (.link target) => follow (base target loc) (parts target ++ rest)
      | _ => traceWith follow t (loc ++ [n]) rest

def trace (t : Tree) : ℕ → Loc → List Name → Option Loc
  | 0 => traceWith (fun _ _ => none) t
  | links + 1 => traceWith (trace t links) t

/-! ### Walks -/

section Walk
variable {t t' : Tree}

theorem dir_dropLast {loc : Loc} (h : t.node loc = some .dir) : t.node loc.dropLast = some .dir := by
  rcases List.eq_nil_or_concat loc with rfl | ⟨l, n, rfl⟩
  · exact h
  · rw [List.concat_eq_append] at h ⊢
    rw [List.dropLast_concat]
    exact t.parent l n (by simp [h])

theorem dir_base {loc : Loc} {path : List Char} (h : t.node loc = some .dir) : t.node (base path loc) = some .dir := by
  rw [base]
  split_ifs
  · exact t.root
  · exact h

/-- What the walk to `loc` and the walk on from there need of the links that are left. -/
theorem walkWith_append {follow follow' : Loc → List Name → Option Loc} {top : Loc} {ys : List Name}
    (htop : t.node top = some .dir)
    (hfollow : ∀ loc xs, follow loc xs = some top → ∃ links, follow' loc (xs ++ ys) = walk t links top ys)
    (hsame : ∃ links, ∀ loc, walkWith follow' t loc ys = walk t links loc ys) :
    ∀ (xs : List Name) (loc : Loc), walkWith follow t loc xs = some top →
      ∃ links, walkWith follow' t loc (xs ++ ys) = walk t links top ys := by
  intro xs
  induction xs with
  | nil =>
    intro loc h
    obtain rfl := Option.some.inj h
    obtain ⟨links, hlinks⟩ := hsame
    exact ⟨links, hlinks loc⟩
  | cons n rest ih =>
    intro loc h
    rw [walkWith] at h
    rw [List.cons_append, walkWith]
    by_cases hup : n = up
    · rw [if_pos hup] at h ⊢
      exact ih _ h
    · rw [if_neg hup] at h ⊢
      have hmissing : ∀ l : Loc, t.node l ≠ some .dir → (if rest = [] then some l else none) ≠ some top := by
        intro l hl h
        split_ifs at h
        rw [Option.some.inj h] at hl
        exact hl htop
      cases hnode : t.node (loc ++ [n]) with
      | none =>
        rw [hnode] at h
        exact absurd h (hmissing _ (by simp [hnode]))
      | some x =>
        cases x with
        | dir =>
          rw [hnode] at h
          exact ih _ h
        | file number =>
          rw [hnode] at h
          exact absurd h (hmissing _ (by simp [hnode]))
        | link target =>
          rw [hnode] at h
          dsimp only at h ⊢
          rw [← List.append_assoc]
          exact hfollow _ _ h

/-- A path on from a directory is walked from there. -/
theorem walk_append {top : Loc} {ys : List Name} (htop : t.node top = some .dir) :
    ∀ (links : ℕ) (loc : Loc) (xs : List Name), walk t links loc xs = some top →
      ∃ links', walk t links loc (xs ++ ys) = walk t links' top ys := by
  intro links
  induction links with
  | zero =>
    intro loc xs h
    exact walkWith_append htop (fun _ _ h => by cases h) ⟨0, fun _ => rfl⟩ xs loc h
  | succ links ih =>
    intro loc xs h
    exact walkWith_append htop ih ⟨links + 1, fun _ => rfl⟩ xs loc h

/-- A name more, where nothing is. -/
theorem walk_concat {links : ℕ} {start loc : Loc} {xs : List Name} {n : Name} (hdir : t.node loc = some .dir)
    (h : walk t links start xs = some loc) (hup : n ≠ up) (hnone : t.node (loc ++ [n]) = none) :
    walk t links start (xs ++ [n]) = some (loc ++ [n]) := by
  obtain ⟨rest, hrest⟩ := @walk_append t loc [n] hdir links start xs h
  rw [hrest]
  cases rest <;> rw [walk, walkWith, if_neg hup, hnone] <;> rfl

/-- A walk to a directory goes through directories. -/
theorem walk_prefix {top : Loc} (htop : t.node top = some .dir) : ∀ (links : ℕ) (loc : Loc) (xs ys : List Name),
    t.node loc = some .dir → walk t links loc (xs ++ ys) = some top →
      ∃ l, walk t links loc xs = some l ∧ t.node l = some .dir := by
  have hstep : ∀ follow : Loc → List Name → Option Loc,
      (∀ loc xs ys, t.node loc = some .dir → follow loc (xs ++ ys) = some top →
        ∃ l, follow loc xs = some l ∧ t.node l = some .dir) →
      ∀ (xs ys : List Name) (loc : Loc), t.node loc = some .dir → walkWith follow t loc (xs ++ ys) = some top →
        ∃ l, walkWith follow t loc xs = some l ∧ t.node l = some .dir := by
    intro follow hfollow xs
    induction xs with
    | nil => exact fun _ loc hloc _ => ⟨loc, rfl, hloc⟩
    | cons n rest ih =>
      intro ys loc hloc h
      rw [List.cons_append, walkWith] at h
      rw [walkWith]
      by_cases hup : n = up
      · rw [if_pos hup] at h ⊢
        exact ih ys _ (dir_dropLast hloc) h
      · rw [if_neg hup] at h ⊢
        have hmissing : ∀ l : Loc, t.node l ≠ some .dir → (if rest ++ ys = [] then some l else none) ≠ some top := by
          intro l hl h
          split_ifs at h
          rw [Option.some.inj h] at hl
          exact hl htop
        cases hnode : t.node (loc ++ [n]) with
        | none =>
          rw [hnode] at h
          exact absurd h (hmissing _ (by simp [hnode]))
        | some x =>
          rw [hnode] at h
          cases x with
          | dir => exact ih ys _ hnode h
          | file number => exact absurd h (hmissing _ (by simp [hnode]))
          | link target =>
            dsimp only at h ⊢
            rw [← List.append_assoc] at h
            exact hfollow _ _ ys (dir_base hloc) h
  intro links
  induction links with
  | zero => exact fun loc xs ys hloc h => hstep _ (fun _ _ _ _ h => by cases h) xs ys loc hloc h
  | succ links ih => exact fun loc xs ys hloc h => hstep _ ih xs ys loc hloc h

/-- A walk to a directory ends there in a larger tree too. -/
theorem Grows.walk (h : Grows t t') {top : Loc} (htop : t.node top = some .dir) :
    ∀ (links : ℕ) (loc : Loc) (xs : List Name), walk t links loc xs = some top →
      walk t' links loc xs = some top := by
  have hstep : ∀ follow follow' : Loc → List Name → Option Loc,
      (∀ loc xs, follow loc xs = some top → follow' loc xs = some top) →
      ∀ (xs : List Name) (loc : Loc), walkWith follow t loc xs = some top →
        walkWith follow' t' loc xs = some top := by
    intro follow follow' hfollow xs
    induction xs with
    | nil => exact fun _ hw => hw
    | cons n rest ih =>
      intro loc hw
      rw [walkWith] at hw ⊢
      by_cases hup : n = up
      · rw [if_pos hup] at hw ⊢
        exact ih _ hw
      · rw [if_neg hup] at hw ⊢
        have hmissing : ∀ l : Loc, t.node l ≠ some .dir → (if rest = [] then some l else none) ≠ some top := by
          intro l hl hw
          split_ifs at hw
          rw [Option.some.inj hw] at hl
          exact hl htop
        cases hnode : t.node (loc ++ [n]) with
        | none =>
          rw [hnode] at hw
          exact absurd hw (hmissing _ (by simp [hnode]))
        | some x =>
          rw [h _ _ hnode]
          rw [hnode] at hw
          cases x with
          | dir => exact ih _ hw
          | file number => exact absurd hw (hmissing _ (by simp [hnode]))
          | link target => exact hfollow _ _ hw
  intro links
  induction links with
  | zero => exact fun loc xs hw => hstep _ _ (fun _ _ h => h) xs loc hw
  | succ links ih => exact fun loc xs hw => hstep _ _ ih xs loc hw

/-- Below a directory without links a path leads where its names say. -/
theorem walk_linkless {top : Loc} (h : Linkless t top) (links : ℕ) : ∀ (xs : List Name) (loc l : Loc),
    top <+: loc → up ∉ xs → walk t links loc xs = some l → l = loc ++ xs := by
  have hstep : ∀ follow : Loc → List Name → Option Loc, ∀ (xs : List Name) (loc l : Loc), top <+: loc → up ∉ xs →
      walkWith follow t loc xs = some l → l = loc ++ xs := by
    intro follow xs
    induction xs with
    | nil =>
      intro loc l _ _ hw
      rw [List.append_nil]
      exact (Option.some.inj hw).symm
    | cons n rest ih =>
      intro loc l htop hnames hw
      rw [List.mem_cons, not_or] at hnames
      have hbelow : top <+: loc ++ [n] := htop.trans (List.prefix_append loc [n])
      have hlast : ∀ l' : Loc, (if rest = [] then some (loc ++ [n]) else none) = some l' → l' = loc ++ n :: rest := by
        intro l' hl'
        split_ifs at hl' with hrest
        rw [← Option.some.inj hl', hrest]
      rw [walkWith, if_neg (Ne.symm hnames.1)] at hw
      cases hnode : t.node (loc ++ [n]) with
      | none =>
        rw [hnode] at hw
        exact hlast l hw
      | some x =>
        rw [hnode] at hw
        cases x with
        | dir =>
          rw [ih _ l hbelow hnames.2 hw, List.append_assoc]
          rfl
        | file number => exact hlast l hw
        | link target => exact absurd hnode (h _ _ hbelow)
  cases links with
  | zero => exact hstep _
  | succ links => exact hstep _

end Walk

/-! ### Traces -/

section Trace
variable {t t' : Tree}

/-- Where a walk ends, the trace with as many links ends. -/
theorem trace_of_walk : ∀ {links links' : ℕ} {loc l : Loc} {xs : List Name}, links ≤ links' →
    walk t links loc xs = some l → trace t links' loc xs = some l := by
  have hstep : ∀ {follow follow' : Loc → List Name → Option Loc} {l : Loc},
      (∀ loc xs, follow loc xs = some l → follow' loc xs = some l) →
      ∀ (xs : List Name) (loc : Loc), walkWith follow t loc xs = some l → traceWith follow' t loc xs = some l := by
    intro follow follow' l hfollow xs
    induction xs with
    | nil => exact fun _ h => h
    | cons n rest ih =>
      intro loc h
      rw [walkWith] at h
      rw [traceWith]
      by_cases hup : n = up
      · rw [if_pos hup] at h ⊢
        exact ih _ h
      · rw [if_neg hup] at h ⊢
        have hlast : (if rest = [] then some (loc ++ [n]) else none) = some l →
            traceWith follow' t (loc ++ [n]) rest = some l := by
          intro h
          split_ifs at h with hrest
          rw [hrest]
          exact h
        cases hnode : t.node (loc ++ [n]) with
        | none =>
          rw [hnode] at h
          exact hlast h
        | some x =>
          rw [hnode] at h
          cases x with
          | dir => exact ih _ h
          | file number => exact hlast h
          | link target => exact hfollow _ _ h
  intro links
  induction links with
  | zero =>
    intro links' loc l xs _ h
    cases links' with
    | zero => exact hstep (fun _ _ h => h) xs loc h
    | succ links' => exact hstep (fun _ _ h => by cases h) xs loc h
  | succ links ih =>
    intro links' loc l xs hle h
    obtain ⟨more, rfl⟩ := Nat.exists_eq_add_of_le hle
    rw [Nat.add_right_comm]
    exact hstep (fun _ _ h => ih (Nat.le_add_right links more) h) xs loc h

/-- A trace sees the links only. -/
theorem trace_congr (h : ∀ loc target, t.node loc = some (.link target) ↔ t'.node loc = some (.link target)) :
    ∀ (links : ℕ) (loc : Loc) (xs : List Name), trace t links loc xs = trace t' links loc xs := by
  have hstep : ∀ {follow follow' : Loc → List Name → Option Loc}, (∀ loc xs, follow loc xs = follow' loc xs) →
      ∀ (xs : List Name) (loc : Loc), traceWith follow t loc xs = traceWith follow' t' loc xs := by
    intro follow follow' hfollow xs
    induction xs with
    | nil => exact fun _ => rfl
    | cons n rest ih =>
      intro loc
      rw [traceWith, traceWith]
      by_cases hup : n = up
      · rw [if_pos hup, if_pos hup, ih]
      · rw [if_neg hup, if_neg hup]
        by_cases hlink : ∃ target, t.node (loc ++ [n]) = some (.link target)
        · obtain ⟨target, htarget⟩ := hlink
          rw [htarget, (h _ _).mp htarget]
          exact hfollow _ _
        · have hlink' : ∀ target, t'.node (loc ++ [n]) ≠ some (.link target) :=
            fun target htarget => hlink ⟨target, (h _ _).mpr htarget⟩
          rw [ih]
          cases hnode : t.node (loc ++ [n]) with
          | none =>
            cases hnode' : t'.node (loc ++ [n]) with
            | none => rfl
            | some x' =>
              cases x' with
              | link target => exact absurd hnode' (hlink' target)
              | _ => rfl
          | some x =>
            cases x with
            | link target => exact absurd ⟨target, hnode⟩ hlink
            | _ =>
              cases hnode' : t'.node (loc ++ [n]) with
              | none => rfl
              | some x' =>
                cases x' with
                | link target => exact absurd hnode' (hlink' target)
                | _ => rfl
  intro links
  induction links with
  | zero => exact fun loc xs => hstep (fun _ _ => rfl) xs loc
  | succ links ih => exact fun loc xs => hstep ih xs loc

end Trace

end FileTree
