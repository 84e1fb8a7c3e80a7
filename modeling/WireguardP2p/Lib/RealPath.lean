import WireguardP2p.Lib.FileTree

/-! Real paths. In a tree whose links never lead in a circle every path has one, through names that are no
    links, and a kernel finds there what is there. -/

namespace FileTree

/-- Following links always comes to an end. -/
def Loopless (t : Tree) : Prop := ∀ loc names, ∃ links, (trace t links loc names).isSome

/-- A location whose names are followed as they are. -/
structure Physical (t : Tree) (loc : Loc) : Prop where
  names : up ∉ loc
  nolink : ∀ l target, l <+: loc → t.node l ≠ some (.link target)

/-- `os.path.realpath`, in a tree without circles. -/
def realpath (t : Tree) (h : Loopless t) (loc : Loc) (names : List Name) : Loc :=
  (trace t (Nat.find (h loc names)) loc names).get (Nat.find_spec (h loc names))

/-- The number of the regular file that a kernel finds at a location. -/
def fileAt (t : Tree) (loc : Loc) (names : List Name) : Option ℕ :=
  match (walk t maxLinks loc names).bind t.node with
  | some (.file number) => some number
  | _ => none

section RealPath
variable {t : Tree}

/-! ### Physical locations -/

theorem physical_root : Physical t [] := by
  refine ⟨List.not_mem_nil, fun l target hl hlink => ?_⟩
  rw [List.prefix_nil.mp hl, t.root] at hlink
  cases hlink

theorem Physical.above {l loc : Loc} (h : Physical t loc) (hl : l <+: loc) : Physical t l :=
  ⟨fun hup => h.names (hl.subset hup), fun _ target hx => h.nolink _ target (hx.trans hl)⟩

theorem Physical.base {loc : Loc} (h : Physical t loc) (path : List Char) : Physical t (base path loc) := by
  rw [FileTree.base]
  split_ifs
  · exact physical_root
  · exact h

theorem Physical.concat {loc : Loc} {n : Name} (h : Physical t loc) (hup : n ≠ up)
    (hlink : ∀ target, t.node (loc ++ [n]) ≠ some (.link target)) : Physical t (loc ++ [n]) := by
  refine ⟨fun hmem => ?_, fun l target hl hnode => ?_⟩
  · rcases List.mem_append.mp hmem with hmem | hmem
    · exact h.names hmem
    · exact hup (List.mem_singleton.mp hmem).symm
  · rcases List.prefix_concat_iff.mp hl with rfl | hl
    · exact hlink target hnode
    · exact h.nolink l target hl hnode

/-- A trace from a physical location ends at one. -/
theorem trace_physical : ∀ {links : ℕ} {loc l : Loc} {names : List Name}, Physical t loc →
    trace t links loc names = some l → Physical t l := by
  have hstep : ∀ {follow : Loc → List Name → Option Loc} {l : Loc},
      (∀ loc names, Physical t loc → follow loc names = some l → Physical t l) →
      ∀ (names : List Name) (loc : Loc), Physical t loc → traceWith follow t loc names = some l → Physical t l := by
    intro follow l hfollow names
    induction names with
    | nil =>
      intro loc hloc h
      exact Option.some.inj h ▸ hloc
    | cons n rest ih =>
      intro loc hloc h
      rw [traceWith] at h
      by_cases hup : n = up
      · rw [if_pos hup] at h
        exact ih _ (hloc.above (List.dropLast_prefix loc)) h
      · rw [if_neg hup] at h
        by_cases hlink : ∃ target, t.node (loc ++ [n]) = some (.link target)
        · obtain ⟨target, htarget⟩ := hlink
          rw [htarget] at h
          exact hfollow _ _ (hloc.base target) h
        · have hphysical := hloc.concat hup (not_exists.mp hlink)
          cases hnode : t.node (loc ++ [n]) with
          | none =>
            rw [hnode] at h
            exact ih _ hphysical h
          | some x =>
            rw [hnode] at h
            cases x with
            | link target => exact absurd ⟨target, hnode⟩ hlink
            | _ => exact ih _ hphysical h
  intro links
  induction links with
  | zero => exact fun hloc h => hstep (fun _ _ _ h => by cases h) _ _ hloc h
  | succ links ih => exact fun hloc h => hstep (fun _ _ hloc h => ih hloc h) _ _ hloc h

/-! ### Where a path leads -/

/-- More links to follow change nothing. -/
theorem trace_mono : ∀ {links links' : ℕ} {loc l : Loc} {names : List Name}, links ≤ links' →
    trace t links loc names = some l → trace t links' loc names = some l := by
  have hstep : ∀ {follow follow' : Loc → List Name → Option Loc} {l : Loc},
      (∀ loc names, follow loc names = some l → follow' loc names = some l) →
      ∀ (names : List Name) (loc : Loc), traceWith follow t loc names = some l →
        traceWith follow' t loc names = some l := by
    intro follow follow' l hfollow names
    induction names with
    | nil => exact fun _ h => h
    | cons n rest ih =>
      intro loc h
      rw [traceWith] at h ⊢
      by_cases hup : n = up
      · rw [if_pos hup] at h ⊢
        exact ih _ h
      · rw [if_neg hup] at h ⊢
        cases hnode : t.node (loc ++ [n]) with
        | none =>
          rw [hnode] at h
          exact ih _ h
        | some x =>
          rw [hnode] at h
          cases x with
          | link target => exact hfollow _ _ h
          | _ => exact ih _ h
  intro links
  induction links with
  | zero =>
    intro links' loc l names _ h
    cases links' with
    | zero => exact h
    | succ links' => exact hstep (fun _ _ h => by cases h) names loc h
  | succ links ih =>
    intro links' loc l names hle h
    obtain ⟨more, rfl⟩ := Nat.exists_eq_add_of_le hle
    rw [Nat.add_right_comm]
    exact hstep (fun _ _ h => ih (Nat.le_add_right links more) h) names loc h

variable {h : Loopless t} {loc l : Loc} {names : List Name}

theorem realpath_spec : ∃ links, trace t links loc names = some (realpath t h loc names) :=
  ⟨_, (Option.some_get _).symm⟩

theorem realpath_of_trace {links : ℕ} (hl : trace t links loc names = some l) : realpath t h loc names = l := by
  obtain ⟨links', hreal⟩ := @realpath_spec t h loc names
  have hmax := trace_mono (le_max_left links links') hl
  rw [trace_mono (le_max_right links links') hreal] at hmax
  exact Option.some.inj hmax

theorem physical_realpath (hloc : Physical t loc) : Physical t (realpath t h loc names) := by
  obtain ⟨links, hreal⟩ := @realpath_spec t h loc names
  exact trace_physical hloc hreal

/-- Whatever has something below it is a directory. -/
theorem dir_of_below {rest : List Name} : ∀ {loc : Loc}, rest ≠ [] → t.node (loc ++ rest) ≠ none →
    t.node loc = some .dir := by
  induction rest with
  | nil => exact fun h => absurd rfl h
  | cons n rest ih =>
    intro loc _ hnode
    rw [← List.singleton_append, ← List.append_assoc] at hnode
    refine t.parent loc n ?_
    by_cases hrest : rest = []
    · rwa [hrest, List.append_nil] at hnode
    · rw [ih hrest hnode]
      exact Option.some_ne_none _

/-- The names of a physical location lead there, if something is there. -/
theorem walk_physical {x : Node} (hl : Physical t l) (hnode : t.node l = some x) (links : ℕ) :
    walk t links [] l = some l := by
  have hstep : ∀ (follow : Loc → List Name → Option Loc) (rest loc : Loc), loc ++ rest = l →
      walkWith follow t loc rest = some l := by
    intro follow rest
    induction rest with
    | nil =>
      rintro loc rfl
      rw [List.append_nil]
      rfl
    | cons n rest ih =>
      intro loc hsplit
      have hnext : loc ++ [n] ++ rest = l := by rw [List.append_assoc, List.singleton_append, hsplit]
      have hup : n ≠ up := by
        rintro rfl
        exact hl.names (hsplit ▸ List.mem_append_right loc List.mem_cons_self)
      rw [walkWith, if_neg hup]
      by_cases hrest : rest = []
      · obtain rfl : loc ++ [n] = l := by rw [← hnext, hrest, List.append_nil]
        rw [hnode, hrest]
        cases x with
        | dir => rfl
        | file number => rfl
        | link target => exact absurd hnode (hl.nolink _ target List.prefix_rfl)
      · have hbelow : t.node (loc ++ [n] ++ rest) ≠ none := by
          rw [hnext, hnode]
          exact Option.some_ne_none _
        rw [dir_of_below hrest hbelow]
        exact ih _ hnext
  cases links with
  | zero => exact hstep _ l [] rfl
  | succ links => exact hstep _ l [] rfl

/-- The names of a physical location lead nowhere else. -/
theorem trace_self (hl : Physical t l) (links : ℕ) : trace t links [] l = some l := by
  have hstep : ∀ (follow : Loc → List Name → Option Loc) (rest loc : Loc), loc ++ rest = l →
      traceWith follow t loc rest = some l := by
    intro follow rest
    induction rest with
    | nil =>
      rintro loc rfl
      rw [List.append_nil]
      rfl
    | cons n rest ih =>
      intro loc hsplit
      have hnext : loc ++ [n] ++ rest = l := by rw [List.append_assoc, List.singleton_append, hsplit]
      have hup : n ≠ up := by
        rintro rfl
        exact hl.names (hsplit ▸ List.mem_append_right loc List.mem_cons_self)
      rw [traceWith, if_neg hup]
      cases hnode : t.node (loc ++ [n]) with
      | none => exact ih _ hnext
      | some x =>
        cases x with
        | link target => exact absurd hnode (hl.nolink _ target (hnext ▸ List.prefix_append _ rest))
        | _ => exact ih _ hnext
  cases links with
  | zero => exact hstep _ l [] rfl
  | succ links => exact hstep _ l [] rfl

theorem fileAt_eq_some {number : ℕ} : fileAt t loc names = some number ↔
    ∃ l, walk t maxLinks loc names = some l ∧ t.node l = some (.file number) := by
  rw [fileAt]
  cases hwalk : walk t maxLinks loc names with
  | none => simp
  | some l =>
    rw [Option.bind_some]
    cases hnode : t.node l with
    | none => simp [hnode]
    | some x => cases x <;> simp [hnode]

/-- At a physical location a kernel finds what is there. -/
theorem fileAt_physical {number : ℕ} (hl : Physical t l) :
    fileAt t [] l = some number ↔ t.node l = some (.file number) := by
  rw [fileAt_eq_some]
  constructor
  · rintro ⟨l', hwalk, hnode⟩
    have hsame := trace_of_walk le_rfl hwalk
    rw [trace_self hl] at hsame
    rwa [Option.some.inj hsame]
  · intro hnode
    exact ⟨l, walk_physical hl hnode maxLinks, hnode⟩

/-! ### Trees without circles -/

/-- The name is that of a link, in some directory. -/
def LinkName (t : Tree) (n : Name) : Prop := ∃ loc target, t.node (loc ++ [n]) = some (.link target)

open Classical in
/-- No link leads on to another one. -/
theorem loopless_of_direct (hdirect : ∀ loc n target, t.node (loc ++ [n]) = some (.link target) →
    ∀ m ∈ parts target, ¬ LinkName t m) : Loopless t := by
  have hstep : ∀ {follow : Loc → List Name → Option Loc} {k : ℕ},
      (∀ loc names, names.countP (LinkName t) < k → (follow loc names).isSome) →
      ∀ (names : List Name) (loc : Loc), names.countP (LinkName t) ≤ k → (traceWith follow t loc names).isSome := by
    intro follow k hfollow names
    induction names with
    | nil => exact fun _ _ => rfl
    | cons n rest ih =>
      intro loc hcount
      have hrest : rest.countP (LinkName t) ≤ k := le_trans (List.sublist_cons_self n rest).countP_le hcount
      rw [traceWith]
      split_ifs with hup
      · exact ih _ hrest
      · cases hnode : t.node (loc ++ [n]) with
        | none => exact ih _ hrest
        | some x =>
          cases x with
          | link target =>
            have hname : LinkName t n := ⟨loc, target, hnode⟩
            have hnone : (parts target).countP (LinkName t) = 0 :=
              List.countP_eq_zero.mpr fun m hm => by simpa using hdirect loc n target hnode m hm
            rw [List.countP_cons_of_pos (by simpa using hname)] at hcount
            refine hfollow _ _ ?_
            rw [List.countP_append, hnone]
            omega
          | _ => exact ih _ hrest
  intro loc names
  have hall : ∀ (links : ℕ) (names : List Name) (loc : Loc), names.countP (LinkName t) ≤ links →
      (trace t links loc names).isSome := by
    intro links
    induction links with
    | zero => exact fun names loc h => hstep (fun _ _ h => absurd h (Nat.not_lt_zero _)) names loc h
    | succ links ih => exact fun names loc h => hstep (fun _ _ h => ih _ _ (Nat.lt_succ_iff.mp h)) names loc h
  exact ⟨_, hall _ names loc le_rfl⟩

end RealPath

/-- A node more, if it can be added. -/
def Tree.withNode (loc : Loc) (x : Node) (t : Tree) : Tree := (t.add loc x).getD t

theorem link_of_withNode {t : Tree} {loc l : Loc} {x : Node} {target : List Char}
    (h : (t.withNode loc x).node l = some (.link target)) :
    (l = loc ∧ x = .link target) ∨ t.node l = some (.link target) := by
  rw [Tree.withNode] at h
  cases hadd : t.add loc x with
  | none =>
    rw [hadd] at h
    exact .inr h
  | some t' =>
    rw [hadd, Option.getD_some] at h
    obtain ⟨-, hself, hother, -⟩ := add_eq_some hadd
    by_cases hl : l = loc
    · rw [hl, hself] at h
      exact .inl ⟨hl, Option.some.inj h⟩
    · rw [hother l hl] at h
      exact .inr h

end FileTree
