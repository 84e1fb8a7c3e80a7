import WireguardP2p.Lib.Raising
import WireguardP2p.Lib.Filepath
import WireguardP2p.Net.Address

/-! `update_linux.go`: `extractClientUpdate`. The members are those the decoders of the Go library find in
    the payload. Every system call may fail; the first that does ends the extraction. -/

namespace Client
open Ipaddress FileTree Filepath Raising

/-- `header.Typeflag`, as far as it is told apart. -/
inductive Typeflag
  | dir
  | reg
  | other
  deriving DecidableEq

/-- A member of the archive; `copied` is whether its content is copied and its file closed without error. -/
structure TarMember where
  name : Text
  typeflag : Typeflag
  copied : Bool

/-- What the decoders make of a payload: its members, and whether the end was reached without error. -/
structure TarStream where
  members : List TarMember
  complete : Bool

inductive ExtractError
  | decoder
  | unsafePath
  | system
  deriving DecidableEq

/-- The file system during the extraction. -/
structure Extraction where
  tree : Tree
  /-- What was created or truncated, latest first. -/
  touched : List Loc
  /-- How many more calls succeed. -/
  calls : ℕ
  /-- The number of the next file. -/
  fresh : ℕ

abbrev Extract := Raising Extraction ExtractError Unit

/-- `os.Mkdir`, in the directory that the names lead to. -/
def mkdir (start : Loc) (names : List Name) (name : Name) : Extract := do
  let x ← get
  if x.calls = 0 ∨ name = up then raise .system
  else match walk x.tree maxLinks start names with
    | none => raise .system
    | some loc => match x.tree.add (loc ++ [name]) .dir with
      | none => raise .system
      | some tree =>
        modify fun x => { x with tree, touched := (loc ++ [name]) :: x.touched, calls := x.calls - 1 }

/-- `os.MkdirAll`; the last name comes first. -/
def mkdirAll (start : Loc) : List Name → Extract
  | [] => pure ()
  | name :: rest => do
    let x ← get
    match (walk x.tree maxLinks start (name :: rest).reverse).bind x.tree.node with
    | some .dir => pure ()
    | some (.file _) => raise .system
    | _ => do
      mkdirAll start rest
      mkdir start rest.reverse name

/-- `os.OpenFile` with `O_CREATE|O_TRUNC|O_WRONLY`. -/
def openFile (start : Loc) (names : List Name) : Extract := do
  let x ← get
  if x.calls = 0 then raise .system
  else match walk x.tree maxLinks start names with
    | none => raise .system
    | some loc => match x.tree.node loc with
      | some (.file _) => modify fun x => { x with touched := loc :: x.touched, calls := x.calls - 1 }
      | some _ => raise .system
      | none => match x.tree.add loc (.file x.fresh) with
        | none => raise .system
        | some tree =>
          modify fun x => { x with tree, touched := loc :: x.touched, calls := x.calls - 1, fresh := x.fresh + 1 }

/-- `name == "." || filepath.IsAbs(name) || strings.HasPrefix(name, "../")`. -/
def unsafeName (name : Text) : Prop := name = ['.'] ∨ isAbs name = true ∨ ['.', '.', '/'] <+: name

instance (name : Text) : Decidable (unsafeName name) := inferInstanceAs (Decidable (_ ∨ _ ∨ _))

/-- One round of the loop, at a process in the directory `cwd`. -/
def extractMember (cwd : Loc) (dir : Text) (m : TarMember) : Extract :=
  let name := clean m.name
  let target := join dir name
  if unsafeName name then raise .unsafePath
  else match rel dir target with
    | none => raise .unsafePath
    | some way =>
      if way = up ∨ ['.', '.', '/'] <+: way then raise .unsafePath
      else match m.typeflag with
        | .dir => mkdirAll (base target cwd) (parts target).reverse
        | .reg => do
          mkdirAll (base (Filepath.dir target) cwd) (parts (Filepath.dir target)).reverse
          openFile (base target cwd) (parts target)
          if m.copied then pure () else raise .decoder
        | .other => pure ()

def extractMembers (cwd : Loc) (dir : Text) : List TarMember → Extract
  | [] => pure ()
  | m :: members => do
    extractMember cwd dir m
    extractMembers cwd dir members

/-- `extractClientUpdate`; a payload without a gzip header has no stream. -/
def extractClientUpdate (cwd : Loc) (dir : Text) : Option TarStream → Extract
  | none => raise .decoder
  | some stream => do
    extractMembers cwd dir stream.members
    if stream.complete then pure () else raise .decoder

/-! ### What an extraction touches -/

/-- The directory `top` that the path names before the extraction, free of links. -/
structure Target (t : Tree) (cwd : Loc) (dir : Text) (top : Loc) : Prop where
  process : t.node cwd = some .dir
  names : walk t maxLinks (base (clean dir) cwd) (parts (clean dir)) = some top
  isDir : t.node top = some .dir
  linkless : Linkless t top

/-- What was there is there, no links are in the directory, and everything that was touched lies in it. -/
structure Confined (t : Tree) (top : Loc) (x : Extraction) : Prop where
  grows : Grows t x.tree
  linkless : Linkless x.tree top
  touched : ∀ loc ∈ x.touched, top <+: loc
  outside : ∀ loc, ¬ top <+: loc → x.tree.node loc = t.node loc

section Confined
variable {t : Tree} {cwd top : Loc} {dir : Text} {x : Extraction}

/-- A path that leads on from the directory by names ends where they say. -/
theorem walk_target (ht : Target t cwd dir top) (hx : Confined t top x) {names : List Name} {l : Loc}
    (hup : up ∉ names) (h : walk x.tree maxLinks (base (clean dir) cwd) (parts (clean dir) ++ names) = some l) :
    l = top ++ names := by
  have htop := hx.grows _ _ ht.isDir
  obtain ⟨links, hlinks⟩ := walk_append htop _ _ _ (hx.grows.walk ht.isDir _ _ _ ht.names)
  rw [hlinks] at h
  exact walk_linkless hx.linkless links names top l (List.prefix_refl top) hup h

/-- A node that is no link is added in the directory. -/
theorem Confined.add (hx : Confined t top x) {loc : Loc} {node : Node} {tree : Tree} (hloc : top <+: loc)
    (hnode : ∀ target, node ≠ .link target) (h : x.tree.add loc node = some tree) (calls fresh : ℕ) :
    Confined t top ⟨tree, loc :: x.touched, calls, fresh⟩ := by
  obtain ⟨-, -, hother, hgrows⟩ := add_eq_some h
  refine ⟨hx.grows.trans hgrows, hx.linkless.add h hnode, fun l hl => ?_, fun l hl => ?_⟩
  · rcases List.mem_cons.mp hl with rfl | hl
    · exact hloc
    · exact hx.touched l hl
  · have hne : l ≠ loc := by
      rintro rfl
      exact hl hloc
    exact (hother l hne).trans (hx.outside l hl)

theorem mkdir_confined (ht : Target t cwd dir top) (hx : Confined t top x) {names : List Name} (hup : up ∉ names)
    (name : Name) : (mkdir (base (clean dir) cwd) (parts (clean dir) ++ names) name).wp
      (fun _ => Confined t top) (fun _ => Confined t top) x := by
  rw [mkdir, wp_bind, wp_get, wp_ite]
  refine ⟨fun _ => hx, fun _ => ?_⟩
  cases hwalk : walk x.tree maxLinks (base (clean dir) cwd) (parts (clean dir) ++ names) with
  | none => exact hx
  | some loc =>
    obtain rfl := walk_target ht hx hup hwalk
    dsimp only
    cases hadd : x.tree.add (top ++ names ++ [name]) .dir with
    | none => exact hx
    | some tree =>
      have hloc : top <+: top ++ names ++ [name] := by
        rw [List.append_assoc]
        exact List.prefix_append top _
      exact hx.add hloc (fun _ h => by cases h) hadd _ _

/-- The directories that are made lie below the directory. -/
theorem mkdirAll_confined (ht : Target t cwd dir top) : ∀ (names : List Name) (x : Extraction), up ∉ names →
    Confined t top x → (mkdirAll (base (clean dir) cwd) (parts (clean dir) ++ names).reverse).wp
      (fun _ => Confined t top) (fun _ => Confined t top) x := by
  intro names
  induction names using List.reverseRecOn with
  | nil =>
    intro x _ hx
    rw [List.append_nil]
    have hwalk := hx.grows.walk ht.isDir _ _ _ ht.names
    cases hparts : (parts (clean dir)).reverse with
    | nil => exact hx
    | cons name rest =>
      have hreverse : (name :: rest).reverse = parts (clean dir) := by rw [← hparts, List.reverse_reverse]
      rw [mkdirAll, wp_bind, wp_get, hreverse, hwalk, Option.bind_some, hx.grows _ _ ht.isDir]
      exact hx
  | append_singleton names name ih =>
    intro x hup hx
    rw [List.mem_append, not_or] at hup
    have hreverse : (parts (clean dir) ++ (names ++ [name])).reverse =
        name :: (parts (clean dir) ++ names).reverse := by
      rw [← List.append_assoc, List.reverse_append]
      rfl
    rw [hreverse, mkdirAll, wp_bind, wp_get]
    have hmake : (mkdirAll (base (clean dir) cwd) (parts (clean dir) ++ names).reverse >>= fun _ =>
        mkdir (base (clean dir) cwd) (parts (clean dir) ++ names).reverse.reverse name).wp
          (fun _ => Confined t top) (fun _ => Confined t top) x := by
      rw [wp_bind, List.reverse_reverse]
      exact wp_mono (ih x hup.1 hx) (fun _ y hy => mkdir_confined ht hy hup.1 name) fun _ _ hy => hy
    split
    · exact hx
    · exact hx
    · exact hmake

theorem openFile_confined (ht : Target t cwd dir top) (hx : Confined t top x) {names : List Name} (hup : up ∉ names) :
    (openFile (base (clean dir) cwd) (parts (clean dir) ++ names)).wp
      (fun _ => Confined t top) (fun _ => Confined t top) x := by
  rw [openFile, wp_bind, wp_get, wp_ite]
  refine ⟨fun _ => hx, fun _ => ?_⟩
  cases hwalk : walk x.tree maxLinks (base (clean dir) cwd) (parts (clean dir) ++ names) with
  | none => exact hx
  | some loc =>
    obtain rfl := walk_target ht hx hup hwalk
    have hloc : top <+: top ++ names := List.prefix_append top names
    dsimp only
    split
    · refine ⟨hx.grows, hx.linkless, fun l hl => ?_, hx.outside⟩
      rcases List.mem_cons.mp hl with rfl | hl
      · exact hloc
      · exact hx.touched l hl
    · exact hx
    · cases hadd : x.tree.add (top ++ names) (.file x.fresh) with
      | none => exact hx
      | some tree => exact hx.add hloc (fun _ h => by cases h) hadd _ _

/-- The parent of a place in the directory: the directory itself may be the place. -/
theorem mkdirAll_parent_confined (ht : Target t cwd dir top) (hx : Confined t top x) {names : List Name}
    (hup : up ∉ names) : (mkdirAll (base (clean dir) cwd) (parts (clean dir) ++ names).dropLast.reverse).wp
      (fun _ => Confined t top) (fun _ => Confined t top) x := by
  rcases List.eq_nil_or_concat names with rfl | ⟨names, last, rfl⟩
  · rw [List.append_nil]
    have hstart : x.tree.node (base (clean dir) cwd) = some .dir := dir_base (hx.grows _ _ ht.process)
    have hwalk := hx.grows.walk ht.isDir _ _ _ ht.names
    rcases List.eq_nil_or_concat (parts (clean dir)) with hnil | ⟨above, name, hname⟩
    · rw [hnil]
      exact hx
    · rw [hname, List.concat_eq_append] at hwalk ⊢
      rw [List.dropLast_concat]
      obtain ⟨l, hl, hdir⟩ := walk_prefix (hx.grows _ _ ht.isDir) _ _ above [name] hstart hwalk
      cases hreverse : above.reverse with
      | nil => exact hx
      | cons last rest =>
        have habove : (last :: rest).reverse = above := by rw [← hreverse, List.reverse_reverse]
        rw [mkdirAll, wp_bind, wp_get, habove, hl, Option.bind_some, hdir]
        exact hx
  · rw [List.concat_eq_append] at hup ⊢
    rw [← List.append_assoc, List.dropLast_concat]
    exact mkdirAll_confined ht names x (fun h => hup (List.mem_append_left _ h)) hx

theorem extractMember_confined (ht : Target t cwd dir top) (hx : Confined t top x) (m : TarMember) :
    (extractMember cwd dir m).wp (fun _ => Confined t top) (fun _ => Confined t top) x := by
  rw [extractMember, wp_ite]
  refine ⟨fun _ => hx, fun _ => ?_⟩
  obtain ⟨baseNames, hbase, hclean⟩ := exists_cleaned dir
  obtain ⟨rooted, names, hnames, hjoin⟩ := @exists_join dir _ (clean_ne_nil m.name)
  cases hrel : rel dir (join dir (clean m.name)) with
  | none => exact hx
  | some way =>
    rw [wp_ite]
    refine ⟨fun _ => hx, fun hway => ?_⟩
    rw [not_or] at hway
    -- the target is the directory and names that lead on from it
    rw [← rel_clean, hjoin, hclean] at hrel
    obtain ⟨rfl, rest, rfl, hup⟩ := rel_spec hbase hnames hrel hway.1 hway.2
    have hparts : parts (join dir (clean m.name)) = parts (clean dir) ++ rest := by
      rw [hjoin, parts_render hnames, hclean, parts_render hbase]
    have hstart : base (join dir (clean m.name)) cwd = base (clean dir) cwd := by
      rw [base, base, hjoin, isAbs_render hnames, hclean, isAbs_render hbase]
    obtain ⟨hdirAbs, hdirParts⟩ := parts_dir hnames
    have hparent : parts (Filepath.dir (join dir (clean m.name))) = (parts (clean dir) ++ rest).dropLast := by
      rw [hjoin, hdirParts, hclean, parts_render hbase]
    have hparentStart : base (Filepath.dir (join dir (clean m.name))) cwd = base (clean dir) cwd := by
      rw [base, base, hjoin, hdirAbs, hclean, isAbs_render hbase]
    cases m.typeflag with
    | dir =>
      dsimp only
      rw [hparts, hstart]
      exact mkdirAll_confined ht rest x hup hx
    | reg =>
      dsimp only
      rw [hparts, hstart, hparent, hparentStart, wp_bind]
      refine wp_mono (mkdirAll_parent_confined ht hx hup) (fun _ y hy => ?_) fun _ _ hy => hy
      rw [wp_bind]
      refine wp_mono (openFile_confined ht hy hup) (fun _ z hz => ?_) fun _ _ hz => hz
      rw [wp_ite]
      exact ⟨fun _ => hz, fun _ => hz⟩
    | other => exact hx

theorem extractMembers_confined (ht : Target t cwd dir top) : ∀ (members : List TarMember) (x : Extraction),
    Confined t top x → (extractMembers cwd dir members).wp (fun _ => Confined t top) (fun _ => Confined t top) x := by
  intro members
  induction members with
  | nil => exact fun _ hx => hx
  | cons m members ih =>
    intro x hx
    rw [extractMembers, wp_bind]
    exact wp_mono (extractMember_confined ht hx m) (fun _ y hy => ih y hy) fun _ _ hy => hy

/-- Whatever the archive, and wherever the extraction ends: all it created or truncated lies in the
    directory, and nothing else of the file system has changed. -/
theorem extraction_confined (ht : Target t cwd dir top) (payload : Option TarStream) (calls fresh : ℕ) :
    let x := ((extractClientUpdate cwd dir payload).run ⟨t, [], calls, fresh⟩).2
    (∀ loc ∈ x.touched, top <+: loc) ∧ ∀ loc, ¬ top <+: loc → x.tree.node loc = t.node loc := by
  have hstart : Confined t top ⟨t, [], calls, fresh⟩ :=
    ⟨Grows.refl t, ht.linkless, fun _ h => absurd h List.not_mem_nil, fun _ _ => rfl⟩
  have hend : (extractClientUpdate cwd dir payload).wp (fun _ => Confined t top) (fun _ => Confined t top)
      ⟨t, [], calls, fresh⟩ := by
    cases payload with
    | none => exact hstart
    | some stream =>
      rw [extractClientUpdate, wp_bind]
      refine wp_mono (extractMembers_confined ht stream.members _ hstart) (fun _ y hy => ?_) fun _ _ hy => hy
      rw [wp_ite]
      exact ⟨fun _ => hy, fun _ => hy⟩
  have hconfined := wp_run hend
  exact ⟨hconfined.touched, hconfined.outside⟩

end Confined

/-! ### A directory -/

/-- `/tmp/update`. -/
def temporary : Tree := (Tree.bare.withDir ["tmp".toList]).withDir ["tmp".toList, "update".toList]

theorem linkless_temporary (top : Loc) : Linkless temporary top := ((linkless_bare top).withDir _).withDir _

/-- The first member is extracted to `/tmp/update`, the second ends the extraction. -/
theorem extraction_confined_temporary :
    let x := ((extractClientUpdate [] "/tmp/update".toList (some ⟨[⟨"a//./b".toList, .reg, true⟩,
      ⟨"..".toList, .dir, true⟩], true⟩)).run ⟨temporary, [], 9, 0⟩).2
    x.touched.length = 2 ∧ (∀ loc ∈ x.touched, ["tmp".toList, "update".toList] <+: loc) ∧
      ∀ loc, ¬ ["tmp".toList, "update".toList] <+: loc → x.tree.node loc = temporary.node loc :=
  ⟨by decide +kernel, extraction_confined
    ⟨by decide +kernel, by decide +kernel, by decide +kernel, linkless_temporary _⟩ _ 9 0⟩

end Client
