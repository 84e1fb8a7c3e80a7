import WireguardP2p.Lib.Raising
import WireguardP2p.Lib.FileTree
import WireguardP2p.Net.Address

/-! `manage/wireguard-p2p.py`: `safe_extract`, with `tarfile.extractall` of Python 3.6 as its source has it:
    upper directories are made, links are created as given, files are written through links. What follows
    the extraction, the attributes of the members and the removal of the archive, makes nothing. -/

namespace Manager
open Ipaddress FileTree Raising

/-- What extracting the member that a link names comes to, in the place of a link that cannot be made. -/
inductive Fallback
  | raised
  | ignored
  | file
  | dir
  deriving DecidableEq

inductive MemberKind
  | file
  | dir
  | symlink (linkname : Text) (fallback : Fallback)
  | hardlink (linkname : Text) (fallback : Fallback)
  deriving DecidableEq

structure Member where
  name : Text
  kind : MemberKind
  deriving DecidableEq

inductive ArchiveError
  | fileExists
  | osError
  | symlinkLoop
  | runtimeError (message : String)
  deriving DecidableEq

/-- A file or link that was created or overwritten, and the tree before. -/
structure Written where
  before : Tree
  loc : Loc

/-- The file system during the extraction; no file has the number `fresh` or a later one. -/
structure Unpacking where
  tree : Tree
  /-- What was created or overwritten, latest first. -/
  written : List Written
  fresh : ℕ

abbrev Unpack := Raising Unpacking ArchiveError Unit

/-! ### Paths -/

/-- `os.path.split(path.rstrip("/"))`, without names that lead nowhere; there is no last name to make if the
    path is empty or ends in `.` or `..`. -/
def leaf (path : Text) : Option (List Name × Name) :=
  match (path.splitOn '/').reverse.dropWhile (· = []) with
  | [] => none
  | name :: above =>
    if name = ['.'] ∨ name = up then none else some (above.reverse.filter fun n => n ≠ [] ∧ n ≠ ['.'], name)

/-- `os.path.dirname(path.rstrip("/"))`. -/
def upper (path : Text) : List Name :=
  ((path.splitOn '/').reverse.dropWhile (· = [])).tail.reverse.filter fun n => n ≠ [] ∧ n ≠ ['.']

/-- `os.path.exists`. -/
def pathExists (t : Tree) (start : Loc) (names : List Name) : Bool :=
  ((walk t maxLinks start names).bind t.node).isSome

section Target
variable (target : Loc) (links : ℕ)

/-- `(target / name).resolve()`; more than `links` links are a loop. -/
def destination (t : Tree) (name : Text) : Option Loc := trace t links (base name target) (parts name)

/-! ### The extraction -/

def mkdir (start : Loc) (above : List Name) (name : Name) : Unpack := do
  let u ← get
  match walk u.tree maxLinks start above with
  | none => raise .osError
  | some loc =>
    if name = up ∨ (u.tree.node (loc ++ [name])).isSome then raise .fileExists
    else match u.tree.add (loc ++ [name]) .dir with
      | none => raise .osError
      | some tree => modify fun u => { u with tree }

/-- `os.makedirs`; the last name comes first. -/
def makedirs (start : Loc) : List Name → Unpack
  | [] => raise .fileExists
  | name :: rest => do
    let u ← get
    if pathExists u.tree start rest.reverse then pure ()
    else handle (makedirs start rest) fun e => if e = .fileExists then pure () else raise e
    mkdir start rest.reverse name

/-- The upper directories of a member. -/
def makeUpper (m : Member) : Unpack := do
  let u ← get
  if pathExists u.tree (base m.name target) (upper m.name) then pure ()
  else makedirs (base m.name target) (upper m.name).reverse

/-- `open(targetpath, "wb")`. -/
def makeFile (m : Member) : Unpack := do
  let u ← get
  match leaf m.name, walk u.tree maxLinks (base m.name target) (parts m.name) with
  | some _, some loc =>
    match u.tree.node loc with
    | some (.file _) => modify fun u => { u with written := ⟨u.tree, loc⟩ :: u.written }
    | some _ => raise .osError
    | none => match u.tree.add loc (.file u.fresh) with
      | none => raise .osError
      | some tree => modify fun u => ⟨tree, ⟨u.tree, loc⟩ :: u.written, u.fresh + 1⟩
  | _, _ => raise .osError

/-- `os.mkdir(targetpath)`; a directory that exists is left alone. -/
def makeDir (m : Member) : Unpack :=
  match leaf m.name with
  | none => pure ()
  | some (above, name) =>
    handle (mkdir (base m.name target) above name) fun e => if e = .fileExists then pure () else raise e

/-- What a hard link to the path is a name of: a file, or a link; not a directory. -/
def linkedNode (t : Tree) (linkname : Text) : Option Node :=
  if pathExists t (base linkname target) (parts linkname) then
    match leaf linkname with
    | none => none
    | some (above, name) =>
      match (walk t maxLinks (base linkname target) above).bind fun loc => t.node (loc ++ [name]) with
      | some .dir => none
      | x => x
  else none

/-- The new link, if the link can be made: nothing is there, and what it is a name of exists. -/
def newLink (t : Tree) (name : Text) (x : Option Node) : Option (Tree × Loc) :=
  match x, leaf name with
  | some x, some (above, last) =>
    match walk t maxLinks (base name target) above with
    | none => none
    | some loc => (t.add (loc ++ [last]) x).map fun tree => (tree, loc ++ [last])
  | _, _ => none

/-- `makelink`. -/
def makeLink (m : Member) (x : Tree → Option Node) (fallback : Fallback) : Unpack := do
  let u ← get
  match newLink target u.tree m.name (x u.tree) with
  | some (tree, loc) => modify fun u => { u with tree, written := ⟨u.tree, loc⟩ :: u.written }
  | none => match fallback with
    | .raised => raise .osError
    | .ignored => pure ()
    | .file => makeFile target m
    | .dir => makeDir target m

/-- The member itself, once its upper directories are there. -/
def makeMember (m : Member) : Unpack :=
  match m.kind with
  | .file => makeFile target m
  | .dir => makeDir target m
  | .symlink linkname fallback => makeLink target m (fun _ => some (.link linkname)) fallback
  | .hardlink linkname fallback => makeLink target m (fun t => linkedNode target t linkname) fallback

def extractall : List Member → Unpack
  | [] => pure ()
  | m :: members => do
    makeUpper target m
    makeMember target m
    extractall members

/-- The test of one member. -/
def checkMember (m : Member) : Unpack := do
  let u ← get
  match destination target links u.tree m.name with
  | none => raise .symlinkLoop
  | some loc => if target <+: loc then pure () else raise (.runtimeError "unsafe update archive path")

def checkMembers : List Member → Unpack
  | [] => pure ()
  | m :: members => do
    checkMember target links m
    checkMembers members

/-- The archive is stored in the target. -/
def archiveMember : Member := ⟨"payload.tar.gz".toList, .file⟩

/-- `safe_extract`, into the resolved target. -/
def safeExtract (members : List Member) : Unpack := do
  makeFile target archiveMember
  checkMembers target links members
  extractall target members

/-! ### Where the members go -/

/-- What was written lies under the target, under every name it has. -/
def Lies (e : Written) : Prop := target <+: e.loc ∧ ∀ number loc, e.before.node e.loc = some (.file number) →
  e.before.node loc = some (.file number) → target <+: loc

/-- The member makes or overwrites a file or link: a link if it can be made, or its fallback is a file. -/
def Makes (t : Tree) (m : Member) : Prop :=
  match m.kind with
  | .file => True
  | .dir => False
  | .symlink linkname fallback => (newLink target t m.name (some (.link linkname))).isSome ∨ fallback = .file
  | .hardlink linkname fallback =>
    (newLink target t m.name (linkedNode target t linkname)).isSome ∨ fallback = .file

/-- The test of `safe_extract`, made in the tree `t`, and the file it finds has no name elsewhere. -/
def Safe (t : Tree) (m : Member) : Prop := ∃ loc, destination target links t m.name = some loc ∧ Lies target ⟨t, loc⟩

/-- Every member that makes something is safe when its turn comes. -/
def Turns : List Member → Unpacking → Prop
  | [], _ => True
  | m :: members, u => (makeUpper target m).wp
      (fun _ u' => (Makes target u'.tree m → Safe target links u'.tree m) ∧
        (makeMember target m).wp (fun _ => Turns members) (fun _ _ => True) u')
      (fun _ _ => True) u

theorem leaf_parts {path : Text} {above : List Name} {name : Name} (h : leaf path = some (above, name)) :
    parts path = above ++ [name] ∧ name ≠ up := by
  rw [leaf] at h
  cases hdrop : (path.splitOn '/').reverse.dropWhile (fun n => decide (n = [])) with
  | nil => simp [hdrop] at h
  | cons last rest =>
    simp only [hdrop] at h
    split_ifs at h with hlast
    obtain ⟨rfl, rfl⟩ := Prod.mk.inj (Option.some.inj h)
    rw [not_or] at hlast
    have hne : last ≠ [] := by
      have hhead := List.head?_dropWhile_not (fun n : Name => decide (n = [])) (path.splitOn '/').reverse
      rw [hdrop] at hhead
      simpa using hhead
    -- the names after the last one are empty
    have hempty : ((path.splitOn '/').reverse.takeWhile fun n => decide (n = [])).filter
        (fun n => decide (n ≠ [] ∧ n ≠ ['.'])) = [] := by
      rw [List.filter_eq_nil_iff]
      intro n hn hkeep
      have hnil := List.mem_takeWhile_imp hn
      exact (of_decide_eq_true hkeep).1 (by simpa using hnil)
    have hkeep : decide (last ≠ [] ∧ last ≠ ['.']) = true := decide_eq_true ⟨hne, hlast.1⟩
    refine ⟨?_, hlast.2⟩
    calc parts path
        = ((path.splitOn '/').reverse.filter fun n => n ≠ [] ∧ n ≠ ['.']).reverse := by
          rw [parts, ← List.filter_reverse, List.reverse_reverse]
      _ = ((last :: rest).filter fun n => n ≠ [] ∧ n ≠ ['.']).reverse := by
          rw [← @List.takeWhile_append_dropWhile _ (fun n : Name => decide (n = [])) (path.splitOn '/').reverse,
            List.filter_append, hempty, hdrop, List.nil_append]
      _ = (rest.reverse.filter fun n => n ≠ [] ∧ n ≠ ['.']) ++ [last] := by
          rw [@List.filter_cons_of_pos _ (fun n : Name => decide (n ≠ [] ∧ n ≠ ['.'])) last rest hkeep,
            List.reverse_cons, List.filter_reverse]

variable {target links}

/-- A file is written where the test says. -/
theorem makeFile_spec (hlinks : maxLinks ≤ links) (m : Member) (u : Unpacking) : (makeFile target m).wp
    (fun _ u' => ∃ loc, destination target links u.tree m.name = some loc ∧ u'.written = ⟨u.tree, loc⟩ :: u.written)
    (fun _ _ => True) u := by
  rw [makeFile, wp_bind, wp_get]
  cases hleaf : leaf m.name with
  | none => exact trivial
  | some leaf =>
    cases hwalk : walk u.tree maxLinks (base m.name target) (parts m.name) with
    | none => exact trivial
    | some loc =>
      have hdestination : destination target links u.tree m.name = some loc := trace_of_walk hlinks hwalk
      dsimp only
      split
      · exact ⟨loc, hdestination, rfl⟩
      · exact trivial
      · cases hadd : u.tree.add loc (.file u.fresh) with
        | none => exact trivial
        | some tree => exact ⟨loc, hdestination, rfl⟩

theorem mkdir_written (start : Loc) (above : List Name) (name : Name) (written : List Written) :
    Keeps (fun u => u.written = written) (mkdir start above name) := by
  intro u hu
  rw [mkdir, wp_bind, wp_get]
  split
  · exact hu
  · rw [wp_ite]
    refine ⟨fun _ => hu, fun _ => ?_⟩
    split
    · exact hu
    · exact hu

theorem makedirs_written (start : Loc) (written : List Written) : ∀ names : List Name,
    Keeps (fun u => u.written = written) (makedirs start names) := by
  intro names
  induction names with
  | nil => exact fun _ hu => hu
  | cons name rest ih =>
    rw [makedirs]
    refine Keeps.bind Keeps.get fun u => Keeps.ite (fun _ => mkdir_written start _ name written) fun _ => ?_
    refine Keeps.bind (Keeps.handle ih fun e => ?_) fun _ => mkdir_written start _ name written
    exact Keeps.ite (fun _ => Keeps.pure ()) fun _ => Keeps.raise e

theorem makeUpper_written (m : Member) (written : List Written) :
    Keeps (fun u => u.written = written) (makeUpper target m) :=
  Keeps.bind Keeps.get fun _ => Keeps.ite (fun _ => Keeps.pure ()) fun _ => makedirs_written _ written _

theorem makeDir_written (m : Member) (written : List Written) :
    Keeps (fun u => u.written = written) (makeDir target m) := by
  rw [makeDir]
  split
  · exact Keeps.pure ()
  · exact Keeps.handle (mkdir_written _ _ _ written) fun e => Keeps.ite (fun _ => Keeps.pure ()) fun _ => Keeps.raise e

/-- A link is made where the test says, and nothing was there. -/
theorem newLink_spec (hlinks : maxLinks ≤ links) {t tree : Tree} {name : Text} {x : Option Node} {loc : Loc}
    (h : newLink target t name x = some (tree, loc)) :
    destination target links t name = some loc := by
  cases x with
  | none => cases h
  | some x =>
    cases hleaf : leaf name with
    | none => simp [newLink, hleaf] at h
    | some l =>
      obtain ⟨above, last⟩ := l
      obtain ⟨hparts, hup⟩ := leaf_parts hleaf
      cases hwalk : walk t maxLinks (base name target) above with
      | none => simp [newLink, hleaf, hwalk] at h
      | some dir =>
        simp only [newLink, hleaf, hwalk] at h
        obtain ⟨tree', hadd, heq⟩ := Option.map_eq_some_iff.mp h
        obtain ⟨rfl, rfl⟩ := Prod.mk.inj heq
        have hwalk' := walk_concat (dir_of_add hadd) hwalk hup (add_eq_some hadd).1
        rw [← hparts] at hwalk'
        exact trace_of_walk hlinks hwalk'

/-- What a member adds to what was written. -/
def Adds (m : Member) (u u' : Unpacking) : Prop :=
  (Makes target u.tree m → ∃ loc, destination target links u.tree m.name = some loc ∧
      u'.written = ⟨u.tree, loc⟩ :: u.written) ∧
    (¬ Makes target u.tree m → u'.written = u.written)

theorem makeLink_spec (hlinks : maxLinks ≤ links) (m : Member) (x : Tree → Option Node) (fallback : Fallback)
    (u : Unpacking) (hmakes : Makes target u.tree m ↔
      (newLink target u.tree m.name (x u.tree)).isSome ∨ fallback = .file) :
    (makeLink target m x fallback).wp (fun _ => @Adds target links m u) (fun _ _ => True) u := by
  unfold makeLink
  rw [wp_bind, wp_get]
  cases hnew : newLink target u.tree m.name (x u.tree) with
  | some new =>
    obtain ⟨tree, loc⟩ := new
    rw [hnew] at hmakes
    exact ⟨fun _ => ⟨loc, newLink_spec hlinks hnew, rfl⟩, fun hnot => absurd (hmakes.mpr (.inl rfl)) hnot⟩
  | none =>
    rw [hnew] at hmakes
    have hnot : fallback ≠ .file → ¬ Makes target u.tree m := fun hne h => by
      rcases hmakes.mp h with h | h
      · cases h
      · exact hne h
    cases fallback with
    | raised => exact trivial
    | ignored => exact ⟨fun h => absurd h (hnot (by decide)), fun _ => rfl⟩
    | file =>
      refine wp_mono (makeFile_spec hlinks m u) (fun _ u' h => ?_) fun _ _ h => h
      exact ⟨fun _ => h, fun h => absurd (hmakes.mpr (.inr rfl)) h⟩
    | dir =>
      refine wp_mono (makeDir_written m u.written u rfl) (fun _ u' h => ?_) fun _ _ _ => trivial
      exact ⟨fun h => absurd h (hnot (by decide)), fun _ => h⟩

theorem makeMember_spec (hlinks : maxLinks ≤ links) (m : Member) (u : Unpacking) :
    (makeMember target m).wp (fun _ => @Adds target links m u) (fun _ _ => True) u := by
  rw [makeMember]
  cases hkind : m.kind with
  | file =>
    refine wp_mono (makeFile_spec hlinks m u) (fun _ u' h => ?_) fun _ _ h => h
    exact ⟨fun _ => h, fun h => absurd (by rw [Makes, hkind]; exact trivial) h⟩
  | dir =>
    refine wp_mono (makeDir_written m u.written u rfl) (fun _ u' h => ?_) fun _ _ _ => trivial
    exact ⟨fun hm => absurd hm (by rw [Makes, hkind]; exact fun h => h), fun _ => h⟩
  | symlink linkname fallback => exact makeLink_spec hlinks m _ fallback u (by rw [Makes, hkind])
  | hardlink linkname fallback => exact makeLink_spec hlinks m _ fallback u (by rw [Makes, hkind])

/-- What a member makes lies under the target exactly if it is safe. -/
theorem lies_iff {m : Member} {u u' : Unpacking} (h : @Adds target links m u u') :
    (∀ e ∈ u'.written, Lies target e) ↔
      (∀ e ∈ u.written, Lies target e) ∧ (Makes target u.tree m → Safe target links u.tree m) := by
  by_cases hmakes : Makes target u.tree m
  · obtain ⟨loc, hdestination, hwritten⟩ := h.1 hmakes
    rw [hwritten, List.forall_mem_cons, and_comm]
    refine and_congr_right fun _ => ⟨fun hlies _ => ⟨loc, hdestination, hlies⟩, fun hsafe => ?_⟩
    obtain ⟨loc', hloc', hlies⟩ := hsafe hmakes
    obtain rfl := Option.some.inj (hdestination.symm.trans hloc')
    exact hlies
  · rw [h.2 hmakes]
    exact ⟨fun hlies => ⟨hlies, fun hm => absurd hm hmakes⟩, fun hlies => hlies.1⟩

/-- The run: everything written lies under the target exactly if every member is safe at its turn. -/
theorem extractall_spec (hlinks : maxLinks ≤ links) : ∀ (members : List Member) (u : Unpacking),
    (extractall target members).wp (fun _ u' => (∀ e ∈ u'.written, Lies target e) ↔
      (∀ e ∈ u.written, Lies target e) ∧ Turns target links members u) (fun _ _ => True) u := by
  intro members
  induction members with
  | nil => exact fun u => ⟨fun h => ⟨h, trivial⟩, fun h => h.1⟩
  | cons m members ih =>
    intro u
    rw [extractall, wp_bind]
    rcases hupper : (makeUpper target m).run u with ⟨_ | _, u₁⟩
    · exact (wp_iff_of_error hupper).mpr trivial
    · rw [wp_iff_of_ok hupper, wp_bind]
      have hsame := wp_ok (makeUpper_written m u.written u rfl) hupper
      rcases hmember : (makeMember target m).run u₁ with ⟨_ | _, u₂⟩
      · exact (wp_iff_of_error hmember).mpr trivial
      · rw [wp_iff_of_ok hmember]
        have hturns : Turns target links (m :: members) u ↔
            (Makes target u₁.tree m → Safe target links u₁.tree m) ∧ Turns target links members u₂ := by
          rw [Turns, wp_iff_of_ok hupper, wp_iff_of_ok hmember]
        have hadds := wp_ok (makeMember_spec hlinks m u₁) hmember
        refine wp_mono (ih u₂) (fun _ u' h => ?_) fun _ _ _ => trivial
        rw [h, hturns, lies_iff hadds, hsame, and_assoc]

theorem checkMembers_state (members : List Member) (u₀ : Unpacking) :
    Keeps (fun u => u = u₀) (checkMembers target links members) := by
  induction members with
  | nil => exact Keeps.pure ()
  | cons m members ih =>
    refine Keeps.bind (Keeps.bind Keeps.get fun u => ?_) fun _ => ih
    cases destination target links u.tree m.name with
    | none => exact Keeps.raise _
    | some loc => exact Keeps.ite (fun _ => Keeps.pure ()) fun _ => Keeps.raise _

theorem destination_archive {t : Tree} (hfresh : ∀ name, t.node (target ++ [name]) = none) :
    destination target links t archiveMember.name = some (target ++ [archiveMember.name]) := by
  have hbase : base archiveMember.name target = target := by
    rw [base, if_neg (by decide)]
  have hparts : parts archiveMember.name = [archiveMember.name] := by decide +kernel
  have hup : archiveMember.name ≠ up := by decide
  rw [destination, hbase, hparts]
  cases links <;> rw [trace, traceWith, if_neg hup, hfresh] <;> rfl

end Target

/-! ### Archives -/

/-- `/etc`, and `/tmp/update`, into which the archives are extracted. -/
def installed : Tree :=
  ((Tree.bare.withDir ["etc".toList]).withDir ["tmp".toList]).withDir ["tmp".toList, "update".toList]

def updateDir : Loc := ["tmp".toList, "update".toList]

/-- A link out of the directory, and a file through it. -/
def linkArchive : List Member :=
  [⟨"x".toList, .symlink "/etc".toList .raised⟩, ⟨"x/passwd".toList, .file⟩]

/-- A directory and a file in it. -/
def plainArchive : List Member := [⟨"a".toList, .dir⟩, ⟨"a/b".toList, .file⟩]

theorem fresh_updateDir (name : Name) : installed.node (updateDir ++ [name]) = none := by
  have hlength : (updateDir ++ [name]).length = 3 := rfl
  have hne : ∀ loc : Loc, loc.length ≠ 3 → updateDir ++ [name] ≠ loc := by
    rintro loc h rfl
    exact h hlength
  rw [installed, withDir_of_ne (hne _ (by decide)), withDir_of_ne (hne _ (by decide)),
    withDir_of_ne (hne _ (by decide)), bare_of_ne (hne _ (by decide))]

end Manager
