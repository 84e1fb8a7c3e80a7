import WireguardP2p.Net.Address

/-! `manage/wireguard-p2p.py`: `backup_files`, `restore_files`, and a block of installing statements any of
    which may raise. A path is the list of its parts. A statement that raises has left the file it was
    writing as it was, or with any content; none of the others is half done. -/

namespace Manager
open Ipaddress

abbrev Path := List Text
abbrev Bytes := List UInt8

/-- `str(path)`. -/
def Path.text (p : Path) : Text := '/' :: ['/'].intercalate p

/-- `path.name`. -/
def Path.name (p : Path) : Text := p.getLastD []

/-- The regular files by their content, the symbolic links by what they name. -/
structure Disk where
  file : Path → Option Bytes
  link : Path → Option Text

namespace Disk

def write (p : Path) (content : Bytes) (d : Disk) : Disk :=
  { d with file := Function.update d.file p (some content) }

/-- `unlink_if_exists`. -/
def unlink (p : Path) (d : Disk) : Disk :=
  ⟨Function.update d.file p none, Function.update d.link p none⟩

def symlink (target : Text) (p : Path) (d : Disk) : Disk :=
  { d with link := Function.update d.link p (some target) }

/-- `os.replace`. -/
def replace (source target : Path) (d : Disk) : Disk :=
  ⟨Function.update (Function.update d.file target (d.file source)) source none,
    Function.update (Function.update d.link target (d.link source)) source none⟩

/-- `shutil.rmtree`. -/
def rmtree (root : Path) (d : Disk) : Disk :=
  ⟨fun p => if root <+: p then none else d.file p, fun p => if root <+: p then none else d.link p⟩

variable {p q : Path} {content : Bytes} {target : Text} {d : Disk}

@[simp] theorem write_link : (d.write p content).link = d.link := rfl
@[simp] theorem write_file_self : (d.write p content).file p = some content := Function.update_self ..
@[simp] theorem write_file (h : q ≠ p) : (d.write p content).file q = d.file q := Function.update_of_ne h ..

theorem rmtree_file {root : Path} (h : ¬ root <+: p) : (d.rmtree root).file p = d.file p := if_neg h
theorem rmtree_link {root : Path} (h : ¬ root <+: p) : (d.rmtree root).link p = d.link p := if_neg h

@[simp] theorem symlink_file : (d.symlink target p).file = d.file := rfl
@[simp] theorem symlink_link_self : (d.symlink target p).link p = some target := Function.update_self ..
@[simp] theorem symlink_link (h : q ≠ p) : (d.symlink target p).link q = d.link q := Function.update_of_ne h ..
@[simp] theorem unlink_file (h : q ≠ p) : (d.unlink p).file q = d.file q := Function.update_of_ne h ..
@[simp] theorem unlink_link (h : q ≠ p) : (d.unlink p).link q = d.link q := Function.update_of_ne h ..

theorem replace_file {r : Path} (hq : r ≠ q) (hp : r ≠ p) : (d.replace q p).file r = d.file r := by
  simp [replace, hq, hp]

theorem replace_link {r : Path} (hq : r ≠ q) (hp : r ≠ p) : (d.replace q p).link r = d.link r := by
  simp [replace, hq, hp]

theorem replace_link_target (h : p ≠ q) : (d.replace q p).link p = d.link q := by
  simp [replace, h]

end Disk

/-! ### The copies -/

/-- The loop of `backup_files`: the disk with the copies, and the record. -/
def backupLoop (root : Path) : List Path → Disk → Disk × List (Path × Path)
  | [], d => (d, [])
  | p :: ps, d =>
    match d.file p with
    | none => backupLoop root ps d
    | some content =>
      let copy := root ++ [p.name]
      let rest := backupLoop root ps (d.write copy content)
      (rest.1, (p, copy) :: rest.2)

/-- `backup_files`. -/
def backupFiles (paths : List Path) (root : Path) (d : Disk) : Disk × List (Path × Path) :=
  backupLoop root paths (d.rmtree root)

/-- `restore_files`; the copies are there and can be read. -/
def restoreFiles : List (Path × Path) → Disk → Disk
  | [], d => d
  | (target, copy) :: record, d =>
    restoreFiles record (match d.file copy with
      | none => d
      | some content => d.write target content)

/-- What may be backed up: no two files of one name, none of them below the copies. -/
structure Managed (paths : List Path) (root : Path) : Prop where
  names : (paths.map Path.name).Nodup
  outside : ∀ p ∈ paths, ¬ root <+: p

theorem Managed.tail {p : Path} {ps : List Path} {root : Path} (h : Managed (p :: ps) root) : Managed ps root :=
  ⟨(List.nodup_cons.mp h.names).2, fun q hq => h.outside q (List.mem_cons_of_mem p hq)⟩

section Backup
variable {root : Path}

theorem not_prefix_ne {p : Path} {name : Text} (h : ¬ root <+: p) : p ≠ root ++ [name] := by
  rintro rfl
  exact h (List.prefix_append root [name])

/-- The record: the files that exist, each with its copy. -/
theorem backupLoop_spec : ∀ {paths : List Path} {d : Disk}, Managed paths root →
    (∀ q, ¬ root <+: q → (backupLoop root paths d).1.file q = d.file q) ∧
    (backupLoop root paths d).1.link = d.link ∧
    (∀ q b, (q, b) ∈ (backupLoop root paths d).2 ↔ q ∈ paths ∧ d.file q ≠ none ∧ b = root ++ [q.name]) ∧
    (∀ q ∈ paths, d.file q ≠ none → (backupLoop root paths d).1.file (root ++ [q.name]) = d.file q) ∧
    (∀ name, name ∉ paths.map Path.name →
      (backupLoop root paths d).1.file (root ++ [name]) = d.file (root ++ [name])) := by
  intro paths
  induction paths with
  | nil => exact fun _ => ⟨fun _ _ => rfl, rfl, by simp [backupLoop], by simp, fun _ _ => rfl⟩
  | cons p ps ih =>
    intro d hmanaged
    have hp : ¬ root <+: p := hmanaged.outside p List.mem_cons_self
    obtain ⟨hname, -⟩ := List.nodup_cons.mp hmanaged.names
    rw [backupLoop]
    cases hfile : d.file p with
    | none =>
      obtain ⟨houtside, hlink, hrecord, hcopy, hother⟩ := @ih d hmanaged.tail
      refine ⟨houtside, hlink, fun q b => ?_, fun q hq hne => ?_, fun name hn => ?_⟩
      · rw [hrecord, List.mem_cons]
        constructor
        · rintro ⟨hq, hrest⟩
          exact ⟨.inr hq, hrest⟩
        · rintro ⟨rfl | hq, hne, hb⟩
          · exact absurd hfile hne
          · exact ⟨hq, hne, hb⟩
      · rcases List.mem_cons.mp hq with rfl | hq
        · exact absurd hfile hne
        · exact hcopy q hq hne
      · rw [List.map_cons, List.mem_cons, not_or] at hn
        exact hother name hn.2
    | some content =>
      dsimp only
      obtain ⟨houtside, hlink, hrecord, hcopy, hother⟩ :=
        @ih (d.write (root ++ [p.name]) content) hmanaged.tail
      have hkept : ∀ q, ¬ root <+: q → (d.write (root ++ [p.name]) content).file q = d.file q :=
        fun q hq => Disk.write_file (not_prefix_ne hq)
      refine ⟨fun q hq => (houtside q hq).trans (hkept q hq), hlink, fun q b => ?_, fun q hq hne => ?_,
        fun name hn => ?_⟩
      · rw [List.mem_cons, hrecord, List.mem_cons]
        constructor
        · rintro (h | ⟨hq, hne, hb⟩)
          · obtain ⟨rfl, rfl⟩ := Prod.mk.inj h
            exact ⟨.inl rfl, by simp [hfile], rfl⟩
          · rw [hkept q (hmanaged.tail.outside q hq)] at hne
            exact ⟨.inr hq, hne, hb⟩
        · rintro ⟨rfl | hq, hne, rfl⟩
          · exact .inl rfl
          · exact .inr ⟨hq, by rwa [hkept q (hmanaged.tail.outside q hq)], rfl⟩
      · rcases List.mem_cons.mp hq with rfl | hq
        · rw [hother q.name hname, Disk.write_file_self, hfile]
        · rw [hcopy q hq (by rwa [hkept q (hmanaged.tail.outside q hq)]), hkept q (hmanaged.tail.outside q hq)]
      · rw [List.map_cons, List.mem_cons, not_or] at hn
        rw [hother name hn.2, Disk.write_file]
        exact fun h => hn.1 (List.singleton_injective (List.append_cancel_left h))

/-- Restoring writes the recorded files and no others. -/
theorem restoreFiles_spec {contents : Path → Option Bytes} : ∀ {record : List (Path × Path)} {d : Disk},
    (∀ p b, (p, b) ∈ record → root <+: b ∧ ¬ root <+: p ∧ contents p ≠ none ∧ d.file b = contents p) →
    (restoreFiles record d).link = d.link ∧
    (∀ p, (∃ b, (p, b) ∈ record) → (restoreFiles record d).file p = contents p) ∧
    (∀ p, (∀ b, (p, b) ∉ record) → (restoreFiles record d).file p = d.file p) := by
  intro record
  induction record with
  | nil => exact fun _ => ⟨rfl, by simp, fun _ _ => rfl⟩
  | cons entry record ih =>
    obtain ⟨target, copy⟩ := entry
    intro d hrecord
    obtain ⟨hcopy, htarget, hcontents, hfile⟩ := hrecord target copy List.mem_cons_self
    obtain ⟨content, hcontent⟩ := Option.ne_none_iff_exists'.mp hcontents
    rw [restoreFiles, hfile, hcontent]
    dsimp only
    have hbelow : ∀ b, root <+: b → (d.write target content).file b = d.file b := by
      rintro b hb
      refine Disk.write_file ?_
      rintro rfl
      exact htarget hb
    obtain ⟨hlink, hin, hout⟩ := @ih (d.write target content) fun p b hpb => by
      obtain ⟨hb, hp, hne, heq⟩ := hrecord p b (List.mem_cons_of_mem _ hpb)
      exact ⟨hb, hp, hne, (hbelow b hb).trans heq⟩
    refine ⟨hlink, fun p hp => ?_, fun p hp => ?_⟩
    · by_cases hagain : ∃ b, (p, b) ∈ record
      · exact hin p hagain
      · obtain ⟨b, hb⟩ := hp
        rcases List.mem_cons.mp hb with hb | hb
        · obtain ⟨rfl, rfl⟩ := Prod.mk.inj hb
          rw [hout p (not_exists.mp hagain), Disk.write_file_self, hcontent]
        · exact absurd ⟨b, hb⟩ hagain
    · have hne : p ≠ target := by
        rintro rfl
        exact hp copy List.mem_cons_self
      rw [hout p fun b hb => hp b (List.mem_cons_of_mem _ hb), Disk.write_file hne]

end Backup

/-! ### The block -/

/-- A statement of an installing block. -/
inductive Step
  | mkdir (path : Path)
  /-- `write_text`, `write_bytes` and `shutil.copy2`. -/
  | write (path : Path) (content : Bytes)
  | unlink (path : Path)
  | symlink (target : Text) (path : Path)
  | replace (source target : Path)
  | chmod (path : Path)
  | command (arguments : List String)
  /-- The poll of the new service, which raises at its deadline. -/
  | health

namespace Step

/-- What the statement does to files and links. -/
def perform : Step → Disk → Disk
  | write p content => Disk.write p content
  | unlink p => Disk.unlink p
  | symlink target p => Disk.symlink target p
  | replace source target => Disk.replace source target
  | _ => id

/-- What it has done when it raises: `left` is what a file being written is left with, if anything. -/
def raise (left : Option Bytes) : Step → Disk → Disk
  | write p _ => fun d => left.elim d fun content => d.write p content
  | _ => id

/-- The file the statement writes. -/
def written : Step → List Path
  | write p _ => [p]
  | _ => []

/-- The paths the statement unlinks or renames. -/
def moved : Step → List Path
  | unlink p => [p]
  | replace source target => [source, target]
  | _ => []

/-- The paths at which it makes, unlinks or renames a link. -/
def linked : Step → List Path
  | unlink p => [p]
  | symlink _ p => [p]
  | replace source target => [source, target]
  | _ => []

end Step

/-- The block, when its statement number `k` raises. -/
def attempt (left : Option Bytes) : List Step → ℕ → Disk → Disk
  | [], _ => id
  | s :: _, 0 => s.raise left
  | s :: rest, k + 1 => fun d => attempt left rest k (s.perform d)

/-- The files the block has written by then. -/
def reached (left : Option Bytes) : List Step → ℕ → List Path
  | [], _ => []
  | s :: _, 0 => if left = none then [] else s.written
  | s :: rest, k + 1 => s.written ++ reached left rest k

section Attempt
variable {left : Option Bytes} {p : Path}

theorem perform_file {s : Step} {d : Disk} (h : p ∉ s.moved) :
    (p ∈ s.written → (s.perform d).file p ≠ none) ∧ (p ∉ s.written → (s.perform d).file p = d.file p) := by
  cases s with
  | write q content =>
    by_cases hpq : p = q
    · subst hpq
      simp [Step.written, Step.perform]
    · simp [Step.written, Step.perform, hpq]
  | unlink q => exact ⟨by simp [Step.written], fun _ => Disk.unlink_file (List.ne_of_not_mem_cons h)⟩
  | replace q r =>
    obtain ⟨hq, hr⟩ := not_or.mp (mt List.mem_pair.mpr h)
    exact ⟨by simp [Step.written], fun _ => Disk.replace_file hq hr⟩
  | _ => exact ⟨by simp [Step.written], fun _ => rfl⟩

theorem raise_file {s : Step} {d : Disk} :
    (left ≠ none → p ∈ s.written → (s.raise left d).file p ≠ none) ∧
      (left = none ∨ p ∉ s.written → (s.raise left d).file p = d.file p) := by
  cases s with
  | write q content =>
    cases left with
    | none => exact ⟨fun h => absurd rfl h, fun _ => rfl⟩
    | some part =>
      by_cases hpq : p = q
      · subst hpq
        simp [Step.written, Step.raise]
      · simp [Step.written, Step.raise, hpq]
  | _ => exact ⟨by simp [Step.written], fun _ => rfl⟩

theorem perform_link {s : Step} {d : Disk} (h : p ∉ s.linked) : (s.perform d).link p = d.link p := by
  cases s with
  | unlink q => exact Disk.unlink_link (List.ne_of_not_mem_cons h)
  | symlink target q => exact Disk.symlink_link (List.ne_of_not_mem_cons h)
  | replace q r =>
    obtain ⟨hq, hr⟩ := not_or.mp (mt List.mem_pair.mpr h)
    exact Disk.replace_link hq hr
  | _ => rfl

/-- A file is there when the block has written it, and is as before when it has not. -/
theorem attempt_file : ∀ {steps : List Step} {k : ℕ} {d : Disk}, (∀ s ∈ steps, p ∉ s.moved) →
    ((d.file p ≠ none ∨ p ∈ reached left steps k) → (attempt left steps k d).file p ≠ none) ∧
      (p ∉ reached left steps k → (attempt left steps k d).file p = d.file p) := by
  intro steps
  induction steps with
  | nil => exact fun _ => ⟨by simp [reached, attempt], fun _ => rfl⟩
  | cons s rest ih =>
    intro k d hsteps
    have hs : p ∉ s.moved := hsteps s List.mem_cons_self
    cases k with
    | zero =>
      obtain ⟨hin, hout⟩ := @raise_file left p s d
      rw [reached, attempt]
      by_cases hleft : left = none
      · rw [if_pos hleft, hout (.inl hleft)]
        exact ⟨by simp, fun _ => rfl⟩
      · rw [if_neg hleft]
        by_cases hp : p ∈ s.written
        · exact ⟨fun _ => hin hleft hp, fun h => absurd hp h⟩
        · rw [hout (.inr hp)]
          exact ⟨fun h => h.resolve_right hp, fun _ => rfl⟩
    | succ k =>
      obtain ⟨hin, hout⟩ := @perform_file p s d hs
      obtain ⟨hrest, hkept⟩ := @ih k (s.perform d) fun t ht => hsteps t (List.mem_cons_of_mem s ht)
      rw [reached, attempt]
      constructor
      · rintro (hfile | hp)
        · refine hrest (.inl ?_)
          by_cases hw : p ∈ s.written
          · exact hin hw
          · rwa [hout hw]
        · rcases List.mem_append.mp hp with hp | hp
          · exact hrest (.inl (hin hp))
          · exact hrest (.inr hp)
      · intro hp
        rw [List.mem_append, not_or] at hp
        rw [hkept hp.2, hout hp.1]

theorem not_mem_reached : ∀ {steps : List Step} {k : ℕ}, (∀ s ∈ steps, p ∉ s.written) →
    p ∉ reached left steps k := by
  intro steps
  induction steps with
  | nil => simp [reached]
  | cons s rest ih =>
    intro k h
    have hs := h s List.mem_cons_self
    cases k with
    | zero =>
      rw [reached]
      split_ifs
      · exact List.not_mem_nil
      · exact hs
    | succ k =>
      rw [reached, List.mem_append, not_or]
      exact ⟨hs, ih fun t ht => h t (List.mem_cons_of_mem s ht)⟩

/-- A link is as before unless a statement names it. -/
theorem attempt_link : ∀ {steps : List Step} {k : ℕ} {d : Disk}, (∀ s ∈ steps, p ∉ s.linked) →
    (attempt left steps k d).link p = d.link p := by
  intro steps
  induction steps with
  | nil => exact fun _ => rfl
  | cons s rest ih =>
    intro k d h
    cases k with
    | zero =>
      rw [attempt]
      cases s with
      | write q content => cases left <;> rfl
      | _ => rfl
    | succ k =>
      rw [attempt, ih fun t ht => h t (List.mem_cons_of_mem s ht), perform_link (h s List.mem_cons_self)]

theorem foldl_link : ∀ {steps : List Step} {d : Disk}, (∀ s ∈ steps, p ∉ s.linked) →
    (steps.foldl (fun d s => s.perform d) d).link p = d.link p := by
  intro steps
  induction steps with
  | nil => exact fun _ => rfl
  | cons s rest ih =>
    intro d h
    rw [List.foldl_cons, ih fun t ht => h t (List.mem_cons_of_mem s ht), perform_link (h s List.mem_cons_self)]

theorem attempt_append {a b : List Step} : ∀ {k : ℕ} {d : Disk},
    attempt left (a ++ b) k d = if k < a.length then attempt left a k d
      else attempt left b (k - a.length) (a.foldl (fun d s => s.perform d) d) := by
  induction a with
  | nil => simp
  | cons s a ih =>
    intro k d
    cases k with
    | zero => simp [attempt]
    | succ k => simp [attempt, ih]

end Attempt

/-! ### The rollback -/

/-- The block under `except Exception: restore_files(backup)`, when its statement number `k` raises. -/
def rolledBack (paths : List Path) (root : Path) (steps : List Step) (left : Option Bytes) (k : ℕ) (d : Disk) :
    Disk :=
  let backup := backupFiles paths root d
  restoreFiles backup.2 (attempt left steps k backup.1)

/-- The block neither moves a managed file nor touches the copies. -/
structure Installs (paths : List Path) (root : Path) (steps : List Step) : Prop where
  managed : Managed paths root
  leaves : ∀ p ∈ paths, p ∉ steps.flatMap Step.moved
  copies : ∀ b ∈ steps.flatMap Step.moved ++ steps.flatMap Step.written, ¬ root <+: b

section Rollback
variable {paths : List Path} {root : Path} {steps : List Step} {left : Option Bytes} {k : ℕ} {d : Disk}

theorem backupFiles_link {p : Path} (h : Managed paths root) (hp : ¬ root <+: p) :
    (backupFiles paths root d).1.link p = d.link p := by
  rw [backupFiles, (backupLoop_spec h).2.1, Disk.rmtree_link hp]

/-- The copies survive the block. -/
theorem copies_kept (h : Installs paths root steps) :
    ∀ p b, (p, b) ∈ (backupFiles paths root d).2 → root <+: b ∧ ¬ root <+: p ∧ (d.rmtree root).file p ≠ none ∧
      (attempt left steps k (backupFiles paths root d).1).file b = (d.rmtree root).file p := by
  obtain ⟨-, -, hrecord, hcopy, -⟩ := @backupLoop_spec root paths (d.rmtree root) h.managed
  intro p b hpb
  obtain ⟨hp, hne, rfl⟩ := (hrecord p b).mp hpb
  have hb : root <+: root ++ [p.name] := List.prefix_append root [p.name]
  refine ⟨hb, h.managed.outside p hp, hne, ?_⟩
  have hmoved : ∀ s ∈ steps, root ++ [p.name] ∉ s.moved := fun s hs hmem =>
    h.copies _ (List.mem_append_left _ (List.mem_flatMap.mpr ⟨s, hs, hmem⟩)) hb
  have hwritten : ∀ s ∈ steps, root ++ [p.name] ∉ s.written := fun s hs hmem =>
    h.copies _ (List.mem_append_right _ (List.mem_flatMap.mpr ⟨s, hs, hmem⟩)) hb
  rw [(attempt_file hmoved).2 (not_mem_reached hwritten)]
  exact hcopy p hp hne

/-- A managed file is as before exactly if it existed, or was not yet written. -/
theorem rolledBack_file (h : Installs paths root steps) {p : Path} (hp : p ∈ paths) :
    (rolledBack paths root steps left k d).file p = d.file p ↔
      (d.file p = none → p ∉ reached left steps k) := by
  obtain ⟨houtside, -, hrecord, -, -⟩ := @backupLoop_spec root paths (d.rmtree root) h.managed
  obtain ⟨-, hin, hout⟩ := restoreFiles_spec (@copies_kept paths root steps left k d h)
  have hroot : ¬ root <+: p := h.managed.outside p hp
  by_cases hexists : d.file p = none
  · have habsent : ∀ b, (p, b) ∉ (backupFiles paths root d).2 := fun b hb =>
      ((hrecord p b).mp hb).2.1 ((Disk.rmtree_file hroot).trans hexists)
    have hbefore : (backupFiles paths root d).1.file p = d.file p :=
      (houtside p hroot).trans (Disk.rmtree_file hroot)
    obtain ⟨hwritten, hkept⟩ := @attempt_file left p steps k (backupFiles paths root d).1
      fun s hs hmem => h.leaves p hp (List.mem_flatMap.mpr ⟨s, hs, hmem⟩)
    rw [rolledBack, hout p habsent, hexists]
    constructor
    · intro hnone _ hreached
      exact hwritten (.inr hreached) hnone
    · intro hreached
      rw [hkept (hreached rfl), hbefore, hexists]
  · have hrecorded : (p, root ++ [p.name]) ∈ (backupFiles paths root d).2 :=
      (hrecord p _).mpr ⟨hp, fun hnone => hexists ((Disk.rmtree_file hroot).symm.trans hnone), rfl⟩
    have hrestored := hin p ⟨_, hrecorded⟩
    rw [Disk.rmtree_file hroot] at hrestored
    exact ⟨fun _ hnone => absurd hnone hexists, fun _ => hrestored⟩

theorem rolledBack_link (h : Installs paths root steps) {p : Path} :
    (rolledBack paths root steps left k d).link p =
      (attempt left steps k (backupFiles paths root d).1).link p := by
  rw [rolledBack, (restoreFiles_spec (copies_kept h)).1]

end Rollback

end Manager
