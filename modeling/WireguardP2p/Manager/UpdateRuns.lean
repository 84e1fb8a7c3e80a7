import WireguardP2p.Lib.Runs
import WireguardP2p.Manager.Update

/-! `manage/wireguard-p2p.py`: updates one after the other, each of which goes through or is rolled back. What is
    installed is one release at any time: the one of the last update that went through. -/

namespace Manager
open Ipaddress

/-- How an update goes: through, or its statement number `k` raises, and the file it was writing is left with
    `left`, if anything. -/
inductive Outcome
  | completed
  | raised (left : Option Bytes) (k : ℕ)

/-- The block, when no statement raises. -/
def performAll (steps : List Step) (d : Disk) : Disk := steps.foldl (fun d s => s.perform d) d

/-- `update_vps` of a release. -/
def VpsRelease.update (r : VpsRelease) (d : Disk) : Outcome → Option Disk
  | .completed => some (performAll r.steps (backupFiles vpsPaths vpsBackup d).1)
  | .raised left k => if k < r.steps.length then some (updateVps r left k d) else none

/-- `update_server` of a package. -/
def ServerPackage.update (u : ServerPackage) (d : Disk) : Outcome → Option Disk
  | .completed => some (performAll u.steps (backupFiles serverPaths serverBackup d).1)
  | .raised left k => if k < u.steps.length then some (updateServer u left k d) else none

def vpsMachine : Runs.Machine Disk (VpsRelease × Outcome) := ⟨fun d l => l.1.update d l.2⟩

def serverMachine : Runs.Machine Disk (ServerPackage × Outcome) := ⟨fun d l => l.1.update d l.2⟩

/-! ### What is installed -/

/-- The managed files of a release. -/
def VpsRelease.files (r : VpsRelease) : List (Path × Bytes) :=
  [(installRoot ++ ["peers_api.py".toList], r.peersApi),
    (systemdRoot ++ ["peers-api.service".toList], r.peersApiService), (managerPath, r.manager)]

/-- The managed files of a package. -/
def ServerPackage.files (u : ServerPackage) : List (Path × Bytes) :=
  [(installRoot ++ ["p2p_agent.py".toList], u.agent), (installRoot ++ ["candidates.py".toList], u.candidates),
    (installRoot ++ ["portmap.py".toList], u.portmap), (installRoot ++ ["portmap_daemon.py".toList], u.portmapDaemon),
    (systemdRoot ++ ["wireguard-p2p-agent.service".toList], u.agentUnit),
    (systemdRoot ++ ["wireguard-p2p-portmap.service".toList], u.portUnit), (managerPath, u.manager)]

/-- A coordinator: its managed files, and what `updates/current` names. -/
structure Installation where
  files : List (Path × Bytes)
  current : Text

/-- The update went through: its release is installed. -/
def vpsAfter (i : Installation) : VpsRelease × Outcome → Installation
  | (r, .completed) => ⟨r.files, Path.text r.releaseDir⟩
  | (_, .raised _ _) => i

def serverAfter (files : List (Path × Bytes)) : ServerPackage × Outcome → List (Path × Bytes)
  | (u, .completed) => u.files
  | (_, .raised _ _) => files

/-- The files are the managed ones, and the disk has them. -/
structure Installed (paths : List Path) (d : Disk) (files : List (Path × Bytes)) : Prop where
  managed : files.map Prod.fst = paths
  content : ∀ e ∈ files, d.file e.1 = some e.2

/-- The disk of a coordinator. -/
structure Stands (d : Disk) (i : Installation) : Prop where
  installed : Installed vpsPaths d i.files
  current : d.link currentLink = some i.current
  names : i.current ≠ []

section Installed
variable {paths : List Path} {d d' : Disk} {files : List (Path × Bytes)}

theorem Installed.exists_file (h : Installed paths d files) : ∀ p ∈ paths, d.file p ≠ none := by
  intro p hp
  rw [← h.managed] at hp
  obtain ⟨e, he, rfl⟩ := List.mem_map.mp hp
  rw [h.content e he]
  exact Option.some_ne_none _

theorem Installed.restored (h : Installed paths d files) (hd : Restored paths d d') : Installed paths d' files := by
  refine ⟨h.managed, fun e he => ?_⟩
  rw [hd e.1 (h.managed ▸ List.mem_map_of_mem he), h.content e he]

end Installed

/-! ### An update that goes through -/

section Perform
variable {steps : List Step} {p : Path} {content : Bytes} {d : Disk}

/-- A file is left with the content that every statement writes to it, if one does. -/
theorem performAll_file (hmoved : ∀ s ∈ steps, p ∉ s.moved)
    (honly : ∀ content', Step.write p content' ∈ steps → content' = content)
    (h : d.file p = some content ∨ Step.write p content ∈ steps) : (performAll steps d).file p = some content := by
  induction steps generalizing d with
  | nil => exact h.resolve_right List.not_mem_nil
  | cons s rest ih =>
    refine ih (fun t ht => hmoved t (List.mem_cons_of_mem s ht)) (fun c hc => honly c (List.mem_cons_of_mem s hc)) ?_
    by_cases hw : p ∈ s.written
    · obtain ⟨c, rfl⟩ : ∃ c, s = .write p c := by
        cases s with
        | write q c => exact ⟨c, by rw [List.mem_singleton.mp hw]⟩
        | _ => exact absurd hw List.not_mem_nil
      obtain rfl := honly c List.mem_cons_self
      exact .inl Disk.write_file_self
    · rw [(perform_file (hmoved s List.mem_cons_self)).2 hw]
      refine h.imp id fun hmem => (List.mem_cons.mp hmem).resolve_left ?_
      rintro rfl
      exact hw List.mem_cons_self

/-- A block that writes these files and no other managed one installs them. -/
theorem installed_performAll {paths : List Path} {root : Path} {files : List (Path × Bytes)}
    (hinstalls : Installs paths root steps) (hnodup : paths.Nodup) (hmanaged : files.map Prod.fst = paths)
    (hwrites : ∀ p ∈ paths, ∀ content, Step.write p content ∈ steps ↔ (p, content) ∈ files) :
    Installed paths (performAll steps d) files := by
  refine ⟨hmanaged, fun e he => ?_⟩
  obtain ⟨p, content⟩ := e
  have hp : p ∈ paths := hmanaged ▸ List.mem_map_of_mem he
  refine performAll_file (fun s hs hmem => hinstalls.leaves p hp (List.mem_flatMap.mpr ⟨s, hs, hmem⟩))
    (fun content' hmem => ?_) (.inr ((hwrites p hp content).mpr he))
  have hsame := List.inj_on_of_nodup_map (hmanaged ▸ hnodup) ((hwrites p hp content').mp hmem) he rfl
  exact (Prod.mk.inj hsame).2

end Perform

theorem nodup_vps : vpsPaths.Nodup := by decide +kernel

theorem nodup_server : serverPaths.Nodup := by decide +kernel

theorem write_mem_vps (r : VpsRelease) : ∀ p ∈ vpsPaths, ∀ content,
    Step.write p content ∈ r.steps ↔ (p, content) ∈ r.files := by
  intro p hp content
  have hpublish : Step.write p content ∉ r.publish := by
    intro hmem
    have hbelow := written_publish r p (List.mem_flatMap.mpr ⟨_, hmem, List.mem_singleton_self p⟩)
    have hnot : ∀ p ∈ vpsPaths, ¬ updatesRoot ++ ["releases".toList] <+: p := by decide +kernel
    exact hnot p hp hbelow
  simp [VpsRelease.steps, hpublish, VpsRelease.switch, VpsRelease.install, VpsRelease.files]

theorem write_mem_server (u : ServerPackage) (p : Path) (content : Bytes) :
    Step.write p content ∈ u.steps ↔ (p, content) ∈ u.files := by
  rw [ServerPackage.steps]
  split_ifs <;>
    simp only [ServerPackage.files, List.mem_append, List.mem_cons, List.not_mem_nil, or_false, false_or, reduceCtorEq,
      Step.write.injEq, Prod.mk.injEq]
  -- the manager is written before the units
  · exact or_congr_right (or_congr_right (or_congr_right (or_congr_right or_rotate)))
  · exact or_congr_right (or_congr_right (or_congr_right (or_congr_right or_rotate)))

/-- A completed update of a coordinator names its release. -/
theorem completed_current (r : VpsRelease) (d : Disk) :
    (performAll r.steps d).link currentLink = some (Path.text r.releaseDir) := by
  have hinstall : ∀ s ∈ r.install, currentLink ∉ s.linked := fun s hs hmem => by
    have hall := List.mem_flatMap.mpr ⟨s, hs, hmem⟩
    rw [linked_install] at hall
    cases hall
  rw [performAll, VpsRelease.steps, List.foldl_append, foldl_link hinstall, List.foldl_append]
  exact (Disk.replace_link_target link_ne.1).trans Disk.symlink_link_self

theorem stands_completed (r : VpsRelease) (d : Disk) :
    Stands (performAll r.steps d) ⟨r.files, Path.text r.releaseDir⟩ :=
  ⟨installed_performAll (installs_vps r) nodup_vps rfl (write_mem_vps r), completed_current r d, List.cons_ne_nil _ _⟩

/-! ### Runs -/

theorem stands_update {d d' : Disk} {i : Installation} {l : VpsRelease × Outcome} (h : Stands d i)
    (hs : vpsMachine.step d l = some d') : Stands d' (vpsAfter i l) := by
  obtain ⟨r, outcome⟩ := l
  change r.update d outcome = some d' at hs
  cases outcome with
  | completed =>
    obtain rfl := Option.some.inj hs
    exact stands_completed r _
  | raised left k =>
    rw [VpsRelease.update] at hs
    split_ifs at hs
    obtain rfl := Option.some.inj hs
    have hrestored := (updateVps_restored r left k d).mpr fun p hp hnone =>
      absurd hnone (h.installed.exists_file p hp)
    have hcurrent := (updateVps_current r left k d).mpr (.inl ⟨_, h.current, h.names⟩)
    exact ⟨h.installed.restored hrestored, hcurrent.trans h.current, h.names⟩

theorem installed_update {d d' : Disk} {files : List (Path × Bytes)} {l : ServerPackage × Outcome}
    (h : Installed serverPaths d files) (hs : serverMachine.step d l = some d') :
    Installed serverPaths d' (serverAfter files l) := by
  obtain ⟨u, outcome⟩ := l
  change u.update d outcome = some d' at hs
  cases outcome with
  | completed =>
    obtain rfl := Option.some.inj hs
    exact installed_performAll (installs_server u) nodup_server rfl fun p _ => write_mem_server u p
  | raised left k =>
    rw [ServerPackage.update] at hs
    split_ifs at hs
    obtain rfl := Option.some.inj hs
    have hrestored := (updateServer_restored u left k d).mpr fun p hp hnone => absurd hnone (h.exists_file p hp)
    exact h.restored hrestored

/-- A coordinator with the release that has nothing in its files. -/
def bareInstalled : Disk := performAll bareRelease.steps bareDisk

/-- The release after it. -/
def nextRelease : VpsRelease := { bareRelease with manager := [1] }

end Manager
