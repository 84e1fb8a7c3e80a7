import WireguardP2p.Manager.Rollback

/-! `manage/wireguard-p2p.py`: the installing blocks of `update_vps` and `update_server`, and what a rollback
    leaves of the installation. -/

namespace Manager
open Ipaddress

def installRoot : Path := ["opt".toList, "wireguard-p2p".toList]
def managerPath : Path := ["usr".toList, "local".toList, "bin".toList, "wireguard-p2p".toList]
def systemdRoot : Path := ["etc".toList, "systemd".toList, "system".toList]
def updateState : Path := ["var".toList, "lib".toList, "wireguard-p2p".toList]

/-- A part of a path. -/
abbrev FileName := { t : Text // t ≠ [] ∧ '/' ∉ t ∧ t ≠ ".".toList ∧ t ≠ "..".toList }

/-! ### The coordinator -/

/-- What `update_vps` installs; the version and the names of the assets are parts of paths. -/
structure VpsRelease where
  version : List FileName
  manifest : Bytes
  downloads : List (FileName × Bytes)
  peersApi : Bytes
  peersApiService : Bytes
  manager : Bytes

def updatesRoot : Path := updateState ++ ["updates".toList]
def currentLink : Path := updatesRoot ++ ["current".toList]
def nextLink : Path := updatesRoot ++ [".current-new".toList]
def rollbackLink : Path := updatesRoot ++ [".current-rollback".toList]
def vpsBackup : Path := updateState ++ ["update-backup-vps".toList]

/-- The managed files of `update_vps`. -/
def vpsPaths : List Path :=
  [installRoot ++ ["peers_api.py".toList], systemdRoot ++ ["peers-api.service".toList], managerPath]

def VpsRelease.releaseDir (r : VpsRelease) : Path :=
  updatesRoot ++ ["releases".toList] ++ r.version.map Subtype.val

namespace VpsRelease
variable (r : VpsRelease)

/-- The release is stored. -/
def publish : List Step :=
  [.mkdir r.releaseDir, .write (r.releaseDir ++ ["manifest.json".toList]) r.manifest] ++
    r.downloads.map (fun file => .write (r.releaseDir ++ [file.1.1]) file.2) ++ [.mkdir updatesRoot]

/-- `current` is renamed into place. -/
def switch : List Step :=
  [.unlink nextLink, .symlink (Path.text r.releaseDir) nextLink, .replace nextLink currentLink]

/-- The files are installed and the service restarted. -/
def install : List Step :=
  [.mkdir installRoot, .write (installRoot ++ ["peers_api.py".toList]) r.peersApi,
    .write (systemdRoot ++ ["peers-api.service".toList]) r.peersApiService, .write managerPath r.manager,
    .chmod managerPath, .command ["python3", "-m", "py_compile", "/opt/wireguard-p2p/peers_api.py"],
    .command ["systemctl", "daemon-reload"], .command ["systemctl", "restart", "peers-api.service"], .health]

/-- The `try` block of `update_vps`. -/
def steps : List Step := r.publish ++ r.switch ++ r.install

end VpsRelease

/-- `if old_current`: the link is made anew and renamed into place. -/
def restoreLink (old : Option Text) (d : Disk) : Disk :=
  match old with
  | none => d
  | some target =>
    if target = [] then d
    else ((d.unlink rollbackLink).symlink target rollbackLink).replace rollbackLink currentLink

/-- `update_vps` when statement number `k` of its `try` block raises. -/
def updateVps (r : VpsRelease) (left : Option Bytes) (k : ℕ) (d : Disk) : Disk :=
  let old := (backupFiles vpsPaths vpsBackup d).1.link currentLink
  restoreLink old (rolledBack vpsPaths vpsBackup r.steps left k d)

/-! ### A Linux server -/

/-- What `update_server` installs; the units are rendered from the templates of the package. -/
structure ServerPackage where
  agent : Bytes
  candidates : Bytes
  portmap : Bytes
  portmapDaemon : Bytes
  manager : Bytes
  agentUnit : Bytes
  portUnit : Bytes
  /-- `portmap_enabled`. -/
  portmapEnabled : Bool

def serverBackup : Path := updateState ++ ["update-backup-server".toList]

/-- The managed files of `update_server`. -/
def serverPaths : List Path :=
  [installRoot ++ ["p2p_agent.py".toList], installRoot ++ ["candidates.py".toList],
    installRoot ++ ["portmap.py".toList], installRoot ++ ["portmap_daemon.py".toList],
    systemdRoot ++ ["wireguard-p2p-agent.service".toList],
    systemdRoot ++ ["wireguard-p2p-portmap.service".toList], managerPath]

/-- The `try` block of `update_server`. -/
def ServerPackage.steps (u : ServerPackage) : List Step :=
  [.mkdir installRoot,
    .write (installRoot ++ ["p2p_agent.py".toList]) u.agent,
    .write (installRoot ++ ["candidates.py".toList]) u.candidates,
    .write (installRoot ++ ["portmap.py".toList]) u.portmap,
    .write (installRoot ++ ["portmap_daemon.py".toList]) u.portmapDaemon,
    .mkdir managerPath.dropLast, .write managerPath u.manager, .chmod managerPath,
    .write (systemdRoot ++ ["wireguard-p2p-agent.service".toList]) u.agentUnit,
    .write (systemdRoot ++ ["wireguard-p2p-portmap.service".toList]) u.portUnit,
    .command ["python3", "-m", "py_compile", "/opt/wireguard-p2p/p2p_agent.py",
      "/opt/wireguard-p2p/candidates.py", "/opt/wireguard-p2p/portmap.py",
      "/opt/wireguard-p2p/portmap_daemon.py"],
    .command ["systemctl", "daemon-reload"]] ++
  (if u.portmapEnabled then [.command ["systemctl", "restart", "wireguard-p2p-portmap.service"]] else []) ++
  [.command ["systemctl", "restart", "wireguard-p2p-agent.service"], .health]

/-- `update_server` when statement number `k` of its `try` block raises. -/
def updateServer (u : ServerPackage) (left : Option Bytes) (k : ℕ) (d : Disk) : Disk :=
  rolledBack serverPaths serverBackup u.steps left k d

/-! ### What the blocks touch -/

theorem managed_vps : Managed vpsPaths vpsBackup := ⟨by decide +kernel, by decide +kernel⟩

theorem managed_server : Managed serverPaths serverBackup := ⟨by decide +kernel, by decide +kernel⟩

theorem installs_server (u : ServerPackage) : Installs serverPaths serverBackup u.steps := by
  have hmoved : u.steps.flatMap Step.moved = [] := by
    rw [ServerPackage.steps]
    split_ifs <;> rfl
  have hwritten : u.steps.flatMap Step.written =
      [installRoot ++ ["p2p_agent.py".toList], installRoot ++ ["candidates.py".toList],
        installRoot ++ ["portmap.py".toList], installRoot ++ ["portmap_daemon.py".toList], managerPath,
        systemdRoot ++ ["wireguard-p2p-agent.service".toList],
        systemdRoot ++ ["wireguard-p2p-portmap.service".toList]] := by
    rw [ServerPackage.steps]
    split_ifs <;> rfl
  refine ⟨managed_server, ?_, ?_⟩
  · rw [hmoved]
    exact fun _ _ => List.not_mem_nil
  · rw [hmoved, hwritten]
    decide +kernel

/-- The files of a release lie below `updates/releases`. -/
theorem written_publish (r : VpsRelease) : ∀ p ∈ r.publish.flatMap Step.written,
    updatesRoot ++ ["releases".toList] <+: p := by
  intro p hp
  have hbelow : ∀ name : Text, updatesRoot ++ ["releases".toList] <+: r.releaseDir ++ [name] := by
    intro name
    rw [VpsRelease.releaseDir, List.append_assoc]
    exact List.prefix_append _ _
  obtain ⟨s, hs, hp⟩ := List.mem_flatMap.mp hp
  rw [VpsRelease.publish, List.mem_append, List.mem_append] at hs
  rcases hs with (hs | hs) | hs
  · rcases List.mem_pair.mp hs with rfl | rfl
    · exact absurd hp List.not_mem_nil
    · rw [List.mem_singleton.mp hp]
      exact hbelow _
  · obtain ⟨file, -, rfl⟩ := List.mem_map.mp hs
    rw [List.mem_singleton.mp hp]
    exact hbelow _
  · rw [List.mem_singleton.mp hs] at hp
    exact absurd hp List.not_mem_nil

theorem linked_publish (r : VpsRelease) : ∀ s ∈ r.publish, s.linked = [] ∧ s.moved = [] := by
  intro s hs
  rw [VpsRelease.publish, List.mem_append, List.mem_append] at hs
  rcases hs with (hs | hs) | hs
  · rcases List.mem_pair.mp hs with rfl | rfl <;> exact ⟨rfl, rfl⟩
  · obtain ⟨file, -, rfl⟩ := List.mem_map.mp hs
    exact ⟨rfl, rfl⟩
  · rw [List.mem_singleton.mp hs]
    exact ⟨rfl, rfl⟩

theorem linked_install (r : VpsRelease) : r.install.flatMap Step.linked = [] := rfl

theorem moved_steps (r : VpsRelease) : r.steps.flatMap Step.moved = [nextLink, nextLink, currentLink] := by
  have hpublish : r.publish.flatMap Step.moved = [] :=
    List.flatMap_eq_nil_iff.mpr fun s hs => (linked_publish r s hs).2
  rw [VpsRelease.steps, List.flatMap_append, List.flatMap_append, hpublish]
  rfl

theorem written_steps (r : VpsRelease) : r.steps.flatMap Step.written = r.publish.flatMap Step.written ++ vpsPaths := by
  rw [VpsRelease.steps, List.flatMap_append, List.flatMap_append, List.append_assoc]
  rfl

theorem installs_vps (r : VpsRelease) : Installs vpsPaths vpsBackup r.steps := by
  refine ⟨managed_vps, ?_, ?_⟩
  · rw [moved_steps]
    decide +kernel
  · rw [moved_steps, written_steps]
    intro b hb hroot
    rcases List.mem_append.mp hb with hb | hb
    · have hnot : ∀ b ∈ [nextLink, nextLink, currentLink], ¬ vpsBackup <+: b := by decide +kernel
      exact hnot b hb hroot
    · rcases List.mem_append.mp hb with hb | hb
      · have hreleases := written_publish r b hb
        have hnot : ¬ vpsBackup <+: updatesRoot ++ ["releases".toList] := by decide +kernel
        exact hnot (List.prefix_of_prefix_length_le hroot hreleases (by decide +kernel))
      · have hnot : ∀ b ∈ vpsPaths, ¬ vpsBackup <+: b := by decide +kernel
        exact hnot b hb hroot

/-! ### The link -/

theorem link_ne : currentLink ≠ nextLink ∧ currentLink ≠ rollbackLink := by decide +kernel

/-- `current` is switched by the renaming, and by nothing else. -/
theorem attempt_current (r : VpsRelease) (left : Option Bytes) (k : ℕ) (d : Disk) :
    (attempt left r.steps k d).link currentLink =
      if (r.publish ++ r.switch).length ≤ k then some (Path.text r.releaseDir) else d.link currentLink := by
  have hpublish : ∀ s ∈ r.publish, currentLink ∉ s.linked := fun s hs => by
    rw [(linked_publish r s hs).1]
    exact List.not_mem_nil
  have hinstall : ∀ s ∈ r.install, currentLink ∉ s.linked := fun s hs hmem => by
    have hall := List.mem_flatMap.mpr ⟨s, hs, hmem⟩
    rw [linked_install] at hall
    cases hall
  rw [VpsRelease.steps, attempt_append]
  by_cases hk : (r.publish ++ r.switch).length ≤ k
  · rw [if_neg (not_lt.mpr hk), if_pos hk, attempt_link hinstall, List.foldl_append]
    exact (Disk.replace_link_target link_ne.1).trans Disk.symlink_link_self
  · rw [if_pos (not_le.mp hk), if_neg hk, attempt_append]
    by_cases hpub : k < r.publish.length
    · rw [if_pos hpub, attempt_link hpublish]
    · -- the old link is still there until the renaming
      have hlt : k - r.publish.length < 3 := by
        have hlen : (r.publish ++ r.switch).length = r.publish.length + 3 := List.length_append
        omega
      rw [if_neg hpub, ← @foldl_link currentLink r.publish d hpublish]
      generalize r.publish.foldl (fun d s => s.perform d) d = d'
      interval_cases k - r.publish.length <;>
        simp [VpsRelease.switch, attempt, Step.perform, Step.raise, link_ne]

theorem restoreLink_file (old : Option Text) {p : Path} (hr : p ≠ rollbackLink) (hc : p ≠ currentLink) (d : Disk) :
    (restoreLink old d).file p = d.file p := by
  cases old with
  | none => rfl
  | some target =>
    rw [restoreLink]
    split_ifs
    · rfl
    · rw [Disk.replace_file hr hc, Disk.symlink_file, Disk.unlink_file hr]

theorem restoreLink_link (target : Text) (h : target ≠ []) (d : Disk) :
    (restoreLink (some target) d).link currentLink = some target := by
  rw [restoreLink, if_neg h, Disk.replace_link_target link_ne.2, Disk.symlink_link_self]

/-! ### The rollback -/

/-- The managed files are as before. -/
def Restored (paths : List Path) (d d' : Disk) : Prop := ∀ p ∈ paths, d'.file p = d.file p

theorem updateVps_restored (r : VpsRelease) (left : Option Bytes) (k : ℕ) (d : Disk) :
    Restored vpsPaths d (updateVps r left k d) ↔
      ∀ p ∈ vpsPaths, d.file p = none → p ∉ reached left r.steps k := by
  refine forall₂_congr fun p hp => ?_
  have hne : ∀ p ∈ vpsPaths, p ≠ rollbackLink ∧ p ≠ currentLink := by decide +kernel
  rw [updateVps, restoreLink_file _ (hne p hp).1 (hne p hp).2]
  exact rolledBack_file (installs_vps r) hp

theorem updateServer_restored (u : ServerPackage) (left : Option Bytes) (k : ℕ) (d : Disk) :
    Restored serverPaths d (updateServer u left k d) ↔
      ∀ p ∈ serverPaths, d.file p = none → p ∉ reached left u.steps k :=
  forall₂_congr fun _ hp => rolledBack_file (installs_server u) hp

/-- `current` is as before exactly if it was a link, or was not yet switched. -/
theorem updateVps_current (r : VpsRelease) (left : Option Bytes) (k : ℕ) (d : Disk) :
    (updateVps r left k d).link currentLink = d.link currentLink ↔
      (∃ target, d.link currentLink = some target ∧ target ≠ []) ∨ k < (r.publish ++ r.switch).length := by
  have hroot : ¬ vpsBackup <+: currentLink := by decide +kernel
  have hold : (backupFiles vpsPaths vpsBackup d).1.link currentLink = d.link currentLink :=
    backupFiles_link managed_vps hroot
  have hattempt : (rolledBack vpsPaths vpsBackup r.steps left k d).link currentLink =
      if (r.publish ++ r.switch).length ≤ k then some (Path.text r.releaseDir) else d.link currentLink := by
    rw [rolledBack_link (installs_vps r), attempt_current, hold]
  -- without a link to restore, it is what the block left
  have hunrestored : (∀ target, d.link currentLink = some target → target = []) →
      (updateVps r left k d).link currentLink =
        if (r.publish ++ r.switch).length ≤ k then some (Path.text r.releaseDir) else d.link currentLink := by
    intro h
    rw [updateVps, hold, ← hattempt]
    cases hlink : d.link currentLink with
    | none => rfl
    | some target => rw [restoreLink, if_pos (h target hlink)]
  constructor
  · intro hsame
    by_contra! hnot
    obtain ⟨hlink, hk⟩ := hnot
    rw [hunrestored hlink, if_pos hk] at hsame
    exact absurd (hlink _ hsame.symm) (List.cons_ne_nil _ _)
  · rintro (⟨target, hlink, hne⟩ | hk)
    · rw [updateVps, hold, hlink]
      exact restoreLink_link target hne _
    · by_cases hlink : ∀ target, d.link currentLink = some target → target = []
      · rw [hunrestored hlink, if_neg (not_le.mpr hk)]
      · push Not at hlink
        obtain ⟨target, hlink, hne⟩ := hlink
        rw [updateVps, hold, hlink]
        exact restoreLink_link target hne _

/-- A release without downloads, and a disk without files. -/
def bareRelease : VpsRelease := ⟨[], [], [], [], [], []⟩
def bareDisk : Disk := ⟨fun _ => none, fun _ => none⟩

end Manager
