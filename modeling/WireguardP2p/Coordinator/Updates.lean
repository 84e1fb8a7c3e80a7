import WireguardP2p.Lib.RealPath
import WireguardP2p.Python.Unquote
import WireguardP2p.Coordinator.Registry

/-! `vps/peers_api.py`: what `do_GET` gives out, the notification key and the files of the update directory. -/

namespace Coordinator
open Ipaddress Python FileTree

/-- The file system and the settings of the server. -/
structure Site where
  tree : Tree
  loopless : Loopless tree
  /-- What is in a file. -/
  content : ℕ → List UInt8
  /-- `os.getcwd()`. -/
  cwd : Loc
  physical : Physical tree cwd
  /-- `UPDATE_DIR`. -/
  updateDir : Text
  /-- `NOTIFY_KEY`. -/
  notifyKey : Option (List UInt8)
  /-- The file of `SERVER_REGISTRY_FILE`. -/
  servers : RoleFile

/-- `UPDATE_MAX_FILE_SIZE`. -/
def updateMaxFileSize : ℕ := 128 * 1024 * 1024

inductive GetAnswer
  | octets (body : List UInt8)
  /-- An error, with its text; that of a built-in error is left out. -/
  | error (status : ℕ) (message : Option String)
  /-- What `peer_payload` returns. -/
  | peers
  | health
  deriving DecidableEq

def keyPath : Text := "/bootstrap/server-key".toList
def updatesPath : Text := "/updates/".toList

def unavailable : GetAnswer := .error 503 (some "WireGuard state unavailable")

/-- The name in a path behind `/updates/`. -/
def requested (path : Text) : Text := unquote ((path.drop updatesPath.length).takeWhile fun c => decide (c ≠ '?'))

/-- The name of a file in a directory. -/
structure AssetName (name : Text) : Prop where
  ne : name ≠ []
  slash : '/' ∉ name
  dot : name ≠ ['.']
  up : name ≠ up
  null : '\x00' ∉ name

namespace Site
variable (s : Site)

/-- `bootstrap_server_key`. -/
def bootstrapServerKey (sourceIp : Text) : Except Raised (List UInt8) := do
  if sourceIp ∉ (← loadRoleRegistry s.servers.opened) then
    throw (.permissionError "server bootstrap key is restricted to server peers")
  match s.notifyKey with
  | none => throw (.runtimeError "notification key unavailable")
  | some key => if key.length < 32 then throw (.runtimeError "notification key unavailable") else return key ++ [10]

/-- `os.path.realpath(UPDATE_DIR)`. -/
def root : Loc := realpath s.tree s.loopless (base s.updateDir s.cwd) (parts s.updateDir)

/-- `update_asset_path`; no file has a name with a null character. -/
def updateAssetPath (requestPath : Text) : Except Raised Loc :=
  if ¬ updatesPath <+: requestPath then .error (.valueError "invalid update path")
  else
    let name := requested requestPath
    if name = [] ∨ name ≠ name.rtakeWhile (fun c => decide (c ≠ '/')) ∨ name = ['.'] ∨ name = up then
      .error (.valueError "invalid update filename")
    else if '\x00' ∈ name then .error .builtinValueError
    else
      let candidate := realpath s.tree s.loopless s.root [name]
      if candidate.dropLast ≠ s.root then .error (.valueError "invalid update path") else .ok candidate

/-- `send_update_file`, if the path is that of a file. -/
def sendUpdateFile (path : Loc) : GetAnswer :=
  match fileAt s.tree [] path with
  | none => .error 404 (some "update asset not found")
  | some number =>
    if updateMaxFileSize < (s.content number).length then .error 413 (some "update file too large")
    else .octets (s.content number)

/-- `do_GET`. -/
def get (sourceIp path : Text) : GetAnswer :=
  if path = keyPath then
    match s.bootstrapServerKey sourceIp with
    | .ok body => .octets body
    | .error (.permissionError message) => .error 403 (some message)
    | .error _ => unavailable
  else if updatesPath <+: path then
    match s.updateAssetPath path with
    | .ok candidate => s.sendUpdateFile candidate
    | .error (.valueError message) => .error 400 (some message)
    | .error .builtinValueError => .error 400 none
    | .error _ => unavailable
  else if path = ['/'] then .peers
  else if path = "/health".toList then .health
  else .error 404 (some "not found")

/-! ### What is asked for -/

theorem basename_eq_self {name : Text} : name = name.rtakeWhile (fun c => decide (c ≠ '/')) ↔ '/' ∉ name := by
  rw [eq_comm, List.rtakeWhile_eq_self_iff]
  constructor
  · intro h hmem
    simpa using h _ hmem
  · rintro h c hc
    exact decide_eq_true fun heq => h (heq ▸ hc)

theorem updateAssetPath_eq_ok {path : Text} {loc : Loc} : s.updateAssetPath path = .ok loc ↔
    updatesPath <+: path ∧ AssetName (requested path) ∧
      realpath s.tree s.loopless s.root [requested path] = loc ∧ loc.dropLast = s.root := by
  rw [updateAssetPath]
  constructor
  · intro h
    dsimp only at h
    split_ifs at h with hpath hname hnull hdir
    rw [Except.ok.injEq] at h
    simp only [not_or, ne_eq, not_not] at hname
    refine ⟨hpath, ⟨hname.1, basename_eq_self.mp hname.2.1, hname.2.2.1, hname.2.2.2, hnull⟩, h, ?_⟩
    rw [← h]
    exact not_not.mp hdir
  · rintro ⟨hpath, hname, rfl, hdir⟩
    have hvalid : ¬ (requested path = [] ∨
        requested path ≠ (requested path).rtakeWhile (fun c => decide (c ≠ '/')) ∨
        requested path = ['.'] ∨ requested path = up) := by
      rw [not_or, not_or, not_or]
      exact ⟨hname.ne, not_not.mpr (basename_eq_self.mpr hname.slash), hname.dot, hname.up⟩
    rw [if_neg (not_not.mpr hpath)]
    dsimp only
    rw [if_neg hvalid, if_neg hname.null, if_neg (not_not.mpr hdir)]

/-- A name is asked for as it is if nothing in it has a meaning. -/
theorem requested_of {t name : Text} (hquery : '?' ∉ t) (hname : unquote t = name) :
    requested (updatesPath ++ t) = name := by
  have htake : t.takeWhile (fun c => decide (c ≠ '?')) = t := by
    rw [List.takeWhile_eq_self_iff]
    intro c hc
    exact decide_eq_true fun heq => hquery (heq ▸ hc)
  rw [requested, List.drop_left, htake, hname]

theorem query_not_mem_quoted (t : Text) : '?' ∉ quoted t := by
  intro hmem
  have hdigit : ∀ d < 16, '?' ≠ d.digitChar := by decide
  rcases mem_quoted hmem with h | ⟨d, hd, h⟩
  · exact absurd h (by decide)
  · exact hdigit d hd h

/-! ### What is given out -/

/-- The directory has this file under the name. -/
def Holds (name : Name) (number : ℕ) : Prop := s.tree.node (s.root ++ [name]) = some (.file number)

theorem sendUpdateFile_octets {path : Loc} {body : List UInt8} :
    s.sendUpdateFile path = .octets body ↔ ∃ number, fileAt s.tree [] path = some number ∧
      (s.content number).length ≤ updateMaxFileSize ∧ body = s.content number := by
  rw [sendUpdateFile]
  cases hfile : fileAt s.tree [] path with
  | none => simp
  | some number =>
    simp only [Option.some.injEq, exists_eq_left']
    split_ifs with hsize
    · exact iff_of_false (by simp) fun h => absurd h.1 (not_le.mpr hsize)
    · rw [GetAnswer.octets.injEq, eq_comm]
      exact (and_iff_right (not_lt.mp hsize)).symm

theorem physical_updates : Physical s.tree s.root := physical_realpath (s.physical.base s.updateDir)

/-- Whatever a path of the update directory is answered with is a file of the directory. -/
theorem holds_of_assetPath {path : Text} {loc : Loc} {number : ℕ} (h : s.updateAssetPath path = .ok loc)
    (hfile : fileAt s.tree [] loc = some number) : ∃ name, s.Holds name number := by
  obtain ⟨-, -, hreal, hdir⟩ := s.updateAssetPath_eq_ok.mp h
  have hloc : Physical s.tree loc := by
    rw [← hreal]
    exact physical_realpath s.physical_updates
  have hnode := (fileAt_physical hloc).mp hfile
  rcases List.eq_nil_or_concat loc with rfl | ⟨l, name, rfl⟩
  · rw [s.tree.root] at hnode
    cases hnode
  · rw [List.concat_eq_append] at hnode hdir
    rw [List.dropLast_concat] at hdir
    rw [hdir] at hnode
    exact ⟨name, hnode⟩

/-- A file of the directory has its name for its real path. -/
theorem assetPath_of_holds {path : Text} {number : ℕ} (hpath : updatesPath <+: path)
    (hname : AssetName (requested path)) (h : s.Holds (requested path) number) :
    s.updateAssetPath path = .ok (s.root ++ [requested path]) ∧
      fileAt s.tree [] (s.root ++ [requested path]) = some number := by
  have htrace : trace s.tree 0 s.root [requested path] = some (s.root ++ [requested path]) := by
    rw [trace, traceWith, if_neg hname.up, h]
    rfl
  have hphysical := trace_physical s.physical_updates htrace
  exact ⟨s.updateAssetPath_eq_ok.mpr ⟨hpath, hname, realpath_of_trace htrace, List.dropLast_concat⟩,
    (fileAt_physical hphysical).mpr h⟩

theorem bootstrapServerKey_eq_ok {sourceIp : Text} {body : List UInt8} (h : s.bootstrapServerKey sourceIp = .ok body) :
    InRegistry s.servers sourceIp ∧ ∃ key, s.notifyKey = some key ∧ 32 ≤ key.length ∧ body = key ++ [10] := by
  rw [bootstrapServerKey] at h
  cases hload : loadRoleRegistry s.servers.opened with
  | error e =>
    rw [hload] at h
    cases h
  | ok l =>
    simp only [hload, bind, Except.bind] at h
    split_ifs at h with hsource
    cases hkey : s.notifyKey with
    | none =>
      rw [hkey] at h
      cases h
    | some key =>
      rw [hkey] at h
      dsimp only at h
      split_ifs at h with hshort
      exact ⟨⟨l, hload, hsource⟩, key, rfl, not_lt.mp hshort, (Except.ok.inj h).symm⟩

theorem get_updates {sourceIp path : Text} (hpath : updatesPath <+: path) : s.get sourceIp path =
    match s.updateAssetPath path with
    | .ok candidate => s.sendUpdateFile candidate
    | .error (.valueError message) => .error 400 (some message)
    | .error .builtinValueError => .error 400 none
    | .error _ => unavailable := by
  have hkey : path ≠ keyPath := by
    rintro rfl
    exact absurd hpath (by decide)
  rw [get, if_neg hkey, if_pos hpath]

theorem get_holds {sourceIp path : Text} {number : ℕ} (hpath : updatesPath <+: path)
    (hname : AssetName (requested path)) (h : s.Holds (requested path) number)
    (hsize : (s.content number).length ≤ updateMaxFileSize) : s.get sourceIp path = .octets (s.content number) := by
  obtain ⟨hasset, hfile⟩ := s.assetPath_of_holds hpath hname h
  rw [s.get_updates hpath, hasset]
  exact s.sendUpdateFile_octets.mpr ⟨number, hfile, hsize, rfl⟩

end Site

/-- Nothing but the key, to a server, and the files that lie in the update directory itself is given out;
    these files are, each under its name with every byte escaped, and as it is if it has no `%` and no `?`. -/
theorem updates_confined (s : Site) (sourceIp : Text) :
    (∀ path body, s.get sourceIp path = .octets body →
      (path = keyPath ∧ InRegistry s.servers sourceIp ∧
        ∃ key, s.notifyKey = some key ∧ 32 ≤ key.length ∧ body = key ++ [10]) ∨
      (updatesPath <+: path ∧ ∃ name number, s.Holds name number ∧ body = s.content number)) ∧
    ∀ name number, AssetName name → s.Holds name number → (s.content number).length ≤ updateMaxFileSize →
      s.get sourceIp (updatesPath ++ quoted name) = .octets (s.content number) ∧
      ('%' ∉ name → '?' ∉ name → s.get sourceIp (updatesPath ++ name) = .octets (s.content number)) := by
  constructor
  · intro path body h
    by_cases hkey : path = keyPath
    · left
      rw [Site.get, if_pos hkey] at h
      cases hboot : s.bootstrapServerKey sourceIp with
      | ok body' =>
        rw [hboot] at h
        obtain rfl := GetAnswer.octets.inj h
        exact ⟨hkey, s.bootstrapServerKey_eq_ok hboot⟩
      | error e =>
        rw [hboot] at h
        cases e <;> cases h
    · by_cases hpath : updatesPath <+: path
      · right
        rw [s.get_updates hpath] at h
        cases hasset : s.updateAssetPath path with
        | ok loc =>
          rw [hasset] at h
          obtain ⟨number, hfile, -, hbody⟩ := s.sendUpdateFile_octets.mp h
          obtain ⟨name, hholds⟩ := s.holds_of_assetPath hasset hfile
          exact ⟨hpath, name, number, hholds, hbody⟩
        | error e =>
          rw [hasset] at h
          cases e <;> cases h
      · rw [Site.get, if_neg hkey, if_neg hpath] at h
        split_ifs at h
  · intro name number hname hholds hsize
    have hgiven : ∀ t : Text, '?' ∉ t → unquote t = name →
        s.get sourceIp (updatesPath ++ t) = .octets (s.content number) := by
      intro t hquery hunquote
      have hrequested := Site.requested_of hquery hunquote
      refine s.get_holds (List.prefix_append updatesPath t) ?_ ?_ hsize
      · rwa [hrequested]
      · rwa [hrequested]
    exact ⟨hgiven _ (Site.query_not_mem_quoted name) (unquote_quoted name),
      fun hpercent hquery => hgiven name hquery (unquote_plain hpercent)⟩

/-- One release, which `current` names. -/
def published : Tree :=
  ((Tree.bare.withNode ["releases".toList] .dir).withNode ["releases".toList, "manifest.json".toList]
    (.file 1)).withNode ["current".toList] (.link "releases".toList)

theorem link_published {loc : Loc} {target : Text} (h : published.node loc = some (.link target)) :
    loc = ["current".toList] ∧ target = "releases".toList := by
  rcases link_of_withNode h with ⟨hloc, htarget⟩ | h
  · exact ⟨hloc, (Node.link.inj htarget).symm⟩
  · rcases link_of_withNode h with ⟨-, hfile⟩ | h
    · cases hfile
    · rcases link_of_withNode h with ⟨-, hdir⟩ | h
      · cases hdir
      · exact absurd h (linkless_bare [] loc target List.nil_prefix)

theorem loopless_published : Loopless published := by
  have hparts : parts "releases".toList = ["releases".toList] := by decide +kernel
  refine loopless_of_direct fun loc n target hlink m hm hname => ?_
  rw [(link_published hlink).2, hparts, List.mem_singleton] at hm
  obtain ⟨loc', target', hlink'⟩ := hname
  have hsplit : loc' ++ [m] = [] ++ ["current".toList] := (link_published hlink').1
  have hlast := List.append_inj_right' hsplit rfl
  rw [hm] at hlast
  exact absurd hlast (by decide)

def publishedSite : Site :=
  ⟨published, loopless_published, fun number => [UInt8.ofNat number], [], physical_root, "/current".toList, none,
    .missing⟩

theorem holds_manifest : publishedSite.Holds "manifest.json".toList 1 := by
  have htrace : trace published 1 [] ["current".toList] = some ["releases".toList] := by decide +kernel
  have hbase : base "/current".toList [] = [] := by decide +kernel
  have hparts : parts "/current".toList = ["current".toList] := by decide +kernel
  have hroot : publishedSite.root = ["releases".toList] := by
    have hreal := @realpath_of_trace _ loopless_published _ _ _ _ htrace
    rw [← hreal, ← hparts, ← hbase]
    rfl
  rw [Site.Holds, hroot]
  decide +kernel

/-- The file of the release is found through `current`, and it is one of the directory. -/
theorem updates_confined_current :
    publishedSite.get "10.0.0.9".toList (updatesPath ++ "manifest.json".toList) = .octets [1] ∧
      ∃ name number, publishedSite.Holds name number ∧ [1] = publishedSite.content number := by
  have hname : AssetName "manifest.json".toList := ⟨by decide, by decide, by decide, by decide, by decide⟩
  have hall := updates_confined publishedSite "10.0.0.9".toList
  have hget := (hall.2 _ 1 hname holds_manifest (by decide +kernel)).2 (by decide) (by decide)
  rcases hall.1 _ _ hget with ⟨hpath, -⟩ | ⟨-, hfile⟩
  · exact absurd hpath (by decide)
  · exact ⟨hget, hfile⟩

end Coordinator
