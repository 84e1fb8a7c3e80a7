import WireguardP2p.Coordinator.State

/-! `vps/peers_api.py`: `peer_role`, over the texts of the two registries that the manager writes. -/

namespace Coordinator
open Ipaddress Python Net Candidates Wg

/-- A registry as the two programs may find it. -/
inductive RoleFile
  | missing
  /-- Opening or reading it raises another `OSError` than `FileNotFoundError`. -/
  | unreadable
  /-- It is not UTF-8. -/
  | undecodable
  | text (t : Text)
  deriving DecidableEq

/-- The lines of a file that is read as text: line ends of every system are translated. -/
def fileLines (t : Text) : List Text := (replaceCrlf t).splitOnP fun c => c == '\n' || c == '\r'

/-- What the coordinator finds: it takes every `OSError` for a missing file. -/
def RoleFile.opened : RoleFile → RegistryFile
  | .missing => .missing
  | .unreadable => .missing
  | .undecodable => .undecodable
  | .text t => .lines (fileLines t)

/-- `line.split("#", 1)[0].strip()`. -/
def registryValue (line : Text) : Text := trim isStrSpace (line.takeWhile fun c => decide (c ≠ '#'))

/-- `OVERLAY_NETWORK`. -/
def overlayNetwork : Network 32 := net4 [10, 0, 0, 0] 24

def networkAddress : ℕ := ofDigits (2 ^ 8) [10, 0, 0, 0]
def broadcastAddress : ℕ := ofDigits (2 ^ 8) [10, 0, 0, 255]

/-- An overlay address that may have a role, at the coordinator with the address `own`. -/
def assignable (own : Text) (a : IpAddress) : Bool :=
  decide (a.version = 4) && overlayNetwork.contains a.toNat &&
    decide (a.toNat ≠ networkAddress) && decide (a.toNat ≠ broadcastAddress) && decide (a.compressed ≠ own)

/-- `LISTEN_ADDRESS`. -/
def listenAddress : Text := "10.0.0.1".toList

structure Registries where
  servers : RoleFile
  relayOnly : RoleFile
  deriving DecidableEq

/-- `peer_role`. -/
def peerRole (r : Registries) (overlayIp : Text) : Except Raised Role := do
  if overlayIp ∈ (← loadRoleRegistry r.relayOnly.opened) then return .relayOnly
  if overlayIp ∈ (← loadRoleRegistry r.servers.opened) then return .server
  return .client

/-- The address is in the set that is read: in `server_ips()`, for the file of the servers. -/
def InRegistry (f : RoleFile) (overlayIp : Text) : Prop :=
  ∃ l, loadRoleRegistry f.opened = .ok l ∧ overlayIp ∈ l

/-- The role of two sets of addresses; the relay-only set has precedence. -/
def roleIn (servers relayOnly : List Text) (ip : Text) : Role :=
  if ip ∈ relayOnly then .relayOnly else if ip ∈ servers then .server else .client

theorem peerRole_eq {r : Registries} {servers relayOnly : List Text}
    (hs : loadRoleRegistry r.servers.opened = .ok servers)
    (hr : loadRoleRegistry r.relayOnly.opened = .ok relayOnly) (ip : Text) :
    peerRole r ip = .ok (roleIn servers relayOnly ip) := by
  simp only [peerRole, hs, hr, roleIn, bind, Except.bind, pure, Except.pure]
  split_ifs <;> rfl

theorem roleIn_congr {servers servers' relayOnly relayOnly' : List Text} {ip : Text} (hs : ip ∈ servers ↔ ip ∈ servers')
    (hr : ip ∈ relayOnly ↔ ip ∈ relayOnly') : roleIn servers relayOnly ip = roleIn servers' relayOnly' ip := by
  simp only [roleIn, hs, hr]

/-- The last part of an address of the overlay network tells its first and its last address. -/
theorem overlay_bounds {n : ℕ} (h : overlayNetwork.contains n = true) :
    (n ≠ networkAddress ↔ n % 2 ^ 8 ≠ 0) ∧ (n ≠ broadcastAddress ↔ n % 2 ^ 8 ≠ 255) := by
  have hhigh : n / 2 ^ 8 = networkAddress / 2 ^ 8 := by simpa [Network.contains, overlayNetwork, net4, networkAddress] using h
  have hnetwork : networkAddress = 10 * 2 ^ 24 := rfl
  have hbroadcast : broadcastAddress = 10 * 2 ^ 24 + 255 := rfl
  omega

/-- A line names the address of its value, if that may have a role. -/
theorem registryAddress_some {line v : Text} :
    registryAddress line = some v ↔
      ∃ a, ipAddress (registryValue line) = some a ∧ assignable listenAddress a = true ∧ a.compressed = v := by
  rw [registryAddress, ← registryValue]
  cases hparse : ipAddress (registryValue line) with
  | none => simp
  | some a =>
    cases a with
    | v6 ip scope => simp [assignable, IpAddress.version]
    | v4 ip =>
      have hsame : ((net4 [10, 0, 0, 0] 24).contains ip = true ∧ ip.val % 2 ^ 8 ≠ 0 ∧ ip.val % 2 ^ 8 ≠ 255 ∧
          IpAddress.compressed (.v4 ip) ≠ "10.0.0.1".toList) ↔ assignable listenAddress (.v4 ip) = true := by
        have hassign : assignable listenAddress (.v4 ip) = true ↔ overlayNetwork.contains ip.val = true ∧
            ip.val ≠ networkAddress ∧ ip.val ≠ broadcastAddress ∧ IpAddress.compressed (.v4 ip) ≠ listenAddress := by
          simp only [assignable, Bool.and_eq_true, decide_eq_true_eq, and_assoc]
          exact and_iff_right rfl
        have hnetwork : net4 [10, 0, 0, 0] 24 = overlayNetwork := rfl
        have hlisten : "10.0.0.1".toList = listenAddress := rfl
        rw [hassign, hnetwork, hlisten, and_congr_right_iff]
        intro hin
        rw [(overlay_bounds hin).1, (overlay_bounds hin).2]
      simp only [hsame]
      split_ifs with h
      · simp [h]
      · simp [h]

/-! ### Reading a registry back -/

theorem trim_eq_self {p : Char → Bool} {t : Text} (h : ∀ c ∈ t, p c = false) : trim p t = t := by
  have hdrop : ∀ u : Text, (∀ c ∈ u, p c = false) → u.dropWhile p = u := by
    intro u hu
    cases u with
    | nil => rfl
    | cons c u => rw [List.dropWhile_cons_of_neg (by simp [hu c List.mem_cons_self])]
  rw [trim, hdrop t h, hdrop t.reverse fun c hc => h c (List.mem_reverse.mp hc), List.reverse_reverse]

theorem registryValue_solid {t : Text} (h : Solid t) (hhash : '#' ∉ t) : registryValue t = t := by
  have htake : t.takeWhile (fun c => decide (c ≠ '#')) = t := by
    rw [List.takeWhile_eq_self_iff]
    intro c hc
    exact decide_eq_true fun heq => hhash (heq ▸ hc)
  rw [registryValue, htake, trim_eq_self h.2]

theorem solid_ipv4Text (ip : ℕ) : Solid (ipv4Text ip) := by
  refine solid_intercalate (no_space_of_all (by decide)) _ ?_ fun t ht => ?_
  · simp [toDigitsBE]
  · obtain ⟨d, -, rfl⟩ := List.mem_map.mp ht
    exact solid_text (by norm_num) (by norm_num) d

/-- An address in its normal form that may have a role. -/
def Canonical (own v : Text) : Prop := ∃ a, ipAddress v = some a ∧ assignable own a = true ∧ a.compressed = v

theorem Canonical.eq_ipv4Text {own v : Text} (h : Canonical own v) : ∃ ip, v = ipv4Text ip := by
  obtain ⟨a, -, ha, rfl⟩ := h
  cases a with
  | v4 ip => exact ⟨ip, rfl⟩
  | v6 ip scope => simp [assignable] at ha

theorem Canonical.solid {own v : Text} (h : Canonical own v) : Solid v ∧ '#' ∉ v := by
  obtain ⟨ip, rfl⟩ := h.eq_ipv4Text
  exact ⟨solid_ipv4Text ip, not_mem_ipv4Text (by decide) (by decide) ip⟩

theorem canonical_compressed {own : Text} {a : IpAddress} (h : assignable own a = true) : Canonical own a.compressed :=
  ⟨a, ipAddress_compressed a, h, rfl⟩

theorem registryAddress_canonical {v : Text} (h : Canonical listenAddress v) : registryAddress v = some v := by
  obtain ⟨hsolid, hhash⟩ := h.solid
  obtain ⟨a, hparse, ha, hcompressed⟩ := h
  rw [registryAddress_some, registryValue_solid hsolid hhash]
  exact ⟨a, hparse, ha, hcompressed⟩

theorem filterMap_canonical {vs : List Text} (h : ∀ v ∈ vs, Canonical listenAddress v) :
    vs.filterMap registryAddress = vs := by
  induction vs with
  | nil => rfl
  | cons v vs ih =>
    rw [List.filterMap_cons_some (registryAddress_canonical (h v List.mem_cons_self)),
      ih fun w hw => h w (List.mem_cons_of_mem v hw)]

/-- The lines of a file that has each text on a line of its own. -/
theorem fileLines_flatten {vs : List Text} (h : ∀ v ∈ vs, '\n' ∉ v ∧ '\r' ∉ v) :
    fileLines (vs.map fun v => v ++ ['\n']).flatten = vs ++ [[]] := by
  have hr : '\r' ∉ (vs.map fun v => v ++ ['\n']).flatten := by
    intro hmem
    obtain ⟨l, hl, hmem⟩ := List.mem_flatten.mp hmem
    obtain ⟨v, hv, rfl⟩ := List.mem_map.mp hl
    rcases List.mem_append.mp hmem with hmem | hmem
    · exact (h v hv).2 hmem
    · exact absurd hmem (by decide)
  rw [fileLines, replaceCrlf_eq_self hr]
  clear hr
  induction vs with
  | nil => rfl
  | cons v vs ih =>
    obtain ⟨hn, hr⟩ := h v List.mem_cons_self
    have hv : ∀ c ∈ v, (c == '\n' || c == '\r') = false := by
      intro c hc
      rw [Bool.or_eq_false_iff, beq_eq_false_iff_ne, beq_eq_false_iff_ne]
      exact ⟨fun heq => hn (heq ▸ hc), fun heq => hr (heq ▸ hc)⟩
    rw [List.map_cons, List.flatten_cons, List.append_assoc, List.singleton_append,
      List.splitOnP_append_cons_of_forall_mem hv '\n' rfl, ih fun w hw => h w (List.mem_cons_of_mem v hw)]
    rfl

/-- A file that has each address on a line of its own is read back. -/
theorem load_lines {vs : List Text} (h : ∀ v ∈ vs, Canonical listenAddress v) :
    loadRoleRegistry (RoleFile.text (vs.map fun v => v ++ ['\n']).flatten).opened = .ok vs.dedup := by
  have hbreaks : ∀ v ∈ vs, '\n' ∉ v ∧ '\r' ∉ v := fun v hv =>
    ⟨not_mem_of_solid (h v hv).solid.1 (by decide), not_mem_of_solid (h v hv).solid.1 (by decide)⟩
  have hempty : registryAddress [] = none := rfl
  rw [RoleFile.opened, loadRoleRegistry, fileLines_flatten hbreaks, List.filterMap_append, filterMap_canonical h,
    List.filterMap_cons_none hempty, List.filterMap_nil, List.append_nil]

end Coordinator
