import WireguardP2p.Agent.Dump
import WireguardP2p.Coordinator.Registry
import WireguardP2p.Coordinator.Request

/-! `vps/peers_api.py`: `wg_peers`, the third reader of the dump, and `find_source_peer`. The coordinator knows
    who asks by the address a request comes from; WireGuard takes a packet with this address from one peer
    only, the one that has the longest prefix of it. -/

namespace Wg
open Ipaddress Python Numeral

/-- An allowed IP of a peer, as WireGuard has it. -/
inductive Prefix
  | v4 (ip : Fin (2 ^ 32)) (length : Fin 33)
  | v6 (ip : Fin (2 ^ 128)) (length : Fin 129)
  deriving DecidableEq

namespace Prefix

def address : Prefix → IpAddress
  | v4 ip _ => .v4 ip
  | v6 ip _ => .v6 ip none

def length : Prefix → ℕ
  | v4 _ n => n
  | v6 _ n => n

/-- The prefix of a single address. -/
def Single : Prefix → Prop
  | v4 _ n => n = 32
  | v6 _ n => n = 128

def covers : Prefix → IpAddress → Bool
  | v4 ip n, .v4 a => (⟨ip, n⟩ : Network 32).contains a
  | v6 ip n, .v6 a _ => (⟨ip, n⟩ : Network 128).contains a
  | _, _ => false

/-- What `wg` prints. -/
def text (x : Prefix) : Text := x.address.compressed ++ '/' :: Numeral.text 10 x.length

end Prefix

/-- A device with the table it takes packets by: no prefix is allowed at two peers. -/
structure Device where
  interface : Interface
  allowed : Peer → List Prefix
  printed : ∀ p ∈ interface.peers, p.allowedIps.map Subtype.val = (allowed p).map Prefix.text
  unique : ∀ p ∈ interface.peers, ∀ q ∈ interface.peers, ∀ x ∈ allowed p, x ∈ allowed q → p = q

/-- A packet from the address is taken from the peer: it has the longest prefix of the address. -/
def Device.Owner (d : Device) (a : IpAddress) (p : Peer) : Prop :=
  ∃ x ∈ d.allowed p, x.covers a = true ∧
    ∀ q ∈ d.interface.peers, ∀ y ∈ d.allowed q, y.covers a = true → y.length ≤ x.length

/-- Lines that end with a line end, split without stripping the text. -/
theorem splitLines_flatten {ls : List Text} (h : ∀ l ∈ ls, ∀ c ∈ l, isLineBreak c = false) :
    splitLines (ls.map fun l => l ++ ['\n']).flatten = ls := by
  have hr : '\r' ∉ (ls.map fun l => l ++ ['\n']).flatten := by
    intro hmem
    obtain ⟨line, hline, hmem⟩ := List.mem_flatten.mp hmem
    obtain ⟨l, hl, rfl⟩ := List.mem_map.mp hline
    rcases List.mem_append.mp hmem with hmem | hmem
    · exact absurd (h l hl '\r' hmem) (by decide)
    · exact absurd hmem (by decide)
  have hsplit : (ls.map fun l => l ++ ['\n']).flatten.splitOnP isLineBreak = ls ++ [[]] := by
    clear hr
    induction ls with
    | nil => rfl
    | cons l ls ih =>
      rw [List.map_cons, List.flatten_cons, List.append_assoc, List.singleton_append,
        List.splitOnP_append_cons_of_forall_mem (h l List.mem_cons_self) '\n' (by decide),
        ih fun m hm => h m (List.mem_cons_of_mem l hm), List.cons_append]
  rw [splitLines, replaceCrlf_eq_self hr, hsplit]
  simp only [List.getLast?_concat, if_true, List.dropLast_concat]

theorem Interface.splitLines_output (i : Interface) :
    splitLines i.dump = line i.fields :: i.peers.map fun p => line p.fields := by
  have hbreak : ∀ l ∈ (i.fields :: i.peers.map Peer.fields).map line, ∀ c ∈ l, isLineBreak c = false := by
    intro l hl c hc
    obtain ⟨fs, hfs, rfl⟩ := List.mem_map.mp hl
    rcases mem_line (i.solid_lines fs hfs).2 c hc with rfl | h
    · decide
    · exact no_break h
  rw [Interface.dump, output, splitLines_flatten hbreak, List.map_cons, List.map_map]
  rfl

namespace Prefix

theorem not_mem_compressed {c : Char} (hc : digitVal c = none) (hdot : c ≠ '.') (hcolon : c ≠ ':') (x : Prefix) :
    c ∉ x.address.compressed := by
  cases x with
  | v4 ip n => exact not_mem_ipv4Text hc hdot ip
  | v6 ip n => exact not_mem_ipv6Text hc hcolon ip

theorem splitOn_text (x : Prefix) : x.text.splitOn '/' = [x.address.compressed, Numeral.text 10 x.length] := by
  have hslash : '/' ∉ Numeral.text 10 x.length := not_mem_text (by norm_num) (by norm_num) _ (by decide)
  have haddress : '/' ∉ x.address.compressed := x.not_mem_compressed (by decide) (by decide) (by decide)
  have htext : x.text = ['/'].intercalate [x.address.compressed, Numeral.text 10 x.length] := by
    rw [List.intercalate_cons_cons, List.intercalate_singleton, List.append_assoc]
    rfl
  rw [htext]
  refine List.splitOn_intercalate '/' (fun t ht => ?_) (by simp)
  rcases List.mem_pair.mp ht with rfl | rfl
  · exact haddress
  · exact hslash

end Prefix

end Wg

namespace Coordinator
open Ipaddress Python Net Candidates Numeral Wg

/-- A prefix length of an interface; `int` takes no more than 4300 digits. -/
def isPrefixLength (bits : ℕ) (t : Text) : Bool :=
  decide (t.length ≤ 4300) && (Numeral.read 10 t).any fun n => decide (n ≤ bits)

/-- A netmask or a host mask. -/
def isMask (t : Text) : Bool :=
  (ipv4FromString t).any fun n => (List.range 33).any fun k => decide (n.val = 2 ^ 32 - 2 ^ k ∨ n.val = 2 ^ k - 1)

def unscoped : IpAddress → IpAddress
  | .v4 ip => .v4 ip
  | .v6 ip _ => .v6 ip none

/-- `ip_interface(text).ip`. -/
def ipInterface (t : Text) : Option IpAddress :=
  match t.splitOn '/' with
  | [address] => (ipAddress address).map unscoped
  | [address, mask] =>
    match ipAddress address with
    | some (.v4 ip) => if isPrefixLength 32 mask || isMask mask then some (.v4 ip) else none
    | some (.v6 ip _) => if isPrefixLength 128 mask then some (.v6 ip none) else none
    | none => none
  | _ => none

/-- A line of the dump; lines of less than eight fields and peers without an address are passed over. -/
def readListed (r : Registries) : List Text → Except Raised (Option ListedPeer)
  | key :: _psk :: endpoint :: allowedIps :: handshake :: _rx :: _tx :: _keepalive :: _ =>
    match ipInterface (trim isStrSpace ((allowedIps.splitOn ',').headD [])) with
    | none => return none
    | some address => do
      let latestHandshake ← Agent.intOrZero handshake
      let role ← peerRole r address.compressed
      return some {
        key, ip := address.compressed, role, latestHandshake, instanceId := []
        endpoint := if endpoint = "(none)".toList then [] else endpoint }
  | _ => return none

/-- `wg_peers`, from what `wg` prints. -/
def wgPeers (r : Registries) (stdout : Text) : Except Raised (List ListedPeer) := do
  let found ← (splitLines stdout).tail.mapM fun line => readListed r (line.splitOn '\t')
  return found.reduceOption

/-! ### A peer read back -/

/-- A peer of the device, by its first prefix. -/
def listing (servers relayOnly : List Text) (p : Wg.Peer) (x : Prefix) : ListedPeer where
  key := p.key.1
  ip := x.address.compressed
  endpoint := (p.endpoint.map Subtype.val).getD []
  instanceId := []
  role := roleIn servers relayOnly x.address.compressed
  latestHandshake := p.latestHandshake

theorem isPrefixLength_text {bits n : ℕ} (h : n ≤ bits) (hbits : bits < 10 ^ 3) :
    isPrefixLength bits (Numeral.text 10 n) = true := by
  have hlength : (Numeral.text 10 n).length ≤ 3 := (length_text_le (by norm_num) (by norm_num)).mpr (h.trans_lt hbits)
  rw [isPrefixLength, read_text (by norm_num) (by norm_num), Bool.and_eq_true, decide_eq_true_iff]
  exact ⟨by omega, decide_eq_true h⟩

theorem ipInterface_text (x : Prefix) : ipInterface x.text = some x.address := by
  unfold ipInterface
  simp only [x.splitOn_text, ipAddress_compressed]
  cases x with
  | v4 ip n =>
    have hn : isPrefixLength 32 (Numeral.text 10 (Prefix.v4 ip n).length) = true :=
      isPrefixLength_text (Nat.lt_succ_iff.mp n.2) (by norm_num)
    simp only [Prefix.address, hn, Bool.true_or, if_true]
  | v6 ip n =>
    have hn : isPrefixLength 128 (Numeral.text 10 (Prefix.v6 ip n).length) = true :=
      isPrefixLength_text (Nat.lt_succ_iff.mp n.2) (by norm_num)
    simp only [Prefix.address, hn, if_true]

section Device
variable {d : Device} {r : Registries} {servers relayOnly : List Text}

theorem readListed_fields (hs : loadRoleRegistry r.servers.opened = .ok servers)
    (hr : loadRoleRegistry r.relayOnly.opened = .ok relayOnly) {p : Wg.Peer} (hp : p ∈ d.interface.peers) :
    readListed r p.fields = .ok ((d.allowed p).head?.map (listing servers relayOnly p)) := by
  have hprinted := d.printed p hp
  unfold Wg.Peer.fields readListed
  cases hallowed : d.allowed p with
  | nil =>
    rw [hallowed, List.map_nil, List.map_eq_nil_iff] at hprinted
    have hnone : ipInterface (trim isStrSpace (((allowedText []).splitOn ',').headD [])) = none := by decide +kernel
    simp only [hprinted, hnone]
    rfl
  | cons x rest =>
    rw [hallowed, List.map_cons] at hprinted
    have hne : p.allowedIps ≠ [] := fun h => by
      rw [h] at hprinted
      cases hprinted
    have hsplit : (allowedText p.allowedIps).splitOn ',' = x.text :: rest.map Prefix.text := by
      rw [Agent.splitOn_allowedText (fun a ha => (p.allowedIps_ne a ha).1) hne, hprinted]
    have hsolid : ∀ c ∈ x.text, isStrSpace c = false := by
      obtain ⟨f, -, hf⟩ := List.mem_map.mp (hprinted ▸ List.mem_cons_self : x.text ∈ p.allowedIps.map Subtype.val)
      exact hf ▸ f.2.2
    have hinterface : ipInterface (trim isStrSpace (((allowedText p.allowedIps).splitOn ',').headD [])) =
        some x.address := by
      rw [hsplit, List.headD_cons, trim_eq_self hsolid, ipInterface_text]
    simp only [hinterface, Agent.intOrZero_text p.latestHandshake_lt, peerRole_eq hs hr,
      Agent.orNone_eq_none p.endpoint_ne, bind, Except.bind, pure, Except.pure]
    rfl

/-- What `wg_peers` lists. -/
def listed (d : Device) (servers relayOnly : List Text) : List ListedPeer :=
  d.interface.peers.filterMap fun p => (d.allowed p).head?.map (listing servers relayOnly p)

/-- Every peer that has an allowed IP is listed, in the order of the dump. -/
theorem wgPeers_dump (hs : loadRoleRegistry r.servers.opened = .ok servers)
    (hr : loadRoleRegistry r.relayOnly.opened = .ok relayOnly) :
    wgPeers r d.interface.dump = .ok (listed d servers relayOnly) := by
  have hlines : ∀ ps : List Wg.Peer, (∀ p ∈ ps, p ∈ d.interface.peers) →
      (ps.map fun p => line p.fields).mapM (fun line => readListed r (line.splitOn '\t')) =
        .ok (ps.map fun p => (d.allowed p).head?.map (listing servers relayOnly p)) := by
    intro ps
    induction ps with
    | nil => exact fun _ => rfl
    | cons p ps ih =>
      intro hps
      rw [List.map_cons, List.mapM_cons, p.splitOn_line, readListed_fields hs hr (hps p List.mem_cons_self),
        ih fun q hq => hps q (List.mem_cons_of_mem p hq)]
      rfl
  rw [wgPeers, d.interface.splitLines_output, List.tail_cons, hlines _ fun _ hp => hp]
  simp only [bind, Except.bind, pure, Except.pure, List.reduceOption, List.filterMap_map, listed]
  rfl

/-! ### Who asks -/

theorem mem_listed {q : ListedPeer} : q ∈ listed d servers relayOnly ↔
    ∃ p ∈ d.interface.peers, ∃ x rest, d.allowed p = x :: rest ∧ q = listing servers relayOnly p x := by
  rw [listed, List.mem_filterMap]
  constructor
  · rintro ⟨p, hp, hq⟩
    obtain ⟨x, hx, rfl⟩ := Option.map_eq_some_iff.mp hq
    obtain ⟨rest, hrest⟩ := List.head?_eq_some_iff.mp hx
    exact ⟨p, hp, x, rest, hrest, rfl⟩
  · rintro ⟨p, hp, x, rest, hallowed, rfl⟩
    refine ⟨p, hp, ?_⟩
    rw [hallowed]
    rfl

end Device

theorem compressed_injective {a b : IpAddress} (h : a.compressed = b.compressed) : a = b := by
  have hb := ipAddress_compressed b
  rw [← h, ipAddress_compressed] at hb
  exact Option.some.inj hb

end Coordinator

namespace Wg
open Ipaddress

namespace Prefix
variable {x y : Prefix} {a : IpAddress}

theorem covers_self (x : Prefix) : x.covers x.address = true := by
  cases x <;> simp [covers, address, Network.contains]

/-- A prefix that covers an address and is no shorter than the prefix of this address alone is that prefix. -/
theorem eq_of_single (hx : x.Single) (hy : y.covers x.address = true) (hle : x.length ≤ y.length) : y = x := by
  cases x with
  | v4 ip n =>
    obtain rfl : n = 32 := hx
    cases y with
    | v4 ip' n' =>
      obtain rfl : n' = 32 := Fin.le_antisymm (Fin.le_last n') hle
      simp only [covers, address, Network.contains, beq_iff_eq] at hy
      have hip : (ip : ℕ) = ip' := by simpa using hy
      rw [Fin.ext hip]
    | v6 ip' n' => cases hy
  | v6 ip n =>
    obtain rfl : n = 128 := hx
    cases y with
    | v4 ip' n' => cases hy
    | v6 ip' n' =>
      obtain rfl : n' = 128 := Fin.le_antisymm (Fin.le_last n') hle
      simp only [covers, address, Network.contains, beq_iff_eq] at hy
      have hip : (ip : ℕ) = ip' := by simpa using hy
      rw [Fin.ext hip]

theorem length_le_of_single (hx : x.Single) (hy : y.covers x.address = true) : y.length ≤ x.length := by
  by_contra hlt
  rw [eq_of_single hx hy (by omega)] at hlt
  exact hlt le_rfl

end Prefix

/-- The peer that has the prefix of the single address owns the address, and no other peer does. -/
theorem Device.owner_of_single {d : Device} {p : Peer} {x : Prefix} (hp : p ∈ d.interface.peers)
    (hx : x ∈ d.allowed p) (hsingle : x.Single) :
    d.Owner x.address p ∧ ∀ q ∈ d.interface.peers, d.Owner x.address q → q = p := by
  refine ⟨⟨x, hx, x.covers_self, fun q hq y hy hcovers => Prefix.length_le_of_single hsingle hcovers⟩, ?_⟩
  rintro q hq ⟨y, hy, hcovers, hlongest⟩
  obtain rfl := Prefix.eq_of_single hsingle hcovers (hlongest p hp x hx x.covers_self)
  exact d.unique q hq p hp y hy hx

end Wg

namespace Coordinator
open Ipaddress Python Net Candidates Numeral Wg

/-- The site, with a network behind it. -/
def sitePeer : Wg.Peer where
  key := ⟨"site".toList, by decide, no_space_of_all (by decide)⟩
  presharedKey := none
  endpoint := some ⟨"198.51.100.5:51820".toList, by decide, no_space_of_all (by decide)⟩
  allowedIps := [⟨"10.0.0.5/32".toList, by decide, no_space_of_all (by decide)⟩,
    ⟨"192.168.7.0/24".toList, by decide, no_space_of_all (by decide)⟩]
  latestHandshake := 1000
  rx := 0
  tx := 0
  keepalive := some 25
  endpoint_ne := by simp
  allowedIps_ne := by simp
  latestHandshake_lt := by norm_num
  keepalive_lt := by simp

def laptopPeer : Wg.Peer where
  key := ⟨"laptop".toList, by decide, no_space_of_all (by decide)⟩
  presharedKey := none
  endpoint := some ⟨"198.51.100.9:51820".toList, by decide, no_space_of_all (by decide)⟩
  allowedIps := [⟨"10.0.0.9/32".toList, by decide, no_space_of_all (by decide)⟩]
  latestHandshake := 900
  rx := 0
  tx := 0
  keepalive := some 20
  endpoint_ne := by simp
  allowedIps_ne := by simp
  latestHandshake_lt := by norm_num
  keepalive_lt := by simp

def sitePrefixes : List Prefix := [.v4 167772165 32, .v4 3232237312 24]

def laptopPrefixes : List Prefix := [.v4 167772169 32]

def siteAndLaptop : Device where
  interface := ⟨none, none, 51820, none, [sitePeer, laptopPeer], by decide⟩
  allowed p := if p.key.1 = "site".toList then sitePrefixes else laptopPrefixes
  printed := by
    intro p hp
    rcases List.mem_pair.mp hp with rfl | rfl <;> decide +kernel
  unique := by
    have hapart : ∀ x ∈ sitePrefixes, x ∉ laptopPrefixes := by decide
    intro p hp q hq x hx hx'
    rcases List.mem_pair.mp hp with rfl | rfl <;> rcases List.mem_pair.mp hq with rfl | rfl
    · rfl
    · exact absurd hx' (hapart x hx)
    · exact absurd hx (hapart x hx')
    · rfl

end Coordinator
