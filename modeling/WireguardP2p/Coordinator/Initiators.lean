import WireguardP2p.Coordinator.Offer
import WireguardP2p.Client.World

/-! Who initiates between two servers. The coordinator lists the servers an initiator is coordinated
    with, the agent's `eligible_initiator_server` and the client's `reconcilePeers` choose among the
    peers they are sent; all three ask whether the own overlay address is the lower one. -/

namespace Coordinator
open Ipaddress Python Net Candidates

/-- What `peer_role` returns. -/
inductive Role
  | relayOnly
  | server
  | client
  deriving DecidableEq

def Role.name : Role → String
  | relayOnly => "relay_only"
  | server => "server"
  | client => "client"

/-- A peer as `wg_peers` lists it. -/
structure ListedPeer extends Peer where
  role : Role
  latestHandshake : ℤ

/-- `server_initiator_owns_pair`. -/
def serverInitiatorOwnsPair (localIp remoteIp : Text) : Bool :=
  match ipAddress localIp, ipAddress remoteIp with
  | some ours, some theirs =>
    decide (ours.version = 4 ∧ theirs.version = 4 ∧ ours ≠ theirs ∧ ours.toNat < theirs.toNat)
  | _, _ => false

/-- A peer `initiator_servers` keeps. -/
def isTarget (initiator peer : ListedPeer) : Bool :=
  decide (peer.role = .server ∧ peer.key ≠ [] ∧ peer.ip ≠ [] ∧
    ¬ (peer.key = initiator.key ∨ peer.ip = initiator.ip)) &&
  (decide (initiator.role ≠ .server) || serverInitiatorOwnsPair initiator.ip peer.ip)

/-- `initiator_servers`. -/
def initiatorServers (initiator : ListedPeer) (peers : List ListedPeer) : List ListedPeer :=
  peers.filter (isTarget initiator)

/-- The fields of a peer the other programs read. -/
def ListedPeer.fields (p : ListedPeer) : List (Text × Json) :=
  [("key".toList, .str p.key), ("ip".toList, .str p.ip), ("role".toList, .str p.role.name.toList),
   ("endpoint".toList, .str p.endpoint), ("latest_handshake".toList, .int p.latestHandshake)]

/-- The peer as the coordinator sends it. -/
def ListedPeer.toJson (p : ListedPeer) (rest : List (Text × Json)) : Json := .obj (p.fields ++ rest)

/-- The peer as the client decodes it. -/
def ListedPeer.toApi (p : ListedPeer) (instanceID lanEndpoint : Text)
    (candidates : List Client.RawCandidate) : Client.ApiPeer where
  key := p.key
  ip := p.ip
  role := p.role.name.toList
  instanceID := instanceID
  endpoint := p.endpoint
  latestHandshake := p.latestHandshake
  lanEndpoint := lanEndpoint
  candidates := candidates

end Coordinator

namespace Agent
open Ipaddress Python

/-- `server_initiator_owns_pair`. -/
def serverInitiatorOwnsPair (localIp remoteIp : Json) : Bool :=
  match toIpAddress localIp, toIpAddress remoteIp with
  | .ok ours, .ok theirs =>
    decide (ours.version = 4 ∧ theirs.version = 4 ∧ ours ≠ theirs ∧ ours.toNat < theirs.toNat)
  | _, _ => false

/-- `INITIATOR_ONLINE_MAX_AGE`. -/
def initiatorOnlineMaxAge : ℚ := 180

/-- `not peer.get(name)`. -/
def missing (name : String) (peer : List (Text × Json)) : Bool :=
  !((Json.lookup name peer).getD .null).truthy

/-- `eligible_initiator_server`. -/
def eligibleInitiatorServer (listenAddress : Text) (peer : Json) (now : ℚ) : Except Raised Bool :=
  match peer with
  | .obj fields =>
    match Json.lookup "role" fields with
    | some (.str role) =>
      if role ≠ "server".toList then .ok false
      else if missing "key" fields || missing "ip" fields || missing "endpoint" fields then .ok false
      else if !serverInitiatorOwnsPair (.str listenAddress) ((Json.lookup "ip" fields).getD (.str [])) then
        .ok false
      else do
        let latest := (Json.lookup "latest_handshake" fields).getD (.int 0)
        let latest ← toInt (if latest.truthy then latest else .int 0)
        return decide (latest ≠ 0 ∧ now - latest ≤ initiatorOnlineMaxAge)
    | _ => .ok false
  | _ => .ok false

end Agent

namespace Client

/-- `bytes.Compare`. -/
def compareBytes : List ℕ → List ℕ → Ordering
  | [], [] => .eq
  | [], _ :: _ => .lt
  | _ :: _, [] => .gt
  | a :: as, b :: bs => if a < b then .lt else if b < a then .gt else compareBytes as bs

end Client

namespace Coordinator
open Ipaddress Python Net Candidates

/-! ### One order on the addresses -/

theorem digit_order {b m n c d : ℕ} (hc : c < b) (hd : d < b) :
    m * b + c < n * b + d ↔ m < n ∨ m = n ∧ c < d := by
  rcases lt_trichotomy m n with h | rfl | h
  · have hmul : (m + 1) * b ≤ n * b := Nat.mul_le_mul_right b h
    rw [Nat.add_mul] at hmul
    exact ⟨fun _ => .inl h, fun _ => by omega⟩
  · simp
  · have hmul : (n + 1) * b ≤ m * b := Nat.mul_le_mul_right b h
    rw [Nat.add_mul] at hmul
    refine ⟨fun hlt => by omega, fun hor => ?_⟩
    rcases hor with hlt | ⟨heq, -⟩ <;> omega

theorem digit_eq {b m n c d : ℕ} (hc : c < b) (hd : d < b) :
    m * b + c = n * b + d ↔ m = n ∧ c = d := by
  have hlt := digit_order (m := m) (n := n) hc hd
  have hgt := digit_order (m := n) (n := m) hd hc
  omega

/-- Digits of one length compare as the numbers they are the digits of, the first ones first. -/
theorem compareBytes_lt_iff {b : ℕ} : ∀ (as bs : List ℕ) (m n : ℕ), as.length = bs.length →
    (∀ c ∈ as, c < b) → (∀ d ∈ bs, d < b) →
    (as.foldl (fun acc d => acc * b + d) m < bs.foldl (fun acc d => acc * b + d) n ↔
      m < n ∨ m = n ∧ Client.compareBytes as bs = .lt)
  | [], [], m, n, _, _, _ => by simp [Client.compareBytes]
  | a :: as, d :: bs, m, n, hlen, has, hbs => by
    have ha : a < b := has a List.mem_cons_self
    have hd : d < b := hbs d List.mem_cons_self
    rw [List.foldl_cons, List.foldl_cons,
      compareBytes_lt_iff as bs _ _ (Nat.succ.inj hlen) (fun c hc => has c (List.mem_cons_of_mem a hc))
        fun c hc => hbs c (List.mem_cons_of_mem d hc), digit_order ha hd, digit_eq ha hd,
      Client.compareBytes]
    rcases lt_trichotomy a d with h | rfl | h
    · simp [h, h.ne]
    · simp
    · simp [h, h.ne', h.le]

/-- The four bytes of two addresses compare as the addresses. -/
theorem compareBytes_address (a b : Fin (2 ^ 32)) :
    Client.compareBytes (toDigitsBE 8 4 a) (toDigitsBE 8 4 b) = .lt ↔ a < b := by
  have h := compareBytes_lt_iff (b := 2 ^ 8) (toDigitsBE 8 4 a) (toDigitsBE 8 4 b) 0 0 (by simp [toDigitsBE])
    (fun c hc => lt_of_mem_toDigitsBE hc) fun c hc => lt_of_mem_toDigitsBE hc
  have ha := ofDigits_toDigitsBE (w := 8) (k := 4) a.isLt
  have hb := ofDigits_toDigitsBE (w := 8) (k := 4) b.isLt
  rw [ofDigits] at ha hb
  rw [ha, hb] at h
  rw [Fin.lt_def, h]
  exact ⟨fun hc => .inr ⟨rfl, hc⟩, fun hor => hor.elim (fun h0 => absurd h0 (Nat.lt_irrefl 0)) And.right⟩

theorem ownsPair_v4 {s t : Text} {a b : Fin (2 ^ 32)} (hs : ipAddress s = some (.v4 a))
    (ht : ipAddress t = some (.v4 b)) : serverInitiatorOwnsPair s t = decide (a < b) := by
  rw [serverInitiatorOwnsPair, hs, ht]
  simp only [IpAddress.version, IpAddress.toNat, true_and, Fin.lt_def, ne_eq, IpAddress.v4.injEq]
  rw [decide_eq_decide]
  exact ⟨fun h => h.2, fun h => ⟨fun he => by rw [he] at h; exact absurd h (lt_irrefl _), h⟩⟩

theorem agent_ownsPair (s t : Text) :
    Agent.serverInitiatorOwnsPair (.str s) (.str t) = serverInitiatorOwnsPair s t := by
  rw [Agent.serverInitiatorOwnsPair, serverInitiatorOwnsPair, toIpAddress, toIpAddress]
  cases ipAddress s with
  | none => cases ipAddress t <;> rfl
  | some a => cases ipAddress t <;> rfl

theorem client_ownsPair_v4 {s t : Text} {a b : Fin (2 ^ 32)} (hs : ipAddress s = some (.v4 a))
    (ht : ipAddress t = some (.v4 b)) : Client.serverInitiatorOwnsPair s t = decide (a < b) := by
  rw [Client.serverInitiatorOwnsPair, Client.parseIP, Client.parseIP, hs, ht]

/-! ### What the three choose -/

/-- The peers of a coordinator on one overlay network. -/
structure PeerList where
  peers : List ListedPeer
  key_ne : ∀ p ∈ peers, p.key ≠ []
  keys_nodup : (peers.map fun p => p.key).Nodup
  ipv4 : ∀ p ∈ peers, ∃ a, ipAddress p.ip = some (.v4 a)
  ips_nodup : (peers.map fun p => ipAddress p.ip).Nodup

namespace PeerList
variable (l : PeerList) {a b : ListedPeer}

theorem ip_ne (ha : a ∈ l.peers) : a.ip ≠ [] := by
  obtain ⟨ip, hip⟩ := l.ipv4 a ha
  rintro hnil
  rw [hnil] at hip
  cases hip

theorem key_injective (ha : a ∈ l.peers) (hb : b ∈ l.peers) (h : a.key = b.key) : a = b :=
  List.inj_on_of_nodup_map l.keys_nodup ha hb h

theorem ip_injective (ha : a ∈ l.peers) (hb : b ∈ l.peers) (h : ipAddress a.ip = ipAddress b.ip) :
    a = b := List.inj_on_of_nodup_map l.ips_nodup ha hb h

/-- Between two servers the coordinator goes by the order of the addresses. -/
theorem mem_initiatorServers (ha : a ∈ l.peers) (hb : b ∈ l.peers) (hab : a ≠ b)
    (hservers : a.role = .server ∧ b.role = .server) :
    b ∈ initiatorServers a l.peers ↔ serverInitiatorOwnsPair a.ip b.ip = true := by
  have hkey : b.key ≠ a.key := fun h => hab (l.key_injective ha hb h.symm)
  have hip : b.ip ≠ a.ip := fun h => hab (l.ip_injective ha hb (congrArg ipAddress h.symm))
  rw [initiatorServers, List.mem_filter, isTarget]
  simp [hb, hservers, l.key_ne b hb, l.ip_ne hb, hkey, hip]

end PeerList

theorem role_of_mem_initiatorServers {a p : ListedPeer} {peers : List ListedPeer}
    (h : p ∈ initiatorServers a peers) : p.role = .server := by
  rw [initiatorServers, List.mem_filter, isTarget, Bool.and_eq_true, decide_eq_true_eq] at h
  exact h.2.1.1

theorem role_name_eq {r : Role} : r.name.toList = "server".toList ↔ r = .server := by
  cases r <;> decide

theorem ListedPeer.lookup_role (p : ListedPeer) (rest : List (Text × Json)) :
    Json.lookup "role" (p.fields ++ rest) = some (.str p.role.name.toList) := rfl

theorem ListedPeer.lookup_ip (p : ListedPeer) (rest : List (Text × Json)) :
    Json.lookup "ip" (p.fields ++ rest) = some (.str p.ip) := rfl

/-- What the agent accepts is a server above its own address. -/
theorem of_eligible {listenAddress : Text} {p : ListedPeer} {rest : List (Text × Json)} {now : ℚ}
    (h : Agent.eligibleInitiatorServer listenAddress (p.toJson rest) now = .ok true) :
    p.role = .server ∧ serverInitiatorOwnsPair listenAddress p.ip = true := by
  simp only [ListedPeer.toJson, Agent.eligibleInitiatorServer, p.lookup_role, p.lookup_ip,
    Option.getD_some, agent_ownsPair] at h
  split at h
  · cases h
  · rename_i hrole
    split at h
    · cases h
    · split at h
      · cases h
      · rename_i howns
        exact ⟨role_name_eq.mp (not_not.mp hrole), by simpa using howns⟩

section Go
variable {ours : Client.ApiPeer} {ownKey key ip : Text}

/-- The servers the client found so far, each one of the peers it was sent. -/
def Chosen (ours : Client.ApiPeer) (peers : List Client.ApiPeer) (servers : Dict Text Text) : Prop :=
  ∀ key ip, servers.get? key = some ip → ∃ q ∈ peers, q.key = key ∧ q.role = "server".toList ∧
    (ours.role = "server".toList → Client.serverInitiatorOwnsPair ours.ip q.ip = true)

theorem chosen_foldl {all : List Client.ApiPeer} (ownKey : Text) : ∀ (peers : List Client.ApiPeer)
    (servers : Dict Text Text), (∀ q ∈ peers, q ∈ all) → Chosen ours all servers →
    Chosen ours all (peers.foldl (fun servers p =>
      if p.role ≠ "server".toList ∨ p.key = [] ∨ p.ip = [] ∨ p.key = ownKey then servers
      else if ours.role = "server".toList ∧ !Client.serverInitiatorOwnsPair ours.ip p.ip then servers
      else servers.set p.key p.ip) servers)
  | [], _, _, h => h
  | q :: qs, servers, hall, h => by
    rw [List.foldl_cons]
    refine chosen_foldl ownKey qs _ (fun p hp => hall p (List.mem_cons_of_mem q hp)) ?_
    split_ifs with hskip howned
    · exact h
    · exact h
    · push Not at hskip
      intro key ip hk
      rw [Dict.get?_set] at hk
      by_cases hkey : key = q.key
      · refine ⟨q, hall q List.mem_cons_self, hkey.symm, hskip.1, fun hs => ?_⟩
        simpa [hs] using howned
      · exact h key ip (by rwa [if_neg hkey] at hk)

/-- A server the client chose is among the peers it was sent. -/
theorem chosen_currentServers (peers : List Client.ApiPeer) :
    Chosen ours peers (Client.currentServers ours ownKey peers) :=
  chosen_foldl ownKey peers .empty (fun _ h => h) fun _ _ h => by simp at h

/-- The servers of a sync are those among the peers it was called with. -/
theorem currentServers_of_dumped {w : Client.World} {peers qs : List Client.ApiPeer} {ourLAN : Text}
    {dump : Bool} {s : Client.Sync} (hidle : w.main = .idle)
    (h : (w.reconcilePeers peers ownKey ourLAN dump).main = .dumped s qs) :
    ∃ ours ∈ peers, ours.key = ownKey ∧ s.currentServers = Client.currentServers ours ownKey peers := by
  have hidle' : w.main ≠ .dumped s qs := fun he => by
    rw [hidle] at he
    cases he
  rw [Client.World.reconcilePeers] at h
  split at h
  · exact absurd h hidle'
  · rename_i ours hfind
    split at h
    · exact absurd h hidle'
    · split at h
      · exact absurd h hidle'
      · cases h
        exact ⟨ours, List.mem_of_find?_eq_some hfind, by simpa using List.find?_some hfind, rfl⟩

theorem isSome_of_target {s : Client.Sync} {q : Client.ApiPeer} (h : s.target q ≠ none) :
    ∃ ip, s.currentServers.get? q.key = some ip := by
  rw [Client.Sync.target] at h
  cases hq : s.currentServers.get? q.key with
  | none =>
    rw [hq] at h
    exact absurd rfl h
  | some ip => exact ⟨ip, rfl⟩

end Go

/-- The agent of `a` takes the coordinator's peer `p` for a server it initiates with. -/
def AgentSelects (a p : ListedPeer) : Prop :=
  ∃ rest now, Agent.eligibleInitiatorServer a.ip (p.toJson rest) now = .ok true

/-- A call of `reconcilePeers` at `a`, with the coordinator's list, has `p` among its targets. -/
def ClientSelects (peers : List ListedPeer) (a p : ListedPeer) : Prop :=
  ∃ (instanceID lanEndpoint : ListedPeer → Text) (candidates : ListedPeer → List Client.RawCandidate)
    (w : Client.World) (ourLAN : Text) (dump : Bool) (s : Client.Sync) (qs : List Client.ApiPeer),
    w.main = .idle ∧
    (w.reconcilePeers (peers.map fun q => q.toApi (instanceID q) (lanEndpoint q) (candidates q)) a.key
      ourLAN dump).main = .dumped s qs ∧
    ∃ now previous active, { s with now, previous, active }.target
      (p.toApi (instanceID p) (lanEndpoint p) (candidates p)) ≠ none

namespace PeerList
variable (l : PeerList) {a b p : ListedPeer}

theorem of_clientSelects (ha : a ∈ l.peers) (hp : p ∈ l.peers) (h : ClientSelects l.peers a p) :
    p.role = .server ∧
      (a.role = .server → Client.serverInitiatorOwnsPair a.ip p.ip = true) := by
  obtain ⟨instanceID, lanEndpoint, candidates, w, ourLAN, dump, s, qs, hidle, hmain, now, previous, active,
    htarget⟩ := h
  obtain ⟨ours, hours, hkey, hservers⟩ := currentServers_of_dumped hidle hmain
  obtain ⟨ip, hip⟩ := isSome_of_target htarget
  have hip' : s.currentServers.get? p.key = some ip := hip
  rw [hservers] at hip'
  obtain ⟨q, hq, hqkey, hqrole, hqowns⟩ := chosen_currentServers _ p.key ip hip'
  obtain ⟨a', ha', rfl⟩ := List.mem_map.mp hours
  obtain ⟨p', hp', rfl⟩ := List.mem_map.mp hq
  obtain rfl := l.key_injective ha' ha hkey
  obtain rfl := l.key_injective hp' hp hqkey
  exact ⟨role_name_eq.mp hqrole, fun hs => hqowns (role_name_eq.mpr hs)⟩

end PeerList

/-- The three tests of ownership on dotted-quad addresses. -/
theorem ownsPair_coincide {s t : Text} {x y : Fin (2 ^ 32)} (hs : ipAddress s = some (.v4 x))
    (ht : ipAddress t = some (.v4 y)) :
    Agent.serverInitiatorOwnsPair (.str s) (.str t) = serverInitiatorOwnsPair s t ∧
      Client.serverInitiatorOwnsPair s t = serverInitiatorOwnsPair s t ∧
      (serverInitiatorOwnsPair s t = true ↔
        Client.compareBytes (toDigitsBE 8 4 x) (toDigitsBE 8 4 y) = .lt) := by
  refine ⟨agent_ownsPair s t, (client_ownsPair_v4 hs ht).trans (ownsPair_v4 hs ht).symm, ?_⟩
  rw [ownsPair_v4 hs ht, decide_eq_true_eq, compareBytes_address]

/-- Every pair of servers has one controller, all three programs agree on it and none of them takes a
    peer that is no server for one. -/
theorem one_controller :
    (∀ (l : PeerList) (a b : ListedPeer), a ∈ l.peers → b ∈ l.peers → a ≠ b → a.role = .server →
      b.role = .server →
      Xor (b ∈ initiatorServers a l.peers) (a ∈ initiatorServers b l.peers) ∧
      (AgentSelects a b ∨ ClientSelects l.peers a b → b ∈ initiatorServers a l.peers)) ∧
    (∀ (l : PeerList) (a p : ListedPeer), a ∈ l.peers → p ∈ l.peers → a.role = .server →
      p ∈ initiatorServers a l.peers ∨ AgentSelects a p ∨ ClientSelects l.peers a p →
      p.role = .server) ∧
    ∀ (s t : Text) (x y : Fin (2 ^ 32)), ipAddress s = some (.v4 x) → ipAddress t = some (.v4 y) →
      Agent.serverInitiatorOwnsPair (.str s) (.str t) = serverInitiatorOwnsPair s t ∧
      Client.serverInitiatorOwnsPair s t = serverInitiatorOwnsPair s t ∧
      (serverInitiatorOwnsPair s t = true ↔
        Client.compareBytes (toDigitsBE 8 4 x) (toDigitsBE 8 4 y) = .lt) := by
  refine ⟨fun l a b ha hb hab hra hrb => ?_, fun l a p ha hp hra h => ?_, fun s t x y hs ht => ?_⟩
  · obtain ⟨x, hx⟩ := l.ipv4 a ha
    obtain ⟨y, hy⟩ := l.ipv4 b hb
    have hxy : x ≠ y := by
      rintro rfl
      exact hab (l.ip_injective ha hb (hx.trans hy.symm))
    rw [l.mem_initiatorServers ha hb hab ⟨hra, hrb⟩, l.mem_initiatorServers hb ha hab.symm ⟨hrb, hra⟩]
    constructor
    · rw [ownsPair_v4 hx hy, ownsPair_v4 hy hx, decide_eq_true_eq, decide_eq_true_eq]
      rcases lt_or_gt_of_ne hxy with h | h
      · exact .inl ⟨h, h.asymm⟩
      · exact .inr ⟨h, h.asymm⟩
    · rintro (⟨rest, now, h⟩ | h)
      · exact (of_eligible h).2
      · rw [← (ownsPair_coincide hx hy).2.1]
        exact (l.of_clientSelects ha hb h).2 hra
  · rcases h with h | ⟨rest, now, h⟩ | h
    · exact role_of_mem_initiatorServers h
    · exact (of_eligible h).1
    · exact (l.of_clientSelects ha hp h).1
  · exact ownsPair_coincide hs ht

def lowServer : ListedPeer :=
  ⟨⟨"low".toList, "10.0.0.2".toList, "198.51.100.2:51820".toList, []⟩, .server, 1000⟩

def highServer : ListedPeer :=
  ⟨⟨"high".toList, "10.0.0.10".toList, "198.51.100.10:51820".toList, []⟩, .server, 1000⟩

theorem ipAddress_low : ipAddress lowServer.ip = some (.v4 167772162) := by decide +kernel

theorem ipAddress_high : ipAddress highServer.ip = some (.v4 167772170) := by decide +kernel

def twoServers : PeerList where
  peers := [lowServer, highServer]
  key_ne := by simp [lowServer, highServer]
  keys_nodup := by simp [lowServer, highServer]
  ipv4 := by
    intro p hp
    rcases List.mem_pair.mp hp with rfl | rfl
    · exact ⟨_, ipAddress_low⟩
    · exact ⟨_, ipAddress_high⟩
  ips_nodup := by simp [ipAddress_low, ipAddress_high]

/-- The numbers decide, not the texts: 10.0.0.2 initiates with 10.0.0.10. -/
theorem one_controller_pair :
    Xor (highServer ∈ initiatorServers lowServer twoServers.peers)
      (lowServer ∈ initiatorServers highServer twoServers.peers) ∧
    highServer ∈ initiatorServers lowServer twoServers.peers := by
  have hpair := one_controller.1 twoServers lowServer highServer (by simp [twoServers])
    (by simp [twoServers]) (by simp [lowServer, highServer]) rfl rfl
  have hselects : AgentSelects lowServer highServer := ⟨[], 1000, by decide +kernel⟩
  exact ⟨hpair.1, hpair.2 (.inl hselects)⟩

end Coordinator
