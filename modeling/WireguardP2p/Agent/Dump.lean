import WireguardP2p.Net.Dump
import WireguardP2p.Agent.State
import WireguardP2p.Client.State

/-! `local_wg_peers` of the agent and `localPeers` of the Go client, the two readers of the dump. Both
    read every field they keep back as the device has it, but for the word `off` of the keepalive: the
    agent hands it to `int`, which raises. -/

namespace Agent
open Ipaddress Python Numeral Wg

/-- A peer as `local_wg_peers` returns it. -/
structure DumpedPeer where
  endpoint : Text
  allowedIps : List Text
  latestHandshake : ℤ
  keepalive : ℤ
  deriving DecidableEq

/-- `int(text or 0)`. -/
def intOrZero (t : Text) : Except Raised ℤ := if t = [] then .ok 0 else toInt (.str t)

/-- A line of the dump; lines of less than eight fields are passed over. -/
def readPeer : List Text → Except Raised (Option (Text × DumpedPeer))
  | key :: _psk :: endpoint :: allowedIps :: handshake :: _rx :: _tx :: keepalive :: _ => do
    let latestHandshake ← intOrZero handshake
    let keepalive ← intOrZero keepalive
    return some (key, {
      endpoint := if endpoint = "(none)".toList then [] else endpoint
      allowedIps := if allowedIps = "(none)".toList then [] else allowedIps.splitOn ','
      latestHandshake, keepalive })
  | _ => return none

/-- `peers[key] = …` for a line. -/
def addPeer (peers : Dict Text DumpedPeer) (line : Text) : Except Raised (Dict Text DumpedPeer) := do
  match ← readPeer (line.splitOn '\t') with
  | some (key, peer) => return peers.set key peer
  | none => return peers

/-- `local_wg_peers`, from what `wg` prints. -/
def localWgPeers (stdout : Text) : Except Raised (Dict Text DumpedPeer) :=
  (splitLines (trim Candidates.isStrSpace stdout)).tail.foldlM addPeer .empty

end Agent

namespace Client
open Ipaddress Python Numeral Wg

/-- A `localPeer` with the `int64` of its handshake. -/
structure DumpedPeer where
  endpoint : Text
  allowedIPs : List Text
  latestHandshake : ℤ
  deriving DecidableEq

/-- The value of `strconv.ParseInt(text, 10, 64)`, also where it reports an error. -/
def parseInt64 (t : Text) : ℤ :=
  match splitSign t with
  | (neg, digits) => match read 10 digits with
    | none => 0
    | some n => if neg then max (-2 ^ 63) (-n) else min (2 ^ 63 - 1) n

/-- A line of the dump. -/
def addPeer (result : Dict Text DumpedPeer) (line : Text) : Dict Text DumpedPeer :=
  match line.splitOn '\t' with
  | key :: _psk :: endpoint :: allowedIPs :: handshake :: _rx :: _tx :: _keepalive :: _ =>
    result.set key {
      endpoint := if endpoint = "(none)".toList then [] else endpoint
      allowedIPs := if allowedIPs ≠ "(none)".toList ∧ allowedIPs ≠ [] then allowedIPs.splitOn ',' else []
      latestHandshake := parseInt64 handshake }
  | _ => result

/-- `localPeers`, from what `wg` prints. -/
def localPeers (stdout : Text) : Dict Text DumpedPeer :=
  ((replaceCrlf (trim isGoSpace stdout)).splitOn '\n').tail.foldl addPeer .empty

end Client

namespace Agent
open Ipaddress Python Numeral Wg

/-! ### The fields read back -/

theorem splitOn_allowedText {as : List Field} (h : ∀ a ∈ as, ',' ∉ a.1) (hne : as ≠ []) :
    (allowedText as).splitOn ',' = as.map Subtype.val := by
  cases as with
  | nil => exact absurd rfl hne
  | cons a as =>
    refine List.splitOn_intercalate ',' (fun t ht => ?_) (by simp)
    obtain ⟨f, hf, rfl⟩ := List.mem_map.mp ht
    exact h f hf

theorem allowedText_eq_none {as : List Field} (h : ∀ a ∈ as, ',' ∉ a.1 ∧ a.1 ≠ "(none)".toList) :
    allowedText as = "(none)".toList ↔ as = [] := by
  refine ⟨fun he => ?_, fun he => he ▸ rfl⟩
  by_contra hne
  have hsplit := splitOn_allowedText (fun a ha => (h a ha).1) hne
  rw [he, splitOn_of_notMem (by decide)] at hsplit
  obtain ⟨a, ha, he⟩ := List.mem_map.mp (hsplit ▸ List.mem_singleton_self "(none)".toList)
  exact (h a ha).2 he

theorem orNone_eq_none {f : Option Field} (h : ∀ e ∈ f, e.1 ≠ "(none)".toList) :
    (if orNone f = "(none)".toList then [] else orNone f) = (f.map Subtype.val).getD [] := by
  cases f with
  | none => rfl
  | some e => exact if_neg (h e rfl)

theorem intOrZero_text {n : ℕ} (hn : n < 2 ^ 63) : intOrZero (text 10 n) = .ok n := by
  have hlen : (text 10 n).length ≤ 19 :=
    (length_text_le (by norm_num) (by norm_num)).mpr (lt_of_lt_of_le hn (by norm_num))
  rw [intOrZero, if_neg (text_ne_nil 10 n), toInt_text (hlen.trans (by norm_num))]

theorem parseInt64_text {n : ℕ} (hn : n < 2 ^ 63) : Client.parseInt64 (text 10 n) = n := by
  have hread : Numeral.read 10 (text 10 n) = some n := read_text (by norm_num) (by norm_num) n
  simp only [Client.parseInt64, splitSign_text, hread, Bool.false_eq_true, if_false]
  omega

/-! ### A peer read back -/

/-- A peer of the device as the agent's sections work with it. -/
def devicePeer (p : Wg.Peer) : WgPeer where
  endpoint := (p.endpoint.map Subtype.val).getD []
  allowedIps := p.allowedIps.map Subtype.val
  latestHandshake := p.latestHandshake
  keepalive := p.keepalive.getD 0

/-- The record of a peer. -/
def record (p : Wg.Peer) : DumpedPeer where
  endpoint := (devicePeer p).endpoint
  allowedIps := (devicePeer p).allowedIps
  latestHandshake := (devicePeer p).latestHandshake
  keepalive := (devicePeer p).keepalive

/-- What both readers keep of a peer. -/
def DumpedPeer.shared (p : DumpedPeer) : Client.DumpedPeer := ⟨p.endpoint, p.allowedIps, p.latestHandshake⟩

theorem intOrZero_off : intOrZero "off".toList = .error .builtinValueError := by decide

theorem allowedIps_read (p : Wg.Peer) :
    (if allowedText p.allowedIps = "(none)".toList then [] else (allowedText p.allowedIps).splitOn ',') =
      p.allowedIps.map Subtype.val := by
  by_cases h : p.allowedIps = []
  · rw [if_pos ((allowedText_eq_none p.allowedIps_ne).mpr h), h, List.map_nil]
  · rw [if_neg fun he => h ((allowedText_eq_none p.allowedIps_ne).mp he)]
    exact splitOn_allowedText (fun a ha => (p.allowedIps_ne a ha).1) h

/-- A keepalive that is a number is read back. -/
theorem readPeer_on {p : Wg.Peer} (h : p.keepalive ≠ none) :
    readPeer p.fields = .ok (some (p.key.1, record p)) := by
  obtain ⟨n, hn⟩ := Option.ne_none_iff_exists'.mp h
  have hlt : n < 2 ^ 63 := lt_trans (p.keepalive_lt n hn) (by norm_num)
  rw [Wg.Peer.fields, readPeer, hn, keepaliveText, intOrZero_text p.latestHandshake_lt, intOrZero_text hlt,
    orNone_eq_none p.endpoint_ne, allowedIps_read, record, devicePeer, hn]
  rfl

/-- One that is off is not. -/
theorem readPeer_off {p : Wg.Peer} (h : p.keepalive = none) :
    readPeer p.fields = .error .builtinValueError := by
  rw [Wg.Peer.fields, readPeer, h, keepaliveText, intOrZero_text p.latestHandshake_lt, intOrZero_off]
  rfl

theorem addPeer_on {p : Wg.Peer} (peers : Dict Text DumpedPeer) (h : p.keepalive ≠ none) :
    addPeer peers (line p.fields) = .ok (peers.set p.key.1 (record p)) := by
  rw [addPeer, p.splitOn_line, readPeer_on h]
  rfl

theorem addPeer_off {p : Wg.Peer} (peers : Dict Text DumpedPeer) (h : p.keepalive = none) :
    addPeer peers (line p.fields) = .error .builtinValueError := by
  rw [addPeer, p.splitOn_line, readPeer_off h]
  rfl

theorem addPeer_client (p : Wg.Peer) (result : Dict Text Client.DumpedPeer) :
    Client.addPeer result (line p.fields) = result.set p.key.1 (record p).shared := by
  have hne : allowedText p.allowedIps ≠ [] := (solid_allowedText p.allowedIps).1
  have hips : (if allowedText p.allowedIps ≠ "(none)".toList ∧ allowedText p.allowedIps ≠ [] then
      (allowedText p.allowedIps).splitOn ',' else []) = p.allowedIps.map Subtype.val := by
    rw [← allowedIps_read p]
    by_cases h : allowedText p.allowedIps = "(none)".toList
    · rw [if_pos h, if_neg fun hn => hn.1 h]
    · rw [if_neg h, if_pos ⟨h, hne⟩]
  rw [Client.addPeer, p.splitOn_line, Wg.Peer.fields]
  simp only [hips, orNone_eq_none p.endpoint_ne, parseInt64_text p.latestHandshake_lt]
  rfl

/-! ### The whole dump -/

/-- Every peer is added at the end as long as the keepalives are numbers. -/
theorem foldlM_addPeer : ∀ (ps : List Wg.Peer) (d : Dict Text DumpedPeer),
    (∀ p ∈ ps, p.keepalive ≠ none) → (d.keys ++ ps.map fun p => p.key.1).Nodup →
    ∃ d', (ps.map fun p => line p.fields).foldlM addPeer d = .ok d' ∧
      d'.entries = d.entries ++ ps.map fun p => (p.key.1, record p)
  | [], d, _, _ => ⟨d, rfl, by simp⟩
  | p :: ps, d, hon, hnodup => by
    have hnew : p.key.1 ∉ d.keys := fun hk =>
      List.disjoint_of_nodup_append hnodup hk (by simp)
    have hkeys : (d.set p.key.1 (record p)).keys = d.keys ++ [p.key.1] := by
      rw [Dict.keys, Dict.entries_set _ hnew, List.map_append]
      rfl
    obtain ⟨d', hd', he⟩ := foldlM_addPeer ps (d.set p.key.1 (record p))
      (fun q hq => hon q (List.mem_cons_of_mem p hq)) (by rw [hkeys]; simpa using hnodup)
    refine ⟨d', ?_, ?_⟩
    · rw [List.map_cons, List.foldlM_cons, addPeer_on d (hon p List.mem_cons_self)]
      exact hd'
    · rw [he, Dict.entries_set _ hnew, List.map_cons, List.append_assoc, List.singleton_append]

theorem foldlM_addPeer_off : ∀ (ps : List Wg.Peer) (d : Dict Text DumpedPeer),
    (∃ p ∈ ps, p.keepalive = none) → ∃ e, (ps.map fun p => line p.fields).foldlM addPeer d = .error e
  | [], _, h => by
    obtain ⟨p, hp, -⟩ := h
    cases hp
  | p :: ps, d, h => by
    rw [List.map_cons, List.foldlM_cons]
    by_cases hoff : p.keepalive = none
    · exact ⟨_, by rw [addPeer_off d hoff]; rfl⟩
    · rw [addPeer_on d hoff]
      obtain ⟨q, hq, hqoff⟩ := h
      rcases List.mem_cons.mp hq with rfl | hq
      · exact absurd hqoff hoff
      · exact foldlM_addPeer_off ps _ ⟨q, hq, hqoff⟩

theorem foldl_addPeer : ∀ (ps : List Wg.Peer) (d : Dict Text Client.DumpedPeer),
    (d.keys ++ ps.map fun p => p.key.1).Nodup →
    ((ps.map fun p => line p.fields).foldl Client.addPeer d).entries =
      d.entries ++ ps.map fun p => (p.key.1, (record p).shared)
  | [], d, _ => by simp
  | p :: ps, d, hnodup => by
    have hnew : p.key.1 ∉ d.keys := fun hk =>
      List.disjoint_of_nodup_append hnodup hk (by simp)
    have hkeys : (d.set p.key.1 (record p).shared).keys = d.keys ++ [p.key.1] := by
      rw [Dict.keys, Dict.entries_set _ hnew, List.map_append]
      rfl
    rw [List.map_cons, List.foldl_cons, addPeer_client, foldl_addPeer ps _ (by rw [hkeys]; simpa using hnodup),
      Dict.entries_set _ hnew, List.map_cons, List.append_assoc, List.singleton_append]

/-- The Go client reads every device. -/
theorem localPeers_dump (i : Interface) :
    (Client.localPeers i.dump).entries = i.peers.map fun p => (p.key.1, (record p).shared) := by
  rw [Client.localPeers, i.splitOn_dump, List.tail_cons, foldl_addPeer i.peers .empty (by simpa [Dict.keys, Dict.empty] using i.nodup)]
  rfl

/-- The agent reads the device exactly, and the client the same as far as it keeps it. -/
def ReadExactly (i : Interface) : Prop := ∃ peers, localWgPeers i.dump = .ok peers ∧
  peers.entries = (i.peers.map fun p => (p.key.1, record p)) ∧
  (Client.localPeers i.dump).entries = peers.entries.map fun e => (e.1, e.2.shared)

theorem localWgPeers_dump (i : Interface) :
    localWgPeers i.dump = (i.peers.map fun p => line p.fields).foldlM addPeer .empty := by
  rw [localWgPeers, i.splitLines_dump, List.tail_cons]

theorem not_readExactly {i : Interface} (h : ∃ p ∈ i.peers, p.keepalive = none) : ¬ ReadExactly i := by
  rintro ⟨peers, hok, -⟩
  obtain ⟨e, he⟩ := foldlM_addPeer_off i.peers .empty h
  rw [localWgPeers_dump, he] at hok
  cases hok

/-- `local_wg_peers` is exact on the devices on which every keepalive is a number. -/
theorem local_wg_peers_exact_iff (i : Interface) :
    ReadExactly i ↔ ∀ p ∈ i.peers, p.keepalive ≠ none := by
  constructor
  · intro h p hp hoff
    exact not_readExactly ⟨p, hp, hoff⟩ h
  · intro hon
    obtain ⟨peers, hok, he⟩ := foldlM_addPeer i.peers .empty hon (by simpa [Dict.keys, Dict.empty] using i.nodup)
    have hentries : peers.entries = i.peers.map fun p => (p.key.1, record p) := he
    refine ⟨peers, (localWgPeers_dump i).trans hok, hentries, ?_⟩
    rw [localPeers_dump, hentries, List.map_map]
    rfl

/-- A peer that `wg set` has just added: no endpoint, no handshake and no keepalive. -/
def addedPeer : Wg.Peer where
  key := ⟨"key".toList, by decide, no_space_of_all (by decide)⟩
  presharedKey := none
  endpoint := none
  allowedIps := []
  latestHandshake := 0
  rx := 0
  tx := 0
  keepalive := none
  endpoint_ne := by simp
  allowedIps_ne := by simp
  latestHandshake_lt := by norm_num
  keepalive_lt := by simp

def addedInterface : Interface := ⟨none, none, 51820, none, [addedPeer], by simp⟩

/-- One peer without a keepalive makes `local_wg_peers` raise for all of them. -/
theorem off_not_read : ¬ ReadExactly addedInterface :=
  not_readExactly ⟨addedPeer, List.mem_singleton_self _, rfl⟩

end Agent
