import WireguardP2p.Lib.Dict
import WireguardP2p.Client.Selection

/-! `main.go` and `probe.go`: the state the client keeps for each server, the WireGuard device behind it,
    and the commands that change the device. A command that fails leaves the device as it is. -/

namespace Client
open Ipaddress Python Net Candidates

/-- `state.Mode`. -/
inductive Mode
  | idle
  | probe
  | passive6
  | direct
  deriving DecidableEq

/-- A `peerState`; the empty text of `SelectedType` is `none`. -/
structure PeerState where
  mode : Mode
  endpoint : Text
  selectedType : Option CandidateType
  candidates : List Candidate
  candidateSignature : Text
  peerInstanceID : Text
  started : ℕ
  baselineHandshake : ℕ
  failures : ℕ
  retryAfter : ℕ
  generation : ℕ
  workerRunning : Bool
  /-- Which `&peerState{}` this is. -/
  object : ℕ
  deriving DecidableEq

/-- An `apiPeer`. -/
structure ApiPeer where
  key : Text
  ip : Text
  role : Text
  instanceID : Text
  endpoint : Text
  latestHandshake : ℤ
  lanEndpoint : Text
  candidates : List RawCandidate

/-- A `localPeer`: a peer as `wg show dump` prints it. -/
structure LocalPeer where
  endpoint : Text
  allowedIPs : List Text
  latestHandshake : ℕ
  deriving DecidableEq

/-- `localPeer{}`. -/
def LocalPeer.zero : LocalPeer := ⟨[], [], 0⟩

/-- A peer of the device. -/
structure WgPeer where
  endpoint : Text
  allowedIPs : List Text
  latestHandshake : ℕ
  keepalive : ℕ
  /-- The client has configured the peer. -/
  ours : Bool
  /-- The client has set the endpoint, and no handshake has come since. -/
  awaiting : Bool
  deriving DecidableEq

def WgPeer.dump (p : WgPeer) : LocalPeer := ⟨p.endpoint, p.allowedIPs, p.latestHandshake⟩

/-- A handshake is recorded that is later than the last endpoint the client has set. -/
def WgPeer.Proved (p : WgPeer) : Prop := p.latestHandshake ≠ 0 ∧ p.awaiting = false

instance (p : WgPeer) : Decidable p.Proved :=
  inferInstanceAs (Decidable (p.latestHandshake ≠ 0 ∧ p.awaiting = false))

/-- A peer the device has just been told of. -/
def WgPeer.fresh : WgPeer := ⟨[], [], 0, 0, true, false⟩

/-- The `wg set INTERFACE peer KEY` commands of the client. -/
inductive Command
  | remove
  | keepalive (seconds : ℕ)
  | endpoint (endpoint : Text) (keepalive : ℕ)
  | route (allowedIP endpoint : Text) (keepalive : ℕ)
  deriving DecidableEq

/-- What a command makes of the peer it names. -/
def Command.apply : Command → Option WgPeer → Option WgPeer
  | remove, _ => none
  | keepalive n, p => some { p.getD WgPeer.fresh with keepalive := n, ours := true }
  | endpoint e n, p =>
    some { p.getD WgPeer.fresh with endpoint := e, keepalive := n, ours := true, awaiting := true }
  | route ip e n, p => some { p.getD WgPeer.fresh with
      endpoint := e, allowedIPs := [ip], keepalive := n, ours := true, awaiting := true }

/-- The allowed IP a command takes away from every other peer. -/
def Command.taken : Command → List Text
  | route ip _ _ => [ip]
  | _ => []

/-- An allowed IP belongs to one peer: what one peer is given the others lose. -/
def steal (taken : List Text) (p : WgPeer) : WgPeer :=
  { p with allowedIPs := p.allowedIPs.filter fun ip => decide (ip ∉ taken) }

/-- What the goroutines share under `a.mu`, with the device of the interface. -/
structure App where
  interfaceName : Text
  states : Dict Text PeerState
  serverKeys : Dict Text Text
  device : Dict Text WgPeer
  /-- How many `peerState` objects were made. -/
  objects : ℕ

namespace App

/-- `a.wg("set", a.interfaceName, "peer", key, ...)` comes back without an error; without an interface it
    cannot. -/
def accepts (a : App) (ok : Bool) : Bool := ok && decide (a.interfaceName ≠ [])

/-- The command, with its effect if it is accepted. -/
def wgSet (a : App) (ok : Bool) (key : Text) (c : Command) : App :=
  if a.accepts ok then
    { a with device := (a.device.mapVals fun _ => steal c.taken).alter key (c.apply (a.device.get? key)) }
  else a

/-- `a.states[key] = state`. -/
def setState (a : App) (key : Text) (s : PeerState) : App := { a with states := a.states.set key s }

/-- `a.localPeers()`; without an interface there is an error. -/
def localPeers (a : App) (ok : Bool) : Option (Dict Text LocalPeer) :=
  if a.accepts ok then some ⟨a.device.entries.map fun e => (e.1, e.2.dump), by
    rw [List.map_map]
    exact a.device.nodup⟩
  else none

/-- `a.localPeer(key)`. -/
def localPeer (a : App) (ok : Bool) (key : Text) : Option LocalPeer :=
  (a.localPeers ok).bind fun locals => locals.get? key

section Fields
variable (a : App) (ok : Bool) (key : Text) (c : Command) (s : PeerState)

@[simp] theorem states_wgSet : (a.wgSet ok key c).states = a.states := by
  unfold wgSet
  split <;> rfl

@[simp] theorem serverKeys_wgSet : (a.wgSet ok key c).serverKeys = a.serverKeys := by
  unfold wgSet
  split <;> rfl

@[simp] theorem interfaceName_wgSet : (a.wgSet ok key c).interfaceName = a.interfaceName := by
  unfold wgSet
  split <;> rfl

@[simp] theorem objects_wgSet : (a.wgSet ok key c).objects = a.objects := by
  unfold wgSet
  split <;> rfl

@[simp] theorem accepts_wgSet (ok' : Bool) : (a.wgSet ok key c).accepts ok' = a.accepts ok' := by
  rw [accepts, interfaceName_wgSet, accepts]

@[simp] theorem states_setState : (a.setState key s).states = a.states.set key s := rfl

@[simp] theorem serverKeys_setState : (a.setState key s).serverKeys = a.serverKeys := rfl

@[simp] theorem interfaceName_setState : (a.setState key s).interfaceName = a.interfaceName := rfl

@[simp] theorem device_setState : (a.setState key s).device = a.device := rfl

@[simp] theorem objects_setState : (a.setState key s).objects = a.objects := rfl

@[simp] theorem accepts_setState : (a.setState key s).accepts ok = a.accepts ok := rfl

/-- The device after a command. -/
theorem get?_wgSet (j : Text) : (a.wgSet ok key c).device.get? j =
    if a.accepts ok then
      if j = key then c.apply (a.device.get? key) else (a.device.get? j).map (steal c.taken)
    else a.device.get? j := by
  unfold wgSet
  split
  · rw [Dict.get?_alter, Dict.get?_mapVals]
  · rfl

theorem wgSet_failed (h : a.accepts ok = false) : a.wgSet ok key c = a := by simp [wgSet, h]

end Fields

theorem find_dump (key : Text) : ∀ l : List (Text × WgPeer),
    Dict.find key (l.map fun e => (e.1, e.2.dump)) = (Dict.find key l).map WgPeer.dump
  | [] => rfl
  | e :: es => by
      rw [List.map_cons, Dict.find, Dict.find, find_dump key es]
      split <;> rfl

/-- A dump shows every peer of the device. -/
theorem localPeers_get? {a : App} {ok : Bool} {locals : Dict Text LocalPeer}
    (h : a.localPeers ok = some locals) (key : Text) :
    locals.get? key = (a.device.get? key).map WgPeer.dump := by
  unfold localPeers at h
  split at h
  · obtain rfl := Option.some.inj h
    exact find_dump key a.device.entries
  · cases h

theorem localPeer_some {a : App} {ok : Bool} {key : Text} {l : LocalPeer}
    (h : a.localPeer ok key = some l) : ∃ p, a.device.get? key = some p ∧ l = p.dump := by
  obtain ⟨locals, hl, hk⟩ := Option.bind_eq_some_iff.mp h
  rw [localPeers_get? hl] at hk
  obtain ⟨p, hp, rfl⟩ := Option.map_eq_some_iff.mp hk
  exact ⟨p, hp, rfl⟩

end App

/-- `keepalive`, `probeKeepalive`. -/
def keepalive : ℕ := 25

def probeKeepalive : ℕ := 1

/-- `directMaxAge` and `onlineMaxAge` in seconds. -/
def directMaxAge : ℕ := 180

def onlineMaxAge : ℕ := 180

/-- Nanoseconds. -/
def second : ℕ := 10 ^ 9

/-- `time.Now().Unix()`. -/
def unix (clock : ℕ) : ℕ := clock / second

/-- `serverIP + "/32"`. -/
def slash32 (ip : Text) : Text := ip ++ "/32".toList

/-- `LatestHandshake > 0 && now-LatestHandshake <= maxAge`. -/
def handshakeWithin (maxAge now latestHandshake : ℕ) : Bool :=
  decide (0 < latestHandshake ∧ now ≤ latestHandshake + maxAge)

/-- `retryDelay` in seconds. -/
def retryDelay : ℕ → ℕ
  | 1 => 15
  | 2 => 30
  | 3 => 60
  | _ => 300

/-- `recordProbeFailure`. -/
def PeerState.recordProbeFailure (s : PeerState) (now : ℕ) : PeerState :=
  { s with
    failures := s.failures + 1, mode := .idle, started := 0, baselineHandshake := 0,
    retryAfter := now + retryDelay (s.failures + 1) }

/-- What every promotion writes. -/
def PeerState.promote (s : PeerState) (endpoint : Text) (type : Option CandidateType) : PeerState :=
  { s with mode := .direct, endpoint, selectedType := type, failures := 0, retryAfter := 0,
           workerRunning := false }

/-- `a.states[key]` has this generation and a worker. -/
def App.current (a : App) (key : Text) (generation : ℕ) : Bool :=
  (a.states.get? key).any fun s => decide (s.generation = generation) && s.workerRunning

/-- `a.states[key]` has this generation, listens passively and has no worker. -/
def App.armed (a : App) (key : Text) (generation : ℕ) : Bool :=
  (a.states.get? key).any fun s =>
    decide (s.generation = generation) && decide (s.mode = .passive6) && !s.workerRunning

theorem App.current_iff {a : App} {key : Text} {g : ℕ} : a.current key g = true ↔
    ∃ s, a.states.get? key = some s ∧ s.generation = g ∧ s.workerRunning = true := by
  simp [App.current, Option.any_eq_true]

theorem App.armed_iff {a : App} {key : Text} {g : ℕ} : a.armed key g = true ↔
    ∃ s, a.states.get? key = some s ∧ s.generation = g ∧ s.mode = .passive6 ∧
      s.workerRunning = false := by
  simp [App.armed, Option.any_eq_true, and_assoc]

end Client
