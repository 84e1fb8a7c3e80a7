import Mathlib
import WireguardP2p.Lib.Raising
import WireguardP2p.Candidates.Selection
import WireguardP2p.Agent.Validate

/-! `p2p_agent.py`: the record the agent keeps for a peer, the peer as the WireGuard device has it, and
    the calls a section under STATE_LOCK makes. A section works on one key, so it is a program on the
    `Slot` of that key: its STATES entry, its device peer and the generation counter. Any call to
    `wg set`, `wg show` or `save_state` may raise; the outcome of each call is a parameter. -/

namespace Agent
open Ipaddress Python Candidates

/-- `time.time()`. -/
abbrev Time := ℚ≥0

/-- `state["mode"]`. -/
inductive Mode
  | idle
  | probe
  | confirm6
  | direct
  deriving DecidableEq

/-- `state["controller"]`. -/
inductive Controller
  | responder
  | initiator
  deriving DecidableEq

/-- An entry of STATES; the empty text of `endpoint_type` and `selected_type` is `none`. -/
structure PeerState where
  controller : Controller
  sessionId : Text
  sessionStartedNs : ℤ
  peerInstanceId : Text
  ip : Text
  mode : Mode
  endpoint : Text
  endpointType : Option CandidateType
  selectedType : Option CandidateType
  candidates : List Candidate
  candidateSignature : Text
  started : Time
  baselineHandshake : ℕ
  failures : ℕ
  retryAfter : Time
  generation : ℕ
  workerRunning : Bool
  controlExpired : Bool
  leaseExpires : PyFloat
  promoted : Time
  deriving DecidableEq

/-- A peer of the device, as `local_wg_peers` reads it. -/
structure WgPeer where
  endpoint : Text
  allowedIps : List Text
  latestHandshake : ℕ
  keepalive : ℕ
  deriving DecidableEq

/-- The `wg set INTERFACE peer KEY` commands of the agent. -/
inductive Command
  | remove
  | endpoint (endpoint : Text) (keepalive : ℕ)
  | route (allowedIp endpoint : Text) (keepalive : ℕ)
  deriving DecidableEq

/-- A peer the device has just been told of. -/
def WgPeer.fresh : WgPeer := ⟨[], [], 0, 0⟩

/-- What a command makes of the peer it names. -/
def Command.apply : Command → Option WgPeer → Option WgPeer
  | remove, _ => none
  | endpoint e k, p => some { p.getD WgPeer.fresh with endpoint := e, keepalive := k }
  | route ip e k, p =>
    some { p.getD WgPeer.fresh with allowedIps := [ip], endpoint := e, keepalive := k }

/-- The allowed IP a command takes away from every other peer. -/
def Command.taken : Command → List Text
  | route ip _ _ => [ip]
  | _ => []

/-- `peer_ip + "/32"`. -/
def slash32 (ip : Text) : Text := ip ++ "/32".toList

theorem slash32_injective {a b : Text} (h : slash32 a = slash32 b) : a = b :=
  List.append_cancel_right h

/-- How a `wg set` ends: it may raise before or after the device took the command. -/
inductive Outcome
  | done
  | failed
  | failedLate
  deriving DecidableEq

/-- What a section under STATE_LOCK sees of one key. -/
structure Slot where
  entry : Option PeerState
  peer : Option WgPeer
  lastGeneration : ℕ
  /-- The `wg set` commands of the section, latest first. -/
  issued : List Command
  /-- The allowed IPs the section assigned to the key. -/
  taken : List Text
  deriving DecidableEq

/-- A section on one key. -/
abbrev Section (α : Type) := Raising Slot Raised α

namespace Slot

def issue (c : Command) (sl : Slot) : Slot := { sl with issued := c :: sl.issued }

/-- The command is issued and takes effect. -/
def execute (c : Command) (sl : Slot) : Slot :=
  { sl with issued := c :: sl.issued, peer := c.apply sl.peer, taken := c.taken ++ sl.taken }

def update (f : PeerState → PeerState) (sl : Slot) : Slot := { sl with entry := sl.entry.map f }

/-- `LAST_GENERATION = max(LAST_GENERATION, previous) + 1`. -/
def nextGeneration (sl : Slot) (previous : ℕ) : ℕ := max sl.lastGeneration previous + 1

/-- `state["generation"] = next_generation(state["generation"])`. -/
def renew (sl : Slot) : Slot :=
  match sl.entry with
  | none => sl
  | some s =>
    let g := sl.nextGeneration s.generation
    { sl with entry := some { s with generation := g }, lastGeneration := g }

section Fields
variable (sl : Slot) (c : Command) (f : PeerState → PeerState)

@[simp] theorem entry_issue : (sl.issue c).entry = sl.entry := rfl

@[simp] theorem peer_issue : (sl.issue c).peer = sl.peer := rfl

@[simp] theorem lastGeneration_issue : (sl.issue c).lastGeneration = sl.lastGeneration := rfl

@[simp] theorem entry_execute : (sl.execute c).entry = sl.entry := rfl

@[simp] theorem peer_execute : (sl.execute c).peer = c.apply sl.peer := rfl

@[simp] theorem lastGeneration_execute : (sl.execute c).lastGeneration = sl.lastGeneration := rfl

@[simp] theorem entry_update : (sl.update f).entry = sl.entry.map f := rfl

@[simp] theorem peer_update : (sl.update f).peer = sl.peer := rfl

@[simp] theorem lastGeneration_update : (sl.update f).lastGeneration = sl.lastGeneration := rfl

@[simp] theorem peer_renew : sl.renew.peer = sl.peer := by
  unfold renew
  cases sl.entry <;> rfl

@[simp] theorem issued_renew : sl.renew.issued = sl.issued := by
  unfold renew
  cases sl.entry <;> rfl

@[simp] theorem issued_update : (sl.update f).issued = sl.issued := rfl

@[simp] theorem taken_renew : sl.renew.taken = sl.taken := by
  unfold renew
  cases sl.entry <;> rfl

theorem renew_none (h : sl.entry = none) : sl.renew = sl := by simp [renew, h]

theorem entry_renew : sl.renew.entry =
    sl.entry.map fun s => { s with generation := sl.nextGeneration s.generation } := by
  unfold renew
  cases h : sl.entry <;> simp [h]

theorem renew_some {s : PeerState} (h : sl.entry = some s) : sl.renew =
    { sl with entry := some { s with generation := sl.nextGeneration s.generation },
              lastGeneration := sl.nextGeneration s.generation } := by
  simp [renew, h]

theorem lt_nextGeneration (g : ℕ) : sl.lastGeneration < sl.nextGeneration g := by
  unfold nextGeneration
  omega

theorem lastGeneration_le_renew : sl.lastGeneration ≤ sl.renew.lastGeneration := by
  unfold renew
  cases h : sl.entry with
  | none => exact le_rfl
  | some s => exact (sl.lt_nextGeneration s.generation).le

end Fields

end Slot

/-- The error of a command that fails. -/
def wgError : Raised := .runtimeError "command failed: wg"

/-- `wg_set("peer", key, ...)`. -/
def wgSet (o : Outcome) (c : Command) : Section Unit :=
  match o with
  | .done => Raising.modify (Slot.execute c)
  | .failed => do Raising.modify (Slot.issue c); Raising.raise wgError
  | .failedLate => do Raising.modify (Slot.execute c); Raising.raise wgError

/-- `local_wg_peers()`, up to reading the peer of the key. -/
def queryPeers (q : Option Raised) : Section Unit :=
  match q with
  | none => pure ()
  | some e => Raising.raise e

/-- `save_state()`. -/
def saveState (ok : Bool) : Section Unit := if ok then pure () else Raising.raise .osError

/-- `state.update({...})` on the entry in STATES. -/
def update (f : PeerState → PeerState) : Section Unit := Raising.modify (Slot.update f)

/-- A new generation for the entry. -/
def renew : Section Unit := Raising.modify Slot.renew

/-- `STATES[key]`, if there is one. -/
def entry : Section (Option PeerState) := do return (← Raising.get).entry

/-- `local_wg_peers().get(key)`. -/
def peer : Section (Option WgPeer) := do return (← Raising.get).peer

/-- `del STATES[key]`. -/
def deleteEntry : Section Unit := Raising.modify fun sl => { sl with entry := none }

/-- `if local: wg_set("peer", key, "remove")`. -/
def removeIfPresent (o : Outcome) : Section Unit := do
  if (← peer).isSome then wgSet o .remove

/-- `DIRECT_MAX_AGE`. -/
def directMaxAge : ℚ := 180

/-- `peer_ip + "/32" in local["allowed_ips"]`. -/
def holdsRoute (p : Option WgPeer) (ip : Text) : Bool :=
  match p with
  | none => false
  | some p => decide (slash32 ip ∈ p.allowedIps)

theorem holdsRoute_iff {p : Option WgPeer} {ip : Text} :
    holdsRoute p ip = true ↔ ∃ q, p = some q ∧ slash32 ip ∈ q.allowedIps := by
  cases p <;> simp [holdsRoute]

/-- `latest and now - latest <= DIRECT_MAX_AGE`. -/
def freshHandshake (p : Option WgPeer) (now : Time) : Bool :=
  match p with
  | none => false
  | some p => decide (p.latestHandshake ≠ 0 ∧ (now : ℚ) - p.latestHandshake ≤ directMaxAge)

/-- `direct_peer_healthy`; an overlay IP that passed `validate_peer_ip` is not empty. -/
def directPeerHealthy (p : Option WgPeer) (ip : Text) (now : Time) : Bool :=
  decide (ip ≠ []) && holdsRoute p ip && freshHandshake p now

/-- `local.get("endpoint", "")`. -/
def peerEndpoint (p : Option WgPeer) : Text := (p.map WgPeer.endpoint).getD []

/-- `retry_delay`. -/
def retryDelay (failures : ℕ) : ℕ :=
  match failures with
  | 0 => 3
  | 1 => 3
  | 2 => 10
  | 3 => 30
  | 4 => 60
  | _ => 300

/-- What is written when a worker gives up. -/
def PeerState.backOff (now : Time) (s : PeerState) : PeerState :=
  { s with
    mode := .idle, endpoint := [], endpointType := none, selectedType := none,
    failures := s.failures + 1, retryAfter := now + retryDelay (s.failures + 1),
    workerRunning := false, started := 0, baselineHandshake := 0 }

/-! ### Rules for the calls -/

section Rules
variable {Q : Unit → Slot → Prop} {E : Raised → Slot → Prop} {sl : Slot}

@[simp] theorem wp_wgSet (o : Outcome) (c : Command) : (wgSet o c).wp Q E sl =
    ((o = .done → Q () (sl.execute c)) ∧ (o = .failed → E wgError (sl.issue c)) ∧
      (o = .failedLate → E wgError (sl.execute c))) := by
  cases o <;> simp [wgSet]

@[simp] theorem wp_wgSet_done (c : Command) :
    (wgSet .done c).wp Q E sl = Q () (sl.execute c) := rfl

@[simp] theorem wp_queryPeers (q : Option Raised) : (queryPeers q).wp Q E sl =
    ((q = none → Q () sl) ∧ ∀ e, q = some e → E e sl) := by
  cases q <;> simp [queryPeers]

@[simp] theorem wp_queryPeers_none : (queryPeers none).wp Q E sl = Q () sl := rfl

@[simp] theorem wp_saveState (ok : Bool) : (saveState ok).wp Q E sl =
    ((ok = true → Q () sl) ∧ (ok = false → E .osError sl)) := by
  cases ok <;> simp [saveState]

@[simp] theorem wp_saveState_true : (saveState true).wp Q E sl = Q () sl := rfl

@[simp] theorem wp_update (f : PeerState → PeerState) :
    (update f).wp Q E sl = Q () (sl.update f) := rfl

@[simp] theorem wp_renew : renew.wp Q E sl = Q () sl.renew := rfl

@[simp] theorem wp_deleteEntry : deleteEntry.wp Q E sl = Q () { sl with entry := none } := rfl

@[simp] theorem wp_entry {Q : Option PeerState → Slot → Prop} :
    entry.wp Q E sl = Q sl.entry sl := by simp [entry]

@[simp] theorem wp_peer {Q : Option WgPeer → Slot → Prop} : peer.wp Q E sl = Q sl.peer sl := by
  simp [peer]

@[simp] theorem wp_removeIfPresent (o : Outcome) : (removeIfPresent o).wp Q E sl =
    ((sl.peer = none → Q () sl) ∧ (sl.peer.isSome → (wgSet o .remove).wp Q E sl)) := by
  cases h : sl.peer <;> simp [removeIfPresent, h]

end Rules

/-! ### Invariants of sections -/

section Keeps
variable {I : Slot → Prop}

theorem keeps_queryPeers (q : Option Raised) : Raising.Keeps I (queryPeers q) := fun _ h =>
  (wp_queryPeers q).mpr ⟨fun _ => h, fun _ _ => h⟩

theorem keeps_saveState (ok : Bool) : Raising.Keeps I (saveState ok) := fun _ h =>
  (wp_saveState ok).mpr ⟨fun _ => h, fun _ => h⟩

theorem keeps_entry : Raising.Keeps I entry := fun _ h => wp_entry ▸ h

theorem keeps_peer : Raising.Keeps I peer := fun _ h => wp_peer ▸ h

/-- A program that reads the entry first. -/
theorem keeps_match {α : Type} {p : Section α} {q : PeerState → Section α} (hp : Raising.Keeps I p)
    (hq : ∀ s, Raising.Keeps I (q s)) : Raising.Keeps I (do
      match ← entry with
      | none => p
      | some s => q s) :=
  .bind keeps_entry fun e => by
    cases e with
    | none => exact hp
    | some s => exact hq s

end Keeps

end Agent
