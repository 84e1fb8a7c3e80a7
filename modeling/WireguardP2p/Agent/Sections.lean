import WireguardP2p.Agent.Offer

/-! `p2p_agent.py`: the other sections under STATE_LOCK outside the workers, each as it treats one key:
    `handle_remove`, the body of the loop in `monitor_once`, the body of the loop in
    `cleanup_initiator_states`. -/

namespace Agent
open Ipaddress Python Net Candidates

/-! ### `handle_remove` -/

/-- `data["reason"]`. -/
inductive RemoveReason
  | disconnect
  | superseded
  | expired
  deriving DecidableEq

def RemoveReason.name : RemoveReason → String
  | disconnect => "disconnect"
  | superseded => "superseded"
  | expired => "expired"

/-- A removal that passed the checks. -/
structure Removal where
  key : PublicKey
  peerIp : Text
  sessionId : Text
  reason : RemoveReason

/-- The reason of a removal, `disconnect` when missing. -/
def readReason : Option Json → Except Raised RemoveReason
  | none => .ok .disconnect
  | some (.str t) =>
    match [RemoveReason.disconnect, .superseded, .expired].find? fun r => decide (r.name.toList = t) with
    | some r => .ok r
    | none => .error (.valueError "invalid remove reason")
  | some _ => .error (.valueError "invalid remove reason")

/-- `handle_remove` up to STATE_LOCK. -/
def readRemoval (listenAddress : Text) (data : Json) : Except Raised Removal := do
  let key ← validatePublicKey (← data.item "peer_key")
  let peerIp ← validatePeerIp listenAddress (← data.item "peer_ip")
  let sessionId ← validateSessionId (← data.item "session_id")
  let reason ← readReason (← data.get "reason")
  .ok { key, peerIp, sessionId, reason }

structure RemoveCalls where
  query : Option Raised
  remove : Outcome
  save : Bool
  deriving DecidableEq

def RemoveCalls.succeed : RemoveCalls := ⟨none, .done, true⟩

inductive RemoveReply
  | removed
  | controlExpired
  | sessionMismatch
  deriving DecidableEq

/-- The control session ends, the healthy Direct stays. -/
def PeerState.expire (p : Option WgPeer) (s : PeerState) : PeerState :=
  { s with controlExpired := true, leaseExpires := .fin 0, workerRunning := false, mode := .direct,
           endpoint := peerEndpoint p }

/-- `handle_remove` under STATE_LOCK, at the time `now`. -/
def removeSection (r : Removal) (now : Time) (calls : RemoveCalls) : Section RemoveReply := do
  match ← entry with
  | none => return .sessionMismatch
  | some s =>
    if s.sessionId ≠ r.sessionId ∨ s.ip ≠ r.peerIp then return .sessionMismatch
    else
      queryPeers calls.query
      let p ← peer
      if decide (r.reason = .expired) && directPeerHealthy p r.peerIp now then
        update fun s =>
          { s.expire p with selectedType := s.selectedType <|> observedTypeForEndpoint (peerEndpoint p) }
        saveState calls.save
        return .controlExpired
      else
        removeIfPresent calls.remove
        retire
        deleteEntry
        saveState calls.save
        return .removed

/-! ### `monitor_once` -/

/-- What the loop of `monitor_once` does with one key: whether something changed, and the generation to
    launch a probe with. -/
structure MonitorResult where
  changed : Bool
  launch : Option ℕ
  deriving DecidableEq

/-- `not control_expired and lease_expires and now >= lease_expires`. -/
def leaseOver (s : PeerState) (now : Time) : Bool :=
  !s.controlExpired && s.leaseExpires != .fin 0 && s.leaseExpires.le (.fin now)

/-- The last block of the loop body. -/
def monitorLaunch (now : Time) (changed : Bool) : Section MonitorResult := do
  match ← entry with
  | none => return ⟨changed, none⟩
  | some s =>
    if decide (s.retryAfter ≤ now) && !s.workerRunning && !s.candidates.isEmpty then
      return ⟨true, some (← startProbe)⟩
    else return ⟨changed, none⟩

/-- The loop body after the test for a route. -/
def monitorProbe (now : Time) (changed : Bool) : Section MonitorResult := do
  match ← entry with
  | none => return ⟨changed, none⟩
  | some s =>
    if s.mode = .probe then
      if s.workerRunning then return ⟨changed, none⟩
      else
        update fun s => { s with mode := .idle }
        monitorLaunch now true
    else monitorLaunch now changed

/-- The loop body from the test for a running confirmation on. -/
def monitorRoute (now : Time) (remove : Outcome) (changed : Bool) : Section MonitorResult := do
  match ← entry with
  | none => return ⟨changed, none⟩
  | some s =>
    let p ← peer
    if s.mode = .confirm6 ∧ s.workerRunning then return ⟨changed, none⟩
    else if holdsRoute p s.ip then
      if freshHandshake p now then
        update fun s => { s with mode := .direct, endpoint := peerEndpoint p }
        return ⟨changed, none⟩
      else
        wgSet remove .remove
        renew
        if s.controlExpired then
          update fun s => { s with workerRunning := false }
          deleteEntry
          return ⟨true, none⟩
        else
          update fun s => { s with mode := .idle, endpoint := [], selectedType := none,
                                   retryAfter := 0, workerRunning := false }
          monitorProbe now true
    else monitorProbe now changed

/-- The loop body; the peers are read once before the loop, and no iteration touches the peer of
    another key, so the peer of the key is the one that was read. -/
def monitorPeer (now : Time) (remove : Outcome) : Section MonitorResult := do
  match ← entry with
  | none => return ⟨false, none⟩
  | some s =>
    if leaseOver s now then
      let p ← peer
      if directPeerHealthy p s.ip now then
        update (PeerState.expire p)
        monitorRoute now remove true
      else
        removeIfPresent remove
        retire
        deleteEntry
        return ⟨true, none⟩
    else monitorRoute now remove false

/-! ### `cleanup_initiator_states` -/

/-- The loop body: whether something changed. A failing removal is logged. -/
def cleanupPeer (active : Bool) (remove : Outcome) : Section Bool := do
  match ← entry with
  | none => return false
  | some s =>
    if s.controller ≠ .initiator ∨ active then return false
    else
      retire
      Raising.handle (removeIfPresent remove) fun _ => pure ()
      deleteEntry
      return true

end Agent
