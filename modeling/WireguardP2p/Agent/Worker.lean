import WireguardP2p.Agent.Sections

/-! `p2p_agent.py`: the worker threads. `_probe_worker` and `_confirmation_rekey_worker` are cut where
    the source takes or releases STATE_LOCK or reads the device without it; a step of a worker is one
    such piece. A worker that returns or raises goes on to the cleanup of `run_peer_worker`. -/

namespace Agent
open Ipaddress Python Net Candidates

/-- The `mode` argument of `run_peer_worker`. -/
inductive WorkerMode
  | probe
  | confirm6
  deriving DecidableEq

def WorkerMode.toMode : WorkerMode → Mode
  | probe => .probe
  | confirm6 => .confirm6

/-- Where `_probe_worker` stands, with the local variables it still needs. -/
inductive ProbePc
  | start
  /-- No candidates or no overlay IP. -/
  | cancel
  /-- The head of the loop over the candidates. -/
  | check (peerIp : Text) (candidates : List Candidate)
  | baseline (peerIp : Text) (candidate : Candidate) (rest : List Candidate)
  | configure (peerIp : Text) (candidate : Candidate) (rest : List Candidate) (baseline : ℕ)
  /-- The head of the polling loop. -/
  | wait (peerIp : Text) (candidate : Candidate) (rest : List Candidate) (baseline : ℕ)
  | poll (peerIp : Text) (candidate : Candidate) (rest : List Candidate) (baseline : ℕ)
  | promote (peerIp : Text) (candidate : Candidate) (actualEndpoint : Text)
  | rekey (peerIp : Text) (candidate : Candidate) (actualEndpoint : Text)
  | fail
  deriving DecidableEq

/-- Where `_confirmation_rekey_worker` stands. -/
inductive ConfirmPc
  | setup (peerIp endpoint : Text)
  | poll (peerIp endpoint : Text)
  | finalize (peerIp actualEndpoint : Text)
  | fail
  deriving DecidableEq

inductive Pc
  | probe (pc : ProbePc)
  | confirm (pc : ConfirmPc)
  /-- The `finally` of `run_peer_worker`. -/
  | cleanup
  | finished
  deriving DecidableEq

/-- A worker thread that was started. -/
structure Thread where
  key : PublicKey
  generation : ℕ
  mode : WorkerMode
  pc : Pc
  deriving DecidableEq

/-- What a step of a worker meets: the clock, STOP, the end of a window, the outcome of each call. -/
structure WorkerCalls where
  now : Time
  stop : Bool
  deadline : Bool
  /-- `global_ipv6_addresses()` is not empty. -/
  hasGlobalIpv6 : Bool
  query : Option Raised
  set : Outcome
  remove : Outcome
  undo : Outcome
  save : Bool
  deriving DecidableEq

/-- Every call to WireGuard succeeds. -/
structure WorkerCalls.WgSucceed (c : WorkerCalls) : Prop where
  query : c.query = none
  set : c.set = .done
  remove : c.remove = .done
  undo : c.undo = .done

/-- Every call succeeds. -/
structure WorkerCalls.Succeed (c : WorkerCalls) : Prop extends c.WgSucceed where
  save : c.save = true

/-- Where a worker goes, and the confirmation it launches: overlay IP and endpoint. -/
structure Next where
  pc : Pc
  confirm : Option (Text × Text)
  deriving DecidableEq

/-- `return`. -/
def Next.return : Next := ⟨.cleanup, none⟩

def Next.probe (pc : ProbePc) : Next := ⟨.probe pc, none⟩

def Next.confirm6 (pc : ConfirmPc) : Next := ⟨.confirm pc, none⟩

/-- `KEEPALIVE`. -/
def keepalive : ℕ := 25

/-- `PROBE_KEEPALIVE`. -/
def probeKeepalive : ℕ := 1

/-- `state and state["generation"] == generation and state["worker_running"]`. -/
def owns (generation : ℕ) (e : Option PeerState) : Bool :=
  match e with
  | none => false
  | some s => s.generation == generation && s.workerRunning

/-- The ownership test of a running confirmation. -/
def ownsConfirm (generation : ℕ) (e : Option PeerState) : Bool :=
  match e with
  | none => false
  | some s => s.generation == generation && s.mode == .confirm6 && s.workerRunning

/-- The ownership test before a confirmation is set up. -/
def ownsDirect (generation : ℕ) (endpoint : Text) (e : Option PeerState) : Bool :=
  match e with
  | none => false
  | some s => s.generation == generation && s.mode == .direct && s.endpoint == endpoint

/-- A text, or another if it is empty. -/
def orElse (t u : Text) : Text := if t = [] then u else t

/-- `should_confirmation_rekey`. -/
def shouldConfirmationRekey (candidate : Candidate) (hasGlobalIpv6 : Bool) : Bool :=
  candidate.type == .host6 && !hasGlobalIpv6

/-- A failing `wg set` whose error is swallowed. -/
def tryWgSet (o : Outcome) (c : Command) : Section Unit :=
  Raising.handle (wgSet o c) fun _ => pure ()

/-- The state of a candidate under probe. -/
def PeerState.configure (c : Candidate) (baseline : ℕ) (now : Time) (s : PeerState) : PeerState :=
  { s with mode := .probe, endpoint := c.endpoint, endpointType := some c.type,
           selectedType := some c.type, started := now, baselineHandshake := baseline }

/-- The type of the path a probe found. -/
def promotedType (candidates : List Candidate) (c : Candidate) (actualEndpoint : Text) : CandidateType :=
  (candidateTypeForEndpoint candidates actualEndpoint <|> observedTypeForEndpoint actualEndpoint).getD
    c.type

/-- The state of a promoted path. -/
def PeerState.promote (type : CandidateType) (actualEndpoint : Text) (s : PeerState) : PeerState :=
  { s with mode := .direct, endpoint := actualEndpoint, endpointType := some type,
           selectedType := some type, failures := 0, retryAfter := 0, workerRunning := false,
           started := 0, baselineHandshake := 0 }

/-- The last section of `_probe_worker` and of `_confirmation_rekey_worker`. -/
def giveUp (calls : WorkerCalls) : Section Next := do
  tryWgSet calls.remove .remove
  update (PeerState.backOff calls.now)
  saveState calls.save
  return .return

/-- A step of `_probe_worker`. -/
def probeStep (generation : ℕ) (calls : WorkerCalls) : ProbePc → Section Next
  | .start => do
    match ← entry with
    | none => return .return
    | some s =>
      if !owns generation (some s) then return .return
      else if s.candidates = [] ∨ s.ip = [] then return .probe .cancel
      else return .probe (.check s.ip s.candidates)
  | .cancel => do
    match ← entry with
    | none => return .return
    | some s =>
      if s.generation = generation then
        update fun s => { s with workerRunning := false, mode := .idle }
        saveState calls.save
      return .return
  | .check _ [] => return .probe .fail
  | .check peerIp (c :: rest) => do
    if owns generation (← entry) then return .probe (.baseline peerIp c rest) else return .return
  | .baseline peerIp c rest => do
    queryPeers calls.query
    return .probe (.configure peerIp c rest (((← peer).map WgPeer.latestHandshake).getD 0))
  | .configure peerIp c rest baseline => do
    if !owns generation (← entry) then return .return
    else if calls.set = .done then
      wgSet .done (.endpoint c.endpoint probeKeepalive)
      update (PeerState.configure c baseline calls.now)
      saveState calls.save
      return .probe (.wait peerIp c rest baseline)
    else
      -- the error is logged and the next candidate tried
      tryWgSet calls.set (.endpoint c.endpoint probeKeepalive)
      return .probe (.check peerIp rest)
  | .wait peerIp c rest baseline => do
    if calls.deadline then return .probe (.check peerIp rest)
    else if calls.stop then return .return
    else if owns generation (← entry) then return .probe (.poll peerIp c rest baseline)
    else return .return
  | .poll peerIp c rest baseline => do
    queryPeers calls.query
    match ← peer with
    | none => return .probe (.wait peerIp c rest baseline)
    | some p =>
      if p.latestHandshake ≤ baseline then return .probe (.wait peerIp c rest baseline)
      else return .probe (.promote peerIp c (orElse p.endpoint c.endpoint))
  | .promote peerIp c actualEndpoint => do
    match ← entry with
    | none => return .return
    | some s =>
      if !owns generation (some s) then return .return
      else
        let type := promotedType s.candidates c actualEndpoint
        wgSet calls.set (.route (slash32 peerIp) actualEndpoint keepalive)
        update fun s => { s.promote type actualEndpoint with promoted := calls.now }
        saveState calls.save
        return .probe (.rekey peerIp c actualEndpoint)
  | .rekey peerIp c actualEndpoint =>
    if shouldConfirmationRekey c calls.hasGlobalIpv6 then
      return ⟨.cleanup, some (peerIp, actualEndpoint)⟩
    else return .return
  | .fail => do
    if !owns generation (← entry) then return .return else giveUp calls

/-- A step of `_confirmation_rekey_worker`. -/
def confirmStep (generation : ℕ) (calls : WorkerCalls) : ConfirmPc → Section Next
  | .setup peerIp endpoint => do
    if calls.stop then return .return
    else if !ownsDirect generation endpoint (← entry) then return .return
    else
      update fun s => { s with mode := .confirm6, workerRunning := true, started := calls.now,
                               baselineHandshake := 0 }
      if calls.remove = .done ∧ calls.set = .done then
        wgSet .done .remove
        wgSet .done (.route (slash32 peerIp) endpoint probeKeepalive)
        saveState calls.save
        return .confirm6 (.poll peerIp endpoint)
      else
        Raising.handle
          (do wgSet calls.remove .remove
              wgSet calls.set (.route (slash32 peerIp) endpoint probeKeepalive))
          fun _ => pure ()
        tryWgSet calls.undo .remove
        update (PeerState.backOff calls.now)
        saveState calls.save
        return .return
  | .poll peerIp endpoint => do
    if calls.deadline then return .confirm6 .fail
    else if calls.stop then return .return
    else
      queryPeers calls.query
      match ← peer with
      | none => return .confirm6 (.poll peerIp endpoint)
      | some p =>
        if p.latestHandshake = 0 ∨ 5 < (calls.now : ℚ) - p.latestHandshake then
          return .confirm6 (.poll peerIp endpoint)
        else return .confirm6 (.finalize peerIp (orElse p.endpoint endpoint))
  | .finalize peerIp actualEndpoint => do
    if !ownsConfirm generation (← entry) then return .return
    else if calls.set = .done then
      wgSet .done (.route (slash32 peerIp) actualEndpoint keepalive)
      update (PeerState.promote .host6 actualEndpoint)
      saveState calls.save
      return .return
    else
      -- the error is logged
      tryWgSet calls.set (.route (slash32 peerIp) actualEndpoint keepalive)
      return .return
  | .fail => do
    if !ownsConfirm generation (← entry) then return .return else giveUp calls

/-- The `finally` of `run_peer_worker`; errors of its calls are logged. -/
def cleanupWorker (generation : ℕ) (mode : WorkerMode) (calls : WorkerCalls) : Section Next := do
  match ← entry with
  | none => return ⟨.finished, none⟩
  | some s =>
    if s.generation = generation ∧ s.mode = mode.toMode ∧ s.workerRunning then
      tryWgSet calls.remove .remove
      renew
      update (PeerState.backOff calls.now)
      Raising.handle (saveState calls.save) fun _ => pure ()
    return ⟨.finished, none⟩

/-- A step of a worker. -/
def Thread.step (t : Thread) (calls : WorkerCalls) : Section Next :=
  match t.pc with
  | .probe pc => Raising.handle (probeStep t.generation calls pc) fun _ => pure .return
  | .confirm pc => Raising.handle (confirmStep t.generation calls pc) fun _ => pure .return
  | .cleanup => cleanupWorker t.generation t.mode calls
  | .finished => return ⟨.finished, none⟩

section Rules
variable {E : Raised → Slot → Prop} {sl : Slot}

@[simp] theorem wp_tryWgSet (o : Outcome) (c : Command) {Q : Unit → Slot → Prop} :
    (tryWgSet o c).wp Q E sl =
      ((o = .failed → Q () (sl.issue c)) ∧ (o ≠ .failed → Q () (sl.execute c))) := by
  cases o <;> simp [tryWgSet]

@[simp] theorem wp_tryWgSet_done (c : Command) {Q : Unit → Slot → Prop} :
    (tryWgSet .done c).wp Q E sl = Q () (sl.execute c) := by simp

@[simp] theorem wp_giveUp (calls : WorkerCalls) {Q : Next → Slot → Prop} :
    (giveUp calls).wp Q E sl =
      (tryWgSet calls.remove .remove).wp (fun _ t =>
        (calls.save = true → Q .return (t.update (PeerState.backOff calls.now))) ∧
          (calls.save = false → E .osError (t.update (PeerState.backOff calls.now)))) E sl := by
  simp [giveUp]

end Rules

end Agent
