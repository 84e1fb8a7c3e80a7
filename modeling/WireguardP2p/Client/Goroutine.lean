import WireguardP2p.Client.Reconcile

/-! `runProbeWorker` and `watchPassiveIPv6`. A goroutine is the place it has reached with its local
    variables; its steps are its sections under `a.mu`, its reads of the device and its looks at the
    clock, and any amount of time may pass between two steps. A probe that ends by arming a watcher goes
    on as that watcher. -/

namespace Client
open Ipaddress Python Net Candidates

/-- `probeWindowForCandidate`. -/
def probeWindowForCandidate (c : Candidate) : ℕ :=
  match c.type with
  | .host6 => if 900 < c.priority then 8 * second else 2 * second
  | .reflexive6 => 8 * second
  | .observed4 => 8 * second
  | .predicted4 => 3 * second / 2
  | _ => 2 * second

/-- `passiveIPv6WatchWindow`, and `passiveIPv6FreshAge` in seconds. -/
def passiveIPv6WatchWindow : ℕ := 15 * second

def passiveIPv6FreshAge : ℕ := 5

/-- `passiveObserved6Ready`. -/
def passiveObserved6Ready (p : LocalPeer) (now : ℕ) : Bool :=
  decide (0 < p.latestHandshake) && decide (p.endpoint ≠ []) &&
    decide (p.latestHandshake ≤ now ∧ now ≤ p.latestHandshake + passiveIPv6FreshAge) &&
    decide (observedTypeForEndpoint p.endpoint = some .observed6)

/-- The candidate a probe works on, the ones after it, and the handshake it started from. -/
structure Attempt where
  candidate : Candidate
  rest : List Candidate
  baseline : ℕ
  deriving DecidableEq

/-- Where a goroutine is: before the step of this name. -/
inductive Pc
  /-- `probeSnapshot`. -/
  | start
  /-- `finishProbeCancelled`. -/
  | cancel
  /-- The check at the head of the loop over the candidates, or what follows the loop. -/
  | next (rest : List Candidate)
  /-- Read the baseline handshake. -/
  | baseline (candidate : Candidate) (rest : List Candidate)
  /-- Set the endpoint. -/
  | configure (at_ : Attempt)
  /-- Fix the deadline. -/
  | aim (at_ : Attempt)
  | poll (at_ : Attempt) (deadline : ℕ)
  /-- The check after the sleep. -/
  | wake (at_ : Attempt) (deadline : ℕ)
  | look (at_ : Attempt) (deadline : ℕ)
  | promote (at_ : Attempt) (endpoint : Text) (type : CandidateType)
  /-- `go a.watchPassiveIPv6(...)`, up to its deadline. -/
  | watchPassiveIPv6
  | watch (deadline : ℕ)
  /-- The watcher's check after the sleep. -/
  | listen (deadline : ℕ)
  | learn (deadline : ℕ)
  | adopt (endpoint : Text)
  | finished
  deriving DecidableEq

structure Goroutine where
  key : Text
  serverIP : Text
  generation : ℕ
  /-- The state object it was started for; the code does not keep this. -/
  object : ℕ
  /-- What `probeSnapshot` returned. -/
  candidates : List Candidate
  pc : Pc
  deriving DecidableEq

/-- The choices of the environment in a step. -/
structure GoCalls where
  /-- `wg show` and the two `wg set` of a step come back without an error. -/
  dump : Bool
  set : Bool
  rearm : Bool
  /-- `len(globalIPv6Addresses()) > 0`. -/
  globalIPv6 : Bool

namespace Goroutine
variable (g : Goroutine)

/-- `a.wg("set", ...)` on the state under the check of ownership; an error changes nothing. -/
def own (a : App) (owns : Bool) (f : PeerState → App × Pc) : App × Pc :=
  match a.states.get? g.key with
  | some s => if owns then f s else (a, .finished)
  | none => (a, .finished)

/-- `probeSnapshot`. -/
def probeSnapshot (a : App) : Option (List Candidate) :=
  match a.states.get? g.key with
  | some s => if a.current g.key g.generation then some s.candidates else none
  | none => none

/-- `finishProbeCancelled`. -/
def finishProbeCancelled (a : App) : App :=
  match a.states.get? g.key with
  | some s =>
    if s.generation = g.generation then
      a.setState g.key { s with
        workerRunning := false, mode := if s.mode = .probe then .idle else s.mode }
    else a
  | none => a

/-- No candidate worked. -/
def fail (a : App) (clock : ℕ) (calls : GoCalls) (s : PeerState) : App × Pc :=
  let passiveIPv6 := calls.globalIPv6 && !candidateListHasType g.candidates .host6
  let a := a.wgSet calls.set g.key .remove
  let a := if passiveIPv6 then a.wgSet calls.rearm g.key (.keepalive 0) else a
  let s := { s.recordProbeFailure (unix clock) with
    workerRunning := false, endpoint := [], selectedType := none }
  if passiveIPv6 then (a.setState g.key { s with mode := .passive6 }, .watchPassiveIPv6)
  else (a.setState g.key s, .finished)

/-- Set the endpoint of the candidate. -/
def configure (a : App) (clock : ℕ) (calls : GoCalls) (t : Attempt) (s : PeerState) : App × Pc :=
  if a.accepts calls.set then
    ((a.wgSet calls.set g.key (.endpoint t.candidate.endpoint probeKeepalive)).setState g.key { s with
      endpoint := t.candidate.endpoint, selectedType := some t.candidate.type,
      started := unix clock, baselineHandshake := t.baseline }, .aim t)
  else (a, .next t.rest)

/-- The endpoint a handshake came from, and its type. -/
def selected (t : Attempt) (p : LocalPeer) : Text × CandidateType :=
  let endpoint := if p.endpoint = [] then t.candidate.endpoint else p.endpoint
  (endpoint, (candidateTypeForEndpoint g.candidates endpoint <|>
    observedTypeForEndpoint endpoint).getD t.candidate.type)

/-- Install the route. -/
def promote (a : App) (calls : GoCalls) (endpoint : Text) (type : CandidateType) (s : PeerState) :
    App × Pc :=
  if a.accepts calls.set then
    ((a.wgSet calls.set g.key (.route (slash32 g.serverIP) endpoint keepalive)).setState g.key
      { s.promote endpoint (some type) with started := 0 }, .finished)
  -- the state keeps its worker mark
  else (a, .finished)

/-- Install the route of a learned endpoint. -/
def adopt (a : App) (calls : GoCalls) (endpoint : Text) (s : PeerState) : App × Pc :=
  if a.accepts calls.set then
    ((a.wgSet calls.set g.key (.route (slash32 g.serverIP) endpoint keepalive)).setState g.key
      { s.promote endpoint (some .observed6) with started := 0, baselineHandshake := 0 }, .finished)
  else (a, .finished)

/-- The next step: what it makes of the shared state, and where the goroutine is then. -/
def step (a : App) (clock : ℕ) (calls : GoCalls) : App × Pc :=
  let current := a.current g.key g.generation
  match g.pc with
  | .start =>
    match g.probeSnapshot a with
    | some (c :: cs) => (a, .next (c :: cs))
    | _ => (a, .cancel)
  | .cancel => (g.finishProbeCancelled a, .finished)
  | .next [] => g.own a current (g.fail a clock calls)
  | .next (c :: rest) => (a, if current then .baseline c rest else .finished)
  | .baseline c rest =>
    (a, .configure ⟨c, rest, ((a.localPeer calls.dump g.key).getD .zero).latestHandshake⟩)
  | .configure t => g.own a current (g.configure a clock calls t)
  | .aim t => (a, .poll t (clock + probeWindowForCandidate t.candidate))
  | .poll t deadline => (a, if clock < deadline then .wake t deadline else .next t.rest)
  | .wake t deadline => (a, if current then .look t deadline else .finished)
  | .look t deadline =>
    match a.localPeer calls.dump g.key with
    | some p =>
      if t.baseline < p.latestHandshake then
        (a, .promote t (g.selected t p).1 (g.selected t p).2)
      else (a, .poll t deadline)
    | none => (a, .poll t deadline)
  | .promote _ endpoint type => g.own a current (g.promote a calls endpoint type)
  | .watchPassiveIPv6 => (a, .watch (clock + passiveIPv6WatchWindow))
  | .watch deadline => (a, if clock < deadline then .listen deadline else .finished)
  | .listen deadline => (a, if a.armed g.key g.generation then .learn deadline else .finished)
  | .learn deadline =>
    match a.localPeer calls.dump g.key with
    | some p => (a, if passiveObserved6Ready p (unix clock) then .adopt p.endpoint else .watch deadline)
    | none => (a, .watch deadline)
  | .adopt endpoint => g.own a (a.armed g.key g.generation) (g.adopt a calls endpoint)
  | .finished => (a, .finished)

/-- The goroutine after its step. -/
def after (a : App) (pc : Pc) : Goroutine :=
  { g with
    pc, candidates := if g.pc = .start then (g.probeSnapshot a).getD [] else g.candidates }

end Goroutine

end Client
