import WireguardP2p.Lib.Runs
import WireguardP2p.Client.Goroutine

/-! The client process as a machine: the main loop, the goroutines it starts, and the WireGuard device
    of the interface. Sections under `a.mu` are single steps; a call of `reconcilePeers` is a sequence
    of them, with its `go` statements in between. The labels carry every choice of the environment: what
    the coordinator answers, which commands fail, how much time passes, and what remote peers do. -/

namespace Client
open Ipaddress Python Net Candidates

/-- Where the main loop is. -/
inductive Main
  | idle
  /-- No interface any more; `a.states` is not replaced yet. -/
  | lost
  /-- A new interface; `cleanup()` comes next. -/
  | switched
  /-- `a.states` is replaced next. -/
  | cleaned
  /-- `reconcilePeers` has its snapshot of the device, and no clock reading yet. -/
  | dumped (s : Sync) (peers : List ApiPeer)
  /-- `a.serverKeys` is replaced next. -/
  | entered (s : Sync) (peers : List ApiPeer)
  | visiting (s : Sync) (peers : List ApiPeer)
  /-- Between the unlock of an iteration and its `go` statement. -/
  | launching (s : Sync) (peers : List ApiPeer) (g : Goroutine)
  | dropping (s : Sync) (keys : List Text)

def Main.isIdle : Main → Bool
  | .idle => true
  | _ => false

theorem Main.isIdle_iff {m : Main} : m.isIdle = true ↔ m = .idle := by
  cases m <;> simp [Main.isIdle]

structure World where
  /-- Nanoseconds. -/
  clock : ℕ
  app : App
  main : Main
  /-- Every goroutine started so far. -/
  goroutines : List Goroutine

/-- What happens next. -/
inductive Label
  | tick (nanoseconds : ℕ)
  /-- A handshake completes, from the endpoint WireGuard learns by it. -/
  | handshake (key endpoint : Text)
  /-- A peer is seen at another endpoint. -/
  | roam (key endpoint : Text)
  /-- `resolveInterface` finds another interface, with its device. -/
  | interfaceFound (name : Text) (device : Dict Text WgPeer)
  | interfaceLost
  /-- `reconcilePeers(peers, ownKey)` is called. -/
  | reconcilePeers (peers : List ApiPeer) (ownKey ourLAN : Text) (dump : Bool)
  /-- The next step of the main loop. -/
  | proceed (calls : VisitCalls)
  /-- One turn of the last loop of `reconcilePeers`; a map has no order. -/
  | drop (key : Text) (remove : Bool)
  | fallbackStaleDirects (dump : Bool) (remove : Text → Bool)
  | cleanup (removeState removeServer : Text → Bool)
  /-- The next step of a goroutine. -/
  | run (i : ℕ) (calls : GoCalls)

namespace App

/-- `cleanup` of one state. -/
def discard (s : PeerState) : PeerState :=
  { s with generation := s.generation + 1, workerRunning := false }

/-- `a.wg("set", a.interfaceName, "peer", key, "remove")` for the keys, in order. -/
def removeAll (remove : Text → Bool) (a : App) (keys : List Text) : App :=
  keys.foldl (fun a key => a.wgSet (remove key) key .remove) a

/-- `cleanup`. -/
def cleanup (a : App) (removeState removeServer : Text → Bool) : App :=
  if a.interfaceName = [] then a
  else
    removeAll removeServer
      (removeAll removeState { a with states := a.states.mapVals fun _ => discard } a.states.keys)
      a.serverKeys.keys

/-- What `fallbackStaleDirects` writes. -/
def lapse (s : PeerState) : PeerState :=
  { s with
    generation := s.generation + 1, workerRunning := false, mode := .idle, endpoint := [],
    selectedType := none, retryAfter := 0 }

/-- The Direct of a server is there and has gone stale. -/
def staleDirect (locals : Dict Text LocalPeer) (now : ℕ) (key serverIP : Text) : Bool :=
  (locals.get? key).any fun p =>
    decide (slash32 serverIP ∈ p.allowedIPs) && !handshakeWithin directMaxAge now p.latestHandshake

/-- One turn of `fallbackStaleDirects`. -/
def fallbackOne (locals : Dict Text LocalPeer) (now : ℕ) (remove : Text → Bool) (a : App)
    (server : Text × Text) : App :=
  if staleDirect locals now server.1 server.2 then
    let a := a.wgSet (remove server.1) server.1 .remove
    match a.states.get? server.1 with
    | some s => a.setState server.1 (lapse s)
    | none => a
  else a

/-- `fallbackStaleDirects`. -/
def fallbackStaleDirects (a : App) (clock : ℕ) (dump : Bool) (remove : Text → Bool) : App :=
  match a.localPeers dump with
  | none => a
  | some locals => a.serverKeys.entries.foldl (fallbackOne locals (unix clock) remove) a

/-- One turn of the last loop of `reconcilePeers`. -/
def drop (a : App) (locals : Dict Text LocalPeer) (key : Text) (remove : Bool) : App :=
  let a := if (locals.get? key).isSome then a.wgSet remove key .remove else a
  { a with states := a.states.erase key }

/-- The device changes a peer it has by itself. -/
def onPeer (a : App) (key : Text) (f : WgPeer → WgPeer) : Option App :=
  (a.device.get? key).map fun p => { a with device := a.device.set key (f p) }

end App

namespace World

/-- The goroutine of a launch. -/
def probe (v : Visit) (object generation : ℕ) : Goroutine :=
  ⟨v.key, v.serverIP, generation, object, [], .start⟩

/-- `reconcilePeers` up to its snapshot. -/
def reconcilePeers (w : World) (peers : List ApiPeer) (ownKey ourLAN : Text) (dump : Bool) : World :=
  match peers.find? fun p => decide (p.key = ownKey) with
  | none => w
  | some ours =>
    if ours.endpoint = [] then w
    else
      match w.app.localPeers dump with
      | none => w
      | some locals => { w with
          main := .dumped ⟨ours, ourLAN, locals, 0, currentServers ours ownKey peers, [], []⟩ peers }

/-- An iteration of `reconcilePeers`. -/
def visit (w : World) (s : Sync) (p : ApiPeer) (rest : List ApiPeer) (calls : VisitCalls) : World :=
  match s.target p with
  | none => { w with main := .visiting s rest }
  | some target =>
    let v := s.visit p target calls
    let s := { s with active := p.key :: s.active }
    let (app, launched) := v.run w.app
    match launched with
    | none => { w with app, main := .visiting s rest }
    | some g => { w with app, main := .launching s rest (probe v (v.state w.app).object g) }

/-- The main loop where nothing but its own state decides. -/
def proceed (w : World) (calls : VisitCalls) : Option World :=
  match w.main with
  | .idle | .switched => none
  | .lost | .cleaned => some { w with app := { w.app with states := .empty }, main := .idle }
  | .dumped s peers => some { w with main := .entered { s with now := unix w.clock } peers }
  | .entered s peers =>
    some { w with
      app := { w.app with serverKeys := s.currentServers }
      main := .visiting { s with previous := w.app.serverKeys.keys, active := [] } peers }
  | .visiting s [] => some { w with main := .dropping s s.inactive }
  | .visiting s (p :: rest) => some (w.visit s p rest calls)
  | .launching s rest g => some { w with main := .visiting s rest, goroutines := w.goroutines ++ [g] }
  | .dropping _ [] => some { w with main := .idle }
  | .dropping _ (_ :: _) => none

/-- The next step of a goroutine that has not finished. -/
def run (w : World) (i : ℕ) (g : Goroutine) (calls : GoCalls) : World :=
  let (app, pc) := g.step w.app w.clock calls
  { w with app, goroutines := w.goroutines.set i (g.after w.app pc) }

/-- The steps of the client and of the device. -/
def step (w : World) : Label → Option World
  | .tick d => some { w with clock := w.clock + d }
  | .handshake key endpoint =>
    if unix w.clock = 0 then none
    else
      (w.app.onPeer key fun p =>
        { p with endpoint, latestHandshake := unix w.clock, awaiting := false }).map fun app =>
          { w with app }
  | .roam key endpoint =>
    (w.app.onPeer key fun p => { p with endpoint }).map fun app => { w with app }
  | .interfaceFound name device =>
    match w.main with
    | .idle =>
      if name = [] ∨ name = w.app.interfaceName then none
      else some { w with app := { w.app with interfaceName := name, device }, main := .switched }
    | _ => none
  | .interfaceLost =>
    match w.main with
    | .idle =>
      if w.app.interfaceName = [] then none
      else some { w with app := { w.app with interfaceName := [], device := .empty }, main := .lost }
    | _ => none
  | .reconcilePeers peers ownKey ourLAN dump =>
    match w.main with
    | .idle => some (w.reconcilePeers peers ownKey ourLAN dump)
    | _ => none
  | .proceed calls => w.proceed calls
  | .drop key remove =>
    match w.main with
    | .dropping s keys =>
      if key ∈ keys then
        some { w with app := w.app.drop s.locals key remove, main := .dropping s (keys.erase key) }
      else none
    | _ => none
  | .fallbackStaleDirects dump remove =>
    match w.main with
    | .idle => some { w with app := w.app.fallbackStaleDirects w.clock dump remove }
    | _ => none
  | .cleanup removeState removeServer =>
    match w.main with
    | .idle => some { w with app := w.app.cleanup removeState removeServer }
    | .switched => some { w with app := w.app.cleanup removeState removeServer, main := .cleaned }
    | _ => none
  | .run i calls =>
    match w.goroutines[i]? with
    | none => none
    | some g => if g.pc = .finished then none else some (w.run i g calls)

end World

/-- The machine of the client. -/
def machine : Runs.Machine World Label := ⟨World.step⟩

/-! ### A run -/

/-- A client that has seen no interface yet. -/
def World.start : World := ⟨1000 * second, ⟨[], .empty, .empty, .empty, 0⟩, .idle, []⟩

/-- This client, with an IPv6 address of its own. -/
def ownPeer : ApiPeer where
  key := "own".toList
  ip := "10.0.0.9".toList
  role := "client".toList
  instanceID := []
  endpoint := "198.51.100.9:51820".toList
  latestHandshake := 1000
  lanEndpoint := []
  candidates := [⟨"host6".toList, "[2606:4700::9]:51820".toList, 900, false⟩]

/-- A server with these candidates, seen at the time `at_`. -/
def serverPeer (at_ : ℤ) (candidates : List RawCandidate) : ApiPeer where
  key := "server".toList
  ip := "10.0.0.5".toList
  role := "server".toList
  instanceID := []
  endpoint := "203.0.113.5:51820".toList
  latestHandshake := at_
  lanEndpoint := []
  candidates := candidates

/-- A new interface without peers. -/
def joins (name : String) : List Label :=
  [.interfaceFound name.toList .empty, .cleanup (fun _ => true) fun _ => true, .proceed ⟨true, true⟩]

/-- A sync that shows this client and the server, up to the end of the loop over the peers. -/
def visits (server : ApiPeer) : List Label :=
  .reconcilePeers [ownPeer, server] "own".toList [] true :: List.replicate 4 (.proceed ⟨true, true⟩)

/-- Every call of a goroutine succeeds. -/
def goCalls : GoCalls := ⟨true, true, true, true⟩

/-- The first goroutine takes its next steps. -/
def runs (n : ℕ) : List Label := List.replicate n (.run 0 goCalls)

/-- The server is found and probed, and a handshake promotes its only candidate. -/
def directRun : List Label :=
  joins "wg0" ++ visits (serverPeer 1000 []) ++ [.proceed ⟨true, true⟩] ++ runs 5 ++
    [.handshake "server".toList "203.0.113.5:51820".toList] ++ runs 4

example : ((machine.run World.start directRun).bind fun w => do
    let s ← w.app.states.get? "server".toList
    let p ← w.app.device.get? "server".toList
    return decide (s.mode = .direct ∧ p.allowedIPs = [slash32 "10.0.0.5".toList])) = some true := by
  decide +kernel

end Client
