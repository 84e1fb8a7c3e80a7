import WireguardP2p.Lib.Dict
import WireguardP2p.Lib.Runs
import WireguardP2p.Agent.Worker

/-! The agent process as a machine: STATES, the WireGuard device, the launches decided under STATE_LOCK
    and not yet made, and the worker threads. A label names what happens next and every choice of the
    environment in it, so that runs can be executed. Sections under STATE_LOCK are single steps; the
    steps of different threads interleave in any order. -/

namespace Agent
open Ipaddress Python Candidates

/-- What STATE_LOCK protects, the device, and every `wg set` issued so far, latest first. -/
structure Shared where
  states : Dict PublicKey PeerState
  wg : Dict PublicKey WgPeer
  lastGeneration : ℕ
  issued : List (PublicKey × Command)

namespace Shared

/-- The view of one key. -/
def slot (sh : Shared) (k : PublicKey) : Slot where
  entry := sh.states.get? k
  peer := sh.wg.get? k
  lastGeneration := sh.lastGeneration
  issued := []
  taken := []

/-- An allowed IP belongs to one peer: what one peer is given the others lose. -/
def steal (taken : List Text) (p : WgPeer) : WgPeer :=
  { p with allowedIps := p.allowedIps.filter fun ip => decide (ip ∉ taken) }

/-- Write back what a section made of the view. -/
def put (sh : Shared) (k : PublicKey) (sl : Slot) : Shared where
  states := sh.states.alter k sl.entry
  wg := (sh.wg.mapVals fun _ => steal sl.taken).alter k sl.peer
  lastGeneration := sl.lastGeneration
  issued := sl.issued.map (Prod.mk k) ++ sh.issued

@[simp] theorem get?_put_states (sh : Shared) (k j : PublicKey) (sl : Slot) :
    (sh.put k sl).states.get? j = if j = k then sl.entry else sh.states.get? j :=
  Dict.get?_alter ..

@[simp] theorem get?_put_wg (sh : Shared) (k j : PublicKey) (sl : Slot) :
    (sh.put k sl).wg.get? j =
      if j = k then sl.peer else (sh.wg.get? j).map (steal sl.taken) := by
  rw [put, Dict.get?_alter, Dict.get?_mapVals]

@[simp] theorem lastGeneration_put (sh : Shared) (k : PublicKey) (sl : Slot) :
    (sh.put k sl).lastGeneration = sl.lastGeneration := rfl

@[simp] theorem steal_nil (p : WgPeer) : steal [] p = p := by
  simp [steal]

/-- A section that leaves its view leaves the whole. -/
theorem put_slot (sh : Shared) (k : PublicKey) : sh.put k (sh.slot k) = sh := by
  have hsteal : (fun _ => steal [] : PublicKey → WgPeer → WgPeer) = fun _ p => p := by
    funext _ p
    exact steal_nil p
  unfold put slot
  rw [hsteal, Dict.mapVals_id, Dict.alter_get?, Dict.alter_get?]
  rfl

end Shared

/-- A program on everything under STATE_LOCK. -/
abbrev Locked (α : Type) := Raising Shared Raised α

/-- A section on one key, in the whole. -/
def onKey {α : Type} (k : PublicKey) (p : Section α) : Locked α := fun sh =>
  ((p.run (sh.slot k)).1, sh.put k (p.run (sh.slot k)).2)

theorem wp_onKey {α : Type} {k : PublicKey} {p : Section α} {Q : α → Shared → Prop}
    {E : Raised → Shared → Prop} {sh : Shared} : (onKey k p).wp Q E sh ↔
      p.wp (fun a sl => Q a (sh.put k sl)) (fun e sl => E e (sh.put k sl)) (sh.slot k) := by
  unfold Raising.wp onKey Raising.run
  rcases p (sh.slot k) with ⟨_ | _, _⟩ <;> rfl

/-- `local_wg_peers()` and `save_state()` in the whole. -/
def queryAll (q : Option Raised) : Locked Unit :=
  match q with
  | none => pure ()
  | some e => Raising.raise e

def saveAll (ok : Bool) : Locked Unit := if ok then pure () else Raising.raise .osError

section Rules
variable {Q : Unit → Shared → Prop} {E : Raised → Shared → Prop} {sh : Shared}

@[simp] theorem wp_queryAll (q : Option Raised) : (queryAll q).wp Q E sh =
    ((q = none → Q () sh) ∧ ∀ e, q = some e → E e sh) := by
  cases q <;> simp [queryAll]

@[simp] theorem wp_saveAll (ok : Bool) : (saveAll ok).wp Q E sh =
    ((ok = true → Q () sh) ∧ (ok = false → E .osError sh)) := by
  cases ok <;> simp [saveAll]

end Rules

/-- The outcomes of the calls in a pass over STATES. -/
structure PassCalls where
  query : Option Raised
  remove : PublicKey → Outcome
  save : Bool

def PassCalls.succeed : PassCalls := ⟨none, fun _ => .done, true⟩

/-- The loop of `monitor_once`: whether something changed, and the launches. -/
def monitorLoop (now : Time) (remove : PublicKey → Outcome) :
    List PublicKey → Locked (Bool × List (PublicKey × ℕ))
  | [] => pure (false, [])
  | k :: ks => do
    let r ← onKey k (monitorPeer now (remove k))
    let (changed, launches) ← monitorLoop now remove ks
    return (r.changed || changed, (r.launch.map (Prod.mk k)).toList ++ launches)

/-- `monitor_once` under STATE_LOCK. -/
def monitorOnce (now : Time) (calls : PassCalls) : Locked (List (PublicKey × ℕ)) := do
  let keys := (← Raising.get).states.keys
  if keys = [] then return []
  else
    queryAll calls.query
    let (changed, launches) ← monitorLoop now calls.remove keys
    if changed then saveAll calls.save
    return launches

/-- The loop of `cleanup_initiator_states`. -/
def cleanupLoop (active : List Text) (remove : PublicKey → Outcome) : List PublicKey → Locked Bool
  | [] => pure false
  | k :: ks => do
    let changed ← onKey k (cleanupPeer (decide (k.1 ∈ active)) (remove k))
    let rest ← cleanupLoop active remove ks
    return changed || rest

/-- `cleanup_initiator_states`. -/
def cleanupInitiatorStates (active : List Text) (calls : PassCalls) : Locked Unit := do
  queryAll calls.query
  let keys := (← Raising.get).states.keys
  let changed ← cleanupLoop active calls.remove keys
  if changed then saveAll calls.save

/-- The agent process and the device. -/
structure World where
  shared : Shared
  /-- Launches between the release of STATE_LOCK and `launch_probe`. -/
  pending : List (PublicKey × ℕ)
  /-- Every worker thread started so far. -/
  threads : List Thread

/-- What happens next. -/
inductive Label
  | offer (env : OfferEnv) (data : Json) (controller : Controller) (calls : OfferCalls)
  | remove (listenAddress : Text) (data : Json) (now : Time) (calls : RemoveCalls)
  | monitor (now : Time) (calls : PassCalls)
  | cleanupInitiator (active : List Text) (calls : PassCalls)
  /-- `launch_probe` of a pending launch. -/
  | launch (i : ℕ)
  | worker (i : ℕ) (calls : WorkerCalls)
  /-- The device completes a handshake with a peer it has. -/
  | handshake (k : PublicKey) (at_ : ℕ)
  /-- A peer the device has is seen at another endpoint. -/
  | roam (k : PublicKey) (endpoint : Text)

/-- The launch an offer asks for. -/
def OfferReply.launch (key : PublicKey) : OfferReply → List (PublicKey × ℕ)
  | .accepted (some g) => [(key, g)]
  | _ => []

namespace World

/-- `handle_offer` up to `launch_probe`. -/
def offer (w : World) (env : OfferEnv) (data : Json) (controller : Controller) (calls : OfferCalls) :
    Except Raised OfferReply × World :=
  match readOffer env data controller with
  | .error e => (.error e, w)
  | .ok o =>
    match (onKey o.key (offerSection o calls)).run w.shared with
    | (.error e, sh) => (.error e, { w with shared := sh })
    | (.ok reply, sh) =>
      (.ok reply, { w with shared := sh, pending := reply.launch o.key ++ w.pending })

/-- What an offer that passed the checks leaves under STATE_LOCK. -/
theorem offer_shared {env : OfferEnv} {data : Json} {controller : Controller} {o : Offer}
    (ho : readOffer env data controller = .ok o) (w : World) (calls : OfferCalls) :
    (w.offer env data controller calls).2.shared =
      w.shared.put o.key ((offerSection o calls).run (w.shared.slot o.key)).2 := by
  simp only [offer, ho, Raising.run, onKey]
  rcases offerSection o calls (w.shared.slot o.key) with ⟨_ | _, _⟩ <;> rfl

/-- `handle_remove`. -/
def remove (w : World) (listenAddress : Text) (data : Json) (now : Time) (calls : RemoveCalls) :
    Except Raised RemoveReply × World :=
  match readRemoval listenAddress data with
  | .error e => (.error e, w)
  | .ok r =>
    let (reply, sh) := (onKey r.key (removeSection r now calls)).run w.shared
    (reply, { w with shared := sh })

/-- `monitor_once` up to the launches, which are lost when it raises. -/
def monitor (w : World) (now : Time) (calls : PassCalls) : World :=
  match (monitorOnce now calls).run w.shared with
  | (.error _, sh) => { w with shared := sh }
  | (.ok launches, sh) => { w with shared := sh, pending := launches ++ w.pending }

/-- `launch_probe(key, generation)`. -/
def probeThread (launch : PublicKey × ℕ) : Thread := ⟨launch.1, launch.2, .probe, .probe .start⟩

/-- `launch_confirmation_rekey(key, generation, peer_ip, endpoint)`. -/
def confirmThread (t : Thread) (confirm : Text × Text) : Thread :=
  ⟨t.key, t.generation, .confirm6, .confirm (.setup confirm.1 confirm.2)⟩

/-- The next step of a worker that has not finished. -/
def worker (w : World) (i : ℕ) (t : Thread) (calls : WorkerCalls) : World :=
  match (onKey t.key (t.step calls)).run w.shared with
  | (.ok next, sh) =>
    { w with
      shared := sh
      threads := w.threads.set i { t with pc := next.pc } ++
        (next.confirm.map (confirmThread t)).toList }
  | (.error _, sh) => { w with shared := sh, threads := w.threads.set i { t with pc := .finished } }

/-- The device peer of a key changes by itself. -/
def device (w : World) (k : PublicKey) (p : WgPeer) : World :=
  { w with shared := { w.shared with wg := w.shared.wg.set k p } }

/-- The steps of the agent and of the device. -/
def step (w : World) : Label → Option World
  | .offer env data controller calls => some (w.offer env data controller calls).2
  | .remove listenAddress data now calls => some (w.remove listenAddress data now calls).2
  | .monitor now calls => some (w.monitor now calls)
  | .cleanupInitiator active calls =>
    some { w with shared := ((cleanupInitiatorStates active calls).run w.shared).2 }
  | .launch i =>
    match w.pending[i]? with
    | none => none
    | some launch =>
      some { w with pending := w.pending.eraseIdx i, threads := w.threads ++ [probeThread launch] }
  | .worker i calls =>
    match w.threads[i]? with
    | none => none
    | some t => if t.pc = .finished then none else some (w.worker i t calls)
  | .handshake k at_ =>
    match w.shared.wg.get? k with
    | none => none
    | some p => if at_ = 0 then none else some (w.device k { p with latestHandshake := at_ })
  | .roam k endpoint =>
    match w.shared.wg.get? k with
    | none => none
    | some p => some (w.device k { p with endpoint })

end World

/-- The machine of the agent. -/
def machine : Runs.Machine World Label := ⟨World.step⟩

/-! ### A run -/

/-- A process without state on a device without peers. -/
def World.start : World := ⟨⟨.empty, .empty, 0, []⟩, [], []⟩

/-- The key whose bytes are all zero. -/
def zeroKey : PublicKey := ⟨List.replicate 43 'A' ++ ['='], by decide⟩

/-- The node at the time `now`: another LAN than the peer, no overlay address of its own on 10.0.0.5. -/
def nodeEnv (now : Time) : OfferEnv := ⟨now, 1000, "10.0.0.9".toList, .ok "192.168.7.2".toList⟩

/-- An offer of a peer with a native IPv6 candidate, in a session. -/
def sessionOffer (sessionId : String) (startedNs : ℤ) : Json := .obj
  [("peer_key".toList, .str zeroKey.1), ("peer_ip".toList, .str "10.0.0.5".toList),
    ("session_id".toList, .str sessionId.toList), ("session_started_ns".toList, .int startedNs),
    ("endpoint".toList, .str "198.51.100.7:41000".toList),
    ("endpoint_type".toList, .str "WAN".toList),
    ("candidates".toList, .arr [.obj [("type".toList, .str "host6".toList),
      ("endpoint".toList, .str "[2606:4700::5]:51820".toList), ("priority".toList, .int 900)]])]

def peerOffer : Json := sessionOffer "0a1b2c3d-0000-4000-8000-00000000000f" 5

/-- Every call of a worker succeeds at the time `now`; no end of a window, no STOP. -/
def workerCalls (now : Time) : WorkerCalls := ⟨now, false, false, false, none, .done, .done, .done, true⟩

/-- The offer reaches the node. -/
def offered (now : Time) (calls : OfferCalls) : Label := .offer (nodeEnv now) peerOffer .responder calls

/-- The offer comes, its probe finds the path, and the confirmation it launches recreates the peer. -/
def confirmRun : List Label :=
  [offered 100 .succeed, .launch 0] ++
    List.replicate 4 (.worker 0 (workerCalls 100)) ++ [.handshake zeroKey 101] ++
    List.replicate 4 (.worker 0 (workerCalls 101)) ++ [.worker 1 (workerCalls 104)]

/-- The confirmation is at work, its route is back and has no handshake yet. -/
example : ((machine.run World.start confirmRun).bind fun w => do
    let s ← w.shared.states.get? zeroKey
    let p ← w.shared.wg.get? zeroKey
    return decide (s.mode = .confirm6 ∧ s.workerRunning = true ∧
      p.allowedIps = [slash32 "10.0.0.5".toList] ∧ p.latestHandshake = 0)) = some true := by
  decide +kernel

end Agent
