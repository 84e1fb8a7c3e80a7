import WireguardP2p.Lib.Runs
import WireguardP2p.Coordinator.Request

/-! `peers_api.py` as a machine of threads. A thread answers a request or is one round of
    `session_reaper`; it moves from one section under STATE_LOCK, or one notification, to the next, and
    the threads move in any order. The registry is read anew by every section that needs it, so a run
    may edit it in between. `log` keeps what the coordinator sent and closed; no program reads it. -/

namespace Coordinator
open Ipaddress Python Net Candidates

/-- An announcement, once its source is known. -/
structure Request where
  path : Path
  data : Json
  source : ListedPeer
  peers : List ListedPeer

/-- What a thread goes on with when it has closed its sessions. -/
inductive Rest
  /-- A call of `coordinate_client` that replaced a session. -/
  | offers (r : Request) (c : Call) (s : Session)
  | nothing

/-- Where a thread stands. -/
inductive Thread
  | received (r : Request)
  | addressed (r : Request) (a : Announcement) (instanceId : Text)
  | announced (r : Request) (a : Announced)
  /-- Waits for COORDINATE_LOCK. -/
  | waiting (r : Request) (c : Call)
  /-- In `push_remove`, with the sessions still to close and the servers still to notify. -/
  | removing (todo : List Session) (targets : Option (Session × List Text)) (rest : Rest)
  /-- The offers of `coordinate_client`: to build and send, and sent but not recorded. -/
  | offering (r : Request) (c : Call) (s : Session) (queued : List Job)
      (sent : List (Job × Except Raised OfferBody)) (results : Dict Text Reply)
  | publishing (r : Request)
  /-- In `disconnect_client`. -/
  | leaving (ip : Text)

/-- The thread is inside COORDINATE_LOCK. -/
def Thread.holds : Thread → Bool
  | removing _ _ (.offers ..) => true
  | offering .. => true
  | _ => false

/-- What the coordinator did. -/
inductive Event
  | offered (c : Call) (server : ListedPeer) (body : OfferBody)
  | published (peers : List PublishedPeer)
  | closed (s : Session)
  | removed (s : Session) (serverIp : Text)

/-- A step of one thread, with what it reads of the outside. -/
inductive Act
  | address (now : ℚ)
  | candidates (now : ℚ)
  /-- `now = time.time()` of `coordinate_client`, and on to the lock; or no coordination at all. -/
  | coordinate (now : ℚ)
  | openSession (uuid : Fin (2 ^ 128)) (timeNs : ℕ+)
  | readRegistry (registry : RegistryFile)
  | remove (answer : Pushed) (now : ℚ)
  | next
  | send (now : ℤ)
  | record (answer : Pushed) (now : ℚ)
  | close
  | publish (now : ℚ)
  | leave (registry : RegistryFile)

/-- What a step leaves: the tables, the thread unless it ended, what was done. -/
structure Moved where
  store : Store
  thread : Option Thread
  events : List Event

/-- A section, and the thread after it; an error ends the thread. -/
def Section.moved {α : Type} (p : Section α) (st : Store) (f : α → Thread) : Moved :=
  match p.run st with
  | (.ok a, st) => ⟨st, some (f a), []⟩
  | (.error _, st) => ⟨st, none, []⟩

/-- The thread after the session of a call is opened. -/
def afterOpening (r : Request) (c : Call) (o : Opened) : Moved → Moved := fun m =>
  match o.stale with
  | some stale => { m with thread := some (.removing [stale] none (.offers r c o.session)), events := [.closed stale] }
  | none => { m with thread := some (.offering r c o.session (c.pending o.session) [] .empty) }

/-- One step of a thread; `locked` says whether a thread is inside COORDINATE_LOCK. -/
def Thread.act (locked : Bool) (st : Store) : Thread → Act → Option Moved
  | received r, .address now =>
    some ((announceAddress r.source.ip r.data now).moved st fun p => addressed r p.1 p.2)
  | addressed r a instanceId, .candidates now =>
    some ((announceCandidates r.source.ip r.data a now).moved st fun advertised =>
      announced r ⟨a, instanceId, advertised⟩)
  | announced r a, .coordinate now =>
    if coordinates r.source.role then some ⟨st, some (waiting r (announcedCall r.source r.peers a now)), []⟩
    else some ⟨st, some (publishing r), []⟩
  | waiting r c, .openSession uuid timeNs =>
    if locked then none
    else
      let (o, st) := Coordinator.openSession c uuid timeNs st
      some (afterOpening r c o ⟨st, none, []⟩)
  | removing (s :: todo) none rest, .readRegistry registry =>
    if s.sessionId = [] then some ⟨st, some (removing todo none rest), []⟩
    else match removeTargets s registry with
      | .ok targets => some ⟨st, some (removing todo (some (s, targets)) rest), []⟩
      | .error _ => some ⟨st, none, []⟩
  | removing todo (some (s, ip :: targets)) rest, .remove answer now =>
    some ⟨answer.record ip now st, some (removing todo (some (s, targets)) rest), [.removed s ip]⟩
  | removing todo (some (_, [])) rest, .next => some ⟨st, some (removing todo none rest), []⟩
  | removing [] none (.offers r c s), .next => some ⟨st, some (offering r c s (c.pending s) [] .empty), []⟩
  | removing [] none .nothing, .next => some ⟨st, none, []⟩
  | offering r c s (j :: queued) sent results, .send now =>
    let payload := c.payload s j.server now
    some ⟨st, some (offering r c s queued (sent ++ [(j, payload)]) results),
      payload.toOption.toList.map fun body => .offered c j.server body⟩
  | offering r c s queued ((j, payload) :: sent) results, .record answer now =>
    some ⟨(pushedOffer payload answer).record j.server.ip now st,
      some (offering r c s queued sent (takeReply j payload answer results)), []⟩
  | offering r c s [] [] results, .close =>
    some ((closeCall c s.sessionId results).moved st fun _ => publishing r)
  | publishing r, .publish now =>
    if r.path = .announce then some ⟨st, none, []⟩
    else
      let (peers, st) := peerPayload r.peers now st
      some ⟨st, none, [.published peers]⟩
  | leaving ip, .leave registry =>
    let closed := (st.sessions.get? ip).toList
    match (popSession ip registry).run st with
    | (.ok _, st) => some ⟨st, some (removing closed none .nothing), closed.map .closed⟩
    | (.error _, st) => some ⟨st, none, closed.map .closed⟩
  | _, _ => none

/-- The coordinator. -/
structure World where
  store : Store
  threads : Dict ℕ Thread
  log : List Event

/-- A thread is inside COORDINATE_LOCK. -/
def World.locked (w : World) : Bool := w.threads.entries.any fun e => e.2.holds

/-- A step of the coordinator. -/
inductive Label
  /-- `do_POST` has read the body and the peers. -/
  | request (thread : ℕ) (path : Path) (data : Json) (peers : List ListedPeer) (sourceIp : Text)
  /-- A round of `session_reaper`. -/
  | reap (thread : ℕ) (now : ℚ) (registry : RegistryFile)
  /-- `do_GET` of the peers. -/
  | list (peers : List ListedPeer) (now : ℚ)
  | act (thread : ℕ) (a : Act)

/-- The sessions a round of `session_reaper` closes. -/
def expiredSessions (now : ℚ) (st : Store) : List Session :=
  (st.sessions.entries.filter fun e => e.2.expired now).map Prod.snd

/-- A round of `session_reaper` up to its first notification. -/
def reapMoved (now : ℚ) (registry : RegistryFile) (st : Store) : Moved :=
  let closed := expiredSessions now st
  match (reap now registry).run st with
  | (.ok _, st) => ⟨st, some (.removing closed none .nothing), closed.map .closed⟩
  | (.error _, st) => ⟨st, none, closed.map .closed⟩

/-- The thread of a request; none when it is answered at once. -/
def startThread (path : Path) (data : Json) (peers : List ListedPeer) (sourceIp : Text) : Option Thread :=
  match findSourcePeer sourceIp peers with
  | none => none
  | some source =>
    if path = .disconnect then
      if coordinates source.role then some (.leaving source.ip) else none
    else some (.received ⟨path, data, source, peers⟩)

/-- The coordinator after a thread moved. -/
def World.after (w : World) (thread : ℕ) (m : Moved) : World :=
  ⟨m.store, w.threads.alter thread m.thread, w.log ++ m.events⟩

def World.step (w : World) : Label → Option World
  | .request thread path data peers sourceIp =>
    match w.threads.get? thread with
    | none => some (w.after thread ⟨w.store, startThread path data peers sourceIp, []⟩)
    | some _ => none
  | .reap thread now registry =>
    match w.threads.get? thread with
    | none => some (w.after thread (reapMoved now registry w.store))
    | some _ => none
  | .list peers now =>
    let (published, st) := peerPayload peers now w.store
    some ⟨st, w.threads, w.log ++ [.published published]⟩
  | .act thread a =>
    match w.threads.get? thread with
    | none => none
    | some t => (t.act w.locked w.store a).map (w.after thread)

def coordinator : Runs.Machine World Label := ⟨World.step⟩

/-- The coordinator at the start. -/
def World.start : World := ⟨emptyStore, .empty, []⟩

/-! ### A client syncs -/

/-- A server and a client behind different public addresses. -/
def homeServer : ListedPeer where
  key := "server".toList
  ip := "10.0.0.2".toList
  endpoint := "8.8.8.8:51820".toList
  instanceId := []
  role := .server
  latestHandshake := 0

def homeClient : ListedPeer where
  key := "client".toList
  ip := "10.0.0.7".toList
  endpoint := "8.8.4.4:40000".toList
  instanceId := []
  role := .client
  latestHandshake := 0

/-- A body that names no candidates. -/
def lanBody : Json :=
  .obj [("lan_ip".toList, .str "192.168.1.2".toList), ("listen_port".toList, .int 51820)]

/-- The client syncs at 100, and the server accepts the offer. -/
def syncRun : List Label :=
  [.request 0 .sync lanBody [homeServer, homeClient] homeClient.ip] ++
    [.address 100, .candidates 100, .coordinate 100, .openSession 1 1, .send 100,
      .record (.accepted (.obj [("ok".toList, .bool true)])) 100, .close, .publish 100].map (.act 0)

end Coordinator
