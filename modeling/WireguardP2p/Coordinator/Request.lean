import WireguardP2p.Coordinator.State

/-! `peers_api.py`: `do_POST` as one program over the shared tables. What a request finds outside
    (the clock, a fresh UUID, the registry file, the answers of the servers) is in `Outside`. -/

namespace Coordinator
open Ipaddress Python Net Candidates

/-- How a notification ended. -/
inductive Pushed
  | accepted (info : Json)
  | refused
  | failed (error : Text)

/-- `record_push_result` of a notification. -/
def Pushed.record (serverIp : Text) (now : ℚ) : Pushed → Store → Store
  | .accepted _ => recordPushResult serverIp true [] now
  | .refused => recordPushResult serverIp false "negative response".toList now
  | .failed error => recordPushResult serverIp false error now

/-- What a request finds outside. -/
structure Outside where
  addressAt : ℚ
  candidatesAt : ℚ
  now : ℚ
  uuid : Fin (2 ^ 128)
  timeNs : ℕ
  registry : RegistryFile
  /-- The answer of each server to a removal, and when it is recorded. -/
  removal : Text → Pushed × ℚ
  /-- The answer of each server to an offer, and when it is recorded. -/
  offer : Text → Pushed × ℚ
  /-- `int(time.time())` when the offer for a server is built. -/
  offeredAt : Text → ℤ
  publishedAt : ℚ

/-- `push_remove`. -/
def pushRemove (session : Session) (o : Outside) : Section Unit :=
  if session.sessionId = [] then return ()
  else do
    let targets ← .ofExcept (removeTargets session o.registry)
    .modify fun st => targets.foldl (fun st ip => (o.removal ip).1.record ip (o.removal ip).2 st) st

/-- The result of pushing an offer that was built or not. -/
def pushedOffer (payload : Except Raised OfferBody) (answer : Pushed) : Pushed :=
  match payload with
  | .ok _ => answer
  | .error (.runtimeError message) => .failed message.toList
  | .error _ => .failed []

/-- `results` with the reply to an offer, if the server accepted it. -/
def takeReply (j : Job) (payload : Except Raised OfferBody) (answer : Pushed) (results : Dict Text Reply) :
    Dict Text Reply :=
  match payload, answer with
  | .ok body, .accepted info => results.set j.server.ip ⟨j.fingerprint, info, body⟩
  | _, _ => results

/-- The offers of `coordinate_client`, pushed one after the other. -/
def pushOffers (c : Call) (s : Session) (o : Outside) : List Job → Dict Text Reply → Section (Dict Text Reply)
  | [], results => return results
  | j :: jobs, results => do
    let payload := c.payload s j.server (o.offeredAt j.server.ip)
    let answer := o.offer j.server.ip
    .modify ((pushedOffer payload answer.1).record j.server.ip answer.2)
    pushOffers c s o jobs (takeReply j payload answer.1 results)

/-- `coordinate_client`. -/
def coordinateClient (c : Call) (o : Outside) : Section Text := do
  let st ← .get
  let opened := (openSession c o.uuid o.timeNs st).1
  .modify fun st => (openSession c o.uuid o.timeNs st).2
  match opened.stale with
  | some stale => pushRemove stale o
  | none => pure ()
  let results ← pushOffers c opened.session o (c.pending opened.session) .empty
  closeCall c opened.session.sessionId results
  return opened.session.sessionId

/-- `disconnect_client`. -/
def disconnectClient (ip : Text) (o : Outside) : Section Unit := do
  match ← popSession ip o.registry with
  | some session => pushRemove session o
  | none => return ()

/-- The paths `do_POST` knows. -/
inductive Path
  | announce
  | sync
  | connect
  | disconnect
  deriving DecidableEq

/-- The session in an answer. -/
structure AnsweredSession where
  sessionId : Text
  sessionStartedNs : Option ℕ

/-- The answers of `do_POST`. -/
inductive Answer
  | done (session : Option AnsweredSession)
  | peers (session : Option AnsweredSession) (peers : List PublishedPeer)
  | badRequest
  | forbidden
  | unavailable

/-- `find_source_peer`. -/
def findSourcePeer (sourceIp : Text) (peers : List ListedPeer) : Option ListedPeer :=
  peers.find? fun p => decide (p.ip = sourceIp)

/-- What `coordinate_client` is called with for an announcement. -/
def announcedCall (source : ListedPeer) (peers : List ListedPeer) (a : Announced) (now : ℚ) : Call where
  client := { source with instanceId := a.instanceId }
  lanEndpoint := a.announcement.lanEndpoint
  peers := peers
  candidates := a.advertised
  force := false
  now := now

/-- A relay is not coordinated. -/
def coordinates (role : Role) : Bool := decide (role = .client ∨ role = .server)

/-- The session a call leaves for the answer. -/
def answeredSession (source sessionId : Text) (st : Store) : Option AnsweredSession :=
  if sessionId = [] then none
  else some ⟨sessionId, (st.sessions.get? source).bind fun s =>
    if s.sessionId = sessionId then some s.sessionStartedNs else none⟩

/-- `do_POST` of an announcement. -/
def postAnnouncement (path : Path) (data : Json) (source : ListedPeer) (peers : List ListedPeer) (o : Outside) :
    Section Answer := do
  let a ← announce source.ip data o.addressAt o.candidatesAt
  let sessionId ← if coordinates source.role then coordinateClient (announcedCall source peers a o.now) o
    else pure []
  if path = .announce then
    let st ← .get
    return .done (answeredSession source.ip sessionId st)
  else
    let st ← .get
    let published := (peerPayload peers o.publishedAt st).1
    .modify fun st => (peerPayload peers o.publishedAt st).2
    let st ← .get
    return .peers (answeredSession source.ip sessionId st) published

/-- `do_POST` up to the handlers of its errors; the body and the peers may raise while they are read. -/
def post (path : Path) (body : Except Raised Json) (listing : Except Raised (List ListedPeer))
    (sourceIp : Text) (o : Outside) : Section Answer := do
  let data ← .ofExcept body
  let peers ← .ofExcept listing
  match findSourcePeer sourceIp peers with
  | none => return .forbidden
  | some source =>
    if path = .disconnect then
      if coordinates source.role then disconnectClient source.ip o else pure ()
      return .done none
    else postAnnouncement path data source peers o

/-- `do_POST`. -/
def doPost (path : Path) (body : Except Raised Json) (listing : Except Raised (List ListedPeer))
    (sourceIp : Text) (o : Outside) (st : Store) : Answer × Store :=
  match (post path body listing sourceIp o).run st with
  | (.ok answer, st) => (answer, st)
  | (.error e, st) => (if isBadRequest e then .badRequest else .unavailable, st)

end Coordinator
