import WireguardP2p.Lib.Dict
import WireguardP2p.Lib.Raising
import WireguardP2p.Net.Dump
import WireguardP2p.Python.JsonText
import WireguardP2p.Coordinator.Initiators

/-! `peers_api.py`: the tables the request handlers share and the sections they run under STATE_LOCK.
    What a section reads of the outside (the clock, a fresh UUID, the registry file) is a parameter. -/

namespace Coordinator
open Ipaddress Python Net Candidates

/-- `SESSION_TTL`. -/
def sessionTtl : ℚ := 180

/-- `OFFER_REFRESH`. -/
def offerRefresh : ℚ := 120

/-- `ANNOUNCE_TTL`. -/
def announceTtl : ℚ := 300

/-- An entry of LAN_CANDIDATES. -/
structure LanEntry where
  announcement : Announcement
  seen : ℚ

/-- An entry of NODE_CANDIDATES. -/
structure NodeEntry where
  candidates : List Candidate
  seen : ℚ

/-- An entry of SESSIONS. -/
structure Session where
  sessionId : Text
  sessionStartedNs : ℕ
  key : Text
  ip : Text
  instanceId : Text
  lastSeen : ℚ
  lastPush : Dict Text ℚ
  fingerprints : Dict Text Text
  /-- The payload whose acceptance `lastPush` and `fingerprints` record; no program reads it. -/
  accepted : Dict Text OfferBody

/-- An entry of SERVER_PUSH_STATUS. -/
structure PushStatus where
  ok : Option Bool
  lastSuccess : ℤ
  lastError : ℤ
  lastErrorMessage : Text
  consecutiveFailures : ℕ
  lastErrorLog : ℚ

/-- What the handlers share under STATE_LOCK. -/
structure Store where
  lan : Dict Text LanEntry
  node : Dict Text NodeEntry
  sessions : Dict Text Session
  pushStatus : Dict Text PushStatus

/-- The tables at the start. -/
def emptyStore : Store := ⟨.empty, .empty, .empty, .empty⟩

/-- A section under STATE_LOCK, or a run of several. -/
abbrev Section (α : Type) := Raising Store Raised α

/-- `int(now)` of a time. -/
def wholeSeconds (now : ℚ) : ℤ := now.num.tdiv now.den

/-! ### The registry of servers -/

/-- A registry file as `open` and the decoder find it. -/
inductive RegistryFile
  | missing
  | undecodable
  | lines (lines : List Text)

/-- The address of a line of a registry, if it is one a node may have. -/
def registryAddress (line : Text) : Option Text :=
  match ipAddress (Wg.trim isStrSpace (line.takeWhile fun c => decide (c ≠ '#'))) with
  | some (.v4 ip) =>
    if (net4 [10, 0, 0, 0] 24).contains ip ∧ ip.val % 2 ^ 8 ≠ 0 ∧ ip.val % 2 ^ 8 ≠ 255 ∧
        IpAddress.compressed (.v4 ip) ≠ "10.0.0.1".toList then
      some (IpAddress.compressed (.v4 ip))
    else none
  | _ => none

/-- `load_role_registry`; a decoder error is a `ValueError`. -/
def loadRoleRegistry : RegistryFile → Except Raised (List Text)
  | .missing => .ok []
  | .undecodable => .error .builtinValueError
  | .lines ls => .ok (ls.filterMap registryAddress).dedup

/-! ### Announcements -/

/-- `record_candidate`. -/
def recordCandidate (overlayIp : Text) (a : Announcement) (now : ℚ) (st : Store) : Store :=
  { st with lan := st.lan.set overlayIp ⟨a, now⟩ }

/-- `record_node_candidates`. -/
def recordNodeCandidates (overlayIp : Text) (candidates : List Candidate) (now : ℚ) (st : Store) : Store :=
  { st with node := st.node.set overlayIp ⟨candidates, now⟩ }

/-- What `do_POST` hands to `coordinate_client`. -/
structure Announced where
  announcement : Announcement
  instanceId : Text
  advertised : List Candidate

/-- The instance id of a body: `data.get("instance_id", "")`. -/
def announcedInstance (data : Json) : Except Raised Text := do
  validateInstanceId (some ((← data.get "instance_id").getD (.str [])))

/-- The candidates of a body. -/
def announcedCandidates (data : Json) : Except Raised (List Candidate) := do
  validateCandidates (← bodyCandidates data) false

/-- The part of `do_POST` up to `record_candidate`. -/
def announceAddress (source : Text) (data : Json) (now : ℚ) : Section (Announcement × Text) := do
  let announcement ← .ofExcept (validateAnnouncement data)
  let instanceId ← .ofExcept (announcedInstance data)
  .modify (recordCandidate source announcement now)
  return (announcement, instanceId)

/-- The candidates a node is taken to have: its LAN address when it names none. -/
def advertise (announcement : Announcement) (validated : List Candidate) : List Candidate :=
  if validated = [] then (lanCandidate announcement.lanIp announcement.listenPort).toList else validated

/-- The part of `do_POST` up to `record_node_candidates`. -/
def announceCandidates (source : Text) (data : Json) (announcement : Announcement) (now : ℚ) :
    Section (List Candidate) := do
  let validated ← .ofExcept (announcedCandidates data)
  .modify (recordNodeCandidates source (advertise announcement validated) now)
  return advertise announcement validated

/-- The announcement of `do_POST`, with the two readings of the clock. -/
def announce (source : Text) (data : Json) (addressAt candidatesAt : ℚ) : Section Announced := do
  let (announcement, instanceId) ← announceAddress source data addressAt
  let advertised ← announceCandidates source data announcement candidatesAt
  return ⟨announcement, instanceId, advertised⟩

/-- Caught by `except (KeyError, TypeError, ValueError, json.JSONDecodeError)`: the answer is 400. -/
def isBadRequest (e : Raised) : Bool :=
  (match e with
    | .keyError _ => true
    | _ => false) || e.isTypeOrValueError

/-! ### Sessions -/

/-- The arguments of a call of `coordinate_client`. -/
structure Call where
  /-- The client with the announced instance id. -/
  client : ListedPeer
  lanEndpoint : Text
  peers : List ListedPeer
  candidates : List Candidate
  force : Bool
  /-- `now`, read before the locks are taken. -/
  now : ℚ

/-- `servers`. -/
def Call.servers (c : Call) : List ListedPeer := initiatorServers c.client c.peers

/-- `is_new_session`. -/
def isNewSession (c : Call) : Option Session → Bool
  | none => true
  | some s => decide (s.key ≠ c.client.key) ||
      decide (c.client.instanceId ≠ [] ∧ s.instanceId ≠ c.client.instanceId)

/-- A new session. -/
def newSession (c : Call) (uuid : Fin (2 ^ 128)) (timeNs : ℕ) : Session where
  sessionId := uuidText uuid
  sessionStartedNs := timeNs
  key := c.client.key
  ip := c.client.ip
  instanceId := c.client.instanceId
  lastSeen := c.now
  lastPush := .empty
  fingerprints := .empty
  accepted := .empty

/-- A session that goes on. -/
def Session.touch (s : Session) (c : Call) (uuid : Fin (2 ^ 128)) (timeNs : ℕ) : Session :=
  { s with
    sessionId := if s.sessionId = [] then uuidText uuid else s.sessionId
    sessionStartedNs := if s.sessionStartedNs = 0 then timeNs else s.sessionStartedNs
    key := c.client.key
    instanceId := if c.client.instanceId ≠ [] then c.client.instanceId else s.instanceId
    lastSeen := c.now }

/-- The session `coordinate_client` goes on with, and the one it replaces. -/
structure Opened where
  session : Session
  stale : Option Session

/-- The first section of `coordinate_client`. -/
def openSession (c : Call) (uuid : Fin (2 ^ 128)) (timeNs : ℕ) (st : Store) : Opened × Store :=
  let existing := st.sessions.get? c.client.ip
  let opened : Opened := match existing with
    | some s => if isNewSession c existing then ⟨newSession c uuid timeNs, some s⟩
      else ⟨s.touch c uuid timeNs, none⟩
    | none => ⟨newSession c uuid timeNs, none⟩
  (opened, { st with sessions := st.sessions.set c.client.ip opened.session })

/-- `offer_fingerprint`. -/
def offerFingerprint (client : Peer) (lanEndpoint : Text) (candidates : List Candidate) (server : Peer)
    (sessionId : Text) : Text :=
  ['|'].intercalate [sessionId, client.key, client.instanceId, client.endpoint, lanEndpoint,
    (Json.arr (candidates.map Candidate.toJson)).dumps, server.key, server.endpoint]

/-- An offer to push. -/
structure Job where
  server : ListedPeer
  fingerprint : Text

/-- The offer for a server. -/
def Call.job (c : Call) (sessionId : Text) (server : ListedPeer) : Job :=
  ⟨server, offerFingerprint c.client.toPeer c.lanEndpoint c.candidates server.toPeer sessionId⟩

/-- The condition under which an offer is pushed. -/
def Call.due (c : Call) (s : Session) (j : Job) : Bool :=
  c.force || decide (s.fingerprints.get? j.server.ip ≠ some j.fingerprint) ||
    decide (offerRefresh ≤ c.now - (s.lastPush.get? j.server.ip).getD 0)

/-- `pending`. -/
def Call.pending (c : Call) (s : Session) : List Job :=
  (c.servers.map (c.job s.sessionId)).filter (c.due s)

/-- The payload of the offer for a server. -/
def Call.payload (c : Call) (s : Session) (server : ListedPeer) (now : ℤ) : Except Raised OfferBody :=
  pushOffer server.toPeer c.client.toPeer c.lanEndpoint c.candidates s.sessionId s.sessionStartedNs now

/-- An entry of `results`: an offer the server accepted, and its reply. -/
structure Reply where
  fingerprint : Text
  info : Json
  payload : OfferBody

/-- The record of a reply in its session. -/
def Session.record (s : Session) (serverIp : Text) (r : Reply) (now : ℚ) : Session :=
  { s with
    lastPush := s.lastPush.set serverIp now
    fingerprints := s.fingerprints.set serverIp r.fingerprint
    accepted := s.accepted.set serverIp r.payload }

/-- The LAN address in a reply; an error that is not caught ends the call. -/
def learnAddress (serverIp : Text) (info : Json) (now : ℚ) : Section Unit :=
  match validateAnnouncement info with
  | .ok a => .modify (recordCandidate serverIp a now)
  | .error e => if isBadRequest e then return () else .raise e

/-- The candidates in a reply. -/
def learnCandidates (serverIp : Text) (info : Json) (now : ℚ) : Section Unit :=
  match announcedCandidates info with
  | .ok candidates => .modify (recordNodeCandidates serverIp candidates now)
  | .error e => if e.isTypeOrValueError then return () else .raise e

/-- One turn of the last loop of `coordinate_client`. -/
def recordReply (clientIp : Text) (now : ℚ) (serverIp : Text) (r : Reply) : Section Unit := do
  .modify fun st => { st with sessions := st.sessions.mapVals fun ip s =>
    if ip = clientIp then s.record serverIp r now else s }
  learnAddress serverIp r.info now
  learnCandidates serverIp r.info now

/-- The last loop of `coordinate_client`. -/
def recordReplies (clientIp : Text) (now : ℚ) : List (Text × Reply) → Section Unit
  | [] => return ()
  | (serverIp, r) :: rest => do
    recordReply clientIp now serverIp r
    recordReplies clientIp now rest

/-- The last section of `coordinate_client`. -/
def closeCall (c : Call) (sessionId : Text) (results : Dict Text Reply) : Section Unit := do
  let st ← .get
  match st.sessions.get? c.client.ip with
  | none => return ()
  | some s =>
    if s.sessionId ≠ sessionId then return ()
    else
      .modify fun st => { st with sessions := st.sessions.set c.client.ip { s with lastSeen := c.now } }
      recordReplies c.client.ip c.now results.entries

/-- `record_push_result`; the log is left out. -/
def recordPushResult (serverIp : Text) (ok : Bool) (error : Text) (now : ℚ) (st : Store) : Store :=
  let status := (st.pushStatus.get? serverIp).getD ⟨none, 0, 0, [], 0, 0⟩
  let status : PushStatus :=
    if ok then
      { status with ok := some true, lastSuccess := wholeSeconds now, lastErrorMessage := [],
                    consecutiveFailures := 0 }
    else
      { status with
        ok := some false, lastError := wholeSeconds now, lastErrorMessage := error.take 160
        consecutiveFailures := status.consecutiveFailures + 1
        lastErrorLog :=
          if status.consecutiveFailures = 0 ∨ 300 ≤ now - status.lastErrorLog then now
          else status.lastErrorLog }
  { st with pushStatus := st.pushStatus.set serverIp status }

/-! ### Closing a session -/

/-- The candidates of a node are dropped. -/
def dropCandidates (ip : Text) (st : Store) : Store :=
  { st with lan := st.lan.erase ip, node := st.node.erase ip }

/-- Without a session the candidates of the servers are dropped too. -/
def dropServers (registry : RegistryFile) : Section Unit := do
  let st ← .get
  if st.sessions.entries = [] then
    let servers ← .ofExcept (loadRoleRegistry registry)
    .modify fun st => servers.foldl (fun st ip => dropCandidates ip st) st

/-- The section of `disconnect_client`. -/
def popSession (ip : Text) (registry : RegistryFile) : Section (Option Session) := do
  let st ← .get
  .modify fun st => dropCandidates ip { st with sessions := st.sessions.erase ip }
  dropServers registry
  return st.sessions.get? ip

/-- A session that has not been seen for too long. -/
def Session.expired (s : Session) (now : ℚ) : Bool := decide (sessionTtl < now - s.lastSeen)

/-- The section of `session_reaper`. -/
def reap (now : ℚ) (registry : RegistryFile) : Section (List Session) := do
  let st ← .get
  let expired := st.sessions.entries.filter fun e => e.2.expired now
  .modify fun st => expired.foldl (fun st e =>
    dropCandidates e.1 { st with sessions := st.sessions.erase e.1 }) st
  dropServers registry
  return expired.map Prod.snd

/-- The servers `push_remove` notifies. -/
def removeTargets (session : Session) (registry : RegistryFile) : Except Raised (List Text) :=
  (loadRoleRegistry registry).map fun servers => servers.filter fun ip => decide (ip ≠ session.ip)

/-! ### What is published -/

/-- The entries of active nodes that are not too old. -/
def keepRecent {ν : Type} (seen : ν → ℚ) (active : List Text) (now : ℚ) (d : Dict Text ν) : Dict Text ν :=
  d.filter fun ip e => decide (ip ∈ active ∧ now - seen e ≤ announceTtl)

/-- The purge of `peer_payload`. -/
def purge (active : List Text) (now : ℚ) (st : Store) : Store :=
  { st with lan := keepRecent LanEntry.seen active now st.lan
            node := keepRecent NodeEntry.seen active now st.node }

/-- A peer as `peer_payload` publishes it. -/
structure PublishedPeer where
  peer : ListedPeer
  lanEndpoint : Text
  lanSeen : ℤ
  instanceId : Text
  candidates : List Candidate

/-- The candidates published for a peer. -/
def publishedCandidates (endpoint : Text) (lan : Option LanEntry) (node : Option NodeEntry) : List Candidate :=
  let legacyLan := (lan.bind fun e => lanCandidate e.announcement.lanIp e.announcement.listenPort).toList
  let stored := (node.map NodeEntry.candidates).getD []
  let predictions :=
    if stored.any fun c => decide (c.type = .mapped4) then [] else predictedCandidates endpoint
  mergeCandidates [legacyLan, stored, (observedCandidate endpoint).toList, predictions]

/-- The fields `peer_payload` adds to a peer. -/
def publishPeer (st : Store) (now : ℚ) (p : ListedPeer) : PublishedPeer :=
  let lan := st.lan.get? p.ip
  { peer := p
    lanEndpoint := (lan.map fun e => e.announcement.lanEndpoint).getD []
    lanSeen := (lan.map fun e => wholeSeconds e.seen).getD 0
    instanceId := match st.sessions.get? p.ip with
      | some s => if now - s.lastSeen ≤ sessionTtl then s.instanceId else []
      | none => []
    candidates := publishedCandidates p.endpoint lan (st.node.get? p.ip) }

/-- `peer_payload`. -/
def peerPayload (peers : List ListedPeer) (now : ℚ) (st : Store) : List PublishedPeer × Store :=
  let st := purge (peers.map fun p => p.ip) now st
  (peers.map (publishPeer st now), st)

end Coordinator
