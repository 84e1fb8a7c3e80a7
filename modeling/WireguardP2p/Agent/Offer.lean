import WireguardP2p.Agent.State

/-! `p2p_agent.py`: `handle_offer`. `readOffer` is what happens before STATE_LOCK is taken,
    `offerSection` what happens under it, in the phases of the source: the check of the session, the
    replacement of the entry, the control fields, a changed candidate signature, a WireGuard peer that
    holds the route, the launch of a probe. -/

namespace Agent
open Ipaddress Python Net Candidates

/-- `max(a, b)`. -/
def pyMax (a b : PyFloat) : PyFloat := if a.lt b then b else a

/-- `min(a, b)`. -/
def pyMin (a b : PyFloat) : PyFloat := if b.lt a then b else a

/-- `min(max(requested_expiry, now + 30), now + 180)`. -/
def clampLease (requested : PyFloat) (now : Time) : PyFloat :=
  pyMin (pyMax requested (.fin (now + 30))) (.fin (now + 180))

/-- An offer that passed the checks. -/
structure Offer where
  key : PublicKey
  peerIp : Text
  sessionId : Text
  sessionStartedNs : ℤ
  peerInstanceId : Text
  candidates : List Candidate
  requestedExpiry : PyFloat
  controller : Controller
  now : Time
  peerIp_ne : peerIp ≠ []
  started_pos : 0 < sessionStartedNs
  candidates_ne : candidates ≠ []

/-- The lease an offer is given. -/
def Offer.leaseExpires (o : Offer) : PyFloat := clampLease o.requestedExpiry o.now

/-- What `handle_offer` reads outside STATE_LOCK. -/
structure OfferEnv where
  now : Time
  nowNs : ℤ
  listenAddress : Text
  /-- `local_ipv4()`. -/
  localIpv4 : Except Raised Text

/-- The endpoint of the first `lan4` entry of the list, empty if there is none. -/
def peerLanEndpoint : List Json → Json
  | [] => .str []
  | .obj fields :: rest =>
    match Json.lookup "type" fields with
    | some (.str t) =>
      if t = CandidateType.lan4.name.toList then (Json.lookup "endpoint" fields).getD (.str [])
      else peerLanEndpoint rest
    | _ => peerLanEndpoint rest
  | _ :: rest => peerLanEndpoint rest

/-- The endpoint type after the test for a common private subnet. -/
def offerEndpointType (env : OfferEnv) (endpointType candidates : Json) : Except Raised Json :=
  if isLan endpointType then .ok endpointType
  else do
    let items := match candidates with
      | .arr items => items
      | _ => []
    if samePrivateSubnet (← env.localIpv4) (peerLanEndpoint items) then .ok (.str "LAN".toList)
    else .ok endpointType

/-- `handle_offer` up to STATE_LOCK. -/
def readOffer (env : OfferEnv) (data : Json) (controller : Controller) : Except Raised Offer := do
  let key ← validatePublicKey (← data.item "peer_key")
  let peerIp ← validatePeerIp env.listenAddress (← data.item "peer_ip")
  let sessionId ← validateSessionId (← data.item "session_id")
  let sessionStartedNs ← validateSessionStartedNs env.nowNs (← data.item "session_started_ns")
  let peerInstanceId ← validatePeerInstanceId (← data.get "peer_instance_id")
  let listed := (← data.get "candidates").getD (.arr [])
  let advertised ← validateCandidates listed
  let legacyEndpoint ← match ← data.get "endpoint" with
    | some endpoint => if endpoint.truthy then validateEndpoint endpoint else .ok []
    | none => .ok []
  let endpointType ← offerEndpointType env ((← data.get "endpoint_type").getD (.str "WAN".toList)) listed
  let candidates ← selectProbeCandidates (advertised.map Candidate.toJson) legacyEndpoint endpointType true
  if hne : candidates = [] then .error (.valueError "peer endpoint unavailable")
  else do
    let requested ← match ← data.get "lease_expires" with
      | some lease => toFloat lease
      | none => .ok (.fin (env.now + 120))
    .ok { key, peerIp, sessionId, sessionStartedNs, peerInstanceId, candidates,
          requestedExpiry := requested, controller, now := env.now,
          peerIp_ne := peerIp.2, started_pos := sessionStartedNs.2, candidates_ne := hne }

/-- The outcomes of the calls under STATE_LOCK; at most one of the `wg set` of the source is reached. -/
structure OfferCalls where
  query : Option Raised
  remove : Outcome
  signatureSave : Bool
  directSave : Bool
  finalSave : Bool
  deriving DecidableEq

/-- Every call succeeds. -/
def OfferCalls.succeed : OfferCalls := ⟨none, .done, true, true, true⟩

/-- What the check of the session finds. -/
inductive SessionCheck
  | current
  | stale
  | startChanged
  deriving DecidableEq

/-- Delayed sessions are rejected before an instance change can replace the entry. -/
def sessionCheck (state : Option PeerState) (o : Offer) : SessionCheck :=
  match state with
  | none => .current
  | some s =>
    if s.sessionId ≠ o.sessionId then
      if s.sessionStartedNs ≠ 0 ∧ o.sessionStartedNs ≤ s.sessionStartedNs then .stale else .current
    else if s.sessionStartedNs ≠ 0 ∧ s.sessionStartedNs ≠ o.sessionStartedNs then .startChanged
    else .current

/-- `instance_changed`. -/
def instanceChanged (s : PeerState) (o : Offer) : Bool :=
  o.peerInstanceId != [] && s.peerInstanceId != o.peerInstanceId

/-- `new_peer_state`, before its generation. -/
def newPeerState (o : Offer) : PeerState where
  controller := o.controller
  sessionId := o.sessionId
  sessionStartedNs := o.sessionStartedNs
  peerInstanceId := o.peerInstanceId
  ip := o.peerIp
  mode := .idle
  endpoint := []
  endpointType := none
  selectedType := none
  candidates := []
  candidateSignature := []
  started := 0
  baselineHandshake := 0
  failures := 0
  retryAfter := 0
  generation := 0
  workerRunning := false
  controlExpired := false
  leaseExpires := .fin 0
  promoted := 0

/-- `STATES[key] = new_peer_state(...)`. -/
def createEntry (o : Offer) : Section Unit := Raising.modify fun sl =>
  let g := sl.nextGeneration 0
  { sl with entry := some { newPeerState o with generation := g }, lastGeneration := g }

/-- The old worker loses the entry. -/
def retire : Section Unit := do
  renew
  update fun s => { s with workerRunning := false }

/-- The three ways the entry can be replaced. -/
def replaceEntry (o : Offer) (calls : OfferCalls) : Section Unit := do
  match ← entry with
  | none => createEntry o
  | some s =>
    if instanceChanged s o then
      retire
      removeIfPresent calls.remove
      createEntry o
    else if s.sessionId ≠ o.sessionId then
      let preserveDirect := directPeerHealthy (← peer) o.peerIp o.now
      retire
      if preserveDirect then
        let p ← peer
        update fun s => { s with mode := .direct, endpoint := peerEndpoint p, failures := 0,
                                 retryAfter := 0 }
      else
        removeIfPresent calls.remove
        createEntry o

/-- The control fields of the offer. -/
def PeerState.refresh (o : Offer) (s : PeerState) : PeerState :=
  { s with
    sessionId := o.sessionId, sessionStartedNs := o.sessionStartedNs,
    peerInstanceId := if o.peerInstanceId = [] then s.peerInstanceId else o.peerInstanceId,
    ip := o.peerIp, controller := o.controller, leaseExpires := o.leaseExpires,
    controlExpired := false, candidates := o.candidates }

def refreshEntry (o : Offer) : Section Unit := update (PeerState.refresh o)

/-- The path of a healthy Direct under a changed signature. -/
def keepDirect (o : Offer) (p : Option WgPeer) (s : PeerState) : PeerState :=
  { s with
    mode := .direct, endpoint := peerEndpoint p,
    selectedType := candidateTypeForEndpoint o.candidates (peerEndpoint p) <|>
      observedTypeForEndpoint (peerEndpoint p) <|> s.selectedType }

/-- The `if signature_changed` block. -/
def followSignature (o : Offer) (calls : OfferCalls) : Section Unit := do
  if let some s ← entry then
    if s.candidateSignature ≠ candidateSignature o.candidates then
      update fun s => { s with candidateSignature := candidateSignature o.candidates }
      renew
      update fun s => { s with failures := 0, retryAfter := 0, workerRunning := false }
      let p ← peer
      if holdsRoute p o.peerIp && freshHandshake p o.now &&
          candidateEndpointExists o.candidates (peerEndpoint p) then
        update (keepDirect o p)
        saveState calls.signatureSave
      else
        removeIfPresent calls.remove
        update fun s => { s with mode := .idle, endpoint := [], selectedType := none, started := 0 }

/-- The `if direct` block; the route is gone if the peer was removed above. -/
def followDirect (o : Offer) (calls : OfferCalls) : Section Unit := do
  let p ← peer
  if holdsRoute p o.peerIp then
    if freshHandshake p o.now then
      update fun s => { s with
        mode := .direct, endpoint := peerEndpoint p,
        selectedType := s.selectedType <|>
          candidateTypeForEndpoint o.candidates (peerEndpoint p) <|>
            observedTypeForEndpoint (peerEndpoint p),
        workerRunning := false }
      saveState calls.directSave
    else
      wgSet calls.remove .remove
      renew
      update fun s => { s with mode := .idle, endpoint := [], selectedType := none, retryAfter := 0,
                               workerRunning := false }

/-- `not direct and now >= retry_after and not worker_running`. -/
def probeDue (p : Option WgPeer) (ip : Text) (now : Time) (s : PeerState) : Bool :=
  !holdsRoute p ip && decide (s.retryAfter ≤ now) && !s.workerRunning

/-- Mark the entry for a probe and return its new generation. -/
def startProbe : Section ℕ := do
  renew
  update fun s => { s with workerRunning := true, mode := .probe }
  return ((← entry).map PeerState.generation).getD 0

/-- The last block: the generation to launch a probe with, if one is due. -/
def launchIfDue (o : Offer) : Section (Option ℕ) := do
  let p ← peer
  match ← entry with
  | none => return none
  | some s => if probeDue p o.peerIp o.now s then return some (← startProbe) else return none

/-- What `handle_offer` does to an entry whose session is found current. -/
def prepareOffer (o : Offer) (calls : OfferCalls) : Section (Option ℕ) := do
  replaceEntry o calls
  refreshEntry o
  followSignature o calls
  followDirect o calls
  launchIfDue o

/-- The same, and the `save_state` that ends it. -/
def acceptOffer (o : Offer) (calls : OfferCalls) : Section (Option ℕ) := do
  let launch ← prepareOffer o calls
  saveState calls.finalSave
  return launch

/-- What an offer is answered with, up to the description of the node. -/
inductive OfferReply
  | accepted (launch : Option ℕ)
  | staleSession
  deriving DecidableEq

/-- `handle_offer` under STATE_LOCK. -/
def offerSection (o : Offer) (calls : OfferCalls) : Section OfferReply := do
  queryPeers calls.query
  match sessionCheck (← entry) o with
  | .stale => return .staleSession
  | .startChanged => Raising.raise (.valueError "session start changed for active session")
  | .current => return .accepted (← acceptOffer o calls)

end Agent
