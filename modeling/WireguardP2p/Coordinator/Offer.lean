import WireguardP2p.Coordinator.Announce

/-! `peers_api.py`: the candidates the coordinator adds to those a node announced, and the offer it
    pushes to a server. -/

namespace Coordinator
open Ipaddress Python Net Candidates

/-- `observed_candidate`. -/
def observedCandidate (endpoint : Text) : Option Candidate :=
  match parseEndpoint (.str endpoint) with
  | .error _ => none
  | .ok (normalized, address, _) =>
    if address.version ≠ 4 then none
    else some { type := .observed4, family := .udp4, endpoint := normalized, priority := 700,
                verified := true }

/-- `PREDICTED4_DELTAS`. -/
def predicted4Deltas : List ℤ := [-2, -1, 1, 2]

/-- The candidate `delta` ports away, if that is a port. -/
def predictedCandidate (address : IpAddress) (port : ℕ) (delta : ℤ) : Option Candidate :=
  let candidatePort : ℤ := port + delta
  if 1 ≤ candidatePort ∧ candidatePort ≤ 65535 then
    some { type := .predicted4, family := .udp4,
           endpoint := address.compressed ++ ':' :: Numeral.text 10 candidatePort.toNat,
           priority := 500, verified := false }
  else none

/-- `predicted_candidates`. -/
def predictedCandidates (endpoint : Text) : List Candidate :=
  match parseEndpoint (.str endpoint) with
  | .error _ => []
  | .ok (_, address, port) =>
    if address.version ≠ 4 ∨ !address.isGlobal ∨ address.isPrivate then []
    else predicted4Deltas.filterMap (predictedCandidate address port)

/-- `merge_candidates`; a candidate without an endpoint is passed over. -/
def mergeCandidates (groups : List (List Candidate)) : List Candidate :=
  (sortByPriority (keepFirst Candidate.key []
    (groups.flatten.filter fun c => decide (c.endpoint ≠ [])))).take maxCandidates

/-- A peer as `wg_peers` lists it, with the fields `push_offer` reads. -/
structure Peer where
  key : Text
  ip : Text
  endpoint : Text
  instanceId : Text

/-- The body of a `/offer` notification. -/
structure OfferBody where
  sessionId : Text
  sessionStartedNs : ℤ
  peerKey : Text
  peerIp : Text
  peerInstanceId : Text
  endpoint : Text
  endpointType : String
  candidates : List Candidate
  leaseExpires : ℤ

/-- `same_nat` in `push_offer`. -/
def sameNat (server client : Peer) : Bool := endpointIp server.endpoint == endpointIp client.endpoint

/-- The LAN candidate `push_offer` rebuilds from the announced LAN endpoint. -/
def legacyLan (clientLanEndpoint : Text) : List Candidate :=
  if clientLanEndpoint = [] then []
  else match parseEndpoint (.str clientLanEndpoint) with
    | .error _ => []
    | .ok (_, address, port) =>
      if address.version = 4 ∧ address.isPrivate then (lanCandidate address port).toList else []

/-- The merged list of `push_offer`. -/
def offerCandidates (client : Peer) (clientLanEndpoint : Text) (clientCandidates : List Candidate) :
    List Candidate :=
  let predictions :=
    if clientCandidates.any fun c => decide (c.type = .mapped4) then []
    else predictedCandidates client.endpoint
  mergeCandidates [legacyLan clientLanEndpoint, clientCandidates,
    (observedCandidate client.endpoint).toList, predictions]

/-- `push_offer`, up to sending; `SESSION_TTL` is 180. -/
def pushOffer (server client : Peer) (clientLanEndpoint : Text) (clientCandidates : List Candidate)
    (sessionId : Text) (sessionStartedNs now : ℤ) : Except Raised OfferBody :=
  let near := sameNat server client
  let candidate := if near then clientLanEndpoint else client.endpoint
  if candidate = [] then .error (.runtimeError "client endpoint unavailable")
  else .ok
    { sessionId, sessionStartedNs, peerKey := client.key, peerIp := client.ip,
      peerInstanceId := client.instanceId, endpoint := candidate,
      endpointType := if near then "LAN" else "WAN",
      candidates := offerCandidates client clientLanEndpoint clientCandidates,
      leaseExpires := now + 180 }

end Coordinator
