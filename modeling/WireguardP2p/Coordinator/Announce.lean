import WireguardP2p.Python.Uuid
import WireguardP2p.Candidates.Policy

/-! `peers_api.py`: what the coordinator checks in the body of `/announce`, `/sync` and `/connect`,
    and what it keeps of an accepted one. -/

namespace Coordinator
open Ipaddress Python Net Candidates

/-- `parse_endpoint`: the normal form, the address and the port. -/
def parseEndpoint (value : Json) : Except Raised (Text × IpAddress × ℕ) :=
  (readEndpoint value).map fun e => (formatEndpoint e.address e.port, e.address, e.port)

/-- `endpoint_ip`. -/
def endpointIp (endpoint : Text) : Text :=
  match readEndpoint (.str endpoint) with
  | .ok e => e.address.compressed
  | .error _ => []

/-- The addresses `validate_candidates` refuses to a type. -/
def refusal (type : CandidateType) (address : IpAddress) : Option String :=
  match type with
  | .lan4 =>
    if address.version ≠ 4 ∨ !address.isPrivate then some "lan4 candidate must be private IPv4" else none
  | .host6 | .reflexive6 =>
    if address.version ≠ 6 ∨ !address.isGlobal ∨ address.isPrivate ∨ address.isLinkLocal then
      some "host6 candidate must be global IPv6"
    else none
  | .mapped4 | .observed4 | .predicted4 =>
    if address.version ≠ 4 then some "IPv4 candidate has non-IPv4 endpoint" else none
  | .observed6 => none

def policy (allowObserved : Bool) : Policy where
  allowedTypes := [.lan4, .host6, .reflexive6, .mapped4] ++
    if allowObserved then [.observed4, .predicted4] else []
  refusal := refusal
  keepVerified := allowObserved

/-- `validate_candidates`. -/
def validateCandidates (values : Json) (allowObserved : Bool) : Except Raised (List Candidate) :=
  (policy allowObserved).validateCandidates values

/-- What `validate_announcement` returns. -/
structure Announcement where
  lanIp : IpAddress
  listenPort : ℕ
  lan_private : lanIp.version = 4 ∧ lanIp.isPrivate = true
  port_range : 1 ≤ listenPort ∧ listenPort ≤ 65535

/-- `validate_announcement`. -/
def validateAnnouncement (data : Json) : Except Raised Announcement := do
  let lanIp ← toIpAddress (← data.item "lan_ip")
  let listenPort ← toInt (← data.item "listen_port")
  if hlan : lanIp.version = 4 ∧ lanIp.isPrivate = true then
    if hport : 1 ≤ listenPort ∧ listenPort ≤ 65535 then
      .ok ⟨lanIp, listenPort.toNat, hlan, by omega⟩
    else .error (.valueError "invalid listen port")
  else .error (.valueError "LAN address must be private IPv4")

/-- `validate_instance_id`. -/
def validateInstanceId (value : Option Json) : Except Raised Text :=
  match value with
  | none => .ok []
  | some .null => .ok []
  | some (.str []) => .ok []
  | some v =>
    match instanceHex v with
    | some hex => .ok hex
    | none => .error (.valueError "invalid instance id")

/-- `lan_candidate` of an address and a port that passed their checks. -/
def lanCandidate (lanIp : IpAddress) (listenPort : ℕ) : Option Candidate :=
  if lanIp.version ≠ 4 ∨ !lanIp.isPrivate then none
  else some { type := .lan4, family := .udp4,
              endpoint := lanIp.compressed ++ ':' :: Numeral.text 10 listenPort, priority := 1000,
              verified := false }

/-- What `do_POST` knows of an announcing node once the body is accepted. -/
structure Accepted where
  announcement : Announcement
  instanceId : Text
  advertised : List Candidate

/-- The candidate list of a body: `data.get("candidates", [])`. -/
def bodyCandidates (data : Json) : Except Raised Json := do
  .ok ((← data.get "candidates").getD (.arr []))

/-- The checks of `do_POST` on a body, in order, up to `record_node_candidates`. -/
def acceptAnnouncement (data : Json) : Except Raised Accepted := do
  let announcement ← validateAnnouncement data
  let instanceId ← validateInstanceId (← data.get "instance_id")
  let advertised ← validateCandidates (← bodyCandidates data) false
  .ok { announcement, instanceId,
        advertised := if advertised = [] then
            (lanCandidate announcement.lanIp announcement.listenPort).toList
          else advertised }

/-- `"{}:{}".format(lan_ip, listen_port)`. -/
def Announcement.lanEndpoint (a : Announcement) : Text :=
  a.lanIp.compressed ++ ':' :: Numeral.text 10 a.listenPort

theorem Announcement.lanEndpoint_eq (a : Announcement) :
    a.lanEndpoint = formatEndpoint a.lanIp a.listenPort := by
  rw [formatEndpoint, if_neg (by rw [a.lan_private.1]; decide)]
  rfl

end Coordinator
