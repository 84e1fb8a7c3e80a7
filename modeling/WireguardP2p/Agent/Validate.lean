import WireguardP2p.Python.Uuid
import WireguardP2p.Candidates.Policy

/-! `p2p_agent.py`: the checks on the fields of a notification. -/

namespace Agent
open Ipaddress Python Net Candidates

/-- `VPS_ADDRESS`. -/
def vpsAddress : Text := "10.0.0.1".toList

/-- The letters of standard base 64. -/
def isBase64 (c : Char) : Bool :=
  ('A' ≤ c && c ≤ 'Z') || ('a' ≤ c && c ≤ 'z') || ('0' ≤ c && c ≤ '9') || c == '+' || c == '/'

/-- `b64decode(value, validate=True)` gives 32 bytes: 43 letters and one `=`. -/
def IsPublicKey (t : Text) : Prop :=
  t.length = 44 ∧ t.dropLast.all isBase64 = true ∧ t.getLast? = some '='

instance : DecidablePred IsPublicKey := fun t => inferInstanceAs
  (Decidable (t.length = 44 ∧ t.dropLast.all isBase64 = true ∧ t.getLast? = some '='))

/-- A WireGuard public key as text. -/
abbrev PublicKey := { t : Text // IsPublicKey t }

/-- `validate_public_key`. -/
def validatePublicKey : Json → Except Raised PublicKey
  | .str t => if h : IsPublicKey t then .ok ⟨t, h⟩ else .error (.valueError "invalid peer key")
  | _ => .error (.valueError "invalid peer key")

/-- `validate_peer_ip`, at the agent that listens on `listenAddress`. -/
def validatePeerIp (listenAddress : Text) (value : Json) : Except Raised { t : Text // t ≠ [] } := do
  let address ← toIpAddress value
  if address.version ≠ 4 ∨ !(net4 [10, 0, 0, 0] 24).contains address.toNat then
    .error (.valueError "invalid peer overlay IP")
  if address.compressed = vpsAddress ∨ address.compressed = listenAddress then
    .error (.valueError "peer is not P2P eligible")
  .ok ⟨address.compressed, compressed_ne_nil address⟩

/-- `validate_session_id`. -/
def validateSessionId : Json → Except Raised Text
  | .str t =>
    match parseUuid t with
    | none => .error (.valueError "invalid session id")
    | some parsed =>
      if t.map Char.toLower ≠ uuidText parsed then .error (.valueError "invalid session id")
      else .ok (uuidText parsed)
  | _ => .error (.valueError "invalid session id")

/-- `validate_session_started_ns`, at the time `nowNs`. -/
def validateSessionStartedNs (nowNs : ℤ) (value : Json) : Except Raised { n : ℤ // 0 < n } := do
  let started ← toInt value
  if h : started ≤ 0 then .error (.valueError "invalid session start")
  else if nowNs + 60000000000 < started then .error (.valueError "session start is in the future")
  else .ok ⟨started, by omega⟩

/-- The instance id in `handle_offer`: none when missing or empty. -/
def validatePeerInstanceId (value : Option Json) : Except Raised Text :=
  match value with
  | none => .ok []
  | some v =>
    if v.truthy then
      match instanceHex v with
      | some hex => .ok hex
      | none => .error (.valueError "invalid peer instance id")
    else .ok []

/-- `validate_endpoint`. -/
def validateEndpoint (value : Json) : Except Raised Text :=
  (readEndpoint value).map fun e => formatEndpoint e.address e.port

/-- The agent allows every type but `observed6` and leaves the addresses to `select_probe_candidates`.
    It splits and parses the normal form once more to find the family: the same address. -/
def policy : Policy where
  allowedTypes := [.lan4, .host6, .reflexive6, .mapped4, .observed4, .predicted4]
  refusal _ _ := none
  keepVerified := true

/-- `validate_candidates`. -/
def validateCandidates (values : Json) : Except Raised (List Candidate) :=
  policy.validateCandidates values

end Agent
