import WireguardP2p.Client.Candidate
import WireguardP2p.Candidates.Selection

/-! `candidate.go`: which of the candidates a server advertises the client probes, and what an endpoint
    that WireGuard has learned is. -/

namespace Client
open Ipaddress Python Net Candidates

/-- `maxProbeCandidates`. -/
def maxProbeCandidates : ℕ := 5

/-- A `Candidate` as the coordinator sends it: any text may stand for the type. -/
structure RawCandidate where
  type : Text
  endpoint : Text
  priority : ℤ
  verified : Bool

/-- `ip.To4() != nil`. -/
def IP.isV4 : IP → Bool
  | v4 _ => true
  | v6 _ => false

/-- `net.SplitHostPort`; `none` is an error. -/
def splitHostPort (hostport : Text) : Option (Text × Text) :=
  if ':' ∉ hostport then none
  else
    let (before, port) := rsplitColon hostport
    if hostport.head? = some '[' then
      let closing := hostport.idxOf ']'
      -- the last colon stands right behind the first closing bracket
      if closing + 1 ≠ before.length ∨ '[' ∈ hostport.drop 1 ∨ ']' ∈ hostport.drop (closing + 1) then none
      else some ((hostport.take closing).drop 1, port)
    else if ':' ∈ before ∨ '[' ∈ hostport ∨ ']' ∈ hostport then none
    else some (before, port)

/-- `strings.Trim(host, "[]")`. -/
def trimBrackets (host : Text) : Text :=
  (host.dropWhile fun c => c == '[' || c == ']').rdropWhile fun c => c == '[' || c == ']'

/-- `net.ParseIP(strings.Trim(host, "[]"))` of an endpoint's host, with the text of the port. -/
def endpointAddress (endpoint : Text) : Option (IP × Text) :=
  (splitHostPort endpoint).bind fun (host, port) => (parseIP (trimBrackets host)).map fun ip => (ip, port)

/-- `strconv.Atoi`; what does not fit an `int` is no port either. -/
def atoi : Text → Option ℤ
  | '+' :: digits => (Numeral.read 10 digits).map Int.ofNat
  | '-' :: digits => (Numeral.read 10 digits).map fun n => -(n : ℤ)
  | digits => (Numeral.read 10 digits).map Int.ofNat

/-- The type of this name. -/
def candidateTypeNamed (name : Text) : Option CandidateType :=
  CandidateType.all.find? fun t => decide (t.name.toList = name)

/-- `candidateDefaultPriority`. -/
def candidateDefaultPriority : CandidateType → ℤ
  | .lan4 => 1000
  | .host6 => 900
  | .observed6 => 850
  | .reflexive6 => 825
  | .mapped4 => 800
  | .observed4 => 700
  | .predicted4 => 500

/-- The addresses a type may have. -/
def acceptsAddress : CandidateType → IP → Bool
  | .lan4, ip => ip.isV4 && ip.isPrivate
  | .host6, ip | .observed6, ip | .reflexive6, ip => isUsableGlobalIPv6 ip
  | .mapped4, ip | .observed4, ip | .predicted4, ip => ip.isV4

/-- `normalizeCandidate`. -/
def normalizeCandidate (c : RawCandidate) : Option Candidate := do
  let (ip, portText) ← endpointAddress c.endpoint
  let port ← atoi portText
  if port < 1 ∨ 65535 < port then none
  else
    let type ← candidateTypeNamed c.type
    if acceptsAddress type ip then
      some { type, family := if ip.isV4 then .udp4 else .udp6
             endpoint := formatEndpoint ip.toAddress port.toNat
             priority := if c.priority ≤ 0 then candidateDefaultPriority type else c.priority
             verified := c.verified }
    else none

/-- `samePrivateSubnet`: both addresses are private and the first three octets agree. -/
def samePrivateSubnet (ourLanIP peerLanEndpoint : Text) : Bool :=
  match parseIP ourLanIP, endpointAddress peerLanEndpoint with
  | some (.v4 ours), some (.v4 peer, _) =>
    (IP.v4 ours).isPrivate && (IP.v4 peer).isPrivate && ours.val / 2 ^ 8 == peer.val / 2 ^ 8
  | _, _ => false

/-- `sortCandidates`. -/
def sortCandidates (cs : List Candidate) : List Candidate := cs.insertionSort Candidate.beforeByEndpoint

/-- `dedupeProbeCandidates`. -/
def dedupeProbeCandidates (input : List Candidate) : List Candidate :=
  keepFirst Candidate.endpoint [] ((sortCandidates input).filter fun c => decide (c.endpoint ≠ []))

/-- `candidateSignature`. -/
def candidateSignature (cs : List Candidate) : Text := Candidates.candidateSignature cs

/-- `candidateTypeForEndpoint`; `none` is the empty text. -/
def candidateTypeForEndpoint (cs : List Candidate) (endpoint : Text) : Option CandidateType :=
  Candidates.candidateTypeForEndpoint cs endpoint

/-- `candidateEndpointExists`. -/
def candidateEndpointExists (cs : List Candidate) (endpoint : Text) : Bool :=
  (candidateTypeForEndpoint cs endpoint).isSome

/-- `candidateListHasType`. -/
def candidateListHasType (cs : List Candidate) (type : CandidateType) : Bool :=
  cs.any fun c => decide (c.type = type)

/-- `observedTypeForEndpoint`; `none` is the empty text. -/
def observedTypeForEndpoint (endpoint : Text) : Option CandidateType :=
  match endpointAddress endpoint with
  | none => none
  | some (.v4 ip, _) =>
    if (IP.v4 ip).isGlobalUnicast && !(IP.v4 ip).isPrivate then some .observed4 else none
  | some (ip, _) => if isUsableGlobalIPv6 ip then some .observed6 else none

/-- The loop over the advertised candidates. -/
def advertisedCandidates (advertised : List RawCandidate) (allowLAN allowIPv6 : Bool) : List Candidate :=
  (advertised.filter fun c =>
    (allowIPv6 || c.type ∉ ["host6".toList, "observed6".toList, "reflexive6".toList]) &&
      (allowLAN || c.type ≠ "lan4".toList)).filterMap normalizeCandidate

/-- The five best, with the observed endpoint in the last place if it is not among them. -/
def boundProbeCandidates (all : List Candidate) : List Candidate :=
  if all.length ≤ maxProbeCandidates then all
  else
    let selected := all.take maxProbeCandidates
    match all.find? fun c => decide (c.type = .observed4) with
    | some observed =>
      if candidateTypeForEndpoint selected observed.endpoint = none then
        sortCandidates (selected.dropLast ++ [observed])
      else selected
    | none => selected

/-- `buildProbeCandidates`. -/
def buildProbeCandidates (advertised : List RawCandidate) (publicEndpoint lanEndpoint : Text)
    (allowLAN allowIPv6 : Bool) : List Candidate :=
  let lan :=
    if allowLAN && lanEndpoint ≠ [] then
      normalizeCandidate ⟨"lan4".toList, lanEndpoint, candidateDefaultPriority .lan4, false⟩
    else none
  let observed :=
    if publicEndpoint ≠ [] then
      normalizeCandidate ⟨"observed4".toList, publicEndpoint, candidateDefaultPriority .observed4, true⟩
    else none
  boundProbeCandidates (sortCandidates (dedupeProbeCandidates
    (advertisedCandidates advertised allowLAN allowIPv6 ++ lan.toList ++ observed.toList)))

end Client
