import WireguardP2p.Candidates.Policy

/-! `candidate.go`: the candidates a client finds for itself. A `net.IP` is an IPv4 address, also when
    it is written as an IPv4-mapped IPv6 address, or an IPv6 address; it has no zone. -/

namespace Client
open Ipaddress Python Net Candidates

/-- `net.IP`. -/
inductive IP
  | v4 (ip : Fin (2 ^ 32))
  | v6 (ip : Fin (2 ^ 128))
  deriving DecidableEq

def IP.toAddress : IP → IpAddress
  | v4 ip => .v4 ip
  | v6 ip => .v6 ip none

/-- `ip.String()`; both languages print IPv6 addresses the same way. -/
def IP.text (ip : IP) : Text := ip.toAddress.compressed

/-- `net.ParseIP`: the texts of `ip_address` without a zone. -/
def parseIP (t : Text) : Option IP :=
  match ipAddress t with
  | some (.v4 ip) => some (.v4 ip)
  | some (.v6 ip none) =>
    match ipv4Mapped ip with
    | some v4 => some (.v4 (Fin.ofNat _ v4))
    | none => some (.v6 ip)
  | _ => none

/-- `ip.IsPrivate()`. -/
def IP.isPrivate : IP → Bool
  | v4 ip => (net4 [10, 0, 0, 0] 8).contains ip || (net4 [172, 16, 0, 0] 12).contains ip ||
      (net4 [192, 168, 0, 0] 16).contains ip
  | v6 ip => (net6 [0xfc00] 7).contains ip

/-- `ip.IsGlobalUnicast()`. -/
def IP.isGlobalUnicast : IP → Bool
  | v4 ip => ip.val != 2 ^ 32 - 1 && ip.val != 0 && !(net4 [127, 0, 0, 0] 8).contains ip &&
      !(net4 [224, 0, 0, 0] 4).contains ip && !(net4 [169, 254, 0, 0] 16).contains ip
  | v6 ip => ip.val != 0 && ip.val != 1 && !(net6 [0xff00] 8).contains ip &&
      !(net6 [0xfe80] 10).contains ip

/-- `nonHostIPv6CIDRs`. -/
def nonHostIPv6CIDRs : List (Network 128) :=
  [net6 [0x64, 0xff9b] 96, net6 [0x64, 0xff9b, 1] 48, net6 [0x100] 64, net6 [0x2001] 32,
   net6 [0x2001, 2] 48, net6 [0x2001, 3] 32, net6 [0x2001, 4, 0x112] 48, net6 [0x2001, 0x10] 28,
   net6 [0x2001, 0x20] 28, net6 [0x2001, 0xdb8] 32, net6 [0x2002] 16, net6 [0x3fff] 20]

/-- `isUsableGlobalIPv6`; loopback and link-local addresses are no global unicast addresses. -/
def isUsableGlobalIPv6 : IP → Bool
  | .v4 _ => false
  | .v6 ip => (IP.v6 ip).isGlobalUnicast && !(IP.v6 ip).isPrivate &&
      !nonHostIPv6CIDRs.any (·.contains ip)

/-- `net.Interface` with its addresses. -/
structure NetInterface where
  up : Bool
  loopback : Bool
  addrs : List IP

/-- `globalIPv6Addresses`. -/
def globalIPv6Addresses (interfaces : List NetInterface) : List IP :=
  let usable := (interfaces.filter fun i => i.up && !i.loopback).flatMap NetInterface.addrs
  keepFirst IP.text [] (usable.filter isUsableGlobalIPv6)

/-- `preferredGlobalIPv6Address`: the source addresses the two targets give, `none` on an error. -/
def preferredGlobalIPv6Address (sources : List (Option IP)) : Option IP :=
  (sources.filterMap id).find? isUsableGlobalIPv6

/-- A candidate the client found itself; `net.JoinHostPort` brackets a host with a colon. -/
def ownCandidate (type : CandidateType) (family : Family) (ip : IP) (port : ℕ) (priority : ℤ) :
    Candidate where
  type := type
  family := family
  endpoint := formatEndpoint ip.toAddress port
  priority := priority
  verified := false

theorem ownCandidate_endpoint_ne_nil (type : CandidateType) (family : Family) (ip : IP) (port : ℕ)
    (priority : ℤ) : (ownCandidate type family ip port priority).endpoint ≠ [] :=
  formatEndpoint_ne_nil ip.toAddress port

/-- The `host6` candidate of an address. -/
def host6Candidate (preferred : Option IP) (port : ℕ) (ip : IP) : Candidate :=
  ownCandidate .host6 .udp6 ip port (if preferred = some ip then 910 else 900)

/-- The `lan4` candidate of a private IPv4 address. -/
def lan4Candidate (port : ℕ) (lanIP : Text) : Option Candidate :=
  match parseIP lanIP with
  | some (.v4 ip) => if (IP.v4 ip).isPrivate then some (ownCandidate .lan4 .udp4 (.v4 ip) port 1000) else none
  | _ => none

/-- `dedupeCandidates`. -/
def dedupeCandidates (input : List Candidate) : List Candidate :=
  keepFirst Candidate.key [] (input.filter fun c => decide (c.endpoint ≠ []))

/-- `gatherLocalCandidates`. -/
def gatherLocalCandidates (listenPort : ℕ) (lanIP : Text) (interfaces : List NetInterface)
    (sources : List (Option IP)) : List Candidate :=
  let preferred := preferredGlobalIPv6Address sources
  let hosts := (globalIPv6Addresses interfaces).map (host6Candidate preferred listenPort)
  (dedupeCandidates ((lan4Candidate listenPort lanIP).toList ++ hosts)).insertionSort
    Candidate.beforeByEndpoint

/-- `json.Marshal`; `verified` is left out when false. -/
def marshal (c : Candidate) : Json :=
  .obj ([("type".toList, .str c.type.name.toList), ("family".toList, .str c.family.name.toList),
    ("endpoint".toList, .str c.endpoint), ("priority".toList, .int c.priority)] ++
      if c.verified then [("verified".toList, .bool true)] else [])

/-- A reader of the fields sees no difference to the full dictionary. -/
theorem validateCandidate_marshal (p : Policy) (c : Candidate) :
    p.validateCandidate (marshal c) = p.validateCandidate c.toJson := by
  obtain ⟨type, family, endpoint, priority, verified⟩ := c
  cases verified <;> rfl

end Client
