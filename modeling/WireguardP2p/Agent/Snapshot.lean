import WireguardP2p.Candidates.Gather

/-! `p2p_agent.py`: the candidate list the agent announces to the coordinator. -/

namespace Agent
open Ipaddress Python Net Candidates

/-- `REFLEXIVE6_TTL`. -/
def reflexive6Ttl : ℚ := 1800

/-- What the agent knows of the node it runs on. -/
structure LocalNode where
  /-- `local_ipv4()`: empty unless the address is private. -/
  lanIp : Text
  /-- `listen_port()`: zero when the interface has none. -/
  wgPort : ℕ
  surroundings : Surroundings
  reflexive6Address : Text
  reflexive6Updated : ℚ

/-- `current_reflexive6_candidate`. -/
def currentReflexive6Candidate (n : LocalNode) : Option Candidate :=
  if n.reflexive6Address = [] ∨ reflexive6Ttl < n.surroundings.now - n.reflexive6Updated then none
  else reflexive6Candidate n.reflexive6Address n.wgPort

/-- `local_candidate_snapshot`. -/
def localCandidateSnapshot (n : LocalNode) : Except Raised (Text × ℕ × List Candidate) :=
  if n.lanIp = [] ∨ n.wgPort = 0 then
    .error (.runtimeError "local WireGuard candidate is unavailable")
  else do
    let localCandidates ← gatherCandidates n.surroundings n.wgPort n.lanIp
    match currentReflexive6Candidate n with
    | none => .ok (n.lanIp, n.wgPort, localCandidates)
    | some reflexive =>
      .ok (n.lanIp, n.wgPort, (localCandidates ++ [reflexive]).insertionSort Candidate.beforeByEndpoint)

end Agent
