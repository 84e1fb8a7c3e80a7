import WireguardP2p.Client.State

/-! `reconcilePeers` up to its goroutines: which peers are servers to probe, and what one iteration of
    its loop does to the state of a server under `a.mu`. -/

namespace Client
open Ipaddress Python Net Candidates

/-- `serverInitiatorOwnsPair`; the bytes of two addresses compare as the addresses. -/
def serverInitiatorOwnsPair (localIP remoteIP : Text) : Bool :=
  match parseIP localIP, parseIP remoteIP with
  | some (.v4 ours), some (.v4 theirs) => decide (ours < theirs)
  | _, _ => false

/-- `endpointIP`. -/
def endpointIP (endpoint : Text) : Text :=
  match splitHostPort endpoint with
  | some (host, _) => trimBrackets host
  | none => []

/-- `serverInstanceChanged`. -/
def serverInstanceChanged (previous current : Text) : Bool :=
  decide (current ≠ [] ∧ previous ≠ [] ∧ previous ≠ current)

/-- What wraps around in an `int64`. -/
def int64 (n : ℤ) : ℤ := n.bmod (2 ^ 64)

/-- `time.Duration(now-latest)*time.Second > onlineMaxAge`. -/
def offline (now : ℕ) (latest : ℤ) : Bool :=
  decide (int64 (int64 (now - latest) * second) > onlineMaxAge * second)

/-- `currentServers`. -/
def currentServers (ours : ApiPeer) (ownKey : Text) (peers : List ApiPeer) : Dict Text Text :=
  peers.foldl (fun servers p =>
    if p.role ≠ "server".toList ∨ p.key = [] ∨ p.ip = [] ∨ p.key = ownKey then servers
    else if ours.role = "server".toList ∧ !serverInitiatorOwnsPair ours.ip p.ip then servers
    else servers.set p.key p.ip) .empty

/-- The local variables of a call of `reconcilePeers`. -/
structure Sync where
  ours : ApiPeer
  ourLAN : Text
  locals : Dict Text LocalPeer
  now : ℕ
  currentServers : Dict Text Text
  /-- The keys of `previousServers`. -/
  previous : List Text
  active : List Text

/-- The overlay address and the candidates of a peer, if it is a server that is probed. -/
def Sync.target (s : Sync) (p : ApiPeer) : Option (Text × List Candidate) :=
  match s.currentServers.get? p.key with
  | none => none
  | some serverIP =>
    if p.endpoint = [] ∨ p.latestHandshake = 0 ∨ offline s.now p.latestHandshake then none
    else
      let ourNAT := endpointIP s.ours.endpoint
      let sameNAT := decide (ourNAT ≠ [] ∧ endpointIP p.endpoint = ourNAT)
      let allowLAN := sameNAT || samePrivateSubnet s.ourLAN p.lanEndpoint
      let allowIPv6 := s.ours.candidates.any fun c => decide (c.type = "host6".toList)
      let candidates := buildProbeCandidates p.candidates p.endpoint p.lanEndpoint allowLAN allowIPv6
      if candidates = [] then none else some (serverIP, candidates)

/-- `trackedServers` without the active ones. -/
def Sync.inactive (s : Sync) : List Text :=
  (s.previous ++ s.currentServers.keys).dedup.filter fun key => decide (key ∉ s.active)

/-- The path is given up. -/
def PeerState.forget (s : PeerState) : PeerState :=
  { s with mode := .idle, endpoint := [], selectedType := none, started := 0 }

/-- A Direct that has gone stale. -/
def PeerState.fallback (s : PeerState) : PeerState :=
  { s.forget with generation := s.generation + 1, workerRunning := false, retryAfter := 0 }

/-- How the commands of an iteration end. -/
structure VisitCalls where
  remove : Bool
  promote : Bool

/-- An iteration for a server that is probed. -/
structure Visit where
  key : Text
  serverIP : Text
  instanceID : Text
  candidates : List Candidate
  /-- `locals[peer.Key]`. -/
  found : Option LocalPeer
  now : ℕ
  calls : VisitCalls

namespace Visit
variable (v : Visit)

def «local» : LocalPeer := v.found.getD .zero

def direct : Bool := v.found.isSome && decide (slash32 v.serverIP ∈ v.local.allowedIPs)

def fresh : Bool := handshakeWithin directMaxAge v.now v.local.latestHandshake

/-- The type of the endpoint WireGuard has. -/
def learnedType : Option CandidateType :=
  candidateTypeForEndpoint v.candidates v.local.endpoint <|> observedTypeForEndpoint v.local.endpoint

/-- `&peerState{...}`. -/
def created (a : App) : PeerState where
  mode := .idle
  endpoint := []
  selectedType := none
  candidates := []
  candidateSignature := []
  peerInstanceID := v.instanceID
  started := 0
  baselineHandshake := 0
  failures := 0
  retryAfter := 0
  generation := 1
  workerRunning := false
  object := a.objects

/-- `a.states[peer.Key]`, made if there is none. -/
def state (a : App) : PeerState := (a.states.get? v.key).getD (v.created a)

def allocate (a : App) : App :=
  { a with objects := if (a.states.get? v.key).isSome then a.objects else a.objects + 1 }

def instanceChanged (s : PeerState) : Bool := serverInstanceChanged s.peerInstanceID v.instanceID

def signatureChanged (s : PeerState) : Bool :=
  decide (s.candidateSignature ≠ candidateSignature v.candidates)

def topologyChanged (s : PeerState) : Bool := v.signatureChanged s || v.instanceChanged s

/-- What is written in every iteration. -/
def refresh (s : PeerState) : PeerState :=
  { s with
    peerInstanceID := if v.instanceID ≠ [] then v.instanceID else s.peerInstanceID
    candidates := v.candidates }

/-- What a changed topology writes. -/
def renew (s : PeerState) : PeerState :=
  { s with
    candidateSignature := candidateSignature v.candidates, generation := s.generation + 1,
    failures := 0, retryAfter := 0, workerRunning := false }

/-- A healthy Direct on an endpoint that is still advertised. -/
def kept (s : PeerState) : PeerState :=
  { s with mode := .direct, endpoint := v.local.endpoint, selectedType := v.learnedType }

/-- A healthy Direct of an unchanged peer. -/
def stays (s : PeerState) : PeerState :=
  { s with
    mode := .direct, endpoint := v.local.endpoint,
    selectedType := s.selectedType <|> v.learnedType, workerRunning := false }

/-- The end of an iteration: start a probe if one is due, and with which generation. -/
def launch (a : App) (s : PeerState) : App × Option ℕ :=
  if s.mode = .probe ∧ s.workerRunning = true then (a.setState v.key s, none)
  else if s.retryAfter ≤ v.now ∧ s.workerRunning = false then
    (a.setState v.key { s with workerRunning := true, mode := .probe }, some s.generation)
  else (a.setState v.key s, none)

/-- WireGuard shows a fresh handshake from a global IPv6 endpoint. -/
def learns : Bool :=
  v.found.isSome && handshakeWithin onlineMaxAge v.now v.local.latestHandshake &&
    decide (observedTypeForEndpoint v.local.endpoint = some .observed6)

/-- The peer has no Direct: take the endpoint WireGuard has learned, or go on to the probes. -/
def learn (a : App) (s : PeerState) : App × Option ℕ :=
  if v.learns && a.accepts v.calls.promote then
    ((a.wgSet v.calls.promote v.key (.route (slash32 v.serverIP) v.local.endpoint keepalive)).setState
      v.key (s.promote v.local.endpoint (some .observed6)), none)
  else v.launch a s

/-- The iteration under `a.mu`, with the generation of the probe it decides to start. -/
def run (a : App) : App × Option ℕ :=
  let s₀ := v.state a
  let s := v.refresh s₀
  let a := v.allocate a
  if v.topologyChanged s₀ then
    if !v.instanceChanged s₀ && v.direct && v.fresh &&
        candidateEndpointExists v.candidates v.local.endpoint then
      (a.setState v.key (v.kept (v.renew s)), none)
    else
      -- `exists` and `direct` are false from here on
      let a := if v.found.isSome then a.wgSet v.calls.remove v.key .remove else a
      v.launch a (v.renew s).forget
  else if v.direct then
    if v.fresh then (a.setState v.key (v.stays s), none)
    -- `exists` is false from here on
    else v.launch (a.wgSet v.calls.remove v.key .remove) s.fallback
  else v.learn a s

end Visit

/-- The iteration for a target. -/
def Sync.visit (s : Sync) (p : ApiPeer) (target : Text × List Candidate) (calls : VisitCalls) : Visit where
  key := p.key
  serverIP := target.1
  instanceID := p.instanceID
  candidates := target.2
  found := s.locals.get? p.key
  now := s.now
  calls := calls

/-! ### What an iteration can do -/

/-- The ways an iteration ends, from the state `s` it finds or makes to the state it leaves. -/
inductive Visited (v : Visit) (a : App) (s : PeerState) : App → PeerState → Option ℕ → Prop
  /-- A healthy Direct; a changed topology advances the generation. -/
  | kept (s' : PeerState) (hmode : s'.mode = .direct) (hrun : s'.workerRunning = false)
      (hgen : s.generation ≤ s'.generation) (hdirect : v.direct = true) (hfresh : v.fresh = true) :
      Visited v a s a s' none
  | promoted (s' : PeerState) (hmode : s'.mode = .direct) (hrun : s'.workerRunning = false)
      (hgen : s'.generation = s.generation) (htopo : v.topologyChanged s = false)
      (hdirect : v.direct = false) (hlearns : v.learns = true)
      (hok : a.accepts v.calls.promote = true) :
      Visited v a s
        (a.wgSet v.calls.promote v.key (.route (slash32 v.serverIP) v.local.endpoint keepalive)) s' none
  /-- Nothing is due. -/
  | rests (s' : PeerState) (hmode : s'.mode = s.mode) (hrun : s'.workerRunning = s.workerRunning)
      (hgen : s'.generation = s.generation) (htopo : v.topologyChanged s = false)
      (hdirect : v.direct = false) (hnot : ¬ (s.retryAfter ≤ v.now ∧ s.workerRunning = false)) :
      Visited v a s a s' none
  /-- A probe is due. -/
  | retried (s' : PeerState) (hmode : s'.mode = .probe) (hrun : s'.workerRunning = true)
      (hgen : s'.generation = s.generation) (htopo : v.topologyChanged s = false)
      (hdirect : v.direct = false) (hdue : s.retryAfter ≤ v.now ∧ s.workerRunning = false)
      (hlearns : ¬ (v.learns = true ∧ a.accepts v.calls.promote = true)) :
      Visited v a s a s' (some s'.generation)
  /-- The path is given up and probed anew. -/
  | renewed (s' : PeerState) (hmode : s'.mode = .probe) (hrun : s'.workerRunning = true)
      (hgen : s'.generation = s.generation + 1)
      (hwhy : v.topologyChanged s = true ∨ v.direct = true ∧ v.fresh = false) :
      Visited v a s (if v.found.isSome then a.wgSet v.calls.remove v.key .remove else a) s'
        (some s'.generation)

namespace Visit
variable {v : Visit} {a : App}

theorem launch_due {s : PeerState} (hretry : s.retryAfter = 0) (hrun : s.workerRunning = false) :
    v.launch a s = (a.setState v.key { s with workerRunning := true, mode := .probe },
      some s.generation) := by
  rw [launch, if_neg (by simp [hrun]), if_pos ⟨by omega, hrun⟩]

/-- What an iteration can do. -/
theorem visited (v : Visit) (a : App) : ∃ b s', Visited v (v.allocate a) (v.state a) b s' (v.run a).2 ∧
    (v.run a).1 = b.setState v.key s' ∧ s'.object = (v.state a).object := by
  unfold run
  by_cases htopo : v.topologyChanged (v.state a) = true
  · rw [if_pos htopo]
    split_ifs with hkeep hfound
    · simp only [Bool.and_eq_true] at hkeep
      exact ⟨_, _, .kept _ rfl rfl (Nat.le_succ _) hkeep.1.1.2 hkeep.1.2, rfl, rfl⟩
    · rw [launch_due rfl rfl]
      have h := Visited.renewed (v := v) (a := v.allocate a) (s := v.state a)
        { (v.renew (v.refresh (v.state a))).forget with workerRunning := true, mode := .probe }
        rfl rfl rfl (.inl htopo)
      rw [if_pos hfound] at h
      exact ⟨_, _, h, rfl, rfl⟩
    · rw [launch_due rfl rfl]
      have h := Visited.renewed (v := v) (a := v.allocate a) (s := v.state a)
        { (v.renew (v.refresh (v.state a))).forget with workerRunning := true, mode := .probe }
        rfl rfl rfl (.inl htopo)
      rw [if_neg hfound] at h
      exact ⟨_, _, h, rfl, rfl⟩
  · have htopo' : v.topologyChanged (v.state a) = false := by simpa using htopo
    rw [if_neg htopo]
    by_cases hdirect : v.direct = true
    · rw [if_pos hdirect]
      split_ifs with hfresh
      · exact ⟨_, _, .kept (v.stays (v.refresh (v.state a))) rfl rfl le_rfl hdirect hfresh, rfl, rfl⟩
      · rw [launch_due rfl rfl]
        have hfound : v.found.isSome = true := by
          unfold direct at hdirect
          exact (Bool.and_eq_true_iff.mp hdirect).1
        have h := Visited.renewed (v := v) (a := v.allocate a) (s := v.state a)
          { (v.refresh (v.state a)).fallback with workerRunning := true, mode := .probe }
          rfl rfl rfl (.inr ⟨hdirect, by simpa using hfresh⟩)
        rw [if_pos hfound] at h
        exact ⟨_, _, h, rfl, rfl⟩
    · have hdirect' : v.direct = false := by simpa using hdirect
      rw [if_neg hdirect, learn]
      split_ifs with hlearn
      · rw [Bool.and_eq_true] at hlearn
        let s' := (v.refresh (v.state a)).promote v.local.endpoint (some .observed6)
        exact ⟨_, s', .promoted s' rfl rfl rfl htopo' hdirect' hlearn.1 hlearn.2, rfl, rfl⟩
      · let s := v.refresh (v.state a)
        unfold launch
        split_ifs with hbusy hdue
        · have hnot : ¬ ((v.state a).retryAfter ≤ v.now ∧ (v.state a).workerRunning = false) :=
            fun h => by simp [show (v.state a).workerRunning = true from hbusy.2] at h
          exact ⟨_, s, .rests s rfl rfl rfl htopo' hdirect' hnot, rfl, rfl⟩
        · let s' := { s with workerRunning := true, mode := .probe }
          have hlearns : ¬ (v.learns = true ∧ (v.allocate a).accepts v.calls.promote = true) :=
            fun h => hlearn (Bool.and_eq_true_iff.mpr h)
          exact ⟨_, s', .retried s' rfl rfl rfl htopo' hdirect' hdue hlearns, rfl, rfl⟩
        · exact ⟨_, s, .rests s rfl rfl rfl htopo' hdirect' hdue, rfl, rfl⟩

end Visit

end Client
