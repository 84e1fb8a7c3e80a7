import WireguardP2p.Coordinator.Initiators
import WireguardP2p.Agent.Grants

/-! `p2p_agent.py`: the thread that initiates with other servers. A round asks the coordinator for the peers,
    makes itself an offer for every server it owns the pair with, and ends with the cleanup of the entries
    of all other keys; what fails in between ends the round. The offers and the cleanup are steps of the
    machine, so between them the other threads go on. -/

namespace Agent
open Ipaddress Python Net Candidates Raising

/-- `endpoint_address`. -/
def endpointAddress (value : Json) : Text :=
  match readEndpoint value with
  | .ok e => e.address.compressed
  | .error _ => []

/-- What a round meets: the clock, `local_ipv4()`, each of its calls of `handle_offer`, by the place of the
    peer in the response, and the calls of its cleanup. -/
structure RoundEnv where
  listenAddress : Text
  now : Time
  localIpv4 : Except Raised Text
  offerEnv : ℕ → OfferEnv
  offerCalls : ℕ → OfferCalls
  cleanup : PassCalls

/-- `peer.get(name, default)`. -/
def fieldOr (name : String) (default : Json) (fields : List (Text × Json)) : Json :=
  (Json.lookup name fields).getD default

/-- `peer.get(name) == value`. -/
def fieldIs (name : String) (value : Text) (fields : List (Text × Json)) : Bool :=
  match Json.lookup name fields with
  | some (.str t) => decide (t = value)
  | _ => false

/-- `next((peer for peer in peers if peer.get("ip") == LISTEN_ADDRESS), None)`. -/
def ownPeer (listenAddress : Text) : List Json → Except Raised (Option (List (Text × Json)))
  | [] => .ok none
  | .obj fields :: rest => if fieldIs "ip" listenAddress fields then .ok (some fields) else ownPeer listenAddress rest
  | _ :: _ => .error .attributeError

/-- `coordinator_sync_once`, from the body of the response on: the response and its peers. -/
def syncPeers (result : Json) : Except Raised (List Json) := do
  let protocol := (← result.get "protocol").getD (.int 0)
  if (← toInt (if protocol.truthy then protocol else .int 0)) ≠ 7 then
    .error (.runtimeError "Coordinator protocol mismatch")
  match (← result.get "peers").getD (.arr []) with
  | .arr peers => .ok peers
  | _ => .error (.runtimeError "Coordinator returned invalid peers")

/-- The session of a round, and what it compares the peers with. -/
structure RoundSession where
  sessionId : Json
  sessionStartedNs : ℤ
  ourWan : Text
  ourLanIp : Text

/-- The endpoint a peer is offered with, and its type. -/
def roundEndpoint (rs : RoundSession) (fields : List (Text × Json)) : Json × String :=
  let peerWan := endpointAddress (fieldOr "endpoint" (.str []) fields)
  let sameNat := decide (rs.ourWan ≠ [] ∧ peerWan ≠ [] ∧ rs.ourWan = peerWan)
  let lanEndpoint := fieldOr "lan_endpoint" (.str []) fields
  if lanEndpoint.truthy && (sameNat || samePrivateSubnet rs.ourLanIp lanEndpoint) then (lanEndpoint, "LAN")
  else (fieldOr "endpoint" (.str []) fields, "WAN")

/-- The offer the node makes to itself for a peer. -/
def initiatorOffer (env : RoundEnv) (rs : RoundSession) (fields : List (Text × Json)) : Json := .obj
  [("peer_key".toList, fieldOr "key" .null fields), ("peer_ip".toList, fieldOr "ip" (.str []) fields),
    ("peer_instance_id".toList, fieldOr "instance_id" (.str []) fields),
    ("session_id".toList, rs.sessionId), ("session_started_ns".toList, .int rs.sessionStartedNs),
    ("endpoint".toList, (roundEndpoint rs fields).1),
    ("endpoint_type".toList, .str (roundEndpoint rs fields).2.toList),
    ("candidates".toList, fieldOr "candidates" (.arr []) fields),
    ("lease_expires".toList, .int (⌊env.now⌋₊ + 180))]

/-- `active_keys.add(key)`: a key that is no text is not in STATES, a list or an object cannot be added. -/
def addKey (key : Json) (active : List Text) : Except Raised (List Text) :=
  match key with
  | .str k => .ok (active ++ [k])
  | .arr _ => .error .typeError
  | .obj _ => .error .typeError
  | _ => .ok active

/-- The `handle_offer` for the peer at the place `i`. -/
def roundOffer (env : RoundEnv) (rs : RoundSession) (i : ℕ) (fields : List (Text × Json)) : Label :=
  .offer { env.offerEnv i with listenAddress := env.listenAddress } (initiatorOffer env rs fields) .initiator
    (env.offerCalls i)

/-- The fields of a peer; one that is no object is not eligible. -/
def fieldsOf : Json → List (Text × Json)
  | .obj fields => fields
  | _ => []

/-- The loop over the peers from the place `i` on: its offers, and the active keys unless it raises. -/
def roundLoop (env : RoundEnv) (rs : RoundSession) (i : ℕ) (active : List Text) :
    List Json → List Label × Except Raised (List Text)
  | [] => ([], .ok active)
  | peer :: rest =>
    match eligibleInitiatorServer env.listenAddress peer env.now with
    | .error e => ([], .error e)
    | .ok false => roundLoop env rs (i + 1) active rest
    | .ok true =>
      match addKey (fieldOr "key" .null (fieldsOf peer)) active with
      | .error e => ([], .error e)
      | .ok active =>
        let r := roundLoop env rs (i + 1) active rest
        (roundOffer env rs i (fieldsOf peer) :: r.1, r.2)

/-- The session of the round, if the node is listed as a server and has one. -/
def roundSession (env : RoundEnv) (result : Json) (peers : List Json) : Except Raised (Option RoundSession) := do
  match ← ownPeer env.listenAddress peers with
  | none => .ok none
  | some ours =>
    if !fieldIs "role" "server".toList ours then .ok none
    else
      let sessionId := (← result.get "session_id").getD (.str [])
      let started := (← result.get "session_started_ns").getD (.int 0)
      let started ← toInt (if started.truthy then started else .int 0)
      if !sessionId.truthy || decide (started ≤ 0) then .ok none
      else
        let ourWan := endpointAddress (fieldOr "endpoint" (.str []) ours)
        let ourLanIp ← env.localIpv4
        .ok (some ⟨sessionId, started, ourWan, ourLanIp⟩)

/-- The offers of a round, and the keys its cleanup leaves, unless the round raises. -/
def roundOffers (env : RoundEnv) (result : Json) : List Label × Except Raised (List Text) :=
  match syncPeers result with
  | .error e => ([], .error e)
  | .ok peers =>
    match roundSession env result peers with
    | .error e => ([], .error e)
    | .ok none => ([], .ok [])
    | .ok (some rs) => roundLoop env rs 0 [] peers

/-- `server_initiator_once`: what the thread does under STATE_LOCK, in order. -/
def serverInitiatorOnce (env : RoundEnv) (result : Json) : List Label :=
  (roundOffers env result).1 ++
    match (roundOffers env result).2 with
    | .ok active => [.cleanupInitiator active env.cleanup]
    | .error _ => []

/-! ### The thread among the others -/

/-- The agent with what the initiator thread still has to do in its round. -/
structure InitiatorWorld where
  world : World
  todo : List Label

/-- A new round, with the response of the coordinator; the next step of the round; a step of another thread
    or of the device. -/
inductive InitiatorLabel
  | round (env : RoundEnv) (result : Json)
  | next
  | other (l : Label)

/-- A step only the initiator thread makes. At the end of the process the main thread runs a cleanup that
    leaves no key. -/
def Label.isInitiator : Label → Bool
  | .offer _ _ .initiator _ => true
  | .cleanupInitiator (_ :: _) _ => true
  | _ => false

namespace InitiatorWorld

def step (w : InitiatorWorld) : InitiatorLabel → Option InitiatorWorld
  | .round env result => if w.todo = [] then some { w with todo := serverInitiatorOnce env result } else none
  | .next =>
    match w.todo with
    | [] => none
    | l :: ls => (machine.step w.world l).map fun w' => ⟨w', ls⟩
  | .other l => if l.isInitiator then none else (machine.step w.world l).map fun w' => { w with world := w' }

/-- The process without state, between two rounds. -/
def start : InitiatorWorld := ⟨World.start, []⟩

end InitiatorWorld

def initiatorMachine : Runs.Machine InitiatorWorld InitiatorLabel := ⟨InitiatorWorld.step⟩

section Steps
variable {w w' : InitiatorWorld}

theorem other_step {l : Label} (h : initiatorMachine.step w (.other l) = some w') :
    l.isInitiator = false ∧ machine.step w.world l = some w'.world ∧ w'.todo = w.todo := by
  rw [show initiatorMachine.step w (.other l) = w.step (.other l) from rfl, InitiatorWorld.step] at h
  by_cases hl : l.isInitiator = true
  · rw [if_pos hl] at h
    cases h
  · rw [if_neg hl] at h
    obtain ⟨v, hv, rfl⟩ := Option.map_eq_some_iff.mp h
    exact ⟨Bool.not_eq_true _ ▸ hl, hv, rfl⟩

theorem next_step (h : initiatorMachine.step w .next = some w') :
    ∃ l, w.todo = l :: w'.todo ∧ machine.step w.world l = some w'.world := by
  rw [show initiatorMachine.step w .next = w.step .next from rfl, InitiatorWorld.step] at h
  cases ht : w.todo with
  | nil => simp [ht] at h
  | cons l ls =>
    rw [ht] at h
    obtain ⟨v, hv, rfl⟩ := Option.map_eq_some_iff.mp h
    exact ⟨l, rfl, hv⟩

theorem round_step {env : RoundEnv} {result : Json}
    (h : initiatorMachine.step w (.round env result) = some w') :
    w.todo = [] ∧ w' = ⟨w.world, serverInitiatorOnce env result⟩ := by
  rw [show initiatorMachine.step w (.round env result) = w.step (.round env result) from rfl,
    InitiatorWorld.step] at h
  by_cases ht : w.todo = []
  · rw [if_pos ht] at h
    exact ⟨ht, (Option.some.inj h).symm⟩
  · rw [if_neg ht] at h
    cases h

end Steps

/-! ### The steps of a round -/

/-- The peer is one of the list and eligible. -/
def EligiblePeer (env : RoundEnv) (peers : List Json) (fields : List (Text × Json)) : Prop :=
  .obj fields ∈ peers ∧ eligibleInitiatorServer env.listenAddress (.obj fields) env.now = .ok true

/-- A peer of the response is eligible under the key. -/
def Eligible (env : RoundEnv) (result : Json) (key : Text) : Prop :=
  ∃ peers fields, syncPeers result = .ok peers ∧ EligiblePeer env peers fields ∧
    fieldOr "key" .null fields = .str key

theorem eligible_fields {listenAddress : Text} {peer : Json} {now : ℚ}
    (h : eligibleInitiatorServer listenAddress peer now = .ok true) : peer = .obj (fieldsOf peer) := by
  cases peer with
  | obj fields => rfl
  | _ => cases h

section Round
variable {env : RoundEnv} {result : Json} {rs : RoundSession}

theorem EligiblePeer.cons {peers : List Json} {fields : List (Text × Json)} (h : EligiblePeer env peers fields)
    (peer : Json) : EligiblePeer env (peer :: peers) fields := ⟨List.mem_cons_of_mem peer h.1, h.2⟩

/-- The keys are those there were and that of the peer. -/
theorem mem_addKey {key : Json} {active active' : List Text} (h : addKey key active = .ok active') {k : Text}
    (hk : k ∈ active') : k ∈ active ∨ key = .str k := by
  cases key with
  | str t =>
    rw [← Except.ok.inj h] at hk
    rcases List.mem_append.mp hk with hk | hk
    · exact .inl hk
    · exact .inr (congrArg Json.str (List.mem_singleton.mp hk).symm)
  | arr items => cases h
  | obj fields => cases h
  | _ => exact .inl (Except.ok.inj h ▸ hk)

/-- What the loop does: an offer for an eligible peer each, and the active keys are those of eligible peers. -/
theorem spec_roundLoop (peers : List Json) : ∀ (i : ℕ) (active : List Text),
    (∀ l ∈ (roundLoop env rs i active peers).1, ∃ j fields, EligiblePeer env peers fields ∧
      l = roundOffer env rs j fields) ∧
    ∀ active', (roundLoop env rs i active peers).2 = .ok active' → ∀ k ∈ active', k ∈ active ∨
      ∃ fields, EligiblePeer env peers fields ∧ fieldOr "key" .null fields = .str k := by
  induction peers with
  | nil =>
    refine fun i active => ⟨fun l hl => absurd hl List.not_mem_nil, fun active' h k hk => ?_⟩
    exact .inl (Except.ok.inj h ▸ hk)
  | cons peer rest ih =>
    intro i active
    rw [roundLoop]
    cases he : eligibleInitiatorServer env.listenAddress peer env.now with
    | error e => exact ⟨fun l hl => absurd hl List.not_mem_nil, fun active' h => by cases h⟩
    | ok eligible =>
      cases eligible with
      | false =>
        refine ⟨fun l hl => ?_, fun active' h k hk => ?_⟩
        · obtain ⟨j, fields, hm, hl⟩ := (ih (i + 1) active).1 l hl
          exact ⟨j, fields, hm.cons peer, hl⟩
        · refine ((ih (i + 1) active).2 active' h k hk).imp id ?_
          rintro ⟨fields, hm, hkey⟩
          exact ⟨fields, hm.cons peer, hkey⟩
      | true =>
        have hpeer : EligiblePeer env (peer :: rest) (fieldsOf peer) := by
          have hobj := eligible_fields he
          refine ⟨?_, ?_⟩
          · rw [← hobj]
            exact List.mem_cons_self
          · rw [← hobj]
            exact he
        dsimp only
        cases ha : addKey (fieldOr "key" .null (fieldsOf peer)) active with
        | error e => exact ⟨fun l hl => absurd hl List.not_mem_nil, fun active' h => by cases h⟩
        | ok active₁ =>
          refine ⟨fun l hl => ?_, fun active' h k hk => ?_⟩
          · rcases List.mem_cons.mp hl with rfl | hl
            · exact ⟨i, fieldsOf peer, hpeer, rfl⟩
            · obtain ⟨j, fields, hm, hl⟩ := (ih (i + 1) active₁).1 l hl
              exact ⟨j, fields, hm.cons peer, hl⟩
          · rcases (ih (i + 1) active₁).2 active' h k hk with hk | ⟨fields, hm, hkey⟩
            · exact (mem_addKey ha hk).imp id fun hkey => ⟨fieldsOf peer, hpeer, hkey⟩
            · exact .inr ⟨fields, hm.cons peer, hkey⟩

/-- What a round does: offers for eligible peers, then a cleanup that leaves keys of eligible peers. -/
theorem spec_roundOffers :
    (∀ l ∈ (roundOffers env result).1, ∃ peers rs j fields, syncPeers result = .ok peers ∧
      EligiblePeer env peers fields ∧ l = roundOffer env rs j fields) ∧
    ∀ active, (roundOffers env result).2 = .ok active → ∀ k ∈ active, Eligible env result k := by
  unfold roundOffers Eligible
  cases hp : syncPeers result with
  | error e => exact ⟨fun l hl => absurd hl List.not_mem_nil, fun active h => by cases h⟩
  | ok peers =>
    dsimp only
    cases hrs : roundSession env result peers with
    | error e => exact ⟨fun l hl => absurd hl List.not_mem_nil, fun active h => by cases h⟩
    | ok rs =>
      cases rs with
      | none =>
        refine ⟨fun l hl => absurd hl List.not_mem_nil, fun active h k hk => ?_⟩
        exact absurd (Except.ok.inj h ▸ hk) List.not_mem_nil
      | some rs =>
        refine ⟨fun l hl => ?_, fun active h k hk => ?_⟩
        · obtain ⟨j, fields, hm, hl⟩ := (spec_roundLoop peers 0 []).1 l hl
          exact ⟨peers, rs, j, fields, rfl, hm, hl⟩
        · rcases (spec_roundLoop peers 0 []).2 active h k hk with hk | ⟨fields, hm, hkey⟩
          · exact absurd hk List.not_mem_nil
          · exact ⟨peers, fields, rfl, hm, hkey⟩

/-- A step of a round is an offer for an eligible peer, or a cleanup. -/
theorem mem_serverInitiatorOnce {l : Label} (h : l ∈ serverInitiatorOnce env result) :
    (∃ peers rs j fields, syncPeers result = .ok peers ∧ EligiblePeer env peers fields ∧
      l = roundOffer env rs j fields) ∨ ∃ active, l = .cleanupInitiator active env.cleanup := by
  rcases List.mem_append.mp h with h | h
  · exact .inl (spec_roundOffers.1 l h)
  · cases hr : (roundOffers env result).2 with
    | error e =>
      rw [hr] at h
      exact absurd h List.not_mem_nil
    | ok active =>
      rw [hr] at h
      exact .inr ⟨active, List.mem_singleton.mp h⟩

end Round

end Agent
