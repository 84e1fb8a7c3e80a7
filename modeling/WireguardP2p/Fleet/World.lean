import WireguardP2p.Coordinator.Closings
import WireguardP2p.Agent.Grants

/-! The coordinator and the agents of all servers as one machine. What the coordinator pushed stands in its log;
    from there it reaches the server it was sent to, late, out of order, more than once or never. The agents
    answer what they like: the coordinator takes any answer, at any time. -/

/-- The step is the handling of a notification. -/
def Agent.Label.isNotice : Agent.Label → Bool
  | .offer _ _ .responder _ => true
  | .remove .. => true
  | _ => false

namespace Fleet
open Ipaddress Python Net Candidates
open Agent (PublicKey)

/-- The payload of `push_offer`. -/
def offerJson (body : Coordinator.OfferBody) : Json := .obj
  [("protocol".toList, .int 7), ("session_id".toList, .str body.sessionId),
    ("session_started_ns".toList, .int body.sessionStartedNs), ("peer_key".toList, .str body.peerKey),
    ("peer_ip".toList, .str body.peerIp), ("peer_instance_id".toList, .str body.peerInstanceId),
    ("endpoint".toList, .str body.endpoint), ("endpoint_type".toList, .str body.endpointType.toList),
    ("candidates".toList, .arr (body.candidates.map Candidate.toJson)),
    ("lease_expires".toList, .int body.leaseExpires)]

/-- The payload of `push_remove`. -/
def removalJson (s : Coordinator.Session) (reason : Agent.RemoveReason) : Json := .obj
  [("session_id".toList, .str s.sessionId), ("peer_key".toList, .str s.key), ("peer_ip".toList, .str s.ip),
    ("reason".toList, .str reason.name.toList)]

/-- The coordinator, and the agent at each overlay address. -/
structure System where
  coordinator : Coordinator.World
  agents : Text → Agent.World

/-- A step of the coordinator; the arrival of the offer or the removal at the place `n` of its log; a step an
    agent makes by itself. -/
inductive Label
  | coordinator (l : Coordinator.Label)
  | offer (n : ℕ) (env : Agent.OfferEnv) (calls : Agent.OfferCalls)
  | remove (n : ℕ) (reason : Agent.RemoveReason) (now : Agent.Time) (calls : Agent.RemoveCalls)
  | own (server : Text) (l : Agent.Label)

namespace System

/-- The agent at the address after a step. -/
def set (w : System) (server : Text) (a : Agent.World) : System :=
  { w with agents := Function.update w.agents server a }

def step (w : System) : Label → Option System
  | .coordinator l => (Coordinator.coordinator.step w.coordinator l).map fun c => { w with coordinator := c }
  | .offer n env calls =>
    match w.coordinator.log[n]? with
    | some (.offered _ server body) =>
      some (w.set server.ip ((w.agents server.ip).offer { env with listenAddress := server.ip } (offerJson body)
        .responder calls).2)
    | _ => none
  | .remove n reason now calls =>
    match w.coordinator.log[n]? with
    | some (.removed s server) =>
      some (w.set server ((w.agents server).remove server (removalJson s reason) now calls).2)
    | _ => none
  | .own server l =>
    if l.isNotice then none else (Agent.machine.step (w.agents server) l).map (w.set server)

/-- Nothing has happened yet. -/
def start : System := ⟨.start, fun _ => .start⟩

end System

def fleet : Runs.Machine System Label := ⟨System.step⟩

/-- The step of the coordinator. -/
def Label.ofCoordinator : Label → Option Coordinator.Label
  | .coordinator l => some l
  | _ => none

/-- The steps of the coordinator in a run. -/
def coordinatorLabels (ls : List Label) : List Coordinator.Label := ls.filterMap Label.ofCoordinator

/-- What a step of the system is to the agent at the address. -/
inductive Meets (w : System) (server : Text) : Label → Agent.Label → Prop
  | own (l : Agent.Label) (hown : l.isNotice = false) : Meets w server (.own server l) l
  | offer (n : ℕ) (c : Coordinator.Call) (peer : Coordinator.ListedPeer) (body : Coordinator.OfferBody)
      (env : Agent.OfferEnv) (calls : Agent.OfferCalls) (hlog : w.coordinator.log[n]? = some (.offered c peer body))
      (hserver : peer.ip = server) :
      Meets w server (.offer n env calls) (.offer { env with listenAddress := server } (offerJson body) .responder calls)
  | remove (n : ℕ) (s : Coordinator.Session) (reason : Agent.RemoveReason) (now : Agent.Time) (calls : Agent.RemoveCalls)
      (hlog : w.coordinator.log[n]? = some (.removed s server)) :
      Meets w server (.remove n reason now calls) (.remove server (removalJson s reason) now calls)

section Steps
variable {w w' : System} {l : Label}

theorem set_agents {server : Text} {a : Agent.World} (address : Text) :
    (w.set server a).agents address = if address = server then a else w.agents address := by
  exact Function.update_apply ..

/-- A step of the coordinator leaves the agents alone. -/
theorem coordinator_step {l : Coordinator.Label} (h : fleet.step w (.coordinator l) = some w') :
    Coordinator.coordinator.step w.coordinator l = some w'.coordinator ∧ w'.agents = w.agents := by
  obtain ⟨c, hc, rfl⟩ := Option.map_eq_some_iff.mp h
  exact ⟨hc, rfl⟩

/-- Any other step leaves the coordinator alone. -/
theorem coordinator_still (h : fleet.step w l = some w') (hl : l.ofCoordinator = none) :
    w'.coordinator = w.coordinator := by
  cases l with
  | coordinator l => cases hl
  | offer n env calls =>
    have hstep : w.step (.offer n env calls) = some w' := h
    unfold System.step at hstep
    dsimp only at hstep
    split at hstep <;> cases hstep
    rfl
  | remove n reason now calls =>
    have hstep : w.step (.remove n reason now calls) = some w' := h
    unfold System.step at hstep
    dsimp only at hstep
    split at hstep <;> cases hstep
    rfl
  | own server l =>
    have hstep : w.step (.own server l) = some w' := h
    unfold System.step at hstep
    dsimp only at hstep
    split_ifs at hstep
    obtain ⟨a, -, rfl⟩ := Option.map_eq_some_iff.mp hstep
    rfl

/-- To an agent a step of the system is one of its own, a notification, or nothing. -/
theorem agent_step (h : fleet.step w l = some w') (server : Text) : w'.agents server = w.agents server ∨
    ∃ lab, Meets w server l lab ∧ Agent.machine.step (w.agents server) lab = some (w'.agents server) := by
  cases l with
  | coordinator l => exact .inl (congrFun (coordinator_step h).2 server)
  | offer n env calls =>
    have hstep : w.step (.offer n env calls) = some w' := h
    unfold System.step at hstep
    dsimp only at hstep
    split at hstep <;> cases hstep
    rename_i c peer body hlog
    rw [set_agents]
    by_cases hs : server = peer.ip
    · rw [if_pos hs]
      exact .inr ⟨_, .offer n c peer body env calls hlog hs.symm, by rw [hs]; rfl⟩
    · exact .inl (if_neg hs)
  | remove n reason now calls =>
    have hstep : w.step (.remove n reason now calls) = some w' := h
    unfold System.step at hstep
    dsimp only at hstep
    split at hstep <;> cases hstep
    rename_i s address hlog
    rw [set_agents]
    by_cases hs : server = address
    · rw [if_pos hs]
      exact .inr ⟨_, .remove n s reason now calls (hs ▸ hlog), by rw [hs]; rfl⟩
    · exact .inl (if_neg hs)
  | own address lab =>
    have hstep : w.step (.own address lab) = some w' := h
    unfold System.step at hstep
    dsimp only at hstep
    split_ifs at hstep with hown
    obtain ⟨a, ha, rfl⟩ := Option.map_eq_some_iff.mp hstep
    rw [set_agents]
    by_cases hs : server = address
    · subst hs
      rw [if_pos rfl]
      exact .inr ⟨lab, .own lab (Bool.not_eq_true _ ▸ hown), ha⟩
    · exact .inl (if_neg hs)

/-- The log only grows. -/
theorem log_step (h : fleet.step w l = some w') : w.coordinator.log <+: w'.coordinator.log := by
  cases hl : l.ofCoordinator with
  | none => rw [coordinator_still h hl]
  | some l' =>
    cases l with
    | coordinator l =>
      obtain ⟨es, hlog, -⟩ := Coordinator.step_log (coordinator_step h).1
      exact ⟨es, hlog.symm⟩
    | _ => cases hl

end Steps

/-- In a run of the system the coordinator makes a run of its own. -/
theorem coordinator_run {ls : List Label} : ∀ {w w' : System}, fleet.run w ls = some w' →
    Coordinator.coordinator.run w.coordinator (coordinatorLabels ls) = some w'.coordinator := by
  induction ls with
  | nil =>
    intro w w' h
    obtain rfl := Option.some.inj h
    rfl
  | cons l ls ih =>
    intro w w' h
    obtain ⟨v, hstep, hrest⟩ := fleet.run_cons.mp h
    unfold coordinatorLabels
    rw [List.filterMap_cons]
    cases hl : l.ofCoordinator with
    | none => exact coordinator_still hstep hl ▸ ih hrest
    | some l' =>
      cases l with
      | coordinator l =>
        obtain rfl := Option.some.inj hl
        exact Coordinator.coordinator.run_cons.mpr ⟨_, (coordinator_step hstep).1, ih hrest⟩
      | _ => cases hl

/-! ### Where an entry comes from -/

/-- The grant is that of an offer the coordinator pushed to the server, as its agent reads it. -/
def Pushed (log : List Coordinator.Event) (server : Text) (k : PublicKey) (g : Agent.Grant) : Prop :=
  ∃ c peer body env o, .offered c peer body ∈ log ∧ peer.ip = server ∧ env.listenAddress = server ∧
    Agent.readOffer env (offerJson body) .responder = .ok o ∧ o.key = k ∧ o.grant = g

/-- What the agent serves as responder it was pushed. -/
def Backed (log : List Coordinator.Event) (server : Text) (k : PublicKey) (g : Agent.Grant) : Prop :=
  g.controller = .responder → Pushed log server k g

/-- A step of an agent on its own brings no grant of the responder. -/
theorem brings_own {Q : PublicKey → Agent.Grant → Prop} {lab : Agent.Label} (h : lab.isNotice = false) :
    lab.Brings fun k g => g.controller = .responder → Q k g := by
  cases lab with
  | offer env data controller calls =>
    intro o ho hc
    cases controller with
    | responder => cases h
    | initiator =>
      rw [show o.grant.controller = o.controller from rfl, (Agent.readOffer_fields ho).controller] at hc
      cases hc
  | _ => trivial

theorem brings_meets {w : System} {server : Text} {l : Label} {lab : Agent.Label} (h : Meets w server l lab) :
    lab.Brings (Backed w.coordinator.log server) := by
  cases h with
  | own lab hown => exact brings_own hown
  | offer n c peer body env calls hlog hserver =>
    intro o ho _
    exact ⟨c, peer, body, _, o, List.mem_of_getElem? hlog, hserver, rfl, ho, rfl, rfl⟩
  | remove n s reason now calls hlog => trivial

theorem Pushed.mono {log log' : List Coordinator.Event} (hlog : log <+: log') {server : Text} {k : PublicKey}
    {g : Agent.Grant} (h : Pushed log server k g) : Pushed log' server k g := by
  obtain ⟨c, peer, body, env, o, hmem, h⟩ := h
  exact ⟨c, peer, body, env, o, hlog.subset hmem, h⟩

theorem backed_step {w w' : System} {l : Label} (hs : fleet.step w l = some w') {server : Text}
    (h : (w.agents server).shared.Grants (Backed w.coordinator.log server)) :
    (w'.agents server).shared.Grants (Backed w'.coordinator.log server) := by
  have hmono : ∀ k s, Backed w.coordinator.log server k (Agent.PeerState.grant s) →
      Backed w'.coordinator.log server k s.grant := fun k s hb hc => (hb hc).mono (log_step hs)
  rcases agent_step hs server with heq | ⟨lab, hmeets, hstep⟩
  · rw [heq]
    exact fun k s hk => hmono k s (h k s hk)
  · exact fun k s hk => hmono k s (Agent.grants_step hstep (brings_meets hmeets) h k s hk)

/-- Every entry an agent controls as responder is of an offer the coordinator pushed to it. -/
theorem backed_run {w : System} {ls : List Label} (hrun : fleet.run .start ls = some w) (server : Text) :
    (w.agents server).shared.Grants (Backed w.coordinator.log server) :=
  fleet.run_invariant (I := fun w => (w.agents server).shared.Grants (Backed w.coordinator.log server))
    (fun _ _ _ _ h hs => backed_step hs h) (fun k s hs => by cases hs) (fleet.along_true _ _) hrun

end Fleet
