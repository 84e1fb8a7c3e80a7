import WireguardP2p.Agent.Routes

/-! Control state and routes: the steps of the workers. `Grounded` is what a worker may rely on between
    its steps while the entry carries its generation: the overlay IP it has read is the entry's, a probe
    at work is the probe of the entry, and a path it found is still there. -/

namespace Agent
open Ipaddress Python Candidates Raising

/-- The overlay IP a worker has read. -/
def ProbePc.peerIp? : ProbePc → Option Text
  | .check ip _ | .baseline ip .. | .configure ip .. | .wait ip .. | .poll ip .. | .promote ip ..
  | .rekey ip .. => some ip
  | .start | .cancel | .fail => none

def ConfirmPc.peerIp? : ConfirmPc → Option Text
  | .setup ip _ | .poll ip _ | .finalize ip _ => some ip
  | .fail => none

def Pc.peerIp? : Pc → Option Text
  | .probe pc => pc.peerIp?
  | .confirm pc => pc.peerIp?
  | .cleanup | .finished => none

/-- The worker has seen a handshake. -/
def Pc.Found : Pc → Prop
  | .probe (.promote ..) | .confirm (.finalize ..) => True
  | _ => False

/-- What a worker at `pc` relies on, of the entry it works on and its peer. -/
structure Grounded (pc : Pc) (s : PeerState) (p : Option WgPeer) : Prop where
  ip : ∀ ip, pc.peerIp? = some ip → s.ip = ip
  probing : (∃ q, pc = .probe q) → s.workerRunning = true → s.mode = .probe
  found : pc.Found → s.workerRunning = true → HasHandshake p
  not_cancel : pc ≠ .probe .cancel

/-- The worker is grounded if the entry carries its generation. -/
def HasGround (g : ℕ) (pc : Pc) (sl : Slot) : Prop :=
  ∀ s, sl.entry = some s → s.generation = g → Grounded pc s sl.peer

theorem hasGround_cleanup {g : ℕ} {sl : Slot} : HasGround g .cleanup sl :=
  fun _ _ _ => ⟨nofun, nofun, nofun, nofun⟩

theorem hasGround_finished {g : ℕ} {sl : Slot} : HasGround g .finished sl :=
  fun _ _ _ => ⟨nofun, nofun, nofun, nofun⟩

/-- A probe goes on with the overlay IP it has, if any. -/
theorem HasGround.probe {g : ℕ} {pc pc' : ProbePc} {sl : Slot} (h : HasGround g (.probe pc) sl)
    (hip : ∀ ip, pc'.peerIp? = some ip → pc.peerIp? = some ip)
    (hf : (Pc.probe pc').Found → HasHandshake sl.peer) (hc : pc' ≠ .cancel) :
    HasGround g (.probe pc') sl := fun s hs hg =>
  have hs := h s hs hg
  ⟨fun ip h => hs.ip ip (hip ip h), fun _ => hs.probing ⟨pc, rfl⟩, fun h _ => hf h,
    fun h => hc (Pc.probe.inj h)⟩

theorem HasGround.confirm {g : ℕ} {pc pc' : ConfirmPc} {sl : Slot} (h : HasGround g (.confirm pc) sl)
    (hip : ∀ ip, pc'.peerIp? = some ip → pc.peerIp? = some ip)
    (hf : (Pc.confirm pc').Found → HasHandshake sl.peer) : HasGround g (.confirm pc') sl :=
  fun s hs hg => ⟨fun ip hi => (h s hs hg).ip ip (hip ip hi), nofun, fun h _ => hf h, nofun⟩

/-- A worker whose entry has lost its mark. -/
theorem HasGround.of_rest {g : ℕ} {pc : Pc} {sl : Slot} {s : PeerState} (hs : sl.entry = some s)
    (hip : ∀ ip, pc.peerIp? = some ip → s.ip = ip) (hrun : s.workerRunning = false)
    (hc : pc ≠ .probe .cancel) : HasGround g pc sl := by
  intro t ht _
  obtain rfl := Option.some.inj (hs.symm.trans ht)
  have hno : ¬ s.workerRunning = true := by simp [hrun]
  exact ⟨hip, fun _ hr => absurd hr hno, fun _ hr => absurd hr hno, hc⟩

section Worker
variable {c : Sessions} {k : PublicKey} {static : List Text} {sl : Slot} {g : ℕ} {calls : WorkerCalls}

/-- What a step of a worker of generation `g` leaves, where every call succeeds. -/
structure KeepsRoutes (c : Sessions) (k : PublicKey) (static : List Text) (g : ℕ) (next : Next)
    (sl : Slot) : Prop where
  agrees : Agrees c k static sl
  ground : HasGround g next.pc sl
  confirm : ∀ ip e, next.confirm = some (ip, e) → HasGround g (.confirm (.setup ip e)) sl
  taken : ∀ a ∈ sl.taken, ∃ ip, a = slash32 ip ∧ c.key ip = k

/-- The postcondition of a step that does not raise. -/
abbrev EndsRouted (c : Sessions) (k : PublicKey) (static : List Text) (g : ℕ) (p : Section Next)
    (sl : Slot) : Prop := p.wp (KeepsRoutes c k static g) (fun _ _ => False) sl

theorem KeepsRoutes.still {next : Next} (h : Agrees c k static sl) (hg : HasGround g next.pc sl)
    (hc : next.confirm = none) (ht : sl.taken = []) : KeepsRoutes c k static g next sl :=
  ⟨h, hg, fun _ _ he => (by rw [hc] at he; cases he), fun _ ha => by rw [ht] at ha; cases ha⟩

theorem KeepsRoutes.return (h : Agrees c k static sl) (ht : sl.taken = []) :
    KeepsRoutes c k static g .return sl := .still h hasGround_cleanup rfl ht

/-- A worker gives up: the peer is removed and the entry comes to rest. -/
theorem routes_giveUp {s : PeerState} (hc : calls.Succeed) (hs : sl.entry = some s)
    (hk : Known c k s) (ht : sl.taken = []) : EndsRouted c k static g (giveUp calls) sl := by
  simp only [EndsRouted, giveUp, wp_bind, wp_pure, wp_update, wp_tryWgSet_done, wp_saveState_true,
    hc.remove, hc.save]
  refine .return (.of_some (s := s.backOff calls.now) ?_ ?_ ?_) ht
  · rw [Slot.entry_update, Slot.entry_execute, hs, Option.map_some]
  · exact hk.congr rfl rfl rfl
  · exact ⟨rfl, plain_none static⟩

/-! ### The probe -/

theorem routes_start (h : Agrees c k static sl) (ht : sl.taken = [])
    (hg : HasGround g (.probe .start) sl) : EndsRouted c k static g (probeStep g calls .start) sl := by
  simp only [EndsRouted, probeStep, wp_bind, wp_entry]
  cases hs : sl.entry with
  | none => exact .return h ht
  | some s =>
    have hk := h.known s hs
    simp only [wp_ite, wp_pure]
    refine ⟨fun _ => .return h ht, fun _ => ⟨fun he => ?_, fun _ => .still h ?_ rfl ht⟩⟩
    · exact absurd he (not_or.mpr ⟨hk.candidates_ne, hk.ip_ne⟩)
    · intro t hts htg
      obtain rfl := Option.some.inj (hs.symm.trans hts)
      exact ⟨fun ip hi => Option.some.inj hi, fun _ => (hg s hs htg).probing ⟨_, rfl⟩, False.elim,
        fun hn => by cases hn⟩

theorem routes_cancel (h : Agrees c k static sl) (ht : sl.taken = [])
    (hg : HasGround g (.probe .cancel) sl) :
    EndsRouted c k static g (probeStep g calls .cancel) sl := by
  simp only [EndsRouted, probeStep, wp_bind, wp_entry]
  cases hs : sl.entry with
  | none => exact .return h ht
  | some s =>
    simp only [wp_ite, wp_bind, wp_pure]
    exact ⟨fun he => absurd rfl (hg s hs he).not_cancel, fun _ => .return h ht⟩

theorem routes_check (h : Agrees c k static sl) (ht : sl.taken = []) {ip : Text} {cs : List Candidate}
    (hg : HasGround g (.probe (.check ip cs)) sl) :
    EndsRouted c k static g (probeStep g calls (.check ip cs)) sl := by
  cases cs with
  | nil => exact .still h (hg.probe (fun _ hi => by cases hi) False.elim (by simp)) rfl ht
  | cons a rest =>
    simp only [EndsRouted, probeStep, wp_bind, wp_entry, wp_ite, wp_pure]
    refine ⟨fun _ => .still h ?_ rfl ht, fun _ => .return h ht⟩
    exact hg.probe (fun _ hi => hi) False.elim (by simp)

theorem routes_baseline (hc : calls.Succeed) (h : Agrees c k static sl) (ht : sl.taken = []) {ip : Text}
    {a : Candidate} {rest : List Candidate} (hg : HasGround g (.probe (.baseline ip a rest)) sl) :
    EndsRouted c k static g (probeStep g calls (.baseline ip a rest)) sl := by
  simp only [EndsRouted, probeStep, wp_bind, wp_queryPeers_none, wp_peer, wp_pure, hc.query]
  exact .still h (hg.probe (fun _ hi => hi) False.elim (by simp)) rfl ht

/-- A probe configures the endpoint of a candidate; the peer gets no route. -/
theorem routes_configure (hc : calls.Succeed) (h : Agrees c k static sl) (ht : sl.taken = []) {ip : Text}
    {a : Candidate} {rest : List Candidate} {b : ℕ}
    (hg : HasGround g (.probe (.configure ip a rest b)) sl) :
    EndsRouted c k static g (probeStep g calls (.configure ip a rest b)) sl := by
  simp only [EndsRouted, probeStep, wp_bind, wp_entry, wp_ite, wp_pure, wp_wgSet_done, wp_update,
    wp_saveState_true, hc.set, hc.save]
  refine ⟨fun _ => .return h ht, fun ho => ⟨fun _ => ?_, fun hn => absurd trivial hn⟩⟩
  obtain ⟨s, hs, hsg, hrun⟩ := owns_iff.mp (by simpa using ho)
  have hgs := hg s hs hsg
  have hplain : Plain static sl.peer := by
    have hm := h.peer s hs
    unfold Matches at hm
    rwa [hgs.probing ⟨_, rfl⟩ hrun] at hm
  have he : ((sl.execute (.endpoint a.endpoint probeKeepalive)).update
      (PeerState.configure a b calls.now)).entry = some (s.configure a b calls.now) := by
    rw [Slot.entry_update, Slot.entry_execute, hs, Option.map_some]
  refine .still (.of_some he ((h.known s hs).congr rfl rfl rfl) ?_) ?_ rfl ht
  · rintro q hq
    obtain rfl := Option.some.inj hq
    cases hp : sl.peer with
    | none => exact fun _ ha => by cases ha
    | some p => exact hplain p hp
  · intro t hts htg
    obtain rfl := Option.some.inj (he.symm.trans hts)
    exact ⟨hgs.ip, fun _ _ => rfl, False.elim, fun hn => by cases hn⟩

theorem routes_wait (h : Agrees c k static sl) (ht : sl.taken = []) {ip : Text} {a : Candidate}
    {rest : List Candidate} {b : ℕ} (hg : HasGround g (.probe (.wait ip a rest b)) sl) :
    EndsRouted c k static g (probeStep g calls (.wait ip a rest b)) sl := by
  simp only [EndsRouted, probeStep, wp_bind, wp_entry, wp_ite, wp_pure]
  have hnext {pc : ProbePc} (hip : pc.peerIp? = some ip) (hf : ¬ (Pc.probe pc).Found)
      (hn : pc ≠ .cancel) : KeepsRoutes c k static g (.probe pc) sl :=
    .still h (hg.probe (fun i hi => hip.symm.trans hi) (fun h => absurd h hf) hn) rfl ht
  exact ⟨fun _ => hnext rfl id (by simp), fun _ => ⟨fun _ => .return h ht, fun _ =>
    ⟨fun _ => hnext rfl id (by simp), fun _ => .return h ht⟩⟩⟩

theorem routes_poll (hc : calls.Succeed) (h : Agrees c k static sl) (ht : sl.taken = []) {ip : Text}
    {a : Candidate} {rest : List Candidate} {b : ℕ} (hg : HasGround g (.probe (.poll ip a rest b)) sl) :
    EndsRouted c k static g (probeStep g calls (.poll ip a rest b)) sl := by
  simp only [EndsRouted, probeStep, wp_bind, wp_queryPeers_none, wp_peer, hc.query]
  have hwait : KeepsRoutes c k static g (.probe (.wait ip a rest b)) sl :=
    .still h (hg.probe (fun _ hi => hi) False.elim (by simp)) rfl ht
  cases hp : sl.peer with
  | none => exact hwait
  | some p =>
    simp only [wp_ite, wp_pure]
    refine ⟨fun _ => hwait, fun hlt => ?_⟩
    have hhs : p.latestHandshake ≠ 0 := by omega
    exact .still h (hg.probe (fun _ hi => hi) (fun _ => ⟨p, hp, hhs⟩) (by simp)) rfl ht

/-- The route of an entry on the device, which keeps the handshake. -/
theorem route_apply (ip e : Text) (n : ℕ) (p : Option WgPeer) :
    Routed ip ((Command.route (slash32 ip) e n).apply p) ∧
      (HasHandshake p → HasHandshake ((Command.route (slash32 ip) e n).apply p)) := by
  refine ⟨⟨_, rfl, rfl⟩, ?_⟩
  rintro ⟨q, rfl, hq⟩
  exact ⟨_, rfl, hq⟩

/-- Promotion: the entry gets its route, on the path the probe found. -/
theorem routes_promote (hc : calls.Succeed) (h : Agrees c k static sl) (ht : sl.taken = []) {ip : Text}
    {a : Candidate} {e : Text} (hg : HasGround g (.probe (.promote ip a e)) sl) :
    EndsRouted c k static g (probeStep g calls (.promote ip a e)) sl := by
  simp only [EndsRouted, probeStep, wp_bind, wp_entry]
  cases hs : sl.entry with
  | none => exact .return h ht
  | some s =>
    simp only [wp_ite, wp_bind, wp_pure, wp_wgSet_done, wp_update, wp_saveState_true, hc.set, hc.save]
    refine ⟨fun _ => .return h ht, fun ho => ?_⟩
    obtain ⟨hsg, hrun⟩ := owns_some.mp (by simpa using ho)
    have hgs := hg s hs hsg
    have hip : s.ip = ip := hgs.ip ip rfl
    have hk := h.known s hs
    obtain ⟨hr, hhs⟩ := route_apply s.ip e keepalive sl.peer
    have he : ((sl.execute (.route (slash32 ip) e keepalive)).update fun s' =>
        { s'.promote (promotedType s.candidates a e) e with promoted := calls.now }).entry =
        some { s.promote (promotedType s.candidates a e) e with promoted := calls.now } := by
      rw [Slot.entry_update, Slot.entry_execute, hs, Option.map_some]
    refine ⟨.of_some he (hk.congr rfl rfl rfl) ⟨rfl, ?_, ?_⟩, .of_rest he ?_ rfl
      (fun hn => by cases hn), (fun _ _ hn => by cases hn), ?_⟩
    · exact hip ▸ hr
    · exact hip ▸ hhs (hgs.found trivial hrun)
    · exact fun i hi => hip.trans (Option.some.inj hi)
    · intro x hx
      rw [show (((sl.execute (.route (slash32 ip) e keepalive)).update _).taken) = slash32 ip :: sl.taken
        from rfl, ht, List.mem_singleton] at hx
      exact ⟨ip, hx, hip ▸ hk.key⟩

theorem routes_rekey (h : Agrees c k static sl) (ht : sl.taken = []) {ip : Text} {a : Candidate}
    {e : Text} (hg : HasGround g (.probe (.rekey ip a e)) sl) :
    EndsRouted c k static g (probeStep g calls (.rekey ip a e)) sl := by
  simp only [EndsRouted, probeStep, wp_ite, wp_pure]
  refine ⟨fun _ => ⟨h, hasGround_cleanup, fun i e' he => ?_, fun x hx => ?_⟩, fun _ => .return h ht⟩
  · obtain ⟨rfl, rfl⟩ := Prod.mk.inj (Option.some.inj he)
    refine fun s hs hsg => ⟨(hg s hs hsg).ip, ?_, False.elim, fun hn => by cases hn⟩
    rintro ⟨q, hq⟩
    cases hq
  · rw [ht] at hx
    cases hx

theorem routes_fail (hc : calls.Succeed) (h : Agrees c k static sl) (ht : sl.taken = []) :
    EndsRouted c k static g (probeStep g calls .fail) sl := by
  simp only [EndsRouted, probeStep, wp_bind, wp_entry, wp_ite, wp_pure]
  refine ⟨fun _ => .return h ht, fun ho => ?_⟩
  obtain ⟨s, hs, _, _⟩ := owns_iff.mp (by simpa using ho)
  exact routes_giveUp hc hs (h.known s hs) ht

theorem routes_probeStep (hc : calls.Succeed) (h : Agrees c k static sl) (ht : sl.taken = [])
    {pc : ProbePc} (hg : HasGround g (.probe pc) sl) :
    EndsRouted c k static g (probeStep g calls pc) sl := by
  cases pc with
  | start => exact routes_start h ht hg
  | cancel => exact routes_cancel h ht hg
  | check ip cs => exact routes_check h ht hg
  | baseline ip a rest => exact routes_baseline hc h ht hg
  | configure ip a rest b => exact routes_configure hc h ht hg
  | wait ip a rest b => exact routes_wait h ht hg
  | poll ip a rest b => exact routes_poll hc h ht hg
  | promote ip a e => exact routes_promote hc h ht hg
  | rekey ip a e => exact routes_rekey h ht hg
  | fail => exact routes_fail hc h ht

/-! ### The confirmation and the cleanup -/

/-- The confirmation starts: the peer is removed and made again with its route, without a handshake. -/
theorem routes_setup (hc : calls.Succeed) (h : Agrees c k static sl) (ht : sl.taken = []) {ip e : Text}
    (hg : HasGround g (.confirm (.setup ip e)) sl) :
    EndsRouted c k static g (confirmStep g calls (.setup ip e)) sl := by
  simp only [EndsRouted, confirmStep, wp_bind, wp_entry, wp_ite, wp_pure, wp_update, wp_wgSet_done,
    wp_saveState_true, hc.set, hc.remove, hc.save]
  refine ⟨fun _ => .return h ht, fun _ => ⟨fun _ => .return h ht, fun ho => ⟨fun _ => ?_,
    fun hn => absurd ⟨trivial, trivial⟩ hn⟩⟩⟩
  obtain ⟨s, hs, hsg, _, _⟩ := ownsDirect_iff.mp (by simpa using ho)
  have hip : s.ip = ip := (hg s hs hsg).ip ip rfl
  have hk := h.known s hs
  let f : PeerState → PeerState := fun s =>
    { s with mode := .confirm6, workerRunning := true, started := calls.now, baselineHandshake := 0 }
  have he : (((sl.update f).execute .remove).execute
      (.route (slash32 ip) e probeKeepalive)).entry = some (f s) := by
    rw [Slot.entry_execute, Slot.entry_execute, Slot.entry_update, hs, Option.map_some]
  refine ⟨.of_some he (hk.congr rfl rfl rfl) ⟨rfl, hip ▸ (route_apply s.ip e probeKeepalive none).1⟩,
    fun t hts _ => ?_, (fun _ _ hn => by cases hn), fun x hx => ?_⟩
  · obtain rfl := Option.some.inj (he.symm.trans hts)
    refine ⟨fun i hi => hip.trans (Option.some.inj hi), ?_, False.elim, fun hn => by cases hn⟩
    rintro ⟨q, hq⟩
    cases hq
  · have hx : x ∈ slash32 ip :: sl.taken := hx
    rw [ht, List.mem_singleton] at hx
    exact ⟨ip, hx, hip ▸ hk.key⟩

theorem routes_confirmPoll (hc : calls.Succeed) (h : Agrees c k static sl) (ht : sl.taken = [])
    {ip e : Text} (hg : HasGround g (.confirm (.poll ip e)) sl) :
    EndsRouted c k static g (confirmStep g calls (.poll ip e)) sl := by
  simp only [EndsRouted, confirmStep, wp_ite, wp_pure, wp_bind, wp_queryPeers_none, wp_peer, hc.query]
  refine ⟨fun _ => .still h (hg.confirm (fun _ hi => by cases hi) False.elim) rfl ht, fun _ =>
    ⟨fun _ => .return h ht, fun _ => ?_⟩⟩
  have hpoll : KeepsRoutes c k static g (.confirm6 (.poll ip e)) sl := .still h hg rfl ht
  cases hp : sl.peer with
  | none => exact hpoll
  | some p =>
    simp only [wp_ite, wp_pure]
    refine ⟨fun _ => hpoll, fun hl => ?_⟩
    have hhs : HasHandshake sl.peer := ⟨p, hp, (not_or.mp hl).1⟩
    exact .still h (hg.confirm (fun _ hi => hi) fun _ => hhs) rfl ht

/-- The confirmation ends: the entry is direct again. -/
theorem routes_finalize (hc : calls.Succeed) (h : Agrees c k static sl) (ht : sl.taken = []) {ip e : Text}
    (hg : HasGround g (.confirm (.finalize ip e)) sl) :
    EndsRouted c k static g (confirmStep g calls (.finalize ip e)) sl := by
  simp only [EndsRouted, confirmStep, wp_bind, wp_entry, wp_ite, wp_pure, wp_wgSet_done, wp_update,
    wp_saveState_true, hc.set, hc.save]
  refine ⟨fun _ => .return h ht, fun ho => ⟨fun _ => ?_, fun hn => absurd trivial hn⟩⟩
  obtain ⟨s, hs, hsg, _, hrun⟩ := ownsConfirm_iff.mp (by simpa using ho)
  have hgs := hg s hs hsg
  have hip : s.ip = ip := hgs.ip ip rfl
  have hk := h.known s hs
  obtain ⟨hr, hhs⟩ := route_apply s.ip e keepalive sl.peer
  refine ⟨.of_some (s := s.promote .host6 e) ?_ (hk.congr rfl rfl rfl) ⟨rfl, hip ▸ hr,
    hip ▸ hhs (hgs.found trivial hrun)⟩, hasGround_cleanup, (fun _ _ hn => by cases hn),
    fun x hx => ?_⟩
  · rw [Slot.entry_update, Slot.entry_execute, hs, Option.map_some]
  · have hx : x ∈ slash32 ip :: sl.taken := hx
    rw [ht, List.mem_singleton] at hx
    exact ⟨ip, hx, hip ▸ hk.key⟩

theorem routes_confirmFail (hc : calls.Succeed) (h : Agrees c k static sl) (ht : sl.taken = []) :
    EndsRouted c k static g (confirmStep g calls .fail) sl := by
  simp only [EndsRouted, confirmStep, wp_bind, wp_entry, wp_ite, wp_pure]
  refine ⟨fun _ => .return h ht, fun ho => ?_⟩
  obtain ⟨s, hs, _, _⟩ := ownsConfirm_iff.mp (by simpa using ho)
  exact routes_giveUp hc hs (h.known s hs) ht

theorem routes_confirmStep (hc : calls.Succeed) (h : Agrees c k static sl) (ht : sl.taken = [])
    {pc : ConfirmPc} (hg : HasGround g (.confirm pc) sl) :
    EndsRouted c k static g (confirmStep g calls pc) sl := by
  cases pc with
  | setup ip e => exact routes_setup hc h ht hg
  | poll ip e => exact routes_confirmPoll hc h ht hg
  | finalize ip e => exact routes_finalize hc h ht hg
  | fail => exact routes_confirmFail hc h ht

theorem routes_cleanupWorker (mode : WorkerMode) (hc : calls.Succeed) (h : Agrees c k static sl)
    (ht : sl.taken = []) : EndsRouted c k static g (cleanupWorker g mode calls) sl := by
  have hstill : KeepsRoutes c k static g ⟨.finished, none⟩ sl := .still h hasGround_finished rfl ht
  simp only [EndsRouted, cleanupWorker, wp_bind, wp_entry]
  cases hs : sl.entry with
  | none => exact hstill
  | some s =>
    simp only [wp_ite, wp_bind, wp_pure, wp_tryWgSet_done, wp_renew, wp_update, wp_handle,
      wp_saveState_true, hc.remove, hc.save]
    refine ⟨fun _ => ?_, fun _ => hstill⟩
    rw [Slot.renew_some (sl.execute .remove) (s := s) hs]
    exact .still (.of_some rfl ((h.known s hs).congr rfl rfl rfl) ⟨rfl, plain_none static⟩)
      hasGround_finished rfl ht

/-- A step of a worker keeps the agreement and the ground of the worker. -/
theorem routes_threadStep (t : Thread) (hc : calls.Succeed) (h : Agrees c k static sl)
    (ht : sl.taken = []) (hg : HasGround t.generation t.pc sl) :
    EndsRouted c k static t.generation (t.step calls) sl := by
  unfold EndsRouted Thread.step
  cases hpc : t.pc with
  | probe pc =>
    rw [wp_handle]
    exact wp_mono (routes_probeStep hc h ht (hpc ▸ hg)) (fun _ _ h => h) fun _ _ => False.elim
  | confirm pc =>
    rw [wp_handle]
    exact wp_mono (routes_confirmStep hc h ht (hpc ▸ hg)) (fun _ _ h => h) fun _ _ => False.elim
  | cleanup => exact routes_cleanupWorker t.mode hc h ht
  | finished => exact .still h hasGround_finished rfl ht

end Worker

end Agent
