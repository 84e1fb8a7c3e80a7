import WireguardP2p.Agent.Fields
import WireguardP2p.Agent.Fencing

/-! Control leases, section by section, where the calls to WireGuard succeed. An entry has a lease that
    runs, or its control session has expired and it is a Direct at rest with its route (`Leased`). A pass
    of the monitor leaves no entry whose lease is over without a healthy Direct (`InLease`). -/

namespace Agent
open Ipaddress Python Candidates Raising

/-- The lease of an entry with a control session, and the rest of one whose session has expired. -/
structure Leased (s : PeerState) (p : Option WgPeer) : Prop where
  ip_ne : s.ip ≠ []
  candidates_ne : s.candidates ≠ []
  lease : s.controlExpired = false → s.leaseExpires ≠ .nan ∧ s.leaseExpires ≠ .fin 0
  expired : s.controlExpired = true →
    s.mode = .direct ∧ s.workerRunning = false ∧ holdsRoute p s.ip = true

def Slot.Leased (sl : Slot) : Prop := ∀ s, sl.entry = some s → Agent.Leased s sl.peer

/-- At the time `now` the lease of the entry runs, or its session has expired and its Direct is healthy. -/
def Slot.InLease (now : Time) (sl : Slot) : Prop := ∀ s, sl.entry = some s →
  (PyFloat.fin now).lt s.leaseExpires = true ∨
    s.controlExpired = true ∧ directPeerHealthy sl.peer s.ip now = true

section Leases
variable {sl : Slot} {s : PeerState} {p : Option WgPeer}

theorem leased_none (hs : sl.entry = none) : sl.Leased := fun _ h => absurd (hs.symm.trans h) nofun

theorem leased_some (hs : sl.entry = some s) (h : Leased s sl.peer) : sl.Leased := fun t ht => by
  obtain rfl := Option.some.inj (hs.symm.trans ht)
  exact h

theorem inLease_none {now : Time} (hs : sl.entry = none) : sl.InLease now :=
  fun _ h => absurd (hs.symm.trans h) nofun

/-- The bounds of a lease are positive. -/
theorem add_pos_of_time (now : Time) {d : ℚ} (hd : 0 < d) : 0 < (now : ℚ) + d :=
  add_pos_of_nonneg_of_pos now.coe_nonneg hd

theorem pyMax_ne_zero {a : PyFloat} {x : ℚ} (hx : 0 < x) : pyMax a (.fin x) ≠ .fin 0 := by
  unfold pyMax
  by_cases hlt : a.lt (.fin x) = true
  · rw [if_pos hlt, Ne, PyFloat.fin.injEq]
    exact hx.ne'
  · rw [if_neg hlt]
    rintro rfl
    exact hlt (by simp [PyFloat.lt, PyFloat.le, hx.le, hx.ne])

theorem pyMin_ne_zero {a : PyFloat} {y : ℚ} (ha : a ≠ .fin 0) (hy : 0 < y) : pyMin a (.fin y) ≠ .fin 0 := by
  unfold pyMin
  split_ifs
  · rw [Ne, PyFloat.fin.injEq]
    exact hy.ne'
  · exact ha

/-- A lease that is not a number stays so; every other one is clamped to a number that is not zero. -/
theorem clampLease_counts {requested : PyFloat} (now : Time) (h : requested ≠ .nan) :
    clampLease requested now ≠ .nan ∧ clampLease requested now ≠ .fin 0 := by
  have hmax : pyMax requested (.fin (now + 30)) ≠ .nan := by
    unfold pyMax
    split_ifs
    · nofun
    · exact h
  have hmin {a : PyFloat} {x : ℚ} (ha : a ≠ .nan) : pyMin a (.fin x) ≠ .nan := by
    unfold pyMin
    split_ifs
    · nofun
    · exact ha
  exact ⟨hmin hmax, pyMin_ne_zero (pyMax_ne_zero (add_pos_of_time now (by norm_num)))
    (add_pos_of_time now (by norm_num))⟩

/-- A lease that counts and is not over runs on. -/
theorem lt_of_not_le {x : PyFloat} {now : Time} (hn : x ≠ .nan) (hle : x.le (.fin now) = false) :
    (PyFloat.fin now).lt x = true := by
  cases x with
  | fin q =>
    have hlt : (now : ℚ) < q := not_le.mp (of_decide_eq_false hle)
    simp [PyFloat.lt, PyFloat.le, hlt.le, hlt.ne]
  | inf => rfl
  | negInf => cases hle
  | nan => exact absurd rfl hn

/-! ### Offers and removals -/

/-- An entry with the control fields of an offer has a lease. -/
theorem leased_of_control {o : Offer} (hn : o.requestedExpiry ≠ .nan)
    (h : sl.entry.map PeerState.control = some o.control) : sl.Leased := by
  obtain ⟨s, hs, hc⟩ := Option.map_eq_some_iff.mp h
  simp only [PeerState.control, Offer.control, Control.mk.injEq] at hc
  obtain ⟨_, _, hip, hcand, hexp, hlease⟩ := hc
  refine leased_some hs ⟨hip ▸ o.peerIp_ne, hcand ▸ o.candidates_ne, fun _ => ?_, fun he => ?_⟩
  · exact hlease ▸ clampLease_counts o.now hn
  · rw [hexp] at he
    cases he

theorem leased_offerSection {o : Offer} {calls : OfferCalls} (hn : o.requestedExpiry ≠ .nan)
    (hq : calls.query = none) (hr : calls.remove = .done) (h : sl.Leased) :
    (offerSection o calls).wp (fun _ => Slot.Leased) (fun _ => Slot.Leased) sl := by
  have hres {sl' : Slot} (h' : if sessionCheck sl.entry o = .current then
      sl'.entry.map PeerState.control = some o.control else sl' = sl) : sl'.Leased := by
    by_cases hc : sessionCheck sl.entry o = .current
    · rw [if_pos hc] at h'
      exact leased_of_control hn h'
    · rw [if_neg hc] at h'
      exact h' ▸ h
  exact wp_mono (control_offerSection hq hr sl) (fun _ _ => hres) fun _ _ => hres

/-- A healthy Direct whose session expires. -/
theorem leased_expire {now : Time} {f : PeerState → PeerState} (hs : sl.entry = some s)
    (h : Leased s sl.peer) (hh : directPeerHealthy sl.peer s.ip now = true)
    (hf : (f s).ip = s.ip ∧ (f s).candidates = s.candidates ∧ (f s).controlExpired = true ∧
      (f s).mode = .direct ∧ (f s).workerRunning = false) : (sl.update f).Leased := by
  simp only [directPeerHealthy, Bool.and_eq_true] at hh
  obtain ⟨hip, hc, he, hm, hr⟩ := hf
  refine leased_some (s := f s) (by rw [Slot.entry_update, hs, Option.map_some])
    ⟨hip ▸ h.ip_ne, hc ▸ h.candidates_ne, fun hn => ?_, fun _ => ⟨hm, hr, hip ▸ hh.1.2⟩⟩
  rw [he] at hn
  cases hn

theorem leased_removeSection (r : Removal) (now : Time) {calls : RemoveCalls} (hq : calls.query = none)
    (hr : calls.remove = .done) (h : sl.Leased) :
    (removeSection r now calls).wp (fun _ => Slot.Leased) (fun _ => Slot.Leased) sl := by
  simp only [removeSection, wp_bind, wp_entry]
  cases hs : sl.entry with
  | none => exact h
  | some s =>
    simp only [wp_ite, wp_bind, wp_pure, wp_queryPeers_none, wp_peer, wp_update, wp_saveState,
      wp_removeIfPresent, wp_wgSet_done, retire, wp_renew, wp_deleteEntry, hq, hr]
    have hgone (sl' : Slot) : Slot.Leased { sl' with entry := none } := leased_none rfl
    refine ⟨fun _ => h, fun hm => ⟨fun hh => ?_, fun _ => ⟨fun _ => ⟨fun _ => hgone _, fun _ => hgone _⟩,
      fun _ => ⟨fun _ => hgone _, fun _ => hgone _⟩⟩⟩⟩
    rw [not_or, not_not, not_not] at hm
    rw [Bool.and_eq_true, ← hm.2] at hh
    have hexp := leased_expire (f := fun s => { s.expire sl.peer with
      selectedType := s.selectedType <|> observedTypeForEndpoint (peerEndpoint sl.peer) })
      hs (h s hs) hh.2 ⟨rfl, rfl, rfl, rfl, rfl⟩
    exact ⟨fun _ => hexp, fun _ => hexp⟩

theorem leased_cleanupPeer (active : Bool) (remove : Outcome) (h : sl.Leased) :
    (cleanupPeer active remove).wp (fun _ => Slot.Leased) (fun _ => Slot.Leased) sl := by
  simp only [cleanupPeer, wp_bind, wp_entry]
  cases hs : sl.entry with
  | none => exact h
  | some s =>
    simp only [wp_ite, wp_bind, wp_pure, wp_handle, wp_removeIfPresent, wp_wgSet, retire, wp_renew,
      wp_update, wp_deleteEntry]
    have hgone (sl' : Slot) : Slot.Leased { sl' with entry := none } := leased_none rfl
    exact ⟨fun _ => h, fun _ => ⟨fun _ => hgone _, fun _ => ⟨fun _ => hgone _, fun _ => hgone _,
      fun _ => hgone _⟩⟩⟩

/-! ### The monitor -/

/-- The control session has a lease. -/
structure Control.Counts (c : Control) : Prop where
  ip_ne : c.ip ≠ []
  candidates_ne : c.candidates ≠ []
  expired : c.controlExpired = false
  lease : c.leaseExpires ≠ .nan ∧ c.leaseExpires ≠ .fin 0

/-- The lease runs at the time `now`. -/
structure Control.Runs (now : Time) (c : Control) : Prop extends c.Counts where
  lt : (PyFloat.fin now).lt c.leaseExpires = true

theorem leased_of_counts (h : ∀ c, sl.entry.map PeerState.control = some c → c.Counts) :
    sl.Leased := by
  intro s hs
  have hr := h s.control (by rw [hs, Option.map_some])
  refine ⟨hr.ip_ne, hr.candidates_ne, fun _ => hr.lease, fun he => ?_⟩
  rw [show s.controlExpired = false from hr.expired] at he
  cases he

theorem settled_of_runs {now : Time} (h : ∀ c, sl.entry.map PeerState.control = some c → c.Runs now) :
    sl.Leased ∧ sl.InLease now :=
  ⟨leased_of_counts fun c hc => (h c hc).toCounts,
    fun s hs => .inl (h s.control (by rw [hs, Option.map_some])).lt⟩

/-- The end of a pass over a key. -/
abbrev LeavesInLease {α : Type} (p : Section α) (now : Time) (sl : Slot) : Prop :=
  p.wp (fun _ sl' => sl'.Leased ∧ sl'.InLease now) (fun _ sl' => sl'.Leased) sl

theorem leased_monitorRoute_runs {now : Time} (remove : Outcome) (changed : Bool)
    (h : ∀ c, sl.entry.map PeerState.control = some c → c.Runs now) :
    LeavesInLease (monitorRoute now remove changed) now sl :=
  wp_mono (control_monitorRoute (R := fun x => ∀ c, x = some c → c.Runs now) nofun now remove changed sl
    h) (fun _ _ h => settled_of_runs h) fun _ _ h => (settled_of_runs h).1

/-- An expired entry keeps its healthy Direct, or goes. -/
theorem leased_monitorRoute_expired {now : Time} (changed : Bool) (hs : sl.entry = some s)
    (h : Leased s sl.peer) (he : s.controlExpired = true) :
    LeavesInLease (monitorRoute now .done changed) now sl := by
  obtain ⟨hm, hr, hroute⟩ := h.expired he
  simp only [LeavesInLease, monitorRoute, wp_bind, wp_entry, hs, wp_peer, wp_ite, wp_pure, wp_update,
    wp_wgSet_done, wp_renew, wp_deleteEntry, hm, he, hroute]
  refine ⟨fun hc => (by cases hc.1), fun _ => ⟨fun _ => ⟨fun hf => ?_, fun _ =>
    ⟨fun _ => ⟨leased_none rfl, inLease_none rfl⟩, fun hn => absurd trivial hn⟩⟩,
    fun hn => absurd trivial hn⟩⟩
  have hh : directPeerHealthy sl.peer s.ip now = true := by simp [directPeerHealthy, h.ip_ne, hroute, hf]
  refine ⟨leased_expire hs h hh ⟨rfl, rfl, he, rfl, hr⟩, fun t ht => .inr ?_⟩
  rw [Slot.entry_update, hs] at ht
  obtain rfl := Option.some.inj ht
  exact ⟨he, hh⟩

theorem leased_monitorPeer (now : Time) (h : sl.Leased) :
    LeavesInLease (monitorPeer now .done) now sl := by
  simp only [LeavesInLease, monitorPeer, wp_bind, wp_entry]
  cases hs : sl.entry with
  | none => exact ⟨h, inLease_none hs⟩
  | some s =>
    have hl := h s hs
    simp only [wp_ite, wp_bind, wp_pure, wp_update, wp_peer, wp_removeIfPresent, wp_wgSet_done, retire,
      wp_renew, wp_deleteEntry]
    have hgone (sl' : Slot) : Slot.Leased { sl' with entry := none } ∧
        Slot.InLease now { sl' with entry := none } := ⟨leased_none rfl, inLease_none rfl⟩
    refine ⟨fun _ => ⟨fun hh => ?_, fun _ => ⟨fun _ => hgone _, fun _ => hgone _⟩⟩, fun ho => ?_⟩
    · have he : (sl.update (PeerState.expire sl.peer)).entry = some (s.expire sl.peer) := by
        rw [Slot.entry_update, hs, Option.map_some]
      have hexp := leased_expire (f := PeerState.expire sl.peer) hs hl hh ⟨rfl, rfl, rfl, rfl, rfl⟩
      exact leased_monitorRoute_expired true he (hexp _ he) rfl
    · cases hexp : s.controlExpired with
      | true => exact leased_monitorRoute_expired false hs hl hexp
      | false =>
        obtain ⟨hn, hz⟩ := hl.lease hexp
        have hle : s.leaseExpires.le (.fin now) = false := by simpa [leaseOver, hexp, hz] using ho
        refine leased_monitorRoute_runs .done false fun c hc => ?_
        rw [hs, Option.map_some, Option.some.injEq] at hc
        exact hc ▸ ⟨⟨hl.ip_ne, hl.candidates_ne, hexp, hn, hz⟩, lt_of_not_le hn hle⟩

end Leases

/-! ### Workers -/

/-- The overlay IP whose route a step of a worker takes, if it comes to that. -/
def Thread.route? (t : Thread) (calls : WorkerCalls) (e : Option PeerState) : Option Text :=
  match t.pc with
  | .probe (.promote ip _ _) => if owns t.generation e then some ip else none
  | .confirm (.setup ip endpoint) =>
    if !calls.stop && ownsDirect t.generation endpoint e then some ip else none
  | .confirm (.finalize ip _) => if ownsConfirm t.generation e then some ip else none
  | _ => none

section Taken
variable {P : Text → Prop}

/-- The routes a section has taken are among `P`. -/
abbrev Takes (P : Text → Prop) (sl : Slot) : Prop := ∀ a ∈ sl.taken, P a

theorem takes_wgSet {c : Command} (o : Outcome) (hc : ∀ a ∈ c.taken, P a) :
    Keeps (Takes P) (wgSet o c) := fun sl h => by
  have hx : Takes P (sl.execute c) := fun a ha => (List.mem_append.mp ha).elim (hc a) (h a)
  exact (wp_wgSet o c).mpr ⟨fun _ => hx, fun _ => h, fun _ => hx⟩

theorem takes_tryWgSet {c : Command} (o : Outcome) (hc : ∀ a ∈ c.taken, P a) :
    Keeps (Takes P) (tryWgSet o c) := .handle (takes_wgSet o hc) fun _ => .pure _

theorem takes_update (f : PeerState → PeerState) : Keeps (Takes P) (update f) := fun _ h => h

theorem takes_renew : Keeps (Takes P) renew := fun sl h => by
  show ∀ a ∈ sl.renew.taken, P a
  rw [Slot.taken_renew]
  exact h

theorem takes_giveUp (calls : WorkerCalls) : Keeps (Takes P) (giveUp calls) :=
  .bind (takes_tryWgSet _ nofun) fun _ => .bind (takes_update _) fun _ =>
    .bind (keeps_saveState _) fun _ => .pure _

variable {g : ℕ} {calls : WorkerCalls} {sl : Slot}

/-- The program ends with routes among `P`. -/
abbrev EndsTaking {α : Type} (P : Text → Prop) (p : Section α) (sl : Slot) : Prop :=
  p.wp (fun _ => Takes P) (fun _ => Takes P) sl

theorem takes_probeStep (h : Takes P sl) : ∀ pc : ProbePc,
    (∀ ip a e, pc = .promote ip a e → owns g sl.entry = true → P (slash32 ip)) →
      EndsTaking P (probeStep g calls pc) sl
  | .start, _ => keeps_match (.pure _) (fun _ => .ite (fun _ => .pure _) fun _ =>
      .ite (fun _ => .pure _) fun _ => .pure _) sl h
  | .cancel, _ => keeps_match (.pure _) (fun _ => .ite (fun _ => .bind (takes_update _) fun _ =>
      .bind (keeps_saveState _) fun _ => .pure _) fun _ => .pure _) sl h
  | .check _ [], _ => h
  | .check _ (_ :: _), _ => Keeps.bind keeps_entry (fun _ => .ite (fun _ => .pure _) fun _ => .pure _) sl h
  | .baseline .., _ => Keeps.bind (keeps_queryPeers _) (fun _ => .bind keeps_peer fun _ => .pure _) sl h
  | .configure .., _ => Keeps.bind keeps_entry (fun _ => .ite (fun _ => .pure _) fun _ => .ite
      (fun _ => .bind (takes_wgSet _ nofun) fun _ => .bind (takes_update _) fun _ =>
        .bind (keeps_saveState _) fun _ => .pure _)
      fun _ => .bind (takes_tryWgSet _ nofun) fun _ => .pure _) sl h
  | .wait .., _ => Keeps.ite (fun _ => .pure _) (fun _ => .ite (fun _ => .pure _) fun _ =>
      .bind keeps_entry fun _ => .ite (fun _ => .pure _) fun _ => .pure _) sl h
  | .poll .., _ => Keeps.bind (keeps_queryPeers _) (fun _ => .bind keeps_peer fun p => by
      cases p with
      | none => exact .pure _
      | some p => exact .ite (fun _ => .pure _) fun _ => .pure _) sl h
  | .promote ip a e, hP => by
    simp only [EndsTaking, probeStep, wp_bind, wp_entry]
    cases hs : sl.entry with
    | none => exact h
    | some s =>
      rw [wp_ite]
      refine ⟨fun _ => h, fun ho => ?_⟩
      have hip := hP ip a e rfl (by simpa [hs] using ho)
      refine Keeps.bind (takes_wgSet _ fun x hx => ?_) (fun _ => .bind (takes_update _) fun _ =>
        .bind (keeps_saveState _) fun _ => .pure _) sl h
      exact List.mem_singleton.mp hx ▸ hip
  | .rekey .., _ => Keeps.ite (fun _ => .pure _) (fun _ => .pure _) sl h
  | .fail, _ => Keeps.bind keeps_entry (fun _ => .ite (fun _ => .pure _) fun _ => takes_giveUp calls) sl h

theorem takes_confirmStep (h : Takes P sl) : ∀ pc : ConfirmPc,
    (∀ ip e, pc = .setup ip e → calls.stop = false → ownsDirect g e sl.entry = true → P (slash32 ip)) →
      (∀ ip e, pc = .finalize ip e → ownsConfirm g sl.entry = true → P (slash32 ip)) →
        EndsTaking P (confirmStep g calls pc) sl
  | .setup ip e, hP, _ => by
    refine (wp_ite ..).mpr ⟨fun _ => h, fun hstop => ?_⟩
    rw [wp_bind, wp_entry, wp_ite]
    refine ⟨fun _ => h, fun ho => ?_⟩
    have hip := hP ip e rfl (by simpa using hstop) (by simpa using ho)
    have hset (k : ℕ) : ∀ a ∈ (Command.route (slash32 ip) e k).taken, P a := fun a ha =>
      List.mem_singleton.mp ha ▸ hip
    refine Keeps.bind (takes_update _) (fun _ => .ite (fun _ => ?_) fun _ => ?_) sl h
    · exact .bind (takes_wgSet _ nofun) fun _ => .bind (takes_wgSet _ (hset _)) fun _ =>
        .bind (keeps_saveState _) fun _ => .pure _
    · exact .bind (.handle (.bind (takes_wgSet _ nofun) fun _ => takes_wgSet _ (hset _))
        fun _ => .pure _) fun _ => .bind (takes_tryWgSet _ nofun) fun _ => .bind (takes_update _) fun _ =>
          .bind (keeps_saveState _) fun _ => .pure _
  | .poll .., _, _ => Keeps.ite (fun _ => .pure _) (fun _ => .ite (fun _ => .pure _) fun _ =>
      .bind (keeps_queryPeers _) fun _ => .bind keeps_peer fun p => by
        cases p with
        | none => exact .pure _
        | some p => exact .ite (fun _ => .pure _) fun _ => .pure _) sl h
  | .finalize ip e, _, hP => by
    rw [EndsTaking, confirmStep, wp_bind, wp_entry, wp_ite]
    refine ⟨fun _ => h, fun ho => ?_⟩
    have hip := hP ip e rfl (by simpa using ho)
    have hset (k : ℕ) : ∀ a ∈ (Command.route (slash32 ip) e k).taken, P a := fun a ha =>
      List.mem_singleton.mp ha ▸ hip
    refine Keeps.ite (fun _ => ?_) (fun _ => ?_) sl h
    · exact .bind (takes_wgSet _ (hset _)) fun _ => .bind (takes_update _) fun _ =>
        .bind (keeps_saveState _) fun _ => .pure _
    · exact .bind (takes_tryWgSet _ (hset _)) fun _ => .pure _
  | .fail, _, _ => Keeps.bind keeps_entry (fun _ => .ite (fun _ => .pure _) fun _ => takes_giveUp calls)
      sl h

/-- A step of a worker takes the route it is about to take, and no other. -/
theorem takes_threadStep (t : Thread) (h : sl.taken = []) :
    EndsTaking (fun a => ∃ ip, t.route? calls sl.entry = some ip ∧ a = slash32 ip) (t.step calls) sl := by
  have hnone : Takes (fun a => ∃ ip, t.route? calls sl.entry = some ip ∧ a = slash32 ip) sl := by
    rw [Takes, h]
    nofun
  unfold EndsTaking Thread.step
  cases hpc : t.pc with
  | probe pc =>
    rw [wp_handle]
    refine wp_mono (takes_probeStep hnone pc ?_) (fun _ _ h => h) fun _ _ h => h
    rintro ip a e rfl ho
    exact ⟨ip, by simp [Thread.route?, hpc, ho], rfl⟩
  | confirm pc =>
    rw [wp_handle]
    refine wp_mono (takes_confirmStep hnone pc ?_ ?_) (fun _ _ h => h) fun _ _ h => h
    · rintro ip e rfl hstop ho
      exact ⟨ip, by simp [Thread.route?, hpc, ho, hstop], rfl⟩
    · rintro ip e rfl ho
      exact ⟨ip, by simp [Thread.route?, hpc, ho], rfl⟩
  | cleanup =>
    refine keeps_match (.pure _) (fun s => .ite (fun _ => ?_) fun _ => .pure _) sl hnone
    exact .bind (takes_tryWgSet _ nofun) fun _ => .bind takes_renew fun _ =>
      .bind (takes_update _) fun _ => .bind (.handle (keeps_saveState _) fun _ => .pure _) fun _ =>
        .pure _
  | finished => exact hnone

end Taken

/-! ### Expired entries -/

section Expired
variable {sl : Slot} {s : PeerState} {t : Thread} {calls : WorkerCalls}

/-- A Direct at rest is left alone by a worker that takes no route. -/
theorem still_threadStep (hs : sl.entry = some s) (hm : s.mode = .direct) (hr : s.workerRunning = false)
    (hpc : t.pc ≠ .probe .cancel) (hroute : t.route? calls sl.entry = none) :
    (t.step calls).wp (fun _ sl' => sl' = sl) (fun _ _ => False) sl := by
  have howns (g : ℕ) : owns g (some s) = false := by simp [owns, hr]
  have hconf (g : ℕ) : ownsConfirm g (some s) = false := by simp [ownsConfirm, hm]
  unfold Thread.step
  cases hp : t.pc with
  | probe pc =>
    rw [wp_handle]
    cases pc with
    | start => simp [probeStep, hs, howns]
    | cancel => exact absurd hp hpc
    | check ip cs => cases cs <;> simp [probeStep, hs, howns]
    | baseline ip a rest => simp [probeStep]
    | configure ip a rest b => simp [probeStep, hs, howns]
    | wait ip a rest b => simp [probeStep, hs, howns]
    | poll ip a rest b => cases hq : sl.peer <;> simp [probeStep, hq]
    | promote ip a e => simp [probeStep, hs, howns]
    | rekey ip a e => simp [probeStep]
    | fail => simp [probeStep, hs, howns]
  | confirm pc =>
    rw [wp_handle]
    cases pc with
    | setup ip e =>
      have hno (hstop : calls.stop = false) : ownsDirect t.generation e (some s) = false := by
        simpa [Thread.route?, hp, hs, hstop] using hroute
      cases hstop : calls.stop with
      | true => simp [confirmStep, hstop]
      | false => simp [confirmStep, hs, hstop, hno hstop]
    | poll ip e => cases hq : sl.peer <;> simp [confirmStep, hq]
    | finalize ip e => simp [confirmStep, hs, hconf]
    | fail => simp [confirmStep, hs, hconf]
  | cleanup => simp [cleanupWorker, hs, hr]
  | finished => simp

/-- A step of a worker, where the session of an entry it routes has not expired. -/
theorem leased_threadStep (h : sl.Leased) (hpc : t.pc ≠ .probe .cancel)
    (hroute : (t.route? calls sl.entry).isSome → ∀ s, sl.entry = some s → s.controlExpired = false) :
    (t.step calls).wp (fun _ => Slot.Leased) (fun _ => Slot.Leased) sl := by
  by_cases hexp : ∃ s, sl.entry = some s ∧ s.controlExpired = true
  · obtain ⟨s, hs, he⟩ := hexp
    obtain ⟨hm, hr, _⟩ := (h s hs).expired he
    have hnone : t.route? calls sl.entry = none := by
      rw [← Option.not_isSome_iff_eq_none]
      intro hsome
      rw [hroute hsome s hs] at he
      cases he
    exact wp_mono (still_threadStep hs hm hr hpc hnone) (fun _ _ hsl => hsl ▸ h) fun _ _ => False.elim
  · have hcounts : ∀ c, sl.entry.map PeerState.control = some c → c.Counts := by
      intro c hc
      obtain ⟨s, hs, rfl⟩ := Option.map_eq_some_iff.mp hc
      have he : s.controlExpired = false := by
        rw [← Bool.not_eq_true]
        exact fun he => hexp ⟨s, hs, he⟩
      exact ⟨(h s hs).ip_ne, (h s hs).candidates_ne, he, (h s hs).lease he⟩
    exact wp_mono (control_threadStep (R := fun x => ∀ c, x = some c → c.Counts) t calls sl hcounts)
      (fun _ _ h => leased_of_counts h) fun _ _ h => leased_of_counts h

/-- Where the entry has candidates and an overlay IP, no probe goes on to cancel. -/
theorem uncancelled_threadStep (h : sl.Leased) :
    (t.step calls).wp (fun next _ => next.pc ≠ .probe .cancel) (fun _ _ => True) sl := by
  unfold Thread.step
  cases hp : t.pc with
  | probe pc =>
    rw [wp_handle]
    cases pc with
    | start =>
      simp only [probeStep, wp_bind, wp_entry]
      cases hs : sl.entry with
      | none => simp [Next.return]
      | some s =>
        simp only [wp_ite, wp_pure]
        refine ⟨fun _ => by simp [Next.return], fun _ => ⟨fun he => ?_, fun _ => by simp [Next.probe]⟩⟩
        exact absurd he (not_or.mpr ⟨(h s hs).candidates_ne, (h s hs).ip_ne⟩)
    | cancel => cases hs : sl.entry <;> simp [probeStep, hs, Next.return]
    | check ip cs => cases cs <;> simp [probeStep, Next.return, Next.probe]
    | poll ip a rest b => cases hq : sl.peer <;> simp [probeStep, hq, Next.return, Next.probe]
    | promote ip a e => cases hs : sl.entry <;> simp [probeStep, hs, Next.return, Next.probe]
    | _ => simp [probeStep, Next.return, Next.probe]
  | confirm pc =>
    rw [wp_handle]
    cases pc with
    | poll ip e => cases hq : sl.peer <;> simp [confirmStep, hq, Next.return, Next.confirm6]
    | _ => simp [confirmStep, Next.return, Next.confirm6]
  | cleanup => cases hs : sl.entry <;> simp [cleanupWorker, hs]
  | finished => simp

end Expired

end Agent
