import WireguardP2p.Agent.Passes
import WireguardP2p.Agent.Refresh

/-! The back-off of a peer that cannot be reached. A worker that ends in failure writes the count of the
    failures and the time before which no probe may follow; offers that repeat the session and passes of
    the monitor leave both alone, and launch a probe only when the time has come. -/

namespace Agent
open Ipaddress Python Candidates Raising

/-- The back-off of an entry. -/
def PeerState.pause (s : PeerState) : ℕ × Time := (s.failures, s.retryAfter)

/-- The device peer has no /32 among its allowed IPs. -/
def NoRoute (p : Option WgPeer) : Prop := ∀ q, p = some q → ∀ ip, slash32 ip ∉ q.allowedIps

/-- The back-off of an entry, and its mark for a worker. -/
def PeerState.stand (s : PeerState) : (ℕ × Time) × ℕ × Bool := (s.pause, s.generation, s.workerRunning)

/-- The entry keeps its back-off and its mark; a new mark comes once the back-off is over. -/
structure Bides (now : Time) (s s' : PeerState) : Prop where
  pause : s'.pause = s.pause
  held : s.workerRunning = true → s'.workerRunning = true ∧ s'.generation = s.generation
  due : s'.workerRunning = true → s.workerRunning = true ∨ s.retryAfter ≤ now

/-- The section leaves the back-off of an entry it leaves; it marks the entry for a worker, or launches a
    probe, only once the back-off is over at the time `now`. -/
structure Waits (now : Time) (launch : Option ℕ) (v v' : View) : Prop where
  kept : ∀ s', v'.1 = some s' → ∃ s, v.1 = some s ∧ Bides now s s'
  launched : ∀ g, launch = some g → ∃ s s', v.1 = some s ∧ v'.1 = some s' ∧ s.retryAfter ≤ now ∧
    s'.generation = g ∧ s'.workerRunning = true

/-- The entry is left as it is, or deleted. -/
def Stays (v v' : View) : Prop := v'.1 = v.1 ∨ v'.1 = none

theorem NoRoute.holdsRoute {p : Option WgPeer} (h : NoRoute p) (ip : Text) : holdsRoute p ip = false := by
  cases p with
  | none => rfl
  | some q => exact decide_eq_false (h q rfl ip)

theorem Bides.of_stand {now : Time} {s s' : PeerState} (h : s'.stand = s.stand) : Bides now s s' := by
  obtain ⟨hpause, hrest⟩ := Prod.mk.inj h
  obtain ⟨hgeneration, hrunning⟩ := Prod.mk.inj hrest
  exact ⟨hpause, fun hr => ⟨hrunning.trans hr, hgeneration⟩, fun hr => Or.inl (hrunning.symm.trans hr)⟩

theorem Stays.waits {now : Time} {v v' : View} (h : Stays v v') : Waits now none v v' := by
  refine ⟨fun s' hs' => ?_, fun _ h => by cases h⟩
  rcases h with h | h
  · exact ⟨s', h ▸ hs', .of_stand rfl⟩
  · rw [h] at hs'
    cases hs'

theorem Waits.refl (now : Time) (v : View) : Waits now none v v := Stays.waits (.inl rfl)

/-! ### Offers -/

/-- The clock of `handle_offer` is read before STATE_LOCK is taken. -/
theorem readOffer_now {env : OfferEnv} {data : Json} {controller : Controller} {o : Offer}
    (h : readOffer env data controller = .ok o) : o.now = env.now := by
  rw [readOffer] at h
  iterate 12 obtain ⟨_, -, h⟩ := bind_ok h
  obtain ⟨endpoint, -, h⟩ := bind_ok h
  cases endpoint
  case' some e => by_cases htruthy : e.truthy = true
  all_goals try dsimp only at h
  case' pos => rw [if_pos htruthy] at h
  case' neg => rw [if_neg htruthy] at h
  all_goals
    iterate 4 obtain ⟨_, -, h⟩ := bind_ok h
    split at h
    · cases h
    · obtain ⟨lease, -, h⟩ := bind_ok h
      cases lease
      all_goals
        obtain ⟨_, -, h⟩ := bind_ok h
        obtain rfl := Except.ok.inj h
        rfl

section Offer
variable {o : Offer} {calls : OfferCalls} {sl : Slot} {s : PeerState}

/-- The mark for a probe, once the back-off is over. -/
theorem waits_startProbe {now : Time} {v : View} {s₀ : PeerState} (hs : sl.entry = some s) (hs₀ : v.1 = some s₀)
    (hstand : s.stand = s₀.stand) (hdue : s.retryAfter ≤ now) (hrun : s.workerRunning = false) :
    startProbe.wp (fun g sl' => Waits now (some g) v sl'.view) (fun _ _ => False) sl := by
  obtain ⟨hpause, hrest⟩ := Prod.mk.inj hstand
  have hdue₀ : s₀.retryAfter ≤ now := (Prod.mk.inj hpause).2.symm.le.trans hdue
  have hrun₀ : s₀.workerRunning = false := (Prod.mk.inj hrest).2.symm.trans hrun
  simp only [startProbe, wp_bind, wp_renew, wp_update, wp_entry, wp_pure]
  have he : ((sl.renew).update fun s => { s with workerRunning := true, mode := .probe }).entry =
      some { s with generation := sl.nextGeneration s.generation, workerRunning := true, mode := .probe } := by
    rw [Slot.entry_update, Slot.entry_renew, hs]
    rfl
  rw [he]
  refine ⟨fun s' hs' => ⟨s₀, hs₀, ?_⟩, fun g hg => ⟨s₀, _, hs₀, he, hdue₀, Option.some.inj hg, rfl⟩⟩
  obtain rfl := Option.some.inj (he.symm.trans hs')
  refine ⟨hpause, fun h => ?_, fun _ => Or.inr hdue₀⟩
  rw [hrun₀] at h
  cases h

theorem waits_launchIfDue {v : View} {s₀ : PeerState} (hs : sl.entry = some s) (hs₀ : v.1 = some s₀)
    (hstand : s.stand = s₀.stand) :
    (launchIfDue o).wp (fun launch sl' => Waits o.now launch v sl'.view) (fun _ _ => False) sl := by
  rw [launchIfDue, wp_bind, wp_peer, wp_bind, wp_entry, hs]
  simp only [wp_ite, wp_bind, wp_pure]
  refine ⟨fun hdue => ?_, fun _ => ⟨fun s' hs' => ?_, fun _ h => by cases h⟩⟩
  · simp only [probeDue, Bool.and_eq_true, decide_eq_true_iff, Bool.not_eq_true'] at hdue
    exact wp_mono (waits_startProbe hs hs₀ hstand hdue.1.2 hdue.2) (fun _ _ h => h) fun _ _ h => h
  · obtain rfl := Option.some.inj (hs.symm.trans hs')
    exact ⟨s₀, hs₀, .of_stand hstand⟩

/-- An offer that repeats the session, where the device has no route. -/
theorem waits_offerSection (hs : sl.entry = some s) (h : Repeats s o) (hroute : NoRoute sl.peer) :
    (offerSection o calls).wp (fun reply sl' => Waits o.now reply.generation sl.view sl'.view)
      (fun _ sl' => ∃ launch, Waits o.now launch sl.view sl'.view) sl := by
  rw [offerSection, wp_bind, wp_queryPeers]
  refine ⟨fun _ => ?_, fun _ _ => ⟨none, .refl _ _⟩⟩
  rw [wp_bind, wp_entry, hs]
  cases hc : sessionCheck (some s) o with
  | stale => exact .refl _ _
  | startChanged => exact ⟨none, .refl _ _⟩
  | current =>
    have he : (sl.update (PeerState.refresh o)).entry = some (s.refresh o) := by
      rw [Slot.entry_update, hs, Option.map_some]
    simp only [acceptOffer, wp_bind, wp_pure, wp_saveState, wp_prepareOffer_repeated hs h, followDirect,
      wp_peer, Slot.peer_update, hroute.holdsRoute, wp_ite, Bool.false_eq_true, false_imp_iff, true_and,
      not_false_eq_true, true_imp_iff]
    refine wp_mono (@waits_launchIfDue o _ _ sl.view s he hs rfl) (fun launch t ht => ?_) fun _ _ h => h.elim
    exact ⟨fun _ => ht, fun _ => ⟨launch, ht⟩⟩

end Offer

/-! ### Removals, the monitor and the initiator -/

section Sections
variable {sl : Slot} {now : Time}

theorem NoRoute.unhealthy {p : Option WgPeer} (h : NoRoute p) (ip : Text) :
    directPeerHealthy p ip now = false := by
  simp [directPeerHealthy, h.holdsRoute]

theorem stays_removeSection (r : Removal) (calls : RemoveCalls) (hroute : NoRoute sl.peer) :
    (removeSection r now calls).wp (fun _ sl' => Stays sl.view sl'.view) (fun _ sl' => Stays sl.view sl'.view) sl := by
  rw [removeSection, wp_bind, wp_entry]
  cases hs : sl.entry with
  | none => exact .inl rfl
  | some s =>
    simp only [wp_ite, wp_bind, wp_pure, wp_queryPeers, wp_peer, hroute.unhealthy, Bool.and_false,
      Bool.false_eq_true, false_imp_iff, true_and, not_false_eq_true, true_imp_iff, wp_removeIfPresent,
      wp_wgSet, retire, wp_renew, wp_update, wp_deleteEntry, wp_saveState]
    have hgone : ∀ t : Slot, Stays sl.view (Slot.view { t with entry := none }) := fun _ => .inr rfl
    exact ⟨fun _ => .inl rfl, fun _ => ⟨fun _ => ⟨fun _ => ⟨fun _ => hgone _, fun _ => hgone _⟩,
      fun _ => ⟨fun _ => ⟨fun _ => hgone _, fun _ => hgone _⟩, fun _ => .inl rfl, fun _ => .inl rfl⟩⟩,
      fun _ _ => .inl rfl⟩⟩

theorem waits_monitorLaunch {v : View} (changed : Bool) (hs : ∀ s, sl.entry = some s → ∃ s₀, v.1 = some s₀ ∧
    s.stand = s₀.stand) :
    (monitorLaunch now changed).wp (fun r sl' => Waits now r.launch v sl'.view) (fun _ _ => False) sl := by
  rw [monitorLaunch, wp_bind, wp_entry]
  cases he : sl.entry with
  | none => exact Stays.waits (.inr he)
  | some s =>
    obtain ⟨s₀, hs₀, hstand⟩ := hs s he
    simp only [wp_ite, wp_bind, wp_pure]
    refine ⟨fun hdue => ?_, fun _ => ⟨fun s' hs' => ?_, fun _ h => by cases h⟩⟩
    · simp only [Bool.and_eq_true, decide_eq_true_iff, Bool.not_eq_true'] at hdue
      exact wp_mono (waits_startProbe he hs₀ hstand hdue.1.1 hdue.1.2) (fun _ _ h => h) fun _ _ h => h
    · obtain rfl := Option.some.inj (he.symm.trans hs')
      exact ⟨s₀, hs₀, .of_stand hstand⟩

theorem waits_monitorProbe (changed : Bool) : (monitorProbe now changed).wp
    (fun r sl' => Waits now r.launch sl.view sl'.view) (fun _ _ => False) sl := by
  rw [monitorProbe, wp_bind, wp_entry]
  cases he : sl.entry with
  | none => exact .refl _ _
  | some s =>
    simp only [wp_ite, wp_bind, wp_update, wp_pure]
    refine ⟨fun _ => ⟨fun _ => .refl _ _, fun _ => ?_⟩, fun _ => ?_⟩
    · refine waits_monitorLaunch true fun t ht => ?_
      rw [Slot.entry_update, he] at ht
      obtain rfl := Option.some.inj ht
      exact ⟨s, he, rfl⟩
    · exact waits_monitorLaunch changed fun t ht => ⟨t, ht, rfl⟩

theorem waits_monitorPeer (remove : Outcome) (hroute : NoRoute sl.peer) : (monitorPeer now remove).wp
    (fun r sl' => Waits now r.launch sl.view sl'.view) (fun _ sl' => Stays sl.view sl'.view) sl := by
  rw [monitorPeer, wp_bind, wp_entry]
  cases hs : sl.entry with
  | none => exact .refl _ _
  | some s =>
    have hgone : ∀ t : Slot, Waits now none sl.view (Slot.view { t with entry := none }) :=
      fun _ => Stays.waits (.inr rfl)
    simp only [wp_ite, wp_bind, wp_peer, hroute.unhealthy, Bool.false_eq_true, false_imp_iff, true_and,
      not_false_eq_true, true_imp_iff, wp_pure, wp_removeIfPresent, wp_wgSet, retire, wp_renew, wp_update,
      wp_deleteEntry]
    refine ⟨fun _ => ⟨fun _ => hgone _, fun _ => ⟨fun _ => hgone _, fun _ => .inl rfl,
      fun _ => .inl rfl⟩⟩, fun _ => ?_⟩
    simp only [monitorRoute, wp_bind, wp_entry, hs, wp_peer, wp_ite, wp_pure, hroute.holdsRoute,
      Bool.false_eq_true, false_imp_iff, true_and, not_false_eq_true, true_imp_iff]
    exact ⟨fun _ => .refl _ _, fun _ => wp_mono (waits_monitorProbe false) (fun _ _ h => h) fun _ _ h => h.elim⟩

theorem stays_cleanupPeer (active : Bool) (remove : Outcome) : (cleanupPeer active remove).wp
    (fun _ sl' => Stays sl.view sl'.view) (fun _ sl' => Stays sl.view sl'.view) sl := by
  rw [cleanupPeer, wp_bind, wp_entry]
  cases hs : sl.entry with
  | none => exact .inl rfl
  | some s =>
    simp only [wp_ite, wp_bind, wp_pure, wp_handle, wp_removeIfPresent, wp_wgSet, retire, wp_renew, wp_update,
      wp_deleteEntry]
    exact ⟨fun _ => .inl rfl, fun _ => ⟨fun _ => .inr rfl, fun _ => ⟨fun _ => .inr rfl, fun _ => .inr rfl,
      fun _ => .inr rfl⟩⟩⟩

end Sections

/-! ### Workers -/

/-- The step of the worker is the one in which it ends in failure: the end of its candidates or of its
    window, a confirmation that cannot be set up, or the cleanup after it died at work. -/
def Thread.fails (t : Thread) (calls : WorkerCalls) (e : Option PeerState) : Bool :=
  match t.pc with
  | .probe .fail => owns t.generation e
  | .confirm .fail => ownsConfirm t.generation e
  | .confirm (.setup _ endpoint) => !calls.stop && ownsDirect t.generation endpoint e &&
    !decide (calls.remove = .done ∧ calls.set = .done)
  | .cleanup => e.any fun s : PeerState =>
    decide (s.generation = t.generation ∧ s.mode = t.mode.toMode ∧ s.workerRunning = true)
  | _ => false

/-- The step leaves the back-off, and gives no mark. -/
def Steady (v v' : View) : Prop := ∀ s', v'.1 = some s' → ∃ s, v.1 = some s ∧ s'.pause = s.pause ∧
  (s'.workerRunning = true → s.workerRunning = true)

/-- The step counts a failure and backs off. -/
def BacksOff (now : Time) (v v' : View) : Prop := ∀ s', v'.1 = some s' → ∃ s, v.1 = some s ∧
  s'.pause = (s.failures + 1, now + retryDelay (s.failures + 1)) ∧ s'.workerRunning = false

theorem Steady.refl (v : View) : Steady v v := fun s hs => ⟨s, hs, rfl, id⟩

theorem Steady.of_entry {v v' : View} (h : v'.1 = v.1) : Steady v v' := fun s hs => ⟨s, h ▸ hs, rfl, id⟩

section Workers
variable {g : ℕ} {calls : WorkerCalls} {sl : Slot} {v : View}

/-- The program gives no mark and leaves the back-off. -/
abbrev KeepsSteady (v : View) {α : Type} (p : Section α) : Prop := Keeps (fun sl => Steady v sl.view) p

theorem steady_update {f : PeerState → PeerState} (hpause : ∀ s, (f s).pause = s.pause)
    (hrun : ∀ s, (f s).workerRunning = true → s.workerRunning = true) : KeepsSteady v (update f) := by
  intro sl h s' hs'
  obtain ⟨s₁, hs₁, rfl⟩ := Option.map_eq_some_iff.mp hs'
  obtain ⟨s, hs, hp, hr⟩ := h s₁ hs₁
  exact ⟨s, hs, (hpause s₁).trans hp, fun h => hr (hrun s₁ h)⟩

theorem steady_wgSet (o : Outcome) (c : Command) : KeepsSteady v (wgSet o c) := fun _ h =>
  (wp_wgSet o c).mpr ⟨fun _ => h, fun _ => h, fun _ => h⟩

theorem steady_tryWgSet (o : Outcome) (c : Command) : KeepsSteady v (tryWgSet o c) :=
  .handle (steady_wgSet o c) fun _ => .pure _

/-- The step ends in failure, or leaves the back-off; one that sets up a route is not looked at. -/
abbrev Ends (fails : Bool) (now : Time) (sl : Slot) (p : Section Next) : Prop :=
  p.wp (fun _ sl' => NoRoute sl'.peer → if fails then BacksOff now sl.view sl'.view else Steady sl.view sl'.view)
    (fun _ sl' => NoRoute sl'.peer → if fails then BacksOff now sl.view sl'.view else Steady sl.view sl'.view) sl

theorem KeepsSteady.ends {p : Section Next} (h : KeepsSteady sl.view p) : Ends false calls.now sl p :=
  wp_mono (h sl fun s hs => ⟨s, hs, rfl, id⟩) (fun _ _ h _ => h) fun _ _ h _ => h

/-- A route that is set up is there at the end of the step. -/
theorem not_noRoute_route (ip e : Text) (n : ℕ) (p : Option WgPeer) :
    ¬ NoRoute ((Command.route (slash32 ip) e n).apply p) := fun h =>
  h _ rfl ip (List.mem_singleton.mpr rfl)

theorem backsOff_update {sl₁ : Slot} {f : PeerState → PeerState} (h : sl₁.entry = sl.entry.map f)
    (hf : ∀ s, (f s).failures = s.failures) :
    BacksOff calls.now sl.view (sl₁.update (PeerState.backOff calls.now)).view := by
  intro s' hs'
  obtain ⟨s₁, hs₁, rfl⟩ := Option.map_eq_some_iff.mp hs'
  obtain ⟨s, hs, rfl⟩ := Option.map_eq_some_iff.mp (h ▸ hs₁)
  refine ⟨s, hs, ?_, rfl⟩
  simp only [PeerState.pause, PeerState.backOff, hf]

theorem backsOff_giveUp : Ends true calls.now sl (giveUp calls) := by
  have hback : ∀ t : Slot, t.entry = sl.entry →
      BacksOff calls.now sl.view (t.update (PeerState.backOff calls.now)).view := fun t ht =>
    @backsOff_update calls sl t id (by rw [ht, Option.map_id, id]) fun _ => rfl
  simp only [Ends, wp_giveUp, wp_tryWgSet, if_true]
  exact ⟨fun _ => ⟨fun _ _ => hback _ rfl, fun _ _ => hback _ rfl⟩,
    fun _ => ⟨fun _ _ => hback _ rfl, fun _ _ => hback _ rfl⟩⟩

theorem keepsEntry_wgSet (e : Option PeerState) (o : Outcome) (c : Command) :
    Keeps (fun t => t.entry = e) (wgSet o c) := fun _ h => (wp_wgSet o c).mpr ⟨fun _ => h, fun _ => h, fun _ => h⟩

theorem ends_probeStep (k : PublicKey) (m : WorkerMode) :
    ∀ pc : ProbePc, Ends (Thread.fails ⟨k, g, m, .probe pc⟩ calls sl.entry) calls.now sl (probeStep g calls pc)
  | .start => KeepsSteady.ends <| keeps_match (.pure _) fun _ => .ite (fun _ => .pure _) fun _ =>
      .ite (fun _ => .pure _) fun _ => .pure _
  | .cancel => KeepsSteady.ends <| keeps_match (.pure _) fun _ => .ite (fun _ => .bind
      (steady_update (fun _ => rfl) fun _ h => by cases h) fun _ => .bind (keeps_saveState _) fun _ => .pure _)
        fun _ => .pure _
  | .check _ [] => KeepsSteady.ends (.pure _)
  | .check _ (_ :: _) => KeepsSteady.ends <| .bind keeps_entry fun _ => .ite (fun _ => .pure _) fun _ => .pure _
  | .baseline .. => KeepsSteady.ends <| .bind (keeps_queryPeers _) fun _ => .bind keeps_peer fun _ => .pure _
  | .configure .. => KeepsSteady.ends <| .bind keeps_entry fun _ => .ite (fun _ => .pure _) fun _ => .ite
      (fun _ => .bind (steady_wgSet _ _) fun _ => .bind (steady_update (fun _ => rfl) fun _ h => h) fun _ =>
        .bind (keeps_saveState _) fun _ => .pure _)
      fun _ => .bind (steady_tryWgSet _ _) fun _ => .pure _
  | .wait .. => KeepsSteady.ends <| .ite (fun _ => .pure _) fun _ => .ite (fun _ => .pure _) fun _ =>
      .bind keeps_entry fun _ => .ite (fun _ => .pure _) fun _ => .pure _
  | .poll .. => KeepsSteady.ends <| .bind (keeps_queryPeers _) fun _ => .bind keeps_peer fun p => by
      cases p with
      | none => exact .pure _
      | some p => exact .ite (fun _ => .pure _) fun _ => .pure _
  | .promote ip c actual => by
    show Ends false calls.now sl _
    rw [Ends, probeStep, wp_bind, wp_entry]
    cases hs : sl.entry with
    | none => exact fun _ => Steady.refl _
    | some s =>
      simp only [wp_ite, wp_bind, wp_pure, wp_wgSet, wp_update, wp_saveState, Slot.peer_update,
        Slot.peer_execute, not_noRoute_route, false_imp_iff, implies_true, true_and]
      exact ⟨fun _ _ => Steady.refl _, fun _ => ⟨fun _ _ => Steady.of_entry rfl, trivial⟩⟩
  | .rekey .. => KeepsSteady.ends <| .ite (fun _ => .pure _) fun _ => .pure _
  | .fail => by
    show Ends (owns g sl.entry) calls.now sl _
    rw [Ends, probeStep, wp_bind, wp_entry, wp_ite, wp_pure]
    cases ho : owns g sl.entry with
    | false => exact ⟨fun _ _ => Steady.refl _, fun h => absurd rfl h⟩
    | true => exact ⟨(fun h => by cases h), fun _ => backsOff_giveUp⟩

theorem ends_confirmStep (k : PublicKey) (m : WorkerMode) : ∀ pc : ConfirmPc,
    Ends (Thread.fails ⟨k, g, m, .confirm pc⟩ calls sl.entry) calls.now sl (confirmStep g calls pc)
  | .setup ip e => by
    simp only [Ends, Thread.fails, confirmStep, wp_bind, wp_ite, wp_pure, wp_entry, wp_update]
    refine ⟨fun hstop => ?_, fun hstop => ⟨fun howns => ?_, fun howns => ⟨fun hdone => ?_, fun hdone => ?_⟩⟩⟩
    · simp [hstop, Steady.refl]
    · simp only [Bool.not_eq_true'] at howns
      simp [howns, Steady.refl]
    · simp only [wp_wgSet_done, wp_saveState, Slot.peer_execute, not_noRoute_route, false_imp_iff, implies_true,
        true_and]
    · have hfails : (!calls.stop && ownsDirect g e sl.entry &&
          !decide (calls.remove = .done ∧ calls.set = .done)) = true := by
        rw [decide_eq_false hdone]
        simpa using ⟨Bool.eq_false_of_not_eq_true hstop, by simpa using howns⟩
      simp only [hfails, if_true]
      have hmark := (keepsEntry_wgSet (sl.entry.map fun s => { s with
        mode := .confirm6, workerRunning := true, started := calls.now, baselineHandshake := 0 }))
      have hback : ∀ t : Slot, t.entry = (sl.update fun s => { s with
          mode := .confirm6, workerRunning := true, started := calls.now, baselineHandshake := 0 }).entry →
          NoRoute t.peer → BacksOff calls.now sl.view (t.update (PeerState.backOff calls.now)).view :=
        fun t ht _ => backsOff_update ht fun _ => rfl
      refine wp_mono (Keeps.swallow (.bind (hmark calls.remove .remove) fun _ => hmark calls.set _) rfl ())
        (fun _ t ht => ?_) fun _ _ h => h.elim
      refine wp_mono (Keeps.swallow (hmark calls.undo .remove) ht ()) (fun _ t ht => ?_) fun _ _ h => h.elim
      rw [wp_saveState]
      exact ⟨fun _ => hback t ht, fun _ => hback t ht⟩
  | .poll .. => KeepsSteady.ends <| .ite (fun _ => .pure _) fun _ => .ite (fun _ => .pure _) fun _ =>
      .bind (keeps_queryPeers _) fun _ => .bind keeps_peer fun p => by
        cases p with
        | none => exact .pure _
        | some p => exact .ite (fun _ => .pure _) fun _ => .pure _
  | .finalize ip e => by
    show Ends false calls.now sl _
    rw [Ends, confirmStep, wp_bind, wp_entry]
    simp only [wp_ite, wp_bind, wp_pure, wp_wgSet_done, wp_update, wp_saveState, Slot.peer_update,
      Slot.peer_execute, not_noRoute_route, false_imp_iff, implies_true, true_and]
    refine ⟨fun _ _ => Steady.refl _, fun _ => fun _ => ?_⟩
    exact wp_mono (steady_tryWgSet calls.set _ sl (Steady.refl _)) (fun _ _ h _ => h) fun _ _ h _ => h
  | .fail => by
    show Ends (ownsConfirm g sl.entry) calls.now sl _
    rw [Ends, confirmStep, wp_bind, wp_entry, wp_ite, wp_pure]
    cases ho : ownsConfirm g sl.entry with
    | false => exact ⟨fun _ _ => Steady.refl _, fun h => absurd rfl h⟩
    | true => exact ⟨(fun h => by cases h), fun _ => backsOff_giveUp⟩

theorem ends_cleanupWorker (k : PublicKey) (m : WorkerMode) :
    Ends (Thread.fails ⟨k, g, m, .cleanup⟩ calls sl.entry) calls.now sl (cleanupWorker g m calls) := by
  rw [Ends, cleanupWorker, wp_bind, wp_entry]
  cases hs : sl.entry with
  | none => exact fun _ => Steady.refl _
  | some s =>
    simp only [wp_ite, wp_bind, wp_pure]
    refine ⟨fun hmark => ?_, fun hmark => ?_⟩
    · have hback : ∀ t : Slot, t.entry = sl.entry →
          BacksOff calls.now sl.view (t.renew.update (PeerState.backOff calls.now)).view := by
        intro t ht
        refine @backsOff_update calls sl t.renew (fun s => { s with generation := t.nextGeneration s.generation })
          ?_ fun _ => rfl
        rw [Slot.entry_renew, ht]
      have hfails : Thread.fails ⟨k, g, m, .cleanup⟩ calls (some s) = true := decide_eq_true hmark
      simp only [hfails, wp_tryWgSet, wp_renew, wp_update, wp_handle, wp_saveState, wp_pure, if_true]
      exact ⟨fun _ => ⟨fun _ _ => hback _ rfl, fun _ _ => hback _ rfl⟩,
        fun _ => ⟨fun _ _ => hback _ rfl, fun _ _ => hback _ rfl⟩⟩
    · have hfails : Thread.fails ⟨k, g, m, .cleanup⟩ calls (some s) = false := decide_eq_false hmark
      simp only [hfails, Bool.false_eq_true, if_false]
      exact fun _ => Steady.refl _

/-- A step of a worker counts a failure if it ends in one, and leaves the back-off if it does not. -/
theorem ends_threadStep (t : Thread) : Ends (t.fails calls sl.entry) calls.now sl (t.step calls) := by
  obtain ⟨k, g, m, pc⟩ := t
  cases pc with
  | probe pc =>
    rw [Ends, Thread.step, wp_handle]
    exact ends_probeStep k m pc
  | confirm pc =>
    rw [Ends, Thread.step, wp_handle]
    exact ends_confirmStep k m pc
  | cleanup => exact ends_cleanupWorker k m
  | finished => exact fun _ => Steady.refl _

end Workers

/-- A worker that ends in failure is the one the entry belongs to. -/
theorem fails_generation {t : Thread} {calls : WorkerCalls} {e : Option PeerState} (h : t.fails calls e = true) :
    ∃ s, e = some s ∧ s.generation = t.generation := by
  obtain ⟨k, g, m, pc⟩ := t
  rw [Thread.fails] at h
  split at h
  · obtain ⟨s, hs, hg, -⟩ := owns_iff.mp h
    exact ⟨s, hs, hg⟩
  · obtain ⟨s, hs, hg, -⟩ := ownsConfirm_iff.mp h
    exact ⟨s, hs, hg⟩
  · simp only [Bool.and_eq_true] at h
    obtain ⟨s, hs, hg, -⟩ := ownsDirect_iff.mp h.1.2
    exact ⟨s, hs, hg⟩
  · obtain ⟨s, hs, hg⟩ := (Option.any_eq_true _ _).mp h
    exact ⟨s, hs, (of_decide_eq_true hg).1⟩
  · cases h

end Agent
