import WireguardP2p.Agent.Turns
import WireguardP2p.Agent.Worker

/-! What a step of a worker does to the ownership of an entry. A worker whose generation is not the
    entry's does nothing at all. One whose generation it is keeps the entry, gives it up, or marks it
    for the phase it enters: a probe that configures a candidate, a confirmation that is set up. -/

namespace Agent
open Ipaddress Python Net Candidates Raising

/-- Where a worker may go from `pc`, and when it may launch a confirmation. -/
def Pc.Leads : Pc → Next → Prop
  | .probe pc, next =>
    (next.pc = .cleanup ∨ ∃ pc', next.pc = .probe pc') ∧
      ((∃ ip c a, next.pc = .probe (.rekey ip c a)) → ∃ ip c a, pc = .promote ip c a) ∧
      (next.confirm.isSome → next.pc = .cleanup ∧ ∃ ip c a, pc = .rekey ip c a)
  | .confirm _, next => (next.pc = .cleanup ∨ ∃ pc', next.pc = .confirm pc') ∧ next.confirm = none
  | .cleanup, next => next = ⟨.finished, none⟩
  | .finished, next => next = ⟨.finished, none⟩

/-- The mark a worker sets at `pc`. -/
def Pc.Marks : Pc → PeerState → Prop
  | .probe (.configure ..), s => s.mode = .probe
  | .confirm (.setup ..), s => s.mode = .confirm6
  | _, _ => False

/-- What a step of a worker of generation `g` at `pc` does. -/
structure WorkerTurn (g : ℕ) (pc : Pc) (sl₀ : Slot) (next : Next) (sl : Slot) : Prop where
  leads : pc.Leads next
  last_le : sl₀.lastGeneration ≤ sl.lastGeneration
  /-- Without its generation a worker does nothing. -/
  fenced : (∀ s, sl₀.entry = some s → s.generation ≠ g) → sl = sl₀
  entry : ∀ s, sl.entry = some s → (∃ s₀, sl₀.entry = some s₀ ∧ Kept s₀ s) ∨
    (sl₀.lastGeneration < s.generation ∧ s.generation ≤ sl.lastGeneration ∧ s.workerRunning = false) ∨
    (∃ s₀, sl₀.entry = some s₀ ∧ s₀.generation = g ∧ Same s₀ s) ∧ pc.Marks s
  /-- A probe that found a path has released the entry. -/
  rekey : (∃ ip c a, next.pc = .probe (.rekey ip c a)) → ∀ s, sl.entry = some s →
    s.workerRunning = false

/-- The entry is marked for the worker of generation `g`. -/
def Marked (g : ℕ) (mode : WorkerMode) (e : Option PeerState) : Prop :=
  ∃ s, e = some s ∧ s.generation = g ∧ s.mode = mode.toMode ∧ s.workerRunning = true

/-- What the cleanup of a worker leaves. -/
def Cleaned (g : ℕ) (mode : WorkerMode) (sl sl' : Slot) : Prop :=
  (Marked g mode sl.entry → ∀ s, sl'.entry = some s → s.workerRunning = false) ∧
    (¬ Marked g mode sl.entry → sl' = sl)

namespace WorkerTurn
variable {g : ℕ} {pc : Pc} {sl₀ sl : Slot} {next : Next}

/-- A step that changes nothing under STATE_LOCK. -/
theorem still (hl : pc.Leads next) (hr : ¬ ∃ ip c a, next.pc = .probe (.rekey ip c a)) :
    WorkerTurn g pc sl₀ next sl₀ :=
  ⟨hl, le_rfl, fun _ => rfl, fun s hs => .inl ⟨s, hs, .refl s⟩, fun h => absurd h hr⟩

/-- A step of the worker the entry belongs to. -/
theorem own {s₀ : PeerState} (hs₀ : sl₀.entry = some s₀) (hg : s₀.generation = g)
    (hl : pc.Leads next) (hlast : sl.lastGeneration = sl₀.lastGeneration)
    (hr : (∃ ip c a, next.pc = .probe (.rekey ip c a)) → ∀ s, sl.entry = some s →
      s.workerRunning = false)
    (he : ∀ s, sl.entry = some s → Same s₀ s ∧ (Kept s₀ s ∨ pc.Marks s)) :
    WorkerTurn g pc sl₀ next sl := by
  refine ⟨hl, hlast.ge, fun h => absurd hg (h s₀ hs₀), fun s hs => ?_, hr⟩
  obtain ⟨hsg, hk | hm⟩ := he s hs
  · exact .inl ⟨s₀, hs₀, hk⟩
  · exact .inr (.inr ⟨⟨s₀, hs₀, hg, hsg⟩, hm⟩)

end WorkerTurn

theorem owns_iff {g : ℕ} {e : Option PeerState} :
    owns g e = true ↔ ∃ s, e = some s ∧ s.generation = g ∧ s.workerRunning = true := by
  cases e <;> simp [owns]

theorem owns_some {g : ℕ} {s : PeerState} :
    owns g (some s) = true ↔ s.generation = g ∧ s.workerRunning = true := by simp [owns]

theorem ownsConfirm_iff {g : ℕ} {e : Option PeerState} : ownsConfirm g e = true ↔
    ∃ s, e = some s ∧ s.generation = g ∧ s.mode = .confirm6 ∧ s.workerRunning = true := by
  cases e <;> simp [ownsConfirm, and_assoc]

theorem ownsDirect_iff {g : ℕ} {endpoint : Text} {e : Option PeerState} :
    ownsDirect g endpoint e = true ↔
      ∃ s, e = some s ∧ s.generation = g ∧ s.mode = .direct ∧ s.endpoint = endpoint := by
  cases e <;> simp [ownsDirect, and_assoc]

/-- The postcondition of a step of a worker: it ends at `next`, or raises and goes to its cleanup. -/
abbrev EndsTurn (p : Section Next) (g : ℕ) (pc : Pc) (sl : Slot) : Prop :=
  p.wp (WorkerTurn g pc sl) (fun _ => WorkerTurn g pc sl .return) sl

theorem leads_return_probe (pc : ProbePc) : (Pc.probe pc).Leads .return :=
  ⟨.inl rfl, (fun ⟨_, _, _, h⟩ => by cases h), fun h => by cases h⟩

theorem leads_return_confirm (pc : ConfirmPc) : (Pc.confirm pc).Leads .return := ⟨.inl rfl, rfl⟩

theorem leads_probe {pc pc' : ProbePc} (h : ∀ ip c a, pc' ≠ .rekey ip c a) :
    (Pc.probe pc).Leads (.probe pc') :=
  ⟨.inr ⟨pc', rfl⟩, (fun ⟨ip, c, a, he⟩ => absurd (Pc.probe.inj he) (h ip c a)), fun h => by cases h⟩

theorem return_not_rekey : ¬ ∃ ip c a, Next.return.pc = .probe (.rekey ip c a) :=
  fun ⟨_, _, _, h⟩ => by cases h

/-- Giving up: the entry stays, without a worker. -/
theorem turn_giveUp {g : ℕ} {pc : Pc} {sl : Slot} {s : PeerState} (calls : WorkerCalls)
    (hs : sl.entry = some s) (hg : s.generation = g) (hl : pc.Leads .return) :
    EndsTurn (giveUp calls) g pc sl := by
  have he : ∀ sl' : Slot, sl'.lastGeneration = sl.lastGeneration → sl'.entry = sl.entry →
      WorkerTurn g pc sl .return (sl'.update (PeerState.backOff calls.now)) := by
    intro sl' hlast hentry
    refine .own hs hg hl hlast (fun h => absurd h return_not_rekey) fun s' hs' => ?_
    rw [Slot.entry_update, hentry, hs] at hs'
    obtain rfl := Option.some.inj hs'
    exact ⟨⟨rfl, rfl, rfl⟩, .inl ⟨⟨rfl, rfl, rfl⟩, nofun, nofun, nofun⟩⟩
  simp only [EndsTurn, wp_giveUp, wp_tryWgSet]
  exact ⟨fun _ => ⟨fun _ => he _ rfl rfl, fun _ => he _ rfl rfl⟩,
    fun _ => ⟨fun _ => he _ rfl rfl, fun _ => he _ rfl rfl⟩⟩

/-! ### The steps -/

section Steps
variable {g : ℕ} {sl : Slot}

/-- A step of `_probe_worker` to `pc'` that changes nothing. -/
theorem still_probe {pc pc' : ProbePc} (h : ∀ ip c a, pc' ≠ .rekey ip c a) :
    WorkerTurn g (.probe pc) sl (.probe pc') sl :=
  .still (leads_probe h) fun ⟨ip, c, a, he⟩ => h ip c a (Pc.probe.inj he)

theorem still_return_probe (pc : ProbePc) : WorkerTurn g (.probe pc) sl .return sl :=
  .still (leads_return_probe pc) return_not_rekey

theorem still_return_confirm (pc : ConfirmPc) : WorkerTurn g (.confirm pc) sl .return sl :=
  .still (leads_return_confirm pc) return_not_rekey

theorem still_confirm (pc pc' : ConfirmPc) : WorkerTurn g (.confirm pc) sl (.confirm6 pc') sl :=
  .still ⟨.inr ⟨pc', rfl⟩, rfl⟩ fun ⟨_, _, _, h⟩ => by cases h

/-- A step of the worker of the entry that updates it and does not lead to the rekey. -/
theorem own_update {pc : Pc} {s : PeerState} {next : Next} {f : PeerState → PeerState} {sl' : Slot}
    (hs : sl.entry = some s) (hg : s.generation = g) (hl : pc.Leads next)
    (hr : ¬ ∃ ip c a, next.pc = .probe (.rekey ip c a))
    (hlast : sl'.lastGeneration = sl.lastGeneration) (he : sl'.entry = sl.entry.map f)
    (hf : Same s (f s)) (hm : Kept s (f s) ∨ pc.Marks (f s)) :
    WorkerTurn g pc sl next sl' :=
  .own hs hg hl hlast (fun h => absurd h hr) fun t ht => by
    rw [he, hs] at ht
    obtain rfl := Option.some.inj ht
    exact ⟨hf, hm⟩

/-- A step of the worker of the entry that only commands the device. -/
theorem own_still {pc : Pc} {s : PeerState} {next : Next} {sl' : Slot} (hs : sl.entry = some s)
    (hg : s.generation = g) (hl : pc.Leads next) (hr : ¬ ∃ ip c a, next.pc = .probe (.rekey ip c a))
    (hlast : sl'.lastGeneration = sl.lastGeneration) (he : sl'.entry = sl.entry) :
    WorkerTurn g pc sl next sl' :=
  own_update (f := id) hs hg hl hr hlast (by rw [he, Option.map_id, id]) (.refl s) (.inl (.refl s))

theorem turn_start (calls : WorkerCalls) : EndsTurn (probeStep g calls .start) g (.probe .start) sl := by
  simp only [EndsTurn, probeStep, wp_bind, wp_entry]
  cases sl.entry with
  | none => exact still_return_probe _
  | some s =>
    simp only [wp_ite, wp_pure]
    exact ⟨fun _ => still_return_probe _, fun _ => ⟨fun _ => still_probe nofun,
      fun _ => still_probe nofun⟩⟩

theorem turn_cancel (calls : WorkerCalls) :
    EndsTurn (probeStep g calls .cancel) g (.probe .cancel) sl := by
  simp only [EndsTurn, probeStep, wp_bind, wp_entry]
  cases hs : sl.entry with
  | none => exact still_return_probe _
  | some s =>
    simp only [wp_ite, wp_bind, wp_pure, wp_update, wp_saveState]
    have he (hg : s.generation = g) : WorkerTurn g (.probe .cancel) sl .return
        (sl.update fun s => { s with workerRunning := false, mode := .idle }) :=
      own_update hs hg (leads_return_probe _) return_not_rekey rfl (sl.entry_update _) ⟨rfl, rfl, rfl⟩
        (.inl ⟨⟨rfl, rfl, rfl⟩, nofun, nofun, nofun⟩)
    exact ⟨fun hg => ⟨fun _ => he hg, fun _ => he hg⟩, fun _ => still_return_probe _⟩

theorem turn_check (calls : WorkerCalls) (peerIp : Text) (cs : List Candidate) :
    EndsTurn (probeStep g calls (.check peerIp cs)) g (.probe (.check peerIp cs)) sl := by
  cases cs with
  | nil => exact still_probe nofun
  | cons c rest =>
    simp only [EndsTurn, probeStep, wp_bind, wp_entry, wp_ite, wp_pure]
    exact ⟨fun _ => still_probe nofun, fun _ => still_return_probe _⟩

theorem turn_baseline (calls : WorkerCalls) (peerIp : Text) (c : Candidate) (rest : List Candidate) :
    EndsTurn (probeStep g calls (.baseline peerIp c rest)) g (.probe (.baseline peerIp c rest)) sl := by
  simp only [EndsTurn, probeStep, wp_bind, wp_queryPeers, wp_peer, wp_pure]
  exact ⟨fun _ => still_probe nofun, fun _ _ => still_return_probe _⟩

theorem turn_configure (calls : WorkerCalls) (peerIp : Text) (c : Candidate) (rest : List Candidate)
    (baseline : ℕ) : EndsTurn (probeStep g calls (.configure peerIp c rest baseline)) g
      (.probe (.configure peerIp c rest baseline)) sl := by
  simp only [EndsTurn, probeStep, wp_bind, wp_entry, wp_ite, wp_pure, wp_wgSet, wp_update,
    wp_saveState, wp_tryWgSet]
  refine ⟨fun _ => still_return_probe _, fun ho => ?_⟩
  obtain ⟨s, hs, hg, _⟩ := owns_iff.mp (by simpa using ho)
  have hset {next : Next} (hl : (Pc.probe (.configure peerIp c rest baseline)).Leads next)
      (hr : ¬ ∃ ip c a, next.pc = .probe (.rekey ip c a)) :
      WorkerTurn g (.probe (.configure peerIp c rest baseline)) sl next
        ((sl.execute (.endpoint c.endpoint probeKeepalive)).update
          (PeerState.configure c baseline calls.now)) :=
    own_update hs hg hl hr rfl (Slot.entry_update _ _) ⟨rfl, rfl, rfl⟩ (.inr rfl)
  have hlog {sl' : Slot} (hl : sl'.lastGeneration = sl.lastGeneration) (he : sl'.entry = sl.entry) :
      WorkerTurn g (.probe (.configure peerIp c rest baseline)) sl (.probe (.check peerIp rest)) sl' :=
    own_still hs hg (leads_probe nofun) (fun ⟨_, _, _, h⟩ => by cases h) hl he
  refine ⟨fun _ => ⟨fun _ => ⟨fun _ => ?_, fun _ => ?_⟩, nofun, nofun⟩, fun _ => ⟨fun _ => ?_, fun _ => ?_⟩⟩
  · exact hset (leads_probe nofun) fun ⟨_, _, _, h⟩ => by cases h
  · exact hset (leads_return_probe _) return_not_rekey
  · exact hlog rfl rfl
  · exact hlog rfl rfl

theorem turn_wait (calls : WorkerCalls) (peerIp : Text) (c : Candidate) (rest : List Candidate)
    (baseline : ℕ) : EndsTurn (probeStep g calls (.wait peerIp c rest baseline)) g
      (.probe (.wait peerIp c rest baseline)) sl := by
  simp only [EndsTurn, probeStep, wp_bind, wp_entry, wp_ite, wp_pure]
  exact ⟨fun _ => still_probe nofun, fun _ => ⟨fun _ => still_return_probe _,
    fun _ => ⟨fun _ => still_probe nofun, fun _ => still_return_probe _⟩⟩⟩

theorem turn_poll (calls : WorkerCalls) (peerIp : Text) (c : Candidate) (rest : List Candidate)
    (baseline : ℕ) : EndsTurn (probeStep g calls (.poll peerIp c rest baseline)) g
      (.probe (.poll peerIp c rest baseline)) sl := by
  simp only [EndsTurn, probeStep, wp_bind, wp_queryPeers, wp_peer]
  refine ⟨fun _ => ?_, fun _ _ => still_return_probe _⟩
  cases sl.peer with
  | none => exact still_probe nofun
  | some p =>
    simp only [wp_ite, wp_pure]
    exact ⟨fun _ => still_probe nofun, fun _ => still_probe nofun⟩

theorem turn_promote (calls : WorkerCalls) (peerIp : Text) (c : Candidate) (actualEndpoint : Text) :
    EndsTurn (probeStep g calls (.promote peerIp c actualEndpoint)) g
      (.probe (.promote peerIp c actualEndpoint)) sl := by
  simp only [EndsTurn, probeStep, wp_bind, wp_entry]
  cases hs : sl.entry with
  | none => exact still_return_probe _
  | some s =>
    simp only [wp_ite, wp_bind, wp_pure, wp_wgSet, wp_update, wp_saveState]
    refine ⟨fun _ => still_return_probe _, fun ho => ?_⟩
    obtain ⟨hg, _⟩ := owns_some.mp (by simpa using ho)
    have hfail {sl' : Slot} (hl : sl'.lastGeneration = sl.lastGeneration) (he : sl'.entry = sl.entry) :
        WorkerTurn g (.probe (.promote peerIp c actualEndpoint)) sl .return sl' :=
      own_still hs hg (leads_return_probe _) return_not_rekey hl he
    have hdone {next : Next} (hl : (Pc.probe (.promote peerIp c actualEndpoint)).Leads next) :
        WorkerTurn g (.probe (.promote peerIp c actualEndpoint)) sl next
          ((sl.execute (.route (slash32 peerIp) actualEndpoint keepalive)).update fun s' =>
            { s'.promote (promotedType s.candidates c actualEndpoint) actualEndpoint with
              promoted := calls.now }) := by
      refine .own hs hg hl rfl (fun _ s' hs' => ?_) fun s' hs' => ?_ <;>
        rw [Slot.entry_update, Slot.entry_execute, hs] at hs' <;> obtain rfl := Option.some.inj hs'
      · rfl
      · exact ⟨⟨rfl, rfl, rfl⟩, .inl ⟨⟨rfl, rfl, rfl⟩, nofun, nofun, nofun⟩⟩
    refine ⟨fun _ => ⟨fun _ => ?_, fun _ => ?_⟩, fun _ => hfail rfl rfl, fun _ => hfail rfl rfl⟩
    · exact hdone ⟨.inr ⟨_, rfl⟩, fun _ => ⟨_, _, _, rfl⟩, fun h => by cases h⟩
    · exact hdone (leads_return_probe _)

theorem turn_rekey (calls : WorkerCalls) (peerIp : Text) (c : Candidate) (actualEndpoint : Text) :
    EndsTurn (probeStep g calls (.rekey peerIp c actualEndpoint)) g
      (.probe (.rekey peerIp c actualEndpoint)) sl := by
  simp only [EndsTurn, probeStep, wp_ite, wp_pure]
  refine ⟨fun _ => .still ⟨.inl rfl, ?_, fun _ => ⟨rfl, _, _, _, rfl⟩⟩ ?_, fun _ => still_return_probe _⟩
  · exact fun ⟨_, _, _, h⟩ => by cases h
  · exact fun ⟨_, _, _, h⟩ => by cases h

theorem turn_fail (calls : WorkerCalls) : EndsTurn (probeStep g calls .fail) g (.probe .fail) sl := by
  simp only [EndsTurn, probeStep, wp_bind, wp_entry, wp_ite, wp_pure]
  refine ⟨fun _ => still_return_probe _, fun ho => ?_⟩
  obtain ⟨s, hs, hg, _⟩ := owns_iff.mp (by simpa using ho)
  exact turn_giveUp calls hs hg (leads_return_probe _)

theorem turn_probeStep (calls : WorkerCalls) (pc : ProbePc) :
    EndsTurn (probeStep g calls pc) g (.probe pc) sl := by
  cases pc with
  | start => exact turn_start calls
  | cancel => exact turn_cancel calls
  | check peerIp cs => exact turn_check calls peerIp cs
  | baseline peerIp c rest => exact turn_baseline calls peerIp c rest
  | configure peerIp c rest baseline => exact turn_configure calls peerIp c rest baseline
  | wait peerIp c rest baseline => exact turn_wait calls peerIp c rest baseline
  | poll peerIp c rest baseline => exact turn_poll calls peerIp c rest baseline
  | promote peerIp c actualEndpoint => exact turn_promote calls peerIp c actualEndpoint
  | rekey peerIp c actualEndpoint => exact turn_rekey calls peerIp c actualEndpoint
  | fail => exact turn_fail calls

theorem turn_setup (calls : WorkerCalls) (peerIp endpoint : Text) :
    EndsTurn (confirmStep g calls (.setup peerIp endpoint)) g (.confirm (.setup peerIp endpoint)) sl := by
  simp only [EndsTurn, confirmStep, wp_bind, wp_entry, wp_ite, wp_pure]
  refine ⟨fun _ => still_return_confirm _, fun _ => ⟨fun _ => still_return_confirm _, fun ho => ?_⟩⟩
  obtain ⟨s, hs, hg, _⟩ := ownsDirect_iff.mp (by simpa using ho)
  let f : PeerState → PeerState := fun s =>
    { s with mode := .confirm6, workerRunning := true, started := calls.now, baselineHandshake := 0 }
  have hup {next : Next} {sl' : Slot} (hl : (Pc.confirm (.setup peerIp endpoint)).Leads next)
      (hr : ¬ ∃ ip c a, next.pc = .probe (.rekey ip c a))
      (hlast : sl'.lastGeneration = sl.lastGeneration) (he : sl'.entry = sl.entry.map f) :
      WorkerTurn g (.confirm (.setup peerIp endpoint)) sl next sl' :=
    own_update hs hg hl hr hlast he ⟨rfl, rfl, rfl⟩ (.inr rfl)
  have hback {sl' : Slot} (hlast : sl'.lastGeneration = sl.lastGeneration)
      (he : sl'.entry = sl.entry.map f) : WorkerTurn g (.confirm (.setup peerIp endpoint)) sl .return
        (sl'.update (PeerState.backOff calls.now)) := by
    refine own_update (f := PeerState.backOff calls.now ∘ f) hs hg (leads_return_confirm _)
      return_not_rekey hlast ?_ ⟨rfl, rfl, rfl⟩ (.inl ⟨⟨rfl, rfl, rfl⟩, nofun, nofun, nofun⟩)
    rw [Slot.entry_update, he, Option.map_map]
  simp only [wp_update, wp_handle, wp_bind, wp_wgSet, wp_tryWgSet, wp_saveState, wp_pure]
  refine ⟨fun _ => ⟨fun _ => ⟨fun _ => ⟨fun _ => ?_, fun _ => ?_⟩, nofun, nofun⟩, nofun, nofun⟩,
    fun _ => ⟨fun _ => ⟨fun _ => ?_, fun _ => ?_, fun _ => ?_⟩, fun _ => ?_, fun _ => ?_⟩⟩
  · exact hup ⟨.inr ⟨_, rfl⟩, rfl⟩ (fun ⟨_, _, _, h⟩ => by cases h) rfl rfl
  · exact hup (leads_return_confirm _) return_not_rekey rfl rfl
  all_goals exact ⟨fun _ => ⟨fun _ => hback rfl rfl, fun _ => hback rfl rfl⟩,
    fun _ => ⟨fun _ => hback rfl rfl, fun _ => hback rfl rfl⟩⟩

theorem turn_confirmPoll (calls : WorkerCalls) (peerIp endpoint : Text) :
    EndsTurn (confirmStep g calls (.poll peerIp endpoint)) g (.confirm (.poll peerIp endpoint)) sl := by
  simp only [EndsTurn, confirmStep, wp_ite, wp_pure, wp_bind, wp_queryPeers, wp_peer]
  refine ⟨fun _ => still_confirm _ _, fun _ => ⟨fun _ => still_return_confirm _,
    fun _ => ⟨fun _ => ?_, fun _ _ => still_return_confirm _⟩⟩⟩
  cases sl.peer with
  | none => exact still_confirm _ _
  | some p =>
    simp only [wp_ite, wp_pure]
    exact ⟨fun _ => still_confirm _ _, fun _ => still_confirm _ _⟩

theorem turn_finalize (calls : WorkerCalls) (peerIp actualEndpoint : Text) :
    EndsTurn (confirmStep g calls (.finalize peerIp actualEndpoint)) g
      (.confirm (.finalize peerIp actualEndpoint)) sl := by
  simp only [EndsTurn, confirmStep, wp_bind, wp_entry, wp_ite, wp_pure, wp_wgSet, wp_update,
    wp_saveState, wp_tryWgSet]
  refine ⟨fun _ => still_return_confirm _, fun ho => ?_⟩
  obtain ⟨s, hs, hg, _⟩ := ownsConfirm_iff.mp (by simpa using ho)
  have hset : WorkerTurn g (.confirm (.finalize peerIp actualEndpoint)) sl .return
      ((sl.execute (.route (slash32 peerIp) actualEndpoint keepalive)).update
        (PeerState.promote .host6 actualEndpoint)) :=
    own_update hs hg (leads_return_confirm _) return_not_rekey rfl (Slot.entry_update _ _) ⟨rfl, rfl, rfl⟩
      (.inl ⟨⟨rfl, rfl, rfl⟩, nofun, nofun, nofun⟩)
  have hlog {sl' : Slot} (hl : sl'.lastGeneration = sl.lastGeneration) (he : sl'.entry = sl.entry) :
      WorkerTurn g (.confirm (.finalize peerIp actualEndpoint)) sl .return sl' :=
    own_still hs hg (leads_return_confirm _) return_not_rekey hl he
  exact ⟨fun _ => ⟨fun _ => ⟨fun _ => hset, fun _ => hset⟩, nofun, nofun⟩,
    fun _ => ⟨fun _ => hlog rfl rfl, fun _ => hlog rfl rfl⟩⟩

theorem turn_confirmFail (calls : WorkerCalls) :
    EndsTurn (confirmStep g calls .fail) g (.confirm .fail) sl := by
  simp only [EndsTurn, confirmStep, wp_bind, wp_entry, wp_ite, wp_pure]
  refine ⟨fun _ => still_return_confirm _, fun ho => ?_⟩
  obtain ⟨s, hs, hg, _⟩ := ownsConfirm_iff.mp (by simpa using ho)
  exact turn_giveUp calls hs hg (leads_return_confirm _)

theorem turn_confirmStep (calls : WorkerCalls) (pc : ConfirmPc) :
    EndsTurn (confirmStep g calls pc) g (.confirm pc) sl := by
  cases pc with
  | setup peerIp endpoint => exact turn_setup calls peerIp endpoint
  | poll peerIp endpoint => exact turn_confirmPoll calls peerIp endpoint
  | finalize peerIp actualEndpoint => exact turn_finalize calls peerIp actualEndpoint
  | fail => exact turn_confirmFail calls

/-- The cleanup gives the entry up if it is marked for the worker, and else does nothing. -/
theorem turn_cleanupWorker (mode : WorkerMode) (calls : WorkerCalls) :
    (cleanupWorker g mode calls).wp
      (fun next sl' => WorkerTurn g .cleanup sl next sl' ∧ Cleaned g mode sl sl')
      (fun _ _ => False) sl := by
  have hfin : Pc.cleanup.Leads ⟨.finished, none⟩ := rfl
  have hnr : ¬ ∃ ip c a, (⟨.finished, none⟩ : Next).pc = .probe (.rekey ip c a) :=
    fun ⟨_, _, _, h⟩ => by cases h
  simp only [cleanupWorker, wp_bind, wp_entry]
  cases hs : sl.entry with
  | none =>
    have hno : ¬ Marked g mode sl.entry := fun ⟨s, h, _⟩ => by rw [hs] at h; cases h
    exact ⟨.still hfin hnr, fun h => absurd h hno, fun _ => rfl⟩
  | some s =>
    simp only [wp_ite, wp_bind, wp_pure, wp_tryWgSet, wp_renew, wp_update, wp_handle, wp_saveState]
    have hmarked : Marked g mode sl.entry ↔
        s.generation = g ∧ s.mode = mode.toMode ∧ s.workerRunning = true := by
      simp [Marked, hs]
    have hown (hm : s.generation = g ∧ s.mode = mode.toMode ∧ s.workerRunning = true) {sl' : Slot}
        (he : sl'.entry = sl.entry) (hl : sl'.lastGeneration = sl.lastGeneration)
        (htk : sl'.taken = sl.taken) :
        WorkerTurn g .cleanup sl ⟨.finished, none⟩ (sl'.renew.update (PeerState.backOff calls.now)) ∧
          Cleaned g mode sl (sl'.renew.update (PeerState.backOff calls.now)) := by
      have ht : Turn sl (sl'.renew.update (PeerState.backOff calls.now)) :=
        ((Turn.refl sl).congr he hl htk).renew_update fun _ => ⟨rfl, rfl⟩
      refine ⟨⟨hfin, ht.last_le, fun h => absurd hm.1 (h s hs), fun s' hs' => ?_,
        fun h => absurd h hnr⟩, fun _ s' hs' => ?_, fun h => absurd (hmarked.mpr hm) h⟩
      · exact (ht.entry s' hs').imp id .inl
      · obtain ⟨_, _, rfl⟩ := Option.map_eq_some_iff.mp hs'
        rfl
    refine ⟨fun hm => ⟨fun _ => ?_, fun _ => ?_⟩, fun hm => ?_⟩
    · exact ⟨fun _ => hown hm rfl rfl rfl, fun _ => hown hm rfl rfl rfl⟩
    · exact ⟨fun _ => hown hm rfl rfl rfl, fun _ => hown hm rfl rfl rfl⟩
    · exact ⟨.still hfin hnr, fun h => absurd (hmarked.mp h) hm, fun _ => rfl⟩

end Steps

/-- The step of a worker: it never raises. -/
theorem turn_threadStep (t : Thread) (calls : WorkerCalls) (sl : Slot) :
    (t.step calls).wp
      (fun next sl' => WorkerTurn t.generation t.pc sl next sl' ∧
        (t.pc = .cleanup → Cleaned t.generation t.mode sl sl'))
      (fun _ _ => False) sl := by
  unfold Thread.step
  cases hpc : t.pc with
  | probe pc =>
    rw [wp_handle]
    exact wp_mono (turn_probeStep calls pc) (fun _ _ h => ⟨h, nofun⟩) fun _ _ h => ⟨h, nofun⟩
  | confirm pc =>
    rw [wp_handle]
    exact wp_mono (turn_confirmStep calls pc) (fun _ _ h => ⟨h, nofun⟩) fun _ _ h => ⟨h, nofun⟩
  | cleanup =>
    exact wp_mono (turn_cleanupWorker t.mode calls) (fun _ _ h => ⟨h.1, fun _ => h.2⟩) fun _ _ h => h
  | finished =>
    exact ⟨.still rfl (fun ⟨_, _, _, h⟩ => by cases h), nofun⟩

end Agent
