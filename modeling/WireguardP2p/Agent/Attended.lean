import WireguardP2p.Agent.Fencing

/-! No entry is left marked for a worker that does not exist. The mark of an entry is watched by a
    pending launch or by a worker of its generation that has not finished; the mark of a probe by a
    probe, the mark of a confirmation by a confirmation. Every step keeps this that keeps its launches
    and does not end a worker on an entry of its own in another mode. -/

namespace Agent
open Ipaddress Python Candidates Raising

/-- A worker of this name has not finished. -/
def Attends (w : World) (k : PublicKey) (g : ℕ) (m : WorkerMode) : Prop :=
  ∃ t ∈ w.threads, t.name = (k, g, m) ∧ t.pc ≠ .finished

/-- Who will clear the mark of an entry in this mode. -/
def Watched (w : World) (k : PublicKey) (g : ℕ) : Mode → Prop
  | .confirm6 => Attends w k g .confirm6
  | .probe => (k, g) ∈ w.pending ∨ Attends w k g .probe
  | _ => (k, g) ∈ w.pending ∨ Attends w k g .probe ∨ Attends w k g .confirm6

/-- Every mark is watched. -/
def Attended (w : World) : Prop := ∀ k s, w.shared.states.get? k = some s → s.workerRunning = true →
  Watched w k s.generation s.mode

/-- The cleanup of a worker meets a mark of its own generation in a worker mode only. -/
def CleanupSafe (w : World) : Label → Prop
  | .worker i _ => ∀ t, w.threads[i]? = some t → t.pc = .cleanup → ∀ s,
    w.shared.states.get? t.key = some s → s.generation = t.generation → s.workerRunning = true →
      s.mode = .probe ∨ s.mode = .confirm6
  | _ => True

/-- The steps that abandon no worker mark. -/
def Safe (w : World) (l : Label) : Prop := LaunchSafe w l ∧ CleanupSafe w l

section Watched
variable {w w' : World} {k : PublicKey} {g : ℕ}

/-- A probe or confirmation that is watched stays watched in a mode that is neither. -/
theorem Watched.weaken {m m' : Mode} (h : Watched w k g m) (hp : m' = .probe → m = .probe)
    (hc : m' = .confirm6 → m = .confirm6) : Watched w k g m' := by
  have hany : (k, g) ∈ w.pending ∨ Attends w k g .probe ∨ Attends w k g .confirm6 := by
    cases m
    · exact h
    · exact h.imp id .inl
    · exact .inr (.inr h)
    · exact h
  cases m' with
  | probe => exact hp rfl ▸ h
  | confirm6 => exact hc rfl ▸ h
  | _ => exact hany

/-- Launches that stay and workers that go on keep watching. -/
theorem Watched.mono {m : Mode} (h : Watched w k g m)
    (hpend : (k, g) ∈ w.pending → (k, g) ∈ w'.pending ∨ Attends w' k g .probe)
    (hatt : ∀ mode, mode.toMode = m ∨ m ≠ .probe ∧ m ≠ .confirm6 → Attends w k g mode →
      Attends w' k g mode) : Watched w' k g m := by
  cases m with
  | confirm6 => exact hatt .confirm6 (.inl rfl) h
  | probe => exact h.elim hpend fun ha => .inr (hatt .probe (.inl rfl) ha)
  | idle =>
    rcases h with hp | ha | ha
    · exact (hpend hp).imp id .inl
    · exact .inr (.inl (hatt .probe (.inr ⟨nofun, nofun⟩) ha))
    · exact .inr (.inr (hatt .confirm6 (.inr ⟨nofun, nofun⟩) ha))
  | direct =>
    rcases h with hp | ha | ha
    · exact (hpend hp).imp id .inl
    · exact .inr (.inl (hatt .probe (.inr ⟨nofun, nofun⟩) ha))
    · exact .inr (.inr (hatt .confirm6 (.inr ⟨nofun, nofun⟩) ha))

/-- A mark that is watched has a worker, once no launch is pending. -/
theorem Watched.worker {m : Mode} (h : Watched w k g m) (hp : w.pending = []) :
    ∃ t ∈ w.threads, t.key = k ∧ t.generation = g ∧ t.pc ≠ .finished := by
  have hatt {mode : WorkerMode} (ha : Attends w k g mode) :
      ∃ t ∈ w.threads, t.key = k ∧ t.generation = g ∧ t.pc ≠ .finished := by
    obtain ⟨t, ht, hn, hpc⟩ := ha
    simp only [Thread.name, Prod.mk.injEq] at hn
    exact ⟨t, ht, hn.1, hn.2.1, hpc⟩
  cases m <;> simp only [Watched, hp, List.not_mem_nil, false_or] at h
  · exact h.elim hatt hatt
  · exact hatt h
  · exact hatt h
  · exact h.elim hatt hatt

end Watched

theorem Attended.turns {w w' : World} {launches : List (PublicKey × ℕ)} (h : Attended w)
    (ht : Turns w.shared w'.shared launches) (hth : w'.threads = w.threads)
    (hp : w'.pending = launches ++ w.pending) : Attended w' := by
  intro k s hs hrun
  rcases ht.entry k s hs with ⟨s₀, hs₀, hk⟩ | ⟨_, _, hnew⟩
  · have h₀ := (h k s₀ hs₀ (hk.running hrun)).weaken hk.probe hk.confirm6
    rw [hk.same.generation]
    refine h₀.mono (fun hm => .inl (hp ▸ List.mem_append_right _ hm)) fun mode _ ha => ?_
    rw [Attends, hth]
    exact ha
  · obtain ⟨hm, hc⟩ := hnew hrun
    have hm : (k, s.generation) ∈ w'.pending := hp ▸ List.mem_append_left _ hm
    cases hmode : s.mode with
    | confirm6 => exact absurd hmode hc
    | _ => exact .inl hm

theorem Attended.launch {w w' : World} {i : ℕ} {launch : PublicKey × ℕ} (h : Attended w)
    (hi : w.pending[i]? = some launch) (hs : w'.shared = w.shared)
    (hp : w'.pending = w.pending.eraseIdx i)
    (ht : w'.threads = w.threads ++ [World.probeThread launch]) : Attended w' := by
  intro k s hks hrun
  rw [hs] at hks
  refine (h k s hks hrun).mono (fun hm => ?_) fun mode _ ⟨t, htm, hn, hpc⟩ =>
    ⟨t, ht ▸ List.mem_append_left _ htm, hn, hpc⟩
  obtain ⟨j, hj⟩ := List.mem_iff_getElem?.mp hm
  by_cases hij : j = i
  · subst hij
    obtain rfl := Option.some.inj (hi.symm.trans hj)
    exact .inr ⟨World.probeThread _, ht ▸ List.mem_append_right _ List.mem_cons_self, rfl, nofun⟩
  · exact .inl (hp ▸ List.mem_eraseIdx_iff_getElem?.mpr ⟨j, hij, hj⟩)

section WorkerStep
variable {w w' : World} {i : ℕ} {t : Thread} {next : Next} {sl : Slot}

/-- A worker that does not finish keeps attending, and so do the others. -/
theorem WorkerStep.attends (hst : WorkerStep w i t w' next sl) {k : PublicKey} {g : ℕ}
    {m : WorkerMode} (h : Attends w k g m) (hne : t.name ≠ (k, g, m) ∨ t.pc ≠ .cleanup) :
    Attends w' k g m := by
  obtain ⟨u, hu, hn, hpc⟩ := h
  by_cases hut : u = t
  · subst hut
    refine ⟨u.after next, hst.mem_after, hn, ?_⟩
    have hl := hst.turn.leads
    have hcl := hne.resolve_left (not_not.mpr hn)
    cases hp : u.pc with
    | cleanup => exact absurd hp hcl
    | finished => exact absurd hp hpc
    | probe pc =>
      rw [hp] at hl
      rcases hl.1 with h | ⟨_, h⟩ <;> simp [Thread.after, h]
    | confirm pc =>
      rw [hp] at hl
      rcases hl.1 with h | ⟨_, h⟩ <;> simp [Thread.after, h]
  · exact ⟨u, hst.mem_of_ne hu hut, hn, hpc⟩

/-- The worker that marks an entry attends to it. -/
theorem WorkerStep.marks (hst : WorkerStep w i t w' next sl) (hshape : t.Shaped) {s : PeerState}
    (hm : t.pc.Marks s) : Watched w' t.key t.generation s.mode := by
  have htm : t ∈ w.threads := List.mem_of_getElem? hst.thread
  have hself {m : WorkerMode} (hmode : t.mode = m) (hcl : t.pc ≠ .cleanup) :
      Attends w' t.key t.generation m :=
    hst.attends ⟨t, htm, by rw [Thread.name, hmode], hst.running⟩ (.inr hcl)
  unfold Thread.Shaped at hshape
  cases hpc : t.pc with
  | probe pc =>
    rw [hpc] at hm hshape
    cases pc with
    | configure =>
      rw [show s.mode = .probe from hm]
      exact .inr (hself hshape (by simp [hpc]))
    | _ => exact hm.elim
  | confirm pc =>
    rw [hpc] at hm hshape
    cases pc with
    | setup =>
      rw [show s.mode = .confirm6 from hm]
      exact hself hshape (by simp [hpc])
    | _ => exact hm.elim
  | _ => rw [hpc] at hm; exact hm.elim

theorem Attended.worker {calls : WorkerCalls} (h : Attended w) (hf : Fenced w)
    (hst : WorkerStep w i t w' next sl) (hsafe : CleanupSafe w (.worker i calls)) : Attended w' := by
  have htm : t ∈ w.threads := List.mem_of_getElem? hst.thread
  have hpend {k : PublicKey} {g : ℕ} (hm : (k, g) ∈ w.pending) :
      (k, g) ∈ w'.pending ∨ Attends w' k g .probe := .inl (hst.pending ▸ hm)
  intro k s hs hrun
  rw [hst.shared, Shared.get?_put_states] at hs
  by_cases hk : k = t.key
  · subst hk
    rw [if_pos rfl] at hs
    rcases hst.turn.entry s hs with ⟨s₀, hs₀, hkept⟩ | ⟨_, _, hno⟩ | ⟨⟨s₀, _, hg₀, hsame⟩, hmark⟩
    · have h₀ := (h t.key s₀ hs₀ (hkept.running hrun)).weaken hkept.probe hkept.confirm6
      rw [hkept.same.generation]
      refine h₀.mono hpend fun mode hmode ha => hst.attends ha ?_
      by_cases hcl : t.pc = .cleanup
      · refine .inl fun hn => ?_
        obtain ⟨hg, hm⟩ : t.generation = s₀.generation ∧ t.mode = mode := by
          simpa [Thread.name] using hn
        -- the cleanup left the entry alone, so it is the mark of the other kind of worker
        by_cases hmk : Marked t.generation t.mode (w.shared.slot t.key).entry
        · rw [(hst.cleaned hcl).1 hmk s hs] at hrun
          cases hrun
        · rw [(hst.cleaned hcl).2 hmk] at hs
          obtain rfl := Option.some.inj (hs₀.symm.trans hs)
          have hworker := hsafe t hst.thread hcl s₀ hs₀ hg.symm hrun
          rcases hmode with heq | ⟨hnp, hnc⟩
          · exact hmk ⟨s₀, hs₀, hg.symm, by rw [hm, heq], hrun⟩
          · exact hworker.elim hnp hnc
      · exact .inr hcl
    · rw [hno] at hrun
      cases hrun
    · rw [hsame.generation, hg₀]
      exact hst.marks (hf.shaped t htm) hmark
  · rw [if_neg hk] at hs
    refine (h k s hs hrun).mono hpend fun mode _ ha => hst.attends ha (.inl fun hn => ?_)
    simp only [Thread.name, Prod.mk.injEq] at hn
    exact hk hn.1.symm

end WorkerStep

/-- A safe step abandons no mark. -/
theorem Attended.step {w w' : World} {l : Label} (hf : Fenced w) (h : Attended w)
    (hsafe : Safe w l) (hs : machine.step w l = some w') : Attended w' := by
  rcases stepped hs with ⟨launches, kept, ht, hth, hp, _, hk⟩ | ⟨_, _, hi, hsh, hp, hth⟩ |
    ⟨_, _, _, _, _, rfl, hst⟩
  · exact h.turns ht hth (hk hsafe.1 ▸ hp)
  · exact h.launch hi hsh hp hth
  · exact h.worker hf hst hsafe.2

/-- No worker mark is abandoned in a run of safe steps. -/
theorem no_abandoned_worker {w₀ w : World} {ls : List Label} (h₀ : Initial w₀)
    (hsafe : machine.Along Safe w₀ ls) (hrun : machine.run w₀ ls = some w) (hp : w.pending = []) :
    ∀ k s, w.shared.states.get? k = some s → s.workerRunning = true →
      ∃ t ∈ w.threads, t.key = k ∧ t.generation = s.generation ∧ t.pc ≠ .finished := by
  have hinit : Fenced w₀ ∧ Attended w₀ := ⟨h₀.fenced, fun k s hs hr => by
    rw [h₀.running k s hs] at hr
    cases hr⟩
  have h := machine.run_invariant (I := fun w => Fenced w ∧ Attended w)
    (fun w l w' hok ⟨hf, ha⟩ hs => ⟨hf.step hs, ha.step hf hok hs⟩) hinit hsafe hrun
  exact fun k s hs hr => (h.2 k s hs hr).worker hp

/-- The first offer, with its launch: the mark it sets has its worker. -/
theorem no_abandoned_worker_offered : ∃ w,
    machine.run World.start [offered 100 .succeed, .launch 0] = some w ∧
      ∃ s, w.shared.states.get? zeroKey = some s ∧ s.workerRunning = true ∧
        ∃ t ∈ w.threads, t.key = zeroKey ∧ t.generation = s.generation ∧ t.pc ≠ .finished := by
  have hsome : (machine.run World.start [offered 100 .succeed, .launch 0]).any (fun w =>
      w.pending.isEmpty && (w.shared.states.get? zeroKey).any PeerState.workerRunning) = true := by
    decide +kernel
  obtain ⟨w, hrun, hw⟩ := (Option.any_eq_true _ _).mp hsome
  obtain ⟨hp, hs⟩ := Bool.and_eq_true_iff.mp hw
  obtain ⟨s, hs, hr⟩ := (Option.any_eq_true _ _).mp hs
  have hsafe : machine.Along Safe World.start [offered 100 .succeed, .launch 0] :=
    ⟨⟨fun _ _ _ => rfl, trivial⟩, fun _ _ => ⟨⟨trivial, trivial⟩, fun _ _ => trivial⟩⟩
  exact ⟨w, hrun, s, hs, hr,
    no_abandoned_worker initial_start hsafe hrun (List.isEmpty_iff.mp hp) zeroKey s hs hr⟩

/-- The first offer marks its entry, and the launch is lost with the `save_state` that ends it. -/
theorem abandoned_by_offer : ¬ ∀ ls w, machine.run World.start ls = some w → w.pending = [] →
    ∀ k s, w.shared.states.get? k = some s → s.workerRunning = true →
      ∃ t ∈ w.threads, t.key = k ∧ t.generation = s.generation ∧ t.pc ≠ .finished := by
  intro h
  have hsome : (machine.run World.start [offered 100 { OfferCalls.succeed with finalSave := false }]).any
      (fun w => w.pending.isEmpty && w.threads.isEmpty &&
        (w.shared.states.get? zeroKey).any PeerState.workerRunning) = true := by decide +kernel
  obtain ⟨w, hrun, hw⟩ := (Option.any_eq_true _ _).mp hsome
  simp only [Bool.and_eq_true, List.isEmpty_iff] at hw
  obtain ⟨⟨hp, hth⟩, hs⟩ := hw
  obtain ⟨s, hs, hr⟩ := (Option.any_eq_true _ _).mp hs
  obtain ⟨t, ht, _⟩ := h _ w hrun hp zeroKey s hs hr
  rw [hth] at ht
  cases ht

end Agent
