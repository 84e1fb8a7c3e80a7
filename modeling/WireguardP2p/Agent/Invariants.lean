import WireguardP2p.Agent.World

/-! Rules for invariants of what STATE_LOCK protects. A pass over STATES keeps what its sections keep, and
    a step of the machine keeps what the section it runs keeps. -/

namespace Agent
open Ipaddress Python Candidates Raising

section Passes
variable {I : Shared → Prop}

theorem keeps_queryAll (q : Option Raised) : Keeps I (queryAll q) := fun _ h =>
  (wp_queryAll q).mpr ⟨fun _ => h, fun _ _ => h⟩

theorem keeps_saveAll (ok : Bool) : Keeps I (saveAll ok) := fun _ h =>
  (wp_saveAll ok).mpr ⟨fun _ => h, fun _ => h⟩

theorem keeps_monitorLoop {now : Time} {remove : PublicKey → Outcome}
    (h : ∀ k, Keeps I (onKey k (monitorPeer now (remove k)))) :
    ∀ keys, Keeps I (monitorLoop now remove keys)
  | [] => .pure _
  | k :: ks => .bind (h k) fun _ => .bind (keeps_monitorLoop h ks) fun _ => .pure _

theorem keeps_monitorOnce {now : Time} {calls : PassCalls}
    (h : ∀ k, Keeps I (onKey k (monitorPeer now (calls.remove k)))) : Keeps I (monitorOnce now calls) :=
  .bind .get fun _ => .ite (fun _ => .pure _) fun _ => .bind (keeps_queryAll _) fun _ =>
    .bind (keeps_monitorLoop h _) fun (_, _) =>
      .ite (fun _ => .bind (keeps_saveAll _) fun _ => .pure _) fun _ => .pure _

theorem keeps_cleanupLoop {active : List Text} {remove : PublicKey → Outcome}
    (h : ∀ k, Keeps I (onKey k (cleanupPeer (decide (k.1 ∈ active)) (remove k)))) :
    ∀ keys, Keeps I (cleanupLoop active remove keys)
  | [] => .pure _
  | k :: ks => .bind (h k) fun _ => .bind (keeps_cleanupLoop h ks) fun _ => .pure _

theorem keeps_cleanupInitiatorStates {active : List Text} {calls : PassCalls}
    (h : ∀ k, Keeps I (onKey k (cleanupPeer (decide (k.1 ∈ active)) (calls.remove k)))) :
    Keeps I (cleanupInitiatorStates active calls) :=
  .bind (keeps_queryAll _) fun _ => .bind .get fun _ => .bind (keeps_cleanupLoop h _) fun _ =>
    .ite (fun _ => keeps_saveAll _) fun _ => .pure _

end Passes

section Step
variable {w w' : World}

theorem World.monitor_shared (w : World) (now : Time) (calls : PassCalls) :
    (w.monitor now calls).shared = ((monitorOnce now calls).run w.shared).2 := by
  unfold World.monitor
  rcases (monitorOnce now calls).run w.shared with ⟨_ | _, _⟩ <;> rfl

theorem World.worker_shared (w : World) (i : ℕ) (t : Thread) (calls : WorkerCalls) :
    (w.worker i t calls).shared = w.shared.put t.key ((t.step calls).run (w.shared.slot t.key)).2 := by
  simp only [World.worker, Raising.run, onKey]
  rcases t.step calls (w.shared.slot t.key) with ⟨_ | _, _⟩ <;> rfl

theorem World.worker_pending (w : World) (i : ℕ) (t : Thread) (calls : WorkerCalls) :
    (w.worker i t calls).pending = w.pending := by
  unfold World.worker
  rcases (onKey t.key (t.step calls)).run w.shared with ⟨_ | _, _⟩ <;> rfl

/-- The step of a worker is a step of its thread. -/
theorem worker_step {i : ℕ} {calls : WorkerCalls}
    (h : machine.step w (.worker i calls) = some w') :
    ∃ t, w.threads[i]? = some t ∧ t.pc ≠ .finished ∧ w' = w.worker i t calls := by
  simp only [machine, World.step] at h
  cases ht : w.threads[i]? with
  | none => simp [ht] at h
  | some t =>
    by_cases hpc : t.pc = .finished
    · simp [ht, hpc] at h
    · simp only [ht, if_neg hpc, Option.some.injEq] at h
      exact ⟨t, rfl, hpc, h.symm⟩

/-- The launch of a worker touches nothing under STATE_LOCK. -/
theorem launch_step {i : ℕ} (h : machine.step w (.launch i) = some w') : ∃ launch,
    w.pending[i]? = some launch ∧ w' = { w with
      pending := w.pending.eraseIdx i, threads := w.threads ++ [World.probeThread launch] } := by
  simp only [machine, World.step] at h
  cases hi : w.pending[i]? with
  | none => simp [hi] at h
  | some launch =>
    simp only [hi, Option.some.injEq] at h
    exact ⟨launch, rfl, h.symm⟩

theorem handshake_step {k : PublicKey} {at_ : ℕ} (h : machine.step w (.handshake k at_) = some w') :
    ∃ p, w.shared.wg.get? k = some p ∧ at_ ≠ 0 ∧ w' = w.device k { p with latestHandshake := at_ } := by
  simp only [machine, World.step] at h
  cases hp : w.shared.wg.get? k with
  | none => simp [hp] at h
  | some p =>
    by_cases ha : at_ = 0
    · simp [hp, ha] at h
    · simp only [hp, if_neg ha, Option.some.injEq] at h
      exact ⟨p, rfl, ha, h.symm⟩

theorem roam_step {k : PublicKey} {endpoint : Text} (h : machine.step w (.roam k endpoint) = some w') :
    ∃ p, w.shared.wg.get? k = some p ∧ w' = w.device k { p with endpoint } := by
  simp only [machine, World.step] at h
  cases hp : w.shared.wg.get? k with
  | none => simp [hp] at h
  | some p =>
    simp only [hp, Option.some.injEq] at h
    exact ⟨p, rfl, h.symm⟩

/-- The program leaves `I` behind, however it ends. -/
abbrev Leaves {α : Type} (I : Shared → Prop) (p : Locked α) (sh : Shared) : Prop :=
  p.wp (fun _ => I) (fun _ => I) sh

/-- Step rule for an invariant of what STATE_LOCK protects. -/
theorem shared_step {I : Shared → Prop} {l : Label} (hs : machine.step w l = some w') (h : I w.shared)
    (hoffer : ∀ env data controller calls o, l = .offer env data controller calls →
      readOffer env data controller = .ok o → Leaves I (onKey o.key (offerSection o calls)) w.shared)
    (hremove : ∀ listenAddress data now calls r, l = .remove listenAddress data now calls →
      Leaves I (onKey r.key (removeSection r now calls)) w.shared)
    (hmonitor : ∀ now calls k, l = .monitor now calls →
      Keeps I (onKey k (monitorPeer now (calls.remove k))))
    (hcleanup : ∀ active calls k, l = .cleanupInitiator active calls →
      Keeps I (onKey k (cleanupPeer (decide (k.1 ∈ active)) (calls.remove k))))
    (hworker : ∀ i calls t, l = .worker i calls → w.threads[i]? = some t →
      Leaves I (onKey t.key (t.step calls)) w.shared)
    (hdevice : ∀ k p q, w.shared.wg.get? k = some p → q.allowedIps = p.allowedIps →
      (p.latestHandshake ≠ 0 → q.latestHandshake ≠ 0) →
        I { w.shared with wg := w.shared.wg.set k q }) : I w'.shared := by
  cases l with
  | offer env data controller calls =>
    obtain rfl := Option.some.inj hs
    cases ho : readOffer env data controller with
    | error e =>
      rw [World.offer, ho]
      exact h
    | ok o =>
      rw [World.offer_shared ho]
      exact wp_run (hoffer env data controller calls o rfl ho)
  | remove listenAddress data now calls =>
    obtain rfl := Option.some.inj hs
    unfold World.remove
    cases readRemoval listenAddress data with
    | error e => exact h
    | ok r => exact wp_run (hremove listenAddress data now calls r rfl)
  | monitor now calls =>
    obtain rfl := Option.some.inj hs
    rw [World.monitor_shared]
    exact (keeps_monitorOnce fun k => hmonitor now calls k rfl).run h
  | cleanupInitiator active calls =>
    obtain rfl := Option.some.inj hs
    exact (keeps_cleanupInitiatorStates fun k => hcleanup active calls k rfl).run h
  | launch i =>
    obtain ⟨_, _, rfl⟩ := launch_step hs
    exact h
  | worker i calls =>
    obtain ⟨t, ht, _, rfl⟩ := worker_step hs
    rw [World.worker_shared]
    exact wp_run (hworker i calls t rfl ht)
  | handshake k at_ =>
    obtain ⟨p, hp, ha, rfl⟩ := handshake_step hs
    exact hdevice k p _ hp rfl fun _ => ha
  | roam k endpoint =>
    obtain ⟨p, hp, rfl⟩ := roam_step hs
    exact hdevice k p _ hp rfl id

end Step

end Agent
