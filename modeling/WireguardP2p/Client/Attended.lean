import WireguardP2p.Client.Ownership

/-! No probe is abandoned. A worker mark is watched by an unfinished probe of its generation, or by the
    `go` statement that is about to start one. Every end of a probe takes the mark off first, except the
    end at a route that is refused. -/

namespace Client
open Ipaddress Python Net Candidates

/-- Every worker mark has its probe. -/
def Attended (w : World) : Prop := ∀ key generation, w.app.fence key = some (generation, .probing) →
  ∃ g ∈ w.live, g.key = key ∧ g.generation = generation ∧ g.pc.kind = some .probing

/-- The goroutine is about to install the route of a probe. -/
def Pc.promotes : Pc → Bool
  | promote _ _ _ => true
  | _ => false

/-- A probe that still owns its state is not refused the route. -/
def RouteAccepted (w : World) : Label → Prop
  | .run i calls => ∀ g ∈ w.goroutines[i]?, g.pc.promotes = true → g.owns w.app = true →
      w.app.accepts calls.set = true
  | _ => True

instance (w : World) : (l : Label) → Decidable (RouteAccepted w l)
  | .run i _ => inferInstanceAs (Decidable (∀ g ∈ w.goroutines[i]?, _))
  | .tick _ | .handshake _ _ | .roam _ _ | .interfaceFound _ _ | .interfaceLost | .proceed _
  | .reconcilePeers _ _ _ _ | .drop _ _ | .fallbackStaleDirects _ _ | .cleanup _ _ =>
    inferInstanceAs (Decidable True)

section Step
variable {w w' : World} {l : Label}

/-- Only a step of its own changes a goroutine. -/
theorem Stepped.live (hs : Stepped w l w') : w.live ⊆ w'.live ∨
    ∃ i g calls, l = .run i calls ∧ w.goroutines[i]? = some g ∧ g.pc ≠ .finished ∧
      w' = w.run i g calls := by
  have hsub {w'' : World} {m : Main} (h : w.main = m) (hm : m.pending = [])
      (hg : w''.goroutines = w.goroutines) : w.live ⊆ w''.live := by
    rw [World.live_eq (h ▸ hm), World.live, hg]
    exact List.subset_append_left _ _
  cases hs with
  | tick => exact .inl (List.Subset.refl _)
  | handshake => exact .inl (List.Subset.refl _)
  | roam => exact .inl (List.Subset.refl _)
  | interfaceFound name device h => exact .inl (hsub h rfl rfl)
  | interfaceLost h => exact .inl (hsub h rfl rfl)
  | refused => exact .inl (List.Subset.refl _)
  | dumped peers ownKey ourLAN dump s h => exact .inl (hsub h rfl rfl)
  | reset calls h => exact .inl (h.elim (fun h => hsub h rfl rfl) fun h => hsub h rfl rfl)
  | entered calls s peers h => exact .inl (hsub h rfl rfl)
  | tracked calls s peers h => exact .inl (hsub h rfl rfl)
  | passed calls s p rest h => exact .inl (hsub h rfl rfl)
  | visited calls s p rest target main h => exact .inl (hsub h rfl rfl)
  | swept calls s h => exact .inl (hsub h rfl rfl)
  | launched calls s rest g h =>
    refine .inl fun x hx => ?_
    simpa [World.live, h, Main.pending] using hx
  | returned calls s h => exact .inl (hsub h rfl rfl)
  | dropped s keys key remove h => exact .inl (hsub h rfl rfl)
  | fallback => exact .inl (List.Subset.refl _)
  | cleanup removeState removeServer main h =>
    exact .inl (h.elim (fun h => hsub h.1 rfl rfl) fun h => hsub h.1 rfl rfl)
  | ran i g calls hi hpc => exact .inr ⟨i, g, calls, rfl, hi, hpc, rfl⟩

end Step

/-- A probe that leaves its worker mark goes on, unless it is refused the route. -/
theorem Ran.goes_on {g : Goroutine} {a b : App} {clock : ℕ} {calls : GoCalls} {pc : Pc}
    (h : Ran g a clock calls b pc) (hk : g.pc.kind = some .probing)
    (hf : a.fence g.key = some (g.generation, .probing))
    (hf' : b.fence g.key = some (g.generation, .probing))
    (hok : g.pc.promotes = true → a.accepts calls.set = true) : pc.kind = some .probing := by
  have howns : g.owns a = true := Goroutine.owns_iff.mpr ⟨_, hk, hf⟩
  have hgone {s : PeerState} {c : App} (hr : s.workerRunning = false) :
      (c.setState g.key s).fence g.key ≠ some (g.generation, .probing) := by
    rw [App.fence_setState, if_pos rfl, PeerState.fence, hr]
    split <;> simp_all
  cases h with
  | moved hkind => exact hkind.trans hk
  | left h =>
    rcases h with ⟨hn, _⟩ | hw
    · simp [hn] at howns
    · simp [hw] at hk
  | cancelled =>
    rcases g.finishProbeCancelled_eq (a := a) with ⟨hne, _⟩ | ⟨s, s', _, he, hr, _⟩
    · obtain ⟨s, hs, hgen, _⟩ := App.current_iff.mp (App.current_iff_fence.mpr hf)
      exact absurd hgen (hne s hs)
    · rw [he] at hf'
      exact absurd hf' (hgone hr)
  | configured => rfl
  | failed s =>
    obtain ⟨b, s', he, _, hr, _⟩ := g.fail_eq (a := a) s
    rw [he] at hf'
    exact absurd hf' (hgone hr)
  | promoted t endpoint type s _ _ _ hacc =>
    obtain ⟨s', he, _, hr, _⟩ := g.promote_eq (s := s) hacc
    rw [he] at hf'
    exact absurd hf' (hgone hr)
  | refused t endpoint type hpc _ hacc =>
    rw [hok (by rw [hpc]; rfl)] at hacc
    cases hacc
  | adopted endpoint s hpc =>
    rw [hpc] at hk
    cases hk

section Step
variable {w w' : World} {l : Label}

theorem Attended.run {i : ℕ} {g : Goroutine} {calls : GoCalls} (h : Attended w)
    (hi : w.goroutines[i]? = some g) (hpc : g.pc ≠ .finished) (hok : RouteAccepted w (.run i calls))
    {key : Text} {generation : ℕ} (hf : w.app.fence key = some (generation, .probing))
    (hf' : (w.run i g calls).app.fence key = some (generation, .probing)) :
    ∃ u ∈ (w.run i g calls).live, u.key = key ∧ u.generation = generation ∧
      u.pc.kind = some .probing := by
  obtain ⟨u, hu, rfl, rfl, hk⟩ := h key generation hf
  obtain ⟨j, hj⟩ := List.mem_iff_getElem?.mp hu
  have hlt : i < w.goroutines.length := (List.getElem?_eq_some_iff.mp hi).1
  have hlive : (w.run i g calls).live =
      w.live.set i (g.after w.app (g.step w.app w.clock calls).2) := by
    rw [World.live, World.live, List.set_append, if_pos hlt]
    rfl
  by_cases hij : i = j
  · subst hij
    obtain rfl := Option.some.inj ((World.live_getElem? hi).symm.trans hj)
    refine ⟨g.after w.app (g.step w.app w.clock calls).2, hlive ▸ List.mem_iff_getElem?.mpr ⟨i, ?_⟩,
      rfl, rfl, ?_⟩
    · rw [List.getElem?_set, if_pos rfl, if_pos (List.getElem?_eq_some_iff.mp hj).1]
    · exact (Goroutine.ran hpc).goes_on hk hf hf' fun hp =>
        hok g hi hp (Goroutine.owns_iff.mpr ⟨_, hk, hf⟩)
  · refine ⟨u, hlive ▸ List.mem_iff_getElem?.mpr ⟨j, ?_⟩, rfl, rfl, hk⟩
    rw [List.getElem?_set, if_neg hij, hj]

theorem Attended.step (hp : w.app.Probing) (h : Attended w) (hok : RouteAccepted w l)
    (hs : machine.step w l = some w') : Attended w' := by
  intro key generation hf'
  have hlater (hf : w.app.fence key = some (generation, .probing)) :
      ∃ g ∈ w'.live, g.key = key ∧ g.generation = generation ∧ g.pc.kind = some .probing := by
    rcases (stepped hs).live with hsub | ⟨i, g, calls, rfl, hi, hpc, rfl⟩
    · obtain ⟨g, hg, hrest⟩ := h key generation hf
      exact ⟨g, hsub hg, hrest⟩
    · exact h.run hi hpc hok hf hf'
  rcases shifted hp hs with ⟨hq, _⟩ | ⟨_, _, _, _, _, g, _, _, _, _, _, hpc, hl, hst⟩ |
    ⟨i, g, _, _, _, hi, _, _, _, _, _, ha⟩ | ⟨_, _, _, _, hf⟩
  · rcases hq key with hn | ⟨hsame, _⟩
    · simp [hn] at hf'
    · exact hlater (hsame ▸ hf')
  · by_cases hk : key = g.key
    · subst hk
      rw [hst.after, Option.some.injEq, Prod.mk.injEq] at hf'
      exact ⟨g, hl ▸ List.mem_append_right _ List.mem_cons_self, rfl, hf'.1, by rw [hpc]; rfl⟩
    · exact hlater ((hst.others key hk).1 ▸ hf')
  · by_cases hk : key = g.key
    · subst hk
      simp [ha.after] at hf'
    · exact hlater ((ha.others key hk).1 ▸ hf')
  · rcases hf key with hn | ⟨s, _, _, hw⟩
    · simp [hn] at hf'
    · simp [hw] at hf'

end Step

/-- No probe is abandoned in a run in which no probe is refused its route. -/
theorem no_abandoned_probe {w₀ w : World} {ls : List Label} (h₀ : Initial w₀)
    (hok : machine.Along RouteAccepted w₀ ls) (hrun : machine.run w₀ ls = some w)
    (hmain : w.main.pending = []) :
    ∀ key s, w.app.states.get? key = some s → s.workerRunning = true →
      ∃ g ∈ w.goroutines, g.key = key ∧ g.generation = s.generation ∧ g.pc.kind = some .probing := by
  have hinit : w₀.app.Probing ∧ Attended w₀ := ⟨h₀.probing, fun key generation hf => by
    rw [App.fence, h₀.states] at hf
    cases hf⟩
  obtain ⟨_, h⟩ := machine.run_invariant (I := fun w => w.app.Probing ∧ Attended w)
    (fun w l w' hl h hs => ⟨probing_step h.1 hs, h.2.step h.1 hl hs⟩) hinit hok hrun
  intro key s hs hr
  rw [← World.live_eq hmain]
  exact h key s.generation (App.current_iff_fence.mp (App.current_iff.mpr ⟨s, hs, rfl, hr⟩))

/-- The probe of the first sync. -/
theorem no_abandoned_probe_probeRun : ∃ w, machine.run World.start probeRun = some w ∧
    ∃ s, w.app.states.get? "server".toList = some s ∧ s.workerRunning = true ∧
      ∃ g ∈ w.goroutines, g.key = "server".toList ∧ g.generation = s.generation ∧
        g.pc.kind = some .probing := by
  have hsome : (machine.run World.start probeRun).any (fun w => w.main.pending.isEmpty &&
      (w.app.states.get? "server".toList).any PeerState.workerRunning) = true := by decide +kernel
  obtain ⟨w, hrun, hw⟩ := (Option.any_eq_true _ _).mp hsome
  obtain ⟨hp, hs⟩ := Bool.and_eq_true_iff.mp hw
  obtain ⟨s, hs, hr⟩ := (Option.any_eq_true _ _).mp hs
  have hok : machine.Along RouteAccepted World.start probeRun := by decide +kernel
  exact ⟨w, hrun, s, hs, hr, no_abandoned_probe initial_start hok hrun (List.isEmpty_iff.mp hp) _ s hs hr⟩

/-- A handshake has come, and `wg set` refuses the route. -/
def refusedRun : List Label :=
  probeRun ++ [.handshake "server".toList "203.0.113.5:51820".toList] ++ runs 3 ++
    [.run 0 { goCalls with set := false }]

theorem abandoned_by_refused_route : ¬ ∀ ls w, machine.run World.start ls = some w →
    w.main.pending = [] → ∀ key s, w.app.states.get? key = some s → s.workerRunning = true →
      ∃ g ∈ w.goroutines, g.key = key ∧ g.generation = s.generation ∧ g.pc.kind = some .probing := by
  intro h
  have hsome : (machine.run World.start refusedRun).any (fun w => w.main.pending.isEmpty &&
      (w.goroutines.all fun g => decide (g.pc = .finished)) &&
      (w.app.states.get? "server".toList).any PeerState.workerRunning) = true := by decide +kernel
  obtain ⟨w, hrun, hw⟩ := (Option.any_eq_true _ _).mp hsome
  simp only [Bool.and_eq_true, List.isEmpty_iff, List.all_eq_true, decide_eq_true_eq] at hw
  obtain ⟨⟨hp, hfinished⟩, hs⟩ := hw
  obtain ⟨s, hs, hr⟩ := (Option.any_eq_true _ _).mp hs
  obtain ⟨g, hg, _, _, hk⟩ := h _ w hrun hp _ s hs hr
  simp [hfinished g hg, Pc.kind] at hk

end Client
