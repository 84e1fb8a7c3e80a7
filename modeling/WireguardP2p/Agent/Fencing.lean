import WireguardP2p.Agent.Steps

/-! Worker fencing. STATES is a fence: the token of a key is the generation of its entry, handed out by
    one counter for the whole process. Every step of the machine advances the fence, and a worker acts
    only while its generation is the token of its key; so a worker that lost its entry is fenced off
    for good, and at most one worker of a key can ever act again. -/

namespace Agent
open Ipaddress Python Candidates Raising

/-- The generation of each entry, with the session and the peer instance it was made for. -/
def Shared.fence (sh : Shared) : Fence PublicKey (Text × Text) where
  current k := (sh.states.get? k).map fun s => (s.generation, s.sessionId, s.peerInstanceId)
  last := sh.lastGeneration

theorem Shared.current_eq {sh : Shared} {k : PublicKey} {g : ℕ} {i : Text × Text} :
    sh.fence.current k = some (g, i) ↔
      ∃ s, sh.states.get? k = some s ∧ s.generation = g ∧ (s.sessionId, s.peerInstanceId) = i := by
  simp [fence, Option.map_eq_some_iff]

/-- An incarnation that stays has its token. -/
theorem Same.current {sh : Shared} {k : PublicKey} {s s' : PeerState} (h : Same s s')
    (hs : sh.states.get? k = some s) : sh.fence.current k =
      some (s'.generation, s'.sessionId, s'.peerInstanceId) :=
  Shared.current_eq.mpr ⟨s, hs, h.generation.symm, by rw [h.session, h.peerInstance]⟩

theorem Turns.advance {sh sh' : Shared} {l : List (PublicKey × ℕ)} (h : Turns sh sh' l) :
    sh.fence.Advance sh'.fence := by
  refine ⟨h.last_le, fun k g i hk => ?_⟩
  obtain ⟨s, hs, rfl, rfl⟩ := Shared.current_eq.mp hk
  rcases h.entry k s hs with ⟨s₀, hs₀, hkept⟩ | ⟨hlt, hle, _⟩
  · exact .inl (hkept.same.current hs₀)
  · exact .inr ⟨hlt, hle⟩

theorem WorkerStep.advance {w w' : World} {i : ℕ} {t : Thread} {next : Next} {sl : Slot}
    (h : WorkerStep w i t w' next sl) : w.shared.fence.Advance w'.shared.fence := by
  rw [h.shared]
  refine ⟨h.turn.last_le, fun k g j hk => ?_⟩
  obtain ⟨s, hs, rfl, rfl⟩ := Shared.current_eq.mp hk
  rw [Shared.get?_put_states] at hs
  by_cases hkt : k = t.key
  · rw [if_pos hkt] at hs
    subst hkt
    rcases h.turn.entry s hs with ⟨s₀, hs₀, hkept⟩ | ⟨hlt, hle, _⟩ | ⟨⟨s₀, hs₀, _, hsame⟩, _⟩
    · exact .inl (hkept.same.current hs₀)
    · exact .inr ⟨hlt, hle⟩
    · exact .inl (hsame.current hs₀)
  · rw [if_neg hkt] at hs
    exact .inl (Shared.current_eq.mpr ⟨s, hs, rfl, rfl⟩)

/-- Every step advances the fence. -/
theorem advance_step {w w' : World} {l : Label} (h : machine.step w l = some w') :
    w.shared.fence.Advance w'.shared.fence := by
  rcases stepped h with ⟨_, _, ht, _⟩ | ⟨_, _, _, hs, _, _⟩ | ⟨_, _, _, _, _, _, hstep⟩
  · exact ht.advance
  · exact hs ▸ .refl _
  · exact hstep.advance

/-- Every run advances the fence. -/
theorem advance_run {w w' : World} {ls : List Label} (h : machine.run w ls = some w') :
    w.shared.fence.Advance w'.shared.fence :=
  machine.run_relation (I := fun _ => True) (R := fun w w' => w.shared.fence.Advance w'.shared.fence)
    (fun _ => .refl _) (fun _ _ _ => .trans) (fun _ _ _ _ _ hstep => ⟨trivial, advance_step hstep⟩)
    trivial (machine.along_true w ls) h

/-! ### The workers of a key -/

/-- The key, generation and kind of a worker. -/
def Thread.name (t : Thread) : PublicKey × ℕ × WorkerMode := (t.key, t.generation, t.mode)

/-- A worker stands in the code of its kind. -/
def Thread.Shaped (t : Thread) : Prop :=
  match t.pc with
  | .probe _ => t.mode = .probe
  | .confirm _ => t.mode = .confirm6
  | _ => True

/-- The probe is over: its worker is past the launch of a confirmation. -/
def Thread.Over (t : Thread) : Prop := t.pc = .cleanup ∨ t.pc = .finished

/-- A worker whose probe phase is over: a confirmation, or a probe about to launch one. -/
def Thread.Released (t : Thread) : Prop :=
  t.mode = .confirm6 ∨ ∃ ip c a, t.pc = .probe (.rekey ip c a)

/-- No worker probes under the generation of `t`. -/
def NoProbe (sh : Shared) (t : Thread) : Prop := ∀ s, sh.states.get? t.key = some s →
  s.generation = t.generation → s.workerRunning = true → s.mode ≠ .probe

/-- Generations are bounded by the counter, workers are told apart by their names, and a confirmation
    runs only after the probe of its generation. -/
structure Fenced (w : World) : Prop where
  bounded : w.shared.fence.Bounded
  pending_le : ∀ l ∈ w.pending, l.2 ≤ w.shared.lastGeneration
  thread_le : ∀ t ∈ w.threads, t.generation ≤ w.shared.lastGeneration
  pending_nodup : w.pending.Nodup
  pending_new : ∀ l ∈ w.pending, ∀ t ∈ w.threads, (t.key, t.generation) ≠ l
  names : (w.threads.map Thread.name).Nodup
  shaped : ∀ t ∈ w.threads, t.Shaped
  probed : ∀ t ∈ w.threads, t.mode = .confirm6 →
    ∃ u ∈ w.threads, u.name = (t.key, t.generation, .probe) ∧ u.Over
  released : ∀ t ∈ w.threads, t.Released → NoProbe w.shared t

/-- Workers of one name are one. -/
theorem Fenced.eq_of_name {w : World} (h : Fenced w) {i j : ℕ} {t u : Thread}
    (hi : w.threads[i]? = some t) (hj : w.threads[j]? = some u) (hn : t.name = u.name) : i = j := by
  have hlen : i < (w.threads.map Thread.name).length := by
    rw [List.length_map]
    exact (List.getElem?_eq_some_iff.mp hi).1
  refine (List.getElem?_inj hlen h.names).mp ?_
  rw [List.getElem?_map, List.getElem?_map, hi, hj, Option.map_some, Option.map_some, hn]

theorem Fenced.mem_eq_of_name {w : World} (h : Fenced w) {t u : Thread} (ht : t ∈ w.threads)
    (hu : u ∈ w.threads) (hn : t.name = u.name) : t = u := by
  obtain ⟨i, hi⟩ := List.mem_iff_getElem?.mp ht
  obtain ⟨j, hj⟩ := List.mem_iff_getElem?.mp hu
  obtain rfl := h.eq_of_name hi hj hn
  exact Option.some.inj (hi.symm.trans hj)

/-- A kept entry brings no probe. -/
theorem NoProbe.turns {sh sh' : Shared} {l : List (PublicKey × ℕ)} {t : Thread} (h : NoProbe sh t)
    (ht : Turns sh sh' l) (hle : t.generation ≤ sh.lastGeneration) : NoProbe sh' t := by
  intro s hs hg hrun hm
  rcases ht.entry _ s hs with ⟨s₀, hs₀, hk⟩ | ⟨hlt, _⟩
  · exact h s₀ hs₀ (hk.same.generation.symm.trans hg) (hk.running hrun) (hk.probe hm)
  · omega

theorem Fenced.turns {w w' : World} {launches kept : List (PublicKey × ℕ)} (h : Fenced w)
    (ht : Turns w.shared w'.shared launches) (hth : w'.threads = w.threads)
    (hp : w'.pending = kept ++ w.pending) (hk : kept = launches ∨ kept = []) : Fenced w' := by
  have hnew : ∀ l ∈ kept, w.shared.lastGeneration < l.2 ∧ l.2 ≤ w'.shared.lastGeneration := by
    rcases hk with rfl | rfl
    · exact ht.new
    · exact nofun
  have hnd : kept.Nodup := by
    rcases hk with rfl | rfl
    · exact ht.nodup
    · exact .nil
  refine ⟨ht.advance.bounded h.bounded, ?_, ?_, ?_, ?_, hth ▸ h.names, hth ▸ h.shaped,
    hth ▸ h.probed, ?_⟩
  · intro l hl
    rcases List.mem_append.mp (hp ▸ hl) with hl | hl
    · exact (hnew l hl).2
    · exact (h.pending_le l hl).trans ht.last_le
  · intro t htm
    exact (h.thread_le t (hth ▸ htm)).trans ht.last_le
  · rw [hp]
    refine List.nodup_append.mpr ⟨hnd, h.pending_nodup, fun x hx y hy hxy => ?_⟩
    have h₁ := (hnew x hx).1
    have h₂ := h.pending_le y hy
    rw [hxy] at h₁
    omega
  · intro l hl t htm hn
    rcases List.mem_append.mp (hp ▸ hl) with hl | hl
    · have h₁ := (hnew l hl).1
      have h₂ := h.thread_le t (hth ▸ htm)
      rw [← hn] at h₁
      exact absurd h₁ (by simpa using h₂)
    · exact h.pending_new l hl t (hth ▸ htm) hn
  · intro t htm hr
    rw [hth] at htm
    exact (h.released t htm hr).turns ht (h.thread_le t htm)

theorem Fenced.launch {w w' : World} {i : ℕ} {launch : PublicKey × ℕ} (h : Fenced w)
    (hi : w.pending[i]? = some launch) (hs : w'.shared = w.shared)
    (hp : w'.pending = w.pending.eraseIdx i)
    (ht : w'.threads = w.threads ++ [World.probeThread launch]) : Fenced w' := by
  have hmem : launch ∈ w.pending := List.mem_of_getElem? hi
  have hsub {l : PublicKey × ℕ} (hl : l ∈ w'.pending) : l ∈ w.pending :=
    List.mem_of_mem_eraseIdx (hp ▸ hl)
  have hcases {t : Thread} (htm : t ∈ w'.threads) : t ∈ w.threads ∨ t = World.probeThread launch := by
    simpa [ht] using htm
  have hnr : ¬ (World.probeThread launch).Released := by
    rintro (hm | ⟨_, _, _, hpc⟩)
    · cases hm
    · cases hpc
  refine ⟨hs ▸ h.bounded, ?_, ?_, ?_, ?_, ?_, ?_, ?_, ?_⟩
  · exact fun l hl => hs ▸ h.pending_le l (hsub hl)
  · intro t htm
    rw [hs]
    rcases hcases htm with htm | rfl
    · exact h.thread_le t htm
    · exact h.pending_le launch hmem
  · exact hp ▸ h.pending_nodup.sublist (List.eraseIdx_sublist ..)
  · intro l hl t htm hn
    rcases hcases htm with htm | rfl
    · exact h.pending_new l (hsub hl) t htm hn
    · obtain rfl : launch = l := hn
      obtain ⟨j, hji, hj⟩ := List.mem_eraseIdx_iff_getElem?.mp (hp ▸ hl)
      have hlt : i < w.pending.length := (List.getElem?_eq_some_iff.mp hi).1
      exact hji ((List.getElem?_inj hlt h.pending_nodup).mp (hi.trans hj.symm)).symm
  · rw [ht, List.map_append, List.map_singleton]
    refine List.nodup_append.mpr ⟨h.names, List.nodup_singleton _, fun x hx y hy hxy => ?_⟩
    obtain ⟨t, htm, rfl⟩ := List.mem_map.mp hx
    rw [List.mem_singleton.mp hy] at hxy
    have hn : (t.key, t.generation) = launch := by
      simp only [Thread.name, World.probeThread, Prod.mk.injEq] at hxy
      exact Prod.ext hxy.1 hxy.2.1
    exact h.pending_new launch hmem t htm hn
  · intro t htm
    rcases hcases htm with htm | rfl
    · exact h.shaped t htm
    · exact rfl
  · intro t htm hm
    rcases hcases htm with htm | rfl
    · obtain ⟨u, hu, hn, ho⟩ := h.probed t htm hm
      exact ⟨u, ht ▸ List.mem_append_left _ hu, hn, ho⟩
    · cases hm
  · intro t htm hr
    rcases hcases htm with htm | rfl
    · exact hs ▸ h.released t htm hr
    · exact absurd hr hnr

/-- Under the generation of its key a worker that goes on does not bring a probe to another one. -/
theorem Fenced.noProbe_step {w w' : World} {i : ℕ} {t u : Thread} {next : Next} {sl : Slot}
    (h : Fenced w) (hst : WorkerStep w i t w' next sl) (hu : u ∈ w.threads) (hr : u.Released) :
    NoProbe w'.shared u := by
  have htm : t ∈ w.threads := List.mem_of_getElem? hst.thread
  have hbefore := h.released u hu hr
  intro s hs hg hrun hm
  rw [hst.shared, Shared.get?_put_states] at hs
  by_cases hk : u.key = t.key
  · rw [if_pos hk] at hs
    rcases hst.turn.entry s hs with ⟨s₀, hs₀, hkept⟩ | ⟨hlt, _⟩ | ⟨⟨s₀, hs₀, hg₀, hsame⟩, hmark⟩
    · rw [Shared.slot, ← hk] at hs₀
      exact hbefore s₀ hs₀ (hkept.same.generation.symm.trans hg) (hkept.running hrun) (hkept.probe hm)
    · have hlt : w.shared.lastGeneration < s.generation := hlt
      have hle := h.thread_le u hu
      omega
    · have hgu : u.generation = t.generation := by rw [← hg, hsame.generation, hg₀]
      have hshape := h.shaped t htm
      cases hpc : t.pc with
      | probe pc =>
        rw [hpc] at hmark
        have hmode : t.mode = .probe := by simpa [Thread.Shaped, hpc] using hshape
        cases pc with
        | configure ip c rest b =>
          -- the probe of the generation is still at work
          rcases hr with hconf | ⟨_, _, _, hrekey⟩
          · obtain ⟨v, hv, hvn, hvo⟩ := h.probed u hu hconf
            have hvt : v = t := h.mem_eq_of_name hv htm (by rw [hvn, Thread.name, hk, hgu, hmode])
            rcases hvt ▸ hvo with ho | ho <;> rw [hpc] at ho <;> cases ho
          · have hmu : u.mode = .probe := by
              simpa [Thread.Shaped, hrekey] using h.shaped u hu
            have hut : u = t := h.mem_eq_of_name hu htm (by rw [Thread.name, Thread.name, hk, hgu, hmu, hmode])
            rw [hut, hpc] at hrekey
            cases hrekey
        | _ => exact hmark
      | confirm pc =>
        rw [hpc] at hmark
        cases pc with
        | setup ip e =>
          rw [show s.mode = .confirm6 from hmark] at hm
          cases hm
        | _ => exact hmark
      | _ => rw [hpc] at hmark; exact hmark
  · rw [if_neg hk] at hs
    exact hbefore s hs hg hrun hm

/-- The worker after its step. -/
def Thread.after (t : Thread) (next : Next) : Thread := { t with pc := next.pc }

@[simp] theorem Thread.name_after (t : Thread) (next : Next) : (t.after next).name = t.name := rfl

section WorkerStep
variable {w w' : World} {i : ℕ} {t : Thread} {next : Next} {sl : Slot}

/-- The workers after a step of a worker. -/
theorem WorkerStep.mem (h : WorkerStep w i t w' next sl) {u : Thread} (hu : u ∈ w'.threads) :
    u ∈ w.threads ∨ u = t.after next ∨ ∃ c, next.confirm = some c ∧ u = World.confirmThread t c := by
  rw [h.threads, List.mem_append] at hu
  rcases hu with hu | hu
  · rcases List.mem_or_eq_of_mem_set hu with hu | rfl
    · exact .inl hu
    · exact .inr (.inl rfl)
  · simp only [Option.mem_toList, Option.map_eq_some_iff] at hu
    obtain ⟨c, hc, rfl⟩ := hu
    exact .inr (.inr ⟨c, hc, rfl⟩)

theorem WorkerStep.mem_after (h : WorkerStep w i t w' next sl) : t.after next ∈ w'.threads := by
  rw [h.threads]
  have hlt : i < w.threads.length := (List.getElem?_eq_some_iff.mp h.thread).1
  exact List.mem_append_left _ (List.mem_set hlt _)

/-- Another worker stays where it is. -/
theorem WorkerStep.mem_of_ne (h : WorkerStep w i t w' next sl) {u : Thread} (hu : u ∈ w.threads)
    (hne : u ≠ t) : u ∈ w'.threads := by
  obtain ⟨j, hj⟩ := List.mem_iff_getElem?.mp hu
  have hji : i ≠ j := by
    rintro rfl
    exact hne (Option.some.inj (hj.symm.trans h.thread))
  rw [h.threads]
  refine List.mem_append_left _ (List.mem_iff_getElem?.mpr ⟨j, ?_⟩)
  rw [List.getElem?_set_ne hji, hj]

/-- A confirmation is launched by a probe at its end. -/
theorem WorkerStep.confirm (h : WorkerStep w i t w' next sl) {c : Text × Text}
    (hc : next.confirm = some c) : next.pc = .cleanup ∧ ∃ ip c a, t.pc = .probe (.rekey ip c a) := by
  have hl := h.turn.leads
  cases hpc : t.pc with
  | probe pc =>
    rw [hpc] at hl
    obtain ⟨hn, ip, c, a, rfl⟩ := hl.2.2 (by rw [hc]; rfl)
    exact ⟨hn, ip, c, a, rfl⟩
  | confirm pc =>
    rw [hpc] at hl
    rw [hl.2] at hc
    cases hc
  | _ =>
    rw [hpc] at hl
    rw [show next = _ from hl] at hc
    cases hc

theorem WorkerStep.names (h : WorkerStep w i t w' next sl) : w'.threads.map Thread.name =
    w.threads.map Thread.name ++ (next.confirm.map fun c => (World.confirmThread t c).name).toList := by
  have hlt := List.getElem?_eq_some_iff.mp h.thread
  rw [h.threads, List.map_append, List.map_set]
  congr 1
  · refine List.ext_getElem? fun j => ?_
    by_cases hj : i = j
    · subst hj
      rw [List.getElem?_set_self (by simpa using hlt.1), List.getElem?_map, h.thread]
      rfl
    · rw [List.getElem?_set_ne hj]
  · cases next.confirm <;> rfl

/-- After its step a worker stands in the code of its kind. -/
theorem WorkerStep.shaped (h : WorkerStep w i t w' next sl) (ht : t.Shaped) :
    (t.after next).Shaped := by
  have hl := h.turn.leads
  unfold Thread.Shaped at ht ⊢
  cases hpc : t.pc with
  | probe pc =>
    rw [hpc] at hl ht
    rcases hl.1 with hn | ⟨pc', hn⟩ <;> simp only [Thread.after, hn]
    exact ht
  | confirm pc =>
    rw [hpc] at hl ht
    rcases hl.1 with hn | ⟨pc', hn⟩ <;> simp only [Thread.after, hn]
    exact ht
  | _ =>
    rw [hpc] at hl
    simp only [Thread.after, show next = _ from hl]

/-- A worker whose probe phase is over after a step was so before, or the step promoted it. -/
theorem WorkerStep.released (h : WorkerStep w i t w' next sl) (hr : (t.after next).Released) :
    t.mode = .confirm6 ∨ ∀ s, sl.entry = some s → s.workerRunning = false := by
  rcases hr with hm | hpc
  · exact .inl hm
  · exact .inr (h.turn.rekey hpc)

end WorkerStep

theorem Fenced.worker {w w' : World} {i : ℕ} {t : Thread} {next : Next} {sl : Slot} (h : Fenced w)
    (hst : WorkerStep w i t w' next sl) : Fenced w' := by
  have htm : t ∈ w.threads := List.mem_of_getElem? hst.thread
  have hlast : w.shared.lastGeneration ≤ w'.shared.lastGeneration := hst.advance.last_le
  have hprobe {c : Text × Text} (hc : next.confirm = some c) : t.mode = .probe := by
    obtain ⟨_, _, _, _, hpc⟩ := hst.confirm hc
    simpa [Thread.Shaped, hpc] using h.shaped t htm
  refine ⟨hst.advance.bounded h.bounded, ?_, ?_, ?_, ?_, ?_, ?_, ?_, ?_⟩
  · intro l hl
    exact (h.pending_le l (hst.pending ▸ hl)).trans hlast
  · intro u hu
    rcases hst.mem hu with hu | rfl | ⟨c, _, rfl⟩
    · exact (h.thread_le u hu).trans hlast
    · exact (h.thread_le t htm).trans hlast
    · exact (h.thread_le t htm).trans hlast
  · exact hst.pending ▸ h.pending_nodup
  · intro l hl u hu
    rw [hst.pending] at hl
    rcases hst.mem hu with hu | rfl | ⟨c, _, rfl⟩
    · exact h.pending_new l hl u hu
    · exact h.pending_new l hl t htm
    · exact h.pending_new l hl t htm
  · rw [hst.names]
    cases hc : next.confirm with
    | none => simpa using h.names
    | some c =>
      refine List.nodup_append.mpr ⟨h.names, List.nodup_singleton _, fun x hx y hy hxy => ?_⟩
      obtain ⟨u, hu, rfl⟩ := List.mem_map.mp hx
      rw [List.mem_singleton.mp hy] at hxy
      obtain ⟨hk, hg, hm⟩ : u.key = t.key ∧ u.generation = t.generation ∧ u.mode = .confirm6 := by
        simpa [Thread.name, World.confirmThread] using hxy
      -- the probe of an earlier confirmation would be over, but it is only now launching
      obtain ⟨v, hv, hvn, hvo⟩ := h.probed u hu hm
      have hvt : v = t := h.mem_eq_of_name hv htm (by rw [hvn, Thread.name, hk, hg, hprobe hc])
      obtain ⟨_, _, _, _, hpc⟩ := hst.confirm hc
      rcases hvt ▸ hvo with ho | ho <;> rw [hpc] at ho <;> cases ho
  · intro u hu
    rcases hst.mem hu with hu | rfl | ⟨c, _, rfl⟩
    · exact h.shaped u hu
    · exact hst.shaped (h.shaped t htm)
    · exact rfl
  · have hkeep {u : Thread} (hu : u ∈ w.threads) (ho : u.Over) : ∃ v ∈ w'.threads, v.name = u.name ∧
        v.Over := by
      by_cases hut : u = t
      · subst hut
        refine ⟨u.after next, hst.mem_after, rfl, .inr ?_⟩
        rcases ho with ho | ho
        · have hl := hst.turn.leads
          rw [ho] at hl
          rw [Thread.after, show next = _ from hl]
        · exact absurd ho hst.running
      · exact ⟨u, hst.mem_of_ne hu hut, rfl, ho⟩
    intro u hu hm
    have hold {v : Thread} (hv : v ∈ w.threads) (hvm : v.mode = .confirm6) :
        ∃ x ∈ w'.threads, x.name = (v.key, v.generation, .probe) ∧ x.Over := by
      obtain ⟨x, hx, hxn, hxo⟩ := h.probed v hv hvm
      obtain ⟨y, hy, hyn, hyo⟩ := hkeep hx hxo
      exact ⟨y, hy, hyn.trans hxn, hyo⟩
    rcases hst.mem hu with hu | rfl | ⟨c, hc, rfl⟩
    · exact hold hu hm
    · exact hold (v := t) htm hm
    · refine ⟨t.after next, hst.mem_after, ?_, .inl (hst.confirm hc).1⟩
      rw [Thread.name_after, Thread.name, hprobe hc]
      rfl
  · intro u hu hr
    rcases hst.mem hu with hu | rfl | ⟨c, hc, rfl⟩
    · exact h.noProbe_step hst hu hr
    · rcases hst.released hr with hm | hrun
      · exact h.noProbe_step (u := t) hst htm (.inl hm)
      · intro s hs _ hr' _
        rw [hst.shared, Shared.get?_put_states, Thread.after, if_pos rfl] at hs
        rw [hrun s hs] at hr'
        cases hr'
    · obtain ⟨_, hpc⟩ := hst.confirm hc
      exact h.noProbe_step (u := t) hst htm (.inr hpc)

/-- Every step of the machine keeps the invariant. -/
theorem Fenced.step {w w' : World} {l : Label} (h : Fenced w) (hs : machine.step w l = some w') :
    Fenced w' := by
  rcases stepped hs with ⟨_, _, ht, hth, hp, hk, _⟩ | ⟨_, _, hi, hsh, hp, hth⟩ | ⟨_, _, _, _, _, _, hst⟩
  · exact h.turns ht hth hp hk
  · exact h.launch hi hsh hp hth
  · exact h.worker hst

theorem Fenced.run {w w' : World} {ls : List Label} (h : Fenced w) (hr : machine.run w ls = some w') :
    Fenced w' :=
  machine.run_invariant (I := Fenced) (fun _ _ _ _ h hs => h.step hs) h (machine.along_true w ls) hr

/-! ### Fencing -/

/-- The start of the process: no workers, and the entries `load_state` read, each with a generation of
    its own and no worker mark. -/
structure Initial (w : World) : Prop where
  pending : w.pending = []
  threads : w.threads = []
  generation : ∀ k s, w.shared.states.get? k = some s → s.generation ≤ w.shared.lastGeneration
  running : ∀ k s, w.shared.states.get? k = some s → s.workerRunning = false

/-- The start of the process with empty STATES. -/
structure Fresh (w : World) : Prop where
  states : ∀ k, w.shared.states.get? k = none
  pending : w.pending = []
  threads : w.threads = []

theorem Fresh.initial {w : World} (h : Fresh w) : Initial w :=
  ⟨h.pending, h.threads, fun k _ hs => absurd ((h.states k).symm.trans hs) nofun,
    fun k _ hs => absurd ((h.states k).symm.trans hs) nofun⟩

theorem fresh_start : Fresh World.start := ⟨fun _ => rfl, rfl, rfl⟩

theorem initial_start : Initial World.start := fresh_start.initial

theorem Initial.fenced {w : World} (h : Initial w) : Fenced w := by
  refine ⟨fun k g i hk => ?_, ?_, ?_, ?_, ?_, ?_, ?_, ?_, ?_⟩
  · obtain ⟨s, hs, rfl, _⟩ := Shared.current_eq.mp hk
    exact h.generation k s hs
  all_goals simp [h.pending, h.threads]

/-- The generation `g` was handed to a worker of the key, started or not. -/
def Handed (w : World) (k : PublicKey) (g : ℕ) : Prop :=
  (k, g) ∈ w.pending ∨ ∃ t ∈ w.threads, t.key = k ∧ t.generation = g

/-- The entry a worker of generation `g` was launched for is gone, replaced or renewed. -/
def Lost (w : World) (k : PublicKey) (g : ℕ) : Prop :=
  ∀ s, w.shared.states.get? k = some s → s.generation ≠ g

/-- The next step of the worker `i` issues a command or changes something under STATE_LOCK. -/
def Acts (w : World) (i : ℕ) : Prop := ∃ calls w', machine.step w (.worker i calls) = some w' ∧
  w'.shared ≠ w.shared

/-- The worker `i` acts in some run from here. -/
def CanAct (w : World) (i : ℕ) : Prop := ∃ ls w', machine.run w ls = some w' ∧ Acts w' i

theorem Fenced.stale {w : World} {k : PublicKey} {g : ℕ} (h : Fenced w) (hg : Handed w k g)
    (hl : Lost w k g) : w.shared.fence.Stale k g := by
  refine ⟨?_, fun i hk => ?_⟩
  · rcases hg with hp | ⟨t, ht, _, rfl⟩
    · exact h.pending_le (k, g) hp
    · exact h.thread_le t ht
  · obtain ⟨s, hs, hsg, _⟩ := Shared.current_eq.mp hk
    exact hl s hs hsg

theorem lost_of_stale {w : World} {k : PublicKey} {g : ℕ} (h : w.shared.fence.Stale k g) :
    Lost w k g := fun _ hs hg => h.2 _ (Shared.current_eq.mpr ⟨_, hs, hg, rfl⟩)

/-- A worker that acts has the generation of the entry. -/
theorem Acts.generation {w : World} {i : ℕ} {t : Thread} (ht : w.threads[i]? = some t)
    (h : Acts w i) : ∃ s, w.shared.states.get? t.key = some s ∧ s.generation = t.generation := by
  obtain ⟨calls, w', hstep, hne⟩ := h
  by_contra hno
  rw [not_exists] at hno
  have hth := turn_threadStep t calls (w.shared.slot t.key)
  obtain ⟨u, hu, _, rfl⟩ := worker_step hstep
  obtain rfl := Option.some.inj (ht.symm.trans hu)
  refine hne ?_
  have hfenced {next : Next} {sl : Slot}
      (hw : WorkerTurn t.generation t.pc (w.shared.slot t.key) next sl) :
      sl = w.shared.slot t.key := hw.fenced fun s hs hg => hno s ⟨hs, hg⟩
  unfold Raising.wp at hth
  simp only [World.worker, Raising.run, onKey]
  generalize t.step calls (w.shared.slot t.key) = r at hth ⊢
  rcases r with ⟨_ | next, sl⟩
  · exact hth.elim
  · show w.shared.put t.key sl = w.shared
    rw [hfenced hth.1, Shared.put_slot]

/-- A worker keeps its place and its name, and once its probe phase is over it stays over. -/
def Lasts (w w' : World) : Prop := ∀ (i : ℕ) (t : Thread), w.threads[i]? = some t →
  ∃ t', w'.threads[i]? = some t' ∧ t'.name = t.name ∧ (t.Over → t'.Over)

theorem lasts_step {w w' : World} {l : Label} (h : machine.step w l = some w') : Lasts w w' := by
  intro j u hu
  have hj : j < w.threads.length := (List.getElem?_eq_some_iff.mp hu).1
  rcases stepped h with ⟨_, _, _, hth, _⟩ | ⟨_, launch, _, _, _, hth⟩ | ⟨i, _, t, next, sl, _, hst⟩
  · exact ⟨u, hth ▸ hu, rfl, id⟩
  · exact ⟨u, by rw [hth, List.getElem?_append_left hj, hu], rfl, id⟩
  · have hj' : j < (w.threads.set i { t with pc := next.pc }).length := by simpa using hj
    rw [hst.threads, List.getElem?_append_left hj']
    by_cases hij : i = j
    · subst hij
      obtain rfl := Option.some.inj (hst.thread.symm.trans hu)
      refine ⟨t.after next, by rw [List.getElem?_set_self hj]; rfl, rfl, ?_⟩
      rintro (ho | ho)
      · have hl := hst.turn.leads
        rw [ho] at hl
        exact .inr (by rw [Thread.after, show next = _ from hl])
      · exact absurd ho hst.running
    · exact ⟨u, by rw [List.getElem?_set_ne hij, hu], rfl, id⟩

theorem lasts_run {w w' : World} {ls : List Label} (h : machine.run w ls = some w') : Lasts w w' := by
  refine machine.run_relation (I := fun _ => True) (R := Lasts) (fun w i t ht => ⟨t, ht, rfl, id⟩)
    (fun w w₁ w₂ h₁ h₂ i t ht => ?_) (fun _ _ _ _ _ hstep => ⟨trivial, lasts_step hstep⟩) trivial
    (machine.along_true w ls) h
  obtain ⟨t₁, ht₁, hn₁, ho₁⟩ := h₁ i t ht
  obtain ⟨t₂, ht₂, hn₂, ho₂⟩ := h₂ i t₁ ht₁
  exact ⟨t₂, ht₂, hn₂.trans hn₁, ho₂ ∘ ho₁⟩

/-- The cleanup of a probe does not act while no probe can be at work under its generation. -/
theorem not_acts_of_noProbe {w : World} {i : ℕ} {t : Thread} (ht : w.threads[i]? = some t)
    (hm : t.mode = .probe) (ho : t.Over) (hno : NoProbe w.shared t) : ¬ Acts w i := by
  rintro ⟨calls, w', hstep, hne⟩
  obtain ⟨u, hu, hpc, rfl⟩ := worker_step hstep
  obtain rfl := Option.some.inj (ht.symm.trans hu)
  have hcl : t.pc = .cleanup := ho.resolve_right hpc
  have hth := turn_threadStep t calls (w.shared.slot t.key)
  have hmarked : ¬ Marked t.generation t.mode (w.shared.slot t.key).entry := by
    rintro ⟨s, hs, hg, hmode, hrun⟩
    rw [hm] at hmode
    exact hno s hs hg hrun hmode
  refine hne ?_
  unfold Raising.wp at hth
  simp only [World.worker, Raising.run, onKey]
  generalize t.step calls (w.shared.slot t.key) = r at hth ⊢
  rcases r with ⟨_ | next, sl⟩
  · exact hth.elim
  · show w.shared.put t.key sl = w.shared
    rw [(hth.2 hcl).2 hmarked, Shared.put_slot]

theorem CanAct.generation {w : World} {i : ℕ} {t : Thread} (h : Fenced w)
    (ht : w.threads[i]? = some t) (hc : CanAct w i) : ∃ s, w.shared.states.get? t.key = some s ∧
      s.generation = t.generation := by
  by_contra hno
  rw [not_exists] at hno
  have hstale : w.shared.fence.Stale t.key t.generation :=
    h.stale (.inr ⟨t, List.mem_of_getElem? ht, rfl, rfl⟩) fun s hs hg => hno s ⟨hs, hg⟩
  obtain ⟨ls, w', hrun, hact⟩ := hc
  obtain ⟨t', ht', hn, _⟩ := lasts_run hrun i t ht
  obtain ⟨hk, hg, _⟩ : t'.key = t.key ∧ t'.generation = t.generation ∧ t'.mode = t.mode := by
    simpa [Thread.name] using hn
  obtain ⟨s, hs, hsg⟩ := hact.generation ht'
  exact lost_of_stale (hstale.advance (advance_run hrun)) s (hk ▸ hs) (hsg.trans hg)

/-- A probe and the confirmation it launched cannot both act. -/
theorem Fenced.not_canAct {w : World} {i j : ℕ} {t u : Thread} (h : Fenced w)
    (ht : w.threads[i]? = some t) (hu : w.threads[j]? = some u) (hk : t.key = u.key)
    (hg : t.generation = u.generation) (hmt : t.mode = .probe) (hmu : u.mode = .confirm6) :
    ¬ CanAct w i := by
  rintro ⟨ls, w', hrun, hact⟩
  obtain ⟨v, hv, hvn, hvo⟩ := h.probed u (List.mem_of_getElem? hu) hmu
  have hvt : v = t := h.mem_eq_of_name hv (List.mem_of_getElem? ht) (by
    rw [hvn, Thread.name, hk, hg, hmt])
  subst hvt
  obtain ⟨t', ht', hnt, hot⟩ := lasts_run hrun i v ht
  obtain ⟨u', hu', hnu, _⟩ := lasts_run hrun j u hu
  simp only [Thread.name, Prod.mk.injEq] at hnt hnu
  have hno := (h.run hrun).released u' (List.mem_of_getElem? hu') (.inl (by rw [hnu.2.2, hmu]))
  refine not_acts_of_noProbe ht' (by rw [hnt.2.2, hmt]) (hot hvo) ?_ hact
  intro s hs hsg
  refine hno s ?_ ?_
  · rw [hnu.1, ← hk, ← hnt.1]
    exact hs
  · rw [hnu.2.1, ← hg, ← hnt.2.1]
    exact hsg

/-- At most one worker of a key can act. -/
theorem Fenced.canAct_unique {w : World} {i j : ℕ} {t u : Thread} (h : Fenced w)
    (ht : w.threads[i]? = some t) (hu : w.threads[j]? = some u) (hk : t.key = u.key)
    (hi : CanAct w i) (hj : CanAct w j) : i = j := by
  obtain ⟨s, hs, hst⟩ := hi.generation h ht
  obtain ⟨s', hs', hsu⟩ := hj.generation h hu
  rw [hk, hs'] at hs
  obtain rfl := Option.some.inj hs
  have hg : t.generation = u.generation := hst.symm.trans hsu
  cases hmt : t.mode <;> cases hmu : u.mode
  · exact h.eq_of_name ht hu (by rw [Thread.name, Thread.name, hk, hg, hmt, hmu])
  · exact absurd hi (h.not_canAct ht hu hk hg hmt hmu)
  · exact absurd hj (h.not_canAct hu ht hk.symm hg.symm hmu hmt)
  · exact h.eq_of_name ht hu (by rw [Thread.name, Thread.name, hk, hg, hmt, hmu])

/-- Worker fencing. A worker whose entry is lost never acts again: its generation is not current again,
    and its steps issue no command and change nothing. A generation names one incarnation, with its
    session and its peer instance. At most one worker of a key can still act. -/
theorem worker_fencing {w₀ w : World} {ls : List Label} (h₀ : Initial w₀)
    (hrun : machine.run w₀ ls = some w) :
    (∀ k g, Handed w k g → Lost w k g → ∀ ls' w', machine.run w ls' = some w' → Lost w' k g ∧
      ∀ i t, w'.threads[i]? = some t → t.key = k → t.generation = g → ¬ Acts w' i) ∧
    (∀ k s ls' w' s', w.shared.states.get? k = some s → machine.run w ls' = some w' →
      w'.shared.states.get? k = some s' → s'.generation = s.generation → Same s s') ∧
    ∀ i j t u, w.threads[i]? = some t → w.threads[j]? = some u → t.key = u.key → CanAct w i →
      CanAct w j → i = j := by
  have h : Fenced w := h₀.fenced.run hrun
  refine ⟨fun k g hg hl ls' w' hrun' => ?_, fun k s ls' w' s' hs hrun' hs' hgen => ?_,
    fun i j t u ht hu hk => h.canAct_unique ht hu hk⟩
  · have hl' : Lost w' k g := lost_of_stale ((h.stale hg hl).advance (advance_run hrun'))
    refine ⟨hl', fun i t ht hk hg hact => ?_⟩
    obtain ⟨s, hs, hsg⟩ := hact.generation ht
    exact hl' s (hk ▸ hs) (hsg.trans hg)
  · have hb := (advance_run hrun').bearer h.bounded (Shared.current_eq.mpr ⟨s, hs, rfl, rfl⟩)
      (Shared.current_eq.mpr ⟨s', hs', hgen, rfl⟩)
    rw [Prod.mk.injEq] at hb
    exact ⟨hgen, hb.1.symm, hb.2.symm⟩

/-- The run to a confirmation: its probe and its confirmation cannot both act. -/
theorem worker_fencing_confirmRun : ∃ w, machine.run World.start confirmRun = some w ∧
    w.threads.length = 2 ∧ (∀ t ∈ w.threads, t.key = zeroKey) ∧
      ∀ i j t u, w.threads[i]? = some t → w.threads[j]? = some u → t.key = u.key → CanAct w i →
        CanAct w j → i = j := by
  have hsome : (machine.run World.start confirmRun).any (fun w =>
      decide (w.threads.length = 2 ∧ ∀ t ∈ w.threads, t.key = zeroKey)) = true := by decide +kernel
  obtain ⟨w, hrun, hw⟩ := (Option.any_eq_true _ _).mp hsome
  obtain ⟨hlen, hkeys⟩ := of_decide_eq_true hw
  exact ⟨w, hrun, hlen, hkeys, (worker_fencing initial_start hrun).2.2⟩

end Agent
