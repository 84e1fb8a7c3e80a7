import WireguardP2p.Agent.Passes
import WireguardP2p.Agent.Startup

/-! `next_generation`: a worker ID for the whole process, even after a peer state is deleted. A generation
    is used by a key while its entry, a launch that is not yet made or a worker has it. What a section uses
    afresh lies past the counter, so a generation is used by one key only, from the start of the process
    to its end. -/

namespace Agent
open Ipaddress Python Candidates Raising

/-! ### Entries -/

/-- The entry keeps its generation or gets one past the counter. -/
structure Slot.Numbers (sl sl' : Slot) : Prop where
  last_le : sl.lastGeneration ≤ sl'.lastGeneration
  entry : ∀ s', sl'.entry = some s' → (∃ s, sl.entry = some s ∧ s'.generation = s.generation) ∨
    sl.lastGeneration < s'.generation ∧ s'.generation ≤ sl'.lastGeneration

section Numbers
variable {sl sl' : Slot}

theorem Turn.numbers (h : Turn sl sl') : sl.Numbers sl' := by
  refine ⟨h.last_le, fun s' hs' => ?_⟩
  rcases h.entry s' hs' with ⟨s, hs, hk⟩ | ⟨hlt, hle, _⟩
  · exact .inl ⟨s, hs, hk.same.generation⟩
  · exact .inr ⟨hlt, hle⟩

theorem Launched.numbers {g : ℕ} (h : Launched sl g sl') : sl.Numbers sl' := by
  have hlast := h.last
  have hnew := h.new
  refine ⟨by omega, fun s' hs' => .inr ?_⟩
  obtain ⟨s, hs, hg, _⟩ := h.entry
  obtain rfl := Option.some.inj (hs.symm.trans hs')
  omega

theorem TurnOrLaunched.numbers : ∀ {launch : Option ℕ}, TurnOrLaunched sl launch sl' → sl.Numbers sl'
  | none, h => Turn.numbers h
  | some _, h => Launched.numbers h

theorem WorkerTurn.numbers {g : ℕ} {pc : Pc} {next : Next} (h : WorkerTurn g pc sl next sl') :
    sl.Numbers sl' := by
  refine ⟨h.last_le, fun s' hs' => ?_⟩
  rcases h.entry s' hs' with ⟨s, hs, hk⟩ | ⟨hlt, hle, _⟩ | ⟨⟨s, hs, _, hsame⟩, _⟩
  · exact .inl ⟨s, hs, hk.same.generation⟩
  · exact .inr ⟨hlt, hle⟩
  · exact .inl ⟨s, hs, hsame.generation⟩

end Numbers

/-- The generations of the entries are distinct, and the counter bounds them. -/
structure Numbered (sh : Shared) : Prop where
  bounded : ∀ k s, sh.states.get? k = some s → s.generation ≤ sh.lastGeneration
  distinct : ∀ k j s t, sh.states.get? k = some s → sh.states.get? j = some t →
    s.generation = t.generation → k = j

section Numbered
variable {sh : Shared}

/-- A section on one key. -/
theorem Numbered.put {k : PublicKey} {sl : Slot} (h : Numbered sh) (hn : (sh.slot k).Numbers sl) :
    Numbered (sh.put k sl) := by
  have hle : sh.lastGeneration ≤ sl.lastGeneration := hn.last_le
  -- an entry after the section is an old one of its key, or the new one of `k`
  have hentry : ∀ j s, (sh.put k sl).states.get? j = some s →
      (∃ s₀, sh.states.get? j = some s₀ ∧ s.generation = s₀.generation) ∨
        j = k ∧ sh.lastGeneration < s.generation ∧ s.generation ≤ sl.lastGeneration := by
    intro j s hs
    rw [Shared.get?_put_states] at hs
    by_cases hj : j = k
    · rw [if_pos hj] at hs
      subst hj
      exact (hn.entry s hs).imp id fun hnew => ⟨rfl, hnew⟩
    · rw [if_neg hj] at hs
      exact .inl ⟨s, hs, rfl⟩
  refine ⟨fun j s hs => ?_, fun i j s t hs ht hg => ?_⟩
  · rcases hentry j s hs with ⟨s₀, hs₀, hg⟩ | ⟨_, _, hnew⟩
    · exact hg ▸ (h.bounded j s₀ hs₀).trans hle
    · exact hnew
  · rcases hentry i s hs with ⟨s₀, hs₀, hgs⟩ | ⟨hi, hlts, _⟩ <;>
      rcases hentry j t ht with ⟨t₀, ht₀, hgt⟩ | ⟨hj, hltt, _⟩
    · exact h.distinct i j s₀ t₀ hs₀ ht₀ (hgs.symm.trans (hg.trans hgt))
    · have := h.bounded i s₀ hs₀
      omega
    · have := h.bounded j t₀ ht₀
      omega
    · exact hi.trans hj.symm

theorem Numbered.onKey {α : Type} {k : PublicKey} {p : Section α} (h : Numbered sh)
    (hp : p.wp (fun _ sl => (sh.slot k).Numbers sl) (fun _ sl => (sh.slot k).Numbers sl) (sh.slot k)) :
    Leaves Numbered (Agent.onKey k p) sh :=
  wp_onKey.mpr (wp_mono hp (fun _ _ hn => h.put hn) fun _ _ hn => h.put hn)

theorem numbered_step {w w' : World} {l : Label} (hs : machine.step w l = some w')
    (h : Numbered w.shared) : Numbered w'.shared := by
  refine shared_step hs h (fun env data controller calls o _ _ => ?_) (fun _ data now calls r _ => ?_)
    (fun now calls k _ sh hsh => ?_) (fun active calls k _ sh hsh => ?_) (fun i calls t _ _ => ?_)
    fun k p q _ _ _ => ⟨h.bounded, h.distinct⟩
  · refine h.onKey (wp_mono (turn_offerSection o calls _) (fun _ _ ht => ht.numbers) fun _ _ ht => ?_)
    rcases ht with ht | ⟨_, g, ht⟩
    · exact ht.numbers
    · exact ht.numbers
  · exact h.onKey (wp_mono (keeps_turn_removeSection r now calls _ (.refl _)) (fun _ _ ht => ht.numbers)
      fun _ _ ht => ht.numbers)
  · exact hsh.onKey (wp_mono (turn_monitorPeer now (calls.remove k) _) (fun _ _ ht => ht.numbers)
      fun _ _ ht => ht.numbers)
  · exact hsh.onKey (wp_mono (keeps_turn_cleanupPeer _ _ _ (.refl _)) (fun _ _ ht => ht.numbers)
      fun _ _ ht => ht.numbers)
  · exact h.onKey (wp_mono (turn_threadStep t calls _) (fun _ _ ht => ht.1.numbers) fun _ _ => False.elim)

end Numbered

theorem numbered_boot (w : World) (file : StateFile) (calls : StartCalls) :
    Numbered (w.boot file calls).2.shared := by
  refine ⟨(initial_boot w file calls).generation, fun k j s t hs ht hg => ?_⟩
  rw [states_boot] at hs ht
  have he := (ascending_reloadEntries file.states.entries 0).unique (k, s) (Dict.mem_of_get? hs) (j, t)
    (Dict.mem_of_get? ht) hg
  exact congrArg Prod.fst he

/-! ### Launches -/

/-- The generation is used by the key. -/
def World.Uses (w : World) (k : PublicKey) (g : ℕ) : Prop :=
  (∃ s, w.shared.states.get? k = some s ∧ s.generation = g) ∨ (k, g) ∈ w.pending ∨
    ∃ t ∈ w.threads, t.key = k ∧ t.generation = g

/-- The launch is of the entry of its key. -/
def Shared.Bears (sh : Shared) (l : PublicKey × ℕ) : Prop :=
  ∃ s, sh.states.get? l.1 = some s ∧ s.generation = l.2

theorem bears_offer (w : World) (env : OfferEnv) (data : Json) (controller : Controller)
    (calls : OfferCalls) : ∀ l ∈ (w.offer env data controller calls).2.pending,
      l ∈ w.pending ∨ (w.offer env data controller calls).2.shared.Bears l := by
  unfold World.offer
  cases readOffer env data controller with
  | error e => exact fun l hl => .inl hl
  | ok o =>
    have h := turn_offerSection o calls (w.shared.slot o.key)
    unfold Raising.wp at h
    simp only [Raising.run, onKey]
    generalize offerSection o calls (w.shared.slot o.key) = r at h ⊢
    rcases r with ⟨_ | reply, sl⟩
    · exact fun l hl => .inl hl
    · intro l hl
      rcases List.mem_append.mp hl with hl | hl
      · cases reply with
        | staleSession => exact absurd hl List.not_mem_nil
        | accepted launch =>
          cases launch with
          | none => exact absurd hl List.not_mem_nil
          | some g =>
            obtain rfl := List.mem_singleton.mp hl
            obtain ⟨s, hs, hg, _⟩ := Launched.entry h
            refine .inr ⟨s, ?_, hg⟩
            rw [Shared.get?_put_states, if_pos rfl]
            exact hs
      · exact .inl hl

/-- What the monitor makes of a key it launches a probe for. -/
def LaunchBears (_ : PublicKey) (launch : Option ℕ) (_ v : View) : Prop :=
  ∀ g, launch = some g → ∃ s, v.1 = some s ∧ s.generation = g

theorem bears_monitor (w : World) (now : Time) (calls : PassCalls) :
    ∀ l ∈ (w.monitor now calls).pending, l ∈ w.pending ∨ (w.monitor now calls).shared.Bears l := by
  have hbody : ∀ k ∈ w.shared.states.keys,
      Body LaunchBears (fun _ _ _ => True) now calls.remove k (w.shared.view k) := by
    intro k _ sl _
    refine wp_mono (turn_monitorPeer now (calls.remove k) sl) (fun r sl' ht g hg => ?_) fun _ _ _ => trivial
    rw [hg] at ht
    obtain ⟨s, hs, hsg, _⟩ := Launched.entry ht
    exact ⟨s, hs, hsg⟩
  have h : (monitorOnce now calls).wp _ _ w.shared := each_monitorOnce hbody
  unfold World.monitor
  unfold Raising.wp at h
  simp only [Raising.run]
  generalize monitorOnce now calls w.shared = r at h ⊢
  rcases r with ⟨_ | launches, sh⟩
  · exact fun l hl => .inl hl
  · intro l hl
    rcases List.mem_append.mp hl with hl | hl
    · obtain ⟨launch, hR, hlaunch⟩ := h.visited l.1 (h.launched l hl)
      exact .inr (hR l.2 (hlaunch l.2 hl))
    · exact .inl hl

/-- A launch that is new is of an entry. -/
theorem bears_step {w w' : World} {l : Label} (hs : machine.step w l = some w') :
    ∀ x ∈ w'.pending, x ∈ w.pending ∨ w'.shared.Bears x := by
  cases l with
  | offer env data controller calls => exact Option.some.inj hs ▸ bears_offer w env data controller calls
  | monitor now calls => exact Option.some.inj hs ▸ bears_monitor w now calls
  | remove listenAddress data now calls =>
    obtain rfl := Option.some.inj hs
    unfold World.remove
    cases readRemoval listenAddress data <;> exact fun x hx => .inl hx
  | cleanupInitiator active calls =>
    obtain rfl := Option.some.inj hs
    exact fun x hx => .inl hx
  | launch i =>
    obtain ⟨_, _, rfl⟩ := launch_step hs
    exact fun x hx => .inl (List.eraseIdx_subset hx)
  | worker i calls =>
    obtain ⟨t, _, _, rfl⟩ := worker_step hs
    intro x hx
    rw [World.worker_pending] at hx
    exact .inl hx
  | handshake k at_ =>
    obtain ⟨_, _, _, rfl⟩ := handshake_step hs
    exact fun x hx => .inl hx
  | roam k endpoint =>
    obtain ⟨_, _, rfl⟩ := roam_step hs
    exact fun x hx => .inl hx

/-! ### The users of a generation -/

section Users
variable {w w' : World}

/-- A step uses afresh only what lies past the counter, and there what an entry has. -/
theorem uses_step {l : Label} (hs : machine.step w l = some w') {k : PublicKey} {g : ℕ}
    (hu : w'.Uses k g) : w.Uses k g ∨ w.shared.lastGeneration < g ∧ w'.shared.Bears (k, g) := by
  have hentry : ∀ s, w'.shared.states.get? k = some s → s.generation = g →
      w.Uses k g ∨ w.shared.lastGeneration < g ∧ w'.shared.Bears (k, g) := by
    intro s hs' hg
    have hadv := (advance_step hs).current k g (s.sessionId, s.peerInstanceId)
      (Shared.current_eq.mpr ⟨s, hs', hg, rfl⟩)
    rcases hadv with hold | ⟨hlt, _⟩
    · obtain ⟨s₀, hs₀, hg₀, _⟩ := Shared.current_eq.mp hold
      exact .inl (.inl ⟨s₀, hs₀, hg₀⟩)
    · exact .inr ⟨hlt, s, hs', hg⟩
  have hlaunch : (k, g) ∈ w'.pending →
      w.Uses k g ∨ w.shared.lastGeneration < g ∧ w'.shared.Bears (k, g) := by
    intro hm
    rcases bears_step hs (k, g) hm with hm | ⟨s, hs', hg⟩
    · exact .inl (.inr (.inl hm))
    · exact hentry s hs' hg
  rcases hu with ⟨s, hs', hg⟩ | hm | ⟨t, ht, hk, hg⟩
  · exact hentry s hs' hg
  · exact hlaunch hm
  · -- a worker stems from a launch or from a worker
    refine .inl ?_
    rcases stepped hs with ⟨_, _, _, hth, _⟩ | ⟨_, launch, hi, _, _, hth⟩ | ⟨_, _, u, next, sl, _, hst⟩
    · exact .inr (.inr ⟨t, hth ▸ ht, hk, hg⟩)
    · rw [hth] at ht
      rcases List.mem_append.mp ht with ht | ht
      · exact .inr (.inr ⟨t, ht, hk, hg⟩)
      · obtain rfl := List.mem_singleton.mp ht
        obtain rfl : launch = (k, g) := Prod.ext hk hg
        exact .inr (.inl (List.mem_of_getElem? hi))
    · have hu := List.mem_of_getElem? hst.thread
      rcases hst.mem ht with ht | rfl | ⟨c, _, rfl⟩
      · exact .inr (.inr ⟨t, ht, hk, hg⟩)
      · exact .inr (.inr ⟨u, hu, hk, hg⟩)
      · exact .inr (.inr ⟨u, hu, hk, hg⟩)

/-- The counter bounds what is used. -/
theorem uses_le (hf : Fenced w) {k : PublicKey} {g : ℕ} (hu : w.Uses k g) : g ≤ w.shared.lastGeneration := by
  rcases hu with ⟨s, hs, rfl⟩ | hm | ⟨t, ht, _, rfl⟩
  · exact hf.bounded k _ _ (Shared.current_eq.mpr ⟨s, hs, rfl, rfl⟩)
  · exact hf.pending_le (k, g) hm
  · exact hf.thread_le t ht

/-- Every generation is used by one key at most. -/
structure Owned (w : World) : Prop where
  fenced : Fenced w
  numbered : Numbered w.shared
  user : ∀ g k j, w.Uses k g → w.Uses j g → k = j

theorem Owned.step {l : Label} (h : Owned w) (hs : machine.step w l = some w') : Owned w' := by
  have hnum := numbered_step hs h.numbered
  refine ⟨h.fenced.step hs, hnum, fun g k j hk hj => ?_⟩
  rcases uses_step hs hk with hk | ⟨hltk, s, hsk, hgk⟩ <;>
    rcases uses_step hs hj with hj | ⟨hltj, t, htj, hgj⟩
  · exact h.user g k j hk hj
  · exact absurd (uses_le h.fenced hk) (by omega)
  · exact absurd (uses_le h.fenced hj) (by omega)
  · exact hnum.distinct k j s t hsk htj (hgk.trans hgj.symm)

theorem owned_boot (w : World) (file : StateFile) (calls : StartCalls) : Owned (w.boot file calls).2 := by
  have h := initial_boot w file calls
  have hnum := numbered_boot w file calls
  have hentry {k : PublicKey} {g : ℕ} (hu : (w.boot file calls).2.Uses k g) :
      ∃ s, (w.boot file calls).2.shared.states.get? k = some s ∧ s.generation = g := by
    rcases hu with hs | hm | ⟨t, ht, _⟩
    · exact hs
    · exact absurd (h.pending ▸ hm) List.not_mem_nil
    · exact absurd (h.threads ▸ ht) List.not_mem_nil
  refine ⟨h.fenced, hnum, fun g k j hk hj => ?_⟩
  obtain ⟨s, hs, hg⟩ := hentry hk
  obtain ⟨t, ht, hg'⟩ := hentry hj
  exact hnum.distinct k j s t hs ht (hg.trans hg'.symm)

/-- Nothing comes to use a generation handed out before. -/
def NoNewUse (w w' : World) : Prop := w.shared.lastGeneration ≤ w'.shared.lastGeneration ∧
  ∀ k g, w'.Uses k g → g ≤ w.shared.lastGeneration → w.Uses k g

theorem noNewUse_run {ls : List Label} (h : Owned w) (hrun : machine.run w ls = some w') : NoNewUse w w' := by
  refine machine.run_relation (I := Owned) (R := NoNewUse) (fun w => ⟨le_rfl, fun _ _ hu _ => hu⟩)
    (fun w w₁ w₂ h₁ h₂ => ⟨h₁.1.trans h₂.1, fun k g hu hg => ?_⟩) (fun w l w₁ _ hw hs => ⟨hw.step hs, ?_⟩) h
    (machine.along_true w ls) hrun
  · exact h₁.2 k g (h₂.2 k g hu (hg.trans h₁.1)) hg
  · refine ⟨(advance_step hs).last_le, fun k g hu hg => ?_⟩
    rcases uses_step hs hu with hu | ⟨hlt, _⟩
    · exact hu
    · omega

end Users

/-- A generation is a process-wide worker ID. From the start of the process, whatever STATE_FILE held, to
    any later point of its life a generation that an entry, a launch or a worker of one key has is never
    that of another key; and the entries that have it are one incarnation. -/
theorem generation_names_peer {v w w' : World} {file : StateFile} {calls : StartCalls} {ls ls' : List Label}
    (hrun : machine.run (v.boot file calls).2 ls = some w) (hrun' : machine.run w ls' = some w') :
    (∀ g k j, w.Uses k g → w'.Uses j g → k = j) ∧
    ∀ k j s t, w.shared.states.get? k = some s → w'.shared.states.get? j = some t →
      s.generation = t.generation → k = j ∧ Same s t := by
  have hw : Owned w := machine.run_invariant (I := Owned) (fun _ _ _ _ h hs => h.step hs)
    (owned_boot v file calls) (machine.along_true _ ls) hrun
  have huser : ∀ g k j, w.Uses k g → w'.Uses j g → k = j := fun g k j hk hj =>
    hw.user g k j hk ((noNewUse_run hw hrun').2 j g hj (uses_le hw.fenced hk))
  refine ⟨huser, fun k j s t hs ht hg => ?_⟩
  obtain rfl := huser s.generation k j (.inl ⟨s, hs, rfl⟩) (.inl ⟨t, ht, hg.symm⟩)
  refine ⟨rfl, ?_⟩
  have hbearer := (advance_run hrun').bearer hw.fenced.bounded (Shared.current_eq.mpr ⟨s, hs, rfl, rfl⟩)
    (Shared.current_eq.mpr ⟨t, ht, hg.symm, rfl⟩)
  rw [Prod.mk.injEq] at hbearer
  exact ⟨hg.symm, hbearer.1.symm, hbearer.2.symm⟩

/-- The entry of a probe is the same incarnation once the probe has found its path and is being confirmed. -/
theorem generation_names_peer_confirmRun : ∃ w w' s t,
    machine.run (World.start.boot .unusable .succeed).2 (confirmRun.take 3) = some w ∧
    machine.run w (confirmRun.drop 3) = some w' ∧ w.shared.states.get? zeroKey = some s ∧
    w'.shared.states.get? zeroKey = some t ∧ s.mode = .probe ∧ t.mode = .confirm6 ∧ Same s t := by
  have hsome : (machine.run (World.start.boot .unusable .succeed).2 (confirmRun.take 3)).any (fun w =>
      (machine.run w (confirmRun.drop 3)).any fun w' => (w.shared.states.get? zeroKey).any fun s =>
        (w'.shared.states.get? zeroKey).any fun t =>
          decide (s.mode = .probe ∧ t.mode = .confirm6 ∧ s.generation = t.generation)) = true := by
    decide +kernel
  obtain ⟨w, hrun, hsome⟩ := (Option.any_eq_true _ _).mp hsome
  obtain ⟨w', hrun', hsome⟩ := (Option.any_eq_true _ _).mp hsome
  obtain ⟨s, hs, hsome⟩ := (Option.any_eq_true _ _).mp hsome
  obtain ⟨t, ht, hst⟩ := (Option.any_eq_true _ _).mp hsome
  obtain ⟨hsm, htm, hg⟩ := of_decide_eq_true hst
  exact ⟨w, w', s, t, hrun, hrun', hs, ht, hsm, htm,
    ((generation_names_peer hrun hrun').2 zeroKey zeroKey s t hs ht hg).2⟩

end Agent
