import WireguardP2p.Agent.RouteWorkers

/-! Control state and routes over whole runs. A section outside the workers is `Calm`: it keeps the
    agreement of every key and leaves the ground of the workers; a step of a worker keeps the agreement
    of its key, and the route it takes is no other key's. -/

namespace Agent
open Ipaddress Python Candidates Raising

/-- The allowed IPs of a device, by key. -/
def Shared.allowedIps (sh : Shared) (k : PublicKey) : List Text :=
  ((sh.wg.get? k).map WgPeer.allowedIps).getD []

/-- The offers are of sessions of the coordinator, and no call fails. -/
def Faultless (c : Sessions) : Label → Prop
  | .offer env data controller calls =>
    calls = .succeed ∧ ∀ o, readOffer env data controller = .ok o → c.Carries o
  | .remove _ _ _ calls => calls = .succeed
  | .monitor _ calls => calls = .succeed
  | .cleanupInitiator _ calls => calls = .succeed
  | .worker _ calls => calls.Succeed
  | _ => True

/-- Every key agrees, and its worker was left alone since `sh₀` or has lost the entry. -/
structure Calm (c : Sessions) (static : PublicKey → List Text) (sh₀ sh : Shared) : Prop where
  agrees : ∀ k, Agrees c k (static k) (sh.slot k)
  quiet : ∀ k, Quiet (sh₀.slot k) (sh.slot k)

section Calm
variable {c : Sessions} {static : PublicKey → List Text} {sh₀ sh : Shared} {k : PublicKey}

theorem Calm.put {sl : Slot} (h : Calm c static sh₀ sh) (hsl : Settled c k (static k) (sh.slot k) sl)
    (ht : sl.taken = []) : Calm c static sh₀ (sh.put k sl) := by
  have hslot (j : PublicKey) : Agrees c j (static j) ((sh.put k sl).slot j) ∧
      Quiet (sh.slot j) ((sh.put k sl).slot j) := by
    by_cases hj : j = k
    · subst hj
      have he : ((sh.put j sl).slot j).entry = sl.entry := by simp [Shared.slot]
      have hp : ((sh.put j sl).slot j).peer = sl.peer := by simp [Shared.slot]
      refine ⟨hsl.agrees.of_peer he ?_ ?_ ?_, hsl.quiet.trans (.of_entry le_rfl he ?_)⟩ <;>
        rw [hp] <;> simp
    · have he : ((sh.put k sl).slot j).entry = (sh.slot j).entry := by simp [Shared.slot, hj]
      have hp : ((sh.put k sl).slot j).peer = (sh.slot j).peer := Shared.get?_put_wg_of_ne hj ht
      refine ⟨(h.agrees j).of_peer he ?_ ?_ ?_, .of_entry hsl.quiet.1 he ?_⟩ <;> rw [hp] <;> simp
  exact ⟨fun j => (hslot j).1, fun j => (h.quiet j).trans (hslot j).2⟩

/-- A section that settles its key and takes no route is calm. -/
theorem Calm.onKey {α : Type} {p : Section α} (h : Calm c static sh₀ sh)
    (hp : p.wp (fun _ => Settled c k (static k) (sh.slot k)) (fun _ => Settled c k (static k) (sh.slot k))
      (sh.slot k))
    (ht : TakesNone p (sh.slot k)) :
    Leaves (Calm c static sh₀) (Agent.onKey k p) sh :=
  wp_onKey.mpr (wp_mono (wp_and hp ht) (fun _ _ hs => h.put hs.1 hs.2) fun _ _ hs => h.put hs.1 hs.2)

end Calm

section Step
variable {c : Sessions} {static : PublicKey → List Text} {w w' : World}

/-- A step outside the workers is calm. -/
theorem calm_step {l : Label} (hs : machine.step w l = some w') (hl : Faultless c l)
    (hno : l.isWorker = false) (hfree : ∀ k, Free c (static k))
    (h : ∀ k, Agrees c k (static k) (w.shared.slot k)) : Calm c static w.shared w'.shared := by
  have h₀ : Calm c static w.shared w.shared := ⟨h, fun k => .refl _⟩
  refine shared_step hs h₀ (fun env data controller calls o hlo ho => ?_)
    (fun la data now calls r hlr => ?_) (fun now calls k hlm => ?_) (fun active calls k hlc => ?_)
    (fun i calls t hlw _ => ?_) fun k p q hp hq hh => ?_
  · subst hlo
    obtain ⟨rfl, hc⟩ := hl
    refine h₀.onKey ?_ (takesNone_offerSection o .succeed _)
    exact wp_mono (routes_offerSection (hfree o.key) (hc o ho) (h o.key))
      (fun _ _ hs => ⟨hs.1, hs.2⟩) fun _ _ hs => ⟨hs.1, hs.2⟩
  · subst hlr
    obtain rfl : calls = .succeed := hl
    exact h₀.onKey (routes_removeSection (hfree r.key) r now (h r.key))
      (takesNone_removeSection r now .succeed _)
  · subst hlm
    obtain rfl : calls = .succeed := hl
    intro sh hsh
    refine hsh.onKey ?_ (takesNone_monitorPeer now .done _)
    exact wp_mono (routes_monitorPeer (hfree k) now (hsh.agrees k)) (fun _ _ h => h)
      fun _ _ => False.elim
  · subst hlc
    obtain rfl : calls = .succeed := hl
    intro sh hsh
    refine hsh.onKey ?_ (takesNone_cleanupPeer _ .done _)
    exact wp_mono (routes_cleanupPeer _ (hsh.agrees k)) (fun _ _ h => h) fun _ _ => False.elim
  · subst hlw
    cases hno
  · have hslot (j : PublicKey) : Agrees c j (static j) (Shared.slot
        { w.shared with wg := w.shared.wg.set k q } j) ∧ Quiet (w.shared.slot j)
          (Shared.slot { w.shared with wg := w.shared.wg.set k q } j) := by
      by_cases hj : j = k
      · subst hj
        have hqj : (Shared.slot { w.shared with wg := w.shared.wg.set j q } j).peer = some q := by
          simp [Shared.slot]
        have hpj : (w.shared.slot j).peer = some p := hp
        have hhs : HasHandshake (some p) → HasHandshake (some q) := by
          rintro ⟨p', hp', hpn⟩
          obtain rfl := Option.some.inj hp'
          exact ⟨q, rfl, hh hpn⟩
        refine ⟨(h j).of_peer rfl ?_ ?_ ?_, .of_entry le_rfl rfl ?_⟩ <;> rw [hqj, hpj]
        · rintro hplain q' hq' a ha
          obtain rfl := Option.some.inj hq'
          exact hplain p rfl a (hq ▸ ha)
        · rintro s _ ⟨p', hp', hpa⟩
          obtain rfl := Option.some.inj hp'
          exact ⟨q, rfl, hq.trans hpa⟩
        · exact hhs
        · exact hhs
      · have hp' : (Shared.slot { w.shared with wg := w.shared.wg.set k q } j).peer =
            (w.shared.slot j).peer := by simp [Shared.slot, hj]
        refine ⟨(h j).of_peer rfl ?_ ?_ ?_, .of_entry le_rfl rfl ?_⟩ <;> rw [hp'] <;> simp
    exact ⟨fun j => (hslot j).1, fun j => (hslot j).2⟩

/-- The ground of a worker outlasts the steps of others. -/
theorem HasGround.quiet {k : PublicKey} {st : List Text} {g : ℕ} {pc : Pc} {sl₀ sl : Slot}
    (h : HasGround g pc sl₀) (h₀ : Agrees c k st sl₀) (h₁ : Agrees c k st sl) (hq : Quiet sl₀ sl)
    (hle : g ≤ sl₀.lastGeneration) (he : ∀ s, sl.entry = some s → s.generation = g →
      ∃ s₀, sl₀.entry = some s₀ ∧ Same s₀ s) : HasGround g pc sl := by
  intro s hs hg
  obtain ⟨s₀, hs₀, hsame⟩ := he s hs hg
  have hgs := h s₀ hs₀ (hsame.generation.symm.trans hg)
  have hip : s.ip = s₀.ip := by rw [(h₁.known s hs).ip, (h₀.known s₀ hs₀).ip, hsame.session]
  have hrun (hr : s.workerRunning = true) : (HasHandshake sl₀.peer → HasHandshake sl.peer) ∧
      s₀.workerRunning = true ∧ s₀.mode = s.mode := by
    rcases hq.2 with hn | ⟨hh, ho⟩
    · have := hn s hs hr
      omega
    · obtain ⟨t, ht, htr, htm, _⟩ := ho s hs
      obtain rfl := Option.some.inj (hs₀.symm.trans ht)
      exact ⟨hh, htr.trans hr, htm⟩
  refine ⟨fun i hi => hip.trans (hgs.ip i hi), fun hp hr => ?_, fun hf hr => ?_, hgs.not_cancel⟩
  · obtain ⟨_, hr₀, hm⟩ := hrun hr
    exact hm ▸ hgs.probing hp hr₀
  · obtain ⟨hh, hr₀, _⟩ := hrun hr
    exact hh (hgs.found hf hr₀)

/-- Every key agrees, and every worker, also one still to be started, has its ground. -/
structure Grounds (c : Sessions) (static : PublicKey → List Text) (w : World) : Prop where
  agrees : ∀ k, Agrees c k (static k) (w.shared.slot k)
  threads : ∀ t ∈ w.threads, HasGround t.generation t.pc (w.shared.slot t.key)
  pending : ∀ l ∈ w.pending, HasGround l.2 (.probe .start) (w.shared.slot l.1)

theorem Grounds.turns {launches kept : List (PublicKey × ℕ)} (h : Grounds c static w) (hf : Fenced w)
    (ht : Turns w.shared w'.shared launches) (hcalm : Calm c static w.shared w'.shared)
    (hth : w'.threads = w.threads) (hp : w'.pending = kept ++ w.pending)
    (hk : kept = launches ∨ kept = []) : Grounds c static w' := by
  have hkeep {k : PublicKey} {g : ℕ} {pc : Pc} (hg : HasGround g pc (w.shared.slot k))
      (hle : g ≤ w.shared.lastGeneration) : HasGround g pc (w'.shared.slot k) := by
    refine hg.quiet (h.agrees k) (hcalm.agrees k) (hcalm.quiet k) hle fun s hs hsg => ?_
    rcases ht.entry k s hs with ⟨s₀, hs₀, hkept⟩ | ⟨hlt, _⟩
    · exact ⟨s₀, hs₀, hkept.same⟩
    · omega
  refine ⟨hcalm.agrees, fun t htm => ?_, fun l hl => ?_⟩
  · rw [hth] at htm
    exact hkeep (h.threads t htm) (hf.thread_le t htm)
  · rw [hp] at hl
    rcases List.mem_append.mp hl with hl | hl
    · obtain ⟨hlt, _⟩ := ht.new l (hk.elim (fun h => h ▸ hl) fun h => by rw [h] at hl; cases hl)
      intro s hs hsg
      refine ⟨nofun, fun _ hr => ?_, nofun, nofun⟩
      rcases ht.entry l.1 s hs with ⟨s₀, hs₀, hkept⟩ | ⟨_, _, hrun⟩
      · have hle : s₀.generation ≤ w.shared.lastGeneration :=
          hf.bounded l.1 _ _ (Shared.current_eq.mpr ⟨s₀, hs₀, rfl, rfl⟩)
        rw [← hkept.same.generation] at hle
        omega
      · have hm := (hcalm.agrees l.1).peer s hs
        unfold Matches at hm
        cases hmode : s.mode with
        | idle => rw [hmode] at hm; exact absurd hr (by simp [hm.1])
        | probe => rfl
        | confirm6 => exact absurd hmode (hrun hr).2
        | direct => rw [hmode] at hm; exact absurd hr (by simp [hm.1])
    · exact hkeep (h.pending l hl) (hf.pending_le l hl)

theorem Grounds.launch {i : ℕ} {launch : PublicKey × ℕ} (h : Grounds c static w)
    (hi : w.pending[i]? = some launch) (hs : w'.shared = w.shared)
    (hp : w'.pending = w.pending.eraseIdx i)
    (ht : w'.threads = w.threads ++ [World.probeThread launch]) : Grounds c static w' := by
  refine ⟨hs ▸ h.agrees, fun t htm => ?_, fun l hl => ?_⟩
  · rw [ht, List.mem_append, List.mem_singleton] at htm
    rw [hs]
    rcases htm with htm | rfl
    · exact h.threads t htm
    · exact h.pending launch (List.mem_of_getElem? hi)
  · rw [hs]
    exact h.pending l (List.mem_of_mem_eraseIdx (hp ▸ hl))

/-- What the device takes from the peer of another key leaves its agreement. -/
theorem agrees_steal {k j : PublicKey} {sl : Slot} {sh : Shared} (hj : j ≠ k)
    (ht : ∀ a ∈ sl.taken, ∃ ip, a = slash32 ip ∧ c.key ip = k)
    (h : Agrees c j (static j) (sh.slot j)) : Agrees c j (static j) ((sh.put k sl).slot j) ∧
      (HasHandshake (sh.slot j).peer → HasHandshake ((sh.put k sl).slot j).peer) := by
  have he : ((sh.put k sl).slot j).entry = (sh.slot j).entry := by simp [Shared.slot, hj]
  have hp : ((sh.put k sl).slot j).peer = (sh.slot j).peer.map (Shared.steal sl.taken) := by
    simp [Shared.slot, hj]
  have hh : HasHandshake (sh.slot j).peer → HasHandshake ((sh.put k sl).slot j).peer := by
    rintro ⟨q, hq, hn⟩
    exact ⟨Shared.steal sl.taken q, by rw [hp, hq, Option.map_some], hn⟩
  refine ⟨h.of_peer he (fun hplain q hq a ha => ?_) (fun s hs hr => ?_) hh, hh⟩
  · obtain ⟨p, hpp, rfl⟩ := Option.map_eq_some_iff.mp (hp ▸ hq)
    exact hplain p hpp a (List.mem_filter.mp ha).1
  · obtain ⟨q, hq, hqa⟩ := hr
    refine ⟨Shared.steal sl.taken q, by rw [hp, hq, Option.map_some], ?_⟩
    have hnot : slash32 s.ip ∉ sl.taken := fun hm => by
      obtain ⟨ip, hip, hkey⟩ := ht _ hm
      rw [← slash32_injective hip, (h.known s hs).key] at hkey
      exact hj hkey
    simp [Shared.steal, hqa, hnot]

end Step

/-! ### Steps of workers -/

section Worker
variable {w w' : World} {i : ℕ} {t : Thread} {next : Next} {sl : Slot}

/-- A worker does nothing to an entry of another generation. -/
theorem WorkerStep.other_generation (hst : WorkerStep w i t w' next sl) {g : ℕ}
    (hle : g ≤ w.shared.lastGeneration) (hne : g ≠ t.generation) {s : PeerState}
    (hs : sl.entry = some s) (hg : s.generation = g) : sl = w.shared.slot t.key := by
  rcases hst.turn.entry s hs with ⟨s₀, hs₀, hk⟩ | ⟨hlt, _⟩ | ⟨⟨s₀, _, hg₀, hsame⟩, _⟩
  · refine hst.turn.fenced fun x hx hxg => ?_
    obtain rfl := Option.some.inj (hs₀.symm.trans hx)
    exact hne (hg.symm.trans (hk.same.generation.trans hxg))
  · exact absurd hle (by rw [← hg]; exact not_le.mpr hlt)
  · exact absurd (hg.symm.trans (hsame.generation.trans hg₀)) hne

/-- Of the two workers of a generation one is at work only: the confirmation, once it exists. -/
theorem WorkerStep.other_kind (hf : Fenced w) (hst : WorkerStep w i t w' next sl) {u : Thread}
    (hu : u ∈ w.threads) (hne : u ≠ t) (hk : u.key = t.key) (hg : u.generation = t.generation) :
    u.Over ∨ sl = w.shared.slot t.key := by
  have ht : t ∈ w.threads := List.mem_of_getElem? hst.thread
  have hname (m : WorkerMode) (hm : u.mode = m) (hm' : t.mode = m) : False :=
    hne (hf.mem_eq_of_name hu ht (by rw [Thread.name, Thread.name, hk, hg, hm, hm']))
  cases hmu : u.mode with
  | probe =>
    cases hmt : t.mode with
    | probe => exact (hname _ hmu hmt).elim
    | confirm6 =>
      obtain ⟨v, hv, hvn, hvo⟩ := hf.probed t ht hmt
      obtain rfl := hf.mem_eq_of_name hv hu (by rw [hvn, Thread.name, hk, hg, hmu])
      exact .inl hvo
  | confirm6 =>
    cases hmt : t.mode with
    | confirm6 => exact (hname _ hmu hmt).elim
    | probe =>
      obtain ⟨v, hv, hvn, hvo⟩ := hf.probed u hu hmu
      obtain rfl := hf.mem_eq_of_name hv ht (by rw [hvn, Thread.name, hk, hg, hmt])
      refine .inr ((hst.cleaned (hvo.resolve_right hst.running)).2 ?_)
      rintro ⟨s, hs, hsg, hmode, hrun⟩
      rw [hmt] at hmode
      exact hf.released u hu (.inl hmu) s (hk ▸ hs) (hsg.trans hg.symm) hrun hmode

variable {c : Sessions} {static : PublicKey → List Text}

theorem Grounds.worker (h : Grounds c static w) (hf : Fenced w) (hst : WorkerStep w i t w' next sl)
    (hr : KeepsRoutes c t.key (static t.key) t.generation next sl) : Grounds c static w' := by
  have hown : ∀ {g pc}, HasGround g pc sl → HasGround g pc (w'.shared.slot t.key) := by
    intro g pc hg s hs hsg
    simp only [hst.shared, Shared.slot, Shared.get?_put_states, Shared.get?_put_wg, if_true] at hs ⊢
    exact hg s hs hsg
  have hother {g : ℕ} {pc : Pc} {k : PublicKey} (hk : k ≠ t.key)
      (hg : HasGround g pc (w.shared.slot k)) : HasGround g pc (w'.shared.slot k) := by
    obtain ⟨_, hh⟩ := agrees_steal hk hr.taken (h.agrees k)
    rw [hst.shared]
    intro s hs hsg
    have hgs := hg s (by simpa [Shared.slot, hk] using hs) hsg
    exact ⟨hgs.ip, hgs.probing, fun hf hr => hh (hgs.found hf hr), hgs.not_cancel⟩
  refine ⟨fun k => ?_, fun u hu => ?_, fun l hl => ?_⟩
  · by_cases hk : k = t.key
    · subst hk
      rw [hst.shared]
      refine hr.agrees.of_peer ?_ ?_ ?_ ?_ <;> simp [Shared.slot]
    · rw [hst.shared]
      exact (agrees_steal hk hr.taken (h.agrees k)).1
  · have hafter : HasGround (t.after next).generation (t.after next).pc
        (w'.shared.slot (t.after next).key) := hown hr.ground
    rcases hst.mem hu with hu' | rfl | ⟨c, hc, rfl⟩
    · by_cases hut : u = t
      · subst hut
        rw [(hf.worker hst).mem_eq_of_name hu hst.mem_after rfl]
        exact hafter
      · by_cases hk : u.key = t.key
        · have hsl (he : sl = w.shared.slot t.key) : HasGround u.generation u.pc sl := by
            rw [he, ← hk]
            exact h.threads u hu'
          rw [hk]
          by_cases hg : u.generation = t.generation
          · rcases hst.other_kind hf hu' hut hk hg with (ho | ho) | he
            · exact ho ▸ hasGround_cleanup
            · exact ho ▸ hasGround_finished
            · exact hown (hsl he)
          · refine hown fun s hs hsg => ?_
            exact hsl (hst.other_generation (hf.thread_le u hu') hg hs hsg) s hs hsg
        · exact hother hk (h.threads u hu')
    · exact hafter
    · exact hown (hr.confirm c.1 c.2 hc)
  · rw [hst.pending] at hl
    by_cases hk : l.1 = t.key
    · rw [hk]
      refine hown fun s hs hsg => ?_
      have hne : l.2 ≠ t.generation := fun he =>
        hf.pending_new l hl t (List.mem_of_getElem? hst.thread) (Prod.ext hk.symm he.symm)
      have he := hst.other_generation (hf.pending_le l hl) hne hs hsg
      have hgl : HasGround l.2 (.probe .start) sl := by
        rw [he, ← hk]
        exact h.pending l hl
      exact hgl s hs hsg
    · exact hother hk (h.pending l hl)

/-- Every step without a fault keeps the ground of all. -/
theorem Grounds.step {l : Label} (h : Grounds c static w) (hf : Fenced w) (hl : Faultless c l)
    (hfree : ∀ k, Free c (static k)) (hs : machine.step w l = some w') : Grounds c static w' := by
  rcases stepped hs with ⟨_, _, ht, hth, hp, hk, _, ho⟩ | ⟨_, _, hi, hsh, hp, hth⟩ |
    ⟨i, calls, t, next, sl, hlab, hst, hran⟩
  · exact h.turns hf ht (calm_step hs hl ho hfree h.agrees) hth hp hk
  · exact h.launch hi hsh hp hth
  · subst hlab
    have hr := routes_threadStep t hl (h.agrees t.key) rfl
      (h.threads t (List.mem_of_getElem? hst.thread))
    exact h.worker hf hst (wp_ok hr hran)

end Worker

/-! ### Runs -/

theorem Grounds.run {c : Sessions} {static : PublicKey → List Text} {w w' : World} {ls : List Label}
    (h : Grounds c static w) (hf : Fenced w) (hfree : ∀ k, Free c (static k))
    (hl : ∀ l ∈ ls, Faultless c l) (hr : machine.run w ls = some w') : Grounds c static w' :=
  (machine.run_invariant (I := fun w => Fenced w ∧ Grounds c static w)
    (fun _ _ _ hl h hs => ⟨h.1.step hs, h.2.step h.1 hl hfree hs⟩) ⟨hf, h⟩ (machine.along_of_mem hl)
    hr).2

theorem Fresh.grounds {w : World} (h : Fresh w) (c : Sessions) : Grounds c w.shared.allowedIps w := by
  have hnone (k : PublicKey) : (w.shared.slot k).entry = none := h.states k
  refine ⟨fun k => ⟨fun _ p hp a ha => ?_, fun s hs => ?_, fun s hs => ?_⟩, ?_, ?_⟩
  · rw [Shared.allowedIps, show w.shared.wg.get? k = some p from hp]
    exact ha
  · exact absurd ((hnone k).symm.trans hs) nofun
  · exact absurd ((hnone k).symm.trans hs) nofun
  · simp [h.threads]
  · simp [h.pending]

/-- Control state and routes agree. An entry in mode direct has a device peer with its route and a
    handshake; and a peer with an allowed IP it did not have at the start of the process has the route of
    its entry, which is direct or in its confirmation. -/
theorem routes_agree (c : Sessions) {w₀ w : World} {ls : List Label} (h₀ : Fresh w₀)
    (hfree : ∀ k sid, slash32 (c.ip sid) ∉ w₀.shared.allowedIps k) (hl : ∀ l ∈ ls, Faultless c l)
    (hrun : machine.run w₀ ls = some w) :
    (∀ k s, w.shared.states.get? k = some s → s.mode = .direct → ∃ p, w.shared.wg.get? k = some p ∧
      p.allowedIps = [slash32 s.ip] ∧ p.latestHandshake ≠ 0) ∧
    ∀ k p a, w.shared.wg.get? k = some p → a ∈ p.allowedIps → a ∉ w₀.shared.allowedIps k →
      ∃ s, w.shared.states.get? k = some s ∧ p.allowedIps = [slash32 s.ip] ∧
        (s.mode = .direct ∨ s.mode = .confirm6) := by
  have h := (h₀.grounds c).run h₀.initial.fenced hfree hl hrun
  refine ⟨fun k s hs hm => ?_, fun k p a hp ha hnew => ?_⟩
  · have hmatch := (h.agrees k).peer s hs
    unfold Matches at hmatch
    rw [hm] at hmatch
    obtain ⟨_, ⟨p, hp, hpa⟩, q, hq, hqh⟩ := hmatch
    obtain rfl := Option.some.inj (hp.symm.trans hq)
    exact ⟨p, hp, hpa, hqh⟩
  · have hnot : ¬ Plain (w₀.shared.allowedIps k) (w.shared.slot k).peer := fun hplain =>
      hnew (hplain p hp a ha)
    have hrouted {s : PeerState} (hr : Routed s.ip (w.shared.slot k).peer) :
        p.allowedIps = [slash32 s.ip] := by
      obtain ⟨q, hq, hqa⟩ := hr
      obtain rfl := Option.some.inj (hp.symm.trans hq)
      exact hqa
    cases hs : w.shared.states.get? k with
    | none => exact absurd ((h.agrees k).absent hs) hnot
    | some s =>
      have hmatch := (h.agrees k).peer s hs
      unfold Matches at hmatch
      cases hm : s.mode <;> rw [hm] at hmatch
      · exact absurd hmatch.2 hnot
      · exact absurd hmatch hnot
      · exact ⟨s, rfl, hrouted hmatch.2, .inr hm⟩
      · exact ⟨s, rfl, hrouted hmatch.2.1, .inl hm⟩

/-- The probe of `peerOffer` has found its path, the confirmation has not begun. -/
theorem routes_agree_direct : ∃ w s p, machine.run World.start confirmRun.dropLast = some w ∧
    w.shared.states.get? zeroKey = some s ∧ s.mode = .direct ∧ w.shared.wg.get? zeroKey = some p ∧
      p.allowedIps = [slash32 s.ip] ∧ p.latestHandshake ≠ 0 := by
  have hsome : (machine.run World.start confirmRun.dropLast).any (fun w =>
      (w.shared.states.get? zeroKey).any fun s => decide (s.mode = .direct)) = true := by decide +kernel
  obtain ⟨w, hrun, hw⟩ := (Option.any_eq_true _ _).mp hsome
  obtain ⟨s, hs, hm⟩ := (Option.any_eq_true _ _).mp hw
  have hm := of_decide_eq_true hm
  let c : Sessions := ⟨fun _ => "10.0.0.5".toList, fun _ => zeroKey⟩
  have hcarries : (readOffer (nodeEnv 100) peerOffer .responder).toOption.all (fun o =>
      decide (o.peerIp = "10.0.0.5".toList ∧ zeroKey = o.key)) = true := by decide +kernel
  have hcalls (n : Time) : (workerCalls n).Succeed := ⟨⟨rfl, rfl, rfl, rfl⟩, rfl⟩
  have hl : ∀ l ∈ confirmRun.dropLast, Faultless c l := by
    intro l hl
    simp only [confirmRun, offered, List.replicate, List.cons_append, List.nil_append,
      List.dropLast_cons_cons, List.dropLast_singleton, List.mem_cons, List.not_mem_nil, or_false] at hl
    rcases hl with rfl | rfl | rfl | rfl | rfl | rfl | rfl | rfl | rfl | rfl | rfl
    · refine ⟨rfl, fun o ho => ?_⟩
      rw [ho] at hcarries
      obtain ⟨hip, hk⟩ := of_decide_eq_true hcarries
      exact ⟨hip, hk⟩
    all_goals first | exact trivial | exact hcalls _
  obtain ⟨p, hp, hpa, hph⟩ := (routes_agree c fresh_start (fun k sid => by simp [World.start,
    Shared.allowedIps]) hl hrun).1 zeroKey s hs hm
  exact ⟨w, s, p, hrun, hs, hm, hp, hpa, hph⟩

end Agent
