import WireguardP2p.Agent.Backoff

/-! The back-off over whole runs. From a state in which a key has no failures, as long as its offers repeat
    the session, its entry stays and the device gives it no /32, the entry has the count and the time of
    the failures so far; what is launched waits for that time. -/

namespace Agent
open Ipaddress Python Candidates Raising

/-- The reading of the clock of a step that may launch a probe. -/
def Label.reading : Label → Option Time
  | .offer env _ _ _ => some env.now
  | .monitor now _ => some now
  | _ => none

/-- The reading of the clock of a step of a worker. -/
def Label.workerClock : Label → Option Time
  | .worker _ calls => some calls.now
  | _ => none

/-- The time of the step, if a worker of the key ends in failure in it. -/
def failureTime (k : PublicKey) (w : World) : Label → Option Time
  | .worker i calls =>
    match w.threads[i]? with
    | some t => if t.key = k ∧ t.fails calls (w.shared.states.get? k) = true then some calls.now else none
    | none => none
  | _ => none

/-- The times at which the workers of the key end in failure, in order. -/
def failureTimes (k : PublicKey) : World → List Label → List Time
  | _, [] => []
  | w, l :: ls => (failureTime k w l).toList ++
    match w.step l with
    | some w' => failureTimes k w' ls
    | none => []

/-- The offers of the key keep the session, the instance and the candidate signature, its entry is not
    deleted, and the device gives it no /32. -/
structure Window (k : PublicKey) (w : World) (l : Label) : Prop where
  repeats : ∀ env data controller calls o, l = .offer env data controller calls →
    readOffer env data controller = .ok o → o.key = k → ∀ s, w.shared.states.get? k = some s → Repeats s o
  unrouted : NoRoute (w.shared.wg.get? k)
  stays : ∀ w', machine.step w l = some w' → (w'.shared.states.get? k).isSome = true ∧ NoRoute (w'.shared.wg.get? k)

/-- The step `l` of the run launches a probe for the key: it hands the generation `g` to a new worker. -/
def Launch (k : PublicKey) (g : ℕ) (u : World) (l : Label) : Prop :=
  ∃ u', machine.step u l = some u' ∧ (k, g) ∈ u'.pending ∧ (k, g) ∉ u.pending

/-! ### One step -/

theorem Stays.trans {v v' v'' : View} (h : Stays v v') (h' : Stays v' v'') : Stays v v'' := by
  rcases h' with h' | h'
  · rcases h with h | h
    · exact .inl (h'.trans h)
    · exact .inr (h'.trans h)
  · exact .inr h'

section Step
variable {k : PublicKey} {w w' : World} {l : Label}

/-- The section of another key. -/
theorem view_of_ne {sh : Shared} {j : PublicKey} {α : Type} {p : Section α} (hj : k ≠ j)
    (hp : TakesNone p (sh.slot j)) : (onKey j p).wp (fun _ sh' => sh'.view k = sh.view k)
      (fun _ sh' => sh'.view k = sh.view k) sh :=
  wp_onKey.mpr (wp_mono hp (fun _ _ ht => Shared.view_put_of_ne hj ht) fun _ _ ht => Shared.view_put_of_ne hj ht)

/-- The section of an offer for the key. -/
theorem waits_onKey {sh : Shared} {o : Offer} {calls : OfferCalls} {s : PeerState}
    (hs : sh.states.get? o.key = some s) (h : Repeats s o) (hroute : NoRoute (sh.wg.get? o.key)) :
    (onKey o.key (offerSection o calls)).wp
      (fun reply sh' => Waits o.now reply.generation (sh.view o.key) (sh'.view o.key))
      (fun _ sh' => ∃ launch, Waits o.now launch (sh.view o.key) (sh'.view o.key)) sh := by
  rw [wp_onKey]
  simp only [Shared.view_put]
  exact @waits_offerSection o calls (sh.slot o.key) s hs h hroute

/-- What is in hand after an offer: what was before, and the launch it is answered with. -/
theorem mem_launch {reply : OfferReply} {j : PublicKey} {g : ℕ} {pending : List (PublicKey × ℕ)}
    (h : (k, g) ∈ reply.launch j ++ pending) : (k, g) ∈ pending ∨ k = j ∧ reply.generation = some g := by
  rcases List.mem_append.mp h with h | h
  · cases reply with
    | staleSession => exact absurd h List.not_mem_nil
    | accepted launch =>
      cases launch with
      | none => exact absurd h List.not_mem_nil
      | some g' =>
        obtain ⟨rfl, rfl⟩ := Prod.mk.inj (List.mem_singleton.mp h)
        exact .inr ⟨rfl, rfl⟩
  · exact .inl h

theorem waits_offer {env : OfferEnv} {data : Json} {controller : Controller} {calls : OfferCalls} {s : PeerState}
    (hs : w.shared.states.get? k = some s) (hwindow : Window k w (.offer env data controller calls)) :
    ∃ launch, Waits env.now launch (w.shared.view k) ((w.offer env data controller calls).2.shared.view k) ∧
      ∀ g, (k, g) ∈ (w.offer env data controller calls).2.pending → (k, g) ∈ w.pending ∨ launch = some g := by
  unfold World.offer
  cases ho : readOffer env data controller with
  | error e => exact ⟨none, .refl _ _, fun g hg => .inl hg⟩
  | ok o =>
    rw [← readOffer_now ho]
    by_cases hk : k = o.key
    · subst hk
      have h := @waits_onKey w.shared o calls s hs (hwindow.repeats env data controller calls o rfl ho rfl s hs)
        hwindow.unrouted
      unfold wp at h
      simp only [run]
      generalize onKey o.key (offerSection o calls) w.shared = r at h ⊢
      rcases r with ⟨_ | reply, sh⟩
      · obtain ⟨launch, h⟩ := h
        exact ⟨launch, h, fun g hg => .inl hg⟩
      · exact ⟨_, h, fun g hg => (mem_launch hg).imp id And.right⟩
    · have h := @view_of_ne k w.shared o.key _ _ hk (takesNone_offerSection o calls (w.shared.slot o.key))
      unfold wp at h
      simp only [run]
      generalize onKey o.key (offerSection o calls) w.shared = r at h ⊢
      rcases r with ⟨_ | reply, sh⟩
      · exact ⟨none, Stays.waits (.inl (congrArg Prod.fst h)), fun g hg => .inl hg⟩
      · exact ⟨none, Stays.waits (.inl (congrArg Prod.fst h)),
          fun g hg => .inl ((mem_launch hg).resolve_right fun h => hk h.1)⟩

theorem stays_remove {listenAddress : Text} {data : Json} {now : Time} {calls : RemoveCalls}
    (hroute : NoRoute (w.shared.wg.get? k)) :
    Stays (w.shared.view k) ((w.remove listenAddress data now calls).2.shared.view k) := by
  unfold World.remove
  cases hr : readRemoval listenAddress data with
  | error e => exact .inl rfl
  | ok r =>
    refine wp_run (R := fun sh : Shared => Stays (w.shared.view k) (sh.view k)) ?_
    by_cases hk : k = r.key
    · subst hk
      rw [wp_onKey]
      simp only [Shared.view_put]
      exact @stays_removeSection (w.shared.slot r.key) now r calls hroute
    · exact wp_mono (@view_of_ne k w.shared r.key _ _ hk (takesNone_removeSection r now calls _))
        (fun _ _ h => .inl (congrArg Prod.fst h)) fun _ _ h => .inl (congrArg Prod.fst h)

theorem waits_monitor {now : Time} {calls : PassCalls} (hroute : NoRoute (w.shared.wg.get? k)) :
    ∃ launch, Waits now launch (w.shared.view k) ((w.monitor now calls).shared.view k) ∧
      ∀ g, (k, g) ∈ (w.monitor now calls).pending → (k, g) ∈ w.pending ∨ launch = some g := by
  have h := @each_monitorOnce (fun j launch v v' => j = k → Waits now launch v v') (fun j v v' => j = k → Stays v v')
    now w.shared calls fun j _ sl hsl => by
      by_cases hj : j = k
      · subst hj
        have hpeer : sl.peer = w.shared.wg.get? j := congrArg Prod.snd hsl
        rw [← hsl]
        exact wp_mono (@waits_monitorPeer sl now (calls.remove j) (hpeer ▸ hroute)) (fun _ _ h _ => h)
          fun _ _ h _ => h
      · exact wp_mono (wp_trivial _ _) (fun _ _ _ h => absurd h hj) fun _ _ _ h => absurd h hj
  have hpass : ∀ {launches sh}, Each (fun j launch v v' => j = k → Waits now launch v v') w.shared.states.keys
      launches w.shared sh → ∃ launch, Waits now launch (w.shared.view k) (sh.view k) ∧
        ∀ g, (k, g) ∈ launches → launch = some g := by
    intro launches sh heach
    by_cases hk : k ∈ w.shared.states.keys
    · obtain ⟨launch, hwaits, hlaunch⟩ := heach.visited k hk
      exact ⟨launch, hwaits rfl, hlaunch⟩
    · exact ⟨none, Stays.waits (.inl (congrArg Prod.fst (heach.others k hk))),
        fun g hg => absurd (heach.launched _ hg) hk⟩
  unfold World.monitor
  unfold wp at h
  simp only [run]
  generalize monitorOnce now calls w.shared = r at h ⊢
  rcases r with ⟨_ | launches, sh⟩
  · suffices h : ∃ launch, Waits now launch (w.shared.view k) (sh.view k) by
      obtain ⟨launch, hwaits⟩ := h
      exact ⟨launch, hwaits, fun g hg => .inl hg⟩
    rcases h with ⟨launches, heach⟩ | hstopped | ⟨-, rfl⟩
    · obtain ⟨launch, hwaits, -⟩ := hpass heach
      exact ⟨launch, hwaits⟩
    · by_cases hk : k ∈ w.shared.states.keys
      · rcases hstopped.visited k hk with hsame | ⟨launch, hwaits⟩ | hstays
        · exact ⟨none, Stays.waits (.inl (congrArg Prod.fst hsame))⟩
        · exact ⟨launch, hwaits rfl⟩
        · exact ⟨none, (hstays rfl).waits⟩
      · exact ⟨none, Stays.waits (.inl (congrArg Prod.fst (hstopped.others k hk)))⟩
    · exact ⟨none, .refl _ _⟩
  · obtain ⟨launch, hwaits, hlaunch⟩ := hpass h
    refine ⟨launch, hwaits, fun g hg => ?_⟩
    rcases List.mem_append.mp hg with hg | hg
    · exact .inr (hlaunch g hg)
    · exact .inl hg

theorem stays_cleanup (active : List Text) (calls : PassCalls) :
    Stays (w.shared.view k) (((cleanupInitiatorStates active calls).run w.shared).2.view k) := by
  refine (keeps_cleanupInitiatorStates (I := fun sh : Shared => Stays (w.shared.view k) (sh.view k))
    fun j sh hsh => ?_).run (.inl rfl)
  by_cases hj : k = j
  · subst hj
    rw [wp_onKey]
    simp only [Shared.view_put]
    exact wp_mono (@stays_cleanupPeer (sh.slot k) _ _) (fun _ _ h => hsh.trans h) fun _ _ h => hsh.trans h
  · exact wp_mono (@view_of_ne k sh j _ _ hj (takesNone_cleanupPeer ..))
      (fun _ _ h => hsh.trans (.inl (congrArg Prod.fst h))) fun _ _ h => hsh.trans (.inl (congrArg Prod.fst h))

/-- A step that is not one of a worker. -/
theorem waits_step {s : PeerState} (hs : w.shared.states.get? k = some s) (hstep : machine.step w l = some w')
    (hwindow : Window k w l) (hl : l.isWorker = false) :
    ∃ now launch, Waits now launch (w.shared.view k) (w'.shared.view k) ∧
      ∀ g, (k, g) ∈ w'.pending → (k, g) ∈ w.pending ∨ launch = some g ∧ l.reading = some now := by
  have hstays : Stays (w.shared.view k) (w'.shared.view k) → (∀ g, (k, g) ∈ w'.pending → (k, g) ∈ w.pending) →
      ∃ now launch, Waits now launch (w.shared.view k) (w'.shared.view k) ∧
        ∀ g, (k, g) ∈ w'.pending → (k, g) ∈ w.pending ∨ launch = some g ∧ l.reading = some now :=
    fun h hpending => ⟨0, none, h.waits, fun g hg => .inl (hpending g hg)⟩
  cases l with
  | offer env data controller calls =>
    obtain rfl := Option.some.inj hstep
    obtain ⟨launch, hwaits, hlaunch⟩ := waits_offer hs hwindow
    exact ⟨env.now, launch, hwaits, fun g hg => (hlaunch g hg).imp id fun h => ⟨h, rfl⟩⟩
  | remove listenAddress data now calls =>
    obtain rfl := Option.some.inj hstep
    refine hstays (stays_remove hwindow.unrouted) fun g hg => ?_
    unfold World.remove at hg
    cases hr : readRemoval listenAddress data with
    | error e => rwa [hr] at hg
    | ok r => rwa [hr] at hg
  | monitor now calls =>
    obtain rfl := Option.some.inj hstep
    obtain ⟨launch, hwaits, hlaunch⟩ := @waits_monitor k w now calls hwindow.unrouted
    exact ⟨now, launch, hwaits, fun g hg => (hlaunch g hg).imp id fun h => ⟨h, rfl⟩⟩
  | cleanupInitiator active calls =>
    obtain rfl := Option.some.inj hstep
    exact hstays (stays_cleanup active calls) fun g hg => hg
  | launch i =>
    obtain ⟨launch, -, rfl⟩ := launch_step hstep
    exact hstays (.inl rfl) fun g hg => List.mem_of_mem_eraseIdx hg
  | worker i calls => cases hl
  | handshake j at_ =>
    obtain ⟨p, -, -, rfl⟩ := handshake_step hstep
    exact hstays (.inl rfl) fun g hg => hg
  | roam j endpoint =>
    obtain ⟨p, -, rfl⟩ := roam_step hstep
    exact hstays (.inl rfl) fun g hg => hg

/-- A step of a worker of another key, or of a worker that has lost the entry. -/
structure Passive (k : PublicKey) (w : World) (l : Label) (w' : World) : Prop where
  entry : w'.shared.states.get? k = w.shared.states.get? k
  time : failureTime k w l = none

/-- A step of the worker the entry of the key belongs to; its launch was made. -/
structure Active (k : PublicKey) (w : World) (l : Label) (w' : World) : Prop where
  launched : ∀ s, w.shared.states.get? k = some s → (k, s.generation) ∉ w.pending
  failed : ∀ now, failureTime k w l = some now → BacksOff now (w.shared.view k) (w'.shared.view k)
  going : failureTime k w l = none → Steady (w.shared.view k) (w'.shared.view k)

theorem ends_step {i : ℕ} {calls : WorkerCalls} (hf : Fenced w) (hstep : machine.step w (.worker i calls) = some w')
    (hroute : NoRoute (w'.shared.wg.get? k)) :
    w'.pending = w.pending ∧ (Passive k w (.worker i calls) w' ∨ Active k w (.worker i calls) w') := by
  obtain ⟨t, ht, -, rfl⟩ := worker_step hstep
  refine ⟨w.worker_pending i t calls, ?_⟩
  have hshared := w.worker_shared i t calls
  generalize hsl : ((t.step calls).run (w.shared.slot t.key)).2 = sl at hshared
  by_cases hk : t.key = k
  · subst hk
    have htime : failureTime t.key w (.worker i calls) =
        if t.fails calls (w.shared.states.get? t.key) = true then some calls.now else none := by
      simp only [failureTime, ht, true_and]
    have hview : (w.worker i t calls).shared.view t.key = sl.view := by rw [hshared, Shared.view_put]
    by_cases hown : ∃ s, w.shared.states.get? t.key = some s ∧ s.generation = t.generation
    · obtain ⟨s, hs, hg⟩ := hown
      have hends : NoRoute sl.peer → _ := hsl ▸ wp_run (@ends_threadStep calls (w.shared.slot t.key) t)
      have hpeer : sl.peer = (w.worker i t calls).shared.wg.get? t.key := (congrArg Prod.snd hview).symm
      have hends := hends (hpeer ▸ hroute)
      rw [← hview] at hends
      refine .inr ⟨fun s' hs' hmem => ?_, fun now hnow => ?_, fun hnone => ?_⟩
      · obtain rfl := Option.some.inj (hs.symm.trans hs')
        exact hf.pending_new _ hmem t (List.mem_of_getElem? ht) (by rw [hg])
      · rw [htime] at hnow
        split_ifs at hnow with hfails
        obtain rfl := Option.some.inj hnow
        exact (if_pos hfails).mp hends
      · rw [htime] at hnone
        split_ifs at hnone with hfails
        exact (if_neg hfails).mp hends
    · have hfenced : (∀ s, (w.shared.slot t.key).entry = some s → s.generation ≠ t.generation) →
          sl = w.shared.slot t.key :=
        hsl ▸ wp_run (wp_mono (turn_threadStep t calls (w.shared.slot t.key))
          (fun _ _ h => h.1.fenced) fun _ _ h => h.elim)
      have hsl := hfenced fun s hs hg => hown ⟨s, hs, hg⟩
      refine .inl ⟨by rw [hshared, hsl, Shared.put_slot], ?_⟩
      rw [htime, if_neg fun hfails => hown (fails_generation hfails)]
  · refine .inl ⟨?_, ?_⟩
    · rw [hshared, Shared.get?_put_states, if_neg fun h => hk h.symm]
    · simp only [failureTime, ht, hk, false_and, if_false]

end Step

/-! ### Runs -/

theorem retryDelay_mono {m n : ℕ} (h : m ≤ n) : retryDelay m ≤ retryDelay n := by
  have hstep : ∀ n, retryDelay n ≤ retryDelay (n + 1) := by
    intro n
    match n with
    | 0 | 1 | 2 | 3 | 4 => decide
    | n + 5 => exact le_rfl
  exact monotone_nat_of_le_succ hstep h

/-- A step of the run launched a probe of the generation `g` for the key, at the time `now`. -/
def Decided (k : PublicKey) (g : ℕ) (w₀ : World) (ls : List Label) (now : Time) : Prop :=
  ∃ us l u, us ++ [l] <+: ls ∧ machine.run w₀ us = some u ∧ Launch k g u l ∧ l.reading = some now

/-- After the run the entry of the key has the count of the failures and backs off from the last of them.
    A launch in hand was made once that was over, or before the run for an entry that has moved on. -/
structure BackedOff (k : PublicKey) (w₀ : World) (ls : List Label) (w : World) (s : PeerState) : Prop where
  entry : w.shared.states.get? k = some s
  count : s.failures = (failureTimes k w₀ ls).length
  last : ∀ t, (failureTimes k w₀ ls).getLast? = some t → s.retryAfter = t + retryDelay s.failures
  pending : ∀ g, (k, g) ∈ w.pending → (k, g) ∈ w₀.pending ∧ ¬ owns g (some s) = true ∨
    owns g (some s) = true ∧ (s.failures ≠ 0 → ∃ now, Decided k g w₀ ls now ∧ s.retryAfter ≤ now)

section Run
variable {k : PublicKey} {w₀ w w' : World} {ls : List Label} {l : Label}

theorem Decided.mono {g : ℕ} {now : Time} {ls' : List Label} (h : Decided k g w₀ ls now) (hls : ls <+: ls') :
    Decided k g w₀ ls' now := by
  obtain ⟨us, l, u, hus, hrest⟩ := h
  exact ⟨us, l, u, hus.trans hls, hrest⟩

theorem failureTimes_concat (hrun : machine.run w₀ ls = some w) (l : Label) :
    failureTimes k w₀ (ls ++ [l]) = failureTimes k w₀ ls ++ (failureTime k w l).toList := by
  induction ls generalizing w₀ with
  | nil =>
    obtain rfl := Option.some.inj hrun
    rw [List.nil_append, failureTimes, failureTimes, List.nil_append]
    cases w₀.step l <;> exact List.append_nil _
  | cons l' ls ih =>
    obtain ⟨u, hu, hrest⟩ := machine.run_cons.mp hrun
    have hu : w₀.step l' = some u := hu
    rw [List.cons_append, failureTimes, failureTimes, hu, List.append_assoc]
    exact congrArg _ (ih hrest)

theorem failureTimes_sublist (w : World) (ls : List Label) :
    (failureTimes k w ls).Sublist (ls.filterMap Label.workerClock) := by
  induction ls generalizing w with
  | nil => exact .slnil
  | cons l ls ih =>
    have hfirst : (failureTime k w l).toList.Sublist l.workerClock.toList := by
      cases l with
      | worker i calls =>
        rw [failureTime]
        split
        · split_ifs
          · exact .refl _
          · exact List.nil_sublist _
        · exact List.nil_sublist _
      | _ => exact List.nil_sublist _
    have hcons : (l :: ls).filterMap Label.workerClock = l.workerClock.toList ++ ls.filterMap Label.workerClock := by
      cases hl : l.workerClock with
      | none => rw [List.filterMap_cons_none hl]; rfl
      | some t => rw [List.filterMap_cons_some hl]; rfl
    rw [failureTimes, hcons]
    refine hfirst.append ?_
    split
    · exact ih _
    · exact List.nil_sublist _

/-- A launch in hand whose entry has moved on does not get it back. -/
theorem not_owns_step {g : ℕ} {s s' : PeerState} (hf : Fenced w) (hstep : machine.step w l = some w')
    (hs : w.shared.states.get? k = some s) (hs' : w'.shared.states.get? k = some s') (hg : (k, g) ∈ w.pending)
    (h : ¬ owns g (some s) = true) : ¬ owns g (some s') = true := by
  intro howns
  rw [owns_some] at h howns
  obtain ⟨hgeneration, hrunning⟩ := howns
  have hle : g ≤ w.shared.lastGeneration := hf.pending_le _ hg
  have hkept : (∃ s₀, w.shared.states.get? k = some s₀ ∧ Kept s₀ s') → False := by
    rintro ⟨s₀, hs₀, hkept⟩
    obtain rfl := Option.some.inj (hs.symm.trans hs₀)
    exact h ⟨hkept.same.generation.symm.trans hgeneration, hkept.running hrunning⟩
  rcases stepped hstep with ⟨_, _, hturns, _⟩ | ⟨_, _, _, hshared, _⟩ | ⟨i, calls, t, next, sl, _, hst, _⟩
  · rcases hturns.entry k s' hs' with h | ⟨hnew, -, -⟩
    · exact hkept h
    · omega
  · rw [hshared] at hs'
    exact hkept ⟨s', hs', .refl s'⟩
  · rw [hst.shared, Shared.get?_put_states] at hs'
    split_ifs at hs' with hk
    · subst hk
      rcases hst.turn.entry s' hs' with h | ⟨hnew, -⟩ | ⟨⟨s₀, hs₀, hg₀, hsame⟩, -⟩
      · exact hkept h
      · exact absurd (hgeneration ▸ hnew) (not_lt.mpr hle)
      · -- a launch in hand has no worker yet
        refine hf.pending_new _ hg t (List.mem_of_getElem? hst.thread) ?_
        rw [← hg₀, ← hsame.generation, hgeneration]
    · exact hkept ⟨s', hs', .refl s'⟩

/-- A step without a failure that leaves the back-off: what was in hand still belongs to the entry, and what is
    launched waited. -/
theorem BackedOff.wait {s s' : PeerState} (h : BackedOff k w₀ ls w s) (hf : Fenced w)
    (hrun : machine.run w₀ ls = some w) (hstep : machine.step w l = some w')
    (hs' : w'.shared.states.get? k = some s') (htime : failureTime k w l = none) (hpause : s'.pause = s.pause)
    (hpending : ∀ g, (k, g) ∈ w'.pending → ((k, g) ∈ w.pending ∧ (owns g (some s) = true → owns g (some s') = true)) ∨
      Launch k g w l ∧ owns g (some s') = true ∧ ∃ now, l.reading = some now ∧ s.retryAfter ≤ now) :
    BackedOff k w₀ (ls ++ [l]) w' s' := by
  obtain ⟨hfailures, hretry⟩ := Prod.mk.inj hpause
  have hfailures : s'.failures = s.failures := hfailures
  have hretry : s'.retryAfter = s.retryAfter := hretry
  have htimes : failureTimes k w₀ (ls ++ [l]) = failureTimes k w₀ ls := by
    rw [failureTimes_concat hrun, htime]
    exact List.append_nil _
  refine ⟨hs', by rw [hfailures, htimes, h.count], ?_, fun g hg => ?_⟩
  · rw [htimes, hretry, hfailures]
    exact h.last
  · rw [hfailures, hretry]
    rcases hpending g hg with ⟨hold, hown⟩ | ⟨hlaunch, hown, now, hreading, hdue⟩
    · rcases h.pending g hold with ⟨hbefore, hnot⟩ | ⟨howns, hdecided⟩
      · exact .inl ⟨hbefore, not_owns_step hf hstep h.entry hs' hold hnot⟩
      · refine .inr ⟨hown howns, fun hne => ?_⟩
        obtain ⟨now, hnow, hdue⟩ := hdecided hne
        exact ⟨now, hnow.mono (List.prefix_append ls [l]), hdue⟩
    · exact .inr ⟨hown, fun _ => ⟨now, ⟨ls, l, w, List.prefix_refl _, hrun, hlaunch, hreading⟩, hdue⟩⟩

/-- A step in which a worker of the key ends in failure. -/
theorem BackedOff.fail {s s' : PeerState} {now : Time} (h : BackedOff k w₀ ls w s) (hf : Fenced w)
    (hrun : machine.run w₀ ls = some w) (hstep : machine.step w l = some w')
    (hs' : w'.shared.states.get? k = some s') (htime : failureTime k w l = some now)
    (hpause : s'.pause = (s.failures + 1, now + retryDelay (s.failures + 1)))
    (hlaunched : (k, s.generation) ∉ w.pending) (hpending : w'.pending = w.pending) :
    BackedOff k w₀ (ls ++ [l]) w' s' := by
  obtain ⟨hfailures, hretry⟩ := Prod.mk.inj hpause
  have htimes : failureTimes k w₀ (ls ++ [l]) = failureTimes k w₀ ls ++ [now] := by
    rw [failureTimes_concat hrun, htime]
    rfl
  refine ⟨hs', ?_, fun t ht => ?_, fun g hg => ?_⟩
  · rw [hfailures, htimes, List.length_append, List.length_singleton, h.count]
  · rw [htimes, List.getLast?_concat] at ht
    obtain rfl := Option.some.inj ht
    rw [hretry, hfailures]
  · rw [hpending] at hg
    rcases h.pending g hg with ⟨hbefore, hnot⟩ | ⟨howns, -⟩
    · exact .inl ⟨hbefore, not_owns_step hf hstep h.entry hs' hg hnot⟩
    · obtain ⟨rfl, -⟩ := owns_some.mp howns
      exact absurd hg hlaunched

theorem backedOff_step {s : PeerState} (hf : Fenced w) (hrun : machine.run w₀ ls = some w)
    (h : BackedOff k w₀ ls w s) (hstep : machine.step w l = some w') (hwindow : Window k w l) :
    ∃ s', BackedOff k w₀ (ls ++ [l]) w' s' := by
  obtain ⟨hsome, hroute⟩ := hwindow.stays w' hstep
  obtain ⟨s', hs'⟩ := Option.isSome_iff_exists.mp hsome
  refine ⟨s', ?_⟩
  cases hworker : l.isWorker with
  | false =>
    have htime : failureTime k w l = none := by cases l <;> first | rfl | cases hworker
    obtain ⟨now, launch, hwaits, hpending⟩ := waits_step h.entry hstep hwindow hworker
    obtain ⟨s₁, hs₁, hbides⟩ := hwaits.kept s' hs'
    obtain rfl := Option.some.inj (h.entry.symm.trans hs₁)
    refine h.wait hf hrun hstep hs' htime hbides.pause fun g hg => ?_
    by_cases hold : (k, g) ∈ w.pending
    · refine .inl ⟨hold, fun howns => ?_⟩
      obtain ⟨hgeneration, hrunning⟩ := owns_some.mp howns
      obtain ⟨hrunning', hgeneration'⟩ := hbides.held hrunning
      exact owns_some.mpr ⟨hgeneration'.trans hgeneration, hrunning'⟩
    · obtain ⟨hlaunch, hreading⟩ := (hpending g hg).resolve_left hold
      obtain ⟨s₁, s₂, hs₁, hs₂, hdue, hgeneration, hrunning⟩ := hwaits.launched g hlaunch
      obtain rfl := Option.some.inj (h.entry.symm.trans hs₁)
      obtain rfl := Option.some.inj (hs'.symm.trans hs₂)
      exact .inr ⟨⟨w', hstep, hg, hold⟩, owns_some.mpr ⟨hgeneration, hrunning⟩, now, hreading, hdue⟩
  | true =>
    cases l with
    | worker i calls =>
      obtain ⟨hpending, hpassive | hactive⟩ := ends_step hf hstep hroute
      · have heq : s' = s := Option.some.inj (hs'.symm.trans (hpassive.entry.trans h.entry))
        subst heq
        exact h.wait hf hrun hstep hs' hpassive.time rfl fun g hg => .inl ⟨hpending ▸ hg, id⟩
      · cases htime : failureTime k w (.worker i calls) with
        | none =>
          obtain ⟨s₁, hs₁, hpause, -⟩ := hactive.going htime s' hs'
          obtain rfl := Option.some.inj (h.entry.symm.trans hs₁)
          refine h.wait hf hrun hstep hs' htime hpause fun g hg => .inl ⟨hpending ▸ hg, fun howns => ?_⟩
          obtain ⟨rfl, -⟩ := owns_some.mp howns
          exact absurd (hpending ▸ hg) (hactive.launched s h.entry)
        | some now =>
          obtain ⟨s₁, hs₁, hpause, -⟩ := hactive.failed now htime s' hs'
          obtain rfl := Option.some.inj (h.entry.symm.trans hs₁)
          exact h.fail hf hrun hstep hs' htime hpause (hactive.launched s h.entry) hpending
    | _ => cases hworker

/-- Along a run from a state in which the key has no failures. -/
theorem backedOff_run {s₀ : PeerState} (hf : Fenced w₀) (hs₀ : w₀.shared.states.get? k = some s₀)
    (hzero : s₀.failures = 0) (hwindow : machine.Along (Window k) w₀ ls) (hrun : machine.run w₀ ls = some w) :
    ∃ s, BackedOff k w₀ ls w s := by
  induction ls using List.reverseRecOn generalizing w with
  | nil =>
    obtain rfl := Option.some.inj hrun
    refine ⟨s₀, hs₀, hzero, (fun t ht => by cases ht), fun g hg => ?_⟩
    by_cases howns : owns g (some s₀) = true
    · exact .inr ⟨howns, fun hne => absurd hzero hne⟩
    · exact .inl ⟨hg, howns⟩
  | append_singleton ls l ih =>
    obtain ⟨u, hu, hlast⟩ := machine.run_append.mp hrun
    obtain ⟨w', hw', heq⟩ := machine.run_cons.mp hlast
    obtain rfl := Option.some.inj heq
    obtain ⟨s, hs⟩ := ih (hwindow.split hu).1 hu
    exact backedOff_step (hf.run hu) hu hs hw' (hwindow.last hu)

/-- The entry is marked for a probe only once it has backed off. -/
theorem BackedOff.launch {s : PeerState} {g : ℕ} (h : BackedOff k w₀ ls w s) (hf : Fenced w)
    (hwindow : Window k w l) (hlaunch : Launch k g w l) : ∃ now, l.reading = some now ∧ s.retryAfter ≤ now := by
  obtain ⟨w', hstep, hg, hnew⟩ := hlaunch
  cases hworker : l.isWorker with
  | false =>
    obtain ⟨now, launch, hwaits, hpending⟩ := waits_step h.entry hstep hwindow hworker
    obtain ⟨hlaunch, hreading⟩ := (hpending g hg).resolve_left hnew
    obtain ⟨s₁, -, hs₁, -, hdue, -⟩ := hwaits.launched g hlaunch
    obtain rfl := Option.some.inj (h.entry.symm.trans hs₁)
    exact ⟨now, hreading, hdue⟩
  | true =>
    cases l with
    | worker i calls =>
      have hpending := (ends_step hf hstep (hwindow.stays w' hstep).2).1
      exact absurd (hpending ▸ hg) hnew
    | _ => cases hworker

/-- The entry backs off at least as long as any of the failures asks for. -/
theorem BackedOff.bound {s : PeerState} {n : ℕ} {t : Time} (h : BackedOff k w₀ ls w s)
    (hclock : (ls.filterMap Label.workerClock).Pairwise (· ≤ ·)) (ht : (failureTimes k w₀ ls)[n]? = some t) :
    t + retryDelay (n + 1) ≤ s.retryAfter ∧ s.failures ≠ 0 := by
  have hlen : n < (failureTimes k w₀ ls).length := (List.getElem?_eq_some_iff.mp ht).1
  have hne : failureTimes k w₀ ls ≠ [] := List.ne_nil_of_length_pos (Nat.zero_lt_of_lt hlen)
  obtain ⟨times, last, htimes⟩ := (List.eq_nil_or_concat (failureTimes k w₀ ls)).resolve_left hne
  rw [List.concat_eq_append] at htimes
  have hsorted : (times ++ [last]).Pairwise (· ≤ ·) := htimes ▸ hclock.sublist (failureTimes_sublist w₀ ls)
  have hle : t ≤ last := by
    rcases List.mem_append.mp (htimes ▸ List.mem_of_getElem? ht) with hmem | hmem
    · exact (List.pairwise_append.mp hsorted).2.2 t hmem last (List.mem_singleton_self last)
    · exact (List.mem_singleton.mp hmem).le
  have hcount : n + 1 ≤ s.failures := h.count ▸ hlen
  have hretry := h.last last (by rw [htimes, List.getLast?_concat])
  refine ⟨?_, by omega⟩
  calc t + retryDelay (n + 1) ≤ last + retryDelay s.failures :=
        add_le_add hle (Nat.cast_le.mpr (retryDelay_mono hcount))
    _ = s.retryAfter := hretry.symm

end Run

/-! ### A worker that dies -/

/-- Whether a step keeps the window of the key, where the device gives its peer no allowed IP. -/
def windowCheck (k : PublicKey) (w : World) (l : Label) : Bool :=
  (match l with
    | .offer env data controller _ => (readOffer env data controller).toOption.all fun o =>
      decide (o.key ≠ k) || (w.shared.states.get? k).all fun s => decide (o.sessionId = s.sessionId) &&
        !instanceChanged s o && decide (candidateSignature o.candidates = s.candidateSignature)
    | _ => true) &&
  ((w.shared.wg.get? k).all fun q => decide (q.allowedIps = [])) &&
  (w.step l).all fun w' => (w'.shared.states.get? k).isSome &&
    (w'.shared.wg.get? k).all fun q => decide (q.allowedIps = [])

theorem noRoute_of_all {p : Option WgPeer} (h : (p.all fun q => decide (q.allowedIps = [])) = true) : NoRoute p := by
  rintro q rfl ip hip
  rw [of_decide_eq_true h] at hip
  cases hip

theorem window_of_check {k : PublicKey} {w : World} {l : Label} (h : windowCheck k w l = true) : Window k w l := by
  simp only [windowCheck, Bool.and_eq_true] at h
  obtain ⟨⟨hoffer, hroute⟩, hstep⟩ := h
  refine ⟨?_, noRoute_of_all hroute, fun w' hw' => ?_⟩
  · rintro env data controller calls o rfl ho rfl s hs
    simp only [ho, Except.toOption, Option.all_some, hs, Bool.or_eq_true, Bool.and_eq_true, decide_eq_true_eq,
      Bool.not_eq_true'] at hoffer
    obtain ⟨⟨hsession, hinstance⟩, hsignature⟩ := hoffer.resolve_left fun h => h rfl
    exact ⟨hsession, hinstance, hsignature⟩
  · rw [show w.step l = some w' from hw', Option.all_some, Bool.and_eq_true] at hstep
    exact ⟨hstep.1, noRoute_of_all hstep.2⟩

/-- The worker of the offer dies at its first query of the device. -/
def dyingRun : List Label :=
  .launch 0 :: List.replicate 4 (.worker 0 { workerCalls ((110 : ℕ)) with query := some .osError })

end Agent
