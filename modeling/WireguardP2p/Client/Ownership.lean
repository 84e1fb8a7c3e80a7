import WireguardP2p.Client.Steps

/-! Ownership across the incarnations of a state. A state has at most one owner, the goroutine started
    for it, in every run in which no generation is handed out again while a goroutine still carries it:
    generations are counted per state object and start again with a new object, and a probe may be
    started without a new generation. -/

namespace Client
open Ipaddress Python Net Candidates

namespace Visited
variable {v : Visit} {a b : App} {s s' : PeerState} {launched : Option ℕ}

theorem states_eq (h : Visited v a s b s' launched) : b.states = a.states := by
  cases h with
  | renewed => split <;> simp
  | promoted => simp
  | _ => rfl

/-- A state that is left with a worker mark is left in mode probe. -/
theorem probing (h : Visited v a s b s' launched) (hs : s.workerRunning = true → s.mode = .probe) :
    s'.workerRunning = true → s'.mode = .probe := by
  intro hr
  cases h with
  | kept _ hmode hrun => simp [hrun] at hr
  | promoted _ hmode hrun => simp [hrun] at hr
  | rests _ hmode hrun => exact hmode.trans (hs (hrun ▸ hr))
  | retried _ hmode => exact hmode
  | renewed _ hmode => exact hmode

/-- The fence is left or taken down, or it is the one of the probe that is started. -/
theorem fence (h : Visited v a s b s' launched) :
    launched = none ∧ (s'.fence = none ∨ s'.fence = s.fence) ∨
      ∃ g, launched = some g ∧ s'.fence = some (g, .probing) := by
  cases h with
  | kept _ hmode hrun => exact .inl ⟨rfl, .inl (PeerState.fence_none hrun (by simp [hmode]))⟩
  | promoted _ hmode hrun => exact .inl ⟨rfl, .inl (PeerState.fence_none hrun (by simp [hmode]))⟩
  | rests _ hmode hrun hgen => exact .inl ⟨rfl, .inr (PeerState.fence_congr hrun hmode hgen)⟩
  | retried _ hmode hrun => exact .inr ⟨_, rfl, by simp [PeerState.fence, hrun]⟩
  | renewed _ hmode hrun => exact .inr ⟨_, rfl, by simp [PeerState.fence, hrun]⟩

end Visited

/-- A probe is started on a key. -/
structure Starting (key : Text) (generation object : ℕ) (a b : App) : Prop where
  after : b.fence key = some (generation, .probing)
  object : b.object key = some object
  others : ∀ j, j ≠ key → b.fence j = a.fence j ∧ b.object j = a.object j

namespace Visit

theorem state_running {v : Visit} {a : App} (ha : a.Probing) (h : (v.state a).workerRunning = true) :
    (v.state a).mode = .probe := by
  unfold state at h ⊢
  cases hs : a.states.get? v.key with
  | none => simp [hs, created] at h
  | some s =>
    rw [hs] at h
    exact ha v.key s hs h

theorem run_probing (v : Visit) {a : App} (ha : a.Probing) : (v.run a).1.Probing := by
  obtain ⟨b, s', h, he, _⟩ := v.visited a
  rw [he]
  exact (ha.congr h.states_eq).setState (h.probing (state_running ha))

/-- An iteration leaves every fence, takes the one of its key down, or starts a probe. -/
theorem run_fences (v : Visit) (a : App) : (v.run a).2 = none ∧ a.Quiet (v.run a).1 ∨
    ∃ g, (v.run a).2 = some g ∧ Starting v.key g (v.state a).object a (v.run a).1 := by
  obtain ⟨b, s', h, he, ho⟩ := v.visited a
  have hb : b.states = a.states := h.states_eq
  rw [he]
  rcases h.fence with ⟨hn, hf⟩ | ⟨g, hg, hf⟩
  · refine .inl ⟨hn, .setState hb ?_⟩
    unfold state at hf ho
    cases hs : a.states.get? v.key with
    | none =>
      rw [hs] at hf
      exact .inl (hf.elim id fun h => h)
    | some s =>
      rw [hs] at hf ho
      rw [App.fence_of_get? hs, App.object_of_get? hs, ho]
      exact hf.imp_right fun h => ⟨h, rfl⟩
  · refine .inr ⟨g, hg, ?_, ?_, fun j hj => ?_⟩
    · rw [App.fence_setState, if_pos rfl, hf]
    · rw [App.object_setState, if_pos rfl, ho]
    · rw [App.fence_setState, if_neg hj, App.object_setState, if_neg hj]
      exact ⟨App.fence_congr hb j, App.object_congr hb j⟩

end Visit

namespace App
variable {a : App}

@[simp] theorem states_removeAll (remove : Text → Bool) : ∀ (keys : List Text) (a : App),
    (a.removeAll remove keys).states = a.states
  | [], _ => rfl
  | key :: keys, a => by
      show (removeAll remove (a.wgSet (remove key) key .remove) keys).states = a.states
      rw [states_removeAll remove keys, states_wgSet]

/-- `cleanup` discards every state. -/
theorem states_cleanup (h : a.interfaceName ≠ []) (removeState removeServer : Text → Bool) :
    (a.cleanup removeState removeServer).states = a.states.mapVals fun _ => discard := by
  rw [cleanup, if_neg h, states_removeAll, states_removeAll]

/-- A state that `cleanup` meets listening listens on with a new generation. -/
theorem fence_cleanup (removeState removeServer : Text → Bool) (key : Text) :
    let b := a.cleanup removeState removeServer
    b = a ∨ b.object key = a.object key ∧ (b.fence key = none ∨ ∃ s, a.states.get? key = some s ∧
      s.mode = .passive6 ∧ b.fence key = some (s.generation + 1, .watching)) := by
  intro b
  by_cases h : a.interfaceName = []
  · exact .inl (by simp only [b, cleanup, if_pos h])
  · refine .inr ?_
    rw [fence, object, object, states_cleanup h, Dict.get?_mapVals]
    cases hs : a.states.get? key with
    | none => exact ⟨rfl, .inl rfl⟩
    | some s =>
      refine ⟨rfl, ?_⟩
      by_cases hm : s.mode = .passive6
      · exact .inr ⟨s, rfl, hm, by simp [PeerState.fence, discard, hm]⟩
      · exact .inl (by simp [PeerState.fence, discard, hm])

theorem cleanup_probing (ha : a.Probing) (removeState removeServer : Text → Bool) :
    (a.cleanup removeState removeServer).Probing := by
  by_cases h : a.interfaceName = []
  · rw [cleanup, if_pos h]
    exact ha
  · intro key s hs hr
    rw [states_cleanup h, Dict.get?_mapVals] at hs
    obtain ⟨u, _, rfl⟩ := Option.map_eq_some_iff.mp hs
    cases hr

/-- A turn of `fallbackStaleDirects` discards a state or leaves it. -/
theorem fallbackOne_states (locals : Dict Text LocalPeer) (now : ℕ) (remove : Text → Bool) (a : App)
    (server : Text × Text) : (fallbackOne locals now remove a server).states = a.states ∨
      ∃ s, s.workerRunning = false ∧ s.mode = .idle ∧
        (fallbackOne locals now remove a server).states = a.states.set server.1 s := by
  unfold fallbackOne
  split
  · dsimp only
    split
    · rename_i s _
      exact .inr ⟨lapse s, rfl, rfl, by simp⟩
    · exact .inl (states_wgSet ..)
  · exact .inl rfl

/-- What each turn of `fallbackStaleDirects` keeps, the whole keeps. -/
theorem fallbackStaleDirects_rule {I : App → Prop} (clock : ℕ) (dump : Bool) (remove : Text → Bool)
    (hstep : ∀ locals a server, I a → I (fallbackOne locals (unix clock) remove a server)) (ha : I a) :
    I (a.fallbackStaleDirects clock dump remove) := by
  unfold fallbackStaleDirects
  split
  · exact ha
  · exact List.foldlRecOn _ _ ha fun b hb server _ => hstep _ b server hb

theorem fallbackStaleDirects_quiet (clock : ℕ) (dump : Bool) (remove : Text → Bool) :
    a.Quiet (a.fallbackStaleDirects clock dump remove) := by
  refine fallbackStaleDirects_rule (I := a.Quiet) clock dump remove (fun locals b server hb => ?_)
    (.refl a)
  rcases fallbackOne_states locals (unix clock) remove b server with h | ⟨s, hr, hm, h⟩
  · exact hb.trans (.of_states h)
  · refine hb.trans fun key => ?_
    rw [fence_congr (h.trans (states_setState b server.1 s).symm),
      object_congr (h.trans (states_setState b server.1 s).symm)]
    exact Quiet.setState rfl (.inl (PeerState.fence_none hr (by simp [hm]))) key

theorem fallbackStaleDirects_probing (ha : a.Probing) (clock : ℕ) (dump : Bool) (remove : Text → Bool) :
    (a.fallbackStaleDirects clock dump remove).Probing := by
  refine fallbackStaleDirects_rule clock dump remove (fun locals b server hb => ?_) ha
  rcases fallbackOne_states locals (unix clock) remove b server with h | ⟨s, hr, _, h⟩
  · exact hb.congr h
  · exact (hb.setState (s := s) fun h => by simp [hr] at h).congr h

theorem drop_quiet (locals : Dict Text LocalPeer) (key : Text) (remove : Bool) :
    a.Quiet (a.drop locals key remove) := by
  intro j
  have hstates : (a.drop locals key remove).states = a.states.erase key := by
    unfold drop
    split <;> simp
  rw [fence, fence, object, object, hstates, Dict.get?_erase]
  by_cases hj : j = key
  · exact .inl (by simp [hj])
  · exact .inr (by simp [hj])

theorem drop_probing (ha : a.Probing) (locals : Dict Text LocalPeer) (key : Text) (remove : Bool) :
    (a.drop locals key remove).Probing := by
  intro j s hj
  have hstates : (a.drop locals key remove).states = a.states.erase key := by
    unfold drop
    split <;> simp
  rw [hstates, Dict.get?_erase] at hj
  split at hj
  · cases hj
  · exact ha j s hj

theorem onPeer_states {a b : App} {key : Text} {f : WgPeer → WgPeer} (h : a.onPeer key f = some b) :
    b.states = a.states := by
  obtain ⟨p, _, rfl⟩ := Option.map_eq_some_iff.mp h
  rfl

end App

/-! ### Steps of the machine -/

/-- The goroutines, with the one that is about to be started. -/
def World.live (w : World) : List Goroutine := w.goroutines ++ w.main.pending

/-- Same goroutine, possibly further on. -/
structure Goroutine.Follows (g h : Goroutine) : Prop where
  key : h.key = g.key
  generation : h.generation = g.generation
  object : h.object = g.object

theorem Goroutine.Follows.refl (g : Goroutine) : g.Follows g := ⟨rfl, rfl, rfl⟩

theorem Goroutine.follows_after (g : Goroutine) (a : App) (pc : Pc) : g.Follows (g.after a pc) :=
  ⟨rfl, rfl, rfl⟩

/-- Every goroutine is one that was there, of the same kind or finished. -/
def Persist (l l' : List Goroutine) : Prop := ∀ (i : ℕ) (h : Goroutine), l'[i]? = some h →
  ∃ g : Goroutine, l[i]? = some g ∧ g.Follows h ∧ (h.pc.kind = g.pc.kind ∨ h.pc = .finished)

theorem Persist.refl (l : List Goroutine) : Persist l l := fun _ h hi => ⟨h, hi, .refl h, .inl rfl⟩

theorem Persist.set {l r : List Goroutine} {i : ℕ} {g h : Goroutine} (hi : l[i]? = some g)
    (hf : g.Follows h) (hk : h.pc.kind = g.pc.kind ∨ h.pc = .finished) :
    Persist (l ++ r) (l.set i h ++ r) := by
  have hlt : i < l.length := (List.getElem?_eq_some_iff.mp hi).1
  intro j u hj
  by_cases hjl : j < l.length
  · rw [List.getElem?_append_left (by simpa using hjl), List.getElem?_set] at hj
    rw [List.getElem?_append_left hjl]
    by_cases hij : i = j
    · subst hij
      rw [if_pos rfl, if_pos hlt, Option.some.injEq] at hj
      exact ⟨g, hi, hj ▸ hf, hj ▸ hk⟩
    · rw [if_neg hij] at hj
      exact ⟨u, hj, .refl u, .inl rfl⟩
  · rw [List.getElem?_append_right (by simpa using hjl), List.length_set] at hj
    refine ⟨u, ?_, .refl u, .inl rfl⟩
    rw [List.getElem?_append_right (by omega)]
    exact hj

/-- What a step does to the fences and the goroutines. -/
inductive Shifted (w : World) (l : Label) (w' : World) : Prop
  | quiet (hq : w.app.Quiet w'.app) (hl : Persist w.live w'.live)
  | started (s : Sync) (p : ApiPeer) (rest : List ApiPeer) (target : Text × List Candidate)
      (calls : VisitCalls) (g : Goroutine) (hlabel : l = .proceed calls)
      (hmain : w.main = .visiting s (p :: rest)) (htarget : s.target p = some target)
      (hrun : ((s.visit p target calls).run w.app).2 = some g.generation)
      (hkey : g.key = p.key) (hpc : g.pc = .start) (hl : w'.live = w.live ++ [g])
      (hs : Starting g.key g.generation g.object w.app w'.app)
  | armed (i : ℕ) (g h : Goroutine) (calls : GoCalls) (hlabel : l = .run i calls)
      (hi : w.goroutines[i]? = some g) (hpc : g.pc = .next []) (harms : g.arms calls = true)
      (hl : w'.live = w.live.set i h) (hf : g.Follows h) (hpc' : h.pc = .watchPassiveIPv6)
      (ha : Arming g w.app w'.app)
  | cleaned (removeState removeServer : Text → Bool) (hlabel : l = .cleanup removeState removeServer)
      (hl : w'.live = w.live)
      (hf : ∀ key, w'.app.fence key = none ∨ ∃ s, w.app.states.get? key = some s ∧
        s.mode = .passive6 ∧ w'.app.fence key = some (s.generation + 1, .watching))

theorem World.live_eq {w : World} (h : w.main.pending = []) : w.live = w.goroutines := by
  rw [live, h, List.append_nil]

theorem World.live_of_goroutines {w w' : World} (hg : w'.goroutines = w.goroutines)
    (hm : w'.main.pending = w.main.pending) : w'.live = w.live := by rw [live, live, hg, hm]

theorem Shifted.kept {w w' : World} {l : Label} (hq : w.app.Quiet w'.app) (hl : w'.live = w.live) :
    Shifted w l w' := .quiet hq (hl ▸ .refl _)

theorem Shifted.same {w w' : World} {l : Label} (hs : w'.app.states = w.app.states)
    (hl : w'.live = w.live) : Shifted w l w' := .kept (.of_states hs) hl

section Step
variable {w w' : World} {l : Label}

theorem shifted_run {i : ℕ} {g : Goroutine} (hp : w.app.Probing) (hi : w.goroutines[i]? = some g)
    (hne : g.pc ≠ .finished) (calls : GoCalls) : Shifted w (.run i calls) (w.run i g calls) := by
  have hfollow := g.follows_after w.app (g.step w.app w.clock calls).2
  rcases (Goroutine.ran (a := w.app) hne).fences hp with
    ⟨hq, hk⟩ | ⟨hpc, harms, hpc', ha⟩
  · exact .quiet hq (.set hi hfollow hk)
  · refine .armed i g _ calls rfl hi hpc harms ?_ hfollow hpc' ha
    rw [World.live, World.live, List.set_append, if_pos (List.getElem?_eq_some_iff.mp hi).1]
    rfl

/-- What a step does to the fences and the goroutines. -/
theorem shifted (hp : w.app.Probing) (hs : machine.step w l = some w') : Shifted w l w' := by
  have hmain {m : Main} (h : w.main = m) (hm : m.pending = []) : [] = w.main.pending := by rw [h, hm]
  cases stepped hs with
  | tick => exact .same rfl rfl
  | handshake key endpoint a _ ha => exact .same (App.onPeer_states ha) rfl
  | roam key endpoint a ha => exact .same (App.onPeer_states ha) rfl
  | interfaceFound name device h => exact .same rfl (World.live_of_goroutines rfl (hmain h rfl))
  | interfaceLost h => exact .same rfl (World.live_of_goroutines rfl (hmain h rfl))
  | refused => exact .same rfl rfl
  | dumped peers ownKey ourLAN dump s h =>
    exact .same rfl (World.live_of_goroutines rfl (hmain h rfl))
  | reset calls h =>
    refine .kept (.of_empty rfl) (World.live_of_goroutines rfl ?_)
    exact h.elim (fun h => hmain h rfl) fun h => hmain h rfl
  | entered calls s peers h => exact .same rfl (World.live_of_goroutines rfl (hmain h rfl))
  | tracked calls s peers h => exact .same rfl (World.live_of_goroutines rfl (hmain h rfl))
  | passed calls s p rest h => exact .same rfl (World.live_of_goroutines rfl (hmain h rfl))
  | visited calls s p rest target main h htarget hnext =>
    rcases (s.visit p target calls).run_fences w.app with ⟨hn, hq⟩ | ⟨g, hg, hst⟩
    · rw [hn] at hnext
      subst hnext
      exact .kept hq (World.live_of_goroutines rfl (hmain h rfl))
    · rw [hg] at hnext
      subst hnext
      refine .started s p rest target calls (World.probe (s.visit p target calls)
        ((s.visit p target calls).state w.app).object g) rfl h htarget hg rfl rfl ?_ hst
      rw [World.live, World.live_eq (hmain h rfl).symm]
      rfl
  | swept calls s h => exact .same rfl (World.live_of_goroutines rfl (hmain h rfl))
  | launched calls s rest g h => exact .same rfl (by simp [World.live, h, Main.pending])
  | returned calls s h => exact .same rfl (World.live_of_goroutines rfl (hmain h rfl))
  | dropped s keys key remove h =>
    exact .kept (App.drop_quiet _ _ _) (World.live_of_goroutines rfl (hmain h rfl))
  | fallback => exact .kept (App.fallbackStaleDirects_quiet _ _ _) rfl
  | cleanup removeState removeServer main h =>
    have hpend : main.pending = w.main.pending := by
      rcases h with ⟨h, rfl⟩ | ⟨h, rfl⟩ <;> exact hmain h rfl
    by_cases hsame : w.app.cleanup removeState removeServer = w.app
    · exact .same (by rw [hsame]) (World.live_of_goroutines rfl hpend)
    · refine .cleaned _ _ rfl (World.live_of_goroutines rfl hpend) fun key => ?_
      exact ((App.fence_cleanup removeState removeServer key).resolve_left hsame).2
  | ran i g calls hi hne => exact shifted_run hp hi hne calls

theorem probing_step (hp : w.app.Probing) (hs : machine.step w l = some w') : w'.app.Probing := by
  cases stepped hs with
  | handshake key endpoint a _ ha => exact hp.congr (App.onPeer_states ha)
  | roam key endpoint a ha => exact hp.congr (App.onPeer_states ha)
  | reset => exact fun key s hk => by cases hk
  | visited calls s p rest target => exact (s.visit p target calls).run_probing hp
  | dropped s keys key remove => exact App.drop_probing hp _ _ _
  | fallback => exact App.fallbackStaleDirects_probing hp _ _ _
  | cleanup => exact App.cleanup_probing hp _ _
  | ran i g calls hi hne => exact (Goroutine.ran hne).probing hp
  | _ => exact hp

end Step

/-! ### One owner, of the same incarnation -/

/-- No goroutine carries this generation of the key as this kind of goroutine. -/
def Unclaimed (w : World) (key : Text) (generation : ℕ) (kind : Kind) : Prop :=
  ∀ h ∈ w.live, h.key = key → h.generation = generation → h.pc.kind ≠ some kind

instance (w : World) (key : Text) (generation : ℕ) (kind : Kind) :
    Decidable (Unclaimed w key generation kind) := inferInstanceAs (Decidable (∀ h ∈ w.live, _))

/-- The key and the generation of the probe that the next step of the main loop decides to start. -/
def World.launches (w : World) (calls : VisitCalls) : Option (Text × ℕ) :=
  match w.main with
  | .visiting s (p :: _) =>
    (s.target p).bind fun target => ((s.visit p target calls).run w.app).2.map (Prod.mk p.key)
  | _ => none

/-- The key and the generation of the watcher that the next step of a goroutine arms. -/
def World.arms (w : World) (i : ℕ) (calls : GoCalls) : Option (Text × ℕ) :=
  (w.goroutines[i]?.filter fun g => decide (g.pc = .next []) && g.owns w.app && g.arms calls).map
    fun g => (g.key, g.generation)

/-- A generation that goes into force is carried by no goroutine: where a probe is started, where a
    failed probe arms its watcher, and where `cleanup` renews a state that listens. -/
def Unambiguous (w : World) : Label → Prop
  | .proceed calls => ∀ launch ∈ w.launches calls, Unclaimed w launch.1 launch.2 .probing
  | .run i calls => ∀ watch ∈ w.arms i calls, Unclaimed w watch.1 watch.2 .watching
  | .cleanup _ _ => ∀ e ∈ w.app.states.entries, e.2.mode = .passive6 →
      Unclaimed w e.1 (e.2.generation + 1) .watching
  | _ => True

instance (w : World) : (l : Label) → Decidable (Unambiguous w l)
  | .proceed calls => inferInstanceAs (Decidable (∀ launch ∈ w.launches calls, _))
  | .run i calls => inferInstanceAs (Decidable (∀ watch ∈ w.arms i calls, _))
  | .cleanup _ _ => inferInstanceAs (Decidable (∀ e ∈ w.app.states.entries, _))
  | .tick _ | .handshake _ _ | .roam _ _ | .interfaceFound _ _ | .interfaceLost
  | .reconcilePeers _ _ _ _ | .drop _ _ | .fallbackStaleDirects _ _ => inferInstanceAs (Decidable True)

/-- A goroutine that owns a state was started for it and is the only one. -/
def SoleOwner (w : World) : Prop := ∀ (i : ℕ) (g : Goroutine), w.live[i]? = some g →
  g.owns w.app = true → w.app.object g.key = some g.object ∧
    ∀ (j : ℕ) (h : Goroutine), w.live[j]? = some h → h.key = g.key → h.owns w.app = true → j = i

section Owner
variable {w w' : World} {l : Label}

theorem Unclaimed.not_owns {key : Text} {generation : ℕ} {kind : Kind} {a : App}
    (hu : Unclaimed w key generation kind) (hf : a.fence key = some (generation, kind)) {i : ℕ}
    {h : Goroutine} (hi : w.live[i]? = some h) (hk : h.key = key) : h.owns a = false := by
  by_contra ho
  obtain ⟨k, hkind, hfence⟩ := Goroutine.owns_iff.mp (by simpa using ho)
  rw [hk, hf, Option.some.injEq, Prod.mk.injEq] at hfence
  exact hu h (List.mem_of_getElem? hi) hk hfence.1.symm (hkind.trans (by rw [hfence.2]))

theorem Goroutine.owns_congr {g : Goroutine} {a b : App} (h : b.fence g.key = a.fence g.key) :
    g.owns b = g.owns a := by
  rw [Bool.eq_iff_iff, Goroutine.owns_iff, Goroutine.owns_iff, h]

/-- An owner after a step that leaves the fences was an owner before. -/
theorem Persist.owner {a b : App} {l l' : List Goroutine} (hl : Persist l l') (hq : a.Quiet b) {i : ℕ}
    {h : Goroutine} (hi : l'[i]? = some h) (ho : h.owns b = true) :
    ∃ g, l[i]? = some g ∧ g.Follows h ∧ g.owns a = true ∧ b.object h.key = a.object h.key := by
  obtain ⟨g, hg, hf, hk⟩ := hl i h hi
  obtain ⟨kind, hkind, hfence⟩ := Goroutine.owns_iff.mp ho
  have hpc : h.pc ≠ .finished := fun he => by simp [he, Pc.kind] at hkind
  rcases hq h.key with hn | ⟨hf', ho'⟩
  · rw [hn] at hfence
    cases hfence
  · refine ⟨g, hg, hf, Goroutine.owns_iff.mpr ⟨kind, ?_, ?_⟩, ho'⟩
    · rw [← hk.resolve_right hpc, hkind]
    · rw [← hf.key, ← hf.generation, ← hf', hfence]

theorem SoleOwner.quiet (h : SoleOwner w) (hq : w.app.Quiet w'.app) (hl : Persist w.live w'.live) :
    SoleOwner w' := by
  intro i u hi ho
  obtain ⟨g, hg, hf, hog, hobj⟩ := hl.owner hq hi ho
  obtain ⟨hobject, honly⟩ := h i g hg hog
  refine ⟨by rw [hobj, hf.key, hobject, hf.object], fun j v hj hk hov => ?_⟩
  obtain ⟨g', hg', hf', hog', _⟩ := hl.owner hq hj hov
  exact honly j g' hg' (hf'.key.symm.trans (hk.trans hf.key)) hog'

theorem SoleOwner.started {g : Goroutine} (h : SoleOwner w)
    (hu : Unclaimed w g.key g.generation .probing) (hl : w'.live = w.live ++ [g])
    (hs : Starting g.key g.generation g.object w.app w'.app) : SoleOwner w' := by
  -- the owners of other keys are the old ones, the owner of this key is the new goroutine
  have hcase {i : ℕ} {u : Goroutine} (hi : w'.live[i]? = some u) (ho : u.owns w'.app = true) :
      u = g ∧ i = w.live.length ∨
        u.key ≠ g.key ∧ w.live[i]? = some u ∧ u.owns w.app = true := by
    rw [hl] at hi
    by_cases hlt : i < w.live.length
    · rw [List.getElem?_append_left hlt] at hi
      by_cases hk : u.key = g.key
      · rw [hu.not_owns hs.after hi hk] at ho
        cases ho
      · exact .inr ⟨hk, hi, by rw [← Goroutine.owns_congr (hs.others _ hk).1, ho]⟩
    · rw [List.getElem?_append_right (by omega), List.getElem?_singleton] at hi
      split at hi
      · exact .inl ⟨(Option.some.inj hi).symm, by omega⟩
      · cases hi
  intro i u hi ho
  rcases hcase hi ho with ⟨rfl, hlen⟩ | ⟨hk, hi, ho⟩
  · refine ⟨hs.object, fun j v hj hkv hov => ?_⟩
    rcases hcase hj hov with ⟨_, hj⟩ | ⟨hkv', _⟩
    · exact hj.trans hlen.symm
    · exact absurd hkv hkv'
  · obtain ⟨hobject, honly⟩ := h i u hi ho
    refine ⟨by rw [(hs.others _ hk).2, hobject], fun j v hj hkv hov => ?_⟩
    rcases hcase hj hov with ⟨rfl, _⟩ | ⟨_, hj, hov⟩
    · exact absurd hkv.symm hk
    · exact honly j v hj hkv hov

theorem SoleOwner.armed {i : ℕ} {g u : Goroutine} (h : SoleOwner w) (hi : w.live[i]? = some g)
    (hpc : g.pc = .next []) (hu : Unclaimed w g.key g.generation .watching)
    (hl : w'.live = w.live.set i u) (hf : g.Follows u) (ha : Arming g w.app w'.app) :
    SoleOwner w' := by
  have hog : g.owns w.app = true :=
    Goroutine.owns_iff.mpr ⟨.probing, by rw [hpc]; rfl, ha.before⟩
  have hcase {j : ℕ} {v : Goroutine} (hj : w'.live[j]? = some v) (ho : v.owns w'.app = true) :
      v = u ∧ j = i ∨ v.key ≠ g.key ∧ w.live[j]? = some v ∧ v.owns w.app = true := by
    rw [hl, List.getElem?_set] at hj
    by_cases hij : i = j
    · subst hij
      rw [if_pos rfl] at hj
      split at hj
      · exact .inl ⟨(Option.some.inj hj).symm, rfl⟩
      · cases hj
    · rw [if_neg hij] at hj
      by_cases hk : v.key = g.key
      · rw [hu.not_owns ha.after hj hk] at ho
        cases ho
      · exact .inr ⟨hk, hj, by rw [← Goroutine.owns_congr (ha.others _ hk).1, ho]⟩
  intro j v hj ho
  rcases hcase hj ho with ⟨rfl, rfl⟩ | ⟨hk, hj, ho⟩
  · refine ⟨?_, fun j v hj hkv hov => ?_⟩
    · rw [hf.key, hf.object, ha.object, (h _ g hi hog).1]
    · rcases hcase hj hov with ⟨_, hj⟩ | ⟨hkv', _⟩
      · exact hj
      · exact absurd (hkv.trans hf.key) hkv'
  · obtain ⟨hobject, honly⟩ := h j v hj ho
    refine ⟨by rw [(ha.others _ hk).2, hobject], fun m x hm hkx hox => ?_⟩
    rcases hcase hm hox with ⟨rfl, _⟩ | ⟨_, hm, hox⟩
    · exact absurd (hkx.symm.trans hf.key) hk
    · exact honly m x hm hkx hox

theorem World.live_getElem? {i : ℕ} {g : Goroutine} (hi : w.goroutines[i]? = some g) :
    w.live[i]? = some g := by
  rw [World.live, List.getElem?_append_left (List.getElem?_eq_some_iff.mp hi).1, hi]

theorem SoleOwner.step (hp : w.app.Probing) (h : SoleOwner w) (hok : Unambiguous w l)
    (hs : machine.step w l = some w') : SoleOwner w' := by
  rcases shifted hp hs with ⟨hq, hl⟩ | ⟨s, p, rest, target, calls, g, rfl, hmain, htarget, hrun, hkey, _,
    hl, hst⟩ | ⟨i, g, u, calls, rfl, hi, hpc, harms, hl, hf, _, ha⟩ | ⟨_, _, rfl, hl, hf⟩
  · exact h.quiet hq hl
  · have hlaunch : w.launches calls = some (p.key, g.generation) := by
      simp only [World.launches, hmain, htarget, Option.bind_some, hrun, Option.map_some]
    exact h.started (hkey ▸ hok _ hlaunch) hl hst
  · have hog : g.owns w.app = true :=
      Goroutine.owns_iff.mpr ⟨.probing, by rw [hpc]; rfl, ha.before⟩
    have harm : w.arms i calls = some (g.key, g.generation) := by
      simp [World.arms, hi, Option.filter, hpc, hog, harms]
    exact h.armed (World.live_getElem? hi) hpc (hok _ harm) hl hf ha
  · -- nobody owns a state that `cleanup` has discarded
    intro i u hi ho
    rw [hl] at hi
    rcases hf u.key with hn | ⟨s, hs, hm, hf⟩
    · obtain ⟨_, _, hfence⟩ := Goroutine.owns_iff.mp ho
      rw [hn] at hfence
      cases hfence
    · rw [(hok _ (Dict.mem_of_get? hs) hm).not_owns hf hi rfl] at ho
      cases ho

end Owner

/-- The client before its first look at the coordinator, on a device that it has not configured. -/
structure Initial (w : World) : Prop where
  states : w.app.states = .empty
  serverKeys : w.app.serverKeys = .empty
  goroutines : w.goroutines = []
  main : w.main = .idle
  device : ∀ key p, w.app.device.get? key = some p → p.ours = false ∧ p.awaiting = false

theorem Initial.probing {w : World} (h : Initial w) : w.app.Probing := fun key s hs => by
  rw [h.states] at hs
  cases hs

theorem Initial.live {w : World} (h : Initial w) : w.live = [] := by
  rw [World.live, h.goroutines, h.main]
  rfl

theorem initial_start : Initial World.start := ⟨rfl, rfl, rfl, rfl, fun _ _ h => by cases h⟩

/-- The server is found and its probe is under way. -/
def probeRun : List Label :=
  joins "wg0" ++ visits (serverPeer 1000 []) ++ [.proceed ⟨true, true⟩] ++ runs 5

/-- The interface changes while the probe is under way, and the new state is probed too. -/
def switchRun : List Label :=
  probeRun ++ List.replicate 2 (.proceed ⟨true, true⟩) ++ joins "wg1" ++ visits (serverPeer 1000 []) ++
    [.proceed ⟨true, true⟩]

end Client
