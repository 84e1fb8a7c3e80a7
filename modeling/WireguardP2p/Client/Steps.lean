import WireguardP2p.Client.World

/-! What the steps of the client do to the ownership of a state. A state is owned by the probe of its
    generation while its worker mark is set, and by the watcher of its generation while it listens
    passively without a worker: this is the fence of the state. Most steps leave a fence or take it
    down; it goes up where an iteration of `reconcilePeers` starts a probe, where a failed probe arms its
    watcher, and where `cleanup` renews the generation of a state that listens. -/

namespace Client
open Ipaddress Python Net Candidates

inductive Kind
  | probing
  | watching
  deriving DecidableEq

/-- What a goroutine at this place is; `none` has finished. -/
def Pc.kind : Pc → Option Kind
  | watchPassiveIPv6 | watch _ | listen _ | learn _ | adopt _ => some .watching
  | finished => none
  | _ => some .probing

/-- The generation and the kind of the goroutine that owns the state. -/
def PeerState.fence (s : PeerState) : Option (ℕ × Kind) :=
  if s.workerRunning then some (s.generation, .probing)
  else if s.mode = .passive6 then some (s.generation, .watching)
  else none

namespace App

def fence (a : App) (key : Text) : Option (ℕ × Kind) := (a.states.get? key).bind PeerState.fence

def object (a : App) (key : Text) : Option ℕ := (a.states.get? key).map PeerState.object

theorem current_iff_fence {a : App} {key : Text} {g : ℕ} :
    a.current key g = true ↔ a.fence key = some (g, .probing) := by
  rw [current_iff, fence, Option.bind_eq_some_iff]
  refine exists_congr fun s => and_congr_right fun _ => ?_
  unfold PeerState.fence
  cases s.workerRunning <;> simp

theorem armed_iff_fence {a : App} {key : Text} {g : ℕ} :
    a.armed key g = true ↔ a.fence key = some (g, .watching) := by
  rw [armed_iff, fence, Option.bind_eq_some_iff]
  refine exists_congr fun s => and_congr_right fun _ => ?_
  unfold PeerState.fence
  cases s.workerRunning <;> simp [and_comm]

theorem fence_setState (a : App) (key : Text) (s : PeerState) (j : Text) :
    (a.setState key s).fence j = if j = key then s.fence else a.fence j := by
  rw [fence, states_setState, Dict.get?_set]
  split <;> rfl

theorem object_setState (a : App) (key : Text) (s : PeerState) (j : Text) :
    (a.setState key s).object j = if j = key then some s.object else a.object j := by
  rw [object, states_setState, Dict.get?_set]
  split <;> rfl

theorem fence_congr {a b : App} (h : b.states = a.states) (key : Text) : b.fence key = a.fence key := by
  rw [fence, fence, h]

theorem object_congr {a b : App} (h : b.states = a.states) (key : Text) :
    b.object key = a.object key := by rw [object, object, h]

/-- A worker mark is set with mode probe, and goes with it. -/
def Probing (a : App) : Prop :=
  ∀ key s, a.states.get? key = some s → s.workerRunning = true → s.mode = .probe

theorem Probing.congr {a b : App} (h : a.Probing) (hs : b.states = a.states) : b.Probing := by
  intro key s hk
  rw [hs] at hk
  exact h key s hk

theorem Probing.setState {a : App} (h : a.Probing) {key : Text} {s : PeerState}
    (hs : s.workerRunning = true → s.mode = .probe) : (a.setState key s).Probing := by
  intro j u hj hu
  rw [states_setState, Dict.get?_set] at hj
  split at hj
  · obtain rfl := Option.some.inj hj
    exact hs hu
  · exact h j u hj hu

/-- Fences stay with their state objects, or are taken down. -/
def Quiet (a b : App) : Prop :=
  ∀ key, b.fence key = none ∨ b.fence key = a.fence key ∧ b.object key = a.object key

theorem Quiet.refl (a : App) : a.Quiet a := fun _ => .inr ⟨rfl, rfl⟩

theorem Quiet.trans {a b c : App} (h : a.Quiet b) (h' : b.Quiet c) : a.Quiet c := by
  intro key
  rcases h' key with hn | ⟨hf, ho⟩
  · exact .inl hn
  · rcases h key with hn | ⟨hf', ho'⟩
    · exact .inl (hf.trans hn)
    · exact .inr ⟨hf.trans hf', ho.trans ho'⟩

theorem Quiet.of_states {a b : App} (h : b.states = a.states) : a.Quiet b :=
  fun key => .inr ⟨fence_congr h key, object_congr h key⟩

theorem Quiet.of_empty {a b : App} (h : b.states = .empty) : a.Quiet b := by
  intro key
  rw [fence, h]
  exact .inl rfl

theorem Quiet.setState {a b : App} (hs : b.states = a.states) {key : Text} {s : PeerState}
    (h : s.fence = none ∨ s.fence = a.fence key ∧ some s.object = a.object key) :
    a.Quiet (b.setState key s) := by
  intro j
  rw [fence_setState, object_setState]
  by_cases hj : j = key
  · rw [if_pos hj, if_pos hj, hj]
    exact h
  · rw [if_neg hj, if_neg hj]
    exact .inr ⟨fence_congr hs j, object_congr hs j⟩

end App

theorem PeerState.fence_none {s : PeerState} (hr : s.workerRunning = false) (hm : s.mode ≠ .passive6) :
    s.fence = none := by simp [fence, hr, hm]

theorem PeerState.fence_congr {s u : PeerState} (hr : u.workerRunning = s.workerRunning)
    (hm : u.mode = s.mode) (hg : u.generation = s.generation) : u.fence = s.fence := by
  rw [fence, fence, hr, hm, hg]

theorem App.fence_of_get? {a : App} {key : Text} {s : PeerState} (h : a.states.get? key = some s) :
    a.fence key = s.fence := by rw [App.fence, h, Option.bind_some]

theorem App.object_of_get? {a : App} {key : Text} {s : PeerState} (h : a.states.get? key = some s) :
    a.object key = some s.object := by rw [App.object, h, Option.map_some]

/-! ### Goroutines -/

/-- The ownership check that a goroutine makes where it is. -/
def Goroutine.owns (g : Goroutine) (a : App) : Bool :=
  match g.pc.kind with
  | some .probing => a.current g.key g.generation
  | some .watching => a.armed g.key g.generation
  | none => false

theorem Goroutine.owns_iff {g : Goroutine} {a : App} : g.owns a = true ↔
    ∃ k, g.pc.kind = some k ∧ a.fence g.key = some (g.generation, k) := by
  unfold Goroutine.owns
  cases hk : g.pc.kind with
  | none => simp
  | some k => cases k <;> simp [App.current_iff_fence, App.armed_iff_fence]

/-- What the step of a goroutine can do. -/
inductive Ran (g : Goroutine) (a : App) (clock : ℕ) (calls : GoCalls) : App → Pc → Prop
  /-- It goes on. -/
  | moved {pc : Pc} (hkind : pc.kind = g.pc.kind) : Ran g a clock calls a pc
  /-- A failed check, the end of a watcher's window, or a watcher whose command fails. -/
  | left (h : g.owns a = false ∧ g.pc ≠ .cancel ∨ g.pc.kind = some .watching) :
      Ran g a clock calls a .finished
  | cancelled (hpc : g.pc = .cancel) : Ran g a clock calls (g.finishProbeCancelled a) .finished
  | configured (t : Attempt) (s : PeerState) (hpc : g.pc = .configure t)
      (hs : a.states.get? g.key = some s) (hown : a.current g.key g.generation = true)
      (hok : a.accepts calls.set = true) :
      Ran g a clock calls (g.configure a clock calls t s).1 (.aim t)
  | failed (s : PeerState) (hpc : g.pc = .next []) (hs : a.states.get? g.key = some s)
      (hown : a.current g.key g.generation = true) :
      Ran g a clock calls (g.fail a clock calls s).1 (g.fail a clock calls s).2
  | promoted (t : Attempt) (endpoint : Text) (type : CandidateType) (s : PeerState)
      (hpc : g.pc = .promote t endpoint type) (hs : a.states.get? g.key = some s)
      (hown : a.current g.key g.generation = true) (hok : a.accepts calls.set = true) :
      Ran g a clock calls (g.promote a calls endpoint type s).1 .finished
  /-- The route of a probe is refused. -/
  | refused (t : Attempt) (endpoint : Text) (type : CandidateType) (hpc : g.pc = .promote t endpoint type)
      (hown : a.current g.key g.generation = true) (hok : a.accepts calls.set = false) :
      Ran g a clock calls a .finished
  | adopted (endpoint : Text) (s : PeerState) (hpc : g.pc = .adopt endpoint)
      (hs : a.states.get? g.key = some s) (hown : a.armed g.key g.generation = true)
      (hok : a.accepts calls.set = true) :
      Ran g a clock calls (g.adopt a calls endpoint s).1 .finished

namespace Goroutine
variable {g : Goroutine} {a : App} {clock : ℕ} {calls : GoCalls}

/-- A section under the ownership check: left at once, or entered with the state it owns. -/
theorem own_cases {key : Text} {gen : ℕ} (hk : g.key = key) (hg : g.generation = gen)
    (f : PeerState → App × Pc) :
    (a.current key gen = false ∧ g.own a (a.current key gen) f = (a, .finished)) ∨
      ∃ s, a.states.get? g.key = some s ∧ a.current key gen = true ∧
        g.own a (a.current key gen) f = f s := by
  subst hk hg
  unfold own
  by_cases h : a.current g.key g.generation = true
  · obtain ⟨s, hs, _⟩ := App.current_iff.mp h
    exact .inr ⟨s, hs, h, by rw [hs]; simp only [h, if_true]⟩
  · have h' : a.current g.key g.generation = false := by simpa using h
    refine .inl ⟨h', ?_⟩
    cases a.states.get? g.key <;> simp [h']

theorem own_armed_cases (f : PeerState → App × Pc) :
    g.own a (a.armed g.key g.generation) f = (a, .finished) ∨
      ∃ s, a.states.get? g.key = some s ∧ a.armed g.key g.generation = true ∧
        g.own a (a.armed g.key g.generation) f = f s := by
  unfold own
  by_cases h : a.armed g.key g.generation = true
  · obtain ⟨s, hs, _⟩ := App.armed_iff.mp h
    exact .inr ⟨s, hs, h, by rw [hs]; simp only [h, if_true]⟩
  · have h' : a.armed g.key g.generation = false := by simpa using h
    refine .inl ?_
    cases a.states.get? g.key <;> simp [h']

theorem not_owns {k : Pc} (hpc : g.pc = k) (hkind : k.kind = some .probing)
    (h : a.current g.key g.generation = false) (hne : k ≠ .cancel) :
    g.owns a = false ∧ g.pc ≠ .cancel := by
  refine ⟨?_, hpc ▸ hne⟩
  rw [owns, hpc, hkind]
  exact h

/-- What the step of a goroutine can do. -/
theorem ran (hne : g.pc ≠ .finished) : Ran g a clock calls (g.step a clock calls).1
    (g.step a clock calls).2 := by
  unfold step
  cases hpc : g.pc with
  | start =>
    rcases g.probeSnapshot a with _ | _ | ⟨_, _⟩ <;> exact .moved (by rw [hpc]; rfl)
  | cancel => exact .cancelled hpc
  | next rest =>
    cases rest with
    | nil =>
      rcases own_cases (g := g) (a := a) rfl rfl (g.fail a clock calls) with ⟨h, he⟩ | ⟨s, hs, h, he⟩
      · simp only [he]
        exact .left (.inl (not_owns hpc rfl h nofun))
      · simp only [he]
        exact .failed s hpc hs h
    | cons c rest =>
      by_cases h : a.current g.key g.generation = true
      · simp only [h, if_true]
        exact .moved (by rw [hpc]; rfl)
      · simp only [h]
        exact .left (.inl (not_owns hpc rfl (by simpa using h) nofun))
  | baseline c rest => exact .moved (by rw [hpc]; rfl)
  | configure t =>
    rcases own_cases (g := g) (a := a) rfl rfl (g.configure a clock calls t) with
      ⟨h, he⟩ | ⟨s, hs, h, he⟩
    · simp only [he]
      exact .left (.inl (not_owns hpc rfl h nofun))
    · simp only [he]
      by_cases hok : a.accepts calls.set = true
      · rw [show (g.configure a clock calls t s).2 = .aim t by rw [configure, if_pos hok]]
        exact .configured t s hpc hs h hok
      · rw [configure, if_neg hok]
        exact .moved (by rw [hpc]; rfl)
  | aim t => exact .moved (by rw [hpc]; rfl)
  | poll t deadline =>
    by_cases h : clock < deadline
    · simp only [h, if_true]
      exact .moved (by rw [hpc]; rfl)
    · simp only [h, if_false]
      exact .moved (by rw [hpc]; rfl)
  | wake t deadline =>
    by_cases h : a.current g.key g.generation = true
    · simp only [h, if_true]
      exact .moved (by rw [hpc]; rfl)
    · simp only [h]
      exact .left (.inl (not_owns hpc rfl (by simpa using h) nofun))
  | look t deadline =>
    cases a.localPeer calls.dump g.key with
    | none => exact .moved (by rw [hpc]; rfl)
    | some p =>
      by_cases h : t.baseline < p.latestHandshake
      · simp only [h, if_true]
        exact .moved (by rw [hpc]; rfl)
      · simp only [h, if_false]
        exact .moved (by rw [hpc]; rfl)
  | promote t endpoint type =>
    rcases own_cases (g := g) (a := a) rfl rfl (g.promote a calls endpoint type) with
      ⟨h, he⟩ | ⟨s, hs, h, he⟩
    · simp only [he]
      exact .left (.inl (not_owns hpc rfl h nofun))
    · simp only [he]
      by_cases hok : a.accepts calls.set = true
      · rw [show (g.promote a calls endpoint type s).2 = .finished by rw [promote, if_pos hok]]
        exact .promoted t endpoint type s hpc hs h hok
      · rw [promote, if_neg hok]
        exact .refused t endpoint type hpc h (by simpa using hok)
  | watchPassiveIPv6 => exact .moved (by rw [hpc]; rfl)
  | watch deadline =>
    by_cases h : clock < deadline
    · simp only [h, if_true]
      exact .moved (by rw [hpc]; rfl)
    · simp only [h, if_false]
      exact .left (.inr (by rw [hpc]; rfl))
  | listen deadline =>
    by_cases h : a.armed g.key g.generation = true
    · simp only [h, if_true]
      exact .moved (by rw [hpc]; rfl)
    · simp only [h]
      exact .left (.inr (by rw [hpc]; rfl))
  | learn deadline =>
    cases a.localPeer calls.dump g.key with
    | none => exact .moved (by rw [hpc]; rfl)
    | some p =>
      by_cases h : passiveObserved6Ready p (unix clock) = true
      · simp only [h, if_true]
        exact .moved (by rw [hpc]; rfl)
      · simp only [h]
        exact .moved (by rw [hpc]; rfl)
  | adopt endpoint =>
    rcases own_armed_cases (g := g) (a := a) (g.adopt a calls endpoint) with he | ⟨s, hs, h, he⟩
    · simp only [he]
      exact .left (.inr (by rw [hpc]; rfl))
    · simp only [he]
      by_cases hok : a.accepts calls.set = true
      · rw [show (g.adopt a calls endpoint s).2 = .finished by rw [adopt, if_pos hok]]
        exact .adopted endpoint s hpc hs h hok
      · rw [adopt, if_neg hok]
        exact .left (.inr (by rw [hpc]; rfl))
  | finished => exact absurd hpc hne

end Goroutine

section Ran
variable {g : Goroutine} {a b : App} {clock : ℕ} {calls : GoCalls} {pc : Pc}

/-- A probe that fails with IPv6 here and no IPv6 candidate there goes on as a watcher. -/
def Goroutine.arms (g : Goroutine) (calls : GoCalls) : Bool :=
  calls.globalIPv6 && !candidateListHasType g.candidates .host6

/-- The states and the place after a probe has failed. -/
theorem Goroutine.fail_eq (s : PeerState) : ∃ (b : App) (s' : PeerState), (g.fail a clock calls s).1 = b.setState g.key s' ∧
    b.states = a.states ∧ s'.workerRunning = false ∧ s'.object = s.object ∧
    if g.arms calls then s'.mode = .passive6 ∧ s'.generation = s.generation ∧
        (g.fail a clock calls s).2 = .watchPassiveIPv6
      else s'.mode = .idle ∧ (g.fail a clock calls s).2 = .finished := by
  unfold Goroutine.fail Goroutine.arms
  cases calls.globalIPv6 && !candidateListHasType g.candidates .host6
  · exact ⟨_, _, rfl, by simp, rfl, rfl, by simp [PeerState.recordProbeFailure]⟩
  · exact ⟨_, _, rfl, by simp, rfl, rfl, by simp [PeerState.recordProbeFailure]⟩

theorem Goroutine.configure_eq {t : Attempt} {s : PeerState} (hok : a.accepts calls.set = true) :
    ∃ s' : PeerState, (g.configure a clock calls t s).1 = (a.wgSet calls.set g.key
      (.endpoint t.candidate.endpoint probeKeepalive)).setState g.key s' ∧ s'.mode = s.mode ∧
      s'.workerRunning = s.workerRunning ∧ s'.generation = s.generation ∧ s'.object = s.object := by
  rw [Goroutine.configure, if_pos hok]
  exact ⟨_, rfl, rfl, rfl, rfl, rfl⟩

theorem Goroutine.promote_eq {endpoint : Text} {type : CandidateType} {s : PeerState}
    (hok : a.accepts calls.set = true) : ∃ s' : PeerState, (g.promote a calls endpoint type s).1 =
      (a.wgSet calls.set g.key (.route (slash32 g.serverIP) endpoint keepalive)).setState g.key s' ∧
      s'.mode = .direct ∧ s'.workerRunning = false ∧ s'.object = s.object := by
  rw [Goroutine.promote, if_pos hok]
  exact ⟨_, rfl, rfl, rfl, rfl⟩

theorem Goroutine.adopt_eq {endpoint : Text} {s : PeerState} (hok : a.accepts calls.set = true) :
    ∃ s' : PeerState, (g.adopt a calls endpoint s).1 =
      (a.wgSet calls.set g.key (.route (slash32 g.serverIP) endpoint keepalive)).setState g.key s' ∧
      s'.mode = .direct ∧ s'.workerRunning = false ∧ s'.object = s.object := by
  rw [Goroutine.adopt, if_pos hok]
  exact ⟨_, rfl, rfl, rfl, rfl⟩

/-- A cancelled probe writes nothing or takes the worker mark off its own generation. -/
theorem Goroutine.finishProbeCancelled_eq :
    (∀ s, a.states.get? g.key = some s → s.generation ≠ g.generation) ∧ g.finishProbeCancelled a = a ∨
    ∃ s s', a.states.get? g.key = some s ∧ g.finishProbeCancelled a = a.setState g.key s' ∧
      s'.workerRunning = false ∧ s'.mode = (if s.mode = .probe then .idle else s.mode) ∧
      s'.generation = s.generation ∧ s'.object = s.object := by
  unfold Goroutine.finishProbeCancelled
  split
  · rename_i s hs
    split
    · exact .inr ⟨s, _, hs, rfl, rfl, rfl, rfl, rfl⟩
    · rename_i hgen
      exact .inl ⟨fun u hu => Option.some.inj (hs.symm.trans hu) ▸ hgen, rfl⟩
  · rename_i hs
    exact .inl ⟨fun s hu => by simp [hs] at hu, rfl⟩

theorem Ran.probing (h : Ran g a clock calls b pc) (ha : a.Probing) : b.Probing := by
  cases h with
  | moved => exact ha
  | left => exact ha
  | cancelled =>
    rcases g.finishProbeCancelled_eq (a := a) with ⟨_, he⟩ | ⟨s, s', _, he, hr, _⟩
    · rw [he]
      exact ha
    · rw [he]
      exact ha.setState fun h => by simp [hr] at h
  | configured t s hpc hs hown hok =>
    obtain ⟨s', he, hm, hr, _, _⟩ := g.configure_eq (t := t) (s := s) hok
    rw [he]
    exact (ha.congr (by simp)).setState fun h => hm.trans (ha _ _ hs (hr ▸ h))
  | failed s =>
    obtain ⟨b, s', he, hb, hr, _⟩ := g.fail_eq (a := a) s
    rw [he]
    exact (ha.congr hb).setState fun h => by simp [hr] at h
  | promoted t endpoint type s hpc hs hown hok =>
    obtain ⟨s', he, _, hr, _⟩ := g.promote_eq (s := s) hok
    rw [he]
    exact (ha.congr (by simp)).setState fun h => by simp [hr] at h
  | refused => exact ha
  | adopted endpoint s hpc hs hown hok =>
    obtain ⟨s', he, _, hr, _⟩ := g.adopt_eq (s := s) hok
    rw [he]
    exact (ha.congr (by simp)).setState fun h => by simp [hr] at h

/-- The fence of a probe that fails and arms its watcher. -/
structure Arming (g : Goroutine) (a b : App) : Prop where
  before : a.fence g.key = some (g.generation, .probing)
  after : b.fence g.key = some (g.generation, .watching)
  object : b.object g.key = a.object g.key
  others : ∀ key, key ≠ g.key → b.fence key = a.fence key ∧ b.object key = a.object key

/-- A goroutine leaves every fence, takes its own down, or arms its watcher. -/
theorem Ran.fences (h : Ran g a clock calls b pc) (ha : a.Probing) :
    a.Quiet b ∧ (pc.kind = g.pc.kind ∨ pc = .finished) ∨
      g.pc = .next [] ∧ g.arms calls = true ∧ pc = .watchPassiveIPv6 ∧ Arming g a b := by
  cases h with
  | moved hkind => exact .inl ⟨.refl a, .inl hkind⟩
  | left => exact .inl ⟨.refl a, .inr rfl⟩
  | cancelled =>
    rcases g.finishProbeCancelled_eq (a := a) with ⟨_, he⟩ | ⟨s, s', hs, he, hr, hm, hg, ho⟩
    · rw [he]
      exact .inl ⟨.refl a, .inr rfl⟩
    · rw [he]
      refine .inl ⟨.setState rfl ?_, .inr rfl⟩
      rw [App.fence_of_get? hs, App.object_of_get? hs, ho]
      by_cases hmode : s.mode = .probe
      · exact .inl (PeerState.fence_none hr (by simp [hm, hmode]))
      · have hrun : s.workerRunning = false := by
          by_contra h
          exact hmode (ha _ s hs (by simpa using h))
        exact .inr ⟨PeerState.fence_congr (hr.trans hrun.symm) (by simp [hm, hmode]) hg, rfl⟩
  | configured t s hpc hs hown hok =>
    obtain ⟨s', he, hm, hr, hg, ho⟩ := g.configure_eq (t := t) (s := s) hok
    rw [he]
    refine .inl ⟨.setState (by simp) (.inr ?_), .inl (by rw [hpc]; rfl)⟩
    rw [App.fence_of_get? hs, App.object_of_get? hs, ho]
    exact ⟨PeerState.fence_congr hr hm hg, rfl⟩
  | failed s hpc hs hown =>
    obtain ⟨b, s', he, hb, hr, ho, harm⟩ := g.fail_eq (a := a) s
    rw [he]
    obtain ⟨_, hs', hgen, hrun⟩ := App.current_iff.mp hown
    obtain rfl := Option.some.inj (hs.symm.trans hs')
    by_cases h : g.arms calls = true
    · rw [if_pos h] at harm
      obtain ⟨hm, hg, hpc'⟩ := harm
      refine .inr ⟨hpc, h, hpc', App.current_iff_fence.mp hown, ?_, ?_, fun key hk => ?_⟩
      · rw [App.fence_setState, if_pos rfl, PeerState.fence]
        simp [hr, hm, hg, hgen]
      · rw [App.object_setState, if_pos rfl, ho, App.object_of_get? hs]
      · rw [App.fence_setState, if_neg hk, App.object_setState, if_neg hk]
        exact ⟨App.fence_congr hb key, App.object_congr hb key⟩
    · rw [if_neg h] at harm
      refine .inl ⟨.setState hb (.inl (PeerState.fence_none hr (by simp [harm.1]))), .inr harm.2⟩
  | promoted t endpoint type s hpc hs hown hok =>
    obtain ⟨s', he, hm, hr, _⟩ := g.promote_eq (s := s) hok
    rw [he]
    exact .inl ⟨.setState (by simp) (.inl (PeerState.fence_none hr (by simp [hm]))), .inr rfl⟩
  | refused => exact .inl ⟨.refl a, .inr rfl⟩
  | adopted endpoint s hpc hs hown hok =>
    obtain ⟨s', he, hm, hr, _⟩ := g.adopt_eq (s := s) hok
    rw [he]
    exact .inl ⟨.setState (by simp) (.inl (PeerState.fence_none hr (by simp [hm]))), .inr rfl⟩

end Ran

/-! ### Steps of the machine -/

/-- A goroutine that has just been started. -/
def Main.pending : Main → List Goroutine
  | launching _ _ g => [g]
  | _ => []

/-- What a step can do. -/
inductive Stepped (w : World) : Label → World → Prop
  | tick (d : ℕ) : Stepped w (.tick d) { w with clock := w.clock + d }
  | handshake (key endpoint : Text) (a : App) (hclock : unix w.clock ≠ 0)
      (ha : w.app.onPeer key (fun p =>
        { p with endpoint, latestHandshake := unix w.clock, awaiting := false }) = some a) :
      Stepped w (.handshake key endpoint) { w with app := a }
  | roam (key endpoint : Text) (a : App)
      (ha : w.app.onPeer key (fun p => { p with endpoint }) = some a) :
      Stepped w (.roam key endpoint) { w with app := a }
  | interfaceFound (name : Text) (device : Dict Text WgPeer) (hmain : w.main = .idle) :
      Stepped w (.interfaceFound name device)
        { w with app := { w.app with interfaceName := name, device }, main := .switched }
  | interfaceLost (hmain : w.main = .idle) : Stepped w .interfaceLost
      { w with app := { w.app with interfaceName := [], device := .empty }, main := .lost }
  /-- `reconcilePeers` returns an error at once. -/
  | refused (peers : List ApiPeer) (ownKey ourLAN : Text) (dump : Bool) (hmain : w.main = .idle) :
      Stepped w (.reconcilePeers peers ownKey ourLAN dump) w
  | dumped (peers : List ApiPeer) (ownKey ourLAN : Text) (dump : Bool) (s : Sync)
      (hmain : w.main = .idle) (hlocals : w.app.localPeers dump = some s.locals) :
      Stepped w (.reconcilePeers peers ownKey ourLAN dump) { w with main := .dumped s peers }
  | reset (calls : VisitCalls) (hmain : w.main = .lost ∨ w.main = .cleaned) :
      Stepped w (.proceed calls) { w with app := { w.app with states := .empty }, main := .idle }
  | entered (calls : VisitCalls) (s : Sync) (peers : List ApiPeer) (hmain : w.main = .dumped s peers) :
      Stepped w (.proceed calls) { w with main := .entered { s with now := unix w.clock } peers }
  | tracked (calls : VisitCalls) (s : Sync) (peers : List ApiPeer) (hmain : w.main = .entered s peers) :
      Stepped w (.proceed calls) { w with
        app := { w.app with serverKeys := s.currentServers }
        main := .visiting { s with previous := w.app.serverKeys.keys, active := [] } peers }
  | passed (calls : VisitCalls) (s : Sync) (p : ApiPeer) (rest : List ApiPeer)
      (hmain : w.main = .visiting s (p :: rest)) (htarget : s.target p = none) :
      Stepped w (.proceed calls) { w with main := .visiting s rest }
  | visited (calls : VisitCalls) (s : Sync) (p : ApiPeer) (rest : List ApiPeer)
      (target : Text × List Candidate) (main : Main) (hmain : w.main = .visiting s (p :: rest))
      (htarget : s.target p = some target)
      (hnext : main = match ((s.visit p target calls).run w.app).2 with
        | none => .visiting { s with active := p.key :: s.active } rest
        | some g => .launching { s with active := p.key :: s.active } rest
          (World.probe (s.visit p target calls) ((s.visit p target calls).state w.app).object g)) :
      Stepped w (.proceed calls)
        { w with app := ((s.visit p target calls).run w.app).1, main }
  | swept (calls : VisitCalls) (s : Sync) (hmain : w.main = .visiting s []) :
      Stepped w (.proceed calls) { w with main := .dropping s s.inactive }
  | launched (calls : VisitCalls) (s : Sync) (rest : List ApiPeer) (g : Goroutine)
      (hmain : w.main = .launching s rest g) :
      Stepped w (.proceed calls)
        { w with main := .visiting s rest, goroutines := w.goroutines ++ [g] }
  | returned (calls : VisitCalls) (s : Sync) (hmain : w.main = .dropping s []) :
      Stepped w (.proceed calls) { w with main := .idle }
  | dropped (s : Sync) (keys : List Text) (key : Text) (remove : Bool)
      (hmain : w.main = .dropping s keys) (hkey : key ∈ keys) :
      Stepped w (.drop key remove)
        { w with app := w.app.drop s.locals key remove, main := .dropping s (keys.erase key) }
  | fallback (dump : Bool) (remove : Text → Bool) (hmain : w.main = .idle) :
      Stepped w (.fallbackStaleDirects dump remove)
        { w with app := w.app.fallbackStaleDirects w.clock dump remove }
  | cleanup (removeState removeServer : Text → Bool) (main : Main)
      (hmain : w.main = .idle ∧ main = .idle ∨ w.main = .switched ∧ main = .cleaned) :
      Stepped w (.cleanup removeState removeServer)
        { w with app := w.app.cleanup removeState removeServer, main }
  | ran (i : ℕ) (g : Goroutine) (calls : GoCalls) (hi : w.goroutines[i]? = some g)
      (hpc : g.pc ≠ .finished) : Stepped w (.run i calls) (w.run i g calls)

section Step
variable {w w' : World}

theorem Stepped.of_proceed {calls : VisitCalls} (hs : w.proceed calls = some w') :
    Stepped w (.proceed calls) w' := by
  unfold World.proceed at hs
  split at hs
  · cases hs
  · cases hs
  · rename_i hm
    exact Option.some.inj hs ▸ .reset calls (.inl hm)
  · rename_i hm
    exact Option.some.inj hs ▸ .reset calls (.inr hm)
  · rename_i s peers hm
    exact Option.some.inj hs ▸ .entered calls s peers hm
  · rename_i s peers hm
    exact Option.some.inj hs ▸ .tracked calls s peers hm
  · rename_i s hm
    exact Option.some.inj hs ▸ .swept calls s hm
  · rename_i s p rest hm
    obtain rfl := Option.some.inj hs
    unfold World.visit
    cases htarget : s.target p with
    | none => exact .passed calls s p rest hm htarget
    | some target =>
      have h := Stepped.visited calls s p rest target _ hm htarget rfl
      cases hr : ((s.visit p target calls).run w.app).2 <;>
        · simp only [hr] at h ⊢
          exact h
  · rename_i s rest g hm
    exact Option.some.inj hs ▸ .launched calls s rest g hm
  · rename_i s hm
    exact Option.some.inj hs ▸ .returned calls s hm
  · cases hs

/-- What a step can do. -/
theorem stepped {l : Label} (hs : machine.step w l = some w') : Stepped w l w' := by
  change w.step l = some w' at hs
  unfold World.step at hs
  split at hs
  · exact Option.some.inj hs ▸ .tick _
  · rename_i key endpoint
    split at hs
    · cases hs
    · rename_i hclock
      obtain ⟨a, ha, rfl⟩ := Option.map_eq_some_iff.mp hs
      exact .handshake key endpoint a hclock ha
  · rename_i key endpoint
    obtain ⟨a, ha, rfl⟩ := Option.map_eq_some_iff.mp hs
    exact .roam key endpoint a ha
  · split at hs
    · rename_i hm
      split at hs
      · cases hs
      · exact Option.some.inj hs ▸ .interfaceFound _ _ hm
    · cases hs
  · split at hs
    · rename_i hm
      split at hs
      · cases hs
      · exact Option.some.inj hs ▸ .interfaceLost hm
    · cases hs
  · split at hs
    · rename_i hm
      obtain rfl := Option.some.inj hs
      unfold World.reconcilePeers
      split
      · exact .refused _ _ _ _ hm
      · split
        · exact .refused _ _ _ _ hm
        · split
          · exact .refused _ _ _ _ hm
          · rename_i hl
            exact .dumped _ _ _ _ _ hm hl
    · cases hs
  · exact .of_proceed hs
  · split at hs
    · rename_i s keys hm
      split at hs
      · rename_i hkey
        exact Option.some.inj hs ▸ .dropped s keys _ _ hm hkey
      · cases hs
    · cases hs
  · split at hs
    · rename_i hm
      exact Option.some.inj hs ▸ .fallback _ _ hm
    · cases hs
  · rename_i removeState removeServer
    split at hs
    · rename_i hm
      obtain rfl := Option.some.inj hs
      have h := Stepped.cleanup (w := w) removeState removeServer .idle (.inl ⟨hm, rfl⟩)
      rw [← hm] at h
      exact h
    · rename_i hm
      exact Option.some.inj hs ▸ .cleanup _ _ .cleaned (.inr ⟨hm, rfl⟩)
    · cases hs
  · split at hs
    · cases hs
    · rename_i g hi
      split at hs
      · cases hs
      · rename_i hpc
        exact Option.some.inj hs ▸ .ran _ g _ hi hpc

end Step

end Client
