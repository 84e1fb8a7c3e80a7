import WireguardP2p.Agent.Fencing

/-! `p2p_agent.py`: the start of the process. `load_state` takes the entries from STATE_FILE and gives each
    a generation of its own; `cleanup_orphans` removes every device peer with a host route and no entry.
    A call of it that fails ends the process. -/

namespace Agent
open Ipaddress Python Candidates Raising

/-- What STATE_FILE holds: no file, or no object, or an entry for each key. -/
inductive StateFile
  | unusable
  | entries (states : Dict PublicKey PeerState)
  deriving DecidableEq

/-- The entries of the file. -/
def StateFile.states : StateFile → Dict PublicKey PeerState
  | unusable => .empty
  | entries d => d

/-- What `load_state` makes of an entry, with its new generation. -/
def PeerState.reload (g : ℕ) (s : PeerState) : PeerState :=
  { s with workerRunning := false, generation := g, mode := if s.mode = .probe then .idle else s.mode,
           started := 0, baselineHandshake := 0 }

/-- The loop of `load_state`, and the LAST_GENERATION it ends with. -/
def reloadEntries (last : ℕ) : List (PublicKey × PeerState) → List (PublicKey × PeerState) × ℕ
  | [] => ([], last)
  | e :: es =>
    let g := max last e.2.generation + 1
    ((e.1, e.2.reload g) :: (reloadEntries g es).1, (reloadEntries g es).2)

theorem keys_reloadEntries (es : List (PublicKey × PeerState)) : ∀ last : ℕ,
    (reloadEntries last es).1.map Prod.fst = es.map Prod.fst := by
  induction es with
  | nil => exact fun _ => rfl
  | cons e es ih => exact fun last => congrArg (e.1 :: ·) (ih _)

/-- `load_state`: the entries and LAST_GENERATION. -/
def loadState (file : StateFile) : Dict PublicKey PeerState × ℕ :=
  (⟨(reloadEntries 0 file.states.entries).1,
      keys_reloadEntries file.states.entries 0 ▸ file.states.nodup⟩,
    (reloadEntries 0 file.states.entries).2)

/-- `value.endswith("/32")`. -/
def isHostRoute (value : Text) : Bool := "/32".toList.isSuffixOf value

/-- A peer with a host route. -/
def WgPeer.hasHostRoute (p : WgPeer) : Bool := p.allowedIps.any isHostRoute

/-- The outcomes of the calls of `cleanup_orphans`. -/
structure StartCalls where
  query : Option Raised
  remove : PublicKey → Outcome

def StartCalls.succeed : StartCalls := ⟨none, fun _ => .done⟩

/-- The loop of `cleanup_orphans`, over the peers it has read. -/
def orphanLoop (remove : PublicKey → Outcome) : List (PublicKey × WgPeer) → Locked Unit
  | [] => pure ()
  | e :: es => do
    let sh ← Raising.get
    (if e.2.hasHostRoute = true ∧ sh.states.get? e.1 = none then
      onKey e.1 (wgSet (remove e.1) .remove)
    else pure ())
    orphanLoop remove es

/-- `cleanup_orphans`. -/
def cleanupOrphans (calls : StartCalls) : Locked Unit := do
  queryAll calls.query
  let current := (← Raising.get).wg.entries
  orphanLoop calls.remove current

/-- `main` up to the threads it starts: the device is as the last process left it, the workers of that
    process are gone. -/
def World.boot (w : World) (file : StateFile) (calls : StartCalls) : Except Raised Unit × World :=
  let r := (cleanupOrphans calls).run
    { w.shared with states := (loadState file).1, lastGeneration := (loadState file).2 }
  (r.1, ⟨r.2, [], []⟩)

/-! ### `load_state` -/

/-- The generations of a list of entries ascend, all past `last` and none past `top`. -/
def Ascending (last : ℕ) : List (PublicKey × PeerState) → ℕ → Prop
  | [], top => last = top
  | e :: es, top => last < e.2.generation ∧ Ascending e.2.generation es top

theorem ascending_reloadEntries (es : List (PublicKey × PeerState)) : ∀ last : ℕ,
    Ascending last (reloadEntries last es).1 (reloadEntries last es).2 := by
  induction es with
  | nil => exact fun _ => rfl
  | cons e es ih =>
    intro last
    have hlt : last < max last e.2.generation + 1 := by omega
    exact ⟨hlt, ih _⟩

theorem Ascending.le_top {es : List (PublicKey × PeerState)} : ∀ {last top : ℕ}, Ascending last es top →
    last ≤ top ∧ ∀ e ∈ es, last < e.2.generation ∧ e.2.generation ≤ top := by
  induction es with
  | nil =>
    rintro last top rfl
    exact ⟨le_rfl, fun e he => absurd he List.not_mem_nil⟩
  | cons e es ih =>
    rintro last top ⟨hlt, hrest⟩
    obtain ⟨hle, hall⟩ := ih hrest
    refine ⟨hlt.le.trans hle, fun d hd => ?_⟩
    rcases List.mem_cons.mp hd with rfl | hd
    · exact ⟨hlt, hle⟩
    · exact ⟨hlt.trans (hall d hd).1, (hall d hd).2⟩

/-- Entries of one generation are one. -/
theorem Ascending.unique {es : List (PublicKey × PeerState)} : ∀ {last top : ℕ}, Ascending last es top →
    ∀ e ∈ es, ∀ d ∈ es, e.2.generation = d.2.generation → e = d := by
  induction es with
  | nil => exact fun _ e he => absurd he List.not_mem_nil
  | cons x es ih =>
    rintro last top ⟨_, hrest⟩ e he d hd hg
    have hpast := hrest.le_top.2
    rcases List.mem_cons.mp he with rfl | hme <;> rcases List.mem_cons.mp hd with rfl | hmd
    · rfl
    · exact absurd hg (hpast d hmd).1.ne
    · exact absurd hg (hpast e hme).1.ne'
    · exact ih hrest e hme d hmd hg

/-- Every entry is one of the file, with a generation past all before. -/
theorem mem_reloadEntries {e : PublicKey × PeerState} {es : List (PublicKey × PeerState)} : ∀ {last : ℕ},
    e ∈ (reloadEntries last es).1 → ∃ s g, (e.1, s) ∈ es ∧ s.generation < g ∧ e.2 = s.reload g := by
  induction es with
  | nil => exact fun h => absurd h List.not_mem_nil
  | cons d es ih =>
    intro last h
    rcases List.mem_cons.mp h with rfl | h
    · exact ⟨d.2, _, List.mem_cons_self, by omega, rfl⟩
    · obtain ⟨s, g, hs, hg, he⟩ := ih h
      exact ⟨s, g, List.mem_cons_of_mem d hs, hg, he⟩

section Load
variable {file : StateFile} {k : PublicKey}

/-- The loaded entry of a key is its entry in the file, under a new generation. -/
theorem get?_loadState {s : PeerState} (h : (loadState file).1.get? k = some s) :
    ∃ s₀ g, file.states.get? k = some s₀ ∧ s₀.generation < g ∧ s = s₀.reload g := by
  obtain ⟨s₀, g, hs₀, hg, he⟩ := mem_reloadEntries (Dict.mem_of_get? h)
  exact ⟨s₀, g, Dict.get?_of_mem hs₀, hg, he⟩

/-- The loaded keys are those of the file. -/
theorem loadState_none : (loadState file).1.get? k = none ↔ file.states.get? k = none := by
  have hkeys : (loadState file).1.keys = file.states.keys := keys_reloadEntries _ 0
  have hnone (d : Dict PublicKey PeerState) : d.get? k = none ↔ k ∉ d.keys := by
    rw [Dict.mem_keys, not_exists, Option.eq_none_iff_forall_ne_some]
  rw [hnone, hnone, hkeys]

end Load

/-! ### `cleanup_orphans` -/

/-- A device peer with a host route and no entry. -/
def Shared.Orphan (sh : Shared) (k : PublicKey) : Prop :=
  sh.states.get? k = none ∧ ∃ p, sh.wg.get? k = some p ∧ p.hasHostRoute = true

/-- The commands issued for a key. -/
def Shared.commands (sh : Shared) (k : PublicKey) : List Command :=
  (sh.issued.filter fun c => decide (c.1 = k)).map Prod.snd

theorem Shared.commands_put {sh : Shared} {k j : PublicKey} {sl : Slot} :
    (sh.put k sl).commands j = (if j = k then sl.issued else []) ++ sh.commands j := by
  rw [commands, put, List.filter_append, List.map_append, commands, List.filter_map, List.map_map]
  congr 1
  by_cases hj : j = k
  · subst hj
    rw [if_pos rfl]
    have hall : sl.issued.filter ((fun c => decide (c.1 = j)) ∘ Prod.mk j) = sl.issued :=
      List.filter_eq_self.mpr fun c _ => by simp
    rw [hall]
    exact List.map_id _
  · rw [if_neg hj]
    have hnone : sl.issued.filter ((fun c => decide (c.1 = j)) ∘ Prod.mk k) = [] :=
      List.filter_eq_nil_iff.mpr fun c _ => by simpa using Ne.symm hj
    rw [hnone]
    rfl

/-- Only orphans are touched, and what is touched is gone or still there. -/
structure OrphansOnly (sh sh' : Shared) : Prop where
  states : sh'.states = sh.states
  last : sh'.lastGeneration = sh.lastGeneration
  kept : ∀ k, ¬ sh.Orphan k → sh'.wg.get? k = sh.wg.get? k ∧ sh'.commands k = sh.commands k
  peer : ∀ k, sh'.wg.get? k = sh.wg.get? k ∨ sh'.wg.get? k = none

namespace OrphansOnly
variable {sh sh₁ sh' : Shared}

theorem refl (sh : Shared) : OrphansOnly sh sh := ⟨rfl, rfl, fun _ _ => ⟨rfl, rfl⟩, fun _ => .inl rfl⟩

theorem trans (h : OrphansOnly sh sh₁) (h' : OrphansOnly sh₁ sh') : OrphansOnly sh sh' := by
  refine ⟨h'.states.trans h.states, h'.last.trans h.last, fun k hk => ?_, fun k => ?_⟩
  · obtain ⟨hwg, hcmd⟩ := h.kept k hk
    have hk₁ : ¬ sh₁.Orphan k := fun ho => hk ⟨h.states ▸ ho.1, hwg ▸ ho.2⟩
    exact ⟨(h'.kept k hk₁).1.trans hwg, (h'.kept k hk₁).2.trans hcmd⟩
  · rcases h'.peer k with he | hn
    · exact (h.peer k).imp he.trans he.trans
    · exact .inr hn

/-- A command for an orphan that leaves its peer or removes it. -/
theorem put {k : PublicKey} {sl : Slot} (ho : sh.Orphan k) (he : sl.entry = none) (ht : sl.taken = [])
    (hl : sl.lastGeneration = sh.lastGeneration) (hp : sl.peer = sh.wg.get? k ∨ sl.peer = none) :
    OrphansOnly sh (sh.put k sl) := by
  refine ⟨?_, hl, fun j hj => ?_, fun j => ?_⟩
  · rw [Shared.put, he, ← ho.1]
    exact Dict.alter_get? ..
  · have hjk : j ≠ k := fun h => hj (h ▸ ho)
    rw [Shared.commands_put, if_neg hjk]
    exact ⟨Shared.get?_put_wg_of_ne hjk ht, rfl⟩
  · by_cases hj : j = k
    · rw [Shared.get?_put_wg, if_pos hj]
      exact hj ▸ hp
    · exact .inl (Shared.get?_put_wg_of_ne hj ht)

end OrphansOnly

theorem only_orphanLoop {remove : PublicKey → Outcome} (es : List (PublicKey × WgPeer)) :
    (es.map Prod.fst).Nodup → ∀ sh : Shared, (∀ e ∈ es, sh.wg.get? e.1 = some e.2) →
      (orphanLoop remove es).wp
        (fun _ sh' => OrphansOnly sh sh' ∧ ∀ e ∈ es, sh.Orphan e.1 → sh'.wg.get? e.1 = none)
        (fun _ sh' => OrphansOnly sh sh') sh := by
  induction es with
  | nil => exact fun _ sh _ => ⟨.refl sh, fun e he => absurd he List.not_mem_nil⟩
  | cons e es ih =>
    intro hnodup sh hread
    rw [List.map_cons, List.nodup_cons] at hnodup
    have hhead := hread e List.mem_cons_self
    have hrest := fun d hd => hread d (List.mem_cons_of_mem e hd)
    rw [orphanLoop, wp_bind, wp_get, wp_bind, wp_ite, wp_pure]
    refine ⟨fun horphan => ?_, fun hkeep => ?_⟩
    · have ho : sh.Orphan e.1 := ⟨horphan.2, e.2, hhead, horphan.1⟩
      have hissue : OrphansOnly sh (sh.put e.1 ((sh.slot e.1).issue .remove)) :=
        .put ho ho.1 rfl rfl (.inl rfl)
      have hgone : OrphansOnly sh (sh.put e.1 ((sh.slot e.1).execute .remove)) :=
        .put ho ho.1 rfl rfl (.inr rfl)
      rw [wp_onKey, wp_wgSet]
      refine ⟨fun _ => ?_, fun _ => hissue, fun _ => hgone⟩
      have hne : ∀ d ∈ es, d.1 ≠ e.1 := fun d hd he => hnodup.1 (he ▸ List.mem_map_of_mem hd)
      have hwg : ∀ d ∈ es, (sh.put e.1 ((sh.slot e.1).execute .remove)).wg.get? d.1 = sh.wg.get? d.1 :=
        fun d hd => Shared.get?_put_wg_of_ne (hne d hd) rfl
      refine wp_mono (ih hnodup.2 _ fun d hd => (hwg d hd).trans (hrest d hd)) (fun _ sh' h => ?_)
        fun _ _ h => hgone.trans h
      refine ⟨hgone.trans h.1, fun d hd hd' => ?_⟩
      rcases List.mem_cons.mp hd with rfl | hd
      · have hnone : (sh.put d.1 ((sh.slot d.1).execute .remove)).wg.get? d.1 = none := by
          rw [Shared.get?_put_wg, if_pos rfl]
          rfl
        exact (h.1.peer d.1).elim (fun he => he.trans hnone) id
      · refine h.2 d hd ⟨?_, ?_⟩
        · rw [hgone.states]
          exact hd'.1
        · rw [hwg d hd]
          exact hd'.2
    · refine wp_mono (ih hnodup.2 sh hrest) (fun _ sh' h => ⟨h.1, fun d hd hd' => ?_⟩) fun _ _ h => h
      rcases List.mem_cons.mp hd with rfl | hd
      · obtain ⟨hn, p, hp, hroute⟩ := hd'
        rw [hhead] at hp
        exact absurd ⟨Option.some.inj hp ▸ hroute, hn⟩ hkeep
      · exact h.2 d hd hd'

/-- `cleanup_orphans` touches orphans only, and ends normally only without one left. -/
theorem only_cleanupOrphans (calls : StartCalls) (sh : Shared) : (cleanupOrphans calls).wp
    (fun _ sh' => OrphansOnly sh sh' ∧ ∀ k, ¬ sh'.Orphan k) (fun _ sh' => OrphansOnly sh sh') sh := by
  simp only [cleanupOrphans, wp_bind, wp_queryAll, wp_get]
  refine ⟨fun _ => ?_, fun _ _ => .refl sh⟩
  refine wp_mono (only_orphanLoop sh.wg.entries sh.wg.nodup sh fun e he => Dict.get?_of_mem he)
    (fun _ sh' h => ⟨h.1, ?_⟩) fun _ _ h => h
  rintro k ⟨hn, p, hp, hroute⟩
  have hpeer : sh.wg.get? k = some p := by
    rcases h.1.peer k with he | hnone
    · exact he ▸ hp
    · exact absurd (hnone.symm.trans hp) (by simp)
  have hgone := h.2 (k, p) (Dict.mem_of_get? hpeer) ⟨h.1.states ▸ hn, p, hpeer, hroute⟩
  exact absurd (hgone.symm.trans hp) (by simp)

/-! ### The start -/

/-- What the start of a process makes of the device, whatever its calls do. -/
theorem only_boot (w : World) (file : StateFile) (calls : StartCalls) :
    OrphansOnly { w.shared with states := (loadState file).1, lastGeneration := (loadState file).2 }
      (w.boot file calls).2.shared :=
  wp_run (wp_mono (only_cleanupOrphans calls _) (fun _ _ h => h.1) fun _ _ h => h)

/-- The states of the new process are those of the file. -/
theorem states_boot (w : World) (file : StateFile) (calls : StartCalls) :
    (w.boot file calls).2.shared.states = (loadState file).1 := (only_boot w file calls).states

/-- Whatever the file holds, every process starts with the entries `load_state` read, each with a generation
    of its own and no worker. -/
theorem initial_boot (w : World) (file : StateFile) (calls : StartCalls) :
    Initial (w.boot file calls).2 := by
  have h := only_boot w file calls
  refine ⟨rfl, rfl, fun k s hs => ?_, fun k s hs => ?_⟩ <;> rw [h.states] at hs
  · rw [h.last]
    exact ((ascending_reloadEntries _ 0).le_top.2 _ (Dict.mem_of_get? hs)).2
  · obtain ⟨s₀, g, _, _, rfl⟩ := get?_loadState hs
    rfl

/-- A process that serves has started without an orphan. -/
theorem no_orphan_boot {w : World} {file : StateFile} {calls : StartCalls}
    (hok : (w.boot file calls).1 = .ok ()) (k : PublicKey) : ¬ (w.boot file calls).2.shared.Orphan k :=
  (wp_ok (only_cleanupOrphans calls _) (Prod.ext hok rfl)).2 k

end Agent
