import Mathlib
import WireguardP2p.Client.Ownership

/-! The peers the client leaves on the device. `cleanup` and `fallbackStaleDirects` find a peer by its
    key in `a.states` or `a.serverKeys`. Every key of a state and every peer the client has configured is
    kept in `a.serverKeys`, or in the keys that a call of `reconcilePeers` still has to drop; a drop
    relies on the snapshot of the device that the call began with. -/

namespace Client
open Ipaddress Python Net Candidates

/-- The keys a call of `reconcilePeers` still has to drop. -/
def Main.held : Main → List Text
  | visiting s _ => s.previous
  | launching s _ _ => s.previous
  | dropping _ keys => keys
  | _ => []

/-- `a.serverKeys` names the key, or a drop of it is still to come. -/
def World.Tracks (w : World) (key : Text) : Prop :=
  (w.app.serverKeys.get? key).isSome ∨ key ∈ w.main.held

/-- The peer of the key was configured by the client. -/
def App.Ours (a : App) (key : Text) : Prop := ∃ p, a.device.get? key = some p ∧ p.ours = true

/-- The call of `reconcilePeers` that is under way, if it has replaced `a.serverKeys`. -/
def Main.sync : Main → Option Sync
  | visiting s _ => some s
  | launching s _ _ => some s
  | dropping s _ => some s
  | _ => none

structure Tracked (w : World) : Prop where
  states : ∀ key s, w.app.states.get? key = some s → w.Tracks key
  device : ∀ key, w.app.Ours key → w.Tracks key
  servers : ∀ s, w.main.sync = some s → w.app.serverKeys = s.currentServers
  active : ∀ s, w.main.sync = some s → ∀ key ∈ s.active, (s.currentServers.get? key).isSome

/-- A peer of the client's that is dropped for good is gone, or the snapshot shows it and its removal is
    accepted; an interface that is new has no peer of the client's that is not tracked. -/
def DropSafe (w : World) : Label → Prop
  | .drop key remove => ∀ s ∈ w.main.sync, (w.app.serverKeys.get? key).isSome ∨
      ¬ ((w.app.device.get? key).any WgPeer.ours = true) ∨
        (s.locals.get? key).isSome ∧ w.app.accepts remove = true
  | .interfaceFound _ device =>
    ∀ e ∈ device.entries, e.2.ours = true → (w.app.serverKeys.get? e.1).isSome
  | _ => True

instance (w : World) : (l : Label) → Decidable (DropSafe w l)
  | .drop _ _ => inferInstanceAs (Decidable (∀ s ∈ w.main.sync, _))
  | .interfaceFound _ device => inferInstanceAs (Decidable (∀ e ∈ device.entries, _))
  | .tick _ | .handshake _ _ | .roam _ _ | .interfaceLost | .reconcilePeers _ _ _ _ | .proceed _
  | .fallbackStaleDirects _ _ | .cleanup _ _ | .run _ _ => inferInstanceAs (Decidable True)

namespace App
variable {a b : App} {key : Text}

theorem Ours.wgSet_ne {ok : Bool} {k : Text} {c : Command} (h : (a.wgSet ok k c).Ours key)
    (hk : key ≠ k) : a.Ours key := by
  obtain ⟨p, hp, ho⟩ := h
  simp only [get?_wgSet, if_neg hk] at hp
  split at hp
  · obtain ⟨q, hq, rfl⟩ := Option.map_eq_some_iff.mp hp
    exact ⟨q, hq, ho⟩
  · exact ⟨p, hp, ho⟩

/-- A removal configures nothing. -/
theorem Ours.remove {ok : Bool} {k : Text} (h : (a.wgSet ok k .remove).Ours key) : a.Ours key := by
  by_cases hk : key = k
  · obtain ⟨p, hp, ho⟩ := h
    simp only [get?_wgSet, if_pos hk] at hp
    split at hp
    · cases hp
    · exact ⟨p, hp, ho⟩
  · exact h.wgSet_ne hk

theorem not_ours_removed {ok : Bool} (h : a.accepts ok = true) : ¬ (a.wgSet ok key .remove).Ours key := by
  rintro ⟨p, hp, _⟩
  rw [get?_wgSet, if_pos h, if_pos rfl] at hp
  cases hp

theorem Ours.onPeer {k : Text} {f : WgPeer → WgPeer} (h : b.Ours key) (hb : a.onPeer k f = some b)
    (hf : ∀ p, (f p).ours = p.ours) : a.Ours key := by
  obtain ⟨p, hp, rfl⟩ := Option.map_eq_some_iff.mp hb
  obtain ⟨q, hq, ho⟩ := h
  rw [Dict.get?_set] at hq
  split at hq
  · rename_i hk
    obtain rfl := Option.some.inj hq
    exact ⟨p, hk ▸ hp, hf p ▸ ho⟩
  · exact ⟨q, hq, ho⟩

theorem Ours.removeAll {remove : Text → Bool} : ∀ {keys : List Text} {a : App},
    (a.removeAll remove keys).Ours key → a.Ours key
  | [], _, h => h
  | k :: keys, a, h => (Ours.removeAll (a := a.wgSet (remove k) k .remove) h).remove

theorem Ours.cleanup {removeState removeServer : Text → Bool}
    (h : (a.cleanup removeState removeServer).Ours key) : a.Ours key := by
  unfold App.cleanup at h
  split at h
  · exact h
  · obtain ⟨p, hp, ho⟩ := h.removeAll.removeAll
    exact ⟨p, hp, ho⟩

@[simp] theorem serverKeys_removeAll (remove : Text → Bool) : ∀ (keys : List Text) (a : App),
    (a.removeAll remove keys).serverKeys = a.serverKeys
  | [], _ => rfl
  | key :: keys, a => by
      show (App.removeAll remove (a.wgSet (remove key) key .remove) keys).serverKeys = a.serverKeys
      rw [serverKeys_removeAll remove keys, serverKeys_wgSet]

@[simp] theorem serverKeys_cleanup (removeState removeServer : Text → Bool) :
    (a.cleanup removeState removeServer).serverKeys = a.serverKeys := by
  unfold App.cleanup
  split <;> simp

/-- `fallbackStaleDirects` makes no state, configures no peer and leaves `a.serverKeys`. -/
structure Shrinks (a b : App) : Prop where
  states : ∀ key, (b.states.get? key).isSome → (a.states.get? key).isSome
  device : ∀ key, b.Ours key → a.Ours key
  serverKeys : b.serverKeys = a.serverKeys

theorem Shrinks.refl (a : App) : Shrinks a a := ⟨fun _ h => h, fun _ h => h, rfl⟩

theorem Shrinks.trans {c : App} (h : Shrinks a b) (h' : Shrinks b c) : Shrinks a c :=
  ⟨fun key hk => h.states key (h'.states key hk), fun key hk => h.device key (h'.device key hk),
    h'.serverKeys.trans h.serverKeys⟩

theorem shrinks_remove (a : App) (ok : Bool) (key : Text) : Shrinks a (a.wgSet ok key .remove) :=
  ⟨fun _ h => by rwa [states_wgSet] at h, fun _ h => h.remove, serverKeys_wgSet ..⟩

theorem shrinks_setState {s s' : PeerState} (h : a.states.get? key = some s) :
    Shrinks a (a.setState key s') := by
  refine ⟨fun j hj => ?_, fun _ h => h, rfl⟩
  rw [states_setState, Dict.get?_set] at hj
  split at hj
  · rename_i hk
    rw [hk, h]
    rfl
  · exact hj

theorem shrinks_fallback (clock : ℕ) (dump : Bool) (remove : Text → Bool) :
    Shrinks a (a.fallbackStaleDirects clock dump remove) := by
  refine fallbackStaleDirects_rule (I := Shrinks a) clock dump remove (fun locals b server hb => ?_)
    (.refl a)
  unfold fallbackOne
  split
  · have hr := hb.trans (shrinks_remove b (remove server.1) server.1)
    dsimp only
    split
    · rename_i s hs
      exact hr.trans (shrinks_setState hs)
    · exact hr
  · exact hb

theorem shrinks_cleanup (removeState removeServer : Text → Bool) :
    Shrinks a (a.cleanup removeState removeServer) := by
  refine ⟨fun key h => ?_, fun _ h => h.cleanup, serverKeys_cleanup ..⟩
  by_cases hi : a.interfaceName = []
  · rwa [App.cleanup, if_pos hi] at h
  · rw [states_cleanup hi, Dict.get?_mapVals] at h
    simpa using h

end App

/-- What a step of a goroutine makes of its key, it makes under a state. -/
theorem Ran.shrinks {g : Goroutine} {a b : App} {clock : ℕ} {calls : GoCalls} {pc : Pc}
    (h : Ran g a clock calls b pc) : b.serverKeys = a.serverKeys ∧
      (∀ key, (b.states.get? key).isSome → (a.states.get? key).isSome) ∧
      ∀ key, b.Ours key → a.Ours key ∨ (a.states.get? key).isSome := by
  -- a command on the key and a state written under it
  have hown {c : App} {s s' : PeerState} (hs : a.states.get? g.key = some s)
      (hc : c.states = a.states) (hk : c.serverKeys = a.serverKeys)
      (ho : ∀ key, key ≠ g.key → c.Ours key → a.Ours key) :
      (c.setState g.key s').serverKeys = a.serverKeys ∧
        (∀ key, ((c.setState g.key s').states.get? key).isSome → (a.states.get? key).isSome) ∧
        ∀ key, (c.setState g.key s').Ours key → a.Ours key ∨ (a.states.get? key).isSome := by
    refine ⟨hk, fun key hkey => ?_, fun key hkey => ?_⟩
    · exact hc ▸ (App.shrinks_setState (hc ▸ hs)).states key hkey
    · by_cases hg : key = g.key
      · exact .inr (by rw [hg, hs]; rfl)
      · exact .inl (ho key hg hkey)
  have hsame : a.serverKeys = a.serverKeys ∧
      (∀ key, (a.states.get? key).isSome → (a.states.get? key).isSome) ∧
      ∀ key, a.Ours key → a.Ours key ∨ (a.states.get? key).isSome :=
    ⟨rfl, fun _ h => h, fun _ h => .inl h⟩
  cases h with
  | moved => exact hsame
  | left => exact hsame
  | cancelled =>
    rcases g.finishProbeCancelled_eq (a := a) with ⟨_, he⟩ | ⟨s, s', hs, he, _⟩
    · rw [he]
      exact hsame
    · rw [he]
      exact hown hs rfl rfl fun _ _ h => h
  | configured t s _ hs _ hok =>
    obtain ⟨s', he, _⟩ := g.configure_eq (t := t) (s := s) hok
    rw [he]
    exact hown hs (by simp) (by simp) fun _ hk h => h.wgSet_ne hk
  | failed s _ hs =>
    unfold Goroutine.fail
    cases calls.globalIPv6 && !candidateListHasType g.candidates .host6
    · exact hown hs (by simp) (by simp) fun _ hk h => h.wgSet_ne hk
    · exact hown hs (by simp) (by simp) fun _ hk h => (h.wgSet_ne hk).wgSet_ne hk
  | promoted t endpoint type s _ hs _ hok =>
    obtain ⟨s', he, _⟩ := g.promote_eq (s := s) hok
    rw [he]
    exact hown hs (by simp) (by simp) fun _ hk h => h.wgSet_ne hk
  | refused => exact hsame
  | adopted endpoint s _ hs _ hok =>
    obtain ⟨s', he, _⟩ := g.adopt_eq (s := s) hok
    rw [he]
    exact hown hs (by simp) (by simp) fun _ hk h => h.wgSet_ne hk

/-- An iteration makes a state and configures a peer for its own key only. -/
theorem Visit.run_key (v : Visit) (a : App) : (v.run a).1.serverKeys = a.serverKeys ∧
    ∀ key, key ≠ v.key → (v.run a).1.states.get? key = a.states.get? key ∧
      ((v.run a).1.Ours key → a.Ours key) := by
  obtain ⟨b, s', h, he, _⟩ := v.visited a
  generalize (v.run a).2 = launched at h
  have hkeys : b.serverKeys = a.serverKeys := by
    cases h with
    | renewed => split <;> simp [Visit.allocate]
    | promoted => simp [Visit.allocate]
    | _ => rfl
  have hours : ∀ key, key ≠ v.key → b.Ours key → a.Ours key := fun key hk ho => by
    cases h with
    | renewed =>
      split at ho
      · exact ho.wgSet_ne hk
      · exact ho
    | promoted => exact ho.wgSet_ne hk
    | _ => exact ho
  rw [he]
  refine ⟨hkeys, fun key hk => ⟨?_, hours key hk⟩⟩
  rw [App.states_setState, Dict.get?_set, if_neg hk, h.states_eq]
  rfl

theorem Sync.target_current {s : Sync} {p : ApiPeer} {target : Text × List Candidate}
    (h : s.target p = some target) : (s.currentServers.get? p.key).isSome := by
  unfold Sync.target at h
  split at h
  · cases h
  · rename_i hs
    simp [hs]

section Step
variable {w w' : World} {l : Label}

/-- A step that only shrinks what there is to track. -/
theorem Tracked.shrink (h : Tracked w) (hs : App.Shrinks w.app w'.app)
    (hheld : w'.main.held = w.main.held) (hsync : w'.main.sync = w.main.sync) : Tracked w' := by
  have htracks : ∀ key, w.Tracks key → w'.Tracks key := fun key hk => by
    rwa [World.Tracks, hs.serverKeys, hheld]
  refine ⟨fun key s hk => ?_, fun key hk => htracks key (h.device key (hs.device key hk)), ?_, ?_⟩
  · obtain ⟨u, hu⟩ := Option.isSome_iff_exists.mp (hs.states key (by rw [hk]; rfl))
    exact htracks key (h.states key u hu)
  · rw [hsync, hs.serverKeys]
    exact h.servers
  · rw [hsync]
    exact h.active

theorem Tracked.visited {calls : VisitCalls} {s : Sync} {p : ApiPeer} {rest : List ApiPeer}
    {target : Text × List Candidate} {main : Main} (h : Tracked w)
    (hmain : w.main = .visiting s (p :: rest)) (htarget : s.target p = some target)
    (hheld : main.held = s.previous)
    (hsync : main.sync = some { s with active := p.key :: s.active }) :
    Tracked { w with app := ((s.visit p target calls).run w.app).1, main } := by
  obtain ⟨hkeys, hothers⟩ := (s.visit p target calls).run_key w.app
  have hcurrent : w.app.serverKeys = s.currentServers := h.servers s (by rw [hmain]; rfl)
  have htracks : ∀ key, key = p.key ∨ w.Tracks key →
      World.Tracks { w with app := ((s.visit p target calls).run w.app).1, main } key := by
    rintro key (rfl | hk)
    · left
      show (((s.visit p target calls).run w.app).1.serverKeys.get? p.key).isSome
      rw [hkeys, hcurrent]
      exact s.target_current htarget
    · rw [World.Tracks, hmain] at hk
      rw [World.Tracks, hheld]
      exact hk.imp (fun h => by rwa [hkeys]) id
  refine ⟨fun key u hk => htracks key ?_, fun key hk => htracks key ?_, fun u hu => ?_, fun u hu => ?_⟩
  · by_cases hp : key = p.key
    · exact .inl hp
    · exact .inr (h.states key u ((hothers key hp).1 ▸ hk))
  · by_cases hp : key = p.key
    · exact .inl hp
    · exact .inr (h.device key ((hothers key hp).2 hk))
  · obtain rfl := Option.some.inj (hsync.symm.trans hu)
    exact hkeys.trans hcurrent
  · obtain rfl := Option.some.inj (hsync.symm.trans hu)
    intro key hk
    rcases List.mem_cons.mp hk with rfl | hk
    · exact s.target_current htarget
    · exact h.active s (by rw [hmain]; rfl) key hk

theorem Tracked.dropped {s : Sync} {keys : List Text} {key : Text} {remove : Bool} (h : Tracked w)
    (hmain : w.main = .dropping s keys) (hok : DropSafe w (.drop key remove)) :
    Tracked { w with app := w.app.drop s.locals key remove, main := .dropping s (keys.erase key) } := by
  have hsync : w.main.sync = some s := by rw [hmain]; rfl
  have hours : ∀ j, (w.app.drop s.locals key remove).Ours j → w.app.Ours j := fun j hj => by
    unfold App.drop at hj
    split at hj
    · exact App.Ours.remove hj
    · exact hj
  have hkeys : (w.app.drop s.locals key remove).serverKeys = w.app.serverKeys := by
    unfold App.drop
    split <;> simp
  have hstates : (w.app.drop s.locals key remove).states = w.app.states.erase key := by
    unfold App.drop
    split <;> simp
  have htracks : ∀ j, j ≠ key → w.Tracks j → World.Tracks
      { w with app := w.app.drop s.locals key remove, main := .dropping s (keys.erase key) } j := by
    intro j hj hk
    rw [World.Tracks, hmain] at hk
    rw [World.Tracks, hkeys]
    exact hk.imp_right fun hm => (List.mem_erase_of_ne hj).mpr hm
  refine ⟨fun j u hj => ?_, fun j hj => ?_, fun u hu => ?_, fun u hu => ?_⟩
  · rw [hstates, Dict.get?_erase] at hj
    split at hj
    · cases hj
    · rename_i hne
      exact htracks j hne (h.states j u hj)
  · by_cases hjk : j = key
    · subst hjk
      rcases hok s hsync with hserver | hnone | ⟨hlocal, hacc⟩
      · exact .inl (by rwa [hkeys])
      · obtain ⟨p, hp, ho⟩ := hours j hj
        exact absurd (by rw [hp]; exact ho) hnone
      · unfold App.drop at hj
        rw [if_pos hlocal] at hj
        exact absurd hj (App.not_ours_removed hacc)
    · exact htracks j hjk (h.device j (hours j hj))
  · obtain rfl := Option.some.inj hu
    exact hkeys.trans (h.servers s hsync)
  · obtain rfl := Option.some.inj hu
    exact h.active s hsync

theorem Tracked.step (h : Tracked w) (hok : DropSafe w l) (hs : machine.step w l = some w') :
    Tracked w' := by
  have hidle {m : Main} (hm : w.main = m) (hheld : m.held = []) (key : Text) :
      w.Tracks key → (w.app.serverKeys.get? key).isSome := fun hk => by
    rw [World.Tracks, hm, hheld] at hk
    exact hk.resolve_right List.not_mem_nil
  -- outside of the loops of `reconcilePeers`
  have hquiet {m m' : Main} (hm : w.main = m) (hheld : m.held = []) (hsync : m.sync = none)
      (hheld' : m'.held = []) (hsync' : m'.sync = none) : Tracked { w with main := m' } :=
    h.shrink (.refl w.app) (by rw [hm, hheld, hheld'])
      (by rw [hm, hsync, hsync'])
  cases stepped hs with
  | tick => exact h.shrink (.refl w.app) rfl rfl
  | handshake key endpoint a _ ha =>
    have hkeys : a.serverKeys = w.app.serverKeys := by
      obtain ⟨_, _, rfl⟩ := Option.map_eq_some_iff.mp ha
      rfl
    exact h.shrink ⟨fun j hj => App.onPeer_states ha ▸ hj, fun _ hj => hj.onPeer ha fun _ => rfl,
      hkeys⟩ rfl rfl
  | roam key endpoint a ha =>
    have hkeys : a.serverKeys = w.app.serverKeys := by
      obtain ⟨_, _, rfl⟩ := Option.map_eq_some_iff.mp ha
      rfl
    exact h.shrink ⟨fun j hj => App.onPeer_states ha ▸ hj, fun _ hj => hj.onPeer ha fun _ => rfl,
      hkeys⟩ rfl rfl
  | interfaceFound name device hm =>
    refine ⟨fun key s hk => .inl (hidle hm rfl key (h.states key s hk)), fun key ⟨p, hp, ho⟩ => .inl ?_,
      nofun, nofun⟩
    exact hok _ (Dict.mem_of_get? hp) ho
  | interfaceLost hm =>
    refine ⟨fun key s hk => .inl (hidle hm rfl key (h.states key s hk)), fun key ⟨p, hp, ho⟩ => ?_,
      nofun, nofun⟩
    cases hp
  | refused => exact h
  | dumped peers ownKey ourLAN dump s hm => exact hquiet hm rfl rfl rfl rfl
  | reset calls hm =>
    have hheld : w.main.held = [] := hm.elim (fun h => by rw [h]; rfl) fun h => by rw [h]; rfl
    exact ⟨fun key s hk => (by cases hk), fun key hk => .inl (hidle rfl hheld key (h.device key hk)),
      nofun, nofun⟩
  | entered calls s peers hm => exact hquiet hm rfl rfl rfl rfl
  | tracked calls s peers hm =>
    have hprevious : ∀ key, w.Tracks key → key ∈ w.app.serverKeys.keys := fun key hk => by
      obtain ⟨ip, hip⟩ := Option.isSome_iff_exists.mp (hidle hm rfl key hk)
      exact Dict.mem_keys.mpr ⟨ip, hip⟩
    refine ⟨fun key u hk => .inr (hprevious key (h.states key u hk)),
      fun key hk => .inr (hprevious key (h.device key hk)), fun u hu => ?_, fun u hu => ?_⟩
    · obtain rfl := Option.some.inj hu
      rfl
    · obtain rfl := Option.some.inj hu
      exact fun key hk => absurd hk List.not_mem_nil
  | passed calls s p rest hm => exact h.shrink (.refl w.app) (by rw [hm]; rfl) (by rw [hm]; rfl)
  | visited calls s p rest target main hm htarget hnext =>
    refine h.visited hm htarget ?_ ?_ <;>
      · rw [hnext]
        split <;> rfl
  | swept calls s hm =>
    have hsync : w.main.sync = some s := by rw [hm]; rfl
    have htracks : ∀ key, w.Tracks key → World.Tracks { w with main := .dropping s s.inactive } key := by
      intro key hk
      by_cases hactive : key ∈ s.active
      · exact .inl (h.servers s hsync ▸ h.active s hsync key hactive)
      · rw [World.Tracks, hm] at hk
        refine hk.imp_right fun hprev => ?_
        exact List.mem_filter.mpr ⟨List.mem_dedup.mpr (List.mem_append_left _ hprev), by simpa⟩
    exact ⟨fun key u hk => htracks key (h.states key u hk), fun key hk => htracks key (h.device key hk),
      fun u hu => h.servers u (hsync.trans hu), fun u hu => h.active u (hsync.trans hu)⟩
  | launched calls s rest g hm => exact h.shrink (.refl w.app) (by rw [hm]; rfl) (by rw [hm]; rfl)
  | returned calls s hm =>
    exact ⟨fun key u hk => .inl (hidle hm rfl key (h.states key u hk)),
      fun key hk => .inl (hidle hm rfl key (h.device key hk)), nofun, nofun⟩
  | dropped s keys key remove hm => exact h.dropped hm hok
  | fallback => exact h.shrink (App.shrinks_fallback _ _ _) rfl rfl
  | cleanup removeState removeServer main hm =>
    refine h.shrink (App.shrinks_cleanup _ _) ?_ ?_ <;>
      · rcases hm with ⟨hm, rfl⟩ | ⟨hm, rfl⟩ <;> rw [hm] <;> rfl
  | ran i g calls hi hpc =>
    obtain ⟨hkeys, hstates, hours⟩ := (Goroutine.ran (a := w.app)
      hpc).shrinks
    have htracks : ∀ key, w.Tracks key → (w.run i g calls).Tracks key := fun key hk => by
      rw [World.Tracks]
      exact hk.imp_left fun h => hkeys ▸ h
    have hstate : ∀ key, (w.app.states.get? key).isSome → (w.run i g calls).Tracks key := fun key hk => by
      obtain ⟨u, hu⟩ := Option.isSome_iff_exists.mp hk
      exact htracks key (h.states key u hu)
    exact ⟨fun key u hk => hstate key (hstates key (Option.isSome_of_eq_some hk)),
      fun key hk => (hours key hk).elim (fun ho => htracks key (h.device key ho)) (hstate key),
      fun u hu => hkeys.trans (h.servers u hu), h.active⟩

end Step

theorem Initial.tracked {w : World} (h : Initial w) : Tracked w := by
  refine ⟨fun key s hk => ?_, fun key ⟨p, hp, ho⟩ => ?_, ?_, ?_⟩
  · rw [h.states] at hk
    cases hk
  · rw [(h.device key p hp).1] at ho
    cases ho
  · rw [h.main]
    exact nofun
  · rw [h.main]
    exact nofun

/-- No peer of the client's is left on the device that neither map names. -/
theorem no_untracked_peer {w₀ w : World} {ls : List Label} (h₀ : Initial w₀)
    (hok : machine.Along DropSafe w₀ ls) (hrun : machine.run w₀ ls = some w) (hmain : w.main = .idle) :
    ∀ key p, w.app.device.get? key = some p → p.ours = true →
      (w.app.states.get? key).isSome ∨ (w.app.serverKeys.get? key).isSome := by
  have h := machine.run_invariant (I := Tracked) (fun w l w' hl h hs => h.step hl hs) h₀.tracked hok hrun
  intro key p hp ho
  have hk := h.device key ⟨p, hp, ho⟩
  rw [World.Tracks, hmain] at hk
  exact .inr (hk.resolve_right List.not_mem_nil)

/-- The server loses its role in the next sync, which removes the peer of the probe. -/
def demotedRun (early : Nat) : List Label :=
  joins "wg0" ++ visits (serverPeer 1000 []) ++ [.proceed ⟨true, true⟩] ++ runs early ++
    List.replicate 2 (.proceed ⟨true, true⟩) ++
    [.reconcilePeers [ownPeer, { serverPeer 1000 [] with role := "client".toList }] "own".toList [] true] ++
    runs (4 - early) ++ List.replicate 5 (.proceed ⟨true, true⟩) ++ [.drop "server".toList true] ++
    [.proceed ⟨true, true⟩]

/-- The probe has its peer before the snapshot of the sync. -/
theorem no_untracked_peer_demotedRun : ∃ w, machine.run World.start (demotedRun 4) = some w ∧
    ∀ key p, w.app.device.get? key = some p → p.ours = true →
      (w.app.states.get? key).isSome ∨ (w.app.serverKeys.get? key).isSome := by
  have hsome : (machine.run World.start (demotedRun 4)).any (fun w => w.main.isIdle) = true := by
    decide +kernel
  obtain ⟨w, hrun, hw⟩ := (Option.any_eq_true _ _).mp hsome
  have hmain : w.main = .idle := Main.isIdle_iff.mp hw
  have hok : machine.Along DropSafe World.start (demotedRun 4) := by decide +kernel
  exact ⟨w, hrun, no_untracked_peer initial_start hok hrun hmain⟩

/-- The probe makes its peer between the snapshot of the sync and the drop. -/
theorem untracked_peer : ¬ ∀ ls w, machine.run World.start ls = some w → w.main = .idle →
    ∀ key p, w.app.device.get? key = some p → p.ours = true →
      (w.app.states.get? key).isSome ∨ (w.app.serverKeys.get? key).isSome := by
  intro h
  have hsome : (machine.run World.start (demotedRun 3)).any (fun w => w.main.isIdle &&
      (w.app.device.get? "server".toList).any WgPeer.ours &&
        (w.app.states.get? "server".toList).isNone &&
        (w.app.serverKeys.get? "server".toList).isNone) = true := by decide +kernel
  obtain ⟨w, hrun, hw⟩ := (Option.any_eq_true _ _).mp hsome
  simp only [Bool.and_eq_true, Option.isNone_iff_eq_none] at hw
  obtain ⟨⟨⟨hidle, hp⟩, hs⟩, hk⟩ := hw
  have hmain : w.main = .idle := Main.isIdle_iff.mp hidle
  obtain ⟨p, hp, ho⟩ := (Option.any_eq_true _ _).mp hp
  have hor := h _ w hrun hmain _ p hp ho
  rw [hs, hk] at hor
  simp at hor

end Client
