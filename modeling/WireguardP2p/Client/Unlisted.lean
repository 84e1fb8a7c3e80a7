import WireguardP2p.Client.Tracking

/-! The peers of the device that are none of the client's business: the relay, and whatever else the
    coordinator does not list as a server. No state, no goroutine and no loop of `reconcilePeers` ever has
    such a key, so no command names it, and a peer without a `/32` keeps its allowed IPs. -/

namespace Client
open Ipaddress Python Net Candidates

/-- A list of peers does not show the key as a server. -/
def Label.Unlisted (key : Text) : Label → Prop
  | .reconcilePeers peers _ _ _ => ∀ p ∈ peers, p.key = key → p.role ≠ "server".toList
  | _ => True

/-- The client stays on its interface. -/
def Label.Stays : Label → Prop
  | .interfaceFound _ _ => False
  | .interfaceLost => False
  | _ => True

instance (key : Text) : (l : Label) → Decidable (l.Unlisted key)
  | .reconcilePeers peers _ _ _ => inferInstanceAs (Decidable (∀ p ∈ peers, _))
  | .tick _ | .handshake _ _ | .roam _ _ | .interfaceFound _ _ | .interfaceLost | .proceed _ | .drop _ _
  | .fallbackStaleDirects _ _ | .cleanup _ _ | .run _ _ => inferInstanceAs (Decidable True)

instance : (l : Label) → Decidable l.Stays
  | .interfaceFound _ _ | .interfaceLost => inferInstanceAs (Decidable False)
  | .reconcilePeers _ _ _ _ | .tick _ | .handshake _ _ | .roam _ _ | .proceed _ | .drop _ _
  | .fallbackStaleDirects _ _ | .cleanup _ _ | .run _ _ => inferInstanceAs (Decidable True)

/-- No allowed IP of the peer is that of a single overlay address. -/
def WgPeer.Bare (p : WgPeer) : Prop := ∀ ip ∈ p.allowedIPs, ∀ address, ip ≠ slash32 address

/-- What the client could have changed of a peer is as it was. -/
structure WgPeer.Alike (p q : WgPeer) : Prop where
  allowedIPs : q.allowedIPs = p.allowedIPs
  keepalive : q.keepalive = p.keepalive
  ours : q.ours = p.ours

theorem WgPeer.Alike.refl (p : WgPeer) : p.Alike p := ⟨rfl, rfl, rfl⟩

theorem WgPeer.Alike.trans {p q r : WgPeer} (h : p.Alike q) (h' : q.Alike r) : p.Alike r :=
  ⟨h'.allowedIPs.trans h.allowedIPs, h'.keepalive.trans h.keepalive, h'.ours.trans h.ours⟩

theorem WgPeer.Alike.bare {p q : WgPeer} (h : p.Alike q) (hp : p.Bare) : q.Bare := by
  rw [Bare, h.allowedIPs]
  exact hp

/-- `currentServers` holds listed servers only. -/
theorem currentServers_unlisted {ours : ApiPeer} {ownKey key : Text} {peers : List ApiPeer}
    (h : ∀ p ∈ peers, p.key = key → p.role ≠ "server".toList) : (currentServers ours ownKey peers).get? key = none := by
  unfold currentServers
  refine List.foldlRecOn (motive := fun d : Dict Text Text => d.get? key = none) _ _ rfl fun d hd p hp => ?_
  split_ifs with hskip
  · exact hd
  · exact hd
  · rw [Dict.get?_set]
    split
    · rename_i hk
      rw [not_or] at hskip
      exact absurd (h p hp hk.symm) hskip.1
    · exact hd

theorem not_mem_keys {ν : Type} {d : Dict Text ν} {key : Text} (h : d.get? key = none) : key ∉ d.keys := by
  intro hm
  obtain ⟨v, hv⟩ := Dict.mem_keys.mp hm
  rw [h] at hv
  cases hv

/-! ### One key, under a step that is about others -/

/-- The client keeps what it has of the key, and its peer. -/
structure App.Spares (key : Text) (a b : App) : Prop where
  states : b.states.get? key = a.states.get? key
  servers : b.serverKeys.get? key = a.serverKeys.get? key
  device : ∀ p, a.device.get? key = some p → p.Bare → ∃ q, b.device.get? key = some q ∧ p.Alike q

namespace App
variable {a b c : App} {key k : Text}

theorem Spares.refl (a : App) : Spares key a a := ⟨rfl, rfl, fun p hp _ => ⟨p, hp, .refl p⟩⟩

theorem Spares.trans (h : Spares key a b) (h' : Spares key b c) : Spares key a c := by
  refine ⟨h'.states.trans h.states, h'.servers.trans h.servers, fun p hp hbare => ?_⟩
  obtain ⟨q, hq, hpq⟩ := h.device p hp hbare
  obtain ⟨r, hr, hqr⟩ := h'.device q hq (hpq.bare hbare)
  exact ⟨r, hr, hpq.trans hqr⟩

theorem steal_bare {p : WgPeer} (hp : p.Bare) {taken : List Text} (ht : ∀ ip ∈ taken, ∃ address, ip = slash32 address) :
    steal taken p = p := by
  have hfilter : p.allowedIPs.filter (fun ip => decide (ip ∉ taken)) = p.allowedIPs := by
    rw [List.filter_eq_self]
    intro ip hip
    rw [decide_eq_true_iff]
    intro hm
    obtain ⟨address, he⟩ := ht ip hm
    exact hp ip hip address he
  rw [steal, hfilter]

/-- A command that names another key. -/
theorem spares_wgSet {ok : Bool} {c : Command} (hk : key ≠ k) (hc : ∀ ip ∈ c.taken, ∃ address, ip = slash32 address) :
    Spares key a (a.wgSet ok k c) := by
  refine ⟨by rw [states_wgSet], by rw [serverKeys_wgSet], fun p hp hbare => ⟨p, ?_, .refl p⟩⟩
  rw [get?_wgSet, if_neg hk, hp, Option.map_some, steal_bare hbare hc]
  exact ite_self _

theorem spares_remove {ok : Bool} (hk : key ≠ k) : Spares key a (a.wgSet ok k .remove) :=
  spares_wgSet hk fun _ h => absurd h List.not_mem_nil

theorem spares_setState {s : PeerState} (hk : key ≠ k) : Spares key a (a.setState k s) := by
  refine ⟨?_, rfl, fun p hp _ => ⟨p, hp, .refl p⟩⟩
  rw [states_setState, Dict.get?_set, if_neg hk]

theorem spares_route {ok : Bool} {serverIP endpoint : Text} {n : ℕ} (hk : key ≠ k) :
    Spares key a (a.wgSet ok k (.route (slash32 serverIP) endpoint n)) :=
  spares_wgSet hk fun _ h => ⟨serverIP, List.mem_singleton.mp h⟩

theorem spares_removeAll {remove : Text → Bool} {keys : List Text} (hk : key ∉ keys) :
    Spares key a (a.removeAll remove keys) := by
  induction keys generalizing a with
  | nil => exact .refl a
  | cons k keys ih =>
    rw [List.mem_cons, not_or] at hk
    exact (spares_remove hk.1).trans (ih hk.2)

theorem spares_cleanup (removeState removeServer : Text → Bool) (hs : a.states.get? key = none)
    (hk : a.serverKeys.get? key = none) : Spares key a (a.cleanup removeState removeServer) := by
  unfold cleanup
  split_ifs
  · exact .refl a
  · refine Spares.trans (b := { a with states := a.states.mapVals fun _ => discard }) ?_
      ((spares_removeAll (not_mem_keys hs)).trans (spares_removeAll (not_mem_keys hk)))
    refine ⟨?_, rfl, fun p hp _ => ⟨p, hp, .refl p⟩⟩
    rw [Dict.get?_mapVals, hs]
    rfl

theorem spares_fallback (clock : ℕ) (dump : Bool) (remove : Text → Bool) (hk : a.serverKeys.get? key = none) :
    Spares key a (a.fallbackStaleDirects clock dump remove) := by
  unfold fallbackStaleDirects
  split
  · exact .refl a
  · refine List.foldlRecOn (motive := Spares key a) _ _ (.refl a) fun b hb server hserver => ?_
    have hne : key ≠ server.1 := by
      rintro rfl
      have hfound := Dict.get?_of_mem (d := a.serverKeys) (k := server.1) (v := server.2) hserver
      rw [hk] at hfound
      cases hfound
    unfold fallbackOne
    split
    · dsimp only
      split
      · exact (hb.trans (spares_remove hne)).trans (spares_setState hne)
      · exact hb.trans (spares_remove hne)
    · exact hb

theorem spares_drop {locals : Dict Text LocalPeer} {remove : Bool} (hk : key ≠ k) :
    Spares key a (a.drop locals k remove) := by
  have herase : ∀ b : App, Spares key b { b with states := b.states.erase k } := fun b => by
    refine ⟨?_, rfl, fun p hp _ => ⟨p, hp, .refl p⟩⟩
    rw [Dict.get?_erase, if_neg hk]
  unfold drop
  split
  · exact (spares_remove hk).trans (herase _)
  · exact herase a

/-- What the device does by itself to a peer it has. -/
theorem spares_onPeer {f : WgPeer → WgPeer} (h : a.onPeer k f = some b) (hf : ∀ p : WgPeer, p.Alike (f p)) :
    Spares key a b := by
  obtain ⟨q, hq, rfl⟩ := Option.map_eq_some_iff.mp h
  refine ⟨rfl, rfl, fun p hp _ => ?_⟩
  rw [Dict.get?_set]
  split
  · rename_i hk
    obtain rfl := Option.some.inj (hq.symm.trans (hk ▸ hp))
    exact ⟨f q, rfl, hf q⟩
  · exact ⟨p, hp, .refl p⟩

end App

/-- A goroutine of another key. -/
theorem Ran.spares {g : Goroutine} {a b : App} {clock : ℕ} {calls : GoCalls} {pc : Pc} {key : Text}
    (h : Ran g a clock calls b pc) (hk : key ≠ g.key) : App.Spares key a b := by
  cases h with
  | moved => exact .refl a
  | left => exact .refl a
  | cancelled =>
    rcases g.finishProbeCancelled_eq (a := a) with ⟨-, he⟩ | ⟨s, s', -, he, -⟩
    · rw [he]
      exact .refl a
    · rw [he]
      exact App.spares_setState hk
  | configured t s _ hs _ hok =>
    obtain ⟨s', he, -⟩ := g.configure_eq (t := t) (s := s) hok
    rw [he]
    exact (App.spares_wgSet hk fun _ hip => absurd hip List.not_mem_nil).trans (App.spares_setState hk)
  | failed s _ hs =>
    unfold Goroutine.fail
    cases calls.globalIPv6 && !candidateListHasType g.candidates .host6
    · exact (App.spares_remove hk).trans (App.spares_setState hk)
    · exact ((App.spares_remove hk).trans (App.spares_wgSet hk fun _ hip => absurd hip List.not_mem_nil)).trans
        (App.spares_setState hk)
  | promoted t endpoint type s _ hs _ hok =>
    obtain ⟨s', he, -⟩ := g.promote_eq (s := s) hok
    rw [he]
    exact (App.spares_route hk).trans (App.spares_setState hk)
  | refused => exact .refl a
  | adopted endpoint s _ hs _ hok =>
    obtain ⟨s', he, -⟩ := g.adopt_eq (s := s) hok
    rw [he]
    exact (App.spares_route hk).trans (App.spares_setState hk)

/-- An iteration for another key. -/
theorem Visit.spares {v : Visit} {a : App} {key : Text} (hk : key ≠ v.key) : App.Spares key a (v.run a).1 := by
  obtain ⟨b, s', h, he, -⟩ := v.visited a
  generalize (v.run a).2 = launched at h
  have hallocate : App.Spares key a (v.allocate a) := ⟨rfl, rfl, fun p hp _ => ⟨p, hp, .refl p⟩⟩
  have hb : App.Spares key (v.allocate a) b := by
    cases h with
    | renewed =>
      split
      · exact App.spares_remove hk
      · exact .refl _
    | promoted => exact App.spares_route hk
    | _ => exact .refl _
  rw [he]
  exact (hallocate.trans hb).trans (App.spares_setState hk)

/-! ### Nothing has the key -/

/-- The main loop will not come to the key. -/
def Main.Ignores (key : Text) : Main → Prop
  | .dumped s _ | .entered s _ => s.currentServers.get? key = none
  | .visiting s _ => s.currentServers.get? key = none ∧ key ∉ s.previous
  | .launching s _ g => (s.currentServers.get? key = none ∧ key ∉ s.previous) ∧ g.key ≠ key
  | .dropping _ keys => key ∉ keys
  | _ => True

/-- Nothing the client keeps has the key. -/
structure World.Ignores (w : World) (key : Text) : Prop where
  states : w.app.states.get? key = none
  servers : w.app.serverKeys.get? key = none
  goroutines : ∀ g ∈ w.goroutines, g.key ≠ key
  main : w.main.Ignores key

theorem Initial.ignores {w : World} (h : Initial w) (key : Text) : w.Ignores key := by
  refine ⟨?_, ?_, ?_, ?_⟩
  · rw [h.states]
    rfl
  · rw [h.serverKeys]
    rfl
  · rw [h.goroutines]
    exact fun g hg => absurd hg List.not_mem_nil
  · rw [h.main]
    trivial

theorem inactive_ignores {s : Sync} {key : Text} (hc : s.currentServers.get? key = none) (hp : key ∉ s.previous) :
    key ∉ s.inactive := by
  intro hm
  obtain ⟨hm, -⟩ := List.mem_filter.mp hm
  rcases List.mem_append.mp (List.mem_dedup.mp hm) with hm | hm
  · exact hp hm
  · exact not_mem_keys hc hm

theorem reconcilePeers_ignores {w : World} {peers : List ApiPeer} {ownKey ourLAN key : Text} {dump : Bool}
    (h : w.main.Ignores key) (hl : ∀ p ∈ peers, p.key = key → p.role ≠ "server".toList) :
    (w.reconcilePeers peers ownKey ourLAN dump).main.Ignores key := by
  unfold World.reconcilePeers
  split
  · exact h
  · split
    · exact h
    · split
      · exact h
      · exact currentServers_unlisted hl

/-- What a step means for a key that nothing has. -/
theorem ignores_step {w w' : World} {l : Label} {key : Text} (h : w.Ignores key) (hl : l.Unlisted key)
    (hs : machine.step w l = some w') : w'.Ignores key ∧ (l.Stays → App.Spares key w.app w'.app) := by
  -- a step that spares the key in the states and leaves the goroutines
  have hkept {b : App} {m : Main} (hb : App.Spares key w.app b) (hm : m.Ignores key) :
      World.Ignores { w with app := b, main := m } key :=
    ⟨hb.states.trans h.states, hb.servers.trans h.servers, h.goroutines, hm⟩
  cases stepped hs with
  | tick d => exact ⟨⟨h.states, h.servers, h.goroutines, h.main⟩, fun _ => .refl _⟩
  | handshake k endpoint a hclock ha =>
    have hspares : App.Spares key w.app a := App.spares_onPeer ha fun _ => ⟨rfl, rfl, rfl⟩
    exact ⟨hkept hspares h.main, fun _ => hspares⟩
  | roam k endpoint a ha =>
    have hspares : App.Spares key w.app a := App.spares_onPeer ha fun _ => ⟨rfl, rfl, rfl⟩
    exact ⟨hkept hspares h.main, fun _ => hspares⟩
  | interfaceFound name device hmain => exact ⟨⟨h.states, h.servers, h.goroutines, trivial⟩, fun hstay => hstay.elim⟩
  | interfaceLost hmain => exact ⟨⟨h.states, h.servers, h.goroutines, trivial⟩, fun hstay => hstay.elim⟩
  | refused => exact ⟨h, fun _ => .refl _⟩
  | dumped peers ownKey ourLAN dump s hmain hlocals =>
    have hstep : w.step (.reconcilePeers peers ownKey ourLAN dump) = some { w with main := .dumped s peers } := hs
    simp only [World.step, hmain, Option.some.injEq] at hstep
    have hm : (w.reconcilePeers peers ownKey ourLAN dump).main.Ignores key := reconcilePeers_ignores h.main hl
    rw [hstep] at hm
    exact ⟨⟨h.states, h.servers, h.goroutines, hm⟩, fun _ => .refl _⟩
  | reset calls hmain =>
    exact ⟨⟨rfl, h.servers, h.goroutines, trivial⟩, fun _ => ⟨h.states.symm, rfl, fun p hp _ => ⟨p, hp, .refl p⟩⟩⟩
  | entered calls s peers hmain =>
    have hm := h.main
    rw [hmain] at hm
    exact ⟨⟨h.states, h.servers, h.goroutines, hm⟩, fun _ => .refl _⟩
  | tracked calls s peers hmain =>
    have hm := h.main
    rw [hmain] at hm
    exact ⟨⟨h.states, hm, h.goroutines, hm, not_mem_keys h.servers⟩,
      fun _ => ⟨rfl, hm.trans h.servers.symm, fun p hp _ => ⟨p, hp, .refl p⟩⟩⟩
  | passed calls s p rest hmain htarget =>
    have hm := h.main
    rw [hmain] at hm
    exact ⟨⟨h.states, h.servers, h.goroutines, hm⟩, fun _ => .refl _⟩
  | visited calls s p rest target main hmain htarget hnext =>
    have hm := h.main
    rw [hmain] at hm
    have hne : key ≠ p.key := by
      rintro rfl
      have hcurrent := Sync.target_current htarget
      rw [hm.1] at hcurrent
      cases hcurrent
    have hspares : App.Spares key w.app ((s.visit p target calls).run w.app).1 := Visit.spares hne
    refine ⟨hkept hspares ?_, fun _ => hspares⟩
    rw [hnext]
    split
    · exact hm
    · exact ⟨hm, hne.symm⟩
  | swept calls s hmain =>
    have hm := h.main
    rw [hmain] at hm
    exact ⟨⟨h.states, h.servers, h.goroutines, inactive_ignores hm.1 hm.2⟩, fun _ => .refl _⟩
  | launched calls s rest g hmain =>
    have hm := h.main
    rw [hmain] at hm
    refine ⟨⟨h.states, h.servers, fun u hu => ?_, hm.1⟩, fun _ => .refl _⟩
    rcases List.mem_append.mp hu with hu | hu
    · exact h.goroutines u hu
    · exact List.mem_singleton.mp hu ▸ hm.2
  | returned calls s hmain => exact ⟨⟨h.states, h.servers, h.goroutines, trivial⟩, fun _ => .refl _⟩
  | dropped s keys k remove hmain hkey =>
    have hm := h.main
    rw [hmain] at hm
    have hne : key ≠ k := fun he => hm (he ▸ hkey)
    exact ⟨hkept (App.spares_drop hne) fun hmem => hm (List.mem_of_mem_erase hmem), fun _ => App.spares_drop hne⟩
  | fallback dump remove hmain =>
    have hspares := App.spares_fallback w.clock dump remove h.servers
    exact ⟨hkept hspares h.main, fun _ => hspares⟩
  | cleanup removeState removeServer main hmain =>
    have hspares := App.spares_cleanup removeState removeServer h.states h.servers
    refine ⟨hkept hspares ?_, fun _ => hspares⟩
    rcases hmain with ⟨-, rfl⟩ | ⟨-, rfl⟩ <;> trivial
  | ran i g calls hi hpc =>
    have hne : key ≠ g.key := (h.goroutines g (List.mem_of_getElem? hi)).symm
    have hspares : App.Spares key w.app (g.step w.app w.clock calls).1 := (g.ran hpc).spares hne
    refine ⟨⟨hspares.states.trans h.states, hspares.servers.trans h.servers, fun u hu => ?_, h.main⟩, fun _ => hspares⟩
    rcases List.mem_or_eq_of_mem_set hu with hu | rfl
    · exact h.goroutines u hu
    · exact hne.symm

/-- On its interface the client leaves a key alone that it has never known as a server. -/
theorem spares_run {w w' : World} {ls : List Label} {key : Text} (h : w.Ignores key)
    (hls : ∀ l ∈ ls, l.Unlisted key ∧ l.Stays) (hrun : machine.run w ls = some w') :
    App.Spares key w.app w'.app := by
  have hok : machine.Along (fun _ l => l.Unlisted key ∧ l.Stays) w ls := machine.along_of_mem hls
  refine machine.run_relation (I := fun w => w.Ignores key) (R := fun w w' => App.Spares key w.app w'.app)
    (fun w => .refl w.app) (fun _ _ _ => .trans) ?_ h hok hrun
  intro w l w' hl h hs
  obtain ⟨hignores, hspares⟩ := ignores_step h hl.1 hs
  exact ⟨hignores, hspares hl.2⟩

/-- A key that no sync lists as a server has no state and no goroutine, over every interface; while the client
    stays on one, its peer keeps its allowed IPs, its keepalive and its owner. -/
theorem unlisted_untouched {w₀ w₁ w₂ : World} {ls₁ ls₂ : List Label} {key : Text} (h₀ : Initial w₀)
    (h₁ : ∀ l ∈ ls₁, l.Unlisted key) (h₂ : ∀ l ∈ ls₂, l.Unlisted key ∧ l.Stays)
    (hrun₁ : machine.run w₀ ls₁ = some w₁) (hrun₂ : machine.run w₁ ls₂ = some w₂) :
    w₂.app.states.get? key = none ∧ w₂.app.serverKeys.get? key = none ∧ (∀ g ∈ w₂.goroutines, g.key ≠ key) ∧
      ∀ p, w₁.app.device.get? key = some p → p.Bare → ∃ q, w₂.app.device.get? key = some q ∧ p.Alike q := by
  have hrun {w w' : World} {ls : List Label} (hls : ∀ l ∈ ls, l.Unlisted key) (h : w.Ignores key)
      (hrun : machine.run w ls = some w') : w'.Ignores key := by
    have hok : machine.Along (fun _ l => l.Unlisted key) w ls := machine.along_of_mem hls
    exact machine.run_invariant (I := fun w => w.Ignores key)
      (fun _ _ _ hl h hs => (ignores_step h hl hs).1) h hok hrun
  have hw₁ := hrun h₁ (h₀.ignores key) hrun₁
  have hw₂ := hrun (fun l hl => (h₂ l hl).1) hw₁ hrun₂
  exact ⟨hw₂.states, hw₂.servers, hw₂.goroutines, (spares_run hw₁ h₂ hrun₂).device⟩

/-- The relay of the overlay. -/
def relayPeer : WgPeer := ⟨"192.0.2.1:51820".toList, ["10.0.0.0/24".toList], 990, 25, false, false⟩

/-- An interface that has the relay. -/
def joinsRelay : List Label :=
  [.interfaceFound "wg0".toList (Dict.empty.set "relay".toList relayPeer), .cleanup (fun _ => true) fun _ => true,
    .proceed ⟨true, true⟩]

/-- Beside the relay the server is probed and promoted, goes stale, and is given up. -/
def relayRun : List Label :=
  visits (serverPeer 1000 []) ++ [.proceed ⟨true, true⟩] ++ runs 5 ++
    [.handshake "server".toList "203.0.113.5:51820".toList] ++ runs 4 ++
    List.replicate 2 (.proceed ⟨true, true⟩) ++ [.tick (1000 * second), .fallbackStaleDirects true fun _ => true]

/-- The relay keeps its network while a Direct beside it comes and goes. -/
theorem unlisted_untouched_relayRun : ∃ w₁ w₂, machine.run World.start joinsRelay = some w₁ ∧
    machine.run w₁ relayRun = some w₂ ∧ w₂.app.states.get? "relay".toList = none ∧
      ∃ q, w₂.app.device.get? "relay".toList = some q ∧ relayPeer.Alike q := by
  have hsome₁ : (machine.run World.start joinsRelay).any (fun w =>
      decide (w.app.device.get? "relay".toList = some relayPeer) && (machine.run w relayRun).isSome) = true := by
    decide +kernel
  obtain ⟨w₁, hrun₁, hw₁⟩ := (Option.any_eq_true _ _).mp hsome₁
  obtain ⟨hpeer, hsome₂⟩ := Bool.and_eq_true_iff.mp hw₁
  obtain ⟨w₂, hrun₂⟩ := Option.isSome_iff_exists.mp hsome₂
  have hbare : relayPeer.Bare := by
    intro ip hip address he
    obtain rfl := List.mem_singleton.mp hip
    have hlast := congrArg List.getLast? he
    rw [slash32, List.getLast?_append_of_ne_nil _ (by decide)] at hlast
    exact absurd hlast (by decide)
  have hjoins : ∀ l ∈ joinsRelay, l.Unlisted "relay".toList := by decide +kernel
  have hrelay : ∀ l ∈ relayRun, l.Unlisted "relay".toList ∧ l.Stays := by decide +kernel
  obtain ⟨hstates, -, -, hdevice⟩ := unlisted_untouched initial_start hjoins hrelay hrun₁ hrun₂
  exact ⟨w₁, w₂, hrun₁, hrun₂, hstates, hdevice relayPeer (of_decide_eq_true hpeer) hbare⟩

end Client
