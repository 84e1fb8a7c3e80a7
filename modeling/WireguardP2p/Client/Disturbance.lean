import WireguardP2p.Client.Ownership

/-! A sync and a healthy Direct. An iteration of `reconcilePeers` decides on the snapshot of the device
    that the sync began with, while probes and watchers go on promoting and handshakes go on coming. -/

namespace Client
open Ipaddress Python Net Candidates

/-- The device holds the route of the server, with a fresh handshake. -/
def World.Healthy (w : World) (key serverIP : Text) : Prop :=
  ∃ p ∈ w.app.device.get? key, slash32 serverIP ∈ p.allowedIPs ∧
    handshakeWithin directMaxAge (unix w.clock) p.latestHandshake = true

instance (w : World) (key serverIP : Text) : Decidable (w.Healthy key serverIP) :=
  inferInstanceAs (Decidable (∃ p ∈ w.app.device.get? key, _))

/-- The iteration that the next step of the main loop is. -/
def World.turn (w : World) (calls : VisitCalls) : Option Visit :=
  match w.main with
  | .visiting s (p :: _) => (s.target p).map fun target => s.visit p target calls
  | _ => none

/-- `reconcilePeers` starts a probe for an active and unchanged server with a healthy Direct, or removes
    it. -/
def Disturbs (w : World) : Label → Prop
  | .proceed calls => ∃ v ∈ w.turn calls, w.Healthy v.key v.serverIP ∧
      v.topologyChanged (v.state w.app) = false ∧
      ((v.run w.app).2.isSome ∨ (v.run w.app).1.device.get? v.key = none)
  | .drop key _ => ∃ s keys serverIP, w.main = .dropping s keys ∧ key ∈ keys ∧ key ∈ s.active ∧
      s.currentServers.get? key = some serverIP ∧ w.Healthy key serverIP
  | _ => False

instance (w : World) (calls : VisitCalls) : Decidable (Disturbs w (.proceed calls)) :=
  inferInstanceAs (Decidable (∃ v ∈ w.turn calls, _))

/-- The snapshot shows the healthy Direct, or nothing is due for a server that it shows without one. -/
def Visit.Spares (v : Visit) (a : App) : Prop :=
  v.direct = true ∧ v.fresh = true ∨ v.direct = false ∧
    (v.learns = true ∧ a.accepts v.calls.promote = true ∨ (v.state a).workerRunning = true ∨
      v.now < (v.state a).retryAfter)

instance (v : Visit) (a : App) : Decidable (v.Spares a) := inferInstanceAs (Decidable (_ ∨ _))

/-- The iteration for an unchanged server with a healthy Direct spares it. -/
def TurnSpares (w : World) : Label → Prop
  | .proceed calls => ∀ v ∈ w.turn calls, w.Healthy v.key v.serverIP →
      v.topologyChanged (v.state w.app) = false → v.Spares w.app
  | _ => True

instance (w : World) : (l : Label) → Decidable (TurnSpares w l)
  | .proceed calls => inferInstanceAs (Decidable (∀ v ∈ w.turn calls, _))
  | .tick _ | .handshake _ _ | .roam _ _ | .interfaceFound _ _ | .interfaceLost
  | .reconcilePeers _ _ _ _ | .drop _ _ | .fallbackStaleDirects _ _ | .cleanup _ _ | .run _ _ =>
    inferInstanceAs (Decidable True)

/-- An iteration starts no probe for a peer of the device and does not remove it, if and only if it
    spares it. -/
theorem Visit.spares_iff (v : Visit) {a : App} (hpeer : a.device.get? v.key ≠ none)
    (hsame : v.topologyChanged (v.state a) = false) :
    v.Spares a ↔ ¬ ((v.run a).2.isSome ∨ (v.run a).1.device.get? v.key = none) := by
  obtain ⟨b, s', h, he, _⟩ := v.visited a
  rw [he, App.device_setState]
  generalize (v.run a).2 = launched at h
  have hkept : ¬ ((none : Option ℕ).isSome ∨ a.device.get? v.key = none) := by simpa using hpeer
  cases h with
  | kept _ _ _ _ hdirect hfresh => exact ⟨fun _ => hkept, fun _ => .inl ⟨hdirect, hfresh⟩⟩
  | promoted _ _ _ _ _ hdirect hlearns hok =>
    refine ⟨fun _ => ?_, fun _ => .inr ⟨hdirect, .inl ⟨hlearns, hok⟩⟩⟩
    rw [App.get?_wgSet, if_pos hok, if_pos rfl]
    simp [Command.apply]
  | rests _ _ _ _ _ hdirect hnot =>
    refine ⟨fun _ => hkept, fun _ => .inr ⟨hdirect, .inr ?_⟩⟩
    by_contra hc
    rw [not_or, Bool.not_eq_true, not_lt] at hc
    exact hnot ⟨hc.2, hc.1⟩
  | retried _ _ _ _ _ hdirect hdue hlearns =>
    refine ⟨?_, fun hn => absurd (.inl rfl) hn⟩
    rintro (⟨hd, _⟩ | ⟨_, hl | hr | hnow⟩)
    · rw [hdirect] at hd
      cases hd
    · exact absurd hl hlearns
    · rw [hdue.2] at hr
      cases hr
    · exact absurd hdue.1 (by omega)
  | renewed _ _ _ _ hwhy =>
    refine ⟨?_, fun hn => absurd (.inl rfl) hn⟩
    obtain ⟨hdirect, hstale⟩ := hwhy.resolve_left (by simp [hsame])
    rintro (⟨_, hf⟩ | ⟨hd, _⟩)
    · rw [hstale] at hf
      cases hf
    · rw [hdirect] at hd
      cases hd

/-- The last loop of `reconcilePeers` is about servers that are not active. -/
def DropsInactive (w : World) : Prop :=
  ∀ s keys, w.main = .dropping s keys → ∀ key ∈ keys, key ∉ s.active

theorem DropsInactive.step {w w' : World} {l : Label} (h : DropsInactive w)
    (hs : machine.step w l = some w') : DropsInactive w' := by
  cases stepped hs with
  | swept calls s hm =>
    intro s' keys he key hk
    obtain ⟨rfl, rfl⟩ := Main.dropping.inj he
    simpa using (List.mem_filter.mp hk).2
  | dropped s keys key remove hm hkey =>
    intro s' keys' he j hj
    obtain ⟨rfl, rfl⟩ := Main.dropping.inj he
    exact h s keys hm j (List.mem_of_mem_erase hj)
  | visited calls s p rest target main hm htarget hnext =>
    intro s' keys he
    subst hnext
    revert he
    split <;> exact nofun
  | cleanup removeState removeServer main hm =>
    intro s' keys he
    rcases hm with ⟨_, rfl⟩ | ⟨_, rfl⟩ <;> cases he
  | tick => exact h
  | handshake => exact h
  | roam => exact h
  | refused => exact h
  | fallback => exact h
  | ran => exact h
  | _ => exact nofun

/-- No step of a run disturbs a healthy Direct, if and only if every iteration for an unchanged server
    with a healthy Direct spares it. -/
theorem undisturbed_iff {w₀ : World} (h₀ : Initial w₀) (ls : List Label) :
    machine.Along (fun w l => ¬ Disturbs w l) w₀ ls ↔ machine.Along TurnSpares w₀ ls := by
  have hinit : DropsInactive w₀ := fun s keys he => by
    rw [h₀.main] at he
    cases he
  have hturn {w : World} {v : Visit} (hhealthy : w.Healthy v.key v.serverIP)
      (hsame : v.topologyChanged (v.state w.app) = false) : v.Spares w.app ↔
        ¬ ((v.run w.app).2.isSome ∨ (v.run w.app).1.device.get? v.key = none) := by
    obtain ⟨p, hp, _⟩ := hhealthy
    exact v.spares_iff (by simp [Option.mem_def.mp hp]) hsame
  constructor
  · refine machine.along_of_invariant (I := DropsInactive) (fun w l w' _ h hs => h.step hs)
      (fun w l _ hok => ?_) hinit
    cases l with
    | proceed calls =>
      intro v hv hhealthy hsame
      exact (hturn hhealthy hsame).mpr fun hd => hok ⟨v, hv, hhealthy, hsame, hd⟩
    | _ => trivial
  · refine machine.along_of_invariant (I := DropsInactive) (fun w l w' _ h hs => h.step hs)
      (fun w l hinactive hok => ?_) hinit
    cases l with
    | proceed calls =>
      rintro ⟨v, hv, hhealthy, hsame, hd⟩
      exact (hturn hhealthy hsame).mp (hok v hv hhealthy hsame) hd
    | drop key remove =>
      rintro ⟨s, keys, _, hm, hkey, hactive, _⟩
      exact hinactive s keys hm key hkey hactive
    | _ => exact id

/-- The Direct of the first sync has a second sync. -/
theorem undisturbed_directRun : machine.Along (fun w l => ¬ Disturbs w l) World.start
    (directRun ++ List.replicate 2 (.proceed ⟨true, true⟩) ++ visits (serverPeer 1000 [])) :=
  (undisturbed_iff initial_start _).mpr (by decide +kernel)

/-- The probe is about to install its route; the second sync takes its snapshot, and the route follows. -/
def overtakenRun : List Label :=
  probeRun ++ [.handshake "server".toList "203.0.113.5:51820".toList] ++ runs 3 ++
    List.replicate 2 (.proceed ⟨true, true⟩) ++
    [.reconcilePeers [ownPeer, serverPeer 1000 []] "own".toList [] true] ++ runs 1 ++
    List.replicate 3 (.proceed ⟨true, true⟩)

theorem disturbed_overtakenRun : ¬ ∀ ls, machine.Along (fun w l => ¬ Disturbs w l) World.start ls := by
  intro h
  have hsome : (machine.run World.start overtakenRun).any (fun w =>
      decide (Disturbs w (.proceed ⟨true, true⟩))) = true := by decide +kernel
  obtain ⟨w, hrun, hw⟩ := (Option.any_eq_true _ _).mp hsome
  exact (h (overtakenRun ++ [.proceed ⟨true, true⟩])).last hrun (of_decide_eq_true hw)

end Client
