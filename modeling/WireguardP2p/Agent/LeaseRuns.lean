import WireguardP2p.Agent.Leases

/-! Control leases over whole runs. Where no step sets up or ends a path of an entry whose control
    session has expired, every reachable entry is `Leased`, and a pass of the monitor that ends normally
    leaves no entry that has outlived its lease without a healthy Direct. -/

namespace Agent
open Ipaddress Python Candidates Raising

/-- Every call to WireGuard succeeds. -/
def WgSucceeds : Label → Prop
  | .offer _ _ _ calls => calls.query = none ∧ calls.remove = .done
  | .remove _ _ _ calls => calls.query = none ∧ calls.remove = .done
  | .monitor _ calls => calls.query = none ∧ ∀ k, calls.remove k = .done
  | .cleanupInitiator _ calls => calls.query = none ∧ ∀ k, calls.remove k = .done
  | .worker _ calls => calls.WgSucceed
  | _ => True

/-- The offer asks for a lease that is a number, and a worker that takes the route of an overlay IP finds
    no expired control session, neither of its own entry nor of one with that overlay IP. -/
def LeaseSafe (w : World) : Label → Prop
  | .offer env data controller _ => ∀ o, readOffer env data controller = .ok o → o.requestedExpiry ≠ .nan
  | .worker i calls => ∀ t ip, w.threads[i]? = some t →
      t.route? calls (w.shared.states.get? t.key) = some ip →
        ∀ k s, w.shared.states.get? k = some s → k = t.key ∨ s.ip = ip → s.controlExpired = false
  | _ => True

/-- Every entry has a lease or rests. -/
def Shared.Leased (sh : Shared) : Prop := ∀ k, (sh.slot k).Leased

section Step
variable {sh : Shared} {k : PublicKey} {sl : Slot}

/-- An entry stays leased while its peer keeps its route. -/
theorem Slot.Leased.of_peer {sl sl' : Slot} (h : sl.Leased) (he : sl'.entry = sl.entry)
    (hp : ∀ s, sl.entry = some s → s.controlExpired = true → holdsRoute sl.peer s.ip = true →
      holdsRoute sl'.peer s.ip = true) : sl'.Leased := by
  intro s hs
  rw [he] at hs
  have hl := h s hs
  exact ⟨hl.ip_ne, hl.candidates_ne, hl.lease, fun hx => ⟨(hl.expired hx).1, (hl.expired hx).2.1,
    hp s hs hx (hl.expired hx).2.2⟩⟩

theorem Shared.Leased.put (h : sh.Leased) (hsl : sl.Leased)
    (ht : ∀ j s, j ≠ k → sh.states.get? j = some s → s.controlExpired = true →
      slash32 s.ip ∉ sl.taken) : (sh.put k sl).Leased := by
  intro j
  by_cases hj : j = k
  · subst hj
    refine hsl.of_peer (by simp [slot]) fun s _ _ hr => ?_
    simpa [slot] using hr
  · refine (h j).of_peer (by simp [slot, hj]) fun s hs hx hr => ?_
    obtain ⟨q, hq, hm⟩ := holdsRoute_iff.mp hr
    refine holdsRoute_iff.mpr ⟨steal sl.taken q, ?_, ?_⟩
    · simp only [slot, get?_put_wg, if_neg hj]
      rw [show sh.wg.get? j = some q from hq, Option.map_some]
    · exact List.mem_filter.mpr ⟨hm, decide_eq_true (ht j s hj hs hx)⟩

/-- A section outside the workers. -/
theorem Shared.Leased.onKey {α : Type} {p : Section α} (h : sh.Leased)
    (hp : p.wp (fun _ => Slot.Leased) (fun _ => Slot.Leased) (sh.slot k))
    (ht : TakesNone p (sh.slot k)) : Leaves Shared.Leased (Agent.onKey k p) sh := by
  have hput {sl : Slot} (hs : sl.Leased ∧ sl.taken = []) : (sh.put k sl).Leased :=
    h.put hs.1 fun j s _ _ _ => by rw [hs.2]; nofun
  exact wp_onKey.mpr (wp_mono (wp_and hp ht) (fun _ _ hs => hput hs) fun _ _ hs => hput hs)

variable {w w' : World}

theorem leased_step {l : Label} (hs : machine.step w l = some w') (hwg : WgSucceeds l)
    (hsafe : LeaseSafe w l) (h : w.shared.Leased) (hpc : ∀ t ∈ w.threads, t.pc ≠ .probe .cancel) :
    w'.shared.Leased := by
  refine shared_step hs h (fun env data controller calls o hl ho => ?_)
    (fun la data now calls r hl => ?_) (fun now calls k hl sh hsh => ?_)
    (fun active calls k hl sh hsh => ?_) (fun i calls t hl hi => ?_) fun k p q hp hq hh => ?_
  · subst hl
    exact h.onKey (leased_offerSection (hsafe o ho) hwg.1 hwg.2 (h o.key)) (takesNone_offerSection ..)
  · subst hl
    exact h.onKey (leased_removeSection r now hwg.1 hwg.2 (h r.key)) (takesNone_removeSection ..)
  · subst hl
    rw [hwg.2 k]
    exact hsh.onKey (wp_mono (leased_monitorPeer now (hsh k)) (fun _ _ hs => hs.1) fun _ _ hs => hs)
      (takesNone_monitorPeer ..)
  · exact hsh.onKey (leased_cleanupPeer _ _ (hsh k)) (takesNone_cleanupPeer ..)
  · subst hl
    have hroute := hsafe t
    have hown := leased_threadStep (t := t) (h t.key)
      (hpc t (List.mem_of_getElem? hi)) fun hsome s hs => by
        obtain ⟨ip, hip⟩ := Option.isSome_iff_exists.mp hsome
        exact hroute ip hi hip t.key s hs (.inl rfl)
    have htaken : EndsTaking _ (t.step calls) (w.shared.slot t.key) := takes_threadStep t rfl
    have hput {sl : Slot} (hs : sl.Leased ∧ Takes (fun a => ∃ ip, t.route? calls
        (w.shared.slot t.key).entry = some ip ∧ a = slash32 ip) sl) : (w.shared.put t.key sl).Leased := by
      refine h.put hs.1 fun j s _ hj hx hm => ?_
      obtain ⟨ip, hip, ha⟩ := hs.2 _ hm
      rw [hroute ip hi hip j s hj (.inr (slash32_injective ha))] at hx
      cases hx
    exact wp_onKey.mpr (wp_mono (wp_and hown htaken) (fun _ _ hs => hput hs) fun _ _ hs => hput hs)
  · intro j
    refine (h j).of_peer rfl fun s _ _ hr => ?_
    by_cases hj : j = k
    · subst hj
      obtain ⟨p', hp', hm⟩ := holdsRoute_iff.mp hr
      obtain rfl := Option.some.inj (hp.symm.trans hp')
      exact holdsRoute_iff.mpr ⟨q, by simp [Shared.slot], hq ▸ hm⟩
    · simpa [Shared.slot, hj] using hr

/-- No worker goes on to cancel. -/
theorem uncancelled_step {l : Label} (hs : machine.step w l = some w') (h : w.shared.Leased)
    (hpc : ∀ t ∈ w.threads, t.pc ≠ .probe .cancel) : ∀ t ∈ w'.threads, t.pc ≠ .probe .cancel := by
  rcases stepped hs with ⟨_, _, _, hth, _⟩ | ⟨_, launch, _, _, _, hth⟩ |
    ⟨i, calls, t, next, sl, _, hst, hran⟩
  · exact hth ▸ hpc
  · intro t ht
    rw [hth, List.mem_append, List.mem_singleton] at ht
    rcases ht with ht | rfl
    · exact hpc t ht
    · exact nofun
  · intro u hu
    rcases hst.mem hu with hu | rfl | ⟨c, _, rfl⟩
    · exact hpc u hu
    · exact wp_ok (Q := fun next _ => next.pc ≠ .probe .cancel) (uncancelled_threadStep (h t.key)) hran
    · exact nofun

end Step

/-! ### Passes of the monitor -/

/-- After the loop every key is in its lease, if those not in the loop were before. -/
theorem inLease_monitorLoop {now : Time} {remove : PublicKey → Outcome} (hr : ∀ k, remove k = .done) :
    ∀ {keys : List PublicKey} {sh : Shared}, sh.Leased → (∀ k, k ∉ keys → (sh.slot k).InLease now) →
      (monitorLoop now remove keys).wp (fun _ sh' => ∀ k, (sh'.slot k).InLease now) (fun _ _ => True) sh
  | [], _, _, h => fun k => h k (List.not_mem_nil)
  | k :: ks, sh, hl, h => by
    rw [monitorLoop, hr k, wp_bind, wp_onKey]
    refine wp_mono (wp_and (leased_monitorPeer now (hl k)) (takesNone_monitorPeer now .done (sh.slot k)))
      (fun r sl hsl => ?_) fun _ _ _ => trivial
    obtain ⟨⟨hsl, hin⟩, ht⟩ := hsl
    have ht : sl.taken = [] := ht
    rw [wp_bind]
    refine wp_mono (inLease_monitorLoop hr (hl.put hsl fun j s _ _ _ hm => by rw [ht] at hm; cases hm)
      fun j hj => ?_) (fun _ _ h => h) fun _ _ h => h
    by_cases hjk : j = k
    · subst hjk
      intro s hs
      have hs : sl.entry = some s := by simpa [Shared.slot] using hs
      have hp : ((sh.put j sl).slot j).peer = sl.peer := by simp [Shared.slot]
      rw [hp]
      exact hin s hs
    · intro s hs
      have hs : (sh.slot j).entry = some s := by simpa [Shared.slot, hjk] using hs
      have hp : ((sh.put k sl).slot j).peer = (sh.slot j).peer := Shared.get?_put_wg_of_ne hjk ht
      rw [hp]
      exact h j (by simp [hjk, hj]) s hs

theorem inLease_monitorOnce {sh : Shared} {now : Time} {calls : PassCalls}
    (hr : ∀ k, calls.remove k = .done) (h : sh.Leased) :
    (monitorOnce now calls).wp (fun _ sh' => ∀ k, (sh'.slot k).InLease now) (fun _ _ => True) sh := by
  have hnone {k : PublicKey} (hk : k ∉ sh.states.keys) : (sh.slot k).InLease now := fun s hs =>
    absurd (Dict.mem_keys.mpr ⟨s, hs⟩) hk
  simp only [monitorOnce, wp_bind, wp_get, wp_ite, wp_pure, wp_queryAll]
  refine ⟨fun he k => hnone (by rw [he]; exact List.not_mem_nil), fun _ => ⟨fun _ => ?_, fun _ _ => trivial⟩⟩
  refine wp_mono (inLease_monitorLoop hr h fun k hk => hnone hk) (fun r sh' hin => ?_) fun _ _ h => h
  simp only [wp_saveAll]
  exact ⟨fun _ => ⟨fun _ => hin, fun _ => trivial⟩, fun _ => hin⟩

/-! ### Runs -/

theorem Fresh.leased {w : World} (h : Fresh w) : w.shared.Leased := fun k => leased_none (h.states k)

/-- No entry outlives its lease without a healthy Direct, in a run of safe steps: an entry whose control
    session has expired rests on its Direct, and a pass of the monitor leaves only entries whose lease
    runs on or whose session has expired with a healthy Direct. -/
theorem lease_kept {w₀ w : World} {ls : List Label} (h₀ : Fresh w₀) (hwg : ∀ l ∈ ls, WgSucceeds l)
    (hsafe : machine.Along LeaseSafe w₀ ls) (hrun : machine.run w₀ ls = some w) :
    (∀ k s, w.shared.states.get? k = some s → s.controlExpired = true →
      s.mode = .direct ∧ s.workerRunning = false) ∧
    ∀ now calls launches sh, (∀ k, calls.remove k = .done) →
      (monitorOnce now calls).run w.shared = (.ok launches, sh) → ∀ k s, sh.states.get? k = some s →
        (PyFloat.fin now).lt s.leaseExpires = true ∨
          s.controlExpired = true ∧ directPeerHealthy (sh.wg.get? k) s.ip now = true := by
  have hinit : w₀.shared.Leased ∧ ∀ t ∈ w₀.threads, t.pc ≠ .probe .cancel :=
    ⟨h₀.leased, by rw [h₀.threads]; nofun⟩
  have h := machine.run_invariant
    (I := fun w => w.shared.Leased ∧ ∀ t ∈ w.threads, t.pc ≠ .probe .cancel)
    (fun w l w' ⟨hwg, hsafe⟩ ⟨hl, hpc⟩ hs => ⟨leased_step hs hwg hsafe hl hpc, uncancelled_step hs hl hpc⟩)
    hinit ((machine.along_of_mem hwg).and hsafe) hrun
  refine ⟨fun k s hs hx => ?_, fun now calls launches sh hr hpass k s hs => ?_⟩
  · obtain ⟨hm, hrun, _⟩ := (h.1 k s hs).expired hx
    exact ⟨hm, hrun⟩
  · exact wp_ok (inLease_monitorOnce hr h.1) hpass k s hs

/-- A process without state, on a device that has the peer of `peerOffer` with its route. -/
def World.routed : World :=
  { World.start with shared := { World.start.shared with
      wg := Dict.empty.set zeroKey ⟨"198.51.100.7:41000".toList, [slash32 "10.0.0.5".toList], 99, 25⟩ } }

/-- The lease of a Direct runs out and the Direct stays, in the next pass as well. -/
theorem lease_kept_routed : ∃ w launches sh s,
    machine.run World.routed [offered 100 .succeed, .monitor 225 .succeed] = some w ∧
      (monitorOnce 230 .succeed).run w.shared = (.ok launches, sh) ∧
        sh.states.get? zeroKey = some s ∧ s.controlExpired = true ∧
          ((PyFloat.fin (230 : Time)).lt s.leaseExpires = true ∨
            s.controlExpired = true ∧ directPeerHealthy (sh.wg.get? zeroKey) s.ip 230 = true) := by
  have hsome : (machine.run World.routed [offered 100 .succeed, .monitor 225 .succeed]).any (fun w =>
      ((monitorOnce 230 .succeed).run w.shared).1.toOption.isSome &&
        (((monitorOnce 230 .succeed).run w.shared).2.states.get? zeroKey).any PeerState.controlExpired) =
          true := by decide +kernel
  obtain ⟨w, hrun, hw⟩ := (Option.any_eq_true _ _).mp hsome
  obtain ⟨hok, hs⟩ := Bool.and_eq_true_iff.mp hw
  obtain ⟨s, hs, hx⟩ := (Option.any_eq_true _ _).mp hs
  have hfinite : (readOffer (nodeEnv 100) peerOffer .responder).toOption.all (fun o : Offer =>
      decide (o.requestedExpiry ≠ .nan)) = true := by decide +kernel
  have hwg : ∀ l ∈ [offered 100 .succeed, .monitor 225 .succeed], WgSucceeds l := by
    simp [offered, WgSucceeds, OfferCalls.succeed, PassCalls.succeed]
  have hsafe : machine.Along LeaseSafe World.routed [offered 100 .succeed, .monitor 225 .succeed] := by
    refine ⟨fun o ho => ?_, fun _ _ => ⟨trivial, fun _ _ => trivial⟩⟩
    rw [ho] at hfinite
    exact of_decide_eq_true hfinite
  obtain ⟨launches, hpass⟩ := exists_ok hok
  exact ⟨w, launches, _, s, hrun, hpass, hs, hx, (lease_kept ⟨fun _ => rfl, rfl, rfl⟩ hwg hsafe hrun).2 230
    .succeed launches _ (fun _ => rfl) hpass zeroKey s hs⟩

/-- The coordinator tells that the session of `peerOffer` has expired. -/
def expiredRemoval : Json := .obj
  [("peer_key".toList, .str zeroKey.1), ("peer_ip".toList, .str "10.0.0.5".toList),
    ("session_id".toList, .str "0a1b2c3d-0000-4000-8000-00000000000f".toList),
    ("reason".toList, .str "expired".toList)]

/-- The session expires between the end of a probe and its confirmation, which finds no handshake. -/
def expiredRun : List Label :=
  confirmRun.dropLast ++ [.remove "10.0.0.9".toList expiredRemoval 102 .succeed,
    .worker 1 (workerCalls 105), .worker 1 { workerCalls 112 with deadline := true },
    .worker 1 (workerCalls 112)]

theorem wgSucceeds_expiredRun : ∀ l ∈ expiredRun, WgSucceeds l := by
  have hcalls (n : Time) (b : Bool) : WorkerCalls.WgSucceed { workerCalls n with deadline := b } :=
    ⟨rfl, rfl, rfl, rfl⟩
  simp only [expiredRun, confirmRun, offered, List.replicate, List.cons_append, List.nil_append,
    List.dropLast_cons_cons, List.dropLast_singleton, List.forall_mem_cons]
  refine ⟨⟨rfl, rfl⟩, trivial, hcalls _ _, hcalls _ _, hcalls _ _, hcalls _ _, trivial, hcalls _ _,
    hcalls _ _, hcalls _ _, hcalls _ _, ⟨rfl, rfl⟩, hcalls _ _, hcalls _ _, hcalls _ _,
    fun _ h => absurd h List.not_mem_nil⟩

/-- The expired entry has lost its Direct, and the next pass of the monitor keeps it and probes it. -/
theorem expired_reprobed : ∃ w launches sh s, machine.run World.start expiredRun = some w ∧
    (∀ l ∈ expiredRun, WgSucceeds l) ∧
      (monitorOnce 116 .succeed).run w.shared = (.ok launches, sh) ∧
        sh.states.get? zeroKey = some s ∧ s.controlExpired = true ∧ s.mode = .probe ∧
          s.workerRunning = true ∧ ¬ ((PyFloat.fin (116 : Time)).lt s.leaseExpires = true ∨
            s.controlExpired = true ∧ directPeerHealthy (sh.wg.get? zeroKey) s.ip 116 = true) := by
  have hsome : (machine.run World.start expiredRun).any (fun w =>
      ((monitorOnce 116 .succeed).run w.shared).1.toOption.isSome &&
        (((monitorOnce 116 .succeed).run w.shared).2.states.get? zeroKey).any fun s : PeerState =>
          decide (s.controlExpired = true ∧ s.mode = .probe ∧ s.workerRunning = true ∧
            ¬ ((PyFloat.fin (116 : Time)).lt s.leaseExpires = true ∨ s.controlExpired = true ∧
              directPeerHealthy (((monitorOnce 116 .succeed).run w.shared).2.wg.get? zeroKey) s.ip 116 =
                true))) = true := by decide +kernel
  obtain ⟨w, hrun, hw⟩ := (Option.any_eq_true _ _).mp hsome
  obtain ⟨hok, hs⟩ := Bool.and_eq_true_iff.mp hw
  obtain ⟨s, hs, hx⟩ := (Option.any_eq_true _ _).mp hs
  obtain ⟨launches, hpass⟩ := exists_ok hok
  obtain ⟨hexp, hmode, hrunning, hnot⟩ := of_decide_eq_true hx
  exact ⟨w, launches, _, s, hrun, wgSucceeds_expiredRun, hpass, hs, hexp, hmode, hrunning, hnot⟩

end Agent
