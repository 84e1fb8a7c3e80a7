import WireguardP2p.Agent.SessionOrder
import WireguardP2p.Agent.LeaseRuns

/-! What a pass of the monitor leaves of the overlay routes. Whatever the other tests of the loop decide, a
    route without a fresh handshake goes with its peer, unless a confirmation is at work on it and no
    lease of it runs out in this pass; a fresh one stays; and an entry that loses its peer does not stay
    Direct. -/

namespace Agent
open Ipaddress Python Candidates Raising

/-- A confirmation is at work on the entry, and no lease of it is over at the time `now`: a session that
    has expired before has none. -/
def Confirming (now : Time) (s : PeerState) : Prop :=
  s.mode = .confirm6 ∧ s.workerRunning = true ∧ leaseOver s now = false

/-- What a pass at the time `now` makes of a key. -/
structure Swept (now : Time) (sl sl' : Slot) : Prop where
  stale : ∀ s, sl.entry = some s → holdsRoute sl.peer s.ip = true →
    freshHandshake sl.peer now = false → ¬ Confirming now s → sl'.peer = none
  fresh : ∀ s, sl.entry = some s → holdsRoute sl.peer s.ip = true →
    freshHandshake sl.peer now = true → sl'.peer = sl.peer
  removed : sl'.peer ≠ sl.peer → ∀ s, sl'.entry = some s → s.mode ≠ .direct

section Sections
variable {sl sl' : Slot} {s : PeerState} {now : Time}

/-- A key whose route is fresh, or is being confirmed, or which has no route. -/
theorem Swept.still (hs : sl.entry = some s) (hp : sl'.peer = sl.peer)
    (h : holdsRoute sl.peer s.ip = true → freshHandshake sl.peer now = true ∨ Confirming now s) :
    Swept now sl sl' := by
  refine ⟨fun t ht hroute hstale hconf => ?_, fun _ _ _ _ => hp, fun hne => absurd hp hne⟩
  obtain rfl := Option.some.inj (hs.symm.trans ht)
  rcases h hroute with hfresh | hc
  · rw [hstale] at hfresh
    cases hfresh
  · exact absurd hc hconf

/-- A key whose peer is gone, as it was not fresh on the route. -/
theorem Swept.gone (hs : sl.entry = some s) (hp : sl'.peer = none)
    (h : holdsRoute sl.peer s.ip = true → freshHandshake sl.peer now = false)
    (hm : ∀ t, sl'.entry = some t → t.mode ≠ .direct) : Swept now sl sl' := by
  refine ⟨fun _ _ _ _ _ => hp, fun t ht hroute hfresh => ?_, fun _ => hm⟩
  obtain rfl := Option.some.inj (hs.symm.trans ht)
  rw [h hroute] at hfresh
  cases hfresh

/-- The device peer is the same, and an entry that is not Direct does not become so. -/
def Undirected (sl sl' : Slot) : Prop :=
  sl'.peer = sl.peer ∧ ((∀ s, sl.entry = some s → s.mode ≠ .direct) →
    ∀ s, sl'.entry = some s → s.mode ≠ .direct)

theorem undirected_monitorLaunch (now : Time) (changed : Bool) (sl : Slot) :
    (monitorLaunch now changed).wp (fun _ sl' => Undirected sl sl') (fun _ _ => False) sl := by
  rw [monitorLaunch, wp_bind, wp_entry]
  cases hs : sl.entry with
  | none => exact ⟨rfl, fun h => h⟩
  | some s =>
    simp only [wp_ite, wp_bind, startProbe, wp_renew, wp_update, wp_entry, wp_pure]
    refine ⟨fun _ => ⟨Slot.peer_renew sl, fun _ t ht => ?_⟩, fun _ => ⟨rfl, fun h => h⟩⟩
    rw [Slot.entry_update, Slot.entry_renew, hs] at ht
    obtain rfl := Option.some.inj ht
    exact fun h => by cases h

theorem undirected_monitorProbe (now : Time) (changed : Bool) (sl : Slot) :
    (monitorProbe now changed).wp (fun _ sl' => Undirected sl sl') (fun _ _ => False) sl := by
  rw [monitorProbe, wp_bind, wp_entry]
  cases hs : sl.entry with
  | none => exact ⟨rfl, fun h => h⟩
  | some s =>
    simp only [wp_ite, wp_bind, wp_update, wp_pure]
    refine ⟨fun _ => ⟨fun _ => ⟨rfl, fun h => h⟩, fun _ => ?_⟩,
      fun _ => undirected_monitorLaunch now changed sl⟩
    refine wp_mono (undirected_monitorLaunch now true _) (fun _ sl' h => ⟨h.1, fun _ => h.2 ?_⟩)
      fun _ _ h => h
    intro t ht
    rw [Slot.entry_update, hs] at ht
    obtain rfl := Option.some.inj ht
    exact fun h => by cases h

/-- The part of the loop after the lease. -/
theorem swept_monitorRoute (changed : Bool) (hs : sl.entry = some s)
    (hl : leaseOver s now = false) : (monitorRoute now .done changed).wp
      (fun _ sl' => Swept now sl sl') (fun _ _ => False) sl := by
  rw [monitorRoute, wp_bind, wp_entry, hs]
  simp only [wp_bind, wp_peer, wp_ite, wp_pure, wp_update, wp_wgSet_done, wp_renew, wp_deleteEntry]
  refine ⟨fun hc => .still hs rfl fun _ => .inr ⟨hc.1, hc.2, hl⟩, fun _ => ⟨fun hroute =>
    ⟨fun hfresh => .still hs rfl fun _ => .inl hfresh, fun hstale => ?_⟩, fun hroute => ?_⟩⟩
  · have hstale : freshHandshake sl.peer now = false := by simpa using hstale
    refine ⟨fun _ => .gone hs (Slot.peer_renew _) (fun _ => hstale) (fun t ht => by cases ht),
      fun _ => ?_⟩
    refine wp_mono (undirected_monitorProbe now true _) (fun _ sl' h => ?_) fun _ _ h => h
    refine .gone hs (h.1.trans (Slot.peer_renew _)) (fun _ => hstale) (h.2 fun t ht => ?_)
    rw [Slot.entry_update, Slot.entry_renew, Slot.entry_execute, hs] at ht
    obtain rfl := Option.some.inj ht
    exact fun h => by cases h
  · exact wp_mono (undirected_monitorProbe now changed sl)
      (fun _ sl' h => .still hs h.1 fun h => absurd h hroute) fun _ _ h => h

/-- A pass over one key. -/
theorem swept_monitorPeer (now : Time) (hip : ∀ s, sl.entry = some s → s.ip ≠ []) :
    (monitorPeer now .done).wp (fun _ sl' => Swept now sl sl') (fun _ _ => False) sl := by
  rw [monitorPeer, wp_bind, wp_entry]
  cases hs : sl.entry with
  | none =>
    refine ⟨fun t ht => ?_, fun t ht => ?_, fun hne => absurd rfl hne⟩
    all_goals
      rw [hs] at ht
      cases ht
  | some s =>
    simp only [wp_ite, wp_bind, wp_peer, wp_update, wp_pure, wp_removeIfPresent, wp_wgSet_done, retire,
      wp_renew, wp_deleteEntry]
    refine ⟨fun _ => ⟨fun hh => ?_, fun hh => ?_⟩, fun hl => ?_⟩
    · have he : (sl.update (PeerState.expire sl.peer)).entry = some (s.expire sl.peer) := by
        rw [Slot.entry_update, hs, Option.map_some]
      rw [directPeerHealthy, Bool.and_eq_true, Bool.and_eq_true] at hh
      exact wp_mono (swept_monitorRoute true he rfl)
        (fun _ sl' h => .still hs (h.fresh _ he hh.1.2 hh.2) fun _ => .inl hh.2) fun _ _ h => h
    · have hstale : holdsRoute sl.peer s.ip = true → freshHandshake sl.peer now = false := by
        intro hroute
        simpa [directPeerHealthy, hip s hs, hroute] using hh
      refine ⟨fun hp => .gone hs ?_ hstale fun t ht => ?_, fun _ => .gone hs ?_ hstale fun t ht => ?_⟩
      · exact (Slot.peer_renew sl).trans hp
      · cases ht
      · exact Slot.peer_renew _
      · cases ht
    · exact swept_monitorRoute false hs (by simpa using hl)

end Sections

/-! ### Passes over STATES -/

/-- Entries carry the overlay IP of an offer. -/
def Shared.HasIps (sh : Shared) : Prop := ∀ k s, sh.states.get? k = some s → s.ip ≠ []

theorem hasIps_step {w w' : World} {l : Label} (hs : machine.step w l = some w')
    (h : w.shared.HasIps) : w'.shared.HasIps := by
  intro k s hks
  have hterms := terms_step (R := fun x => ∀ t, x = some t → t.ip ≠ []) (k := k) hs
    (fun t ht => by cases ht) (fun _ _ _ _ o _ _ _ _ t ht => by
      obtain rfl := Option.some.inj ht
      exact o.peerIp_ne) (fun t ht => by
      obtain ⟨u, hu, rfl⟩ := Option.map_eq_some_iff.mp ht
      exact h k u hu)
  exact hterms s.terms (by rw [Shared.termsOf, hks, Option.map_some])

/-- What the pass made of the keys of the loop, and that it left the others alone. -/
structure SweptAll (now : Time) (keys : List PublicKey) (sh sh' : Shared) : Prop where
  swept : ∀ k ∈ keys, Swept now (sh.slot k) (sh'.slot k)
  other : ∀ k, k ∉ keys → sh'.states.get? k = sh.states.get? k ∧ sh'.wg.get? k = sh.wg.get? k

/-- `Swept` reads the entry and the peer only. -/
theorem Swept.congr {now : Time} {sl sl' sl₁ sl₁' : Slot} (h : Swept now sl sl')
    (he : sl₁.entry = sl.entry) (hp : sl₁.peer = sl.peer) (he' : sl₁'.entry = sl'.entry)
    (hp' : sl₁'.peer = sl'.peer) : Swept now sl₁ sl₁' := by
  constructor
  · rw [he, hp, hp']
    exact h.stale
  · rw [he, hp, hp']
    exact h.fresh
  · rw [hp, hp', he']
    exact h.removed

theorem swept_monitorLoop {now : Time} {remove : PublicKey → Outcome} (hr : ∀ k, remove k = .done)
    (keys : List PublicKey) (hnodup : keys.Nodup) : ∀ sh : Shared, sh.HasIps →
      (monitorLoop now remove keys).wp (fun _ sh' => SweptAll now keys sh sh') (fun _ _ => False) sh := by
  induction keys with
  | nil => exact fun sh _ => ⟨fun k hk => absurd hk List.not_mem_nil, fun k _ => ⟨rfl, rfl⟩⟩
  | cons k ks ih =>
    intro sh hip
    rw [List.nodup_cons] at hnodup
    rw [monitorLoop, hr k, wp_bind, wp_onKey]
    have hterms := terms_monitorPeer (R := fun x => ∀ t, x = some t → t.ip ≠ [])
      (fun t ht => by cases ht) now .done (sh.slot k) (fun t ht => by
        obtain ⟨u, hu, rfl⟩ := Option.map_eq_some_iff.mp ht
        exact hip k u hu)
    refine wp_mono (wp_and (wp_and (swept_monitorPeer now (hip k)) hterms)
      (takesNone_monitorPeer now .done (sh.slot k))) (fun r sl h => ?_) fun _ _ h => h.1.1
    obtain ⟨⟨hsw, hipk⟩, htaken⟩ := h
    have hput : (sh.put k sl).HasIps := by
      intro j s hs
      rw [Shared.get?_put_states] at hs
      by_cases hj : j = k
      · rw [if_pos hj] at hs
        exact hipk s.terms (by rw [hs, Option.map_some])
      · rw [if_neg hj] at hs
        exact hip j s hs
    rw [wp_bind]
    refine wp_mono (ih hnodup.2 (sh.put k sl) hput) (fun _ sh' hrest => ?_) fun _ _ h => h
    have hkeep {j : PublicKey} (hj : j ≠ k) : (sh.put k sl).states.get? j = sh.states.get? j ∧
        (sh.put k sl).wg.get? j = sh.wg.get? j :=
      ⟨by rw [Shared.get?_put_states, if_neg hj], Shared.get?_put_wg_of_ne hj htaken⟩
    refine ⟨fun j hj => ?_, fun j hj => ?_⟩
    · rcases List.mem_cons.mp hj with rfl | hj
      · obtain ⟨hs', hw'⟩ := hrest.other j hnodup.1
        refine hsw.congr rfl rfl ?_ ?_
        · exact hs'.trans (by rw [Shared.get?_put_states, if_pos rfl])
        · exact hw'.trans (by rw [Shared.get?_put_wg, if_pos rfl])
      · have hjk : j ≠ k := fun h => hnodup.1 (h ▸ hj)
        exact (hrest.swept j hj).congr (hkeep hjk).1.symm (hkeep hjk).2.symm rfl rfl
    · rw [List.mem_cons, not_or] at hj
      obtain ⟨hs', hw'⟩ := hrest.other j hj.2
      exact ⟨hs'.trans (hkeep hj.1).1, hw'.trans (hkeep hj.1).2⟩

theorem swept_monitorOnce {sh : Shared} {now : Time} {calls : PassCalls} (hq : calls.query = none)
    (hr : ∀ k, calls.remove k = .done) (hip : sh.HasIps) :
    (monitorOnce now calls).wp (fun _ sh' => SweptAll now sh.states.keys sh sh')
      (fun _ sh' => SweptAll now sh.states.keys sh sh') sh := by
  simp only [monitorOnce, wp_bind, wp_get, wp_ite, wp_pure, wp_queryAll, hq, true_imp_iff, reduceCtorEq,
    false_imp_iff, implies_true, and_true]
  refine ⟨fun he => ?_, fun _ => ?_⟩
  · rw [he]
    exact ⟨fun k hk => absurd hk List.not_mem_nil, fun k _ => ⟨rfl, rfl⟩⟩
  · refine wp_mono (swept_monitorLoop hr _ sh.states.keys_nodup sh hip) (fun r sh' h => ?_)
      fun _ _ h => h.elim
    simp only [wp_saveAll]
    exact ⟨fun _ => ⟨fun _ => h, fun _ => h⟩, fun _ => h⟩

/-- After a pass of the monitor at the time `now`, in any reachable state and with `wg` answering: a key
    whose route was not fresh has lost its peer, unless it was being confirmed and no lease of it was
    over; a key with a fresh route has kept it; the entry of a key that has lost its peer is not Direct;
    and the peers of no entry are as they were. -/
theorem direct_routes_fresh {w₀ w : World} {ls : List Label} (h₀ : Fresh w₀)
    (hrun : machine.run w₀ ls = some w) (now : Time) (calls : PassCalls) (hq : calls.query = none)
    (hr : ∀ k, calls.remove k = .done) :
    (∀ k s, w.shared.states.get? k = some s →
      (holdsRoute (w.shared.wg.get? k) s.ip = true →
        freshHandshake (w.shared.wg.get? k) now = false → ¬ Confirming now s →
          (w.monitor now calls).shared.wg.get? k = none) ∧
      (holdsRoute (w.shared.wg.get? k) s.ip = true →
        freshHandshake (w.shared.wg.get? k) now = true →
          (w.monitor now calls).shared.wg.get? k = w.shared.wg.get? k) ∧
      ((w.monitor now calls).shared.wg.get? k ≠ w.shared.wg.get? k →
        ∀ s', (w.monitor now calls).shared.states.get? k = some s' → s'.mode ≠ .direct)) ∧
    ∀ k, w.shared.states.get? k = none →
      (w.monitor now calls).shared.wg.get? k = w.shared.wg.get? k := by
  have hip : w.shared.HasIps := machine.run_invariant
    (I := fun w => w.shared.HasIps) (fun w l w' _ h hs => hasIps_step hs h)
    (fun k s hs => absurd ((h₀.states k).symm.trans hs) (by simp)) (machine.along_true w₀ ls) hrun
  have hall : SweptAll now w.shared.states.keys w.shared (w.monitor now calls).shared := by
    rw [World.monitor_shared]
    exact wp_run (swept_monitorOnce hq hr hip)
  refine ⟨fun k s hs => ?_, fun k hk => (hall.other k fun hm => ?_).2⟩
  · have hsw := hall.swept k (Dict.mem_keys.mpr ⟨s, hs⟩)
    exact ⟨hsw.stale s hs, hsw.fresh s hs, hsw.removed⟩
  · obtain ⟨s, hs⟩ := Dict.mem_keys.mp hm
    rw [hk] at hs
    cases hs

/-- A probe ends on a handshake of the time 20. -/
def earlyRun : List Label :=
  [offered (100 : ℕ) .succeed, .launch 0] ++ List.replicate 4 (.worker 0 (workerCalls (100 : ℕ))) ++
    [.handshake zeroKey 20] ++ List.replicate 4 (.worker 0 (workerCalls (101 : ℕ)))

/-- At 210 the Direct is too old while its lease runs, and the pass removes its peer. -/
theorem direct_routes_fresh_earlyRun : ∃ w s, machine.run World.start earlyRun = some w ∧
    w.shared.states.get? zeroKey = some s ∧ s.mode = .direct ∧ leaseOver s 210 = false ∧
      holdsRoute (w.shared.wg.get? zeroKey) s.ip = true ∧
        (w.monitor 210 .succeed).shared.wg.get? zeroKey = none := by
  have hsome : (machine.run World.start earlyRun).any (fun w =>
      (w.shared.states.get? zeroKey).any fun s : PeerState =>
        decide (s.mode = .direct ∧ leaseOver s 210 = false ∧
          holdsRoute (w.shared.wg.get? zeroKey) s.ip = true ∧
            freshHandshake (w.shared.wg.get? zeroKey) 210 = false)) = true := by decide +kernel
  obtain ⟨w, hrun, hw⟩ := (Option.any_eq_true _ _).mp hsome
  obtain ⟨s, hs, hx⟩ := (Option.any_eq_true _ _).mp hw
  obtain ⟨hmode, hlease, hroute, hstale⟩ := of_decide_eq_true hx
  have hconf : ¬ Confirming 210 s := fun hc => absurd (hmode.symm.trans hc.1) (by decide)
  exact ⟨w, s, hrun, hs, hmode, hlease, hroute, ((direct_routes_fresh ⟨fun _ => rfl, rfl, rfl⟩ hrun 210
    .succeed rfl fun _ => rfl).1 zeroKey s hs).1 hroute hstale hconf⟩

/-- The session of an entry has expired, its delayed confirmation recreates the peer, and the pass keeps
    the route that has no handshake. -/
theorem stale_route_kept : ∃ w s p, machine.run World.start expiredRun.dropLast.dropLast = some w ∧
    (∀ l ∈ expiredRun.dropLast.dropLast, WgSucceeds l) ∧
    w.shared.states.get? zeroKey = some s ∧ s.controlExpired = true ∧ s.leaseExpires = .fin 0 ∧
      holdsRoute (w.shared.wg.get? zeroKey) s.ip = true ∧
        freshHandshake (w.shared.wg.get? zeroKey) 106 = false ∧
          (w.monitor 106 .succeed).shared.wg.get? zeroKey = some p := by
  have hsome : (machine.run World.start expiredRun.dropLast.dropLast).any (fun w =>
      ((w.monitor 106 .succeed).shared.wg.get? zeroKey).isSome &&
        (w.shared.states.get? zeroKey).any fun s : PeerState =>
          decide (s.controlExpired = true ∧ s.leaseExpires = .fin 0 ∧
            holdsRoute (w.shared.wg.get? zeroKey) s.ip = true ∧
              freshHandshake (w.shared.wg.get? zeroKey) 106 = false)) = true := by decide +kernel
  obtain ⟨w, hrun, hw⟩ := (Option.any_eq_true _ _).mp hsome
  rw [Bool.and_eq_true] at hw
  obtain ⟨p, hp⟩ := Option.isSome_iff_exists.mp hw.1
  obtain ⟨s, hs, hx⟩ := (Option.any_eq_true _ _).mp hw.2
  obtain ⟨hexp, hlease, hroute, hstale⟩ := of_decide_eq_true hx
  have hwg : ∀ l ∈ expiredRun.dropLast.dropLast, WgSucceeds l := fun l hl =>
    wgSucceeds_expiredRun l (List.mem_of_mem_dropLast (List.mem_of_mem_dropLast hl))
  exact ⟨w, s, p, hrun, hwg, hs, hexp, hlease, hroute, hstale, hp⟩

end Agent
