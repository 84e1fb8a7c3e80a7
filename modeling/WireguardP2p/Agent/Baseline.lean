import WireguardP2p.Agent.Lives

/-! The peers that are not the agent's. A section other than that of an offer does nothing to a key without
    an entry, and the only allowed IPs a worker takes from other peers are host routes; so a peer without a
    host route whose key no offer names, such as the one of the relay, is left alone for good. -/

namespace Agent
open Ipaddress Python Candidates Raising

/-! ### Sections on a key without an entry -/

section NoEntry
variable {sl : Slot}

/-- The program does nothing. -/
abbrev Still {α : Type} (p : Section α) (sl : Slot) : Prop :=
  p.wp (fun _ sl' => sl' = sl) (fun _ sl' => sl' = sl) sl

theorem still_removeSection (r : Removal) (now : Time) (calls : RemoveCalls) (hs : sl.entry = none) :
    Still (removeSection r now calls) sl := by
  rw [Still, removeSection, wp_bind, wp_entry, hs]
  rfl

theorem still_monitorPeer (now : Time) (remove : Outcome) (hs : sl.entry = none) :
    Still (monitorPeer now remove) sl := by
  rw [Still, monitorPeer, wp_bind, wp_entry, hs]
  rfl

theorem still_cleanupPeer (active : Bool) (remove : Outcome) (hs : sl.entry = none) :
    Still (cleanupPeer active remove) sl := by
  rw [Still, cleanupPeer, wp_bind, wp_entry, hs]
  rfl

end NoEntry

/-! ### The allowed IPs a worker takes -/

section Taken

/-- The section has taken host routes only. -/
def Slot.HostRoutes (sl : Slot) : Prop := ∀ a ∈ sl.taken, isHostRoute a = true

theorem isHostRoute_slash32 (ip : Text) : isHostRoute (slash32 ip) = true :=
  List.isSuffixOf_iff_suffix.mpr (List.suffix_append ip _)

/-- The command takes host routes only. -/
def Command.HostRoutes (c : Command) : Prop := ∀ a ∈ c.taken, isHostRoute a = true

theorem hostRoutes_route (ip endpoint : Text) (n : ℕ) : (Command.route (slash32 ip) endpoint n).HostRoutes := by
  intro a ha
  obtain rfl := List.mem_singleton.mp ha
  exact isHostRoute_slash32 ip

theorem hostRoutes_remove : Command.remove.HostRoutes := fun _ ha => absurd ha List.not_mem_nil

theorem hostRoutes_endpoint (endpoint : Text) (n : ℕ) : (Command.endpoint endpoint n).HostRoutes :=
  fun _ ha => absurd ha List.not_mem_nil

variable {c : Command}

theorem hostRoutes_execute {sl : Slot} (hc : c.HostRoutes) (h : sl.HostRoutes) : (sl.execute c).HostRoutes := by
  intro a ha
  rcases List.mem_append.mp ha with ha | ha
  · exact hc a ha
  · exact h a ha

theorem hostRoutes_wgSet (hc : c.HostRoutes) (o : Outcome) : Keeps Slot.HostRoutes (wgSet o c) := fun _ h =>
  (wp_wgSet o c).mpr ⟨fun _ => hostRoutes_execute hc h, fun _ => h, fun _ => hostRoutes_execute hc h⟩

theorem hostRoutes_tryWgSet (hc : c.HostRoutes) (o : Outcome) : Keeps Slot.HostRoutes (tryWgSet o c) :=
  .handle (hostRoutes_wgSet hc o) fun _ => .pure _

theorem hostRoutes_update (f : PeerState → PeerState) : Keeps Slot.HostRoutes (update f) := fun _ h => h

theorem hostRoutes_renew : Keeps Slot.HostRoutes renew := fun sl h => by
  rw [wp_renew, Slot.HostRoutes, Slot.taken_renew]
  exact h

theorem hostRoutes_giveUp (calls : WorkerCalls) : Keeps Slot.HostRoutes (giveUp calls) :=
  .bind (hostRoutes_tryWgSet hostRoutes_remove _) fun _ => .bind (hostRoutes_update _) fun _ =>
    .bind (keeps_saveState _) fun _ => .pure _

theorem hostRoutes_probeStep (g : ℕ) (calls : WorkerCalls) :
    ∀ pc : ProbePc, Keeps Slot.HostRoutes (probeStep g calls pc)
  | .start => keeps_match (.pure _) fun _ => .ite (fun _ => .pure _) fun _ =>
      .ite (fun _ => .pure _) fun _ => .pure _
  | .cancel => keeps_match (.pure _) fun _ => .ite (fun _ => .bind (hostRoutes_update _)
      fun _ => .bind (keeps_saveState _) fun _ => .pure _) fun _ => .pure _
  | .check _ [] => .pure _
  | .check _ (_ :: _) => .bind keeps_entry fun _ => .ite (fun _ => .pure _) fun _ => .pure _
  | .baseline .. => .bind (keeps_queryPeers _) fun _ => .bind keeps_peer fun _ => .pure _
  | .configure .. => .bind keeps_entry fun _ => .ite (fun _ => .pure _) fun _ => .ite
      (fun _ => .bind (hostRoutes_wgSet (hostRoutes_endpoint _ _) _) fun _ => .bind (hostRoutes_update _)
        fun _ => .bind (keeps_saveState _) fun _ => .pure _)
      fun _ => .bind (hostRoutes_tryWgSet (hostRoutes_endpoint _ _) _) fun _ => .pure _
  | .wait .. => .ite (fun _ => .pure _) fun _ => .ite (fun _ => .pure _) fun _ =>
      .bind keeps_entry fun _ => .ite (fun _ => .pure _) fun _ => .pure _
  | .poll .. => .bind (keeps_queryPeers _) fun _ => .bind keeps_peer fun p => by
      cases p with
      | none => exact .pure _
      | some p => exact .ite (fun _ => .pure _) fun _ => .pure _
  | .promote .. => keeps_match (.pure _) fun _ => .ite (fun _ => .pure _) fun _ =>
      .bind (hostRoutes_wgSet (hostRoutes_route _ _ _) _) fun _ => .bind (hostRoutes_update _) fun _ =>
        .bind (keeps_saveState _) fun _ => .pure _
  | .rekey .. => .ite (fun _ => .pure _) fun _ => .pure _
  | .fail => .bind keeps_entry fun _ => .ite (fun _ => .pure _) fun _ => hostRoutes_giveUp calls

theorem hostRoutes_confirmStep (g : ℕ) (calls : WorkerCalls) :
    ∀ pc : ConfirmPc, Keeps Slot.HostRoutes (confirmStep g calls pc)
  | .setup .. => .ite (fun _ => .pure _) fun _ => .bind keeps_entry fun _ => .ite (fun _ => .pure _)
      fun _ => .bind (hostRoutes_update _) fun _ => .ite
        (fun _ => .bind (hostRoutes_wgSet hostRoutes_remove _) fun _ =>
          .bind (hostRoutes_wgSet (hostRoutes_route _ _ _) _) fun _ =>
            .bind (keeps_saveState _) fun _ => .pure _)
        fun _ => .bind (.handle (.bind (hostRoutes_wgSet hostRoutes_remove _) fun _ =>
          hostRoutes_wgSet (hostRoutes_route _ _ _) _) fun _ => .pure _) fun _ =>
            .bind (hostRoutes_tryWgSet hostRoutes_remove _) fun _ => .bind (hostRoutes_update _) fun _ =>
              .bind (keeps_saveState _) fun _ => .pure _
  | .poll .. => .ite (fun _ => .pure _) fun _ => .ite (fun _ => .pure _) fun _ =>
      .bind (keeps_queryPeers _) fun _ => .bind keeps_peer fun p => by
        cases p with
        | none => exact .pure _
        | some p => exact .ite (fun _ => .pure _) fun _ => .pure _
  | .finalize .. => .bind keeps_entry fun _ => .ite (fun _ => .pure _) fun _ => .ite
      (fun _ => .bind (hostRoutes_wgSet (hostRoutes_route _ _ _) _) fun _ => .bind (hostRoutes_update _)
        fun _ => .bind (keeps_saveState _) fun _ => .pure _)
      fun _ => .bind (hostRoutes_tryWgSet (hostRoutes_route _ _ _) _) fun _ => .pure _
  | .fail => .bind keeps_entry fun _ => .ite (fun _ => .pure _) fun _ => hostRoutes_giveUp calls

theorem hostRoutes_threadStep (t : Thread) (calls : WorkerCalls) : Keeps Slot.HostRoutes (t.step calls) := by
  unfold Thread.step
  cases t.pc with
  | probe pc => exact .handle (hostRoutes_probeStep _ calls pc) fun _ => .pure _
  | confirm pc => exact .handle (hostRoutes_confirmStep _ calls pc) fun _ => .pure _
  | cleanup =>
    refine keeps_match (.pure _) fun s => .ite (fun _ => ?_) fun _ => .pure _
    exact .bind (hostRoutes_tryWgSet hostRoutes_remove _) fun _ => .bind hostRoutes_renew fun _ =>
      .bind (hostRoutes_update _) fun _ =>
        .bind (.handle (keeps_saveState _) fun _ => .pure _) fun _ => .pure _
  | finished => exact .pure _

end Taken

/-! ### Keys without an entry -/

/-- What the administrator has set up for a key: the allowed IPs, if there is a peer. -/
def Shared.routes (sh : Shared) (k : PublicKey) : Option (List Text) := (sh.wg.get? k).map WgPeer.allowedIps

/-- A key of `B` has no entry, no command names it, and its peer has the allowed IPs of `device`, none of
    which is a host route. -/
structure Apart (B : PublicKey → Prop) (device : PublicKey → Option (List Text)) (sh : Shared) : Prop where
  commands : ∀ k, B k → sh.commands k = []
  routes : ∀ k, B k → sh.routes k = device k
  states : ∀ k, B k → sh.states.get? k = none

/-- None of the allowed IPs is a host route. -/
def Plainly (B : PublicKey → Prop) (device : PublicKey → Option (List Text)) : Prop :=
  ∀ k, B k → ∀ ips, device k = some ips → ∀ a ∈ ips, isHostRoute a = false

section Apart
variable {B : PublicKey → Prop} {device : PublicKey → Option (List Text)} {sh : Shared}

theorem routes_steal {taken : List Text} {p : Option WgPeer} {ips : List Text}
    (hp : p.map WgPeer.allowedIps = some ips) (hplain : ∀ a ∈ ips, isHostRoute a = false)
    (htaken : ∀ a ∈ taken, isHostRoute a = true) :
    (p.map (Shared.steal taken)).map WgPeer.allowedIps = some ips := by
  obtain ⟨q, rfl, rfl⟩ := Option.map_eq_some_iff.mp hp
  rw [Option.map_some, Option.map_some, Option.some.injEq]
  refine List.filter_eq_self.mpr fun a ha => decide_eq_true fun hm => ?_
  have hhost := htaken a hm
  rw [hplain a ha] at hhost
  cases hhost

/-- A section that does nothing to a key of `B` and takes host routes only. -/
theorem Apart.onKey {α : Type} {p : Section α} {j : PublicKey} (h : Apart B device sh)
    (hplain : Plainly B device)
    (hp : p.wp (fun _ sl => (B j → sl = sh.slot j) ∧ sl.HostRoutes)
      (fun _ sl => (B j → sl = sh.slot j) ∧ sl.HostRoutes) (sh.slot j)) :
    Leaves (Apart B device) (Agent.onKey j p) sh := by
  have hput {sl : Slot} (hsl : (B j → sl = sh.slot j) ∧ sl.HostRoutes) : Apart B device (sh.put j sl) := by
    by_cases hj : B j
    · rw [hsl.1 hj, Shared.put_slot]
      exact h
    · have hne : ∀ k, B k → k ≠ j := fun k hk he => hj (he ▸ hk)
      refine ⟨fun k hk => ?_, fun k hk => ?_, fun k hk => ?_⟩
      · rw [Shared.commands_put, if_neg (hne k hk)]
        exact h.commands k hk
      · rw [Shared.routes, Shared.get?_put_wg, if_neg (hne k hk)]
        have hr := h.routes k hk
        cases hd : device k with
        | none =>
          rw [hd, Shared.routes, Option.map_eq_none_iff] at hr
          rw [hr]
          rfl
        | some ips => exact routes_steal (hr.trans hd) (hplain k hk ips hd) hsl.2
      · rw [Shared.get?_put_states, if_neg (hne k hk)]
        exact h.states k hk
  exact wp_onKey.mpr (wp_mono hp (fun _ _ => hput) fun _ _ => hput)

/-- A section that takes nothing, and does nothing to a key without an entry. -/
theorem Apart.onKey_still {α : Type} {p : Section α} {j : PublicKey} (h : Apart B device sh)
    (hplain : Plainly B device) (hstill : (sh.slot j).entry = none → Still p (sh.slot j))
    (htaken : TakesNone p (sh.slot j)) : Leaves (Apart B device) (Agent.onKey j p) sh := by
  refine h.onKey hplain ?_
  have hroutes {sl : Slot} (ht : sl.taken = (sh.slot j).taken) : sl.HostRoutes := fun a ha =>
    absurd (ht ▸ ha : a ∈ (sh.slot j).taken) List.not_mem_nil
  by_cases hj : B j
  · exact wp_mono (wp_and (hstill (h.states j hj)) htaken) (fun _ _ hq => ⟨fun _ => hq.1, hroutes hq.2⟩)
      fun _ _ hq => ⟨fun _ => hq.1, hroutes hq.2⟩
  · exact wp_mono htaken (fun _ _ ht => ⟨fun hb => absurd hb hj, hroutes ht⟩)
      fun _ _ ht => ⟨fun hb => absurd hb hj, hroutes ht⟩

/-- No accepted offer names a key of `B`. -/
def Label.Avoids (B : PublicKey → Prop) : Label → Prop
  | .offer env data controller _ => ∀ o, readOffer env data controller = .ok o → ¬ B o.key
  | _ => True

theorem apart_step {w w' : World} {l : Label} (hplain : Plainly B device)
    (hs : machine.step w l = some w') (havoid : l.Avoids B) (h : Apart B device w.shared) :
    Apart B device w'.shared := by
  refine shared_step hs h (fun env data controller calls o hl ho => ?_) (fun _ data now calls r _ => ?_)
    (fun now calls k _ sh hsh => ?_) (fun active calls k _ sh hsh => ?_) (fun i calls t _ _ => ?_)
    fun k p q hp hq _ => ?_
  · subst hl
    refine h.onKey hplain (wp_mono (takesNone_offerSection o calls (w.shared.slot o.key)) (fun _ _ ht => ?_)
      fun _ _ ht => ?_)
    · exact ⟨fun hb => absurd hb (havoid o ho), fun a ha => absurd (ht ▸ ha) List.not_mem_nil⟩
    · exact ⟨fun hb => absurd hb (havoid o ho), fun a ha => absurd (ht ▸ ha) List.not_mem_nil⟩
  · exact h.onKey_still hplain (still_removeSection r now calls) (takesNone_removeSection r now calls _)
  · exact hsh.onKey_still hplain (still_monitorPeer now _) (takesNone_monitorPeer now _ _)
  · exact hsh.onKey_still hplain (still_cleanupPeer _ _) (takesNone_cleanupPeer _ _ _)
  · have hroutes := hostRoutes_threadStep t calls (w.shared.slot t.key) fun a ha => absurd ha List.not_mem_nil
    refine h.onKey hplain ?_
    by_cases hb : B t.key
    · exact wp_mono (wp_and (still_of_no_entry t calls (h.states t.key hb)) hroutes)
        (fun _ _ hq => ⟨fun _ => hq.1, hq.2⟩) fun _ _ hq => ⟨fun _ => hq.1, hq.2⟩
    · exact wp_mono hroutes (fun _ _ hq => ⟨fun hc => absurd hc hb, hq⟩)
        fun _ _ hq => ⟨fun hc => absurd hc hb, hq⟩
  · refine ⟨h.commands, fun j hj => ?_, h.states⟩
    rw [Shared.routes, Dict.get?_set]
    by_cases hjk : j = k
    · rw [if_pos hjk, Option.map_some, hq, ← h.routes j hj, Shared.routes, hjk, hp, Option.map_some]
    · rw [if_neg hjk]
      exact h.routes j hj

end Apart

/-! ### Runs of the host -/

/-- No accepted offer names a key of `B`, before a restart or after. -/
def HostLabel.Avoids (B : PublicKey → Prop) : HostLabel → Prop
  | .act l _ => l.Avoids B
  | .restart _ => True

/-- Neither STATE_FILE nor the process knows a key of `B`. -/
structure HostApart (B : PublicKey → Prop) (device : PublicKey → Option (List Text)) (h : Host) : Prop where
  file : ∀ k, B k → h.file.states.get? k = none
  world : Apart B device h.world.shared

section Host
variable {B : PublicKey → Prop} {device : PublicKey → Option (List Text)} {h h' : Host}

theorem hostApart_step {l : HostLabel} (hplain : Plainly B device) (hs : hostMachine.step h l = some h')
    (havoid : l.Avoids B) (hh : HostApart B device h) : HostApart B device h' := by
  cases l with
  | act l file =>
    obtain ⟨_, hstep, hfollows, hfile, _⟩ := act_step hs
    have hworld := apart_step hplain hstep havoid hh.world
    refine ⟨fun k hk => ?_, hworld⟩
    rw [hfile]
    rcases hfollows with rfl | hkeys
    · exact hh.file k hk
    · by_contra hne
      obtain ⟨s, hs⟩ := Option.ne_none_iff_exists'.mp hne
      obtain ⟨s', hs'⟩ := Dict.mem_keys.mp (hkeys k (Dict.mem_keys.mpr ⟨s, hs⟩))
      exact absurd ((hworld.states k hk).symm.trans hs') (by simp)
  | restart calls =>
    obtain ⟨hfile, hworld, _⟩ := restart_step hs
    have honly := only_boot h.world h.file calls
    refine ⟨fun k hk => hfile ▸ hh.file k hk, ?_⟩
    rw [hworld]
    have hno : ∀ k, B k → ¬ Shared.Orphan { h.world.shared with
        states := (loadState h.file).1, lastGeneration := (loadState h.file).2 } k := by
      rintro k hk ⟨_, p, hp, hroute⟩
      obtain ⟨a, ha, hhost⟩ := List.any_eq_true.mp hroute
      have hdevice : device k = some p.allowedIps := by
        rw [← hh.world.routes k hk, Shared.routes, show h.world.shared.wg.get? k = some p from hp]
        rfl
      rw [hplain k hk _ hdevice a ha] at hhost
      cases hhost
    refine ⟨fun k hk => ?_, fun k hk => ?_, fun k hk => ?_⟩
    · exact (honly.kept k (hno k hk)).2.trans (hh.world.commands k hk)
    · rw [Shared.routes, (honly.kept k (hno k hk)).1]
      exact hh.world.routes k hk
    · rw [honly.states]
      exact loadState_none.mpr (hh.file k hk)

end Host

/-- The agent leaves alone every peer that holds no host route and that neither STATE_FILE at first nor an
    accepted offer names: over any number of restarts no command names it, its allowed IPs stay, and
    STATE_FILE never names it. -/
theorem baseline_untouched {B : PublicKey → Prop} {file : StateFile} {device : Dict PublicKey WgPeer}
    {h : Host} {ls : List HostLabel} (hfile : ∀ k, B k → file.states.get? k = none)
    (hplain : ∀ k, B k → ∀ p, device.get? k = some p → ∀ a ∈ p.allowedIps, isHostRoute a = false)
    (havoid : ∀ l ∈ ls, l.Avoids B) (hrun : hostMachine.run (.off file device) ls = some h) (k : PublicKey)
    (hk : B k) : (∀ c, (k, c) ∉ h.world.shared.issued) ∧
      (h.world.shared.wg.get? k).map WgPeer.allowedIps = (device.get? k).map WgPeer.allowedIps ∧
        h.world.shared.states.get? k = none ∧ h.file.states.get? k = none := by
  let routes : PublicKey → Option (List Text) := fun j => (device.get? j).map WgPeer.allowedIps
  have hplainly : Plainly B routes := by
    intro j hj ips hips
    obtain ⟨p, hp, rfl⟩ := Option.map_eq_some_iff.mp hips
    exact hplain j hj p hp
  have hinit : HostApart B routes (.off file device) := ⟨hfile, fun _ _ => rfl, fun _ _ => rfl, fun _ _ => rfl⟩
  have hh := hostMachine.run_invariant (I := HostApart B routes)
    (fun _ _ _ ha hh hs => hostApart_step hplainly hs ha hh) hinit (hostMachine.along_of_mem havoid) hrun
  refine ⟨fun c hc => ?_, hh.world.routes k hk, hh.world.states k hk, hh.file k hk⟩
  have hmem : c ∈ h.world.shared.commands k :=
    List.mem_map.mpr ⟨(k, c), List.mem_filter.mpr ⟨hc, decide_eq_true rfl⟩, rfl⟩
  rw [hh.world.commands k hk] at hmem
  exact List.not_mem_nil hmem

/-- Another key, and the peer of the relay under it. -/
def relayKey : PublicKey := ⟨'E' :: List.replicate 42 'A' ++ ['='], by decide⟩

def relayPeer : WgPeer := ⟨"203.0.113.1:51820".toList, ["10.0.0.0/24".toList], 95, 25⟩

/-- The host of the relay and of a peer an earlier process has left. -/
def relayHost : Host := .off .unusable ((Dict.empty.set relayKey relayPeer).set zeroKey leftPeer)

/-- Two processes, the first of which takes an offer of the other peer. -/
def relayRun : List HostLabel := secondLife ++ [.restart .succeed]

/-- The relay keeps its allowed IPs and no command names it; the other peer is gone. -/
theorem baseline_untouched_relayRun : ∃ h, hostMachine.run relayHost relayRun = some h ∧
    h.world.shared.wg.get? zeroKey = none ∧ (∀ c, (relayKey, c) ∉ h.world.shared.issued) ∧
      (h.world.shared.wg.get? relayKey).map WgPeer.allowedIps = some ["10.0.0.0/24".toList] := by
  have hsome : (hostMachine.run relayHost relayRun).any (fun h =>
      (h.world.shared.wg.get? zeroKey).isNone) = true := by decide +kernel
  obtain ⟨h, hrun, hnone⟩ := (Option.any_eq_true _ _).mp hsome
  have hoffer : (readOffer (nodeEnv 100) peerOffer .responder).toOption.all (fun o =>
      decide (o.key ≠ relayKey)) = true := by decide +kernel
  have havoid : ∀ l ∈ relayRun, l.Avoids (· = relayKey) := by
    intro l hl
    simp only [relayRun, secondLife, confirmRun, offered, List.replicate, List.cons_append, List.nil_append,
      List.take_succ_cons, List.take_zero, List.map_cons, List.map_nil, List.mem_cons, List.not_mem_nil,
      or_false] at hl
    rcases hl with rfl | rfl | rfl | rfl | rfl | rfl | rfl | rfl | rfl | rfl | rfl | rfl
    · trivial
    · intro o ho
      rw [ho] at hoffer
      exact of_decide_eq_true hoffer
    all_goals trivial
  have hplain : ∀ k, k = relayKey → ∀ p,
      ((Dict.empty.set relayKey relayPeer).set zeroKey leftPeer).get? k = some p →
        ∀ a ∈ p.allowedIps, isHostRoute a = false := by
    rintro _ rfl p hp
    have hrelay : ((Dict.empty.set relayKey relayPeer).set zeroKey leftPeer).get? relayKey =
        some relayPeer := by decide +kernel
    obtain rfl := Option.some.inj (hrelay.symm.trans hp)
    decide
  obtain ⟨hcmd, hroutes, _⟩ := @baseline_untouched (· = relayKey) _ _ h relayRun (fun _ _ => rfl) hplain
    havoid hrun relayKey rfl
  exact ⟨h, hrun, Option.isNone_iff_eq_none.mp hnone, hcmd, hroutes⟩

end Agent
