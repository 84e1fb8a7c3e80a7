import WireguardP2p.Agent.Orphans
import WireguardP2p.Agent.RouteRuns
import WireguardP2p.Agent.Startup

/-! The agent across restarts. A process may end at any point; the next one starts from STATE_FILE and the
    device as they are, and serves only if its start has gone through. A step may save: STATE_FILE then
    names keys that have an entry, or it is what it was. -/

namespace Agent
open Ipaddress Python Candidates Raising

/-- The host of the agent: STATE_FILE, the process with the device, and whether the process serves. -/
structure Host where
  file : StateFile
  world : World
  serving : Bool

/-- A step of the process or the device with what STATE_FILE holds after it, or a new process. -/
inductive HostLabel
  | act (l : Label) (file : StateFile)
  | restart (calls : StartCalls)

/-- The device changes without the agent. -/
def Label.isDevice : Label → Bool
  | .handshake .. => true
  | .roam .. => true
  | _ => false

/-- STATE_FILE after a step: as it was, or saved at some point of the step. -/
def StateFile.Follows (file old : StateFile) (sh : Shared) : Prop :=
  file = old ∨ ∀ k ∈ file.states.keys, k ∈ sh.states.keys

instance (file old : StateFile) (sh : Shared) : Decidable (file.Follows old sh) :=
  inferInstanceAs (Decidable (_ ∨ _))

namespace Host

/-- The host before the agent is started for the first time. -/
def off (file : StateFile) (device : Dict PublicKey WgPeer) : Host :=
  ⟨file, ⟨⟨.empty, device, 0, []⟩, [], []⟩, false⟩

def step (h : Host) : HostLabel → Option Host
  | .act l file =>
    if h.serving = true ∨ l.isDevice = true then
      (h.world.step l).bind fun w =>
        if file.Follows h.file w.shared then some ⟨file, w, h.serving⟩ else none
    else none
  | .restart calls =>
    let r := h.world.boot h.file calls
    some ⟨h.file, r.2, r.1.toOption.isSome⟩

end Host

/-- The machine of the host. -/
def hostMachine : Runs.Machine Host HostLabel := ⟨Host.step⟩

theorem act_step {h h' : Host} {l : Label} {file : StateFile} (hs : hostMachine.step h (.act l file) = some h') :
    (h.serving = true ∨ l.isDevice = true) ∧ machine.step h.world l = some h'.world ∧
      file.Follows h.file h'.world.shared ∧ h'.file = file ∧ h'.serving = h.serving := by
  rw [show hostMachine.step h (.act l file) = h.step (.act l file) from rfl, Host.step] at hs
  by_cases hen : h.serving = true ∨ l.isDevice = true
  · rw [if_pos hen] at hs
    obtain ⟨w, hw, hs⟩ := Option.bind_eq_some_iff.mp hs
    by_cases hf : file.Follows h.file w.shared
    · rw [if_pos hf] at hs
      obtain rfl := Option.some.inj hs
      exact ⟨hen, hw, hf, rfl, rfl⟩
    · rw [if_neg hf] at hs
      cases hs
  · rw [if_neg hen] at hs
    cases hs

theorem restart_step {h h' : Host} {calls : StartCalls} (hs : hostMachine.step h (.restart calls) = some h') :
    h'.file = h.file ∧ h'.world = (h.world.boot h.file calls).2 ∧
      (h'.serving = true → (h.world.boot h.file calls).1 = .ok ()) := by
  obtain rfl := Option.some.inj hs
  refine ⟨rfl, rfl, fun hok => ?_⟩
  change ((h.world.boot h.file calls).1.toOption.isSome = true) at hok
  cases hr : (h.world.boot h.file calls).1 with
  | ok _ => rfl
  | error e =>
    rw [hr] at hok
    cases hok

/-! ### The device outside the workers -/

section Peers
variable {D : Option WgPeer → Prop}

/-- The program keeps what holds of the device peer. -/
abbrev KeepsPeer {α : Type} (D : Option WgPeer → Prop) (p : Section α) : Prop := Keeps (fun sl => D sl.peer) p

theorem peer_wgSet_remove (hD : D none) (o : Outcome) : KeepsPeer D (wgSet o .remove) := fun _ h =>
  (wp_wgSet o .remove).mpr ⟨fun _ => hD, fun _ => h, fun _ => hD⟩

theorem peer_removeIfPresent (hD : D none) (o : Outcome) : KeepsPeer D (removeIfPresent o) := fun sl h =>
  (wp_removeIfPresent o).mpr ⟨fun _ => h, fun _ => peer_wgSet_remove hD o sl h⟩

theorem keepsPeer_update (f : PeerState → PeerState) : KeepsPeer D (update f) := fun _ h => h

theorem keepsPeer_renew : KeepsPeer D renew := fun sl h => by
  rw [wp_renew, Slot.peer_renew]
  exact h

theorem keepsPeer_deleteEntry : KeepsPeer D deleteEntry := fun _ h => h

theorem peer_retire : KeepsPeer D retire := .bind keepsPeer_renew fun _ => keepsPeer_update _

theorem peer_createEntry (o : Offer) : KeepsPeer D (createEntry o) := fun _ h => h

theorem peer_replaceEntry (hD : D none) (o : Offer) (calls : OfferCalls) :
    KeepsPeer D (replaceEntry o calls) := by
  refine keeps_match (peer_createEntry o) fun s => .ite (fun _ => ?_) fun _ => .ite (fun _ => ?_)
    fun _ => .pure _
  · exact .bind peer_retire fun _ => .bind (peer_removeIfPresent hD _) fun _ => peer_createEntry o
  · refine .bind keeps_peer fun p => .bind peer_retire fun _ => .ite (fun _ => ?_) fun _ => ?_
    · exact .bind keeps_peer fun _ => keepsPeer_update _
    · exact .bind (peer_removeIfPresent hD _) fun _ => peer_createEntry o

theorem peer_followSignature (hD : D none) (o : Offer) (calls : OfferCalls) :
    KeepsPeer D (followSignature o calls) := by
  refine .bind keeps_entry fun e => ?_
  cases e with
  | none => exact .pure _
  | some s =>
    refine .ite (fun _ => .bind (keepsPeer_update _) fun _ => .bind keepsPeer_renew fun _ =>
      .bind (keepsPeer_update _) fun _ => .bind keeps_peer fun p => .ite (fun _ => ?_) fun _ => ?_)
      fun _ => .pure _
    · exact .bind (keepsPeer_update _) fun _ => keeps_saveState _
    · exact .bind (peer_removeIfPresent hD _) fun _ => keepsPeer_update _

theorem peer_followDirect (hD : D none) (o : Offer) (calls : OfferCalls) :
    KeepsPeer D (followDirect o calls) := by
  refine .bind keeps_peer fun p => .ite (fun _ => .ite (fun _ => ?_) fun _ => ?_) fun _ => .pure _
  · exact .bind (keepsPeer_update _) fun _ => keeps_saveState _
  · exact .bind (peer_wgSet_remove hD _) fun _ => .bind keepsPeer_renew fun _ => keepsPeer_update _

theorem peer_startProbe : KeepsPeer D startProbe :=
  .bind keepsPeer_renew fun _ => .bind (keepsPeer_update _) fun _ => .bind keeps_entry fun _ => .pure _

theorem peer_launchIfDue (o : Offer) : KeepsPeer D (launchIfDue o) :=
  .bind keeps_peer fun _ => keeps_match (.pure _) fun _ =>
    .ite (fun _ => .bind peer_startProbe fun _ => .pure _) fun _ => .pure _

theorem peer_offerSection (hD : D none) (o : Offer) (calls : OfferCalls) :
    KeepsPeer D (offerSection o calls) := by
  refine .bind (keeps_queryPeers _) fun _ => .bind keeps_entry fun e => ?_
  cases sessionCheck e o with
  | stale => exact .pure _
  | startChanged => exact .raise _
  | current =>
    refine .bind (.bind ?_ fun _ => .bind (keeps_saveState _) fun _ => .pure _) fun _ => .pure _
    exact .bind (peer_replaceEntry hD o calls) fun _ => .bind (keepsPeer_update _) fun _ =>
      .bind (peer_followSignature hD o calls) fun _ => .bind (peer_followDirect hD o calls) fun _ =>
        peer_launchIfDue o

theorem peer_removeSection (hD : D none) (r : Removal) (now : Time) (calls : RemoveCalls) :
    KeepsPeer D (removeSection r now calls) := by
  refine keeps_match (.pure _) fun s => .ite (fun _ => .pure _) fun _ =>
    .bind (keeps_queryPeers _) fun _ => .bind keeps_peer fun p => .ite (fun _ => ?_) fun _ => ?_
  · exact .bind (keepsPeer_update _) fun _ => .bind (keeps_saveState _) fun _ => .pure _
  · exact .bind (peer_removeIfPresent hD _) fun _ => .bind peer_retire fun _ =>
      .bind keepsPeer_deleteEntry fun _ => .bind (keeps_saveState _) fun _ => .pure _

theorem peer_monitorLaunch (now : Time) (changed : Bool) : KeepsPeer D (monitorLaunch now changed) :=
  keeps_match (.pure _) fun _ => .ite (fun _ => .bind peer_startProbe fun _ => .pure _) fun _ => .pure _

theorem peer_monitorProbe (now : Time) (changed : Bool) : KeepsPeer D (monitorProbe now changed) :=
  keeps_match (.pure _) fun _ => .ite (fun _ => .ite (fun _ => .pure _) fun _ =>
    .bind (keepsPeer_update _) fun _ => peer_monitorLaunch now true) fun _ => peer_monitorLaunch now changed

theorem peer_monitorRoute (hD : D none) (now : Time) (remove : Outcome) (changed : Bool) :
    KeepsPeer D (monitorRoute now remove changed) := by
  refine keeps_match (.pure _) fun s => .bind keeps_peer fun p => .ite (fun _ => .pure _) fun _ =>
    .ite (fun _ => .ite (fun _ => ?_) fun _ => ?_) fun _ => peer_monitorProbe now changed
  · exact .bind (keepsPeer_update _) fun _ => .pure _
  · refine .bind (peer_wgSet_remove hD _) fun _ => .bind keepsPeer_renew fun _ => .ite (fun _ => ?_)
      fun _ => ?_
    · exact .bind (keepsPeer_update _) fun _ => .bind keepsPeer_deleteEntry fun _ => .pure _
    · exact .bind (keepsPeer_update _) fun _ => peer_monitorProbe now true

theorem peer_monitorPeer (hD : D none) (now : Time) (remove : Outcome) :
    KeepsPeer D (monitorPeer now remove) := by
  refine keeps_match (.pure _) fun s => .ite (fun _ => .bind keeps_peer fun p => .ite (fun _ => ?_)
    fun _ => ?_) fun _ => peer_monitorRoute hD now remove false
  · exact .bind (keepsPeer_update _) fun _ => peer_monitorRoute hD now remove true
  · exact .bind (peer_removeIfPresent hD _) fun _ => .bind peer_retire fun _ =>
      .bind keepsPeer_deleteEntry fun _ => .pure _

theorem peer_cleanupPeer (hD : D none) (active : Bool) (remove : Outcome) :
    KeepsPeer D (cleanupPeer active remove) :=
  keeps_match (.pure _) fun _ => .ite (fun _ => .pure _) fun _ => .bind peer_retire fun _ =>
    .bind (.handle (peer_removeIfPresent hD _) fun _ => .pure _) fun _ =>
      .bind keepsPeer_deleteEntry fun _ => .pure _

end Peers

/-! ### No orphans while the agent serves -/

/-- A peer with a host route has an entry. -/
def Slot.Housed (sl : Slot) : Prop := ∀ p, sl.peer = some p → p.hasHostRoute = true → sl.entry.isSome = true

/-- Every peer with a host route has an entry. -/
def Shared.Housed (sh : Shared) : Prop := ∀ k p, sh.wg.get? k = some p → p.hasHostRoute = true →
  (sh.states.get? k).isSome = true

section Housed
variable {sh : Shared} {k : PublicKey} {sl sl' : Slot}

/-- What a section that keeps the peer tracked, and only removes it, leaves. -/
theorem Slot.Housed.of_tracked (hp : sl'.peer = sl.peer ∨ sl'.peer = none)
    (ht : sl'.Tracked (∃ p, sl.peer = some p ∧ p.hasHostRoute = true)) : sl'.Housed := by
  intro p hpeer hroute
  have hold : sl.peer = some p := by
    rcases hp with hp | hp
    · exact hp ▸ hpeer
    · exact absurd (hp.symm.trans hpeer) (by simp)
  rcases ht (by rw [hpeer, Option.isSome_some]) with he | ⟨hno, _⟩
  · exact he
  · exact absurd ⟨p, hold, hroute⟩ hno

theorem Slot.Housed.tracked (h : sl.Housed) (hi : sl.issued = []) :
    sl.Tracked (∃ p, sl.peer = some p ∧ p.hasHostRoute = true) := by
  intro _
  by_cases hr : ∃ p, sl.peer = some p ∧ p.hasHostRoute = true
  · obtain ⟨p, hp, hroute⟩ := hr
    exact .inl (h p hp hroute)
  · exact .inr ⟨hr, fun c hc => absurd (hi ▸ hc) List.not_mem_nil⟩

theorem hasHostRoute_steal {taken : List Text} {p : WgPeer}
    (h : (Shared.steal taken p).hasHostRoute = true) : p.hasHostRoute = true := by
  obtain ⟨a, ha, hroute⟩ := List.any_eq_true.mp h
  exact List.any_eq_true.mpr ⟨a, List.mem_of_mem_filter ha, hroute⟩

theorem Shared.Housed.put (h : sh.Housed) (hsl : sl.Housed) : (sh.put k sl).Housed := by
  intro j p hp hroute
  rw [get?_put_states]
  rw [get?_put_wg] at hp
  by_cases hj : j = k
  · rw [if_pos hj] at hp ⊢
    exact hsl p hp hroute
  · rw [if_neg hj] at hp ⊢
    obtain ⟨q, hq, rfl⟩ := Option.map_eq_some_iff.mp hp
    exact h j q hq (hasHostRoute_steal hroute)

/-- A section that keeps the peer tracked, and only removes it. -/
theorem Shared.Housed.onKey {α : Type} {p : Section α} (h : sh.Housed)
    (hp : KeepsPeer (fun q => q = (sh.slot k).peer ∨ q = none) p)
    (ht : ∀ {added : Prop}, (sh.slot k).Tracked added →
      p.wp (fun _ sl' => sl'.Tracked added) (fun _ sl' => sl'.Tracked added) (sh.slot k)) :
    Leaves Shared.Housed (Agent.onKey k p) sh := by
  have hsl : (sh.slot k).Housed := h k
  have hkeep := hp (sh.slot k) (.inl rfl)
  refine wp_onKey.mpr (wp_mono (wp_and hkeep (ht (hsl.tracked rfl))) (fun _ sl' hq => ?_) fun _ sl' hq => ?_)
  · exact h.put (.of_tracked hq.1 hq.2)
  · exact h.put (.of_tracked hq.1 hq.2)

/-- A step of a worker. -/
theorem housed_threadStep (t : Thread) (calls : WorkerCalls) (h : sl.Housed) :
    (t.step calls).wp (fun _ sl' => sl'.Housed) (fun _ sl' => sl'.Housed) sl := by
  cases hs : sl.entry with
  | none => exact wp_mono (still_of_no_entry t calls hs) (fun _ _ he => he ▸ h) fun _ _ he => he ▸ h
  | some s =>
    have hsome {sl' : Slot} (hc : (sl'.entry.map PeerState.control).isSome = true) : sl'.Housed :=
      fun _ _ _ => Option.isSome_map.symm.trans hc
    have hentry : (sl.entry.map PeerState.control).isSome = true := by rw [hs, Option.map_some, Option.isSome_some]
    exact wp_mono (control_threadStep (R := fun x => x.isSome = true) t calls sl hentry)
      (fun _ _ hc => hsome hc) fun _ _ hc => hsome hc

/-- The removals still to come are among those before. -/
theorem taken_cleanup {active : List Text} {remove : PublicKey → Outcome} (j : PublicKey) :
    Keeps (CleanupTaken active remove)
      (Agent.onKey j (cleanupPeer (decide (j.1 ∈ active)) (remove j))) := by
  intro sh hc
  have hleft : Keeps (fun sl => sl.entry = none ∨ sl = sh.slot j)
      (cleanupPeer (decide (j.1 ∈ active)) (remove j)) := by
    intro sl hsl
    rw [cleanupPeer, wp_bind, wp_entry]
    cases hs : sl.entry with
    | none => exact hsl
    | some s =>
      simp only [wp_ite, wp_bind, wp_pure, wp_handle, wp_removeIfPresent, wp_wgSet, retire, wp_renew,
        wp_update, wp_deleteEntry]
      simp [hsl]
  have hput {sl : Slot} (hsl : sl.entry = none ∨ sl = sh.slot j) :
      CleanupTaken active remove (sh.put j sl) := by
    intro k s hs hi ha hp
    by_cases hk : k = j
    · rw [Shared.get?_put_states, if_pos hk] at hs
      rw [Shared.get?_put_wg, if_pos hk] at hp
      rcases hsl with he | rfl
      · exact absurd (he.symm.trans hs) (by simp)
      · exact hc k s (hk ▸ hs) hi ha (hk ▸ hp)
    · rw [Shared.get?_put_states, if_neg hk] at hs
      rw [Shared.get?_put_wg, if_neg hk, Option.isSome_map] at hp
      exact hc k s hs hi ha hp
  exact wp_onKey.mpr (wp_mono (hleft (sh.slot j) (.inr rfl)) (fun _ _ h => hput h) fun _ _ h => hput h)

theorem housed_cleanup {active : List Text} {remove : PublicKey → Outcome} (j : PublicKey) :
    Keeps (fun sh => Shared.Housed sh ∧ CleanupTaken active remove sh)
      (Agent.onKey j (cleanupPeer (decide (j.1 ∈ active)) (remove j))) := by
  rintro sh ⟨h, hc⟩
  have hhoused : Leaves Shared.Housed (Agent.onKey j (cleanupPeer (decide (j.1 ∈ active)) (remove j))) sh :=
    h.onKey (peer_cleanupPeer (.inr rfl) _ _) fun ht => tracked_cleanupPeer _ _ ht fun s hs hi ha hp =>
      hc j s hs hi (of_decide_eq_false ha) hp
  exact wp_mono (wp_and hhoused (taken_cleanup j sh hc)) (fun _ _ h => h) fun _ _ h => h

theorem housed_step {w w' : World} {l : Label} (hs : machine.step w l = some w')
    (hsafe : RemovalTaken w l) (h : w.shared.Housed) : w'.shared.Housed := by
  by_cases hl : ∃ active calls, l = .cleanupInitiator active calls
  · obtain ⟨active, calls, rfl⟩ := hl
    obtain rfl := Option.some.inj hs
    exact ((keeps_cleanupInitiatorStates fun k => housed_cleanup k).run ⟨h, hsafe⟩).1
  · refine shared_step hs h (fun env data controller calls o _ _ => ?_) (fun _ data now calls r _ => ?_)
      (fun now calls k _ sh hsh => ?_) (fun active calls k hc => absurd ⟨active, calls, hc⟩ hl)
      (fun i calls t _ _ => ?_) fun k p q hp hq _ => ?_
    · exact h.onKey (peer_offerSection (.inr rfl) o calls) fun ht => tracked_offerSection o calls ht
    · exact h.onKey (peer_removeSection (.inr rfl) r now calls) fun ht => tracked_removeSection r now calls ht
    · exact hsh.onKey (peer_monitorPeer (.inr rfl) now (calls.remove k)) fun ht =>
        tracked_monitorPeer now (calls.remove k) ht
    · have hsl : (w.shared.slot t.key).Housed := h t.key
      refine wp_onKey.mpr (wp_mono (housed_threadStep t calls hsl) (fun _ _ hsl' => ?_) fun _ _ hsl' => ?_)
      · exact h.put hsl'
      · exact h.put hsl'
    · intro j r hr hroute
      rw [Dict.get?_set] at hr
      by_cases hj : j = k
      · rw [if_pos hj] at hr
        obtain rfl := Option.some.inj hr
        exact h j p (hj ▸ hp) (by rwa [WgPeer.hasHostRoute, hq] at hroute)
      · rw [if_neg hj] at hr
        exact h j r hr hroute

end Housed

/-- `cleanup_initiator_states` meets no failing removal. -/
def HostRemovalTaken (h : Host) : HostLabel → Prop
  | .act l _ => RemovalTaken h.world l
  | .restart _ => True

theorem housed_hostStep {h h' : Host} {l : HostLabel} (hs : hostMachine.step h l = some h')
    (hsafe : HostRemovalTaken h l) (hh : h.serving = true → h.world.shared.Housed) :
    h'.serving = true → h'.world.shared.Housed := by
  intro hserving
  cases l with
  | act l file =>
    obtain ⟨_, hstep, _, _, hsame⟩ := act_step hs
    exact housed_step hstep hsafe (hh (hsame ▸ hserving))
  | restart calls =>
    obtain ⟨_, hworld, hok⟩ := restart_step hs
    rw [hworld]
    intro k p hp hroute
    by_contra hn
    refine no_orphan_boot (hok hserving) k ⟨?_, p, hp, hroute⟩
    rwa [Bool.not_eq_true, Option.isSome_eq_false_iff, Option.isNone_iff_eq_none] at hn

/-- While the agent serves, every device peer with a host route has an entry, whoever set it up and however
    often the process has been restarted, as long as `cleanup_initiator_states` meets no failing removal. -/
theorem no_orphan_serving {file : StateFile} {device : Dict PublicKey WgPeer} {h : Host}
    {ls : List HostLabel} (hsafe : hostMachine.Along HostRemovalTaken (.off file device) ls)
    (hrun : hostMachine.run (.off file device) ls = some h) (hserving : h.serving = true) :
    ∀ k p, h.world.shared.wg.get? k = some p → (∃ a ∈ p.allowedIps, isHostRoute a = true) →
      ∃ s, h.world.shared.states.get? k = some s := by
  have hhoused := hostMachine.run_invariant (I := fun h => h.serving = true → h.world.shared.Housed)
    (fun _ _ _ hok hh hs => housed_hostStep hs hok hh) (fun hoff => by cases hoff) hsafe hrun hserving
  exact fun k p hp hroute => Option.isSome_iff_exists.mp (hhoused k p hp (List.any_eq_true.mpr hroute))

/-- A device peer an earlier process has left with a route. -/
def leftPeer : WgPeer := ⟨"198.51.100.7:41000".toList, [slash32 "10.0.0.5".toList], 90, 25⟩

/-- The host after such a process. -/
def leftHost : Host := .off .unusable (Dict.empty.set zeroKey leftPeer)

/-- The peer is removed at the start, and set up again for the offer and its probe. -/
def secondLife : List HostLabel :=
  .restart .succeed :: (confirmRun.take 10).map fun l => .act l .unusable

/-- The peer has its route again, and an entry. -/
theorem no_orphan_serving_secondLife : ∃ h, hostMachine.run leftHost secondLife = some h ∧
    h.serving = true ∧ ∃ p s, h.world.shared.wg.get? zeroKey = some p ∧
      slash32 "10.0.0.5".toList ∈ p.allowedIps ∧ h.world.shared.states.get? zeroKey = some s := by
  have hsome : (hostMachine.run leftHost secondLife).any (fun h => h.serving &&
      (h.world.shared.wg.get? zeroKey).any fun p =>
        decide (slash32 "10.0.0.5".toList ∈ p.allowedIps)) = true := by decide +kernel
  obtain ⟨h, hrun, hh⟩ := (Option.any_eq_true _ _).mp hsome
  rw [Bool.and_eq_true] at hh
  obtain ⟨hserving, hp⟩ := hh
  obtain ⟨p, hp, hmem⟩ := (Option.any_eq_true _ _).mp hp
  have hmem := of_decide_eq_true hmem
  have hsafe : hostMachine.Along HostRemovalTaken leftHost secondLife := by
    refine hostMachine.along_of_forall fun l hl t => ?_
    simp only [secondLife, confirmRun, offered, List.replicate, List.cons_append, List.nil_append,
      List.take_succ_cons, List.take_zero, List.map_cons, List.map_nil, List.mem_cons, List.not_mem_nil,
      or_false] at hl
    rcases hl with rfl | rfl | rfl | rfl | rfl | rfl | rfl | rfl | rfl | rfl | rfl <;> trivial
  obtain ⟨s, hs⟩ := no_orphan_serving hsafe hrun hserving zeroKey p hp
    ⟨_, hmem, List.isSuffixOf_iff_suffix.mpr (List.suffix_append _ _)⟩
  exact ⟨h, hrun, hserving, p, s, hp, hmem, hs⟩

end Agent
