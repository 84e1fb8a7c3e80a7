import WireguardP2p.Agent.Fields
import WireguardP2p.Agent.Invariants

/-! What an entry owes to the last offer that was accepted for it: who controls it, its session, its overlay
    IP and its candidates. No other section writes them, so an invariant of them is one of the offers. -/

namespace Agent
open Ipaddress Python Candidates Raising

/-- The fields of an entry that an offer sets and no other section writes. -/
structure Grant where
  controller : Controller
  sessionId : Text
  sessionStartedNs : ℤ
  ip : Text
  candidates : List Candidate
  deriving DecidableEq

def PeerState.grant (s : PeerState) : Grant :=
  ⟨s.controller, s.sessionId, s.sessionStartedNs, s.ip, s.candidates⟩

def Offer.grant (o : Offer) : Grant := ⟨o.controller, o.sessionId, o.sessionStartedNs, o.peerIp, o.candidates⟩

/-- What an accepted offer has from the fields of its notification. -/
structure Offer.Says (listenAddress : Text) (data : Json) (controller : Controller) (o : Offer) : Prop where
  key : data.item "peer_key" = .ok (.str o.key.1)
  ip : ∃ v, data.item "peer_ip" = .ok v ∧ (validatePeerIp listenAddress v).map Subtype.val = .ok o.peerIp
  session : ∃ v, data.item "session_id" = .ok v ∧ validateSessionId v = .ok o.sessionId
  started : ∃ v, data.item "session_started_ns" = .ok v ∧ toInt v = .ok o.sessionStartedNs
  controller : o.controller = controller

theorem validatePublicKey_ok {v : Json} {key : PublicKey} (h : validatePublicKey v = .ok key) :
    v = .str key.1 := by
  cases v with
  | str t =>
    rw [validatePublicKey] at h
    by_cases ht : IsPublicKey t
    · rw [dif_pos ht] at h
      rw [← Except.ok.inj h]
    · rw [dif_neg ht] at h
      cases h
  | _ => cases h

theorem validateSessionStartedNs_ok {nowNs : ℤ} {v : Json} {started : { n : ℤ // 0 < n }}
    (h : validateSessionStartedNs nowNs v = .ok started) : toInt v = .ok started.1 := by
  obtain ⟨n, hn, h⟩ := bind_ok h
  by_cases hpos : n ≤ 0
  · rw [dif_pos hpos] at h
    cases h
  · rw [dif_neg hpos] at h
    split at h
    · cases h
    · rw [hn, ← Except.ok.inj h]

theorem readOffer_fields {env : OfferEnv} {data : Json} {controller : Controller} {o : Offer}
    (h : readOffer env data controller = .ok o) : o.Says env.listenAddress data controller := by
  rw [readOffer] at h
  obtain ⟨keyField, hkeyField, h⟩ := bind_ok h
  obtain ⟨key, hkey, h⟩ := bind_ok h
  obtain ⟨ipField, hipField, h⟩ := bind_ok h
  obtain ⟨ip, hip, h⟩ := bind_ok h
  obtain ⟨sessionField, hsessionField, h⟩ := bind_ok h
  obtain ⟨session, hsession, h⟩ := bind_ok h
  obtain ⟨startedField, hstartedField, h⟩ := bind_ok h
  obtain ⟨started, hstarted, h⟩ := bind_ok h
  iterate 4 obtain ⟨_, -, h⟩ := bind_ok h
  obtain ⟨endpoint, -, h⟩ := bind_ok h
  cases endpoint
  case' some e => by_cases htruthy : e.truthy = true
  all_goals try dsimp only at h
  case' pos => rw [if_pos htruthy] at h
  case' neg => rw [if_neg htruthy] at h
  all_goals
    iterate 4 obtain ⟨_, -, h⟩ := bind_ok h
    split at h
    · cases h
    · obtain ⟨lease, -, h⟩ := bind_ok h
      cases lease
      all_goals
        obtain ⟨_, -, h⟩ := bind_ok h
        obtain rfl := Except.ok.inj h
        refine ⟨?_, ⟨ipField, hipField, ?_⟩, ⟨sessionField, hsessionField, hsession⟩,
          ⟨startedField, hstartedField, validateSessionStartedNs_ok hstarted⟩, rfl⟩
        · rw [hkeyField, validatePublicKey_ok hkey]
        · rw [hip]
          rfl

/-! ### Sections -/

section Keeps
variable {R : Option Grant → Prop}

/-- The program keeps what holds of the grant of the entry. -/
abbrev KeepsGrant {α : Type} (R : Option Grant → Prop) (p : Section α) : Prop :=
  KeepsField PeerState.grant R p

theorem grant_renew : KeepsGrant R renew := field_renew fun _ _ => rfl

theorem grant_retire : KeepsGrant R retire := field_retire (fun _ _ => rfl) fun _ => rfl

theorem grant_startProbe : KeepsGrant R startProbe :=
  .bind grant_renew fun _ => .bind (field_update fun _ => rfl) fun _ => .bind keeps_entry fun _ => .pure _

theorem grant_followSignature (o : Offer) (calls : OfferCalls) : KeepsGrant R (followSignature o calls) := by
  refine .bind keeps_entry fun e => ?_
  cases e with
  | none => exact .pure _
  | some s =>
    refine .ite (fun _ => .bind (field_update fun _ => rfl) fun _ => .bind grant_renew fun _ =>
      .bind (field_update fun _ => rfl) fun _ => .bind keeps_peer fun p => .ite (fun _ => ?_)
        fun _ => ?_) fun _ => .pure _
    · exact .bind (field_update fun _ => rfl) fun _ => keeps_saveState _
    · exact .bind (field_removeIfPresent _) fun _ => field_update fun _ => rfl

theorem grant_followDirect (o : Offer) (calls : OfferCalls) : KeepsGrant R (followDirect o calls) := by
  refine .bind keeps_peer fun p => .ite (fun _ => .ite (fun _ => ?_) fun _ => ?_) fun _ => .pure _
  · exact .bind (field_update fun _ => rfl) fun _ => keeps_saveState _
  · exact .bind (field_wgSet _ _) fun _ => .bind grant_renew fun _ => field_update fun _ => rfl

theorem grant_launchIfDue (o : Offer) : KeepsGrant R (launchIfDue o) :=
  .bind keeps_peer fun _ => keeps_match (.pure _) fun _ =>
    .ite (fun _ => .bind grant_startProbe fun _ => .pure _) fun _ => .pure _

theorem grant_removeSection (hR : R none) (r : Removal) (now : Time) (calls : RemoveCalls) :
    KeepsGrant R (removeSection r now calls) := by
  refine keeps_match (.pure _) fun s => .ite (fun _ => .pure _) fun _ =>
    .bind (keeps_queryPeers _) fun _ => .bind keeps_peer fun p => .ite (fun _ => ?_) fun _ => ?_
  · exact .bind (field_update fun _ => rfl) fun _ => .bind (keeps_saveState _) fun _ => .pure _
  · exact .bind (field_removeIfPresent _) fun _ => .bind grant_retire fun _ =>
      .bind (field_deleteEntry hR) fun _ => .bind (keeps_saveState _) fun _ => .pure _

theorem grant_monitorLaunch (now : Time) (changed : Bool) : KeepsGrant R (monitorLaunch now changed) :=
  keeps_match (.pure _) fun _ => .ite (fun _ => .bind grant_startProbe fun _ => .pure _) fun _ => .pure _

theorem grant_monitorProbe (now : Time) (changed : Bool) : KeepsGrant R (monitorProbe now changed) :=
  keeps_match (.pure _) fun _ => .ite (fun _ => .ite (fun _ => .pure _) fun _ =>
    .bind (field_update fun _ => rfl) fun _ => grant_monitorLaunch now true)
      fun _ => grant_monitorLaunch now changed

theorem grant_monitorRoute (hR : R none) (now : Time) (remove : Outcome) (changed : Bool) :
    KeepsGrant R (monitorRoute now remove changed) := by
  refine keeps_match (.pure _) fun s => .bind keeps_peer fun p => .ite (fun _ => .pure _) fun _ =>
    .ite (fun _ => .ite (fun _ => ?_) fun _ => ?_) fun _ => grant_monitorProbe now changed
  · exact .bind (field_update fun _ => rfl) fun _ => .pure _
  · refine .bind (field_wgSet _ _) fun _ => .bind grant_renew fun _ => .ite (fun _ => ?_) fun _ => ?_
    · exact .bind (field_update fun _ => rfl) fun _ => .bind (field_deleteEntry hR) fun _ => .pure _
    · exact .bind (field_update fun _ => rfl) fun _ => grant_monitorProbe now true

theorem grant_monitorPeer (hR : R none) (now : Time) (remove : Outcome) :
    KeepsGrant R (monitorPeer now remove) := by
  refine keeps_match (.pure _) fun s => .ite (fun _ => .bind keeps_peer fun p => .ite (fun _ => ?_)
    fun _ => ?_) fun _ => grant_monitorRoute hR now remove false
  · exact .bind (field_update fun _ => rfl) fun _ => grant_monitorRoute hR now remove true
  · exact .bind (field_removeIfPresent _) fun _ => .bind grant_retire fun _ =>
      .bind (field_deleteEntry hR) fun _ => .pure _

theorem grant_cleanupPeer (hR : R none) (active : Bool) (remove : Outcome) :
    KeepsGrant R (cleanupPeer active remove) :=
  keeps_match (.pure _) fun _ => .ite (fun _ => .pure _) fun _ => .bind grant_retire fun _ =>
    .bind (.handle (field_removeIfPresent _) fun _ => .pure _) fun _ =>
      .bind (field_deleteEntry hR) fun _ => .pure _

theorem grant_giveUp (calls : WorkerCalls) : KeepsGrant R (giveUp calls) :=
  .bind (field_tryWgSet _ _) fun _ => .bind (field_update fun _ => rfl) fun _ =>
    .bind (keeps_saveState _) fun _ => .pure _

theorem grant_probeStep (g : ℕ) (calls : WorkerCalls) :
    ∀ pc : ProbePc, KeepsGrant R (probeStep g calls pc)
  | .start => keeps_match (.pure _) fun _ => .ite (fun _ => .pure _) fun _ =>
      .ite (fun _ => .pure _) fun _ => .pure _
  | .cancel => keeps_match (.pure _) fun _ => .ite (fun _ => .bind (field_update fun _ => rfl)
      fun _ => .bind (keeps_saveState _) fun _ => .pure _) fun _ => .pure _
  | .check _ [] => .pure _
  | .check _ (_ :: _) => .bind keeps_entry fun _ => .ite (fun _ => .pure _) fun _ => .pure _
  | .baseline .. => .bind (keeps_queryPeers _) fun _ => .bind keeps_peer fun _ => .pure _
  | .configure .. => .bind keeps_entry fun _ => .ite (fun _ => .pure _) fun _ => .ite
      (fun _ => .bind (field_wgSet _ _) fun _ => .bind (field_update fun _ => rfl) fun _ =>
        .bind (keeps_saveState _) fun _ => .pure _)
      fun _ => .bind (field_tryWgSet _ _) fun _ => .pure _
  | .wait .. => .ite (fun _ => .pure _) fun _ => .ite (fun _ => .pure _) fun _ =>
      .bind keeps_entry fun _ => .ite (fun _ => .pure _) fun _ => .pure _
  | .poll .. => .bind (keeps_queryPeers _) fun _ => .bind keeps_peer fun p => by
      cases p with
      | none => exact .pure _
      | some p => exact .ite (fun _ => .pure _) fun _ => .pure _
  | .promote .. => keeps_match (.pure _) fun _ => .ite (fun _ => .pure _) fun _ =>
      .bind (field_wgSet _ _) fun _ => .bind (field_update fun _ => rfl) fun _ =>
        .bind (keeps_saveState _) fun _ => .pure _
  | .rekey .. => .ite (fun _ => .pure _) fun _ => .pure _
  | .fail => .bind keeps_entry fun _ => .ite (fun _ => .pure _) fun _ => grant_giveUp calls

theorem grant_confirmStep (g : ℕ) (calls : WorkerCalls) :
    ∀ pc : ConfirmPc, KeepsGrant R (confirmStep g calls pc)
  | .setup .. => .ite (fun _ => .pure _) fun _ => .bind keeps_entry fun _ => .ite (fun _ => .pure _)
      fun _ => .bind (field_update fun _ => rfl) fun _ => .ite
        (fun _ => .bind (field_wgSet _ _) fun _ => .bind (field_wgSet _ _) fun _ =>
          .bind (keeps_saveState _) fun _ => .pure _)
        fun _ => .bind (.handle (.bind (field_wgSet _ _) fun _ => field_wgSet _ _)
          fun _ => .pure _) fun _ => .bind (field_tryWgSet _ _) fun _ =>
            .bind (field_update fun _ => rfl) fun _ => .bind (keeps_saveState _) fun _ => .pure _
  | .poll .. => .ite (fun _ => .pure _) fun _ => .ite (fun _ => .pure _) fun _ =>
      .bind (keeps_queryPeers _) fun _ => .bind keeps_peer fun p => by
        cases p with
        | none => exact .pure _
        | some p => exact .ite (fun _ => .pure _) fun _ => .pure _
  | .finalize .. => .bind keeps_entry fun _ => .ite (fun _ => .pure _) fun _ => .ite
      (fun _ => .bind (field_wgSet _ _) fun _ => .bind (field_update fun _ => rfl) fun _ =>
        .bind (keeps_saveState _) fun _ => .pure _)
      fun _ => .bind (field_tryWgSet _ _) fun _ => .pure _
  | .fail => .bind keeps_entry fun _ => .ite (fun _ => .pure _) fun _ => grant_giveUp calls

theorem grant_threadStep (t : Thread) (calls : WorkerCalls) : KeepsGrant R (t.step calls) := by
  unfold Thread.step
  cases t.pc with
  | probe pc => exact .handle (grant_probeStep _ calls pc) fun _ => .pure _
  | confirm pc => exact .handle (grant_confirmStep _ calls pc) fun _ => .pure _
  | cleanup =>
    refine keeps_match (.pure _) fun s => .ite (fun _ => ?_) fun _ => .pure _
    exact .bind (field_tryWgSet _ _) fun _ => .bind grant_renew fun _ =>
      .bind (field_update fun _ => rfl) fun _ =>
        .bind (.handle (keeps_saveState _) fun _ => .pure _) fun _ => .pure _
  | finished => exact .pure _

/-- The replacement keeps the grant, or leaves an entry for the control fields to come. -/
theorem grant_replaceEntry (o : Offer) (calls : OfferCalls) {sl : Slot} (h : R (sl.entry.map PeerState.grant)) :
    (replaceEntry o calls).wp (fun _ sl' => sl'.entry.isSome = true)
      (fun _ sl' => R (sl'.entry.map PeerState.grant)) sl := by
  have hcreate {E : Raised → Slot → Prop} (sl : Slot) : (createEntry o).wp
      (fun _ sl' => sl'.entry.isSome = true) E sl := rfl
  -- the removal of the peer, then a new entry
  have hanew {sl₁ : Slot} (h₁ : R (sl₁.entry.map PeerState.grant)) :
      (do removeIfPresent calls.remove; createEntry o).wp (fun _ sl' => sl'.entry.isSome = true)
        (fun _ sl' => R (sl'.entry.map PeerState.grant)) sl₁ :=
    (field_removeIfPresent calls.remove).wp_andThen h₁ (fun _ t _ => hcreate t) fun _ _ ht => ht
  have hretire := grant_retire sl h
  rw [replaceEntry, wp_bind, wp_entry]
  cases hs : sl.entry with
  | none => exact hcreate sl
  | some s =>
    rw [wp_ite]
    refine ⟨fun _ => ?_, fun _ => ?_⟩
    · rw [wp_bind]
      exact wp_mono hretire (fun _ _ h₁ => hanew h₁) fun _ _ h₁ => h₁
    · rw [wp_ite, wp_bind, wp_peer, wp_bind]
      refine ⟨fun _ => ?_, fun _ => ?_⟩
      · have hsome : retire.wp (fun _ sl' => sl'.entry.isSome = true) (fun _ _ => False) sl := by
          simp [retire, Slot.entry_renew, hs]
        refine wp_mono (wp_and hretire hsome) (fun _ t h₁ => ?_) fun _ _ h₁ => h₁.1
        rw [wp_ite]
        refine ⟨fun _ => ?_, fun _ => hanew h₁.1⟩
        simp only [wp_bind, wp_peer, wp_update, Slot.entry_update, Option.isSome_map]
        exact h₁.2
      · rw [wp_pure, hs]
        rfl

/-- An offer leaves its own grant or the one there was. -/
theorem grant_offerSection {o : Offer} (calls : OfferCalls) {sl : Slot} (h : R (sl.entry.map PeerState.grant))
    (ho : R (some o.grant)) :
    (offerSection o calls).wp (fun _ sl' => R (sl'.entry.map PeerState.grant))
      (fun _ sl' => R (sl'.entry.map PeerState.grant)) sl := by
  simp only [offerSection, wp_bind, wp_queryPeers, wp_entry]
  refine ⟨fun _ => ?_, fun _ _ => h⟩
  cases sessionCheck sl.entry o with
  | stale => exact h
  | startChanged => exact h
  | current =>
    rw [wp_bind, acceptOffer, wp_bind, prepareOffer, wp_bind]
    refine wp_mono (grant_replaceEntry o calls h) (fun _ sl₁ h₁ => ?_) fun _ _ h₁ => h₁
    obtain ⟨s, hs⟩ := Option.isSome_iff_exists.mp h₁
    have hrefresh : R ((sl₁.update (PeerState.refresh o)).entry.map PeerState.grant) := by
      rw [Slot.entry_update, hs]
      exact ho
    rw [wp_bind, refreshEntry, wp_update]
    have hfollow : KeepsGrant R (do followSignature o calls; followDirect o calls; launchIfDue o) :=
      .bind (grant_followSignature o calls) fun _ => .bind (grant_followDirect o calls) fun _ =>
        grant_launchIfDue o
    refine wp_mono (hfollow _ hrefresh) (fun _ sl₂ h₂ => ?_) fun _ _ h₂ => h₂
    simp only [wp_bind, wp_saveState, wp_pure]
    exact ⟨fun _ => h₂, fun _ => h₂⟩

end Keeps

/-! ### Runs -/

/-- What holds of the grant of every entry. -/
def Shared.Grants (P : PublicKey → Grant → Prop) (sh : Shared) : Prop :=
  ∀ k s, sh.states.get? k = some s → P k s.grant

section Runs
variable {P : PublicKey → Grant → Prop} {sh : Shared}

/-- A grant that is there meets `P`. -/
def Granted (P : Grant → Prop) (c : Option Grant) : Prop := ∀ g, c = some g → P g

theorem granted_none {P : Grant → Prop} : Granted P none := fun _ h => by cases h

theorem Shared.Grants.slot (h : sh.Grants P) (k : PublicKey) :
    Granted (P k) ((sh.slot k).entry.map PeerState.grant) := by
  intro g hg
  obtain ⟨s, hs, rfl⟩ := Option.map_eq_some_iff.mp hg
  exact h k s hs

theorem Shared.Grants.put {k : PublicKey} {sl : Slot} (h : sh.Grants P)
    (hsl : Granted (P k) (sl.entry.map PeerState.grant)) : (sh.put k sl).Grants P := by
  intro j s hs
  rw [get?_put_states] at hs
  by_cases hj : j = k
  · rw [if_pos hj] at hs
    subst hj
    exact hsl s.grant (by rw [hs, Option.map_some])
  · rw [if_neg hj] at hs
    exact h j s hs

theorem Shared.Grants.onKey {α : Type} {k : PublicKey} {p : Section α} (h : sh.Grants P)
    (hp : p.wp (fun _ sl => Granted (P k) (sl.entry.map PeerState.grant))
      (fun _ sl => Granted (P k) (sl.entry.map PeerState.grant)) (sh.slot k)) :
    Leaves (Shared.Grants P) (Agent.onKey k p) sh :=
  wp_onKey.mpr (wp_mono hp (fun _ _ hsl => h.put hsl) fun _ _ hsl => h.put hsl)

/-- The offers of a step bring grants that meet `P`. -/
def Label.Brings (P : PublicKey → Grant → Prop) : Label → Prop
  | .offer env data controller _ => ∀ o, readOffer env data controller = .ok o → P o.key o.grant
  | _ => True

/-- What holds of the grants of the offers holds of the grants of the entries. -/
theorem grants_step {w w' : World} {l : Label} (hs : machine.step w l = some w') (hl : l.Brings P)
    (h : w.shared.Grants P) : w'.shared.Grants P := by
  refine shared_step hs h (fun env data controller calls o he ho => ?_) (fun _ data now calls r _ => ?_)
    (fun now calls k _ sh hsh => ?_) (fun active calls k _ sh hsh => ?_) (fun i calls t _ _ => ?_)
    fun k p q _ _ _ => h
  · subst he
    refine h.onKey (grant_offerSection calls (h.slot o.key) fun g hg => ?_)
    obtain rfl := Option.some.inj hg
    exact hl o ho
  · exact h.onKey (grant_removeSection granted_none r now calls _ (h.slot r.key))
  · exact hsh.onKey (grant_monitorPeer granted_none now _ _ (hsh.slot k))
  · exact hsh.onKey (grant_cleanupPeer granted_none _ _ _ (hsh.slot k))
  · exact h.onKey (grant_threadStep t calls _ (h.slot t.key))

end Runs

end Agent
