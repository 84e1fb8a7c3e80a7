import WireguardP2p.Client.Disturbance

/-! The evidence for a Direct. Of a peer of the device it matters when its last handshake was and whether
    the client has set the endpoint since. A probe that owns its state knows no handshake newer than its
    baseline when it sets the endpoint, so a newer one is evidence for the path; a watcher starts from a
    peer without a handshake. The iterations of `reconcilePeers` rely on neither. -/

namespace Client
open Ipaddress Python Net Candidates

/-- The last handshake of a peer, and whether the client has set its endpoint since. -/
def App.evidence (a : App) (key : Text) : Option (ℕ × Bool) :=
  (a.device.get? key).map fun p => (p.latestHandshake, p.awaiting)

/-- The last handshake of the peer, if there is one, is later than the last endpoint the client set. -/
def Clear (e : Option (ℕ × Bool)) : Prop := ∀ x ∈ e, x.1 ≠ 0 → x.2 = false

/-- A handshake is recorded that is later than the last endpoint the client set. -/
def Proof (e : Option (ℕ × Bool)) : Prop := ∃ x ∈ e, x.1 ≠ 0 ∧ x.2 = false

instance (e : Option (ℕ × Bool)) : Decidable (Clear e) := inferInstanceAs (Decidable (∀ x ∈ e, _))

instance (e : Option (ℕ × Bool)) : Decidable (Proof e) := inferInstanceAs (Decidable (∃ x ∈ e, _))

/-- What an owner relies on where it is. -/
def Pc.Ready : Pc → Option (ℕ × Bool) → Prop
  | configure t, e => ∀ x ∈ e, x.1 ≤ t.baseline
  | aim t, e | poll t _, e | wake t _, e | look t _, e => ∀ x ∈ e, t.baseline < x.1 → x.2 = false
  | promote _ _ _, e | adopt _, e => Proof e
  | watchPassiveIPv6, e | watch _, e | listen _, e | learn _, e => Clear e
  | _, _ => True

/-- The key whose route the step installs. -/
def World.installs (w : World) : Label → Option Text
  | .proceed calls =>
    ((w.turn calls).filter fun v => !v.topologyChanged (v.state w.app) && !v.direct && v.learns &&
      w.app.accepts v.calls.promote).map Visit.key
  | .run i calls =>
    (w.goroutines[i]?.filter fun g => g.owns w.app && w.app.accepts calls.set && match g.pc with
      | .promote _ _ _ | .adopt _ => true
      | _ => false).map Goroutine.key
  | _ => none

/-- A route that is installed has a handshake newer than the last endpoint the client set. -/
def Evidenced (w : World) (l : Label) : Prop := ∀ key ∈ w.installs l, Proof (w.app.evidence key)

instance (w : World) (l : Label) : Decidable (Evidenced w l) :=
  inferInstanceAs (Decidable (∀ key ∈ w.installs l, _))

/-- The goroutine has read its baseline and is about to set the endpoint. -/
def Pc.configures : Pc → Bool
  | configure _ => true
  | _ => false

/-- The goroutine is about to read its baseline. -/
def Pc.reads : Pc → Bool
  | baseline _ _ => true
  | _ => false

/-- No handshake between the baseline of a probe and its endpoint. -/
def BaselineHolds (w : World) : Label → Prop
  | .handshake key _ => ∀ g ∈ w.live, g.key = key → g.pc.configures = false
  | _ => True

instance (w : World) : (l : Label) → Decidable (BaselineHolds w l)
  | .handshake _ _ => inferInstanceAs (Decidable (∀ g ∈ w.live, _))
  | .tick _ | .roam _ _ | .interfaceFound _ _ | .interfaceLost | .reconcilePeers _ _ _ _ | .proceed _
  | .drop _ _ | .fallbackStaleDirects _ _ | .cleanup _ _ | .run _ _ => inferInstanceAs (Decidable True)

/-- A learned endpoint that `reconcilePeers` takes is proved; the baseline of a probe is read if there is
    a handshake to read; the peer of a watcher that is armed is removed first if it is not clear; and
    nobody owns a state when the interface changes. -/
def Grounded (w : World) : Label → Prop
  | .proceed calls => ∀ key ∈ w.installs (.proceed calls), Proof (w.app.evidence key)
  | .run i calls => ∀ g ∈ w.goroutines[i]?, g.owns w.app = true →
      (g.pc.reads = true → w.app.accepts calls.dump = true ∨ ∀ x ∈ w.app.evidence g.key, x.1 = 0) ∧
      (g.pc = .next [] → g.arms calls = true →
        w.app.accepts calls.set = true ∨ Clear (w.app.evidence g.key))
  | .interfaceFound _ _ | .interfaceLost => ∀ g ∈ w.live, g.owns w.app = false
  | _ => True

instance (w : World) : (l : Label) → Decidable (Grounded w l)
  | .proceed calls => inferInstanceAs (Decidable (∀ key ∈ w.installs (.proceed calls), _))
  | .run i _ => inferInstanceAs (Decidable (∀ g ∈ w.goroutines[i]?, _))
  | .interfaceFound _ _ | .interfaceLost => inferInstanceAs (Decidable (∀ g ∈ w.live, _))
  | .tick _ | .handshake _ _ | .roam _ _ | .reconcilePeers _ _ _ _ | .drop _ _
  | .fallbackStaleDirects _ _ | .cleanup _ _ => inferInstanceAs (Decidable True)

namespace App
variable {a b : App} {key k : Text} {ok : Bool} {c : Command}

theorem evidence_congr (h : b.device = a.device) (key : Text) : b.evidence key = a.evidence key := by
  rw [evidence, evidence, h]

@[simp] theorem evidence_setState (s : PeerState) : (a.setState k s).evidence key = a.evidence key := rfl

theorem evidence_wgSet_ne (h : key ≠ k) : (a.wgSet ok k c).evidence key = a.evidence key := by
  simp only [evidence, get?_wgSet, if_neg h]
  split
  · rw [Option.map_map]
    rfl
  · rfl

theorem evidence_wgSet_failed (h : a.accepts ok = false) :
    (a.wgSet ok k c).evidence key = a.evidence key := by rw [wgSet_failed _ _ _ _ h]

theorem evidence_remove (h : a.accepts ok = true) : (a.wgSet ok key .remove).evidence key = none := by
  rw [evidence, get?_wgSet, if_pos h, if_pos rfl]
  rfl

/-- Setting the keepalive leaves a peer's evidence, and a new peer has none. -/
theorem evidence_keepalive (n : ℕ) : (a.wgSet ok key (.keepalive n)).evidence key = a.evidence key ∨
    a.evidence key = none ∧ (a.wgSet ok key (.keepalive n)).evidence key = some (0, false) := by
  rw [evidence, get?_wgSet, evidence]
  split
  · rw [if_pos rfl]
    cases a.device.get? key with
    | none => exact .inr ⟨rfl, rfl⟩
    | some p => exact .inl rfl
  · exact .inl rfl

/-- Setting the endpoint leaves the handshake and asks for a new one. -/
theorem evidence_endpoint (h : a.accepts ok = true) (e : Text) (n : ℕ) :
    (a.wgSet ok key (.endpoint e n)).evidence key =
      some (((a.evidence key).map Prod.fst).getD 0, true) := by
  rw [evidence, get?_wgSet, if_pos h, if_pos rfl, evidence]
  cases a.device.get? key <;> rfl

theorem mem_evidence {x : ℕ × Bool} (h : x ∈ a.evidence key) : ∃ p, a.device.get? key = some p ∧
    x = (p.latestHandshake, p.awaiting) := by
  obtain ⟨p, hp, rfl⟩ := Option.map_eq_some_iff.mp h
  exact ⟨p, hp, rfl⟩

theorem evidence_localPeer {l : LocalPeer} (h : a.localPeer ok key = some l) :
    ∃ awaiting, a.evidence key = some (l.latestHandshake, awaiting) := by
  obtain ⟨p, hp, rfl⟩ := localPeer_some h
  exact ⟨p.awaiting, by rw [evidence, hp]; rfl⟩

/-- A dump that does not show the peer: there is none, or `wg show` failed. -/
theorem evidence_no_localPeer (h : a.localPeer ok key = none) :
    a.evidence key = none ∨ a.accepts ok = false := by
  cases hok : a.accepts ok with
  | false => exact .inr rfl
  | true =>
    left
    unfold localPeer localPeers at h
    rw [if_pos hok, Option.bind_some] at h
    have hdump := find_dump key a.device.entries
    rw [show Dict.find key _ = none from h] at hdump
    rw [evidence, show a.device.get? key = none from Option.map_eq_none_iff.mp hdump.symm]
    rfl

end App

/-! ### A step of the owner -/

section Own
variable {g : Goroutine} {a : App} {clock : ℕ} {calls : GoCalls}

theorem ready_fail {s : PeerState} (h : g.arms calls = true →
    a.accepts calls.set = true ∨ Clear (a.evidence g.key)) :
    (g.fail a clock calls s).2.Ready ((g.fail a clock calls s).1.evidence g.key) := by
  unfold Goroutine.fail
  unfold Goroutine.arms at h
  cases harms : calls.globalIPv6 && !candidateListHasType g.candidates .host6 with
  | false => trivial
  | true =>
    have hclear : Clear ((a.wgSet calls.set g.key .remove).evidence g.key) := by
      cases hset : a.accepts calls.set with
      | true =>
        rw [App.evidence_remove hset]
        exact nofun
      | false =>
        rw [App.evidence_wgSet_failed hset]
        exact (h harms).resolve_left (by simp [hset])
    show Clear (((a.wgSet calls.set g.key .remove).wgSet calls.rearm g.key (.keepalive 0)).evidence g.key)
    rcases App.evidence_keepalive (a := a.wgSet calls.set g.key .remove)
      0 with he | ⟨_, he⟩
    · rw [he]
      exact hclear
    · rw [he]
      rintro x hx h0
      obtain rfl := Option.some.inj hx
      exact absurd rfl h0

theorem ready_configure {t : Attempt} {s : PeerState} (h : (Pc.configure t).Ready (a.evidence g.key)) :
    (g.configure a clock calls t s).2.Ready ((g.configure a clock calls t s).1.evidence g.key) := by
  unfold Goroutine.configure
  split
  · rename_i hok
    rw [App.evidence_setState, App.evidence_endpoint hok]
    intro x hx hlt
    obtain rfl := Option.some.inj hx
    cases he : a.evidence g.key with
    | none => simp [he] at hlt
    | some y =>
      rw [he] at hlt
      exact absurd (h y he) (by simpa using hlt)
  · trivial

/-- An owner's step leaves it with what it relies on next. -/
theorem ready_step (h : g.pc.Ready (a.evidence g.key))
    (hbaseline : ∀ c rest, g.pc = .baseline c rest →
      a.accepts calls.dump = true ∨ ∀ x ∈ a.evidence g.key, x.1 = 0)
    (harm : g.pc = .next [] → g.arms calls = true →
      a.accepts calls.set = true ∨ Clear (a.evidence g.key)) :
    (g.step a clock calls).2.Ready ((g.step a clock calls).1.evidence g.key) := by
  have hsection {owns : Bool} {f : PeerState → App × Pc}
      (hf : ∀ s, (f s).2.Ready ((f s).1.evidence g.key)) :
      (g.own a owns f).2.Ready ((g.own a owns f).1.evidence g.key) := by
    unfold Goroutine.own
    split
    · split
      · exact hf _
      · trivial
    · trivial
  unfold Goroutine.step
  cases hpc : g.pc with
  | start => rcases g.probeSnapshot a with _ | _ | ⟨_, _⟩ <;> trivial
  | cancel => trivial
  | next rest =>
    cases rest with
    | nil => exact hsection fun s => ready_fail (harm hpc)
    | cons c rest => dsimp only; split <;> trivial
  | baseline c rest =>
    intro x hx
    cases hl : a.localPeer calls.dump g.key with
    | some p =>
      obtain ⟨_, he⟩ := App.evidence_localPeer hl
      rw [he] at hx
      obtain rfl := Option.some.inj hx
      exact le_refl _
    | none =>
      rcases App.evidence_no_localPeer hl with he | he
      · rw [he] at hx
        cases hx
      · have h0 := (hbaseline c rest hpc).resolve_left (by simp [he]) x hx
        omega
  | configure t =>
    rw [hpc] at h
    exact hsection fun s => ready_configure h
  | aim t => rwa [hpc] at h
  | poll t deadline =>
    rw [hpc] at h
    dsimp only
    split
    · exact h
    · trivial
  | wake t deadline =>
    rw [hpc] at h
    dsimp only
    split
    · exact h
    · trivial
  | look t deadline =>
    rw [hpc] at h
    cases hl : a.localPeer calls.dump g.key with
    | none => exact h
    | some p =>
      obtain ⟨awaiting, he⟩ := App.evidence_localPeer hl
      dsimp only
      split
      · rename_i hlt
        have hclear : awaiting = false := h _ he hlt
        exact ⟨_, he, by simp only []; omega, hclear⟩
      · exact h
  | promote t endpoint type =>
    refine hsection fun s => ?_
    unfold Goroutine.promote
    split <;> trivial
  | watchPassiveIPv6 => rwa [hpc] at h
  | watch deadline =>
    rw [hpc] at h
    dsimp only
    split
    · exact h
    · trivial
  | listen deadline =>
    rw [hpc] at h
    dsimp only
    split
    · exact h
    · trivial
  | learn deadline =>
    rw [hpc] at h
    cases hl : a.localPeer calls.dump g.key with
    | none => exact h
    | some p =>
      obtain ⟨awaiting, he⟩ := App.evidence_localPeer hl
      dsimp only
      split
      · rename_i hready
        simp only [passiveObserved6Ready, Bool.and_eq_true, decide_eq_true_eq] at hready
        have hne : p.latestHandshake ≠ 0 := by omega
        exact ⟨_, he, hne, h _ he hne⟩
      · exact h
  | adopt endpoint =>
    refine hsection fun s => ?_
    unfold Goroutine.adopt
    split <;> trivial
  | finished => trivial

end Own

/-! ### A step of another -/

section Other
variable {a b : App} {key : Text}

/-- A step leaves the evidence of every key that has a fence after it. -/
def App.Mild (a b : App) : Prop := ∀ key, b.fence key = none ∨ b.evidence key = a.evidence key

theorem Visit.run_evidence_ne (v : Visit) (h : key ≠ v.key) :
    (v.run a).1.evidence key = a.evidence key := by
  obtain ⟨b, s', hv, he, _⟩ := v.visited a
  rw [he, App.evidence_setState]
  generalize (v.run a).2 = launched at hv
  cases hv with
  | promoted => exact App.evidence_wgSet_ne h
  | renewed =>
    split
    · exact App.evidence_wgSet_ne h
    · rfl
  | _ => rfl

/-- An iteration that starts no probe. -/
theorem Visit.run_mild (v : Visit) (h : (v.run a).2 = none) : a.Mild (v.run a).1 := by
  intro key
  by_cases hk : key = v.key
  · subst hk
    obtain ⟨b, s', hv, he, _⟩ := v.visited a
    rw [he, App.evidence_setState, App.fence_setState, if_pos rfl]
    rw [h] at hv
    cases hv with
    | kept _ hmode hrun => exact .inl (PeerState.fence_none hrun (by simp [hmode]))
    | promoted _ hmode hrun => exact .inl (PeerState.fence_none hrun (by simp [hmode]))
    | rests => exact .inr rfl
  · exact .inr (v.run_evidence_ne hk)

theorem App.drop_mild (locals : Dict Text LocalPeer) (k : Text) (remove : Bool) :
    a.Mild (a.drop locals k remove) := by
  intro key
  unfold App.drop
  by_cases hk : key = k
  · refine .inl ?_
    rw [App.fence]
    split <;> simp [hk]
  · refine .inr ?_
    split
    · exact App.evidence_wgSet_ne hk
    · rfl

theorem App.fallbackStaleDirects_mild (clock : ℕ) (dump : Bool) (remove : Text → Bool) :
    a.Mild (a.fallbackStaleDirects clock dump remove) := by
  refine App.fallbackStaleDirects_rule (I := a.Mild) clock dump remove (fun locals b server hb => ?_)
    fun _ => .inr rfl
  intro key
  unfold App.fallbackOne
  split
  · dsimp only
    split
    · rw [App.fence_setState, App.evidence_setState]
      by_cases hk : key = server.1
      · rw [if_pos hk]
        exact .inl rfl
      · rw [if_neg hk, App.fence_congr (App.states_wgSet ..), App.evidence_wgSet_ne hk]
        exact hb key
    · rename_i hnone
      by_cases hk : key = server.1
      · exact .inl (by rw [hk, App.fence, hnone]; rfl)
      · rw [App.fence_congr (App.states_wgSet ..), App.evidence_wgSet_ne hk]
        exact hb key
  · exact hb key

/-- A goroutine changes the evidence of its key only where it owns the state. -/
theorem Ran.evidence {g : Goroutine} {clock : ℕ} {calls : GoCalls} {pc : Pc}
    (h : Ran g a clock calls b pc) (hk : key ≠ g.key ∨ g.owns a = false) :
    b.evidence key = a.evidence key := by
  -- a section that the goroutine entered as owner
  have howner {kind : Kind} (hpc : g.pc.kind = some kind)
      (hf : a.fence g.key = some (g.generation, kind)) : key ≠ g.key := by
    refine hk.resolve_right fun hn => ?_
    rw [Goroutine.owns_iff.mpr ⟨kind, hpc, hf⟩] at hn
    cases hn
  cases h with
  | moved => rfl
  | left => rfl
  | refused => rfl
  | cancelled =>
    rcases g.finishProbeCancelled_eq (a := a) with ⟨_, he⟩ | ⟨_, _, _, he, _⟩ <;> rw [he]
    rfl
  | configured t s hpc _ hown hok =>
    obtain ⟨s', he, _⟩ := g.configure_eq (t := t) (s := s) hok
    rw [he, App.evidence_setState]
    exact App.evidence_wgSet_ne (howner (by rw [hpc]; rfl) (App.current_iff_fence.mp hown))
  | failed s hpc _ hown =>
    have hne := howner (by rw [hpc]; rfl) (App.current_iff_fence.mp hown)
    unfold Goroutine.fail
    cases calls.globalIPv6 && !candidateListHasType g.candidates .host6
    · exact App.evidence_wgSet_ne hne
    · exact (App.evidence_wgSet_ne hne).trans (App.evidence_wgSet_ne hne)
  | promoted t endpoint type s hpc _ hown hok =>
    obtain ⟨s', he, _⟩ := g.promote_eq (s := s) hok
    rw [he, App.evidence_setState]
    exact App.evidence_wgSet_ne (howner (by rw [hpc]; rfl) (App.current_iff_fence.mp hown))
  | adopted endpoint s hpc _ hown hok =>
    obtain ⟨s', he, _⟩ := g.adopt_eq (s := s) hok
    rw [he, App.evidence_setState]
    exact App.evidence_wgSet_ne (howner (by rw [hpc]; rfl) (App.armed_iff_fence.mp hown))

theorem App.evidence_onPeer (key : Text) {k : Text} {f : WgPeer → WgPeer} (h : a.onPeer k f = some b) :
    key ≠ k ∧ b.evidence key = a.evidence key ∨ key = k ∧ ∃ p, a.device.get? k = some p ∧
      b.evidence key = some ((f p).latestHandshake, (f p).awaiting) := by
  obtain ⟨p, hp, rfl⟩ := Option.map_eq_some_iff.mp h
  by_cases hk : key = k
  · refine .inr ⟨hk, p, hp, ?_⟩
    rw [App.evidence, Dict.get?_set, if_pos hk]
    rfl
  · refine .inl ⟨hk, ?_⟩
    rw [App.evidence, Dict.get?_set, if_neg hk, App.evidence]

/-- A handshake is evidence for everything but a probe that has just read its baseline. -/
theorem Pc.Ready.handshake {pc : Pc} {e : Option (ℕ × Bool)} {at_ : ℕ} (h : pc.Ready e) (hat : at_ ≠ 0)
    (hpc : pc.configures = false) : pc.Ready (some (at_, false)) := by
  cases pc with
  | configure => cases hpc
  | promote => exact ⟨_, rfl, hat, rfl⟩
  | adopt => exact ⟨_, rfl, hat, rfl⟩
  | aim => exact fun x hx _ => by rw [← Option.some.inj hx]
  | poll => exact fun x hx _ => by rw [← Option.some.inj hx]
  | wake => exact fun x hx _ => by rw [← Option.some.inj hx]
  | look => exact fun x hx _ => by rw [← Option.some.inj hx]
  | watchPassiveIPv6 => exact fun x hx _ => by rw [← Option.some.inj hx]
  | watch => exact fun x hx _ => by rw [← Option.some.inj hx]
  | listen => exact fun x hx _ => by rw [← Option.some.inj hx]
  | learn => exact fun x hx _ => by rw [← Option.some.inj hx]
  | _ => trivial

end Other

/-! ### Runs -/

/-- Every owner has what it relies on. -/
def Prepared (w : World) : Prop := ∀ (i : ℕ) (g : Goroutine), w.live[i]? = some g →
  g.owns w.app = true → g.pc.Ready (w.app.evidence g.key)

section Step
variable {w w' : World} {l : Label}

theorem Goroutine.owns_fence {g : Goroutine} {a : App} (h : g.owns a = true) : a.fence g.key ≠ none := by
  obtain ⟨_, _, hf⟩ := Goroutine.owns_iff.mp h
  simp [hf]

theorem Prepared.mild (h : Prepared w) (hq : w.app.Quiet w'.app) (hm : w.app.Mild w'.app)
    (hl : w'.live = w.live) : Prepared w' := by
  intro i g hi ho
  have hf := Goroutine.owns_fence ho
  rw [(hm g.key).resolve_left hf]
  refine h i g (hl ▸ hi) ?_
  rw [← Goroutine.owns_congr ((hq g.key).resolve_left hf).1, ho]

theorem Prepared.same (h : Prepared w) (hs : w'.app.states = w.app.states)
    (hd : w'.app.device = w.app.device) (hl : w'.live = w.live) : Prepared w' :=
  h.mild (.of_states hs) (fun key => .inr (App.evidence_congr hd key)) hl

/-- A device that changes one peer by itself. -/
theorem Prepared.onPeer {key : Text} {f : WgPeer → WgPeer} {a : App} (h : Prepared w)
    (ha : w.app.onPeer key f = some a)
    (hf : ∀ g ∈ w.live, g.key = key → ∀ p, w.app.device.get? key = some p →
      g.pc.Ready (w.app.evidence key) → g.pc.Ready (some ((f p).latestHandshake, (f p).awaiting))) :
    Prepared { w with app := a } := by
  intro i g hi ho
  have ho' : g.owns w.app = true := by
    rw [← Goroutine.owns_congr (App.fence_congr (App.onPeer_states ha) g.key), ho]
  rcases App.evidence_onPeer g.key ha with ⟨_, he⟩ | ⟨rfl, p, hp, he⟩
  · exact he ▸ h i g hi ho'
  · exact he ▸ hf g (List.mem_of_getElem? hi) rfl p hp (h i g hi ho')

theorem Prepared.nobody (h : ∀ g ∈ w.live, g.owns w.app = false) (hs : w'.app.states = w.app.states)
    (hl : w'.live = w.live) : Prepared w' := by
  intro i g hi ho
  have hn := h g (hl ▸ List.mem_of_getElem? hi)
  rw [← Goroutine.owns_congr (App.fence_congr hs g.key), ho] at hn
  cases hn

theorem Prepared.visited {calls : VisitCalls} {s : Sync} {p : ApiPeer} {rest : List ApiPeer}
    {target : Text × List Candidate} {main : Main} (h : Prepared w) (hok : Unambiguous w (.proceed calls))
    (hmain : w.main = .visiting s (p :: rest)) (htarget : s.target p = some target)
    (hnext : main = match ((s.visit p target calls).run w.app).2 with
      | none => .visiting { s with active := p.key :: s.active } rest
      | some g => .launching { s with active := p.key :: s.active } rest
        (World.probe (s.visit p target calls) ((s.visit p target calls).state w.app).object g)) :
    Prepared { w with app := ((s.visit p target calls).run w.app).1, main } := by
  have hlive : w.live = w.goroutines := World.live_eq (by rw [hmain]; rfl)
  rcases (s.visit p target calls).run_fences w.app with ⟨hn, hq⟩ | ⟨n, hn, hst⟩
  · rw [hn] at hnext
    subst hnext
    exact h.mild hq ((s.visit p target calls).run_mild hn) (hlive ▸ World.live_eq rfl)
  · rw [hn] at hnext
    subst hnext
    have hlaunch : w.launches calls = some (p.key, n) := by
      simp only [World.launches, hmain, htarget, Option.bind_some, hn, Option.map_some]
    have hu := hok _ hlaunch
    intro i g hi ho
    change (w.goroutines ++ [World.probe _ _ _])[i]? = some g at hi
    by_cases hlt : i < w.goroutines.length
    · rw [List.getElem?_append_left hlt] at hi
      have hi' : w.live[i]? = some g := hlive ▸ hi
      by_cases hk : g.key = p.key
      · rw [hu.not_owns hst.after hi' hk] at ho
        cases ho
      · rw [(s.visit p target calls).run_evidence_ne hk]
        refine h i g hi' ?_
        rw [← Goroutine.owns_congr (hst.others g.key hk).1, ho]
    · rw [List.getElem?_append_right (by omega), List.getElem?_singleton] at hi
      split at hi
      · obtain rfl := Option.some.inj hi
        trivial
      · cases hi

theorem Prepared.run {i : ℕ} {g : Goroutine} {calls : GoCalls} (hp : w.app.Probing) (hsole : SoleOwner w)
    (h : Prepared w) (hu : Unambiguous w (.run i calls)) (hg : Grounded w (.run i calls))
    (hi : w.goroutines[i]? = some g) (hne : g.pc ≠ .finished) : Prepared (w.run i g calls) := by
  have hi' : w.live[i]? = some g := World.live_getElem? hi
  have hlive : (w.run i g calls).live =
      w.live.set i (g.after w.app (g.step w.app w.clock calls).2) := by
    rw [World.live, World.live, List.set_append, if_pos (List.getElem?_eq_some_iff.mp hi).1]
    rfl
  have hran : Ran g w.app w.clock calls _ _ := Goroutine.ran hne
  intro j u hj ho
  rw [hlive, List.getElem?_set] at hj
  by_cases hij : i = j
  · subst hij
    rw [if_pos rfl] at hj
    split at hj
    · obtain rfl := Option.some.inj hj
      -- an owner after the step was an owner before
      have hown : g.owns w.app = true := by
        rcases hran.fences hp with ⟨hq, hk⟩ | ⟨hpc, _, _, ha⟩
        · obtain ⟨kind, hkind, hf⟩ := Goroutine.owns_iff.mp ho
          have hpc : (g.step w.app w.clock calls).2 ≠ .finished := fun he => by
            rw [show (g.after w.app _).pc = _ from he] at hkind
            cases hkind
          refine Goroutine.owns_iff.mpr ⟨kind, (hk.resolve_right hpc).symm.trans hkind, ?_⟩
          have hsome : (w.run i g calls).app.fence g.key ≠ none :=
            (g.after w.app (g.step w.app w.clock calls).2).owns_fence ho
          rw [← ((hq g.key).resolve_left hsome).1]
          exact hf
        · exact Goroutine.owns_iff.mpr ⟨.probing, by rw [hpc]; rfl, ha.before⟩
      have hground := hg g hi hown
      exact ready_step (h i g hi' hown) (fun c rest hpc => hground.1 (by rw [hpc]; rfl)) hground.2
    · cases hj
  · rw [if_neg hij] at hj
    have hown : u.owns w.app = true := by
      rcases hran.fences hp with ⟨hq, _⟩ | ⟨hpc, harms, _, ha⟩
      · have hsome : (w.run i g calls).app.fence u.key ≠ none := Goroutine.owns_fence ho
        exact (Goroutine.owns_congr ((hq u.key).resolve_left hsome).1).symm.trans ho
      · by_cases hk : u.key = g.key
        · have hog : g.owns w.app = true :=
            Goroutine.owns_iff.mpr ⟨.probing, by rw [hpc]; rfl, ha.before⟩
          have harm : w.arms i calls = some (g.key, g.generation) := by
            simp [World.arms, hi, Option.filter, hpc, hog, harms]
          have hn : u.owns (w.run i g calls).app = false := (hu _ harm).not_owns ha.after hj hk
          rw [hn] at ho
          cases ho
        · exact (Goroutine.owns_congr (ha.others u.key hk).1).symm.trans ho
    have hevidence : (w.run i g calls).app.evidence u.key = w.app.evidence u.key := by
      refine hran.evidence ?_
      by_contra hc
      rw [not_or, not_not, Bool.not_eq_false] at hc
      exact hij ((hsole j u hj hown).2 i g hi' hc.1.symm hc.2)
    rw [hevidence]
    exact h j u hj hown

theorem Prepared.step (hp : w.app.Probing) (hsole : SoleOwner w) (h : Prepared w)
    (hu : Unambiguous w l) (hb : BaselineHolds w l) (hg : Grounded w l)
    (hs : machine.step w l = some w') : Prepared w' := by
  have hmain {m : Main} (h : w.main = m) (hm : m.pending = []) : [] = w.main.pending := by rw [h, hm]
  cases stepped hs with
  | tick => exact h.same rfl rfl rfl
  | handshake key endpoint a hclock ha =>
    exact h.onPeer ha fun g hgl hk _ _ hr => hr.handshake hclock (hb g hgl hk)
  | roam key endpoint a ha =>
    refine h.onPeer ha fun g _ _ p hpeer hr => ?_
    rw [App.evidence, hpeer] at hr
    exact hr
  | interfaceFound name device hm =>
    exact .nobody hg rfl (World.live_of_goroutines rfl (hmain hm rfl))
  | interfaceLost hm => exact .nobody hg rfl (World.live_of_goroutines rfl (hmain hm rfl))
  | refused => exact h
  | dumped peers ownKey ourLAN dump s hm =>
    exact h.same rfl rfl (World.live_of_goroutines rfl (hmain hm rfl))
  | reset calls hm =>
    intro i g _ ho
    obtain ⟨_, _, hf⟩ := Goroutine.owns_iff.mp ho
    cases hf
  | entered calls s peers hm => exact h.same rfl rfl (World.live_of_goroutines rfl (hmain hm rfl))
  | tracked calls s peers hm => exact h.same rfl rfl (World.live_of_goroutines rfl (hmain hm rfl))
  | passed calls s p rest hm => exact h.same rfl rfl (World.live_of_goroutines rfl (hmain hm rfl))
  | visited calls s p rest target main hm htarget hnext => exact h.visited hu hm htarget hnext
  | swept calls s hm => exact h.same rfl rfl (World.live_of_goroutines rfl (hmain hm rfl))
  | launched calls s rest g hm => exact h.same rfl rfl (by simp [World.live, hm, Main.pending])
  | returned calls s hm => exact h.same rfl rfl (World.live_of_goroutines rfl (hmain hm rfl))
  | dropped s keys key remove hm =>
    exact h.mild (App.drop_quiet _ _ _) (App.drop_mild _ _ _)
      (World.live_of_goroutines rfl (hmain hm rfl))
  | fallback =>
    exact h.mild (App.fallbackStaleDirects_quiet _ _ _) (App.fallbackStaleDirects_mild _ _ _) rfl
  | cleanup removeState removeServer main hm =>
    have hlive : World.live { w with app := w.app.cleanup removeState removeServer, main } = w.live :=
      World.live_of_goroutines rfl (by rcases hm with ⟨hm, rfl⟩ | ⟨hm, rfl⟩ <;> exact hmain hm rfl)
    by_cases hsame : w.app.cleanup removeState removeServer = w.app
    · exact h.same (by rw [hsame]) (by rw [hsame]) hlive
    · intro i g hi ho
      rw [hlive] at hi
      rcases ((App.fence_cleanup removeState removeServer g.key).resolve_left hsame).2 with
        hn | ⟨s, hs, hmode, hf⟩
      · exact absurd hn (Goroutine.owns_fence ho)
      · rw [(hu _ (Dict.mem_of_get? hs) hmode).not_owns hf hi rfl] at ho
        cases ho
  | ran i g calls hi hne => exact h.run hp hsole hu hg hi hne

theorem Prepared.evidenced (h : Prepared w) (hg : Grounded w l) : Evidenced w l := by
  intro key hk
  cases l with
  | proceed calls => exact hg key hk
  | run i calls =>
    obtain ⟨g, hgi, rfl⟩ := Option.map_eq_some_iff.mp hk
    obtain ⟨hi, hcond⟩ := Option.filter_eq_some_iff.mp hgi
    simp only [Bool.and_eq_true] at hcond
    obtain ⟨⟨hown, _⟩, hpc⟩ := hcond
    have hready := h i g (World.live_getElem? hi) hown
    split at hpc
    · rename_i he
      rwa [he] at hready
    · rename_i he
      rwa [he] at hready
    · cases hpc
  | _ => cases hk

end Step

/-- A server with two native IPv6 endpoints. -/
def dualServer : ApiPeer := serverPeer 1000
  [⟨"host6".toList, "[2606:4700::5]:51820".toList, 910, false⟩,
    ⟨"host6".toList, "[2606:4700::6]:51820".toList, 900, false⟩]

/-- A handshake comes for the first endpoint when its window is over; the probe sets the second one, and
    the next sync takes it for learned. -/
def mistakenRun : List Label :=
  joins "wg0" ++ visits dualServer ++ [.proceed ⟨true, true⟩] ++ runs 5 ++
    [.tick (9 * second), .handshake "server".toList "[2606:4700::5]:51820".toList] ++ runs 4 ++
    List.replicate 2 (.proceed ⟨true, true⟩) ++ visits dualServer

end Client
