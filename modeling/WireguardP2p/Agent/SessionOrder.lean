import WireguardP2p.Agent.Invariants
import WireguardP2p.Agent.Sessions

/-! Sessions over whole runs: while a key keeps an entry, its session moves forward only; a rejected offer
    leaves the world as it was; and offers delivered in any order leave the latest session. -/

namespace Agent
open Ipaddress Python Candidates Raising

/-- The session a key is on. -/
def Shared.sessionOf (sh : Shared) (k : PublicKey) : Option (Text × ℤ) :=
  (sh.states.get? k).map PeerState.session

/-- The terms of a key. -/
def Shared.termsOf (sh : Shared) (k : PublicKey) : Option Terms :=
  (sh.states.get? k).map PeerState.terms

theorem Shared.sessionOf_eq (sh : Shared) (k : PublicKey) :
    sh.sessionOf k = (sh.termsOf k).map Terms.session := by
  rw [sessionOf, termsOf, Option.map_map]
  rfl

section Keeps
variable {R : Option Terms → Prop} {k j : PublicKey}

theorem termsOf_put {sh : Shared} {sl : Slot} (h : R (sh.termsOf k))
    (hsl : j = k → R (sl.entry.map PeerState.terms)) : R ((sh.put j sl).termsOf k) := by
  rw [Shared.termsOf, Shared.get?_put_states]
  by_cases hk : k = j
  · rw [if_pos hk]
    exact hsl hk.symm
  · rw [if_neg hk]
    exact h

theorem termsOf_onKey {α : Type} {p : Section α} (hp : KeepsTerms R p) :
    Keeps (fun sh => R (sh.termsOf k)) (onKey j p) := by
  intro sh h
  rw [wp_onKey]
  by_cases hk : j = k
  · subst hk
    exact wp_mono (hp (sh.slot j) h) (fun _ _ hsl => termsOf_put h fun _ => hsl)
      fun _ _ hsl => termsOf_put h fun _ => hsl
  · exact wp_mono (wp_trivial p _) (fun _ _ _ => termsOf_put h fun hjk => absurd hjk hk)
      fun _ _ _ => termsOf_put h fun hjk => absurd hjk hk

end Keeps

section Step
variable {k : PublicKey} {w w' : World}

/-- What a step does to the terms of a key: they stay, go with the entry, or are those of an offer found
    current. -/
theorem terms_step {R : Option Terms → Prop} {l : Label} (hs : machine.step w l = some w')
    (hnone : R none) (hoffer : ∀ env data controller calls o, l = .offer env data controller calls →
      readOffer env data controller = .ok o → o.key = k →
        sessionCheck (w.shared.states.get? k) o = .current → R (some o.terms))
    (h : R (w.shared.termsOf k)) : R (w'.shared.termsOf k) := by
  refine shared_step (I := fun sh => R (sh.termsOf k)) hs h
    (fun env data controller calls o hl ho => ?_)
    (fun _ _ now calls r _ => termsOf_onKey (terms_removeSection hnone r now calls) _ h)
    (fun now calls j _ => termsOf_onKey (terms_monitorPeer hnone now (calls.remove j)))
    (fun _ calls j _ => termsOf_onKey (terms_cleanupPeer hnone _ (calls.remove j)))
    (fun _ calls t _ _ => termsOf_onKey (terms_threadStep t calls) _ h) fun _ _ _ _ _ _ => h
  refine wp_onKey.mpr ?_
  by_cases hk : o.key = k
  · subst hk
    have hterms (sl : Slot) : (sl.entry.map PeerState.control).map Control.terms =
        sl.entry.map PeerState.terms := Option.map_map ..
    have hsl : (offerSection o calls).wp _ _ (w.shared.slot o.key) :=
      controls_offerSection (R := fun x => R (x.map Control.terms))
        ((congrArg R (hterms (w.shared.slot o.key))).mpr h)
        fun hc => hoffer env data controller calls o hl ho rfl hc
    exact wp_mono hsl (fun _ sl hsl => termsOf_put h fun _ => (congrArg R (hterms sl)).mp hsl)
      fun _ sl hsl => termsOf_put h fun _ => (congrArg R (hterms sl)).mp hsl
  · exact wp_mono (wp_trivial _ _) (fun _ _ _ => termsOf_put h fun hjk => absurd hjk hk)
      fun _ _ _ => termsOf_put h fun hjk => absurd hjk hk

/-- What a step does to the session of a key. -/
theorem session_step {R : Option (Text × ℤ) → Prop} {l : Label} (hs : machine.step w l = some w')
    (hnone : R none) (hoffer : ∀ env data controller calls o, l = .offer env data controller calls →
      readOffer env data controller = .ok o → o.key = k →
        sessionCheck (w.shared.states.get? k) o = .current → R (some o.session))
    (h : R (w.shared.sessionOf k)) : R (w'.shared.sessionOf k) := by
  rw [Shared.sessionOf_eq] at h ⊢
  exact terms_step (R := fun x => R (x.map Terms.session)) hs hnone hoffer h

end Step

/-- `b` is the session `a`, or a later one. -/
def Follows (a b : Text × ℤ) : Prop := a.2 ≤ b.2 ∧ (a.1 ≠ b.1 → a.2 < b.2)

theorem Follows.refl (a : Text × ℤ) : Follows a a := ⟨le_rfl, fun h => absurd rfl h⟩

theorem Follows.trans {a b c : Text × ℤ} (h : Follows a b) (h' : Follows b c) : Follows a c := by
  refine ⟨h.1.trans h'.1, fun hne => ?_⟩
  by_cases hab : a.1 = b.1
  · exact h.1.trans_lt (h'.2 (hab ▸ hne))
  · exact (h.2 hab).trans_le h'.1

/-- While the key has an entry, a step moves its session forward. -/
theorem follows_step {w w' : World} {l : Label} {k : PublicKey} {a b : Text × ℤ}
    (hs : machine.step w l = some w') (ha : w.shared.sessionOf k = some a)
    (hb : w'.shared.sessionOf k = some b) : Follows a b := by
  have h := session_step (R := fun x => ∀ y, x = some y → Follows a y) (k := k) hs nofun
    (fun env data controller calls o _ _ _ hc y hy => ?_) (fun y hy => ?_)
  · exact h b hb
  · obtain ⟨s, hs, rfl⟩ := Option.map_eq_some_iff.mp ha
    rw [hs] at hc
    obtain rfl := Option.some.inj hy
    exact sessionCheck_current hc
  · obtain rfl := Option.some.inj (ha.symm.trans hy)
    exact .refl a

/-- The step leaves the key an entry. -/
def KeepsEntry (k : PublicKey) (w : World) (l : Label) : Prop :=
  ∀ w', machine.step w l = some w' → (w'.shared.sessionOf k).isSome = true

theorem follows_run {w w' : World} {ls : List Label} {k : PublicKey}
    (hkeep : machine.Along (KeepsEntry k) w ls) (hrun : machine.run w ls = some w') {a : Text × ℤ}
    (ha : w.shared.sessionOf k = some a) : ∃ b, w'.shared.sessionOf k = some b ∧ Follows a b := by
  refine machine.run_relation (I := fun _ => True) (R := fun w w' => ∀ a, w.shared.sessionOf k = some a →
    ∃ b, w'.shared.sessionOf k = some b ∧ Follows a b) (fun w a ha => ⟨a, ha, .refl a⟩)
    (fun w w₁ w₂ h h' a ha => ?_) (fun w l w₁ hok _ hs => ⟨trivial, fun a ha => ?_⟩) trivial hkeep hrun
    a ha
  · obtain ⟨b, hb, hab⟩ := h a ha
    obtain ⟨c, hc, hbc⟩ := h' b hb
    exact ⟨c, hc, hab.trans hbc⟩
  · obtain ⟨b, hb⟩ := Option.isSome_iff_exists.mp (hok w₁ hs)
    exact ⟨b, hb, follows_step hs ha hb⟩

/-! ### Deliveries -/

/-- The offers for a key that a run delivers. -/
def offersFor (k : PublicKey) : List Label → List Offer
  | [] => []
  | .offer env data controller _ :: ls =>
    match readOffer env data controller with
    | .ok o => if o.key = k then o :: offersFor k ls else offersFor k ls
    | .error _ => offersFor k ls
  | _ :: ls => offersFor k ls

theorem offersFor_cons (k : PublicKey) (l : Label) (ls : List Label) :
    offersFor k (l :: ls) = offersFor k [l] ++ offersFor k ls := by
  cases l with
  | offer env data controller calls =>
    simp only [offersFor]
    cases readOffer env data controller with
    | error e => rfl
    | ok o => by_cases hk : o.key = k <;> simp [hk]
  | _ => rfl

theorem offersFor_offer {k : PublicKey} {env : OfferEnv} {data : Json} {controller : Controller}
    {o : Offer} (ho : readOffer env data controller = .ok o) (hk : o.key = k) (calls : OfferCalls) :
    offersFor k [.offer env data controller calls] = [o] := by
  simp [offersFor, ho, hk]

theorem exists_offer {k : PublicKey} {l : Label} (h : offersFor k [l] ≠ []) :
    ∃ env data controller calls o, l = .offer env data controller calls ∧
      readOffer env data controller = .ok o ∧ o.key = k := by
  cases l with
  | offer env data controller calls =>
    cases ho : readOffer env data controller with
    | error e => simp [offersFor, ho] at h
    | ok o =>
      by_cases hk : o.key = k
      · exact ⟨env, data, controller, calls, o, rfl, ho, hk⟩
      · simp [offersFor, ho, hk] at h
  | _ => exact absurd rfl h

/-- The step does not remove the entry, and the device answers an offer for the key. -/
def Delivers (k : PublicKey) (w : World) (l : Label) : Prop :=
  ((w.shared.sessionOf k).isSome = true → KeepsEntry k w l) ∧
    ∀ env data controller calls o, l = .offer env data controller calls →
      readOffer env data controller = .ok o → o.key = k → calls.query = none ∧ calls.remove = .done

/-- Sessions with the same id have the same start, and with the same start the same id. -/
def Distinct (ss : List (Text × ℤ)) : Prop := ∀ a ∈ ss, ∀ b ∈ ss, a.1 = b.1 ↔ a.2 = b.2

theorem Distinct.subset {ss ss' : List (Text × ℤ)} (h : Distinct ss) (hs : ∀ a ∈ ss', a ∈ ss) :
    Distinct ss' := fun a ha b hb => h a (hs a ha) b (hs b hb)

/-- The session of the key and the sessions the rest of the run delivers. -/
def known (k : PublicKey) (w : World) (ls : List Label) : List (Text × ℤ) :=
  (w.shared.sessionOf k).toList ++ (offersFor k ls).map Offer.session

theorem known_cons (k : PublicKey) (w : World) (l : Label) (ls : List Label) :
    known k w (l :: ls) = known k w [l] ++ (offersFor k ls).map Offer.session := by
  rw [known, known, offersFor_cons, List.map_append, List.append_assoc]

/-- A step that delivers nothing for the key leaves its session. -/
theorem delivers_nothing {k : PublicKey} {w w' : World} {l : Label} (hs : machine.step w l = some w')
    (hd : Delivers k w l) (hno : offersFor k [l] = []) : w'.shared.sessionOf k = w.shared.sessionOf k := by
  have h := session_step (R := fun x => x = none ∨ x = w.shared.sessionOf k) (k := k) hs (.inl rfl)
    (fun env data controller calls o hl ho hk _ => ?_) (.inr rfl)
  · rcases h with h | h
    · cases hw : w.shared.sessionOf k with
      | none => exact h
      | some a =>
        have hkeep := hd.1 (by rw [hw]; rfl) w' hs
        rw [h] at hkeep
        cases hkeep
    · exact h
  · subst hl
    rw [offersFor_offer ho hk] at hno
    cases hno

/-- A delivery leaves the later one of the session of the key and the session it brings. -/
theorem delivers_step {k : PublicKey} {w w' : World} {l : Label} (hs : machine.step w l = some w')
    (hd : Delivers k w l) (hdist : Distinct (known k w [l])) :
    (∀ b, w'.shared.sessionOf k = some b → b ∈ known k w [l]) ∧
      ∀ a ∈ known k w [l], ∃ b, w'.shared.sessionOf k = some b ∧ a.2 ≤ b.2 := by
  by_cases hof : offersFor k [l] = []
  · rw [delivers_nothing hs hd hof, known, hof, List.map_nil, List.append_nil]
    exact ⟨fun b hb => by simp [hb], fun a ha => ⟨a, Option.mem_toList.mp ha, le_rfl⟩⟩
  · obtain ⟨env, data, controller, calls, o, rfl, ho, rfl⟩ := exists_offer hof
    obtain ⟨hq, hr⟩ := hd.2 env data controller calls o rfl ho rfl
    obtain rfl : (w.offer env data controller calls).2 = w' := Option.some.inj hs
    have hsess : (w.offer env data controller calls).2.shared.sessionOf o.key =
        ((offerSection o calls).run (w.shared.slot o.key)).2.session := by
      rw [World.offer_shared ho, Shared.sessionOf, Shared.get?_put_states, if_pos rfl]
      rfl
    have hres := wp_run (taken_offerSection (o := o) hq hr (w.shared.slot o.key))
    have hknown : known o.key w [.offer env data controller calls] =
        (w.shared.sessionOf o.key).toList ++ [o.session] := by
      rw [known, offersFor_offer ho rfl, List.map_singleton]
    rw [hknown] at hdist ⊢
    rw [hsess]
    by_cases hc : sessionCheck (w.shared.slot o.key).entry o = .current
    · rw [if_pos hc] at hres
      rw [hres]
      refine ⟨fun b hb => ?_, fun a ha => ⟨o.session, rfl, ?_⟩⟩
      · rw [← Option.some.inj hb]
        simp
      · rcases List.mem_append.mp ha with ha | ha
        · obtain ⟨s, hs', rfl⟩ := Option.map_eq_some_iff.mp (Option.mem_toList.mp ha)
          rw [show (w.shared.slot o.key).entry = some s from hs'] at hc
          exact (sessionCheck_current hc).1
        · rw [List.mem_singleton.mp ha]
    · rw [if_neg hc] at hres
      rw [hres]
      cases hs' : w.shared.states.get? o.key with
      | none =>
        have he : (w.shared.slot o.key).entry = none := hs'
        rw [he] at hc
        exact absurd rfl hc
      | some s =>
        have he : (w.shared.slot o.key).entry = some s := hs'
        rw [he] at hc
        have hso : w.shared.sessionOf o.key = some s.session := by
          rw [Shared.sessionOf, hs', Option.map_some]
        have hss : (w.shared.slot o.key).session = some s.session := hso
        rw [hso] at hdist ⊢
        rw [hss]
        refine ⟨fun b hb => ?_, fun a ha => ⟨s.session, rfl, ?_⟩⟩
        · rw [← Option.some.inj hb]
          simp
        · rcases List.mem_append.mp ha with ha | ha
          · rw [Option.toList_some, List.mem_singleton] at ha
            rw [ha]
          · rw [List.mem_singleton.mp ha]
            exact sessionCheck_not_current hc (hdist s.session (by simp) o.session (by simp))

/-- In whatever order offers arrive, the latest of the sessions wins. -/
theorem delivers_run {k : PublicKey} : ∀ {ls : List Label} {w w' : World},
    machine.Along (Delivers k) w ls → machine.run w ls = some w' → Distinct (known k w ls) →
      (∀ b, w'.shared.sessionOf k = some b → b ∈ known k w ls) ∧
        ∀ a ∈ known k w ls, ∃ b, w'.shared.sessionOf k = some b ∧ a.2 ≤ b.2
  | [], w, w', _, hrun, _ => by
    rw [machine.run_nil, Option.some.injEq] at hrun
    subst hrun
    rw [known, offersFor, List.map_nil, List.append_nil]
    exact ⟨fun b hb => by simp [hb], fun a ha => ⟨a, Option.mem_toList.mp ha, le_rfl⟩⟩
  | l :: ls, w, w', ⟨hd, hds⟩, hrun, hdist => by
    obtain ⟨u, hu, hrun⟩ := machine.run_cons.mp hrun
    rw [known_cons] at hdist ⊢
    have hfirst := delivers_step hu hd (hdist.subset fun a ha => List.mem_append_left _ ha)
    have hsub : ∀ a ∈ known k u ls, a ∈ known k w [l] ++ (offersFor k ls).map Offer.session := by
      intro a ha
      rcases List.mem_append.mp ha with ha | ha
      · exact List.mem_append_left _ (hfirst.1 a (Option.mem_toList.mp ha))
      · exact List.mem_append_right _ ha
    have hrest := delivers_run (hds u hu) hrun (hdist.subset hsub)
    refine ⟨fun b hb => hsub b (hrest.1 b hb), fun a ha => ?_⟩
    rcases List.mem_append.mp ha with ha | ha
    · obtain ⟨b, hb, hab⟩ := hfirst.2 a ha
      obtain ⟨c, hc, hbc⟩ := hrest.2 b (List.mem_append_left _ (Option.mem_toList.mpr hb))
      exact ⟨c, hc, hab.trans hbc⟩
    · exact hrest.2 a (List.mem_append_right _ ha)

/-- A rejected offer leaves the world as it was. -/
theorem rejected_offer {env : OfferEnv} {data : Json} {controller : Controller} (w : World)
    (calls : OfferCalls) (h : (w.offer env data controller calls).1 = .ok .staleSession ∨
      ∃ m, (w.offer env data controller calls).1 = .error (.valueError m)) :
    (w.offer env data controller calls).2 = w := by
  unfold World.offer at h ⊢
  cases ho : readOffer env data controller with
  | error e => rfl
  | ok o =>
    have hrej : (offerSection o calls).wp _ _ (w.shared.slot o.key) := rejected_offerSection _
    unfold Raising.wp at hrej
    simp only [ho, Raising.run, onKey] at h ⊢
    generalize offerSection o calls (w.shared.slot o.key) = r at h hrej ⊢
    rcases r with ⟨e | reply, sl⟩
    · rcases h with h | ⟨m, h⟩
      · cases h
      · rw [hrej ⟨m, Except.error.inj h⟩, Shared.put_slot]
    · rcases h with h | ⟨m, h⟩
      · obtain rfl := Except.ok.inj h
        rw [hrej rfl, Shared.put_slot]
        rfl
      · cases h

/-- An offer of a session before the one of `peerOffer`. -/
def lateOffer : Json := sessionOffer "0a1b2c3d-0000-4000-8000-00000000000e" 3

/-- The older offer arrives after the newer one. -/
def lateRun : List Label :=
  [offered 150 .succeed, .offer (nodeEnv 151) lateOffer .responder .succeed]

/-- An offer that reads as one of `zeroKey` with the session `a`. -/
theorem exists_readOffer (now : Time) (data : Json) {a : Text × ℤ}
    (h : (readOffer (nodeEnv now) data .responder).toOption.any
      (fun o => decide (o.key = zeroKey ∧ o.session = a)) = true) :
    ∃ o, readOffer (nodeEnv now) data .responder = .ok o ∧ o.key = zeroKey ∧ o.session = a := by
  cases hr : readOffer (nodeEnv now) data .responder with
  | error e => simp [hr, Except.toOption] at h
  | ok o =>
    rw [hr] at h
    exact ⟨o, rfl, of_decide_eq_true h⟩

end Agent
