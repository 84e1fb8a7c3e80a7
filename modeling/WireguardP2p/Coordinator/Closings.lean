import WireguardP2p.Coordinator.Openings

/-! The end of a session at the coordinator. A session that is closed while no call is inside COORDINATE_LOCK is
    gone for good: no later step offers it or puts it back into the table. -/

namespace Coordinator
open Ipaddress Python Net Candidates

/-! ### What was said before does not matter -/

theorem events_moved {α : Type} (p : Section α) (st : Store) (f : α → Thread) : (p.moved st f).events = [] := by
  unfold Section.moved
  rcases p.run st with ⟨_ | _, _⟩ <;> rfl

theorem step_log {w w' : World} {l : Label} (h : coordinator.step w l = some w') : ∃ es, w'.log = w.log ++ es ∧
    ∀ log, coordinator.step { w with log := log } l = some { w' with log := log ++ es } := by
  unfold coordinator World.step at h ⊢
  cases l with
  | request i path data peers sourceIp =>
    dsimp only at h ⊢
    split at h <;> cases h
    exact ⟨[], rfl, fun log => rfl⟩
  | reap i now registry =>
    dsimp only at h ⊢
    split at h <;> cases h
    exact ⟨_, rfl, fun log => rfl⟩
  | list peers now =>
    cases h
    exact ⟨_, rfl, fun log => rfl⟩
  | act i a =>
    dsimp only at h ⊢
    split at h
    · cases h
    · rename_i t ht
      obtain ⟨m, hm, rfl⟩ := Option.map_eq_some_iff.mp h
      refine ⟨m.events, rfl, fun log => ?_⟩
      have hm' : t.act (World.locked { w with log := log }) w.store a = some m := hm
      rw [hm']
      rfl

theorem run_log {ls : List Label} : ∀ {w w' : World}, coordinator.run w ls = some w' →
    ∃ es, w'.log = w.log ++ es ∧ ∀ log, coordinator.run { w with log := log } ls = some { w' with log := log ++ es } := by
  induction ls with
  | nil =>
    intro w w' h
    obtain rfl := Option.some.inj h
    exact ⟨[], (List.append_nil _).symm, fun log => by rw [List.append_nil]; rfl⟩
  | cons l ls ih =>
    intro w w' h
    obtain ⟨v, hstep, hrest⟩ := coordinator.run_cons.mp h
    obtain ⟨es, hlog, hes⟩ := step_log hstep
    obtain ⟨es', hlog', hes'⟩ := ih hrest
    refine ⟨es ++ es', by rw [hlog', hlog, List.append_assoc], fun log => ?_⟩
    rw [← List.append_assoc]
    exact coordinator.run_cons.mpr ⟨_, hes log, hes' _⟩

/-! ### The closing step -/

/-- Outside COORDINATE_LOCK a thread offers nothing. -/
theorem knows_of_free {A : Ident → Prop} {t : Thread} (h : t.holds = false) : t.Knows A fun _ => True where
  todo := fun _ _ => trivial
  current := fun _ _ _ => trivial
  offers := by
    rintro r c s queued sent results rfl
    cases h
  rest := by
    rintro r c s todo current rfl
    cases h

/-- A round of the reaper leaves sessions that have not expired. -/
theorem reap_unexpired (now : ℚ) (registry : RegistryFile) (st : Store) :
    (reap now registry).wp (fun _ t => ∀ ip s, t.sessions.get? ip = some s → s.expired now = false)
      (fun _ t => ∀ ip s, t.sessions.get? ip = some s → s.expired now = false) st := by
  have hfold : ∀ (expired : List (Text × Session)) (t : Store) ip s,
      ((expired.foldl (fun st e => dropCandidates e.1 { st with sessions := st.sessions.erase e.1 }) t).sessions).get? ip
        = some s → t.sessions.get? ip = some s ∧ ip ∉ expired.map Prod.fst := by
    intro expired
    induction expired with
    | nil => exact fun t ip s hs => ⟨hs, List.not_mem_nil⟩
    | cons e es ih =>
      intro t ip s hs
      obtain ⟨hs, hmem⟩ := ih _ ip s hs
      rw [sessions_dropCandidates, Dict.get?_erase] at hs
      split_ifs at hs with he
      exact ⟨hs, fun h => (List.mem_cons.mp h).elim he hmem⟩
  have hleft : ∀ ip s, ((st.sessions.entries.filter fun e => e.2.expired now).foldl
      (fun st e => dropCandidates e.1 { st with sessions := st.sessions.erase e.1 }) st).sessions.get? ip = some s →
      s.expired now = false := by
    intro ip s hs
    obtain ⟨hs, hmem⟩ := hfold _ st ip s hs
    by_contra hexp
    exact hmem (List.mem_map.mpr ⟨(ip, s), List.mem_filter.mpr ⟨Dict.mem_of_get? hs, by simpa using hexp⟩, rfl⟩)
  unfold reap
  simp only [Raising.wp_bind, Raising.wp_get, Raising.wp_modify, Raising.wp_pure]
  refine Raising.wp_mono (sessions_dropServers registry _) (fun _ t ht ip s hs => ?_) fun _ t ht ip s hs => ?_
  · exact hleft ip s (ht ▸ hs)
  · exact hleft ip s (ht.1 ▸ hs)

/-- A session is replaced by a new one. -/
theorem stale_session {c : Call} {uuid : Fin (2 ^ 128)} {timeNs : ℕ} {st : Store} {stale : Session}
    (h : (openSession c uuid timeNs st).1.stale = some stale) :
    (openSession c uuid timeNs st).1.session = newSession c uuid timeNs := by
  cases hs : st.sessions.get? c.client.ip with
  | none =>
    simp only [openSession, hs] at h
    cases h
  | some s =>
    simp only [openSession, hs] at h ⊢
    split_ifs at h ⊢ with hkind
    rfl

/-- Nothing of the session with the id is left to offer. -/
abbrev World.Without (id : Text) : World → Prop := World.Names (fun i => i.sessionId ≠ id) fun _ => True

section Closing
variable {used : List (Fin (2 ^ 128))} {A : Ident → Prop} {st : Store} {sess : Session}

/-- The session that is taken out of the table is the only one with its id. -/
theorem without_other (hA : Distinct used A) (hst : Tables A st) {ip : Text} (hsess : st.sessions.get? ip = some sess)
    {st' : Store} (hsub : ∀ ip' s, st'.sessions.get? ip' = some s → st.sessions.get? ip' = some s ∧ ip' ≠ ip) :
    Tables (fun i => i.sessionId ≠ sess.sessionId) st' := by
  intro ip' s hs
  obtain ⟨hold, hne⟩ := hsub ip' s hs
  have htabled := hst ip' s hold
  refine ⟨htabled.ip, htabled.id, htabled.started, fun heq => hne ?_⟩
  have hsame := congrArg Ident.ip (hA.inj _ _ htabled.ident (hst ip sess hsess).ident heq)
  exact htabled.ip.symm.trans (hsame.trans (hst ip sess hsess).ip)

/-- What the other threads still do, and the thread that closed the session. -/
theorem without_after {w : World} (hfree : w.locked = false) {i : ℕ} {m : Moved} {id : Text}
    (hstore : Tables (fun i => i.sessionId ≠ id) m.store)
    (hthread : ∀ t, m.thread = some t → t.Knows (fun i => i.sessionId ≠ id) fun _ => True) :
    World.Without id { w.after i m with log := [] } where
  store := hstore
  threads := by
    intro j t ht
    unfold World.after at ht
    rw [Dict.get?_alter] at ht
    split_ifs at ht
    · exact hthread t ht
    · exact knows_of_free (World.holds_of_locked ht hfree)
  log := fun e he => absurd he List.not_mem_nil

theorem without_act {w : World} (hA : Distinct used A) (hw : w.Names A A) (hfree : w.locked = false) {i : ℕ} {t : Thread}
    {a : Act} {m : Moved} (hfresh : ∀ uuid timeNs, a = .openSession uuid timeNs → uuid ∉ used)
    (hm : Moves w.locked w.store t a m) (hclosed : .closed sess ∈ m.events) :
    World.Without sess.sessionId { w.after i m with log := [] } := by
  cases hm with
  | opened r c uuid timeNs _ =>
    have hdrawn : ∀ s : Session, s.sessionId = uuidText uuid → ∀ ip u, w.store.sessions.get? ip = some u →
        u.sessionId ≠ s.sessionId := by
      intro s hs ip u hu heq
      obtain ⟨v, hv, hid⟩ := hA.drawn _ (hw.store ip u hu).ident
      have hsame : uuidText v = uuidText uuid := hid.symm.trans (heq.trans hs)
      exact hfresh uuid timeNs rfl (uuidText_injective hsame ▸ hv)
    unfold afterOpening at hclosed ⊢
    cases hstale : (openSession c uuid timeNs w.store).1.stale with
    | none =>
      rw [hstale] at hclosed
      cases hclosed
    | some stale =>
      rw [hstale] at hclosed
      obtain rfl : sess = stale := Event.closed.inj (List.mem_singleton.mp hclosed)
      have hsess := stale_mem hstale
      have hsession := stale_session hstale
      have hne : uuidText uuid ≠ sess.sessionId :=
        (hdrawn (newSession c uuid timeNs) rfl c.client.ip sess hsess).symm
      refine without_after hfree (fun ip s hs => ?_) fun u hu => ?_
      · have hset : (w.store.sessions.set c.client.ip (openSession c uuid timeNs w.store).1.session).get? ip = some s := hs
        rw [Dict.get?_set, hsession] at hset
        split_ifs at hset with hip
        · obtain rfl := Option.some.inj hset
          exact ⟨hip.symm, uuidText_ne_nil uuid, timeNs.ne_zero, hne⟩
        · refine @without_other used A w.store sess hA hw.store c.client.ip hsess
            { w.store with sessions := w.store.sessions.erase c.client.ip } (fun ip' s' hs' => ?_) ip s ?_
          · rw [Dict.get?_erase] at hs'
            split_ifs at hs' with hip'
            exact ⟨hs', hip'⟩
          · rw [Dict.get?_erase, if_neg hip]
            exact hset
      · obtain rfl := Option.some.inj hu
        refine knows_removing (fun _ _ => trivial) (fun _ _ _ => trivial) fun r' c' s hrest => ?_
        cases hrest
        rw [hsession]
        exact ⟨rfl, rfl, hne⟩
  | left ip registry o st' hrun =>
    obtain ⟨s, hs, heq⟩ := List.mem_map.mp hclosed
    cases heq
    have hst' := Raising.wp_ok (popSession_spec ip registry w.store) hrun
    refine without_after hfree (without_other hA hw.store (Option.mem_toList.mp hs) fun ip' u hu => ?_) fun u hu => ?_
    · rw [hst', Dict.get?_erase] at hu
      split_ifs at hu with hip
      exact ⟨hu, hip⟩
    · obtain rfl := Option.some.inj hu
      exact knows_of_free rfl
  | died ip registry e st' hrun =>
    obtain ⟨s, hs, heq⟩ := List.mem_map.mp hclosed
    cases heq
    have hst' := (Raising.wp_error (popSession_spec ip registry w.store) hrun).1
    refine without_after hfree (without_other hA hw.store (Option.mem_toList.mp hs) fun ip' u hu => ?_)
      fun u hu => by cases hu
    rw [hst', Dict.get?_erase] at hu
    split_ifs at hu with hip
    exact ⟨hu, hip⟩
  | send r c s j queued sent results now =>
    obtain ⟨body, -, heq⟩ := List.mem_map.mp hclosed
    cases heq
  | remove s todo ip targets rest answer now => cases List.mem_singleton.mp hclosed
  | publish r now hpath => cases List.mem_singleton.mp hclosed
  | address r now =>
    rw [events_moved] at hclosed
    cases hclosed
  | candidates r a instanceId now =>
    rw [events_moved] at hclosed
    cases hclosed
  | close r c s results =>
    rw [events_moved] at hclosed
    cases hclosed
  | _ => cases hclosed

theorem without_reap {w : World} (hA : Distinct used A) (hw : w.Names A A) (hfree : w.locked = false) {i : ℕ}
    {now : ℚ} {registry : RegistryFile} (hclosed : .closed sess ∈ (reapMoved now registry w.store).events) :
    World.Without sess.sessionId { w.after i (reapMoved now registry w.store) with log := [] } := by
  have hexpired : sess ∈ expiredSessions now w.store := by
    unfold reapMoved at hclosed
    dsimp only at hclosed
    split at hclosed
    · exact mem_map_closed.mp hclosed
    · exact mem_map_closed.mp hclosed
  obtain ⟨⟨ip, s⟩, he, rfl⟩ := List.mem_map.mp hexpired
  obtain ⟨hmem, hexp⟩ := List.mem_filter.mp he
  have hsess := Dict.get?_of_mem hmem
  -- what is left has not expired, so it stands elsewhere
  have hsub {st' : Store} (hsame : ∀ ip s, st'.sessions.get? ip = some s → w.store.sessions.get? ip = some s)
      (hlive : ∀ ip s, st'.sessions.get? ip = some s → s.expired now = false) :
      Tables (fun i => i.sessionId ≠ s.sessionId) st' := by
    refine without_other hA hw.store hsess fun ip' u hu => ⟨hsame ip' u hu, ?_⟩
    rintro rfl
    obtain rfl := Option.some.inj (hsess.symm.trans (hsame ip' u hu))
    exact absurd (hexp.symm.trans (hlive ip' s hu)) (by decide)
  unfold reapMoved
  dsimp only
  split
  · rename_i closed st' hrun
    refine without_after hfree (hsub (Raising.wp_ok (reap_spec now registry w.store) hrun)
      (Raising.wp_ok (reap_unexpired now registry w.store) hrun)) fun u hu => ?_
    obtain rfl := Option.some.inj hu
    exact knows_of_free rfl
  · rename_i e st' hrun
    exact without_after hfree (hsub (Raising.wp_error (reap_spec now registry w.store) hrun).1
      (Raising.wp_error (reap_unexpired now registry w.store) hrun)) fun u hu => by cases hu

/-- A step that closes a session while COORDINATE_LOCK is free leaves nothing of it. -/
theorem without_step {w w' : World} {l : Label} (htells : Tells used w) (hfree : w.locked = false)
    (hfresh : ∀ u, l.uuid = some u → u ∉ used) (hstep : coordinator.step w l = some w')
    (hclosed : .closed sess ∈ w'.log.drop w.log.length) :
    World.Without sess.sessionId { w' with log := [] } := by
  obtain ⟨A, hA, hw⟩ := htells
  have hnew {m : Moved} {i : ℕ} (h : .closed sess ∈ (w.after i m).log.drop w.log.length) : .closed sess ∈ m.events := by
    rwa [World.after, List.drop_left] at h
  unfold coordinator World.step at hstep
  cases l with
  | request i path data peers sourceIp =>
    dsimp only at hstep
    split at hstep <;> cases hstep
    exact absurd (hnew hclosed) List.not_mem_nil
  | reap i now registry =>
    dsimp only at hstep
    split at hstep <;> cases hstep
    exact without_reap hA hw hfree (hnew hclosed)
  | list peers now =>
    cases hstep
    rw [List.drop_left] at hclosed
    cases List.mem_singleton.mp hclosed
  | act i a =>
    dsimp only at hstep
    split at hstep
    · cases hstep
    · rename_i t ht
      obtain ⟨m, hm, rfl⟩ := Option.map_eq_some_iff.mp hstep
      refine without_act hA hw hfree ?_ (act_moves hm) (hnew hclosed)
      rintro uuid timeNs rfl
      exact hfresh uuid rfl

end Closing

/-- What is gone stays gone while no step draws its id again. -/
theorem without_run {w w' : World} {ls : List Label} {id : Text} (hrun : coordinator.run w ls = some w')
    (hfresh : ∀ u ∈ uuids ls, uuidText u ≠ id) (h : w.Without id) : w'.Without id := by
  refine coordinator.run_invariant (I := World.Without id) (fun v l v' hl hv hstep => ?_) h
    (coordinator.along_of_mem (P := fun l => ∀ u, l.uuid = some u → uuidText u ≠ id) fun l hl u hu =>
      hfresh u (List.mem_filterMap.mpr ⟨l, hl, hu⟩)) hrun
  refine names_step (fun _ _ => trivial) hstep ?_ hv
  rintro i ⟨thread, uuid, timeNs, r, c, rfl, -, rfl⟩
  exact hl uuid rfl

/-- The sessions that were named before keep their ids for themselves. -/
theorem drawn_before {before after : List Label} (hfresh : (uuids (before ++ after)).Nodup) {w : World}
    (hrun : coordinator.run .start before = some w) : ∃ used, Tells used w ∧ ∀ u ∈ uuids after, u ∉ used := by
  unfold uuids at hfresh
  rw [List.filterMap_append] at hfresh
  have hdisjoint := List.disjoint_of_nodup_append hfresh
  have hfirst : (uuids before ++ []).Nodup := by
    rw [List.append_nil]
    exact hfresh.of_append_left
  obtain ⟨used, htells, hmem⟩ := tells_run hrun hfirst tells_start
  refine ⟨used, htells, fun u hu hu' => ?_⟩
  have hu₀ := (hmem u).mp hu'
  rw [List.append_nil] at hu₀
  exact hdisjoint hu₀ hu

/-- A session that is closed while no call is inside COORDINATE_LOCK is closed for good: whatever requests, rounds
    of the reaper and answers follow, in whatever order, it is never offered to a server again and never comes
    back into the table. -/
theorem closed_not_offered {before after : List Label} {l : Label} {w₀ w₁ w : World} {sess : Session}
    (hfresh : (uuids (before ++ l :: after)).Nodup) (hbefore : coordinator.run .start before = some w₀)
    (hfree : w₀.locked = false) (hstep : coordinator.step w₀ l = some w₁)
    (hclosed : .closed sess ∈ w₁.log.drop w₀.log.length) (hafter : coordinator.run w₁ after = some w) :
    (∀ c server body, .offered c server body ∈ w.log.drop w₁.log.length → body.sessionId ≠ sess.sessionId) ∧
      ∀ ip s, w.store.sessions.get? ip = some s → s.sessionId ≠ sess.sessionId := by
  obtain ⟨used, htells, hdrawn⟩ := drawn_before hfresh hbefore
  have hfirst : ∀ u, l.uuid = some u → u ∉ used := fun u hu =>
    hdrawn u (List.mem_filterMap.mpr ⟨l, List.mem_cons_self, hu⟩)
  have hgone := without_step htells hfree hfirst hstep hclosed
  -- the closed session has its id from a step up to this one
  have hrun₁ : coordinator.run .start (before ++ [l]) = some w₁ :=
    coordinator.run_append.mpr ⟨w₀, hbefore, coordinator.run_cons.mpr ⟨w₁, hstep, rfl⟩⟩
  have hfresh₁ : (uuids ((before ++ [l]) ++ after)).Nodup := by
    rwa [List.append_assoc, List.singleton_append]
  obtain ⟨used₁, ⟨A, hA, hnames⟩, hdrawn₁⟩ := drawn_before hfresh₁ hrun₁
  obtain ⟨v, hv, hid⟩ := hA.drawn _ (hnames.log _ (List.mem_of_mem_drop hclosed))
  obtain ⟨es, hlog, hes⟩ := run_log hafter
  have hend := without_run (hes []) (fun u hu heq => hdrawn₁ u hu (uuidText_injective (heq.trans hid) ▸ hv)) hgone
  refine ⟨fun c server body hbody => ?_, fun ip s hs => (hend.store ip s hs).ident⟩
  rw [hlog, List.drop_left] at hbody
  obtain ⟨i, hi, his⟩ := hend.log _ hbody
  exact fun heq => hi (his.sessionId.symm.trans heq)

/-! ### A client that comes back -/

/-- The session an event closes. -/
def Event.closes : Event → Option Session
  | .closed s => some s
  | _ => none

/-- The offer an event sends. -/
def Event.offers : Event → Option OfferBody
  | .offered _ _ body => some body
  | _ => none

theorem closes_eq {e : Event} {s : Session} (h : e.closes = some s) : e = .closed s := by
  cases e with
  | closed u => exact congrArg Event.closed (Option.some.inj h)
  | _ => cases h

theorem offers_eq {e : Event} {body : OfferBody} (h : e.offers = some body) : ∃ c server, e = .offered c server body := by
  cases e with
  | offered c server b => exact ⟨c, server, congrArg (Event.offered c server) (Option.some.inj h)⟩
  | _ => cases h

/-- The client syncs, and its request to disconnect is read. -/
def leavingRun : List Label := syncRun ++ [.request 1 .disconnect .null [homeServer, homeClient] homeClient.ip]

/-- It syncs again, under another UUID. -/
def resyncRun : List Label :=
  [.request 2 .sync lanBody [homeServer, homeClient] homeClient.ip] ++
    [.address 110, .candidates 110, .coordinate 110, .openSession 2 2, .send 110].map (.act 2)

/-- The client that disconnected is offered in another session. -/
theorem closed_not_offered_resyncRun : ∃ (w₀ w₁ w : World) (sess : Session) (body : OfferBody),
    coordinator.run .start leavingRun = some w₀ ∧
    coordinator.step w₀ (.act 1 (.leave .missing)) = some w₁ ∧ coordinator.run w₁ resyncRun = some w ∧
      sess.sessionId = uuidText 1 ∧ body.sessionId = uuidText 2 ∧
        (∃ c server, .offered c server body ∈ w.log.drop w₁.log.length) ∧
          ∀ c server body, .offered c server body ∈ w.log.drop w₁.log.length → body.sessionId ≠ sess.sessionId := by
  have hsome : (coordinator.run .start leavingRun).any (fun w₀ => !w₀.locked &&
      (coordinator.step w₀ (.act 1 (.leave .missing))).any fun w₁ =>
        (((w₁.log.drop w₀.log.length).filterMap Event.closes).any fun s => decide (s.sessionId = uuidText 1)) &&
          (coordinator.run w₁ resyncRun).any fun w => ((w.log.drop w₁.log.length).filterMap Event.offers).any
            fun body => decide (body.sessionId = uuidText 2)) = true := by decide +kernel
  obtain ⟨w₀, h₀, h⟩ := (Option.any_eq_true _ _).mp hsome
  rw [Bool.and_eq_true, Bool.not_eq_true'] at h
  obtain ⟨w₁, h₁, h'⟩ := (Option.any_eq_true _ _).mp h.2
  rw [Bool.and_eq_true] at h'
  obtain ⟨sess, hsess, hid⟩ := List.any_eq_true.mp h'.1
  obtain ⟨w, hw, h''⟩ := (Option.any_eq_true _ _).mp h'.2
  obtain ⟨body, hbody, hid'⟩ := List.any_eq_true.mp h''
  obtain ⟨e, he, hcloses⟩ := List.mem_filterMap.mp hsess
  obtain ⟨e', he', hoffers⟩ := List.mem_filterMap.mp hbody
  obtain ⟨c, server, rfl⟩ := offers_eq hoffers
  have hnodup : (uuids (leavingRun ++ .act 1 (.leave .missing) :: resyncRun)).Nodup := by decide +kernel
  exact ⟨w₀, w₁, w, sess, body, h₀, h₁, hw, of_decide_eq_true hid, of_decide_eq_true hid', ⟨c, server, he'⟩,
    (closed_not_offered hnodup h₀ h.1 h₁ (closes_eq hcloses ▸ he) hw).1⟩

end Coordinator
