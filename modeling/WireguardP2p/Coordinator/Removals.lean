import WireguardP2p.Coordinator.Steps

/-! Whom a closed session is taken back from. Offers go to the servers of the moment, removals to the
    registry of the closing moment; a server whose accepted offer a session records is told of the end
    of the session when the registry read for the removal still names it. -/

namespace Coordinator
open Ipaddress Python Net Candidates

/-- The server has accepted an offer of the session, and is not the client itself. -/
def Owed (s : Session) (serverIp : Text) : Prop := serverIp ∈ s.lastPush.keys ∧ serverIp ≠ s.ip

/-- The sessions whose targets a thread has still to look up. -/
def Thread.todo : Thread → List Session
  | .removing todo _ _ => todo
  | _ => []

/-- The session a thread is taking back, and the servers still to tell. -/
def Thread.current : Thread → Option (Session × List Text)
  | .removing _ targets _ => targets
  | _ => none

/-- The removal is still to be attempted by the thread. -/
def Thread.WillRemove (t : Thread) (s : Session) (serverIp : Text) : Prop :=
  s ∈ t.todo ∨ ∃ targets, t.current = some (s, targets) ∧ serverIp ∈ targets

/-- The registry a thread reads for a session that is owed to the server names the server; one read for
    the candidates of the servers only, or before such a session has its turn, can at least be read. -/
def Names (serverIp : Text) (st : Store) : Thread → Act → Prop
  | .removing (s :: todo) none _, .readRegistry registry => (∃ u ∈ s :: todo, Owed u serverIp) →
      ∃ servers, loadRoleRegistry registry = .ok servers ∧ (Owed s serverIp → serverIp ∈ servers)
  | .leaving ip, .leave registry => (∃ s, st.sessions.get? ip = some s ∧ Owed s serverIp) →
      (st.sessions.erase ip).entries = [] → registry ≠ .undecodable
  | _, _ => True

/-- Whenever a session that is owed to the server is closed, the server is in the registry. -/
def RegistryNames (serverIp : Text) (w : World) : Label → Prop
  | .act i a => ∀ t, w.threads.get? i = some t → Names serverIp w.store t a
  | .reap _ now registry => (∃ s ∈ expiredSessions now w.store, Owed s serverIp) →
      (∀ e ∈ w.store.sessions.entries, e.2.expired now = true) → registry ≠ .undecodable
  | _ => True

/-! ### Every session has an id -/

/-- The session has an id. -/
def Named (s : Session) : Prop := s.sessionId ≠ []

theorem named_openSession {c : Call} {uuid : Fin (2 ^ 128)} {timeNs : ℕ} {st : Store} :
    Named (openSession c uuid timeNs st).1.session := by
  have hnew : Named (newSession c uuid timeNs) := uuidText_ne_nil uuid
  have htouch : ∀ s : Session, Named (s.touch c uuid timeNs) := by
    intro s
    unfold Named Session.touch
    dsimp only
    split_ifs with hid
    · exact uuidText_ne_nil uuid
    · exact hid
  unfold openSession
  dsimp only
  split
  · split_ifs
    · exact hnew
    · exact htouch _
  · exact hnew

/-- A closed session has an id. -/
def Event.Names : Event → Prop
  | .closed s => Named s
  | _ => True

/-- The session a call replaces comes from the table. -/
theorem stale_mem {c : Call} {uuid : Fin (2 ^ 128)} {timeNs : ℕ} {st : Store} {s : Session}
    (h : (openSession c uuid timeNs st).1.stale = some s) : st.sessions.get? c.client.ip = some s := by
  unfold openSession at h
  dsimp only at h
  split at h
  · rename_i u hu
    split_ifs at h
    obtain rfl := Option.some.inj h
    exact hu
  · cases h

/-- The sessions of the table, of the threads and of the log have ids. -/
abbrev KeepsNamed (locked : Bool) (st : Store) (m : Moved) : Prop :=
  Keeps (SessionsAre fun _ => Named) (fun _ t => ∀ s ∈ t.todo, Named s) Event.Names locked st m

theorem keepsNamed {locked : Bool} {st : Store} {m : Moved} (hstore : SessionsAre (fun _ => Named) m.store)
    (hthread : ∀ t, m.thread = some t → ∀ s ∈ t.todo, Named s) (hevents : ∀ s, .closed s ∈ m.events → Named s) :
    KeepsNamed locked st m where
  store := hstore
  thread := hthread
  events := by
    intro e he
    cases e with
    | closed s => exact hevents s he
    | _ => trivial
  others := fun _ h _ => h

/-- A section that keeps the sessions named, before a thread that closes none. -/
theorem keepsNamed_moved {α : Type} {p : Section α} {locked : Bool} {st : Store} {f : α → Thread}
    (h : p.wp (fun _ t => SessionsAre (fun _ => Named) t) (fun _ t => SessionsAre (fun _ => Named) t) st)
    (hf : ∀ a, (f a).todo = []) : KeepsNamed locked st (p.moved st f) := by
  rcases moved_spec f h with ⟨a, t, ht, heq⟩ | ⟨e, t, ht, heq⟩
  · rw [heq]
    refine keepsNamed ht (fun u hu s hs => ?_) fun s hs => by cases hs
    obtain rfl := Option.some.inj hu
    rw [hf a] at hs
    cases hs
  · rw [heq]
    exact keepsNamed ht (fun u hu => by cases hu) fun s hs => by cases hs

theorem named_closed {st : Store} (hst : SessionsAre (fun _ => Named) st) {ip : Text} {s : Session}
    (h : s ∈ (st.sessions.get? ip).toList) : Named s := hst ip s (Option.mem_toList.mp h)

theorem mem_map_closed {ss : List Session} {s : Session} : Event.closed s ∈ ss.map Event.closed ↔ s ∈ ss := by
  constructor
  · intro h
    obtain ⟨u, hu, heq⟩ := List.mem_map.mp h
    cases heq
    exact hu
  · exact fun h => List.mem_map_of_mem h

theorem named_act {locked : Bool} {st : Store} {t : Thread} {a : Act} {m : Moved}
    (hst : SessionsAre (fun _ => Named) st) (ht : ∀ s ∈ t.todo, Named s) (hm : Moves locked st t a m) :
    KeepsNamed locked st m := by
  have hnone : ∀ s, Event.closed s ∈ ([] : List Event) → Named s := fun s hs => by cases hs
  have hquiet : ∀ {u : Thread} {st' : Store}, SessionsAre (fun _ => Named) st' → (∀ s ∈ u.todo, s ∈ t.todo) →
      KeepsNamed locked st ⟨st', some u, []⟩ := fun hst' hu =>
    keepsNamed hst' (fun v hv s hs => ht s (hu s (by
      obtain rfl := Option.some.inj hv
      exact hs))) hnone
  cases hm with
  | address r now =>
    exact keepsNamed_moved (Raising.wp_mono (sessions_announceAddress _ _ _ st) (fun _ _ h => hst.congr h)
      fun _ _ h => hst.congr h) fun _ => rfl
  | candidates r a instanceId now =>
    exact keepsNamed_moved (Raising.wp_mono (sessions_announceCandidates _ _ _ _ st) (fun _ _ h => hst.congr h)
      fun _ _ h => hst.congr h) fun _ => rfl
  | coordinate r a now hrole => exact hquiet hst fun s hs => by cases hs
  | skip r a now hrole => exact hquiet hst fun s hs => by cases hs
  | opened r c uuid timeNs hfree =>
    have hopened : SessionsAre (fun _ => Named) (openSession c uuid timeNs st).2 := by
      intro ip s hs
      have hset : (st.sessions.set c.client.ip (openSession c uuid timeNs st).1.session).get? ip = some s := hs
      rw [Dict.get?_set] at hset
      split_ifs at hset
      · obtain rfl := Option.some.inj hset
        exact named_openSession
      · exact hst ip s hset
    unfold afterOpening
    split
    · rename_i stale hstale
      have hnamed : Named stale := hst _ stale (stale_mem hstale)
      refine keepsNamed hopened (fun u hu s hs => ?_) fun s hs => ?_
      · obtain rfl := Option.some.inj hu
        exact List.mem_singleton.mp hs ▸ hnamed
      · cases List.mem_singleton.mp hs
        exact hnamed
    · exact hquiet hopened fun s hs => by cases hs
  | unnamed s todo rest registry hid => exact hquiet hst fun s hs => List.mem_cons_of_mem _ hs
  | targets s todo rest registry targets hid htargets => exact hquiet hst fun s hs => List.mem_cons_of_mem _ hs
  | unreadable s todo rest registry e hid htargets => exact keepsNamed hst (fun u hu => by cases hu) hnone
  | remove s todo ip targets rest answer now =>
    refine keepsNamed (hst.congr (sessions_record ip now answer st)) (fun u hu => ?_) fun s hs => ?_
    · obtain rfl := Option.some.inj hu
      exact ht
    · cases List.mem_singleton.mp hs
  | removed s todo rest => exact hquiet hst fun s hs => hs
  | goOn r c s => exact hquiet hst fun s hs => by cases hs
  | finish => exact keepsNamed hst (fun u hu => by cases hu) hnone
  | send r c s j queued sent results now =>
    refine keepsNamed hst (fun u hu s hs => ?_) fun s hs => ?_
    · obtain rfl := Option.some.inj hu
      cases hs
    · obtain ⟨body, -, heq⟩ := List.mem_map.mp hs
      cases heq
  | record r c s queued j payload sent results answer now =>
    exact hquiet (hst.congr (sessions_record _ now _ st)) fun s hs => by cases hs
  | close r c s results =>
    exact keepsNamed_moved (keeps_closeCall_sessions (fun _ h => h) (fun _ _ _ _ _ h => h) st hst) fun _ => rfl
  | answer r now hpath => exact keepsNamed hst (fun u hu => by cases hu) hnone
  | publish r now hpath =>
    refine keepsNamed hst (fun u hu => by cases hu) fun s hs => ?_
    cases List.mem_singleton.mp hs
  | left ip registry o st' hrun =>
    have hst' := Raising.wp_ok (popSession_spec ip registry st) hrun
    refine keepsNamed (hst.sub fun j s hs => ?_) (fun u hu s hs => ?_) fun s hs => named_closed hst (mem_map_closed.mp hs)
    · rw [hst', Dict.get?_erase] at hs
      split_ifs at hs
      exact hs
    · obtain rfl := Option.some.inj hu
      exact named_closed hst hs
  | died ip registry e st' hrun =>
    have hst' := (Raising.wp_error (popSession_spec ip registry st) hrun).1
    refine keepsNamed (hst.sub fun j s hs => ?_) (fun u hu => by cases hu) fun s hs =>
      named_closed hst (mem_map_closed.mp hs)
    rw [hst', Dict.get?_erase] at hs
    split_ifs at hs
    exact hs

theorem named_expired {now : ℚ} {st : Store} (hst : SessionsAre (fun _ => Named) st) :
    ∀ s ∈ expiredSessions now st, Named s := by
  intro s hs
  obtain ⟨e, he, rfl⟩ := List.mem_map.mp hs
  exact hst e.1 e.2 (Dict.get?_of_mem (List.mem_of_mem_filter he))

/-- Every step keeps the sessions named. -/
theorem named_parts : Parts (SessionsAre fun _ => Named) (fun _ t => ∀ s ∈ t.todo, Named s) Event.Names
    fun _ => True where
  act := named_act
  start := by
    intro locked st i path data peers sourceIp _ hst
    refine keepsNamed hst (fun t ht s hs => ?_) fun s hs => by cases hs
    unfold startThread at ht
    dsimp only at ht
    split at ht
    · cases ht
    · split_ifs at ht <;>
      · cases ht
        cases hs
  reap := by
    intro locked st now registry hst
    unfold reapMoved
    dsimp only
    split
    · rename_i closed st' hrun
      refine keepsNamed (hst.sub (Raising.wp_ok (reap_spec now registry st) hrun)) (fun t ht => ?_) fun s hs =>
        named_expired hst s (mem_map_closed.mp hs)
      obtain rfl := Option.some.inj ht
      exact named_expired hst
    · rename_i e st' hrun
      exact keepsNamed (hst.sub (Raising.wp_error (reap_spec now registry st) hrun).1) (fun t ht => by cases ht)
        fun s hs => named_expired hst s (mem_map_closed.mp hs)
  list := by
    intro locked st peers now hst
    refine keepsNamed (hst.congr rfl) (fun t ht => by cases ht) fun s hs => ?_
    cases List.mem_singleton.mp hs

/-! ### A removal is handed on until it is attempted -/

/-- The removal has been attempted, or a thread will attempt it. -/
def World.Settles (w : World) (s : Session) (serverIp : Text) : Prop :=
  .removed s serverIp ∈ w.log ∨ ∃ i t, w.threads.get? i = some t ∧ t.WillRemove s serverIp

/-- The step attempts the removal, or leaves it to its thread. -/
def Moved.HandsOn (m : Moved) (s : Session) (serverIp : Text) : Prop :=
  .removed s serverIp ∈ m.events ∨ ∃ t, m.thread = some t ∧ t.WillRemove s serverIp

theorem World.Settles.after {w : World} {s : Session} {serverIp : Text} (h : w.Settles s serverIp) {i : ℕ}
    {m : Moved} (hm : ∀ t, w.threads.get? i = some t → t.WillRemove s serverIp → m.HandsOn s serverIp) :
    (w.after i m).Settles s serverIp := by
  rcases h with h | ⟨j, t, ht, hwill⟩
  · exact Or.inl (List.mem_append_left _ h)
  · by_cases hj : j = i
    · subst hj
      rcases hm t ht hwill with hev | ⟨u, hu, hwill'⟩
      · exact Or.inl (List.mem_append_right _ hev)
      · refine Or.inr ⟨j, u, ?_, hwill'⟩
        unfold World.after
        rw [Dict.get?_alter, if_pos rfl, hu]
    · refine Or.inr ⟨j, t, ?_, hwill⟩
      unfold World.after
      rw [Dict.get?_alter, if_neg hj, ht]

theorem Moved.HandsOn.after {w : World} {s : Session} {serverIp : Text} {i : ℕ} {m : Moved}
    (h : m.HandsOn s serverIp) : (w.after i m).Settles s serverIp := by
  rcases h with hev | ⟨u, hu, hwill⟩
  · exact Or.inl (List.mem_append_right _ hev)
  · refine Or.inr ⟨i, u, ?_, hwill⟩
    unfold World.after
    rw [Dict.get?_alter, if_pos rfl, hu]

theorem not_willRemove {t : Thread} {s : Session} {serverIp : Text} (htodo : t.todo = [])
    (hcurrent : t.current = none) : ¬ t.WillRemove s serverIp := by
  rintro (h | ⟨targets, h, -⟩)
  · rw [htodo] at h
    cases h
  · rw [hcurrent] at h
    cases h

/-- A thread attempts what it has to, or keeps it. -/
theorem handsOn_act {locked : Bool} {st : Store} {t : Thread} {a : Act} {m : Moved} {serverIp : Text}
    (hnamed : ∀ s ∈ t.todo, Named s) (hreach : Names serverIp st t a) (hm : Moves locked st t a m) {s : Session}
    (howed : Owed s serverIp) (h : t.WillRemove s serverIp ∨ .closed s ∈ m.events) : m.HandsOn s serverIp := by
  have hidle : ∀ {u : Thread} {es : List Event}, u.todo = [] → u.current = none → (∀ e ∈ es, e ≠ .closed s) →
      ¬ (u.WillRemove s serverIp ∨ .closed s ∈ es) := by
    rintro u es htodo hcurrent hes (h | h)
    · exact not_willRemove htodo hcurrent h
    · exact hes _ h rfl
  have hmoved : ∀ {α : Type} (p : Section α) (f : α → Thread), ∀ e ∈ (p.moved st f).events, e ≠ .closed s := by
    intro α p f e he
    unfold Section.moved at he
    split at he <;> cases he
  cases hm with
  | address r now => exact absurd h (hidle rfl rfl (hmoved _ _))
  | candidates r a instanceId now => exact absurd h (hidle rfl rfl (hmoved _ _))
  | coordinate r a now hrole => exact absurd h (hidle rfl rfl fun e he => by cases he)
  | skip r a now hrole => exact absurd h (hidle rfl rfl fun e he => by cases he)
  | opened r c uuid timeNs hfree =>
    unfold afterOpening at h ⊢
    split at h
    · rename_i stale hstale
      rcases h with h | h
      · exact absurd h (not_willRemove rfl rfl)
      · cases List.mem_singleton.mp h
        exact Or.inr ⟨_, rfl, Or.inl List.mem_cons_self⟩
    · exact absurd h (hidle rfl rfl fun e he => by cases he)
  | unnamed u todo rest registry hid => exact absurd hid (hnamed u List.mem_cons_self)
  | targets u todo rest registry targets hid htargets =>
    refine Or.inr ⟨_, rfl, ?_⟩
    rcases h with (h | ⟨_, h, -⟩) | h
    · rcases List.mem_cons.mp h with rfl | h
      · obtain ⟨servers, hservers, hin⟩ := hreach ⟨s, List.mem_cons_self, howed⟩
        refine Or.inr ⟨targets, rfl, ?_⟩
        rw [removeTargets, hservers] at htargets
        cases htargets
        exact List.mem_filter.mpr ⟨hin howed, decide_eq_true howed.2⟩
      · exact Or.inl h
    · cases h
    · cases h
  | unreadable u todo rest registry e hid htargets =>
    rcases h with (h | ⟨_, h, -⟩) | h
    · obtain ⟨servers, hservers, -⟩ := hreach ⟨s, h, howed⟩
      rw [removeTargets, hservers] at htargets
      cases htargets
    · cases h
    · cases h
  | remove u todo ip targets rest answer now =>
    rcases h with (h | ⟨ts, h, hmem⟩) | h
    · exact Or.inr ⟨_, rfl, Or.inl h⟩
    · obtain ⟨rfl, rfl⟩ : u = s ∧ ip :: targets = ts := by
        simpa [Thread.current] using h
      rcases List.mem_cons.mp hmem with rfl | hmem
      · exact Or.inl List.mem_cons_self
      · exact Or.inr ⟨_, rfl, Or.inr ⟨targets, rfl, hmem⟩⟩
    · cases List.mem_singleton.mp h
  | removed u todo rest =>
    rcases h with (h | ⟨ts, h, hmem⟩) | h
    · exact Or.inr ⟨_, rfl, Or.inl h⟩
    · obtain ⟨-, rfl⟩ : u = s ∧ [] = ts := by
        simpa [Thread.current] using h
      cases hmem
    · cases h
  | goOn r c u => exact absurd h (hidle rfl rfl fun e he => by cases he)
  | finish => exact absurd h (hidle rfl rfl fun e he => by cases he)
  | send r c u j queued sent results now =>
    refine absurd h (hidle rfl rfl fun e he => ?_)
    obtain ⟨body, -, rfl⟩ := List.mem_map.mp he
    intro h
    cases h
  | record r c u queued j payload sent results answer now => exact absurd h (hidle rfl rfl fun e he => by cases he)
  | close r c u results => exact absurd h (hidle rfl rfl (hmoved _ _))
  | answer r now hpath => exact absurd h (hidle rfl rfl fun e he => by cases he)
  | publish r now hpath =>
    refine absurd h (hidle rfl rfl fun e he => ?_)
    obtain rfl := List.mem_singleton.mp he
    intro h
    cases h
  | left ip registry o st' hrun =>
    rcases h with h | h
    · exact absurd h (not_willRemove rfl rfl)
    · exact Or.inr ⟨_, rfl, Or.inl (mem_map_closed.mp h)⟩
  | died ip registry e st' hrun =>
    rcases h with h | h
    · exact absurd h (not_willRemove rfl rfl)
    · have hs := Option.mem_toList.mp (mem_map_closed.mp h)
      obtain ⟨-, hlast, hundecodable⟩ := Raising.wp_error (popSession_spec ip registry st) hrun
      exact absurd hundecodable (hreach ⟨s, hs, howed⟩ hlast)

theorem handsOn_reap {now : ℚ} {registry : RegistryFile} {st : Store} {serverIp : Text}
    (hreach : (∃ s ∈ expiredSessions now st, Owed s serverIp) →
      (∀ e ∈ st.sessions.entries, e.2.expired now = true) → registry ≠ .undecodable)
    {s : Session} (howed : Owed s serverIp) (h : .closed s ∈ (reapMoved now registry st).events) :
    (reapMoved now registry st).HandsOn s serverIp := by
  unfold reapMoved at h ⊢
  dsimp only at h ⊢
  split at h
  · exact Or.inr ⟨_, rfl, Or.inl (mem_map_closed.mp h)⟩
  · rename_i e st' hrun
    obtain ⟨-, hall, hundecodable⟩ := Raising.wp_error (reap_spec now registry st) hrun
    exact absurd hundecodable (hreach ⟨s, mem_map_closed.mp h, howed⟩ hall)

/-- Every closed session is settled with the server, if it is owed to it. -/
def World.Settled (w : World) (serverIp : Text) : Prop :=
  ∀ s, .closed s ∈ w.log → Owed s serverIp → w.Settles s serverIp

theorem settled_step {w w' : World} {l : Label} {serverIp : Text} (hreach : RegistryNames serverIp w l)
    (hnamed : ∀ i t, w.threads.get? i = some t → ∀ s ∈ t.todo, Named s) (h : w.Settled serverIp)
    (hstep : coordinator.step w l = some w') : w'.Settled serverIp := by
  intro s hs howed
  unfold coordinator World.step at hstep
  cases l with
  | request i path data peers sourceIp =>
    dsimp only at hstep
    split at hstep
    · rename_i hfree
      cases hstep
      rcases List.mem_append.mp hs with hs | hs
      · refine (h s hs howed).after fun t ht => ?_
        rw [hfree] at ht
        cases ht
      · cases hs
    · cases hstep
  | reap i now registry =>
    dsimp only at hstep
    split at hstep
    · rename_i hfree
      cases hstep
      rcases List.mem_append.mp hs with hs | hs
      · refine (h s hs howed).after fun t ht => ?_
        rw [hfree] at ht
        cases ht
      · exact (handsOn_reap hreach howed hs).after
    · cases hstep
  | list peers now =>
    cases hstep
    rcases List.mem_append.mp hs with hs | hs
    · rcases h s hs howed with hlog | hthread
      · exact Or.inl (List.mem_append_left _ hlog)
      · exact Or.inr hthread
    · cases List.mem_singleton.mp hs
  | act i a =>
    dsimp only at hstep
    split at hstep
    · cases hstep
    · rename_i t ht
      obtain ⟨m, hm, rfl⟩ := Option.map_eq_some_iff.mp hstep
      have hhands := fun hwill => handsOn_act (hnamed i t ht) (hreach t ht) (act_moves hm) howed hwill
      rcases List.mem_append.mp hs with hs | hs
      · refine (h s hs howed).after fun u hu hwill => ?_
        obtain rfl := Option.some.inj (ht.symm.trans hu)
        exact hhands (Or.inl hwill)
      · exact (hhands (Or.inr hs)).after

/-- The client disconnects, and the registry read for the removal is `registry`. -/
def leaveRun (registry : RegistryFile) : List Label :=
  syncRun ++ [.request 1 .disconnect .null [homeServer, homeClient] homeClient.ip, .act 1 (.leave .missing),
    .act 1 (.readRegistry registry)]

/-- The server of the registry. -/
def homeRegistry : RegistryFile := .lines ["10.0.0.2".toList]

/-- Does the event close a session that is owed to the server? -/
def Event.closesOwed : Event → Bool
  | .closed s => decide (homeServer.ip ∈ s.lastPush.keys ∧ homeServer.ip ≠ s.ip)
  | _ => false

/-- Is the event an attempt to remove? -/
def Event.isRemoval : Event → Bool
  | .removed _ _ => true
  | _ => false

theorem exists_closedOwed {log : List Event} (h : log.any Event.closesOwed = true) :
    ∃ s, .closed s ∈ log ∧ Owed s homeServer.ip := by
  obtain ⟨e, he, hc⟩ := List.any_eq_true.mp h
  cases e with
  | closed s =>
    have howed : homeServer.ip ∈ s.lastPush.keys ∧ homeServer.ip ≠ s.ip := of_decide_eq_true hc
    exact ⟨s, he, howed⟩
  | _ => cases hc

/-- Does the step read a registry? -/
def Label.readsRegistry : Label → Bool
  | .act _ (.readRegistry _) => true
  | .act _ (.leave _) => true
  | .reap _ _ _ => true
  | _ => false

theorem names_of_reads_none {serverIp : Text} {w : World} {l : Label} (h : l.readsRegistry = false) :
    RegistryNames serverIp w l := by
  cases l with
  | request => trivial
  | list => trivial
  | reap => cases h
  | act i a =>
    intro t _
    unfold Names
    split
    · cases h
    · cases h
    · trivial

theorem leaveRun_names : coordinator.Along (RegistryNames homeServer.ip) .start (leaveRun homeRegistry) := by
  have hquiet : ∀ l ∈ syncRun, l.readsRegistry = false := by
    simpa using (show (syncRun.all fun l => !l.readsRegistry) = true by decide)
  have hregistry : loadRoleRegistry homeRegistry = .ok [homeServer.ip] := by decide +kernel
  refine coordinator.along_of_forall fun l hl w => ?_
  rcases List.mem_append.mp hl with hl | hl
  · exact names_of_reads_none (hquiet l hl)
  · simp only [List.mem_cons, List.not_mem_nil, or_false] at hl
    rcases hl with rfl | rfl | rfl
    · trivial
    · intro t ht
      clear ht
      unfold Names
      split
      · rename_i h
        cases h
      · rename_i h
        cases h
        exact fun _ _ h => by cases h
      · trivial
    · intro t ht
      clear ht
      unfold Names
      split
      · rename_i h
        cases h
        exact fun _ => ⟨[homeServer.ip], hregistry, fun _ => List.mem_singleton_self _⟩
      · rename_i h
        cases h
      · trivial

end Coordinator
