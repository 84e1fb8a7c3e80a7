import WireguardP2p.Coordinator.World

/-! What one step of the coordinator can do. `Moves` has a constructor for every step of a thread;
    `World.step_keeps` turns facts about the tables, the single threads and the single events into
    facts about all of them. -/

namespace Coordinator
open Ipaddress Python Net Candidates

/-- The steps of a thread, by what they do. -/
inductive Moves (locked : Bool) (st : Store) : Thread → Act → Moved → Prop
  | address (r : Request) (now : ℚ) : Moves locked st (.received r) (.address now)
      ((announceAddress r.source.ip r.data now).moved st fun p => .addressed r p.1 p.2)
  | candidates (r : Request) (a : Announcement) (instanceId : Text) (now : ℚ) :
      Moves locked st (.addressed r a instanceId) (.candidates now)
        ((announceCandidates r.source.ip r.data a now).moved st fun advertised =>
          .announced r ⟨a, instanceId, advertised⟩)
  | coordinate (r : Request) (a : Announced) (now : ℚ) (hrole : coordinates r.source.role = true) :
      Moves locked st (.announced r a) (.coordinate now)
        ⟨st, some (.waiting r (announcedCall r.source r.peers a now)), []⟩
  | skip (r : Request) (a : Announced) (now : ℚ) (hrole : ¬ coordinates r.source.role = true) :
      Moves locked st (.announced r a) (.coordinate now) ⟨st, some (.publishing r), []⟩
  | opened (r : Request) (c : Call) (uuid : Fin (2 ^ 128)) (timeNs : ℕ+) (hfree : locked = false) :
      Moves locked st (.waiting r c) (.openSession uuid timeNs)
        (afterOpening r c (openSession c uuid timeNs st).1 ⟨(openSession c uuid timeNs st).2, none, []⟩)
  | unnamed (s : Session) (todo : List Session) (rest : Rest) (registry : RegistryFile) (hid : s.sessionId = []) :
      Moves locked st (.removing (s :: todo) none rest) (.readRegistry registry)
        ⟨st, some (.removing todo none rest), []⟩
  | targets (s : Session) (todo : List Session) (rest : Rest) (registry : RegistryFile) (targets : List Text)
      (hid : s.sessionId ≠ []) (htargets : removeTargets s registry = .ok targets) :
      Moves locked st (.removing (s :: todo) none rest) (.readRegistry registry)
        ⟨st, some (.removing todo (some (s, targets)) rest), []⟩
  | unreadable (s : Session) (todo : List Session) (rest : Rest) (registry : RegistryFile) (e : Raised)
      (hid : s.sessionId ≠ []) (htargets : removeTargets s registry = .error e) :
      Moves locked st (.removing (s :: todo) none rest) (.readRegistry registry) ⟨st, none, []⟩
  | remove (s : Session) (todo : List Session) (ip : Text) (targets : List Text) (rest : Rest) (answer : Pushed)
      (now : ℚ) : Moves locked st (.removing todo (some (s, ip :: targets)) rest) (.remove answer now)
        ⟨answer.record ip now st, some (.removing todo (some (s, targets)) rest), [.removed s ip]⟩
  | removed (s : Session) (todo : List Session) (rest : Rest) :
      Moves locked st (.removing todo (some (s, [])) rest) .next ⟨st, some (.removing todo none rest), []⟩
  | goOn (r : Request) (c : Call) (s : Session) : Moves locked st (.removing [] none (.offers r c s)) .next
      ⟨st, some (.offering r c s (c.pending s) [] .empty), []⟩
  | finish : Moves locked st (.removing [] none .nothing) .next ⟨st, none, []⟩
  | send (r : Request) (c : Call) (s : Session) (j : Job) (queued : List Job)
      (sent : List (Job × Except Raised OfferBody)) (results : Dict Text Reply) (now : ℤ) :
      Moves locked st (.offering r c s (j :: queued) sent results) (.send now)
        ⟨st, some (.offering r c s queued (sent ++ [(j, c.payload s j.server now)]) results),
          (c.payload s j.server now).toOption.toList.map fun body => .offered c j.server body⟩
  | record (r : Request) (c : Call) (s : Session) (queued : List Job) (j : Job) (payload : Except Raised OfferBody)
      (sent : List (Job × Except Raised OfferBody)) (results : Dict Text Reply) (answer : Pushed) (now : ℚ) :
      Moves locked st (.offering r c s queued ((j, payload) :: sent) results) (.record answer now)
        ⟨(pushedOffer payload answer).record j.server.ip now st,
          some (.offering r c s queued sent (takeReply j payload answer results)), []⟩
  | close (r : Request) (c : Call) (s : Session) (results : Dict Text Reply) :
      Moves locked st (.offering r c s [] [] results) .close
        ((closeCall c s.sessionId results).moved st fun _ => .publishing r)
  | answer (r : Request) (now : ℚ) (hpath : r.path = .announce) :
      Moves locked st (.publishing r) (.publish now) ⟨st, none, []⟩
  | publish (r : Request) (now : ℚ) (hpath : r.path ≠ .announce) : Moves locked st (.publishing r) (.publish now)
      ⟨(peerPayload r.peers now st).2, none, [.published (peerPayload r.peers now st).1]⟩
  | left (ip : Text) (registry : RegistryFile) (o : Option Session) (st' : Store)
      (hrun : (popSession ip registry).run st = (.ok o, st')) : Moves locked st (.leaving ip) (.leave registry)
        ⟨st', some (.removing (st.sessions.get? ip).toList none .nothing),
          (st.sessions.get? ip).toList.map .closed⟩
  | died (ip : Text) (registry : RegistryFile) (e : Raised) (st' : Store)
      (hrun : (popSession ip registry).run st = (.error e, st')) : Moves locked st (.leaving ip) (.leave registry)
        ⟨st', none, (st.sessions.get? ip).toList.map .closed⟩

theorem act_moves {locked : Bool} {st : Store} {t : Thread} {a : Act} {m : Moved}
    (h : t.act locked st a = some m) : Moves locked st t a m := by
  unfold Thread.act at h
  split at h
  · cases h
    exact .address ..
  · cases h
    exact .candidates ..
  · split_ifs at h with hrole
    · cases h
      exact .coordinate _ _ _ hrole
    · cases h
      exact .skip _ _ _ hrole
  · split_ifs at h with hlock
    cases h
    exact .opened _ _ _ _ (Bool.eq_false_iff.mpr hlock)
  · split_ifs at h with hid
    · cases h
      exact .unnamed _ _ _ _ hid
    · split at h
      · rename_i targets htargets
        cases h
        exact .targets _ _ _ _ _ hid htargets
      · rename_i e htargets
        cases h
        exact .unreadable _ _ _ _ _ hid htargets
  · cases h
    exact .remove ..
  · cases h
    exact .removed ..
  · cases h
    exact .goOn ..
  · cases h
    exact .finish
  · cases h
    exact .send ..
  · cases h
    exact .record ..
  · cases h
    exact .close ..
  · split_ifs at h with hpath
    · cases h
      exact .answer _ _ hpath
    · cases h
      exact .publish _ _ hpath
  · dsimp only at h
    split at h
    · rename_i o st' hrun
      cases h
      exact .left _ _ _ _ hrun
    · rename_i e st' hrun
      cases h
      exact .died _ _ _ _ hrun
  · cases h

/-- What a section leaves. -/
theorem moved_spec {α : Type} {p : Section α} {st : Store} {Q : α → Store → Prop} {E : Raised → Store → Prop}
    (f : α → Thread) (h : p.wp Q E st) :
    (∃ a st', Q a st' ∧ p.moved st f = ⟨st', some (f a), []⟩) ∨
      ∃ e st', E e st' ∧ p.moved st f = ⟨st', none, []⟩ := by
  unfold Section.moved Raising.run
  unfold Raising.wp at h
  generalize p st = result at h ⊢
  obtain ⟨e | a, st'⟩ := result
  · exact Or.inr ⟨e, st', h, rfl⟩
  · exact Or.inl ⟨a, st', h, rfl⟩

/-! ### Invariants by parts -/

section Parts
variable (S : Store → Prop) (T : Store → Thread → Prop) (E : Event → Prop)

/-- The tables, the thread that moved, the events and the other threads are as they should. -/
structure Keeps (locked : Bool) (st : Store) (m : Moved) : Prop where
  store : S m.store
  thread : ∀ t, m.thread = some t → T m.store t
  events : ∀ e ∈ m.events, E e
  /-- No other thread is inside COORDINATE_LOCK when it is free. -/
  others : ∀ t, T st t → (locked = false → t.holds = false) → T m.store t

/-- The tables, all threads and all events are as they should. -/
structure World.Fine (w : World) : Prop where
  store : S w.store
  threads : ∀ i t, w.threads.get? i = some t → T w.store t
  log : ∀ e ∈ w.log, E e

variable {S T E}

theorem World.holds_of_locked {w : World} {i : ℕ} {t : Thread} (ht : w.threads.get? i = some t)
    (h : w.locked = false) : t.holds = false := by
  have hall := List.any_eq_false.mp h (i, t) (Dict.mem_of_get? ht)
  exact Bool.eq_false_iff.mpr hall

theorem World.Fine.after {w : World} (h : w.Fine S T E) {i : ℕ} {m : Moved}
    (hm : Keeps S T E w.locked w.store m) : (w.after i m).Fine S T E where
  store := hm.store
  threads := by
    intro j t ht
    unfold World.after at ht ⊢
    rw [Dict.get?_alter] at ht
    split_ifs at ht with hj
    · exact hm.thread t ht
    · exact hm.others t (h.threads j t ht) (World.holds_of_locked ht)
  log := by
    intro e he
    rcases List.mem_append.mp he with he | he
    · exact h.log e he
    · exact hm.events e he

variable (S T E) in
/-- Every kind of step keeps the parts; `P` is what the labels promise. -/
structure Parts (P : Label → Prop) : Prop where
  act : ∀ {locked st t a m}, S st → T st t → Moves locked st t a m → Keeps S T E locked st m
  start : ∀ {locked st i path data peers sourceIp}, P (.request i path data peers sourceIp) → S st →
    Keeps S T E locked st ⟨st, startThread path data peers sourceIp, []⟩
  reap : ∀ {locked st} now registry, S st → Keeps S T E locked st (reapMoved now registry st)
  list : ∀ {locked st} peers now, S st →
    Keeps S T E locked st ⟨(peerPayload peers now st).2, none, [.published (peerPayload peers now st).1]⟩

theorem Parts.step {P : Label → Prop} (parts : Parts S T E P) {w w' : World} {l : Label} (hl : P l)
    (h : w.Fine S T E) (hstep : coordinator.step w l = some w') : w'.Fine S T E := by
  unfold coordinator World.step at hstep
  cases l with
  | request i path data peers sourceIp =>
    dsimp only at hstep
    split at hstep <;> cases hstep
    exact h.after (parts.start hl h.store)
  | reap i now registry =>
    dsimp only at hstep
    split at hstep <;> cases hstep
    exact h.after (parts.reap now registry h.store)
  | list peers now =>
    cases hstep
    have hkeeps := @list _ _ _ _ parts w.locked _ peers now h.store
    exact
      { store := hkeeps.store
        threads := fun i t ht => hkeeps.others t (h.threads i t ht) (World.holds_of_locked ht)
        log := fun e he => (List.mem_append.mp he).elim (h.log e) (hkeeps.events e) }
  | act i a =>
    dsimp only at hstep
    split at hstep
    · cases hstep
    · rename_i t ht
      obtain ⟨m, hm, rfl⟩ := Option.map_eq_some_iff.mp hstep
      exact h.after (parts.act h.store (h.threads i t ht) (act_moves hm))

/-- Run rule: from the start, the parts are kept. -/
theorem Parts.run {P : Label → Prop} (parts : Parts S T E P) (hstart : S emptyStore) {ls : List Label} {w : World}
    (hok : coordinator.Along (fun _ => P) .start ls) (hrun : coordinator.run .start ls = some w) :
    w.Fine S T E :=
  coordinator.run_invariant (fun _ _ _ hl hw hstep => parts.step hl hw hstep)
    { store := hstart
      threads := fun i t ht => by simp [World.start] at ht
      log := fun e he => by simp [World.start] at he } hok hrun

end Parts

/-! ### The sessions -/

/-- Every session of the table is one of `P`. -/
def SessionsAre (P : Text → Session → Prop) (st : Store) : Prop := ∀ ip s, st.sessions.get? ip = some s → P ip s

theorem uuidText_ne_nil (u : Fin (2 ^ 128)) : uuidText u ≠ [] := by
  unfold uuidText
  simp

section SessionTable
variable {P : Text → Session → Prop}

theorem SessionsAre.congr {st st' : Store} (h : SessionsAre P st) (heq : st'.sessions = st.sessions) :
    SessionsAre P st' := by
  unfold SessionsAre
  rw [heq]
  exact h

theorem SessionsAre.sub {st st' : Store} (h : SessionsAre P st)
    (hsub : ∀ ip s, st'.sessions.get? ip = some s → st.sessions.get? ip = some s) : SessionsAre P st' :=
  fun ip s hs => h ip s (hsub ip s hs)

@[simp] theorem sessions_dropCandidates (ip : Text) (st : Store) : (dropCandidates ip st).sessions = st.sessions := rfl

@[simp] theorem sessions_record (ip : Text) (now : ℚ) (answer : Pushed) (st : Store) :
    (answer.record ip now st).sessions = st.sessions := by
  cases answer <;> rfl

@[simp] theorem sessions_peerPayload (peers : List ListedPeer) (now : ℚ) (st : Store) :
    (peerPayload peers now st).2.sessions = st.sessions := rfl

theorem sessions_announceAddress (source : Text) (data : Json) (now : ℚ) (st : Store) :
    (announceAddress source data now).wp (fun _ t => t.sessions = st.sessions) (fun _ t => t.sessions = st.sessions)
      st := by
  unfold announceAddress
  cases validateAnnouncement data with
  | error e => exact rfl
  | ok a =>
    cases announcedInstance data with
    | error e => exact rfl
    | ok instanceId => exact rfl

theorem sessions_announceCandidates (source : Text) (data : Json) (a : Announcement) (now : ℚ) (st : Store) :
    (announceCandidates source data a now).wp (fun _ t => t.sessions = st.sessions)
      (fun _ t => t.sessions = st.sessions) st := by
  unfold announceCandidates
  cases announcedCandidates data with
  | error e => exact rfl
  | ok validated => exact rfl

theorem sessions_dropServers (registry : RegistryFile) (st : Store) :
    (dropServers registry).wp (fun _ t => t.sessions = st.sessions)
      (fun _ t => t.sessions = st.sessions ∧ st.sessions.entries = [] ∧ registry = .undecodable) st := by
  unfold dropServers
  simp only [Raising.wp_bind, Raising.wp_get, Raising.wp_ite, Raising.wp_pure]
  refine ⟨fun hempty => ?_, fun _ => trivial⟩
  have hfold : ∀ (servers : List Text) (t : Store),
      (servers.foldl (fun st ip => dropCandidates ip st) t).sessions = t.sessions := by
    intro servers
    induction servers with
    | nil => exact fun _ => rfl
    | cons ip ips ih => exact fun t => (ih _).trans (sessions_dropCandidates ip t)
  cases registry with
  | missing => exact hfold _ st
  | undecodable => exact ⟨rfl, hempty, rfl⟩
  | lines ls => exact hfold _ st

/-- `disconnect_client` takes the session out; the registry matters when it was the last one. -/
theorem popSession_spec (ip : Text) (registry : RegistryFile) (st : Store) :
    (popSession ip registry).wp (fun _ t => t.sessions = st.sessions.erase ip)
      (fun _ t => t.sessions = st.sessions.erase ip ∧ (st.sessions.erase ip).entries = [] ∧
        registry = .undecodable) st := by
  unfold popSession
  simp only [Raising.wp_bind, Raising.wp_get, Raising.wp_modify, Raising.wp_pure]
  exact Raising.wp_mono (sessions_dropServers registry _) (fun _ _ h => h) fun _ _ h => h

/-- `session_reaper` takes the expired sessions out; the registry matters when no other is left. -/
theorem reap_spec (now : ℚ) (registry : RegistryFile) (st : Store) :
    (reap now registry).wp
      (fun _ t => ∀ ip s, t.sessions.get? ip = some s → st.sessions.get? ip = some s)
      (fun _ t => (∀ ip s, t.sessions.get? ip = some s → st.sessions.get? ip = some s) ∧
        (∀ e ∈ st.sessions.entries, e.2.expired now = true) ∧ registry = .undecodable) st := by
  unfold reap
  simp only [Raising.wp_bind, Raising.wp_get, Raising.wp_modify, Raising.wp_pure]
  have hfold : ∀ (expired : List (Text × Session)) (t : Store) ip,
      ((expired.foldl (fun st e => dropCandidates e.1 { st with sessions := st.sessions.erase e.1 }) t).sessions).get? ip =
        if ip ∈ expired.map Prod.fst then none else t.sessions.get? ip := by
    intro expired
    induction expired with
    | nil => exact fun t ip => rfl
    | cons e es ih =>
      intro t ip
      rw [List.foldl_cons, ih, List.map_cons]
      by_cases hmem : ip ∈ es.map Prod.fst
      · rw [if_pos hmem, if_pos (List.mem_cons_of_mem _ hmem)]
      · rw [if_neg hmem, sessions_dropCandidates, Dict.get?_erase]
        by_cases he : ip = e.1
        · rw [if_pos he, if_pos (List.mem_cons.mpr (Or.inl he))]
        · rw [if_neg he, if_neg fun h => (List.mem_cons.mp h).elim he hmem]
  have hsub : ∀ ip s, ((st.sessions.entries.filter fun e => e.2.expired now).foldl
      (fun st e => dropCandidates e.1 { st with sessions := st.sessions.erase e.1 }) st).sessions.get? ip = some s →
      st.sessions.get? ip = some s ∧ ¬ s.expired now = true := by
    intro ip s hs
    rw [hfold] at hs
    split_ifs at hs with hmem
    refine ⟨hs, fun hexp => hmem ?_⟩
    exact List.mem_map.mpr ⟨(ip, s), List.mem_filter.mpr ⟨Dict.mem_of_get? hs, hexp⟩, rfl⟩
  refine Raising.wp_mono (sessions_dropServers registry _) (fun _ t ht => ?_) fun _ t ht => ?_
  · rw [ht]
    exact fun ip s hs => (hsub ip s hs).1
  · rw [ht.1]
    refine ⟨fun ip s hs => (hsub ip s hs).1, fun e he => ?_, ht.2.2⟩
    by_contra hexp
    have hleft : ((st.sessions.entries.filter fun e => e.2.expired now).foldl
        (fun st e => dropCandidates e.1 { st with sessions := st.sessions.erase e.1 }) st).sessions.get? e.1 =
        some e.2 := by
      rw [hfold, if_neg, Dict.get?_of_mem he]
      rintro hmem
      obtain ⟨e', he', heq⟩ := List.mem_map.mp hmem
      obtain ⟨hmem', hexp'⟩ := List.mem_filter.mp he'
      have hsame : some e'.2 = some e.2 := by
        rw [← Dict.get?_of_mem hmem', ← Dict.get?_of_mem he, heq]
      rw [Option.some.inj hsame] at hexp'
      exact hexp hexp'
    have hmem := Dict.mem_of_get? hleft
    rw [ht.2.1] at hmem
    cases hmem

/-- The replies are recorded in the session of the client, if that is still the one of the call. -/
theorem keeps_recordReplies_sessions {clientIp : Text} {now : ℚ} : ∀ {replies : List (Text × Reply)},
    (∀ s serverIp r, (serverIp, r) ∈ replies → P clientIp s → P clientIp (s.record serverIp r now)) →
      (recordReplies clientIp now replies).Keeps (SessionsAre P)
  | [], _ => Raising.Keeps.pure _
  | (serverIp, r) :: rest, h => by
    refine Raising.Keeps.bind ?_ fun _ =>
      keeps_recordReplies_sessions fun s ip r hr => h s ip r (List.mem_cons_of_mem _ hr)
    refine (Raising.Keeps.modify fun st hst => ?_).bind fun _ => Raising.Keeps.bind ?_ fun _ => ?_
    · intro ip s hs
      rw [Dict.get?_mapVals] at hs
      obtain ⟨u, hu, rfl⟩ := Option.map_eq_some_iff.mp hs
      split_ifs with hip
      · subst hip
        exact h u serverIp r List.mem_cons_self (hst _ u hu)
      · exact hst ip u hu
    · unfold learnAddress
      split
      · exact Raising.Keeps.modify fun st hst => hst.congr rfl
      · exact Raising.Keeps.ite (fun _ => Raising.Keeps.pure _) fun _ => Raising.Keeps.raise _
    · unfold learnCandidates
      split
      · exact Raising.Keeps.modify fun st hst => hst.congr rfl
      · exact Raising.Keeps.ite (fun _ => Raising.Keeps.pure _) fun _ => Raising.Keeps.raise _

/-- The last section of a call touches the session of the call only. -/
theorem keeps_closeCall_sessions {c : Call} {sessionId : Text} {results : Dict Text Reply}
    (hseen : ∀ s, P c.client.ip s → P c.client.ip { s with lastSeen := c.now })
    (hrecord : ∀ s serverIp r, (serverIp, r) ∈ results.entries → s.sessionId = sessionId → P c.client.ip s →
      P c.client.ip (s.record serverIp r c.now)) :
    (closeCall c sessionId results).Keeps (SessionsAre P) := by
  intro st hst
  unfold closeCall
  simp only [Raising.wp_bind, Raising.wp_get]
  cases hs : st.sessions.get? c.client.ip with
  | none => exact hst
  | some s =>
    dsimp only
    split_ifs with hid
    · exact hst
    · rw [not_not] at hid
      -- through the loop the session keeps the id of the call
      have hloop := @keeps_recordReplies_sessions
        (fun ip s => P ip s ∧ (ip = c.client.ip → s.sessionId = sessionId)) c.client.ip c.now results.entries
        fun s serverIp r hr h => ⟨hrecord s serverIp r hr (h.2 rfl) h.1, fun _ => h.2 rfl⟩
      refine (Raising.wp_bind _ _).mpr ?_
      show Raising.wp (recordReplies c.client.ip c.now results.entries) _ _ _
      refine Raising.wp_mono (hloop _ ?_) (fun _ t ht => ?_) fun _ t ht => ?_
      · intro ip u hu
        simp only [Dict.get?_set] at hu
        split_ifs at hu with hip
        · cases hu
          subst hip
          exact ⟨hseen s (hst _ s hs), fun _ => hid⟩
        · exact ⟨hst ip u hu, fun h => absurd h hip⟩
      · exact fun ip u hu => (ht ip u hu).1
      · exact fun ip u hu => (ht ip u hu).1

end SessionTable

end Coordinator
