import WireguardP2p.Python.UuidText
import WireguardP2p.Coordinator.Removals

/-! The sessions the coordinator opens. An id stands for one session: one start, one client. Everything the
    coordinator says of a session it takes from the table or from a call under COORDINATE_LOCK, so a session
    that is closed while the lock is free is never offered again. -/

namespace Coordinator
open Ipaddress Python Net Candidates

/-- What a session is told apart by. -/
structure Ident where
  sessionId : Text
  sessionStartedNs : ℕ
  key : Text
  ip : Text

def Session.ident (s : Session) : Ident := ⟨s.sessionId, s.sessionStartedNs, s.key, s.ip⟩

/-- The offer is of the session. -/
structure OfferBody.IsOf (body : OfferBody) (i : Ident) : Prop where
  sessionId : body.sessionId = i.sessionId
  started : body.sessionStartedNs = i.sessionStartedNs
  key : body.peerKey = i.key
  ip : body.peerIp = i.ip

/-- A session of the table, under its address. -/
structure Opened.Tabled (A : Ident → Prop) (ip : Text) (s : Session) : Prop where
  ip : s.ip = ip
  id : s.sessionId ≠ []
  started : s.sessionStartedNs ≠ 0
  ident : A s.ident

/-- The session a call goes on with is that of its client. -/
structure Session.OfCall (A : Ident → Prop) (c : Call) (s : Session) : Prop where
  key : s.key = c.client.key
  ip : s.ip = c.client.ip
  ident : A s.ident

/-- The tables name sessions of `A` only. -/
abbrev Tables (A : Ident → Prop) : Store → Prop := SessionsAre (Opened.Tabled A)

/-- A thread offers sessions of `A` only, and takes back sessions of `B` only. -/
structure Thread.Knows (A B : Ident → Prop) (t : Thread) : Prop where
  todo : ∀ s ∈ t.todo, B s.ident
  current : ∀ s targets, t.current = some (s, targets) → B s.ident
  offers : ∀ r c s queued sent results, t = .offering r c s queued sent results → s.OfCall A c
  rest : ∀ r c s todo current, t = .removing todo current (.offers r c s) → s.OfCall A c

/-- What is offered or closed is of `A`, what is taken back of `B`. -/
def Event.Speaks (A B : Ident → Prop) : Event → Prop
  | .offered _ _ body => ∃ i, A i ∧ body.IsOf i
  | .closed s => A s.ident
  | .removed s _ => B s.ident
  | .published _ => True

section Idents
variable {A B : Ident → Prop} {locked : Bool} {st : Store}

/-! ### Sections and threads -/

/-- A thread with no session at hand. -/
def Thread.IsIdle : Thread → Prop
  | .removing .. => False
  | .offering .. => False
  | _ => True

theorem Thread.IsIdle.knows {t : Thread} (h : t.IsIdle) : t.Knows A B := by
  cases t with
  | removing todo current rest => exact h.elim
  | offering r c s queued sent results => exact h.elim
  | _ =>
    refine ⟨fun s hs => ?_, fun s targets hs => ?_, fun _ _ _ _ _ _ heq => ?_, fun _ _ _ _ _ heq => ?_⟩
    · cases hs
    · cases hs
    · cases heq
    · cases heq

theorem knows_offering {r : Request} {c : Call} {s : Session} {queued : List Job}
    {sent : List (Job × Except Raised OfferBody)} {results : Dict Text Reply} (h : s.OfCall A c) :
    (Thread.offering r c s queued sent results).Knows A B where
  todo := fun s hs => by cases hs
  current := fun s targets hs => by cases hs
  offers := fun r c s queued sent results heq => by
    cases heq
    exact h
  rest := fun r c s todo current heq => by cases heq

theorem Thread.Knows.ofCall {r : Request} {c : Call} {s : Session} {queued : List Job}
    {sent : List (Job × Except Raised OfferBody)} {results : Dict Text Reply}
    (h : (Thread.offering r c s queued sent results).Knows A B) : s.OfCall A c := h.offers _ _ _ _ _ _ rfl

theorem knows_removing {todo : List Session} {current : Option (Session × List Text)} {rest : Rest}
    (htodo : ∀ s ∈ todo, B s.ident) (hcurrent : ∀ s targets, current = some (s, targets) → B s.ident)
    (hrest : ∀ r c s, rest = .offers r c s → s.OfCall A c) : (Thread.removing todo current rest).Knows A B where
  todo := htodo
  current := hcurrent
  offers := fun r c s queued sent results heq => by cases heq
  rest := fun r c s todo current heq => by
    cases heq
    exact hrest r c s rfl

theorem Thread.Knows.restCall {todo : List Session} {current : Option (Session × List Text)} {rest : Rest}
    (h : (Thread.removing todo current rest).Knows A B) : ∀ r c s, rest = .offers r c s → s.OfCall A c := by
  rintro r c s rfl
  exact h.rest r c s todo current rfl

/-! ### What a step says -/

/-- Sections leave sessions of `A`, whatever the thread does then. -/
abbrev KeepsIdents (A B : Ident → Prop) (locked : Bool) (st : Store) (m : Moved) : Prop :=
  Keeps (Tables A) (fun _ => Thread.Knows A B) (Event.Speaks A B) locked st m

theorem keepsIdents {m : Moved} (hstore : Tables A m.store) (hthread : ∀ t, m.thread = some t → t.Knows A B)
    (hevents : ∀ e ∈ m.events, e.Speaks A B) : KeepsIdents A B locked st m :=
  ⟨hstore, hthread, hevents, fun _ h _ => h⟩

theorem idents_moved {α : Type} {p : Section α} {f : α → Thread}
    (h : p.wp (fun _ t => Tables A t) (fun _ t => Tables A t) st) (hf : ∀ a, (f a).IsIdle) :
    KeepsIdents A B locked st (p.moved st f) := by
  rcases moved_spec f h with ⟨a, t, ht, heq⟩ | ⟨e, t, ht, heq⟩
  · rw [heq]
    refine keepsIdents ht (fun u hu => ?_) fun e he => by cases he
    obtain rfl := Option.some.inj hu
    exact (hf a).knows
  · rw [heq]
    exact keepsIdents ht (fun u hu => by cases hu) fun e he => by cases he

/-- The session a call opens or goes on with, and the one it replaces. -/
theorem openSession_idents {c : Call} {uuid : Fin (2 ^ 128)} {timeNs : ℕ+} (hst : Tables A st)
    (hnew : A (newSession c uuid timeNs).ident) :
    Tables A (openSession c uuid timeNs st).2 ∧ (openSession c uuid timeNs st).1.session.OfCall A c ∧
      ∀ s, (openSession c uuid timeNs st).1.stale = some s → A s.ident := by
  have hfresh : Opened.Tabled A c.client.ip (newSession c uuid timeNs) :=
    ⟨rfl, uuidText_ne_nil uuid, timeNs.ne_zero, hnew⟩
  have hsession : Opened.Tabled A c.client.ip (openSession c uuid timeNs st).1.session ∧
      (openSession c uuid timeNs st).1.session.key = c.client.key := by
    unfold openSession
    dsimp only
    split
    · rename_i s hs
      split_ifs with hkind
      · exact ⟨hfresh, rfl⟩
      · have htabled := hst _ s hs
        simp only [hs, isNewSession, Bool.or_eq_true, decide_eq_true_eq, not_or, not_not] at hkind
        refine ⟨⟨htabled.ip, ?_, ?_, ?_⟩, rfl⟩
        · simp [Session.touch, htabled.id]
        · simp [Session.touch, htabled.started]
        · have hsame : (s.touch c uuid timeNs).ident = s.ident := by
            simp [Session.ident, Session.touch, htabled.id, htabled.started, hkind.1]
          exact hsame ▸ htabled.ident
    · exact ⟨hfresh, rfl⟩
  refine ⟨fun ip s hs => ?_, ⟨hsession.2, hsession.1.ip, hsession.1.ident⟩, fun s hs => (hst _ s (stale_mem hs)).ident⟩
  have hset : (st.sessions.set c.client.ip (openSession c uuid timeNs st).1.session).get? ip = some s := hs
  rw [Dict.get?_set] at hset
  split_ifs at hset with hip
  · obtain rfl := Option.some.inj hset
    exact hip ▸ hsession.1
  · exact hst ip s hset

theorem payload_isOf {c : Call} {s : Session} {server : ListedPeer} {now : ℤ} {body : OfferBody}
    (h : c.payload s server now = .ok body) (hs : s.OfCall A c) : body.IsOf s.ident := by
  unfold Call.payload pushOffer at h
  dsimp only at h
  split_ifs at h
  all_goals
    obtain rfl := Except.ok.inj h
    exact ⟨rfl, rfl, hs.key.symm, hs.ip.symm⟩

theorem idents_act (hAB : ∀ i, A i → B i) {t : Thread} {a : Act} {m : Moved} (hst : Tables A st) (ht : t.Knows A B)
    (hm : Moves locked st t a m) (hnew : ∀ r c uuid timeNs, t = .waiting r c → a = .openSession uuid timeNs →
      A (newSession c uuid timeNs).ident) : KeepsIdents A B locked st m := by
  have hnone : ∀ e ∈ ([] : List Event), e.Speaks A B := fun e he => absurd he List.not_mem_nil
  have hquiet : ∀ {u : Thread} {st' : Store}, Tables A st' → u.Knows A B → KeepsIdents A B locked st ⟨st', some u, []⟩ :=
    fun hst' hu => keepsIdents hst' (fun v hv => Option.some.inj hv ▸ hu) hnone
  have hended : ∀ {st' : Store}, Tables A st' → KeepsIdents A B locked st ⟨st', none, []⟩ :=
    fun hst' => keepsIdents hst' (fun v hv => by cases hv) hnone
  cases hm with
  | address r now =>
    exact idents_moved (Raising.wp_mono (sessions_announceAddress _ _ _ st) (fun _ _ h => hst.congr h)
      fun _ _ h => hst.congr h) fun _ => trivial
  | candidates r a instanceId now =>
    exact idents_moved (Raising.wp_mono (sessions_announceCandidates _ _ _ _ st) (fun _ _ h => hst.congr h)
      fun _ _ h => hst.congr h) fun _ => trivial
  | coordinate r a now hrole => exact hquiet hst (Thread.IsIdle.knows trivial)
  | skip r a now hrole => exact hquiet hst (Thread.IsIdle.knows trivial)
  | opened r c uuid timeNs hfree =>
    obtain ⟨hopened, hcall, hstale⟩ := openSession_idents hst (hnew r c uuid timeNs rfl rfl)
    unfold afterOpening
    split
    · rename_i stale heq
      have hclosed := hstale stale heq
      refine keepsIdents hopened (fun u hu => ?_) fun e he => ?_
      · obtain rfl := Option.some.inj hu
        refine knows_removing (fun s hs => ?_) (fun s targets hs => by cases hs) fun r' c' s hrest => ?_
        · exact List.mem_singleton.mp hs ▸ hAB _ hclosed
        · cases hrest
          exact hcall
      · exact List.mem_singleton.mp he ▸ hclosed
    · exact hquiet hopened (knows_offering hcall)
  | unnamed s todo rest registry hid =>
    exact hquiet hst (knows_removing (fun u hu => ht.todo u (List.mem_cons_of_mem s hu)) ht.current ht.restCall)
  | targets s todo rest registry targets hid htargets =>
    refine hquiet hst (knows_removing (fun u hu => ht.todo u (List.mem_cons_of_mem s hu)) (fun u ips hu => ?_) ht.restCall)
    obtain ⟨rfl, -⟩ := Prod.mk.inj (Option.some.inj hu)
    exact ht.todo s List.mem_cons_self
  | unreadable s todo rest registry e hid htargets => exact hended hst
  | remove s todo ip targets rest answer now =>
    have hcurrent := ht.current s (ip :: targets) rfl
    refine keepsIdents (hst.congr (sessions_record ip now answer st)) (fun u hu => ?_) fun e he => ?_
    · obtain rfl := Option.some.inj hu
      refine knows_removing ht.todo (fun v ips hv => ?_) ht.restCall
      obtain ⟨rfl, -⟩ := Prod.mk.inj (Option.some.inj hv)
      exact hcurrent
    · exact List.mem_singleton.mp he ▸ hcurrent
  | removed s todo rest => exact hquiet hst (knows_removing ht.todo (fun u ips hu => by cases hu) ht.restCall)
  | goOn r c s => exact hquiet hst (knows_offering (ht.rest r c s [] none rfl))
  | finish => exact hended hst
  | send r c s j queued sent results now =>
    refine keepsIdents hst (fun u hu => ?_) fun e he => ?_
    · obtain rfl := Option.some.inj hu
      exact knows_offering ht.ofCall
    · obtain ⟨body, hbody, rfl⟩ := List.mem_map.mp he
      have hbuilt : c.payload s j.server now = .ok body := by
        cases hp : c.payload s j.server now with
        | error e =>
          rw [hp] at hbody
          cases hbody
        | ok built =>
          rw [hp] at hbody
          rw [List.mem_singleton.mp hbody]
      exact ⟨s.ident, ht.ofCall.ident, payload_isOf hbuilt ht.ofCall⟩
  | record r c s queued j payload sent results answer now =>
    exact hquiet (hst.congr (sessions_record _ now _ st)) (knows_offering ht.ofCall)
  | close r c s results =>
    refine idents_moved (keeps_closeCall_sessions (fun s hs => ?_) (fun s ip r _ _ hs => ?_) st hst) fun _ => trivial
    · exact ⟨hs.ip, hs.id, hs.started, hs.ident⟩
    · exact ⟨hs.ip, hs.id, hs.started, hs.ident⟩
  | answer r now hpath => exact hended hst
  | publish r now hpath =>
    refine keepsIdents hst (fun u hu => by cases hu) fun e he => ?_
    exact List.mem_singleton.mp he ▸ trivial
  | left ip registry o st' hrun =>
    have hst' := Raising.wp_ok (popSession_spec ip registry st) hrun
    refine keepsIdents (hst.sub fun j s hs => ?_) (fun u hu => ?_) fun e he => ?_
    · rw [hst', Dict.get?_erase] at hs
      split_ifs at hs
      exact hs
    · obtain rfl := Option.some.inj hu
      exact knows_removing (fun s hs => hAB _ (hst ip s (Option.mem_toList.mp hs)).ident) (fun s ips hs => by cases hs)
        fun r c s hrest => by cases hrest
    · obtain ⟨s, hs, rfl⟩ := List.mem_map.mp he
      exact (hst ip s (Option.mem_toList.mp hs)).ident
  | died ip registry e st' hrun =>
    have hst' := (Raising.wp_error (popSession_spec ip registry st) hrun).1
    refine keepsIdents (hst.sub fun j s hs => ?_) (fun u hu => by cases hu) fun e he => ?_
    · rw [hst', Dict.get?_erase] at hs
      split_ifs at hs
      exact hs
    · obtain ⟨s, hs, rfl⟩ := List.mem_map.mp he
      exact (hst ip s (Option.mem_toList.mp hs)).ident

theorem ident_expired {now : ℚ} (hst : Tables A st) {s : Session} (hs : s ∈ expiredSessions now st) : A s.ident := by
  obtain ⟨e, he, rfl⟩ := List.mem_map.mp hs
  exact (hst e.1 e.2 (Dict.get?_of_mem (List.mem_of_mem_filter he))).ident

theorem idents_reap (hAB : ∀ i, A i → B i) (now : ℚ) (registry : RegistryFile) (hst : Tables A st) :
    KeepsIdents A B locked st (reapMoved now registry st) := by
  have hclosed : ∀ e ∈ (expiredSessions now st).map Event.closed, e.Speaks A B := by
    intro e he
    obtain ⟨s, hs, rfl⟩ := List.mem_map.mp he
    exact ident_expired hst hs
  unfold reapMoved
  dsimp only
  split
  · rename_i closed st' hrun
    refine keepsIdents (hst.sub (Raising.wp_ok (reap_spec now registry st) hrun)) (fun t ht => ?_) hclosed
    obtain rfl := Option.some.inj ht
    exact knows_removing (fun s hs => hAB _ (ident_expired hst hs)) (fun s ips hs => by cases hs)
      fun r c s hrest => by cases hrest
  · rename_i e st' hrun
    exact keepsIdents (hst.sub (Raising.wp_error (reap_spec now registry st) hrun).1) (fun t ht => by cases ht) hclosed

theorem idents_start {path : Path} {data : Json} {peers : List ListedPeer} {sourceIp : Text} (hst : Tables A st) :
    KeepsIdents A B locked st ⟨st, startThread path data peers sourceIp, []⟩ := by
  refine keepsIdents hst (fun t ht => ?_) fun e he => absurd he List.not_mem_nil
  unfold startThread at ht
  dsimp only at ht
  split at ht
  · cases ht
  · split_ifs at ht
    all_goals
      cases ht
      exact Thread.IsIdle.knows trivial

/-! ### Runs -/

/-- The coordinator names sessions of `A` only, and takes back sessions of `B` only. -/
abbrev World.Names (A B : Ident → Prop) : World → Prop :=
  World.Fine (Tables A) (fun _ => Thread.Knows A B) (Event.Speaks A B)

/-- A session that a step may open. -/
def Opens (w : World) (l : Label) (i : Ident) : Prop := ∃ thread uuid timeNs r c,
  l = .act thread (.openSession uuid timeNs) ∧ w.threads.get? thread = some (.waiting r c) ∧
    i = (newSession c uuid timeNs).ident

theorem names_step (hAB : ∀ i, A i → B i) {w w' : World} {l : Label} (hstep : coordinator.step w l = some w')
    (hnew : ∀ i, Opens w l i → A i) (h : w.Names A B) : w'.Names A B := by
  unfold coordinator World.step at hstep
  cases l with
  | request i path data peers sourceIp =>
    dsimp only at hstep
    split at hstep <;> cases hstep
    exact h.after (idents_start h.store)
  | reap i now registry =>
    dsimp only at hstep
    split at hstep <;> cases hstep
    exact h.after (idents_reap hAB now registry h.store)
  | list peers now =>
    cases hstep
    refine ⟨h.store.congr rfl, h.threads, fun e he => ?_⟩
    rcases List.mem_append.mp he with he | he
    · exact h.log e he
    · exact List.mem_singleton.mp he ▸ trivial
  | act i a =>
    dsimp only at hstep
    split at hstep
    · cases hstep
    · rename_i t ht
      obtain ⟨m, hm, rfl⟩ := Option.map_eq_some_iff.mp hstep
      refine h.after (idents_act hAB h.store (h.threads i t ht) (act_moves hm) ?_)
      rintro r c uuid timeNs rfl rfl
      exact hnew _ ⟨i, uuid, timeNs, r, c, rfl, ht, rfl⟩

/-- Of a run that goes on naming sessions of `A`, every part does. -/
theorem Thread.Knows.mono {A' B' : Ident → Prop} {t : Thread} (h : t.Knows A B) (hA : ∀ i, A i → A' i)
    (hB : ∀ i, B i → B' i) : t.Knows A' B' where
  todo := fun s hs => hB _ (h.todo s hs)
  current := fun s targets hs => hB _ (h.current s targets hs)
  offers := fun r c s queued sent results ht =>
    have hs := h.offers r c s queued sent results ht
    ⟨hs.key, hs.ip, hA _ hs.ident⟩
  rest := fun r c s todo current ht =>
    have hs := h.rest r c s todo current ht
    ⟨hs.key, hs.ip, hA _ hs.ident⟩

theorem World.Names.mono {A' B' : Ident → Prop} {w : World} (h : w.Names A B) (hA : ∀ i, A i → A' i)
    (hB : ∀ i, B i → B' i) : w.Names A' B' where
  store := fun ip s hs =>
    have htabled := h.store ip s hs
    ⟨htabled.ip, htabled.id, htabled.started, hA _ htabled.ident⟩
  threads := fun i t ht => (h.threads i t ht).mono hA hB
  log := by
    intro e he
    have hspeaks := h.log e he
    cases e with
    | offered c server body =>
      obtain ⟨i, hi, hbody⟩ := hspeaks
      exact ⟨i, hA i hi, hbody⟩
    | published peers => trivial
    | closed s => exact hA _ hspeaks
    | removed s ip => exact hB _ hspeaks

end Idents

/-! ### An id stands for one session -/

/-- The UUID of the step. -/
def Label.uuid : Label → Option (Fin (2 ^ 128))
  | .act _ (.openSession uuid _) => some uuid
  | _ => none

/-- The UUIDs of a run. -/
def uuids (ls : List Label) : List (Fin (2 ^ 128)) := ls.filterMap Label.uuid

/-- The sessions the coordinator ever named are told apart by their ids, and each id is a UUID drawn so far. -/
structure Distinct (used : List (Fin (2 ^ 128))) (A : Ident → Prop) : Prop where
  inj : ∀ i j, A i → A j → i.sessionId = j.sessionId → i = j
  drawn : ∀ i, A i → ∃ u ∈ used, i.sessionId = uuidText u

/-- A new UUID gives a new id. -/
theorem Distinct.open {used : List (Fin (2 ^ 128))} {A : Ident → Prop} (h : Distinct used A) {u : Fin (2 ^ 128)}
    (hu : u ∉ used) {new : Ident} (hnew : new.sessionId = uuidText u) :
    Distinct (u :: used) fun i => A i ∨ i = new := by
  have hold : ∀ i, A i → i.sessionId ≠ new.sessionId := by
    intro i hi heq
    obtain ⟨v, hv, hid⟩ := h.drawn i hi
    rw [hid, hnew] at heq
    exact hu (uuidText_injective heq ▸ hv)
  refine ⟨fun i j hi hj heq => ?_, fun i hi => ?_⟩
  · rcases hi with hi | rfl
    · rcases hj with hj | rfl
      · exact h.inj i j hi hj heq
      · exact absurd heq (hold i hi)
    · rcases hj with hj | rfl
      · exact absurd heq.symm (hold j hj)
      · rfl
  · rcases hi with hi | rfl
    · obtain ⟨v, hv, hid⟩ := h.drawn i hi
      exact ⟨v, List.mem_cons_of_mem u hv, hid⟩
    · exact ⟨u, List.mem_cons_self, hnew⟩

/-- Whatever the coordinator names is one of finitely many sessions with different ids. -/
def Tells (used : List (Fin (2 ^ 128))) (w : World) : Prop := ∃ A, Distinct used A ∧ w.Names A A

theorem tells_step {used : List (Fin (2 ^ 128))} {w w' : World} {l : Label} (hstep : coordinator.step w l = some w')
    (hfresh : ∀ u, l.uuid = some u → u ∉ used) (h : Tells used w) : Tells (l.uuid.toList ++ used) w' := by
  obtain ⟨A, hA, hw⟩ := h
  by_cases hopens : ∃ i, Opens w l i
  · obtain ⟨i, thread, uuid, timeNs, r, c, rfl, hthread, hi⟩ := hopens
    refine ⟨fun j => A j ∨ j = i, hA.open (hfresh uuid rfl) (by rw [hi]; rfl), ?_⟩
    refine names_step (fun _ h => h) hstep ?_ (hw.mono (fun _ => .inl) fun _ => .inl)
    rintro j ⟨_, _, _, _, _, heq, hthread', rfl⟩
    cases heq
    rw [hthread] at hthread'
    cases hthread'
    exact .inr hi.symm
  · refine ⟨A, ⟨hA.inj, fun i hi => ?_⟩, names_step (fun _ h => h) hstep (fun i hi => absurd ⟨i, hi⟩ hopens) hw⟩
    obtain ⟨u, hu, hid⟩ := hA.drawn i hi
    exact ⟨u, List.mem_append_right _ hu, hid⟩

theorem tells_run {ls : List Label} : ∀ {used : List (Fin (2 ^ 128))} {w w' : World},
    coordinator.run w ls = some w' → (uuids ls ++ used).Nodup → Tells used w → ∃ used', Tells used' w' ∧
      ∀ u, u ∈ used' ↔ u ∈ uuids ls ++ used := by
  induction ls with
  | nil =>
    intro used w w' hrun _ h
    obtain rfl := Option.some.inj hrun
    exact ⟨used, h, fun u => Iff.rfl⟩
  | cons l ls ih =>
    intro used w w' hrun hnodup h
    obtain ⟨v, hstep, hrest⟩ := coordinator.run_cons.mp hrun
    have hsplit : uuids (l :: ls) = l.uuid.toList ++ uuids ls := by
      unfold uuids
      rw [List.filterMap_cons]
      cases l.uuid <;> rfl
    rw [hsplit] at hnodup ⊢
    have hperm : List.Perm (uuids ls ++ (l.uuid.toList ++ used)) (l.uuid.toList ++ uuids ls ++ used) := by
      rw [← List.append_assoc]
      exact (List.perm_append_comm).append_right used
    have hstepped := tells_step hstep (fun u hu hmem => ?_) h
    · obtain ⟨used', htells, hmem⟩ := ih hrest (hperm.nodup_iff.mpr hnodup) hstepped
      exact ⟨used', htells, fun u => (hmem u).trans hperm.mem_iff⟩
    · rw [hu] at hnodup
      exact (List.nodup_cons.mp hnodup).1 (List.mem_append_right _ hmem)

theorem tells_start : Tells [] .start :=
  ⟨fun _ => False, ⟨fun _ _ h => h.elim, fun _ h => h.elim⟩, fun ip s hs => by simp [World.start, emptyStore] at hs,
    fun i t ht => by simp [World.start] at ht, fun e he => by simp [World.start] at he⟩

end Coordinator
