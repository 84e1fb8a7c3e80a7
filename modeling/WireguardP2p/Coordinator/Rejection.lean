import WireguardP2p.Coordinator.Request

/-! When a request answered 400 leaves the shared tables alone. `do_POST` records the address of an
    announcement before it validates the candidates, and `coordinate_client` opens a session before it
    reads the registry to close the one it replaces; both orders show when the later step raises. -/

namespace Coordinator
open Ipaddress Python Net Candidates

/-! ### The errors of a conversion -/

section Failures
variable {α β ε : Type}

/-- Every error of the conversion is one of `P`. -/
def Fails (P : ε → Prop) (x : Except ε α) : Prop := ∀ e, x = .error e → P e

variable {P : ε → Prop}

theorem Fails.ok (a : α) : Fails P (.ok a : Except ε α) := fun _ h => by cases h

theorem Fails.error {e : ε} (h : P e) : Fails P (.error e : Except ε α) := fun e' he => by
  cases he
  exact h

theorem Fails.bind {x : Except ε α} {f : α → Except ε β} (hx : Fails P x) (hf : ∀ a, Fails P (f a)) :
    Fails P (x >>= f) := by
  intro e he
  cases x with
  | error e' => exact hx e (by cases he; rfl)
  | ok a => exact hf a e he

theorem Fails.mapM {f : α → Except ε β} (hf : ∀ a, Fails P (f a)) : ∀ l : List α, Fails P (l.mapM f)
  | [] => fun e he => by cases he
  | a :: l => by
      rw [List.mapM_cons]
      exact (hf a).bind fun b => (Fails.mapM hf l).bind fun bs => Fails.ok _

end Failures

/-- No `KeyError`. -/
def NotKey (e : Raised) : Prop := ∀ k, e ≠ .keyError k

theorem toInt_fails (v : Json) : Fails NotKey (toInt v) := by
  intro e he k hk
  subst hk
  unfold toInt at he
  split at he <;> try cases he
  split at he <;> cases he

theorem toIpAddress_fails (v : Json) : Fails NotKey (toIpAddress v) := by
  have hnumber : ∀ n, Fails NotKey (toIpAddress.ofNumber n) := by
    intro n e he k hk
    subst hk
    unfold toIpAddress.ofNumber at he
    split_ifs at he
    cases he
  unfold toIpAddress
  split
  · split
    · exact Fails.ok _
    · exact Fails.error fun k h => by cases h
  · exact hnumber _
  · exact hnumber _
  · exact Fails.error fun k h => by cases h

theorem splitHostPort_fails (v : Json) : Fails NotKey (splitHostPort v) := by
  have hvalue : ∀ m, NotKey (.valueError m) := fun m k h => by cases h
  unfold splitHostPort
  split
  · rename_i value
    have hbrackets : Fails NotKey (splitBrackets value) := by
      unfold splitBrackets
      dsimp only
      split_ifs
      · exact Fails.error (hvalue _)
      · exact Fails.ok _
    dsimp only
    split_ifs
    · exact hbrackets
    · exact Fails.error (hvalue _)
    · exact Fails.ok _
    · exact Fails.error (hvalue _)
  · exact Fails.error (hvalue _)

theorem checkEndpoint_fails (address : IpAddress) (port : ℤ) : Fails NotKey (checkEndpoint address port) := by
  unfold checkEndpoint
  split_ifs
  · exact Fails.ok _
  · exact Fails.error fun k h => by cases h
  · exact Fails.error fun k h => by cases h

theorem readEndpoint_fails (v : Json) : Fails NotKey (readEndpoint v) :=
  (splitHostPort_fails v).bind fun _ => (toIpAddress_fails _).bind fun address =>
    (toInt_fails _).bind fun port => checkEndpoint_fails address port

theorem lookupType_fails (allowed : List CandidateType) (v : Option Json) :
    Fails NotKey (lookupType allowed v) := by
  unfold lookupType
  split
  · exact Fails.ok _
  · exact Fails.error fun k h => by cases h
  · exact Fails.error fun k h => by cases h
  · exact Fails.ok _

theorem validateCandidate_fails (p : Policy) (v : Json) : Fails NotKey (p.validateCandidate v) := by
  have hvalue : ∀ m, NotKey (.valueError m) := fun m k h => by cases h
  unfold Policy.validateCandidate
  split
  · refine (lookupType_fails _ _).bind fun type => ?_
    split
    · refine (readEndpoint_fails _).bind fun e => ?_
      dsimp only
      split
      · exact Fails.error (hvalue _)
      · split_ifs
        · exact Fails.error (hvalue _)
        · refine (toInt_fails _).bind fun priority => ?_
          split_ifs
          · exact Fails.ok _
          · exact Fails.error (hvalue _)
    · exact Fails.error (hvalue _)
  · exact Fails.error (hvalue _)

theorem validateCandidates_fails (p : Policy) (v : Json) : Fails NotKey (p.validateCandidates v) := by
  have hvalue : ∀ m, NotKey (.valueError m) := fun m k h => by cases h
  unfold Policy.validateCandidates
  split
  · exact Fails.ok _
  · split_ifs
    · exact Fails.error (hvalue _)
    · exact (Fails.mapM (validateCandidate_fails p) _).bind fun cs => Fails.ok _
  · exact Fails.error (hvalue _)

theorem announcedCandidates_fails (info : Json) : Fails NotKey (announcedCandidates info) := by
  unfold announcedCandidates bodyCandidates
  refine Fails.bind (Fails.bind ?_ fun v => Fails.ok _) fun v => validateCandidates_fails _ v
  cases info with
  | obj fields => exact Fails.ok _
  | _ => exact Fails.error fun k h => by cases h

/-! ### The errors of a call -/

/-- An error that is not answered 400. -/
def NotBad (e : Raised) : Prop := isBadRequest e = false

theorem learnAddress_raises (serverIp : Text) (info : Json) (now : ℚ) :
    (learnAddress serverIp info now).Raises NotBad := by
  unfold learnAddress
  split
  · exact Raising.Raises.modify _
  · rename_i e _
    split_ifs with h
    · exact Raising.Raises.pure _
    · exact Raising.Raises.raise (Bool.eq_false_iff.mpr h)

theorem learnCandidates_raises (serverIp : Text) (info : Json) (now : ℚ) :
    (learnCandidates serverIp info now).Raises NotBad := by
  unfold learnCandidates
  split
  · exact Raising.Raises.modify _
  · rename_i e he
    split_ifs with h
    · exact Raising.Raises.pure _
    · refine Raising.Raises.raise ?_
      cases e with
      | keyError k => exact absurd rfl (announcedCandidates_fails info _ he k)
      | _ => exact Bool.eq_false_iff.mpr h

theorem recordReplies_raises (clientIp : Text) (now : ℚ) (replies : List (Text × Reply)) :
    (recordReplies clientIp now replies).Raises NotBad := by
  induction replies with
  | nil => exact Raising.Raises.pure _
  | cons entry rest ih =>
    obtain ⟨serverIp, r⟩ := entry
    exact (((Raising.Raises.modify _).bind fun _ => (learnAddress_raises _ _ _).bind fun _ =>
      learnCandidates_raises _ _ _)).bind fun _ => ih

theorem closeCall_raises (c : Call) (sessionId : Text) (results : Dict Text Reply) :
    (closeCall c sessionId results).Raises NotBad := by
  unfold closeCall
  refine Raising.Raises.get.bind fun st => ?_
  split
  · exact Raising.Raises.pure _
  · split_ifs
    · exact Raising.Raises.pure _
    · exact (Raising.Raises.modify _).bind fun _ => recordReplies_raises _ _ _

theorem pushOffers_raises (c : Call) (s : Session) (o : Outside) (jobs : List Job) (results : Dict Text Reply) :
    (pushOffers c s o jobs results).Raises NotBad := by
  induction jobs generalizing results with
  | nil => exact Raising.Raises.pure _
  | cons j jobs ih => exact (Raising.Raises.modify _).bind fun _ => ih _

/-- A removal is pushed to nobody when the registry cannot be read. -/
theorem pushRemove_errors (session : Session) (o : Outside) (st : Store) :
    (pushRemove session o).wp (fun _ _ => ¬ (session.sessionId ≠ [] ∧ o.registry = .undecodable))
      (fun e t => isBadRequest e = true ∧ session.sessionId ≠ [] ∧ o.registry = .undecodable ∧ t = st) st := by
  unfold pushRemove removeTargets
  split_ifs with hid
  · rintro ⟨hne, -⟩
    exact hne hid
  · cases hreg : o.registry with
    | undecodable => exact ⟨rfl, hid, rfl, rfl⟩
    | missing =>
      rintro ⟨-, h⟩
      cases h
    | lines ls =>
      rintro ⟨-, h⟩
      cases h

/-- The call replaces a session it cannot close: the registry of its servers cannot be read. -/
def Stranded (c : Call) (o : Outside) (st : Store) : Prop :=
  ∃ s, st.sessions.get? c.client.ip = some s ∧ isNewSession c (some s) = true ∧ s.sessionId ≠ [] ∧
    o.registry = .undecodable

theorem stale_eq_some_iff {c : Call} {uuid : Fin (2 ^ 128)} {timeNs : ℕ} {st : Store} {s : Session} :
    (openSession c uuid timeNs st).1.stale = some s ↔
      st.sessions.get? c.client.ip = some s ∧ isNewSession c (some s) = true := by
  unfold openSession
  cases hs : st.sessions.get? c.client.ip with
  | none => simp
  | some t =>
    by_cases hnew : isNewSession c (some t) = true
    · simp only [hnew, if_true, Option.some.injEq]
      constructor
      · rintro rfl
        exact ⟨rfl, hnew⟩
      · exact And.left
    · simp only [hnew, Bool.false_eq_true, if_false, Option.some.injEq]
      constructor
      · intro h
        cases h
      · rintro ⟨rfl, h⟩
        exact absurd h hnew

/-- A call is answered 400 exactly when it is stranded, and then leaves the session it opened. -/
theorem coordinateClient_errors (c : Call) (o : Outside) (st : Store) :
    (coordinateClient c o).wp (fun _ _ => ¬ Stranded c o st)
      (fun e t => if isBadRequest e = true then Stranded c o st ∧ t = (openSession c o.uuid o.timeNs st).2
        else ¬ Stranded c o st) st := by
  -- past the removal only errors that are not answered 400 are left
  have hrest : ∀ t, ¬ Stranded c o st →
      ((pushOffers c (openSession c o.uuid o.timeNs st).1.session o
          (c.pending (openSession c o.uuid o.timeNs st).1.session) .empty) >>= fun results =>
        closeCall c (openSession c o.uuid o.timeNs st).1.session.sessionId results >>= fun _ =>
          pure (openSession c o.uuid o.timeNs st).1.session.sessionId : Section Text).wp
        (fun _ _ => ¬ Stranded c o st)
        (fun e t => if isBadRequest e = true then Stranded c o st ∧ t = (openSession c o.uuid o.timeNs st).2
          else ¬ Stranded c o st) t := by
    intro t hnot
    have hraises := (pushOffers_raises c (openSession c o.uuid o.timeNs st).1.session o
      (c.pending (openSession c o.uuid o.timeNs st).1.session) .empty).bind fun results =>
        (closeCall_raises c (openSession c o.uuid o.timeNs st).1.session.sessionId results).bind fun _ =>
          Raising.Raises.pure (σ := Store) (P := NotBad) (openSession c o.uuid o.timeNs st).1.session.sessionId
    refine Raising.wp_mono (hraises t) (fun _ _ _ => hnot) fun e u he => ?_
    rw [if_neg (by rw [show isBadRequest e = false from he]; decide)]
    exact hnot
  unfold coordinateClient
  simp only [Raising.wp_bind, Raising.wp_get, Raising.wp_modify]
  cases hstale : (openSession c o.uuid o.timeNs st).1.stale with
  | none =>
    have hnot : ¬ Stranded c o st := by
      rintro ⟨s, hs, hnew, -, -⟩
      rw [stale_eq_some_iff.mpr ⟨hs, hnew⟩] at hstale
      cases hstale
    simpa only [Raising.wp_bind] using hrest _ hnot
  | some stale =>
    obtain ⟨hs, hnew⟩ := stale_eq_some_iff.mp hstale
    refine (Raising.wp_bind _ _).mpr
      (Raising.wp_mono (pushRemove_errors stale o _) (fun _ t hok => hrest t ?_) fun e t he => ?_)
    · rintro ⟨s, hs', -, hid, hreg⟩
      obtain rfl := Option.some.inj (hs.symm.trans hs')
      exact hok ⟨hid, hreg⟩
    · obtain ⟨hbad, hid, hreg, rfl⟩ := he
      rw [if_pos hbad]
      exact ⟨⟨stale, hs, hnew, hid, hreg⟩, rfl⟩

/-- The session a stranded call leaves is not the one it found. -/
theorem Stranded.changed {c : Call} {o : Outside} {st : Store} (h : Stranded c o st) :
    (openSession c o.uuid o.timeNs st).2.sessions ≠ st.sessions := by
  obtain ⟨s, hs, hnew, -, -⟩ := h
  intro heq
  have hleft : (openSession c o.uuid o.timeNs st).2.sessions.get? c.client.ip =
      some (newSession c o.uuid o.timeNs) := by
    simp [openSession, hs, hnew]
  rw [heq, hs, Option.some.injEq] at hleft
  rw [hleft] at hnew
  simp [isNewSession, newSession] at hnew

/-! ### The announcement -/

/-- What a body announces, if its four parts pass their checks. -/
def announced (data : Json) : Except Raised Announced := do
  let announcement ← validateAnnouncement data
  let instanceId ← announcedInstance data
  let validated ← announcedCandidates data
  .ok ⟨announcement, instanceId, advertise announcement validated⟩

/-- The candidates of a body are refused after its address was recorded. -/
def RefusedLate (source : Text) (data : Json) (now : ℚ) (st : Store) : Prop :=
  ∃ a instanceId e, validateAnnouncement data = .ok a ∧ announcedInstance data = .ok instanceId ∧
    announcedCandidates data = .error e ∧ isBadRequest e = true ∧ st.lan.get? source ≠ some ⟨a, now⟩

/-- Recording what is recorded changes nothing. -/
theorem recordCandidate_eq_iff {source : Text} {a : Announcement} {now : ℚ} {st : Store} :
    recordCandidate source a now st = st ↔ st.lan.get? source = some ⟨a, now⟩ := by
  constructor
  · intro h
    have hget : (recordCandidate source a now st).lan.get? source = some ⟨a, now⟩ := by
      simp [recordCandidate]
    rwa [h] at hget
  · intro h
    have hset : st.lan.set source ⟨a, now⟩ = st.lan := by
      have halter := Dict.alter_get? st.lan source
      rwa [h] at halter
    unfold recordCandidate
    rw [hset]

theorem announced_iff {data : Json} {b : Announced} : announced data = .ok b ↔
    ∃ a instanceId validated, validateAnnouncement data = .ok a ∧ announcedInstance data = .ok instanceId ∧
      announcedCandidates data = .ok validated ∧ ⟨a, instanceId, advertise a validated⟩ = b := by
  unfold announced
  cases validateAnnouncement data with
  | error e => simp [bind, Except.bind]
  | ok a =>
    cases announcedInstance data with
    | error e => simp [bind, Except.bind]
    | ok instanceId =>
      cases announcedCandidates data with
      | error e => simp [bind, Except.bind]
      | ok validated => simp [bind, Except.bind]

/-- How an announcement ends, and what it leaves. -/
theorem announce_spec (source : Text) (data : Json) (addressAt candidatesAt : ℚ) (st : Store) :
    (announce source data addressAt candidatesAt).wp
      (fun a t => announced data = .ok a ∧ t.sessions = st.sessions)
      (fun e t => (∀ a, announced data ≠ .ok a) ∧
        if isBadRequest e = true then t ≠ st ↔ RefusedLate source data addressAt st
        else ¬ RefusedLate source data addressAt st) st := by
  have hprogram : announce source data addressAt candidatesAt =
      announceAddress source data addressAt >>= fun p =>
        announceCandidates source data p.1 candidatesAt >>= fun advertised => pure ⟨p.1, p.2, advertised⟩ := rfl
  rw [hprogram]
  unfold announceAddress announceCandidates
  -- a part that fails before the address is recorded leaves the tables alone
  have hearly : ∀ e : Raised, (∀ a, announced data ≠ .ok a) → ¬ RefusedLate source data addressAt st →
      (∀ a, announced data ≠ .ok a) ∧ if isBadRequest e = true then st ≠ st ↔ RefusedLate source data addressAt st
        else ¬ RefusedLate source data addressAt st := by
    intro e hfail hlate
    refine ⟨hfail, ?_⟩
    split_ifs
    · exact ⟨fun h => absurd rfl h, fun h => absurd h hlate⟩
    · exact hlate
  cases hv : validateAnnouncement data with
  | error e =>
    refine hearly e (fun b hb => ?_) ?_
    · obtain ⟨a, _, _, ha, -⟩ := announced_iff.mp hb
      rw [hv] at ha
      cases ha
    · rintro ⟨a, _, _, ha, -⟩
      rw [hv] at ha
      cases ha
  | ok a =>
    cases hi : announcedInstance data with
    | error e =>
      refine hearly e (fun b hb => ?_) ?_
      · obtain ⟨_, instanceId, _, -, hid, -⟩ := announced_iff.mp hb
        rw [hi] at hid
        cases hid
      · rintro ⟨_, instanceId, _, -, hid, -⟩
        rw [hi] at hid
        cases hid
    | ok instanceId =>
      cases hc : announcedCandidates data with
      | error e =>
        refine ⟨fun b hb => ?_, ?_⟩
        · obtain ⟨_, _, validated, -, -, hcs, -⟩ := announced_iff.mp hb
          rw [hc] at hcs
          cases hcs
        · split_ifs with hbad
          · refine (not_congr recordCandidate_eq_iff).trans ⟨fun hlan => ?_, ?_⟩
            · exact ⟨a, instanceId, e, hv, hi, hc, hbad, hlan⟩
            · rintro ⟨a', _, _, ha', -, -, -, hlan⟩
              obtain rfl := Except.ok.inj (hv.symm.trans ha')
              exact hlan
          · rintro ⟨_, _, e', -, -, he', hbad', -⟩
            obtain rfl := Except.error.inj (hc.symm.trans he')
            exact hbad hbad'
      | ok validated =>
        exact ⟨announced_iff.mpr ⟨a, instanceId, validated, hv, hi, hc, rfl⟩, rfl⟩

/-- The announcement is refused late, or the call it makes is stranded. -/
def Slips (source : ListedPeer) (peers : List ListedPeer) (data : Json) (o : Outside) (st : Store) : Prop :=
  RefusedLate source.ip data o.addressAt st ∨ ∃ a, announced data = .ok a ∧ coordinates source.role = true ∧
    Stranded (announcedCall source peers a o.now) o st

theorem postAnnouncement_spec (path : Path) (data : Json) (source : ListedPeer) (peers : List ListedPeer)
    (o : Outside) (st : Store) :
    (postAnnouncement path data source peers o).wp
      (fun answer _ => answer ≠ .badRequest ∧ ¬ Slips source peers data o st)
      (fun e t => if isBadRequest e = true then t ≠ st ↔ Slips source peers data o st
        else ¬ Slips source peers data o st) st := by
  unfold postAnnouncement
  rw [Raising.wp_bind]
  refine Raising.wp_mono (announce_spec source.ip data o.addressAt o.candidatesAt st) (fun a t ha => ?_)
    fun e t he => ?_
  · obtain ⟨hok, hsessions⟩ := ha
    have hlate : ¬ RefusedLate source.ip data o.addressAt st := by
      rintro ⟨_, _, e, -, -, he, -, -⟩
      obtain ⟨_, _, _, -, -, hcs, -⟩ := announced_iff.mp hok
      rw [he] at hcs
      cases hcs
    have hslips : Slips source peers data o st ↔ coordinates source.role = true ∧
        Stranded (announcedCall source peers a o.now) o t := by
      constructor
      · rintro (h | ⟨b, hb, hrole, s, hs, h⟩)
        · exact absurd h hlate
        · obtain rfl := Except.ok.inj (hok.symm.trans hb)
          exact ⟨hrole, s, hsessions ▸ hs, h⟩
      · rintro ⟨hrole, s, hs, h⟩
        exact Or.inr ⟨a, hok, hrole, s, hsessions ▸ hs, h⟩
    by_cases hrole : coordinates source.role = true
    · simp only [hrole, if_true, Raising.wp_bind]
      refine Raising.wp_mono (coordinateClient_errors (announcedCall source peers a o.now) o t)
        (fun sessionId u hnot => ?_) fun e u he => ?_
      · have hslip : ¬ Slips source peers data o st := fun h => hnot (hslips.mp h).2
        simp only [Raising.wp_ite, Raising.wp_bind, Raising.wp_get, Raising.wp_modify, Raising.wp_pure]
        exact ⟨fun _ => ⟨(fun h => by cases h), hslip⟩, fun _ => ⟨(fun h => by cases h), hslip⟩⟩
      · split_ifs at he ⊢
        · obtain ⟨hstranded, rfl⟩ := he
          refine ⟨fun _ => hslips.mpr ⟨hrole, hstranded⟩, fun _ heq => hstranded.changed ?_⟩
          rw [heq, hsessions]
        · exact fun h => he (hslips.mp h).2
    · have hslip : ¬ Slips source peers data o st := fun h => hrole (hslips.mp h).1
      simp only [hrole, Bool.false_eq_true, if_false, Raising.wp_ite, Raising.wp_bind, Raising.wp_get,
        Raising.wp_modify, Raising.wp_pure]
      exact ⟨fun _ => ⟨(fun h => by cases h), hslip⟩, fun _ => ⟨(fun h => by cases h), hslip⟩⟩
  · obtain ⟨hfail, hbad⟩ := he
    have hslips : Slips source peers data o st ↔ RefusedLate source.ip data o.addressAt st := by
      constructor
      · rintro (h | ⟨a, ha, -⟩)
        · exact h
        · exact absurd ha (hfail a)
      · exact Or.inl
    rw [hslips]
    exact hbad

/-- An announcement of a known peer. -/
theorem doPost_found {path : Path} (hpath : path ≠ .disconnect) (data : Json) {peers : List ListedPeer}
    {sourceIp : Text} {source : ListedPeer} (hsource : findSourcePeer sourceIp peers = some source) (o : Outside)
    (st : Store) :
    ((doPost path (.ok data) (.ok peers) sourceIp o st).1 = .badRequest →
        (doPost path (.ok data) (.ok peers) sourceIp o st).2 = st) ↔ ¬ Slips source peers data o st := by
  have hpost : post path (.ok data) (.ok peers) sourceIp o = postAnnouncement path data source peers o := by
    unfold post
    simp only [Raising.ofExcept_ok_bind, hsource, if_neg hpath]
  rw [doPost, hpost]
  have hspec := postAnnouncement_spec path data source peers o st
  unfold Raising.wp at hspec
  unfold Raising.run
  generalize hresult : postAnnouncement path data source peers o st = result at hspec ⊢
  obtain ⟨e | answer, t⟩ := result
  · dsimp only at hspec ⊢
    split_ifs at hspec ⊢ with hbad
    · rw [← hspec, not_not]
      exact ⟨fun h => h rfl, fun h _ => h⟩
    · exact ⟨fun _ => hspec, fun _ h => by cases h⟩
  · exact ⟨fun _ => hspec.2, fun _ h => absurd h hspec.1⟩

/-- A body with a LAN address and a candidate list that is none. -/
def lateBody : Json :=
  .obj [("lan_ip".toList, .str "192.168.1.2".toList), ("listen_port".toList, .int 51820),
    ("candidates".toList, .int 5)]

/-- A relay, which is not coordinated. -/
def relayPeer : ListedPeer where
  key := "relay".toList
  ip := "10.0.0.9".toList
  endpoint := []
  instanceId := []
  role := .relayOnly
  latestHandshake := 0

/-- Nothing answers, and no registry is there. -/
def quietOutside : Outside where
  addressAt := 1000
  candidatesAt := 1000
  now := 1000
  uuid := 0
  timeNs := 1000
  registry := .missing
  removal := fun _ => (.refused, 1000)
  offer := fun _ => (.refused, 1000)
  offeredAt := fun _ => 1000
  publishedAt := 1000

theorem lateBody_refusedLate : RefusedLate relayPeer.ip lateBody 1000 emptyStore := by
  have haddress : (validateAnnouncement lateBody).toBool = true := by decide +kernel
  have hinstance : announcedInstance lateBody = .ok [] := rfl
  obtain ⟨a, ha⟩ := exists_ok _ haddress
  exact ⟨a, [], .valueError "invalid candidates", ha, hinstance, rfl, rfl, by simp [emptyStore]⟩

end Coordinator
