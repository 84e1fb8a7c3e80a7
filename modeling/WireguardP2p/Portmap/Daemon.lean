import WireguardP2p.Lib.Runs
import WireguardP2p.Portmap.Mapper

/-! `portmap_daemon.py`: the loop that keeps a mapping of the WireGuard port and writes it to a state
    file, which the agent reads with `mapped_candidate_from_state`. Every reading of the clock is a
    parameter and the agent may read between any two steps of the loop. -/

namespace Portmap
open Ipaddress Python Net Candidates PortMapper

/-- What `local_ipv4` finds. -/
abbrev LocalAddress := { a : IpAddress // a.version = 4 ∧ a.isPrivate = true }

/-- `identity` in `main`. -/
structure Identity where
  socket : Socket
  method : String
  endpoint : Text
  deriving DecidableEq

/-- A mapping `PortMapper` recorded in the run. -/
structure Grant where
  socket : Socket
  candidate : Candidate
  expiresAt : ℚ

/-- Where the loop is, with its local variables. -/
inductive Phase
  | idle
  | polled (key : Socket) (candidate : Option Candidate)
  | checked (key : Socket) (candidate : Candidate) (refreshed : Bool)
  | writing (key : Socket) (candidate : Candidate) (refreshed : Bool) (status : Status)
      (statusAt : ℚ)
  | clearing
  | stopped

structure Daemon where
  mapper : PortMapper
  lastWritten : Option Identity
  /-- The content of STATE_FILE. -/
  file : Option Json
  phase : Phase
  clock : ℚ
  /-- The mappings recorded so far. -/
  grants : List Grant

/-- The payload of `write_state`. -/
def payload (candidate : Candidate) (key : Socket) (status : Status) (updatedAt expiresAt : ℚ) : Json :=
  .obj [("version".toList, .int 1), ("updated_at".toList, .int (updatedAt.num.tdiv updatedAt.den)),
    ("internal_ip".toList, .str key.ip), ("internal_port".toList, .int key.port),
    ("method".toList, .str status.method.toList), ("expires_at".toList, .float (.fin expiresAt)),
    ("candidate".toList, candidate.toJson)]

inductive Label
  /-- `local_ipv4`, `listen_port` and `current_candidate`. -/
  | poll (lan : Option LocalAddress) (port : ℕ) (now : ℚ)
  /-- `should_refresh` at the first reading of the clock, `refresh` at the second. -/
  | refresh (checkedAt now : ℚ) (answers : Answers)
  | status (now : ℚ)
  /-- `write_state`, if it is called; it may raise. -/
  | write (updatedAt now : ℚ) (ok : Bool)
  /-- `clear_state`, if it is called; it may do nothing. -/
  | clear (ok : Bool)
  /-- STOP is set. -/
  | stop (ok : Bool)
  /-- Somebody else removes the file. -/
  | vanish

namespace Daemon

/-- `main` before its loop. -/
def start (clock : ℚ) : Daemon := ⟨.new, none, none, .idle, clock, []⟩

/-- The grant of a successful `refresh`. -/
def granted (key : Socket) (m : PortMapper) : Option Candidate → List Grant
  | some c => [⟨key, c, m.expiresAt⟩]
  | none => []

/-- `local_ipv4`, `listen_port` and `current_candidate`. -/
def poll (d : Daemon) (lan : Option LocalAddress) (port : ℕ) (now : ℚ) : Option Daemon :=
  match d.phase with
  | .idle =>
    if now < d.clock then none
    else match lan with
      | none => some { d with phase := .clearing, clock := now }
      | some lan =>
        if port = 0 then some { d with phase := .clearing, clock := now }
        else
          let key : Socket := ⟨lan.1.compressed, port⟩
          some { d with phase := .polled key (d.mapper.currentCandidate key now), clock := now }
  | _ => none

/-- Go on with the candidate there is. -/
def check (key : Socket) (refreshed : Bool) : Option Candidate → Phase
  | some c => .checked key c refreshed
  | none => .clearing

/-- `should_refresh` and `refresh`. -/
def refresh (d : Daemon) (checkedAt now : ℚ) (answers : Answers) : Option Daemon :=
  match d.phase with
  | .polled key candidate =>
    if checkedAt < d.clock ∨ now < checkedAt then none
    else if d.mapper.shouldRefresh key checkedAt then
      let (mapper, refreshed) := d.mapper.refresh key.port key.ip answers now
      match refreshed with
      | some c => some { d with mapper, phase := .checked key c true, clock := now,
                                grants := ⟨key, c, mapper.expiresAt⟩ :: d.grants }
      | none => some { d with mapper, phase := check key false candidate, clock := now }
    else some { d with phase := check key false candidate, clock := checkedAt }
  | _ => none

def status (d : Daemon) (now : ℚ) : Option Daemon :=
  match d.phase with
  | .checked key candidate refreshed =>
    if now < d.clock then none
    else some { d with phase := .writing key candidate refreshed (d.mapper.status now) now, clock := now }
  | _ => none

/-- The condition under which `main` calls `write_state`. -/
def due (d : Daemon) (identity : Identity) (refreshed : Bool) : Bool :=
  refreshed || decide (d.lastWritten ≠ some identity) || d.file.isNone

/-- `write_state`, if it is called. -/
def write (d : Daemon) (updatedAt now : ℚ) (ok : Bool) : Option Daemon :=
  match d.phase with
  | .writing key candidate refreshed status _ =>
    if updatedAt < d.clock ∨ now < updatedAt then none
    else
      let identity : Identity := ⟨key, status.method, candidate.endpoint⟩
      if d.due identity refreshed then
        if ok then
          some { d with
            file := some (payload candidate key status updatedAt (now + status.expiresIn))
            lastWritten := some identity, phase := .idle, clock := now }
        else some { d with phase := .stopped, clock := now }
      else some { d with phase := .idle }
  | _ => none

/-- `clear_state`; where there is no file it does nothing. -/
def clear (d : Daemon) (ok : Bool) : Option Daemon :=
  match d.phase with
  | .clearing => some { d with file := if ok then none else d.file, lastWritten := none, phase := .idle }
  | _ => none

def stop (d : Daemon) (ok : Bool) : Option Daemon :=
  match d.phase with
  | .idle => some { d with file := if ok then none else d.file, phase := .stopped }
  | _ => none

def step (d : Daemon) : Label → Option Daemon
  | .poll lan port now => d.poll lan port now
  | .refresh checkedAt now answers => d.refresh checkedAt now answers
  | .status now => d.status now
  | .write updatedAt now ok => d.write updatedAt now ok
  | .clear ok => d.clear ok
  | .stop ok => d.stop ok
  | .vanish => some { d with file := none }

/-- The daemon. -/
def machine : Runs.Machine Daemon Label := ⟨step⟩

end Daemon

/-! ### The invariant -/

/-- The time from a `status` to the `write_state` that uses it, if it is called. -/
def elapsed (d : Daemon) : Label → Option ℚ
  | .write _ now _ =>
    match d.phase with
    | .writing key candidate refreshed status statusAt =>
      if d.due ⟨key, status.method, candidate.endpoint⟩ refreshed then some (now - statusAt) else none
    | _ => none
  | _ => none

/-- `write_state` reads the clock less than 15 s after the `status` it uses. -/
def Prompt (d : Daemon) (l : Label) : Prop := ∀ t ∈ elapsed d l, t < 15

instance decidablePrompt (d : Daemon) (l : Label) : Decidable (Prompt d l) :=
  inferInstanceAs (Decidable (∀ t ∈ elapsed d l, t < 15))

/-- The loop works with the candidate of the mapper. -/
def Phase.Held (m : PortMapper) (clock : ℚ) : Phase → Prop
  | .polled key candidate => (∃ a : LocalAddress, key.ip = a.1.compressed) ∧
    ∀ c ∈ candidate, m.internal = some key ∧ m.candidate = some c
  | .checked key c _ => m.internal = some key ∧ m.candidate = some c
  | .writing key c _ status statusAt =>
    m.internal = some key ∧ m.candidate = some c ∧ status = m.status statusAt ∧ statusAt ≤ clock
  | _ => True

/-- What the file says: its expiry has passed, or is less than 15 s after that of a grant. -/
def Filed (grants : List Grant) (clock : ℚ) (content : Json) : Prop :=
  ∃ g ∈ grants, ∃ status updatedAt expiresAt,
    content = payload g.candidate g.socket status updatedAt expiresAt ∧
    (expiresAt ≤ clock ∨ expiresAt < g.expiresAt + 15)

structure Inv (d : Daemon) : Prop where
  /-- The candidate of the mapper was granted for its socket. -/
  mapper : ∀ c ∈ d.mapper.candidate, ∃ g ∈ d.grants, d.mapper.internal = some g.socket ∧
    g.candidate = c ∧ g.expiresAt = d.mapper.expiresAt
  phase : d.phase.Held d.mapper d.clock
  file : ∀ content ∈ d.file, Filed d.grants d.clock content

theorem Filed.mono {grants grants' : List Grant} {clock clock' : ℚ} {content : Json}
    (h : Filed grants clock content) (hg : ∀ g ∈ grants, g ∈ grants') (hc : clock ≤ clock') :
    Filed grants' clock' content := by
  obtain ⟨g, hmem, status, updatedAt, expiresAt, rfl, he⟩ := h
  exact ⟨g, hg g hmem, status, updatedAt, expiresAt, rfl, he.imp (fun h => h.trans hc) id⟩

theorem currentCandidate_eq_some {m : PortMapper} {key : Socket} {now : ℚ} {c : Candidate}
    (h : m.currentCandidate key now = some c) : m.internal = some key ∧ m.candidate = some c := by
  rw [currentCandidate] at h
  split_ifs at h with hno
  push Not at hno
  exact ⟨hno.1, h⟩

/-- What `refresh` does to the mapper and what it returns. -/
theorem refresh_cases (m : PortMapper) (key : Socket) (a : LocalAddress) (hkey : key.ip = a.1.compressed)
    (answers : Answers) (now : ℚ) :
    m.refresh key.port key.ip answers now = (m, none) ∨
    m.refresh key.port key.ip answers now = (m.recordFailure key now, none) ∨
    ∃ method g m', recordSuccess key method g now = .ok m' ∧
      m.refresh key.port key.ip answers now = (m', m'.candidate) := by
  have hsocket : (⟨a.1.compressed, key.port⟩ : Socket) = key := by rw [← hkey]
  rw [refresh]
  by_cases hport : ¬ (1 ≤ key.port ∧ key.port ≤ 65535)
  · exact .inl (if_pos hport)
  · rw [if_neg hport, hkey, ipAddress_compressed]
    simp only [a.2.1, a.2.2, ne_eq, not_true_eq_false, Bool.not_true, Bool.false_eq_true, or_self,
      if_false, hsocket]
    by_cases hgateway : answers.gateway = []
    · exact .inr (.inl (if_pos hgateway))
    · rw [if_neg hgateway]
      cases hattempt : attempt key now
          [("pcp", answers.pcp), ("natpmp", answers.natpmp), ("upnp", answers.upnp)] with
      | none => exact .inr (.inl rfl)
      | some m' =>
        obtain ⟨method, g, hok⟩ := attempt_eq_some hattempt
        exact .inr (.inr ⟨method, g, m', hok, rfl⟩)

/-- After a failed attempt a candidate that is left is the one of this socket. -/
theorem recordFailure_candidate {m : PortMapper} {key : Socket} {now : ℚ} {c : Candidate}
    (h : (m.recordFailure key now).candidate = some c) :
    m.internal = some key ∧ m.candidate = some c ∧ (m.recordFailure key now).expiresAt = m.expiresAt := by
  rw [recordFailure] at h ⊢
  by_cases hkey : m.internal ≠ some key
  · rw [if_pos hkey] at h
    cases h
  · rw [if_neg hkey] at h ⊢
    exact ⟨not_not.mp hkey, h, rfl⟩

theorem recordFailure_keeps {m : PortMapper} {key : Socket} {now : ℚ} (h : m.internal = some key) :
    (m.recordFailure key now).candidate = m.candidate := by
  rw [recordFailure, if_neg (not_not.mpr h)]

theorem status_of_candidate {m : PortMapper} {now : ℚ} : (m.status now).expiresIn = 0 ∨
    now + (m.status now).expiresIn ≤ m.expiresAt := by
  rw [status]
  split
  · split_ifs with h
    · right
      have hfloor : (0 : ℤ) ≤ ⌊m.expiresAt - now⌋ := Int.floor_nonneg.mpr (by linarith [h.1])
      have hle := Int.floor_le (m.expiresAt - now)
      rw [max_eq_right hfloor]
      linarith
    · exact .inl rfl
  · exact .inl rfl

/-- The candidate at hand is the one the mapper still has after a failed attempt. -/
theorem check_held {m : PortMapper} {key : Socket} {candidate : Option Candidate} {clock : ℚ}
    (hc : ∀ c ∈ candidate, m.internal = some key ∧ m.candidate = some c) :
    (Daemon.check key false candidate).Held m clock := by
  cases candidate with
  | none => trivial
  | some c => exact hc c rfl

namespace Inv
variable {d d' : Daemon} (h : Inv d)
include h

theorem poll {lan : Option LocalAddress} {port : ℕ} {now : ℚ} (hs : d.poll lan port now = some d') :
    Inv d' := by
  unfold Daemon.poll at hs
  split at hs
  · by_cases hclock : now < d.clock
    · rw [if_pos hclock] at hs
      cases hs
    · rw [if_neg hclock] at hs
      have hfile : ∀ content ∈ d.file, Filed d.grants now content := fun content hc =>
        (h.file content hc).mono (fun _ hg => hg) (not_lt.mp hclock)
      cases lan with
      | none =>
        cases hs
        exact ⟨h.mapper, trivial, hfile⟩
      | some lan =>
        dsimp only at hs
        by_cases hport : port = 0
        · rw [if_pos hport] at hs
          cases hs
          exact ⟨h.mapper, trivial, hfile⟩
        · rw [if_neg hport] at hs
          cases hs
          exact ⟨h.mapper, ⟨⟨lan, rfl⟩, fun c hc => currentCandidate_eq_some hc⟩, hfile⟩
  · cases hs

theorem refresh {checkedAt now : ℚ} {answers : Answers} (hs : d.refresh checkedAt now answers = some d') :
    Inv d' := by
  unfold Daemon.refresh at hs
  split at hs
  · rename_i key candidate hphase
    obtain ⟨⟨a, ha⟩, hcandidate⟩ : (∃ a : LocalAddress, key.ip = a.1.compressed) ∧
        ∀ c ∈ candidate, d.mapper.internal = some key ∧ d.mapper.candidate = some c := by
      have := h.phase
      rwa [hphase] at this
    split_ifs at hs with hclock hdue
    · push Not at hclock
      have hle : d.clock ≤ now := hclock.1.trans hclock.2
      have hfile : ∀ content ∈ d.file, Filed d.grants now content := fun content hc =>
        (h.file content hc).mono (fun _ hg => hg) hle
      rcases refresh_cases d.mapper key a ha answers now with hm | hm | ⟨method, g, m', hok, hm⟩
      · rw [hm] at hs
        cases hs
        exact ⟨h.mapper, check_held hcandidate, hfile⟩
      · rw [hm] at hs
        cases hs
        refine ⟨fun c hc => ?_, check_held fun c hc => ?_, hfile⟩
        · obtain ⟨hinternal, hold, he⟩ := recordFailure_candidate hc
          obtain ⟨g, hg, hsocket, hgc, hge⟩ := h.mapper c hold
          rw [he]
          exact ⟨g, hg, hinternal.symm.trans hsocket, hgc, hge⟩
        · obtain ⟨hinternal, hold⟩ := hcandidate c hc
          exact ⟨rfl, (recordFailure_keeps hinternal).trans hold⟩
      · obtain ⟨-, rfl⟩ := recordSuccess_ok hok
        rw [hm] at hs
        cases hs
        refine ⟨fun c hc => ?_, ⟨rfl, rfl⟩, fun content hc => ?_⟩
        · cases hc
          exact ⟨_, List.mem_cons_self, rfl, rfl, rfl⟩
        · exact (hfile content hc).mono (fun _ hg => List.mem_cons_of_mem _ hg) le_rfl
    · push Not at hclock
      cases hs
      exact ⟨h.mapper, check_held hcandidate, fun content hc =>
        (h.file content hc).mono (fun _ hg => hg) hclock.1⟩
  · cases hs

theorem status {now : ℚ} (hs : d.status now = some d') : Inv d' := by
  unfold Daemon.status at hs
  split at hs
  · rename_i key candidate refreshed hphase
    have hheld : d.mapper.internal = some key ∧ d.mapper.candidate = some candidate := by
      have := h.phase
      rwa [hphase] at this
    split_ifs at hs with hclock
    cases hs
    exact ⟨h.mapper, ⟨hheld.1, hheld.2, rfl, le_rfl⟩, fun content hc =>
      (h.file content hc).mono (fun _ hg => hg) (not_lt.mp hclock)⟩
  · cases hs

/-- What is written is backed by the grant of the mapper. -/
theorem write {updatedAt now : ℚ} {ok : Bool} (hprompt : Prompt d (.write updatedAt now ok))
    (hs : d.write updatedAt now ok = some d') : Inv d' := by
  unfold Daemon.write at hs
  split at hs
  · rename_i key candidate refreshed st statusAt hphase
    obtain ⟨hinternal, hcandidate, hst, hat⟩ : d.mapper.internal = some key ∧
        d.mapper.candidate = some candidate ∧ st = d.mapper.status statusAt ∧ statusAt ≤ d.clock := by
      have := h.phase
      rwa [hphase] at this
    dsimp only at hs
    split_ifs at hs with hclock hdue
    · push Not at hclock
      have hle : d.clock ≤ now := hclock.1.trans hclock.2
      cases hs
      refine ⟨h.mapper, trivial, fun content hc => ?_⟩
      obtain ⟨g, hg, hsocket, hgc, hge⟩ := h.mapper candidate hcandidate
      have hkey : g.socket = key := Option.some.inj (hsocket.symm.trans hinternal)
      have hsoon : now - statusAt < 15 := hprompt _ (by simp [elapsed, hphase, hdue])
      obtain rfl := Option.some.inj hc
      refine ⟨g, hg, st, updatedAt, now + st.expiresIn, by rw [hkey, hgc], ?_⟩
      rcases @status_of_candidate d.mapper statusAt with hzero | hexp
      · left
        rw [hst, hzero]
        simp
      · right
        rw [hst, hge]
        linarith
    · push Not at hclock
      cases hs
      exact ⟨h.mapper, trivial, fun content hc =>
        (h.file content hc).mono (fun _ hg => hg) (hclock.1.trans hclock.2)⟩
    · cases hs
      exact ⟨h.mapper, trivial, h.file⟩
  · cases hs

/-- The file may go, and the loop may be anywhere that holds no candidate. -/
theorem drop {last : Option Identity} {phase : Phase} {ok : Bool} (hphase : phase.Held d.mapper d.clock) :
    Inv { d with file := if ok then none else d.file, lastWritten := last, phase } := by
  refine ⟨h.mapper, hphase, fun content hc => ?_⟩
  cases ok with
  | true => cases hc
  | false => exact h.file content hc

theorem step {l : Label} (hprompt : Prompt d l) (hs : d.step l = some d') : Inv d' := by
  cases l with
  | poll lan port now => exact h.poll hs
  | refresh checkedAt now answers => exact h.refresh hs
  | status now => exact h.status hs
  | write updatedAt now ok => exact h.write hprompt hs
  | clear ok =>
    simp only [Daemon.step, Daemon.clear] at hs
    split at hs
    · cases hs
      exact h.drop trivial
    · cases hs
  | stop ok =>
    simp only [Daemon.step, Daemon.stop] at hs
    split at hs
    · cases hs
      exact h.drop trivial
    · cases hs
  | vanish =>
    cases hs
    exact @drop d h d.lastWritten d.phase true h.phase

end Inv

theorem inv_start (clock : ℚ) : Inv (Daemon.start clock) :=
  ⟨fun _ hc => (by cases hc), trivial, fun _ hc => (by cases hc)⟩

/-! ### What the agent reads -/

theorem payload_fields (c : Candidate) (key : Socket) (st : Status) (updatedAt expiresAt : ℚ) :
    (payload c key st updatedAt expiresAt).get "internal_ip" = .ok (some (.str key.ip)) ∧
    (payload c key st updatedAt expiresAt).get "internal_port" = .ok (some (.int key.port)) ∧
    (payload c key st updatedAt expiresAt).get "expires_at" = .ok (some (.float (.fin expiresAt))) ∧
    (payload c key st updatedAt expiresAt).get "candidate" = .ok (some c.toJson) :=
  ⟨rfl, rfl, rfl, rfl⟩

/-- A candidate read from a payload: it is for this socket, far from over, and the normal form of
    what was written. -/
theorem mappedCandidate_payload {c r : Candidate} {key : Socket} {st : Status} {updatedAt expiresAt now : ℚ}
    {port : ℕ} {lan : IpAddress}
    (h : mappedCandidateFromState port lan now (some (payload c key st updatedAt expiresAt)) = .ok (some r)) :
    key.ip = lan.compressed ∧ key.port = port ∧ now + 15 < expiresAt ∧
      ∃ c', normalizeProbeCandidate c.toJson = .ok (some c') ∧ r = { c' with priority := PRIORITY .mapped4 } := by
  obtain ⟨hip, hport, hexp, hcand⟩ := payload_fields c key st updatedAt expiresAt
  have hread : mappedFromState port lan now (payload c key st updatedAt expiresAt) =
      if key.ip ≠ lan.compressed then .ok none
      else if (key.port : ℤ) ≠ port then .ok none
      else if (PyFloat.fin expiresAt).le (.fin (now + 15)) then .ok none
      else normalizeProbeCandidate c.toJson := by
    simp only [mappedFromState, hip, hport, hexp, hcand]
    rfl
  rw [mappedCandidateFromState, hread] at h
  by_cases hkey : key.ip ≠ lan.compressed
  · rw [if_pos hkey] at h
    cases h
  · rw [if_neg hkey] at h
    by_cases hp : (key.port : ℤ) ≠ port
    · rw [if_pos hp] at h
      cases h
    · rw [if_neg hp] at h
      by_cases he : (PyFloat.fin expiresAt).le (.fin (now + 15)) = true
      · rw [if_pos he] at h
        cases h
      · rw [if_neg he] at h
        have hlater : now + 15 < expiresAt := by simpa [PyFloat.le] using he
        refine ⟨not_not.mp hkey, by exact_mod_cast not_not.mp hp, hlater, ?_⟩
        split at h
        · split at h <;> cases h
        · cases h
        · rename_i c' hc'
          split at h
          · cases h
          · exact ⟨c', hc', (Option.some.inj (Except.ok.inj h)).symm⟩

/-- What is advertised as mapped was granted in the run for this very socket and is not over; and a
    mapping is tried again before it is over. -/
theorem advertised_mapping_live :
    (∀ (clock : ℚ) (ls : List Label) (d : Daemon),
      Daemon.machine.Along Prompt (Daemon.start clock) ls →
      Daemon.machine.run (Daemon.start clock) ls = some d →
      ∀ (port : ℕ) (lan : IpAddress) (now : ℚ) (c : Candidate), d.clock ≤ now →
        mappedCandidateFromState port lan now d.file = .ok (some c) →
        ∃ g ∈ d.grants, g.socket = ⟨lan.compressed, port⟩ ∧ now < g.expiresAt ∧
          ∃ c', normalizeProbeCandidate g.candidate.toJson = .ok (some c') ∧
            c = { c' with priority := PRIORITY .mapped4 }) ∧
    ∀ (key : Socket) (method : String) (g : Mapping) (now : ℚ) (m : PortMapper),
      recordSuccess key method g now = .ok m → m.nextAttempt ≤ m.expiresAt := by
  refine ⟨fun clock ls d hprompt hrun port lan now c hnow hc => ?_, fun _ _ _ _ _ h => nextAttempt_le h⟩
  have hinv : Inv d := Daemon.machine.run_invariant (I := Inv)
    (fun d l d' hp h hs => h.step hp hs) (inv_start clock) hprompt hrun
  cases hfile : d.file with
  | none =>
    rw [hfile] at hc
    cases hc
  | some content =>
    obtain ⟨g, hg, st, updatedAt, expiresAt, rfl, he⟩ := hinv.file content hfile
    rw [hfile] at hc
    obtain ⟨hip, hport, hlater, hnormal⟩ := mappedCandidate_payload hc
    refine ⟨g, hg, ?_, ?_, hnormal⟩
    · cases hs : g.socket with
      | mk ip port =>
        rw [hs] at hip hport
        rw [← hip, ← hport]
    · rcases he with he | he <;> linarith

def homeAddress : LocalAddress := ⟨.v4 3232235786, by decide +kernel⟩

/-- PCP grants a mapping for an hour, and it is written. -/
def mappedRun : List Label :=
  [.poll (some homeAddress) 51820 100,
   .refresh 100 101 ⟨"192.168.1.1".toList, some ⟨"8.8.8.8".toList, 62000, 3600⟩, none, none⟩,
   .status 101, .write 101 101 true]

/-- The agent reads a candidate, and it is the one granted. -/
theorem advertised_mapping_live_mappedRun :
    ∃ d c, Daemon.machine.run (Daemon.start 100) mappedRun = some d ∧
      mappedCandidateFromState 51820 homeAddress.1 102 d.file = .ok (some c) ∧
      ∃ g ∈ d.grants, g.socket = ⟨homeAddress.1.compressed, 51820⟩ ∧ 102 < g.expiresAt := by
  have hread : (Daemon.machine.run (Daemon.start 100) mappedRun).any (fun d =>
      decide (d.clock = 101) &&
        ((mappedCandidateFromState 51820 homeAddress.1 102 d.file).toOption.bind id).isSome) = true := by
    decide +kernel
  obtain ⟨d, hrun, hd⟩ := (Option.any_eq_true _ _).mp hread
  rw [Bool.and_eq_true, decide_eq_true_eq] at hd
  have hprompt : Daemon.machine.Along Prompt (Daemon.start 100) mappedRun := by decide +kernel
  cases hc : mappedCandidateFromState 51820 homeAddress.1 102 d.file with
  | error e =>
    rw [hc] at hd
    cases hd.2
  | ok found =>
    cases found with
    | none =>
      rw [hc] at hd
      cases hd.2
    | some c =>
      have hclock : d.clock ≤ 102 := by
        rw [hd.1]
        norm_num
      obtain ⟨g, hg, hsocket, hlater, -⟩ :=
        advertised_mapping_live.1 100 mappedRun d hprompt hrun 51820 homeAddress.1 102 c hclock hc
      exact ⟨d, c, hrun, hc, g, hg, hsocket, hlater⟩

end Portmap
