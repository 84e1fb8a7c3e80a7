import WireguardP2p.Candidates.Gather

/-! `portmap.py`: the mapping `PortMapper` keeps for a local socket, when it is over and when the next
    attempt is due. What the three protocols answer is a parameter. -/

namespace Portmap
open Ipaddress Python Net Candidates

/-- `FAILURE_RETRY`. -/
def failureRetry : ℚ := 60

/-- What `try_pcp`, `try_natpmp` and `try_upnp` return. -/
structure Mapping where
  externalIp : Text
  externalPort : ℕ
  lifetime : ℤ

/-- The local socket a mapping is for. -/
structure Socket where
  ip : Text
  port : ℕ
  deriving DecidableEq

/-- A `PortMapper`; `internal` is `None` before the first attempt. -/
structure PortMapper where
  candidate : Option Candidate
  internal : Option Socket
  expiresAt : ℚ
  nextAttempt : ℚ
  method : String

namespace PortMapper
variable (m : PortMapper)

/-- `PortMapper()`. -/
def new : PortMapper := ⟨none, none, 0, 0, ""⟩

/-- `current_candidate`. -/
def currentCandidate (key : Socket) (now : ℚ) : Option Candidate :=
  if m.internal ≠ some key ∨ m.candidate = none ∨ m.expiresAt ≤ now then none else m.candidate

/-- `should_refresh`; both branches are the same. -/
def shouldRefresh (_key : Socket) (now : ℚ) : Bool := decide (m.nextAttempt ≤ now)

/-- `refresh_after` of `_record_success`. -/
def refreshAfter (lifetime : ℤ) : ℚ := max 1 (min ((lifetime : ℚ) * 2 / 3) (max 1 ((lifetime : ℚ) - 15)))

/-- The candidate of a mapping. -/
def Mapping.candidate (g : Mapping) : Candidate where
  type := .mapped4
  family := .udp4
  endpoint := g.externalIp ++ ':' :: Numeral.text 10 g.externalPort
  priority := 800
  verified := false

/-- `_record_success`; a lifetime that is over raises. -/
def recordSuccess (key : Socket) (method : String) (g : Mapping) (now : ℚ) : Except Raised PortMapper :=
  if g.lifetime ≤ 0 then .error (.valueError "port mapping returned zero lifetime")
  else .ok
    { candidate := some (Mapping.candidate g), internal := some key, expiresAt := now + g.lifetime,
      nextAttempt := now + refreshAfter g.lifetime, method }

/-- `_record_failure`. -/
def recordFailure (key : Socket) (now : ℚ) : PortMapper :=
  let m := if m.internal ≠ some key then { m with candidate := none, expiresAt := 0 } else m
  { m with internal := some key, nextAttempt := now + failureRetry }

/-- The methods of `refresh` in their order, each with what its call returned, if it did. -/
def attempt (key : Socket) (now : ℚ) : List (String × Option Mapping) → Option PortMapper
  | [] => none
  | (_, none) :: rest => attempt key now rest
  | (method, some g) :: rest =>
    match recordSuccess key method g now with
    | .ok m => some m
    | .error _ => attempt key now rest

/-- How the calls of `refresh` end. -/
structure Answers where
  gateway : Text
  pcp : Option Mapping
  natpmp : Option Mapping
  upnp : Option Mapping

/-- `refresh`. -/
def refresh (internalPort : ℕ) (localIp : Text) (answers : Answers) (now : ℚ) :
    PortMapper × Option Candidate :=
  if ¬ (1 ≤ internalPort ∧ internalPort ≤ 65535) then (m, none)
  else match ipAddress localIp with
    | none => (m, none)
    | some address =>
      if address.version ≠ 4 ∨ !address.isPrivate then (m, none)
      else
        let key : Socket := ⟨address.compressed, internalPort⟩
        if answers.gateway = [] then (m.recordFailure key now, none)
        else match attempt key now
            [("pcp", answers.pcp), ("natpmp", answers.natpmp), ("upnp", answers.upnp)] with
          | some m => (m, m.candidate)
          | none => (m.recordFailure key now, none)

/-- What the daemon uses of `status`. -/
structure Status where
  method : String
  expiresIn : ℤ

/-- `status`; `int` of a number that is not negative. -/
def status (now : ℚ) : Status :=
  match m.candidate with
  | some c =>
    if now < m.expiresAt ∧ c.endpoint ≠ [] then ⟨m.method, max 0 ⌊m.expiresAt - now⌋⟩ else ⟨"", 0⟩
  | none => ⟨"", 0⟩

/-! ### What is recorded -/

/-- The next attempt is due before the mapping is over. -/
theorem refreshAfter_le {lifetime : ℤ} (h : 0 < lifetime) : refreshAfter lifetime ≤ lifetime := by
  have h1 : (1 : ℚ) ≤ lifetime := by exact_mod_cast h
  refine max_le h1 (min_le_iff.mpr (.inr (max_le h1 ?_)))
  linarith

theorem recordSuccess_ok {key : Socket} {method : String} {g : Mapping} {now : ℚ} {m : PortMapper}
    (h : recordSuccess key method g now = .ok m) : 0 < g.lifetime ∧
      m = ⟨some (Mapping.candidate g), some key, now + g.lifetime, now + refreshAfter g.lifetime, method⟩ := by
  rw [recordSuccess] at h
  split_ifs at h with hover
  exact ⟨not_le.mp hover, (Except.ok.inj h).symm⟩

theorem nextAttempt_le {key : Socket} {method : String} {g : Mapping} {now : ℚ} {m : PortMapper}
    (h : recordSuccess key method g now = .ok m) : m.nextAttempt ≤ m.expiresAt := by
  obtain ⟨hpos, rfl⟩ := recordSuccess_ok h
  exact add_le_add_right (refreshAfter_le hpos) now

/-- A method that succeeded: some mapping was recorded. -/
theorem attempt_eq_some {key : Socket} {now : ℚ} {m : PortMapper} :
    ∀ {methods : List (String × Option Mapping)}, attempt key now methods = some m →
      ∃ method g, recordSuccess key method g now = .ok m
  | (_, none) :: rest, h => attempt_eq_some (by rwa [attempt] at h)
  | (method, some g) :: rest, h => by
    rw [attempt] at h
    split at h
    · rename_i m' hm
      obtain rfl := Option.some.inj h
      exact ⟨method, g, hm⟩
    · exact attempt_eq_some h

end PortMapper
end Portmap
