import Mathlib
import WireguardP2p.Net.Endpoint

/-! Path candidates: the dictionaries `{type, family, endpoint, priority, verified}` the three
    components exchange, how they are ordered and how duplicates are dropped. -/

namespace Candidates
open Ipaddress Python Net

/-- How a candidate was found. -/
inductive CandidateType
  | lan4
  | host6
  | observed6
  | reflexive6
  | mapped4
  | observed4
  | predicted4
  deriving DecidableEq

namespace CandidateType

/-- The name in the dictionaries. -/
def name : CandidateType → String
  | lan4 => "lan4"
  | host6 => "host6"
  | observed6 => "observed6"
  | reflexive6 => "reflexive6"
  | mapped4 => "mapped4"
  | observed4 => "observed4"
  | predicted4 => "predicted4"

def all : List CandidateType :=
  [lan4, host6, observed6, reflexive6, mapped4, observed4, predicted4]

theorem mem_all (t : CandidateType) : t ∈ all := by cases t <;> decide

theorem name_injective {t u : CandidateType} (h : t.name.toList = u.name.toList) : t = u := by
  cases t <;> cases u <;> first | rfl | exact absurd h (by decide)

end CandidateType

inductive Family
  | udp4
  | udp6
  deriving DecidableEq

def Family.name : Family → String
  | udp4 => "udp4"
  | udp6 => "udp6"

def familyOf (address : IpAddress) : Family := if address.version = 6 then .udp6 else .udp4

structure Candidate where
  type : CandidateType
  family : Family
  endpoint : Text
  priority : ℤ
  verified : Bool
  deriving DecidableEq

namespace Candidate

/-- The dictionary. -/
def toJson (c : Candidate) : Json :=
  .obj [("type".toList, .str c.type.name.toList), ("family".toList, .str c.family.name.toList),
    ("endpoint".toList, .str c.endpoint), ("priority".toList, .int c.priority),
    ("verified".toList, .bool c.verified)]

/-- `(type, endpoint)`. -/
def key (c : Candidate) : CandidateType × Text := (c.type, c.endpoint)

/-- Falling priority. -/
def before (c d : Candidate) : Prop := d.priority ≤ c.priority

/-- Falling priority, then rising endpoint. -/
def beforeByEndpoint (c d : Candidate) : Prop :=
  d.priority < c.priority ∨ d.priority = c.priority ∧ c.endpoint ≤ d.endpoint

instance : DecidableRel before := fun c d => inferInstanceAs (Decidable (d.priority ≤ c.priority))

instance : DecidableRel beforeByEndpoint := fun c d => inferInstanceAs
  (Decidable (d.priority < c.priority ∨ d.priority = c.priority ∧ c.endpoint ≤ d.endpoint))

instance : Std.Total before := ⟨fun c d => le_total d.priority c.priority⟩

instance : IsTrans Candidate before := ⟨fun _ _ _ h h' => le_trans h' h⟩

end Candidate

/-- `sorted(candidates, key=priority, reverse=True)`; the sort is stable. -/
def sortByPriority (cs : List Candidate) : List Candidate := cs.insertionSort Candidate.before

/-- A list already in falling order stays as it is. -/
theorem sortByPriority_eq_self {cs : List Candidate} (h : cs.Pairwise Candidate.before) :
    sortByPriority cs = cs := List.Pairwise.insertionSort_eq h

theorem pairwise_sortByPriority (cs : List Candidate) :
    (sortByPriority cs).Pairwise Candidate.before := List.pairwise_insertionSort _ cs

@[simp] theorem mem_sortByPriority {c : Candidate} {cs : List Candidate} :
    c ∈ sortByPriority cs ↔ c ∈ cs := List.mem_insertionSort _

section KeepFirst
variable {α κ : Type} [DecidableEq κ]

/-- Keep the first value of each key, on top of the values already kept. -/
def keepFirst (key : α → κ) : List α → List α → List α
  | kept, [] => kept
  | kept, c :: cs =>
    if key c ∈ kept.map key then keepFirst key kept cs else keepFirst key (kept ++ [c]) cs

theorem keepFirst_eq_append {key : α → κ} :
    ∀ {cs kept : List α}, ((kept ++ cs).map key).Nodup → keepFirst key kept cs = kept ++ cs
  | [], kept, _ => by simp [keepFirst]
  | c :: cs, kept, h => by
      have hnew : key c ∉ kept.map key := by
        rw [List.map_append, List.map_cons, List.nodup_append] at h
        intro hmem
        exact h.2.2 _ hmem _ (List.mem_cons_self ..) rfl
      rw [keepFirst, if_neg hnew, keepFirst_eq_append (by rwa [List.append_assoc])]
      simp

/-- Distinct values are all kept. -/
theorem keepFirst_self {key : α → κ} {cs : List α} (h : (cs.map key).Nodup) :
    keepFirst key [] cs = cs := keepFirst_eq_append (by rwa [List.nil_append])

theorem nodup_keepFirst {key : α → κ} :
    ∀ {cs kept : List α}, (kept.map key).Nodup → ((keepFirst key kept cs).map key).Nodup
  | [], _, h => h
  | c :: cs, kept, h => by
      rw [keepFirst]
      split
      · exact nodup_keepFirst h
      · rename_i hnew
        refine nodup_keepFirst ?_
        rw [List.map_append, List.nodup_append]
        refine ⟨h, List.nodup_singleton _, ?_⟩
        rintro a ha b hb rfl
        rw [List.map_singleton, List.mem_singleton] at hb
        exact hnew (hb ▸ ha)

theorem mem_of_mem_keepFirst {key : α → κ} {d : α} :
    ∀ {cs kept : List α}, d ∈ keepFirst key kept cs → d ∈ kept ∨ d ∈ cs
  | [], _, h => Or.inl h
  | c :: cs, kept, h => by
      rw [keepFirst] at h
      split at h
      · rcases mem_of_mem_keepFirst h with hk | hc
        · exact Or.inl hk
        · exact Or.inr (List.mem_cons_of_mem c hc)
      · rcases mem_of_mem_keepFirst h with hk | hc
        · rcases List.mem_append.mp hk with hk | hk
          · exact Or.inl hk
          · exact Or.inr (List.mem_singleton.mp hk ▸ List.mem_cons_self ..)
        · exact Or.inr (List.mem_cons_of_mem c hc)

theorem subset_keepFirst {key : α → κ} {d : α} :
    ∀ {cs kept : List α}, d ∈ kept → d ∈ keepFirst key kept cs
  | [], _, h => h
  | c :: cs, kept, h => by
      rw [keepFirst]
      split
      · exact subset_keepFirst h
      · exact subset_keepFirst (List.mem_append_left _ h)

theorem length_keepFirst_le {key : α → κ} :
    ∀ (cs kept : List α), (keepFirst key kept cs).length ≤ kept.length + cs.length
  | [], kept => by simp [keepFirst]
  | c :: cs, kept => by
      rw [keepFirst, List.length_cons]
      split
      · exact le_trans (length_keepFirst_le cs kept) (by omega)
      · exact le_trans (length_keepFirst_le cs _) (by rw [List.length_append, List.length_singleton]; omega)

end KeepFirst

end Candidates
