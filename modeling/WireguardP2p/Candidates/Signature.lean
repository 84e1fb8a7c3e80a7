import WireguardP2p.Agent.Offer
import WireguardP2p.Client.Reconcile
import WireguardP2p.Candidates.Fallback

/-! The signature of a candidate list. Types and endpoints contain neither separator, so a signature that
    is not empty is read back into its parts, and the parts into types and endpoints. -/

namespace Candidates
open Ipaddress Python Net

/-! ### Which candidates a selection consists of -/

/-- The candidate is of a type the selection admits. -/
def Candidate.Admitted (allowLan allowIpv6 : Bool) (c : Candidate) : Prop :=
  ¬ (c.type = .lan4 ∧ !allowLan) ∧
    ¬ ((c.type = .host6 ∨ c.type = .observed6 ∨ c.type = .reflexive6) ∧ !allowIpv6)

section Admitted
variable {allowLan allowIpv6 : Bool}

theorem mem_admitted {c : Candidate} : ∀ {values : List Json} {cs : List Candidate},
    admitted allowLan allowIpv6 values = .ok cs →
      (c ∈ cs ↔ c.Admitted allowLan allowIpv6 ∧ ∃ v ∈ values, normalizeProbeCandidate v = .ok (some c)) := by
  intro values
  induction values with
  | nil =>
    intro cs h
    obtain rfl := Except.ok.inj h
    simp
  | cons v vs ih =>
    intro cs h
    rw [admitted] at h
    cases hv : normalizeProbeCandidate v with
    | error e => simp [hv, bind, Except.bind] at h
    | ok candidate =>
      cases hvs : admitted allowLan allowIpv6 vs with
      | error e => simp [hv, hvs, bind, Except.bind] at h
      | ok rest =>
        simp only [hv, hvs, bind, Except.bind] at h
        have hrest := ih hvs
        cases candidate with
        | none =>
          obtain rfl := Except.ok.inj h
          rw [hrest]
          simp [hv]
        | some d =>
          have hd : d.Admitted allowLan allowIpv6 ∧ cs = d :: rest ∨
              ¬ d.Admitted allowLan allowIpv6 ∧ cs = rest := by
            dsimp only at h
            unfold Candidate.Admitted
            split_ifs at h with hlan h6
            · exact Or.inr ⟨fun ha => ha.1 hlan, (Except.ok.inj h).symm⟩
            · exact Or.inr ⟨fun ha => ha.2 h6, (Except.ok.inj h).symm⟩
            · exact Or.inl ⟨⟨hlan, h6⟩, (Except.ok.inj h).symm⟩
          have hsome : normalizeProbeCandidate v = .ok (some c) ↔ d = c := by simp [hv]
          rcases hd with ⟨ha, rfl⟩ | ⟨ha, rfl⟩
          · rw [List.mem_cons, hrest, List.exists_mem_cons_iff, hsome]
            constructor
            · rintro (rfl | ⟨hc, hv⟩)
              · exact ⟨ha, Or.inl rfl⟩
              · exact ⟨hc, Or.inr hv⟩
            · rintro ⟨hc, rfl | hv⟩
              · exact Or.inl rfl
              · exact Or.inr ⟨hc, hv⟩
          · rw [hrest, List.exists_mem_cons_iff, hsome]
            constructor
            · exact fun h => ⟨h.1, Or.inr h.2⟩
            · rintro ⟨hc, rfl | hv⟩
              · exact absurd hc ha
              · exact ⟨hc, hv⟩

end Admitted

theorem legacyCandidate_endpoint {allowLan allowIpv6 : Bool} {legacy : Text} {c : Candidate}
    (h : legacyCandidate allowLan allowIpv6 legacy = some c) : ∃ e : Endpoint, c.endpoint = e.text := by
  rw [legacyCandidate] at h
  cases hparse : parseEndpoint (.str legacy) with
  | error err => simp [hparse] at h
  | ok parts =>
    obtain ⟨e, -, rfl⟩ := parseEndpoint_ok hparse
    rw [hparse] at h
    obtain ⟨t, -, rfl⟩ := Option.map_eq_some_iff.mp h
    exact ⟨e, rfl⟩

theorem mem_of_mem_dedupe {c : Candidate} {cs : List Candidate} (h : c ∈ dedupeByEndpoint cs) : c ∈ cs :=
  (List.mem_insertionSort Candidate.beforeByEndpoint).mp
    (List.mem_of_mem_filter ((keepFirst_sublist _).subset h))

theorem mem_of_mem_boundSelection {c : Candidate} {cs : List Candidate} (h : c ∈ boundSelection cs) :
    c ∈ cs := by
  rw [boundSelection] at h
  split at h
  · exact h
  · dsimp only at h
    split at h
    · rename_i o ho
      split at h
      · exact List.mem_of_mem_take h
      · rw [List.mem_insertionSort, List.mem_append, List.mem_singleton] at h
        rcases h with h | rfl
        · exact List.mem_of_mem_take (List.mem_of_mem_dropLast h)
        · exact List.mem_of_find?_eq_some ho
    · exact List.mem_of_mem_take h

/-- Every candidate that is probed has a normalized endpoint. -/
theorem endpoint_of_mem_select {values : List Json} {legacy : Text} {type : Json} {allowIpv6 : Bool}
    {cs : List Candidate} (h : selectProbeCandidates values legacy type allowIpv6 = .ok cs) :
    ∀ c ∈ cs, ∃ e : Endpoint, c.endpoint = e.text := by
  intro c hc
  rw [selectProbeCandidates] at h
  cases hadmitted : admitted (isLan type) allowIpv6 values with
  | error err => simp [hadmitted, bind, Except.bind] at h
  | ok advertised =>
    simp only [hadmitted, bind, Except.bind, Except.ok.injEq] at h
    rw [← h] at hc
    rcases List.mem_append.mp (mem_of_mem_dedupe (mem_of_mem_boundSelection hc)) with hc | hc
    · obtain ⟨-, v, -, hv⟩ := (mem_admitted hadmitted).mp hc
      obtain ⟨e, he, -⟩ := normalizeProbeCandidate_ok hv
      exact ⟨e, he⟩
    · split at hc
      · cases hc
      · exact legacyCandidate_endpoint (Option.mem_toList.mp hc)

/-! ### Reading a signature -/

/-- Free of the separators of a signature. -/
def Plain (t : Text) : Prop := ';' ∉ t ∧ '|' ∉ t

theorem plain_name (t : CandidateType) : Plain t.name.toList := by
  cases t <;> exact ⟨by decide, by decide⟩

/-- A printed address without a zone is made of digits, colons and points. -/
theorem not_mem_formatEndpoint {c : Char} (hc : Numeral.digitVal c = none)
    (hsep : c ∉ ['.', ':', '[', ']']) {address : IpAddress} {port : ℕ}
    (hzone : '%' ∉ formatEndpoint address port) : c ∉ formatEndpoint address port := by
  simp only [List.mem_cons, List.not_mem_nil, or_false, not_or] at hsep
  obtain ⟨hdot, hcolon, hopen, hclose⟩ := hsep
  have hport := not_mem_portText hc port
  cases address with
  | v4 ip =>
    rw [formatEndpoint, if_neg (by simp), List.mem_append, List.mem_cons]
    rintro (h | h | h)
    · exact not_mem_ipv4Text hc hdot ip h
    · exact hcolon h
    · exact hport h
  | v6 ip scope =>
    rw [formatEndpoint, if_pos (IpAddress.version_v6 ip scope)] at hzone ⊢
    cases scope with
    | some z => exact absurd (by simp [IpAddress.compressed]) hzone
    | none =>
      simp only [List.cons_append, List.mem_cons, List.mem_append, not_or]
      exact ⟨hopen, not_mem_ipv6Text hc hcolon ip, hclose, hcolon, hport⟩

theorem plain_endpoint {e : Endpoint} (h : '%' ∉ e.text) : Plain e.text :=
  ⟨not_mem_formatEndpoint (by decide) (by decide) h, not_mem_formatEndpoint (by decide) (by decide) h⟩

/-- A part of the signature. -/
def Candidate.part (c : Candidate) : Text := c.type.name.toList ++ '|' :: c.endpoint

theorem candidateSignature_eq (cs : List Candidate) :
    candidateSignature cs = [';'].intercalate (cs.map Candidate.part) := rfl

theorem splitOn_part {c : Candidate} (h : Plain c.endpoint) :
    c.part.splitOn '|' = [c.type.name.toList, c.endpoint] := by
  have hjoin : c.part = ['|'].intercalate [c.type.name.toList, c.endpoint] := by
    simp [Candidate.part, List.intercalate, List.intersperse]
  rw [hjoin]
  refine List.splitOn_intercalate '|' (fun t ht => ?_) (List.cons_ne_nil _ _)
  rcases List.mem_cons.mp ht with rfl | ht
  · exact (plain_name c.type).2
  · obtain rfl := List.mem_singleton.mp ht
    exact h.2

/-- A part is read back into its type and its endpoint. -/
theorem key_of_part {c d : Candidate} (hc : Plain c.endpoint) (hd : Plain d.endpoint) (h : c.part = d.part) :
    c.key = d.key := by
  have hsplit := splitOn_part hc
  rw [h, splitOn_part hd] at hsplit
  obtain ⟨htype, hrest⟩ := List.cons.inj hsplit
  obtain ⟨hendpoint, -⟩ := List.cons.inj hrest
  exact Prod.ext (CandidateType.name_injective htype.symm) hendpoint.symm

theorem keys_of_parts : ∀ {cs ds : List Candidate}, (∀ c ∈ cs, Plain c.endpoint) →
    (∀ d ∈ ds, Plain d.endpoint) → cs.map Candidate.part = ds.map Candidate.part →
      cs.map Candidate.key = ds.map Candidate.key := by
  intro cs
  induction cs with
  | nil =>
    intro ds _ _ h
    obtain rfl := List.map_eq_nil_iff.mp h.symm
    rfl
  | cons c cs ih =>
    intro ds hc hd h
    cases ds with
    | nil => cases h
    | cons d ds =>
      obtain ⟨hhead, htail⟩ := List.cons.inj h
      rw [List.map_cons, List.map_cons, key_of_part (hc c List.mem_cons_self) (hd d List.mem_cons_self) hhead,
        ih (fun e he => hc e (List.mem_cons_of_mem c he)) (fun e he => hd e (List.mem_cons_of_mem d he)) htail]

/-- The parts of a signature. -/
theorem splitOn_signature {cs : List Candidate} (hne : cs ≠ []) (h : ∀ c ∈ cs, Plain c.endpoint) :
    (candidateSignature cs).splitOn ';' = cs.map Candidate.part := by
  refine List.splitOn_intercalate ';' (fun t ht => ?_) (fun h => hne (List.map_eq_nil_iff.mp h))
  obtain ⟨c, hc, rfl⟩ := List.mem_map.mp ht
  rw [List.mem_append, List.mem_cons]
  rintro (hm | hm | hm)
  · exact (plain_name c.type).1 hm
  · cases hm
  · exact (h c hc).1 hm

theorem keys_of_signature {cs ds : List Candidate} (hc : ∀ c ∈ cs, Plain c.endpoint)
    (hd : ∀ d ∈ ds, Plain d.endpoint) (h : candidateSignature cs = candidateSignature ds) :
    cs.map Candidate.key = ds.map Candidate.key := by
  by_cases hcs : cs = []
  · subst hcs
    by_cases hds : ds = []
    · rw [hds]
    · exact absurd h.symm (candidateSignature_ne_nil hds)
  · by_cases hds : ds = []
    · subst hds
      exact absurd h (candidateSignature_ne_nil hcs)
    · refine keys_of_parts hc hd ?_
      rw [← splitOn_signature hcs hc, h, splitOn_signature hds hd]

/-! ### The client's lists -/

theorem normalizeCandidate_endpoint {raw : Client.RawCandidate} {c : Candidate}
    (h : Client.normalizeCandidate raw = some c) :
    ∃ (ip : Client.IP) (port : ℕ), c.endpoint = formatEndpoint ip.toAddress port := by
  rw [Client.normalizeCandidate] at h
  simp only [Option.bind_eq_bind, Option.bind_eq_some_iff] at h
  obtain ⟨⟨ip, portText⟩, -, port, -, h⟩ := h
  split at h
  · cases h
  · obtain ⟨type, -, h⟩ := Option.bind_eq_some_iff.mp h
    split at h
    · obtain rfl := Option.some.inj h
      exact ⟨ip, port.toNat, rfl⟩
    · cases h

/-- An address of the client has no zone. -/
theorem plain_of_client {ip : Client.IP} {port : ℕ} : Plain (formatEndpoint ip.toAddress port) := by
  have hzone : '%' ∉ formatEndpoint ip.toAddress port := by
    have hport : '%' ∉ Numeral.text 10 port := not_mem_portText (by decide) port
    cases ip with
    | v4 ip =>
      rw [Client.IP.toAddress, formatEndpoint, if_neg (by simp), List.mem_append, List.mem_cons]
      rintro (h | h | h)
      · exact not_mem_ipv4Text (by decide) (by decide) ip h
      · cases h
      · exact hport h
    | v6 ip =>
      rw [Client.IP.toAddress, formatEndpoint, if_pos (IpAddress.version_v6 ip none)]
      simp only [List.cons_append, List.mem_cons, List.mem_append, not_or]
      exact ⟨by decide, not_mem_ipv6Text (by decide) (by decide) ip, by decide, by decide, hport⟩
  exact ⟨not_mem_formatEndpoint (by decide) (by decide) hzone, not_mem_formatEndpoint (by decide) (by decide) hzone⟩

theorem plain_of_mem_build {advertised : List Client.RawCandidate} {publicEndpoint lanEndpoint : Text}
    {allowLAN allowIPv6 : Bool} :
    ∀ c ∈ Client.buildProbeCandidates advertised publicEndpoint lanEndpoint allowLAN allowIPv6,
      Plain c.endpoint := by
  intro c hc
  rw [Client.buildProbeCandidates, boundProbeCandidates_eq, dedupeProbeCandidates_eq] at hc
  have hraw : ∃ raw, Client.normalizeCandidate raw = some c := by
    have hmem := mem_of_mem_dedupe (mem_of_mem_boundSelection hc)
    rw [List.mem_append, List.mem_append] at hmem
    rcases hmem with (hmem | hmem) | hmem
    · obtain ⟨raw, -, h⟩ := List.mem_filterMap.mp hmem
      exact ⟨raw, h⟩
    · split at hmem
      · exact ⟨_, Option.mem_toList.mp hmem⟩
      · cases hmem
    · split at hmem
      · exact ⟨_, Option.mem_toList.mp hmem⟩
      · cases hmem
  obtain ⟨raw, h⟩ := hraw
  obtain ⟨ip, port, he⟩ := normalizeCandidate_endpoint h
  exact he ▸ plain_of_client

/-! ### Both programs -/

/-- `select_probe_candidates` gives the list for some candidates, legacy endpoint, type and IPv6 flag, and
    no address in it has a zone. -/
def Selected (cs : List Candidate) : Prop :=
  (∃ values legacy type allowIpv6, selectProbeCandidates values legacy type allowIpv6 = .ok cs) ∧
    ∀ c ∈ cs, '%' ∉ c.endpoint

/-- `buildProbeCandidates` gives the list. -/
def Built (cs : List Candidate) : Prop := ∃ advertised publicEndpoint lanEndpoint allowLAN allowIPv6,
  Client.buildProbeCandidates advertised publicEndpoint lanEndpoint allowLAN allowIPv6 = cs

theorem Selected.plain {cs : List Candidate} (h : Selected cs) : ∀ c ∈ cs, Plain c.endpoint := by
  obtain ⟨⟨values, legacy, type, allowIpv6, hselect⟩, hzone⟩ := h
  intro c hc
  obtain ⟨e, he⟩ := endpoint_of_mem_select hselect c hc
  exact he ▸ plain_endpoint (he ▸ hzone c hc)

theorem Built.plain {cs : List Candidate} (h : Built cs) : ∀ c ∈ cs, Plain c.endpoint := by
  obtain ⟨advertised, publicEndpoint, lanEndpoint, allowLAN, allowIPv6, rfl⟩ := h
  exact plain_of_mem_build

/-- Two lists of one program with the same signature probe the same paths in the same order, and a list
    with a path never has the signature of a new peer state. -/
theorem signature_detects_paths {cs ds : List Candidate} :
    (Selected cs → Selected ds → candidateSignature cs = candidateSignature ds →
        cs.map Candidate.key = ds.map Candidate.key) ∧
      (Selected cs → cs ≠ [] → ∀ o, candidateSignature cs ≠ (Agent.newPeerState o).candidateSignature) ∧
      (Built cs → Built ds → Client.candidateSignature cs = Client.candidateSignature ds →
        cs.map Candidate.key = ds.map Candidate.key) ∧
      (Built cs → cs ≠ [] → ∀ (v : Client.Visit) a,
        Client.candidateSignature cs ≠ (v.created a).candidateSignature) :=
  ⟨fun hc hd => keys_of_signature hc.plain hd.plain, fun _ hne _ => candidateSignature_ne_nil hne,
    fun hc hd => keys_of_signature hc.plain hd.plain, fun _ hne _ _ => candidateSignature_ne_nil hne⟩

end Candidates
