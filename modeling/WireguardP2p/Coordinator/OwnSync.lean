import WireguardP2p.Agent.Snapshot
import WireguardP2p.Client.Candidate
import WireguardP2p.Coordinator.Announce

/-! A node's own sync request against the coordinator's `validate_candidates`. Each generator asks its
    own questions of an address, the validator asks another, and the validator alone bounds the number
    of entries: what it takes is stated here exactly, for the agent and for the client. -/

namespace Coordinator
open Ipaddress Python Net Candidates

/-- The coordinator takes the candidate in a sync request. -/
def Takes (c : Candidate) : Prop := ∃ d, (policy false).validateCandidate c.toJson = .ok d

theorem validateCandidates_iff {cs : List Candidate} :
    (∃ r, validateCandidates (.arr (cs.map Candidate.toJson)) false = .ok r) ↔
      cs.length ≤ maxCandidates ∧ ∀ c ∈ cs, Takes c := by
  rw [validateCandidates, Policy.validateCandidates_isOk, List.length_map, List.forall_mem_map]
  rfl

/-- A candidate in normal form is taken when its type is allowed and may have the address. -/
theorem takes_backed {c : Candidate} {e : Endpoint} (hback : c.Backed e)
    (htype : c.type ∈ (policy false).allowedTypes) (hrefusal : refusal c.type e.address = none) :
    Takes c := ⟨_, Policy.validateCandidate_toJson hback htype hrefusal⟩

theorem isPrivate4_zero : isPrivate4 0 = true := by decide

/-- The LAN candidate is taken unless the address is the unspecified one. -/
theorem takes_lan4_iff {lan : Fin (2 ^ 32)} (hlan : (IpAddress.v4 lan).isPrivate = true) {port : ℕ}
    (hport : 1 ≤ port ∧ port ≤ 65535) {c : Candidate} (htype : c.type = .lan4)
    (hfamily : c.family = .udp4) (hendpoint : c.endpoint = formatEndpoint (.v4 lan) port)
    (hpriority : 0 ≤ c.priority ∧ c.priority ≤ 2000) : Takes c ↔ lan ≠ 0 := by
  have hmulti := IpAddress.not_isMulticast_of_isPrivate (IpAddress.version_v4 lan) hlan
  have hread : readEndpoint (.str c.endpoint) = checkEndpoint (.v4 lan) port := by
    rw [hendpoint, readEndpoint_format (not_mem_compressed_v4 lan) hport.2]
  constructor
  · rintro ⟨d, hd⟩ rfl
    rw [checkEndpoint_unusable hport (by simp [IpAddress.isUnspecified])] at hread
    exact Policy.validateCandidate_unreadable hread d hd
  · intro hne
    have hspec : (IpAddress.v4 lan).isUnspecified = false := by
      simpa [IpAddress.isUnspecified] using hne
    refine takes_backed (e := ⟨.v4 lan, port, hport, hspec, hmulti⟩)
      ⟨hendpoint, not_mem_compressed_v4 lan, hfamily, hpriority⟩ ?_ ?_
    · rw [htype]
      decide
    · rw [htype, refusal, if_neg (by simp [hlan])]

/-- An IPv6 candidate is taken unless the address is private to the coordinator. -/
theorem takes_host6_iff {ip : Fin (2 ^ 128)} {port : ℕ} (hport : 1 ≤ port ∧ port ≤ 65535)
    (husable : (IpAddress.v6 ip none).isUnspecified = false ∧
      (IpAddress.v6 ip none).isMulticast = false) {c : Candidate}
    (htype : c.type = .host6 ∨ c.type = .reflexive6) (hfamily : c.family = .udp6)
    (hendpoint : c.endpoint = formatEndpoint (.v6 ip none) port)
    (hpriority : 0 ≤ c.priority ∧ c.priority ≤ 2000) :
    Takes c ↔ (IpAddress.v6 ip none).isPrivate = false := by
  have hback : c.Backed ⟨.v6 ip none, port, hport, husable⟩ :=
    ⟨hendpoint, not_mem_compressed_v6 ip, hfamily, hpriority⟩
  constructor
  · rintro ⟨d, hd⟩
    by_contra hprivate
    rw [Bool.not_eq_false] at hprivate
    have hread : readEndpoint (.str c.endpoint) = .ok ⟨.v6 ip none, port, hport, husable⟩ := by
      rw [hback.endpoint_eq]
      exact hback.read
    have hrefusal : (policy false).refusal c.type (.v6 ip none) =
        some "host6 candidate must be global IPv6" := by
      rcases htype with ht | ht <;> rw [ht] <;> simp [policy, refusal, hprivate]
    exact Policy.validateCandidate_refused hread hrefusal d hd
  · intro hpublic
    have hlocal := IpAddress.not_isLinkLocal_of_not_isPrivate hpublic
    have hglobal : (IpAddress.v6 ip none).isGlobal = true := by
      rw [IpAddress.isGlobal_v6, hpublic]
      rfl
    refine takes_backed hback ?_ ?_
    · rcases htype with ht | ht <;> rw [ht] <;> decide
    · rcases htype with ht | ht <;> rw [ht] <;> simp [refusal, hpublic, hglobal, hlocal]

/-! ### The agent's list -/

section Agent
open Agent

/-- An address of the host, as `ip` prints it. -/
def hostText (ip : Fin (2 ^ 128)) : Text := (IpAddress.v6 ip none).compressed

theorem hostText_injective : Function.Injective hostText := by
  intro a b h
  have hread := ipAddress_compressed (.v6 b none)
  rw [← show hostText a = (IpAddress.v6 b none).compressed from h, hostText, ipAddress_compressed] at hread
  simpa using hread

/-- The port mapper has a live mapping for this socket. -/
def mappedCount (n : LocalNode) (lan : Fin (2 ^ 32)) : ℕ :=
  match mappedCandidateFromState n.wgPort (.v4 lan) n.surroundings.now n.surroundings.portmapState with
  | .ok (some _) => 1
  | _ => 0

/-- The reflexive address is known and recent. -/
def reflexiveCount (n : LocalNode) : ℕ := (currentReflexive6Candidate n).toList.length

theorem mapped_takes {port : ℕ} {lan : IpAddress} {now : ℚ} {state : Option Json} {c : Candidate}
    (h : mappedCandidateFromState port lan now state = .ok (some c)) : Takes c := by
  obtain ⟨htype, hpriority, hfamily, e, hendpoint, hclose, hversion⟩ := mappedCandidateFromState_ok h
  refine takes_backed (e := e) ⟨hendpoint, hclose, ?_, by rw [hpriority]; constructor <;> norm_num⟩ ?_ ?_
  · rw [hfamily, familyOf, if_neg (by rw [hversion]; decide)]
  · rw [htype]
    decide
  · rw [htype, refusal, if_neg (by simp [hversion])]

/-- The `host6` candidates of addresses of the host. -/
theorem host6_candidates (preferred : Text) (port : ℕ) (hosts : List (Fin (2 ^ 128))) :
    (hosts.map hostText).filterMap (host6Candidate preferred port) = hosts.map fun ip =>
      ownCandidate .host6 (.v6 ip none) port
        (if hostText ip = preferred then preferredHost6Priority else PRIORITY .host6) := by
  rw [List.filterMap_map, ← List.filterMap_eq_map]
  refine List.filterMap_congr fun ip _ => ?_
  simp [host6Candidate, hostText, ipAddress_compressed]

/-- The list the agent gathers holds the LAN candidate, the live mapping and one candidate for each
    address of the host. -/
theorem gatherCandidates_perm {env : Surroundings} {port : ℕ} (hport : 1 ≤ port ∧ port ≤ 65535)
    {lan : Fin (2 ^ 32)} (hlan : (IpAddress.v4 lan).isPrivate = true) {hosts : List (Fin (2 ^ 128))}
    (hhosts : globalIpv6Addresses env.interfaces = hosts.map hostText) {gathered : List Candidate}
    (h : gatherCandidates env port (IpAddress.v4 lan).compressed = .ok gathered) :
    ∃ mapped, mappedCandidateFromState port (.v4 lan) env.now env.portmapState = .ok mapped ∧
      gathered.Perm (ownCandidate .lan4 (.v4 lan) port (PRIORITY .lan4) :: (mapped.toList ++
        hosts.map fun ip => ownCandidate .host6 (.v6 ip none) port
          (if hostText ip = preferredSourceIpv6 env.sources then preferredHost6Priority
            else PRIORITY .host6))) := by
  rw [gatherCandidates, if_neg (not_not_intro hport), lanCandidates, ipAddress_compressed] at h
  cases hmapped : mappedCandidateFromState port (.v4 lan) env.now env.portmapState with
  | error err => simp [hlan, hmapped, bind, Except.bind] at h
  | ok mapped =>
    refine ⟨mapped, rfl, ?_⟩
    simp only [IpAddress.version_v4, hlan, and_self, if_true, hmapped, bind, Except.bind, hhosts,
      host6_candidates, Except.ok.injEq, List.cons_append] at h
    subst h
    refine dedupeByKey_perm ?_
    have hmappedType : ∀ c ∈ mapped.toList, c.type = .mapped4 := by
      intro c hc
      rw [Option.mem_toList.mp hc] at hmapped
      exact (mappedCandidateFromState_ok hmapped).1
    have hnodup : hosts.Nodup := by
      have hall := nodup_globalIpv6Addresses env.interfaces
      rw [hhosts] at hall
      exact hall.of_map
    rw [List.map_cons, List.nodup_cons, List.map_append, List.nodup_append, List.map_map]
    refine ⟨?_, ?_, ?_, ?_⟩
    · intro hmem
      rcases List.mem_append.mp hmem with hmem | hmem
      · obtain ⟨c, hc, hkey⟩ := List.mem_map.mp hmem
        have hkind := congrArg Prod.fst hkey
        rw [Candidate.key, hmappedType c hc] at hkind
        cases hkind
      · obtain ⟨ip, -, hkey⟩ := List.mem_map.mp hmem
        exact absurd (congrArg Prod.fst hkey) (by simp [Candidate.key, ownCandidate])
    · cases mapped <;> simp
    · refine hnodup.map_on ?_
      intro a _ b _ hkey
      have hendpoint := congrArg Prod.snd hkey
      have haddress := formatEndpoint_injective (not_mem_compressed_v6 a) (not_mem_compressed_v6 b)
        hendpoint
      simpa using haddress
    · intro k hk l hl hkl
      obtain ⟨c, hc, rfl⟩ := List.mem_map.mp hk
      obtain ⟨ip, -, rfl⟩ := List.mem_map.mp hl
      have hkind := congrArg Prod.fst hkl
      rw [Candidate.key, hmappedType c hc] at hkind
      cases hkind

/-- No address, or an address of IPv6 without a zone. -/
def PlainHost6 (t : Text) : Prop := t = [] ∨ ∃ ip, t = hostText ip

theorem usable_facts {ip : Fin (2 ^ 128)} (h : usableGlobalIpv6 (.v6 ip none) = true) :
    ((IpAddress.v6 ip none).isUnspecified = false ∧ (IpAddress.v6 ip none).isMulticast = false) ∧
      (IpAddress.v6 ip none).isPrivate = false := by
  obtain ⟨-, -, hpublic, -, hmulti⟩ := usableGlobalIpv6_facts h
  exact ⟨⟨not_isUnspecified_of_usable h, hmulti⟩, hpublic⟩

theorem reflexive_takes {n : LocalNode} (hport : 1 ≤ n.wgPort ∧ n.wgPort ≤ 65535)
    (hplain : PlainHost6 n.reflexive6Address) {c : Candidate}
    (h : currentReflexive6Candidate n = some c) : Takes c := by
  rw [currentReflexive6Candidate] at h
  split at h
  · cases h
  · rename_i hknown
    rcases hplain with hnil | ⟨ip, hip⟩
    · exact absurd (Or.inl hnil) hknown
    · rw [hip, hostText, reflexive6Candidate, ipAddress_compressed] at h
      simp only at h
      split at h
      · cases h
      · rename_i hok
        have husable : usableGlobalIpv6 (.v6 ip none) = true := by
          by_contra hno
          simp [hno] at hok
        cases h
        exact (takes_host6_iff hport (usable_facts husable).1 (Or.inr rfl) rfl rfl
          (by show (0 : ℤ) ≤ 825 ∧ (825 : ℤ) ≤ 2000; omega)).mpr (usable_facts husable).2

/-- What the coordinator makes of the agent's list. -/
theorem snapshot_taken_iff {n : LocalNode} (hport : 1 ≤ n.wgPort ∧ n.wgPort ≤ 65535)
    {lan : Fin (2 ^ 32)} (hlan : (IpAddress.v4 lan).isPrivate = true)
    (hlanIp : n.lanIp = (IpAddress.v4 lan).compressed) {hosts : List (Fin (2 ^ 128))}
    (hhosts : globalIpv6Addresses n.surroundings.interfaces = hosts.map hostText)
    (hplain : PlainHost6 n.reflexive6Address) {l : Text} {p : ℕ} {cs : List Candidate}
    (h : localCandidateSnapshot n = .ok (l, p, cs)) :
    (∃ r, validateCandidates (.arr (cs.map Candidate.toJson)) false = .ok r) ↔
      lan ≠ 0 ∧ 1 + hosts.length + mappedCount n lan + reflexiveCount n ≤ maxCandidates := by
  have hlanNe : ¬ (n.lanIp = [] ∨ n.wgPort = 0) := by
    rintro (hnil | hzero)
    · have hread := ipAddress_compressed (.v4 lan)
      rw [← hlanIp, hnil] at hread
      cases hread
    · omega
  rw [localCandidateSnapshot, if_neg hlanNe] at h
  cases hgather : gatherCandidates n.surroundings n.wgPort n.lanIp with
  | error err => simp [hgather, bind, Except.bind] at h
  | ok gathered =>
    rw [hlanIp] at hgather
    obtain ⟨mapped, hmapped, hperm⟩ := gatherCandidates_perm hport hlan hhosts hgather
    have hcs : cs.Perm (gathered ++ (currentReflexive6Candidate n).toList) := by
      rw [hlanIp, hgather] at h
      simp only [bind, Except.bind] at h
      split at h
      · rename_i hnone
        simp only [Except.ok.injEq, Prod.mk.injEq] at h
        rw [← h.2.2, hnone]
        simp
      · rename_i reflexive hsome
        simp only [Except.ok.injEq, Prod.mk.injEq] at h
        rw [← h.2.2, hsome]
        exact List.perm_insertionSort ..
    have hall := hcs.trans (hperm.append_right _)
    have hcount : mappedCount n lan = mapped.toList.length := by
      rw [mappedCount, hmapped]
      cases mapped <;> rfl
    have hlan4 := takes_lan4_iff hlan hport (c := ownCandidate .lan4 (.v4 lan) n.wgPort (PRIORITY .lan4))
      rfl rfl rfl (by show (0 : ℤ) ≤ 1000 ∧ (1000 : ℤ) ≤ 2000; omega)
    rw [validateCandidates_iff, hall.length_eq, hcount, reflexiveCount]
    simp only [List.length_append, List.length_cons, List.length_map]
    constructor
    · rintro ⟨hlen, htakes⟩
      exact ⟨hlan4.mp (htakes _ (hall.mem_iff.mpr (by simp))), by omega⟩
    · rintro ⟨hne, hlen⟩
      refine ⟨by omega, fun c hc => ?_⟩
      rw [hall.mem_iff, List.mem_append, List.mem_cons, List.mem_append] at hc
      rcases hc with (rfl | hc | hc) | hc
      · exact hlan4.mpr hne
      · rw [Option.mem_toList.mp hc] at hmapped
        exact mapped_takes hmapped
      · obtain ⟨ip, hip, rfl⟩ := List.mem_map.mp hc
        have hmem : hostText ip ∈ globalIpv6Addresses n.surroundings.interfaces := by
          rw [hhosts]
          exact List.mem_map_of_mem hip
        obtain ⟨a, ha, husable⟩ := usable_of_mem_globalIpv6Addresses hmem
        have hread := ipAddress_compressed a
        rw [← ha, hostText, ipAddress_compressed, Option.some.injEq] at hread
        rw [← hread] at husable
        refine (takes_host6_iff hport (usable_facts husable).1 (Or.inl rfl) rfl rfl ?_).mpr
          (usable_facts husable).2
        show (0 : ℤ) ≤ ite _ _ _ ∧ ite _ _ _ ≤ (2000 : ℤ)
        split <;> decide
      · exact reflexive_takes hport hplain (Option.mem_toList.mp hc)

end Agent

/-! ### The client's list -/

section Client
open Client

/-- The LAN address is private to the client. -/
def lanCount (lan : Fin (2 ^ 32)) : ℕ := if (IP.v4 lan).isPrivate then 1 else 0

/-- The client's private networks hold no address the coordinator cannot use. -/
theorem private_facts {lan : Fin (2 ^ 32)} (h : (IP.v4 lan).isPrivate = true) :
    (IpAddress.v4 lan).isPrivate = true ∧ lan ≠ 0 := by
  simp [IP.isPrivate, Network.contains, net4, ofDigits] at h
  constructor
  · rw [IpAddress.isPrivate, isPrivate4, Bool.and_eq_true]
    constructor
    · simp [privateNetworks4, Network.contains, net4, ofDigits]
      omega
    · simp [privateExceptions4, Network.contains, net4, ofDigits]
      omega
  · rintro rfl
    simp at h

theorem usable_v6 {ip : IP} (h : isUsableGlobalIPv6 ip = true) : ∃ n, ip = .v6 n ∧
    (IpAddress.v6 n none).isUnspecified = false ∧ (IpAddress.v6 n none).isMulticast = false := by
  cases ip with
  | v4 n => cases h
  | v6 n =>
    simp only [isUsableGlobalIPv6, IP.isGlobalUnicast, Bool.and_eq_true, bne_iff_ne, ne_eq,
      Bool.not_eq_true'] at h
    refine ⟨n, rfl, ?_, h.1.1.1.2⟩
    simpa [IpAddress.isUnspecified] using h.1.1.1.1.1

theorem validateCandidates_marshal_iff {cs : List Candidate} :
    (∃ r, validateCandidates (.arr (cs.map marshal)) false = .ok r) ↔
      cs.length ≤ maxCandidates ∧ ∀ c ∈ cs, Takes c := by
  rw [validateCandidates, Policy.validateCandidates_isOk, List.length_map, List.forall_mem_map]
  simp only [validateCandidate_marshal]
  rfl

theorem text_injective {a b : IP} (h : a.text = b.text) : a = b := by
  have hread := ipAddress_compressed b.toAddress
  rw [← show a.text = b.toAddress.compressed from h, IP.text, ipAddress_compressed] at hread
  cases a <;> cases b <;> simp_all [IP.toAddress]

theorem not_mem_text (ip : IP) : ']' ∉ ip.toAddress.compressed := by
  cases ip with
  | v4 n => exact not_mem_compressed_v4 n
  | v6 n => exact not_mem_compressed_v6 n

/-- The list the client gathers holds the LAN candidate and one candidate for each address. -/
theorem gatherLocalCandidates_perm (port : ℕ) (lanIP : Text) (interfaces : List NetInterface)
    (sources : List (Option IP)) :
    (gatherLocalCandidates port lanIP interfaces sources).Perm
      ((lan4Candidate port lanIP).toList ++ (globalIPv6Addresses interfaces).map
        (Client.host6Candidate (preferredGlobalIPv6Address sources) port)) := by
  have hlan : ∀ c ∈ (lan4Candidate port lanIP).toList, c.type = .lan4 ∧ c.endpoint ≠ [] := by
    intro c hc
    have hsome := Option.mem_toList.mp hc
    rw [lan4Candidate] at hsome
    split at hsome
    · split at hsome
      · cases hsome
        exact ⟨rfl, Client.ownCandidate_endpoint_ne_nil _ _ _ _ _⟩
      · cases hsome
    · cases hsome
  have hfilled : ∀ c ∈ (lan4Candidate port lanIP).toList ++ (globalIPv6Addresses interfaces).map
      (Client.host6Candidate (preferredGlobalIPv6Address sources) port),
        decide (c.endpoint ≠ []) = true := by
    intro c hc
    rw [decide_eq_true_eq]
    rcases List.mem_append.mp hc with hc | hc
    · exact (hlan c hc).2
    · obtain ⟨ip, -, rfl⟩ := List.mem_map.mp hc
      exact Client.ownCandidate_endpoint_ne_nil _ _ _ _ _
  have hnodup : (globalIPv6Addresses interfaces).Nodup := by
    have htexts : ((globalIPv6Addresses interfaces).map IP.text).Nodup :=
      nodup_keepFirst List.nodup_nil
    exact htexts.of_map
  rw [gatherLocalCandidates, dedupeCandidates, List.filter_eq_self.mpr hfilled, keepFirst_self]
  · exact List.perm_insertionSort ..
  · rw [List.map_append, List.nodup_append, List.map_map]
    refine ⟨by cases lan4Candidate port lanIP <;> simp, ?_, ?_⟩
    · refine hnodup.map_on fun a _ b _ hkey => ?_
      have haddress := formatEndpoint_injective (not_mem_text a) (not_mem_text b)
        (congrArg Prod.snd hkey)
      exact text_injective (congrArg IpAddress.compressed haddress)
    · intro k hk l hl hkl
      obtain ⟨c, hc, rfl⟩ := List.mem_map.mp hk
      obtain ⟨ip, -, rfl⟩ := List.mem_map.mp hl
      have hkind := congrArg Prod.fst hkl
      rw [Candidate.key, (hlan c hc).1] at hkind
      cases hkind

/-- What the coordinator makes of the client's list. -/
theorem gathered_taken_iff {port : ℕ} (hport : 1 ≤ port ∧ port ≤ 65535) (lan : Fin (2 ^ 32))
    (interfaces : List NetInterface) (sources : List (Option IP)) :
    (∃ r, validateCandidates (.arr ((gatherLocalCandidates port (IP.v4 lan).text interfaces
        sources).map marshal)) false = .ok r) ↔
      lanCount lan + (globalIPv6Addresses interfaces).length ≤ maxCandidates ∧
        ∀ ip ∈ globalIPv6Addresses interfaces, ip.toAddress.isPrivate = false := by
  have hperm := gatherLocalCandidates_perm port (IP.v4 lan).text interfaces sources
  have hparse : parseIP (IP.v4 lan).text = some (.v4 lan) := by
    rw [parseIP, IP.text, ipAddress_compressed]
    rfl
  have hlan : lan4Candidate port (IP.v4 lan).text =
      if (IP.v4 lan).isPrivate then some (Client.ownCandidate .lan4 .udp4 (.v4 lan) port 1000)
      else none := by
    rw [lan4Candidate, hparse]
  have hcount : (lan4Candidate port (IP.v4 lan).text).toList.length = lanCount lan := by
    rw [hlan, lanCount]
    split <;> rfl
  have hhost : ∀ ip ∈ globalIPv6Addresses interfaces,
      (Takes (Client.host6Candidate (preferredGlobalIPv6Address sources) port ip) ↔
        ip.toAddress.isPrivate = false) := by
    intro ip hip
    rcases mem_of_mem_keepFirst hip with hnil | hmem
    · cases hnil
    · obtain ⟨n, rfl, husable⟩ := usable_v6 (List.mem_filter.mp hmem).2
      refine takes_host6_iff hport husable (Or.inl rfl) rfl rfl ?_
      show (0 : ℤ) ≤ ite _ _ _ ∧ ite _ _ _ ≤ (2000 : ℤ)
      split <;> decide
  rw [validateCandidates_marshal_iff, hperm.length_eq, List.length_append, List.length_map, hcount]
  refine and_congr_right fun _ => ?_
  constructor
  · intro htakes ip hip
    exact (hhost ip hip).mp (htakes _ (hperm.mem_iff.mpr (List.mem_append_right _
      (List.mem_map_of_mem hip))))
  · intro hpublic c hc
    rcases List.mem_append.mp (hperm.mem_iff.mp hc) with hc | hc
    · have hsome := Option.mem_toList.mp hc
      rw [hlan] at hsome
      split at hsome
      · rename_i hprivate
        cases hsome
        exact (takes_lan4_iff (private_facts hprivate).1 hport rfl rfl rfl
          (by show (0 : ℤ) ≤ 1000 ∧ (1000 : ℤ) ≤ 2000; omega)).mpr (private_facts hprivate).2
      · cases hsome
    · obtain ⟨ip, hip, rfl⟩ := List.mem_map.mp hc
      exact (hhost ip hip).mpr (hpublic ip hip)

end Client

/-- What the coordinator takes of the two generators, for a listen port and a private LAN address. -/
theorem own_sync_taken_iff {port : ℕ} (hport : 1 ≤ port ∧ port ≤ 65535) {lan : Fin (2 ^ 32)}
    (hlan : (IpAddress.v4 lan).isPrivate = true) :
    (∀ (n : Agent.LocalNode) (hosts : List (Fin (2 ^ 128))) (l : Text) (p : ℕ) (cs : List Candidate),
      n.wgPort = port → n.lanIp = (IpAddress.v4 lan).compressed →
      globalIpv6Addresses n.surroundings.interfaces = hosts.map hostText →
      PlainHost6 n.reflexive6Address → Agent.localCandidateSnapshot n = .ok (l, p, cs) →
      ((∃ r, validateCandidates (.arr (cs.map Candidate.toJson)) false = .ok r) ↔
        lan ≠ 0 ∧ 1 + hosts.length + mappedCount n lan + reflexiveCount n ≤ maxCandidates)) ∧
    ∀ (interfaces : List Client.NetInterface) (sources : List (Option Client.IP)),
      ((∃ r, validateCandidates (.arr ((Client.gatherLocalCandidates port (Client.IP.v4 lan).text
          interfaces sources).map Client.marshal)) false = .ok r) ↔
        lanCount lan + (Client.globalIPv6Addresses interfaces).length ≤ maxCandidates ∧
          ∀ ip ∈ Client.globalIPv6Addresses interfaces, ip.toAddress.isPrivate = false) := by
  refine ⟨fun n hosts l p cs hn hlanIp hhosts hplain h => ?_, gathered_taken_iff hport lan⟩
  subst hn
  exact snapshot_taken_iff hport hlan hlanIp hhosts hplain h

/-! ### At concrete nodes -/

/-- An interface that is up and carries the addresses. -/
def upInterface (hosts : List (Fin (2 ^ 128))) : Interface where
  ifname := "eth0".toList
  operstate := "UP".toList
  addrInfo := hosts.map fun ip =>
    { family := "inet6".toList, scope := "global".toList, flags := [], preferredLifeTime := none,
      preferredLft := none, localAddress := hostText ip }

/-- Every finite set of usable addresses is one a host can have. -/
theorem globalIpv6Addresses_upInterface {hosts : List (Fin (2 ^ 128))} (hnodup : hosts.Nodup)
    (husable : ∀ ip ∈ hosts, usableGlobalIpv6 (.v6 ip none) = true) :
    globalIpv6Addresses [upInterface hosts] = hosts.map hostText := by
  have hfound : (upInterface hosts).addrInfo.filterMap globalAddress = hosts.map hostText := by
    rw [upInterface, List.filterMap_map, ← List.filterMap_eq_map]
    refine List.filterMap_congr fun ip hip => ?_
    simp [globalAddress, ipv6AddressInfoUnusable, hostText, ipAddress_compressed, husable ip hip]
  have hup : ¬ ((upInterface hosts).ifname = "lo".toList ∨
      (upInterface hosts).operstate = "DOWN".toList) := by
    show ¬ ("eth0".toList = "lo".toList ∨ "UP".toList = "DOWN".toList)
    decide
  rw [globalIpv6Addresses, List.filter_cons_of_pos (by rw [decide_eq_true_eq]; exact hup)]
  simp only [List.filter_nil, List.flatMap_cons, List.flatMap_nil, List.append_nil, hfound]
  refine keepFirst_self ?_
  rw [List.map_id]
  exact hnodup.map hostText_injective

/-- A node at 192.168.1.5 with the given addresses, without mapping and reflexive address. -/
def plainNode (hosts : List (Fin (2 ^ 128))) : Agent.LocalNode where
  lanIp := "192.168.1.5".toList
  wgPort := 51820
  surroundings := { now := 0, interfaces := [upInterface hosts], sources := [], portmapState := none }
  reflexive6Address := []
  reflexive6Updated := 0

/-- The addresses `2606:4700::` to `2606:4700::f`, or the first of them. -/
def hostsFrom (count : ℕ) : List (Fin (2 ^ 128)) :=
  (List.range count).map fun i => Fin.ofNat _ (0x26064700 * 2 ^ 96 + i)

theorem addresses_of_hostsFrom {count : ℕ} (h : (hostsFrom count).Nodup)
    (husable : (hostsFrom count).all fun ip => usableGlobalIpv6 (.v6 ip none)) :
    globalIpv6Addresses (plainNode (hostsFrom count)).surroundings.interfaces =
      (hostsFrom count).map hostText :=
  globalIpv6Addresses_upInterface h fun ip hip => List.all_eq_true.mp husable ip hip

/-- A node with one address, and a client with the same one. -/
theorem own_sync_taken_iff_one :
    (∃ l p cs, Agent.localCandidateSnapshot (plainNode (hostsFrom 1)) = .ok (l, p, cs) ∧
      ((∃ r, validateCandidates (.arr (cs.map Candidate.toJson)) false = .ok r) ↔
        Fin.ofNat (2 ^ 32) 0xc0a80105 ≠ 0 ∧ 1 + (hostsFrom 1).length +
          mappedCount (plainNode (hostsFrom 1)) (Fin.ofNat (2 ^ 32) 0xc0a80105) +
          reflexiveCount (plainNode (hostsFrom 1)) ≤ maxCandidates)) ∧
    ((∃ r, validateCandidates (.arr ((Client.gatherLocalCandidates 51820
        (Client.IP.v4 (Fin.ofNat (2 ^ 32) 0xc0a80105)).text
        [⟨true, false, (hostsFrom 1).map .v6⟩] []).map Client.marshal)) false = .ok r) ↔
      lanCount (Fin.ofNat (2 ^ 32) 0xc0a80105) +
          (Client.globalIPv6Addresses [⟨true, false, (hostsFrom 1).map .v6⟩]).length ≤ maxCandidates ∧
        ∀ ip ∈ Client.globalIPv6Addresses [⟨true, false, (hostsFrom 1).map .v6⟩],
          ip.toAddress.isPrivate = false) := by
  obtain ⟨⟨l, p, cs⟩, hsnap⟩ := exists_ok (Agent.localCandidateSnapshot (plainNode (hostsFrom 1)))
    (by decide +kernel)
  have hport : 1 ≤ 51820 ∧ 51820 ≤ 65535 := by omega
  have hlan : (IpAddress.v4 (Fin.ofNat (2 ^ 32) 0xc0a80105)).isPrivate = true := by decide
  have h := own_sync_taken_iff hport hlan
  exact ⟨⟨l, p, cs, hsnap, h.1 _ (hostsFrom 1) l p cs rfl (by decide)
    (addresses_of_hostsFrom (by decide) (by decide)) (Or.inl rfl) hsnap⟩, h.2 _ _⟩

/-- Sixteen addresses are too many for the agent, and one address of `2001:5::/32` for the client. -/
theorem own_sync_refused :
    (∃ l p cs, Agent.localCandidateSnapshot (plainNode (hostsFrom 16)) = .ok (l, p, cs) ∧
      ¬ ∃ r, validateCandidates (.arr (cs.map Candidate.toJson)) false = .ok r) ∧
    Client.isUsableGlobalIPv6 (.v6 (Fin.ofNat _ (0x20010005 * 2 ^ 96 + 1))) = true ∧
    ¬ ∃ r, validateCandidates (.arr ((Client.gatherLocalCandidates 51820 "192.168.1.5".toList
        [⟨true, false, [.v6 (Fin.ofNat _ (0x20010005 * 2 ^ 96 + 1))]⟩] []).map Client.marshal)) false =
      .ok r := by
  obtain ⟨⟨l, p, cs⟩, hsnap⟩ := exists_ok (Agent.localCandidateSnapshot (plainNode (hostsFrom 16)))
    (by decide +kernel)
  refine ⟨⟨l, p, cs, hsnap, fun hok => ?_⟩, by decide, ?_⟩
  · have hlan : (IpAddress.v4 (Fin.ofNat (2 ^ 32) 0xc0a80105)).isPrivate = true := by decide
    have hnodup : (hostsFrom 16).Nodup := by decide
    have hiff := snapshot_taken_iff (by decide) hlan (by decide)
      (addresses_of_hostsFrom hnodup (by decide +kernel)) (Or.inl rfl) hsnap
    have hlen : (hostsFrom 16).length = 16 := by simp [hostsFrom]
    have hbound := (hiff.mp hok).2
    rw [hlen, maxCandidates] at hbound
    omega
  · rintro ⟨r, hr⟩
    have hbad : (validateCandidates (.arr ((Client.gatherLocalCandidates 51820 "192.168.1.5".toList
        [⟨true, false, [.v6 (Fin.ofNat _ (0x20010005 * 2 ^ 96 + 1))]⟩] []).map Client.marshal))
          false).toBool = false := by decide +kernel
    rw [hr] at hbad
    cases hbad

end Coordinator
