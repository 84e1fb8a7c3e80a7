import Mathlib
import WireguardP2p.Python.Value

/-! `host:port` texts. `candidates.parse_endpoint`, the coordinator's `parse_endpoint` and the agent's
    `validate_endpoint` read an endpoint by the same steps; they differ in what they return. The steps
    are `readEndpoint`, its result is an `Endpoint`, and each of the three is stated in its own module
    from it. Reading back a printed endpoint gives the endpoint. -/

namespace Net
open Ipaddress Python

/-- An address and a port that traffic can be sent to. -/
structure Endpoint where
  address : IpAddress
  port : ℕ
  port_range : 1 ≤ port ∧ port ≤ 65535
  usable : address.isUnspecified = false ∧ address.isMulticast = false
  deriving DecidableEq

/-- Square brackets around an IPv6 address. -/
def formatEndpoint (address : IpAddress) (port : ℕ) : Text :=
  if address.version = 6 then '[' :: address.compressed ++ ']' :: ':' :: Numeral.text 10 port
  else address.compressed ++ ':' :: Numeral.text 10 port

def Endpoint.text (e : Endpoint) : Text := formatEndpoint e.address e.port

/-- `value[1:closing]` and `value[closing + 2:]`; a missing `]` is past the end. -/
def splitBrackets (value : Text) : Except Raised (Text × Text) :=
  let closing := value.idxOf ']'
  if closing ≤ 1 ∨ value[closing + 1]? ≠ some ':' then .error (.valueError "invalid IPv6 endpoint")
  else .ok ((value.take closing).drop 1, value.drop (closing + 2))

/-- `value.rsplit(":", 1)`, on a text with a colon. -/
def rsplitColon (value : Text) : Text × Text :=
  ((value.rdropWhile (· ≠ ':')).dropLast, value.rtakeWhile (· ≠ ':'))

/-- The host part and the port part. -/
def splitHostPort : Json → Except Raised (Text × Text)
  | .str value =>
    if ':' ∉ value then .error (.valueError "invalid endpoint")
    else if value.head? = some '[' then splitBrackets value
    else
      let (host, port) := rsplitColon value
      if ':' ∈ host then .error (.valueError "IPv6 endpoint must use brackets") else .ok (host, port)
  | _ => .error (.valueError "invalid endpoint")

/-- The checks on the parsed parts. -/
def checkEndpoint (address : IpAddress) (port : ℤ) : Except Raised Endpoint :=
  if hport : 1 ≤ port ∧ port ≤ 65535 then
    if husable : address.isUnspecified = false ∧ address.isMulticast = false then
      .ok ⟨address, port.toNat, by omega, husable⟩
    else .error (.valueError "invalid endpoint address")
  else .error (.valueError "invalid endpoint port")

/-- The steps the three readers share. -/
def readEndpoint (value : Json) : Except Raised Endpoint := do
  let (host, portText) ← splitHostPort value
  let address ← toIpAddress (.str host)
  let port ← toInt (.str portText)
  checkEndpoint address port

theorem checkEndpoint_ok {address : IpAddress} {port : ℕ} (hport : 1 ≤ port ∧ port ≤ 65535)
    (husable : address.isUnspecified = false ∧ address.isMulticast = false) :
    checkEndpoint address port = .ok ⟨address, port, hport, husable⟩ := by
  have hport' : (1 : ℤ) ≤ port ∧ (port : ℤ) ≤ 65535 := by omega
  simp [checkEndpoint, hport', husable]

theorem checkEndpoint_unusable {address : IpAddress} {port : ℕ} (hport : 1 ≤ port ∧ port ≤ 65535)
    (hbad : ¬ (address.isUnspecified = false ∧ address.isMulticast = false)) :
    checkEndpoint address port = .error (.valueError "invalid endpoint address") := by
  have hport' : (1 : ℤ) ≤ port ∧ (port : ℤ) ≤ 65535 := by omega
  rw [checkEndpoint, dif_pos hport', dif_neg hbad]

/-! ### Reading back a printed endpoint -/

theorem not_mem_portText {c : Char} (hc : Numeral.digitVal c = none) (port : ℕ) :
    c ∉ Numeral.text 10 port := Numeral.not_mem_text (by norm_num) (by norm_num) port hc

theorem splitHostPort_brackets {host port : Text} (hne : host ≠ []) (hclose : ']' ∉ host) :
    splitHostPort (.str ('[' :: host ++ ']' :: ':' :: port)) = .ok (host, port) := by
  have hidx : ('[' :: host ++ ']' :: ':' :: port).idxOf ']' = host.length + 1 := by
    rw [List.cons_append, List.idxOf_cons_ne _ (by decide), List.idxOf_append_of_notMem hclose,
      List.idxOf_cons_self]
  have hlen : 0 < host.length := List.length_pos_iff.mpr hne
  have hcolon : ('[' :: host ++ ']' :: ':' :: port)[host.length + 1 + 1]? = some ':' := by
    rw [List.cons_append, List.getElem?_cons_succ, List.getElem?_append_right (by omega)]
    simp
  have htake : ('[' :: host ++ ']' :: ':' :: port).take (host.length + 1) = '[' :: host := by simp
  have hdrop : ('[' :: host ++ ']' :: ':' :: port).drop (host.length + 1 + 2) = port := by
    rw [List.cons_append, show host.length + 1 + 2 = (host.length + 2) + 1 by omega,
      List.drop_succ_cons, List.drop_append]
    simp
  rw [splitHostPort, if_neg (by simp), if_pos (by simp), splitBrackets]
  simp only [hidx]
  rw [if_neg (by rw [hcolon]; simp; omega), htake, hdrop]
  rfl

theorem splitHostPort_colon {host port : Text} (hopen : host.head? ≠ some '[') (hhost : ':' ∉ host)
    (hport : ':' ∉ port) : splitHostPort (.str (host ++ ':' :: port)) = .ok (host, port) := by
  have hall : ∀ c ∈ port.reverse, decide (c ≠ ':') = true := fun c hc => by
    rw [decide_eq_true_eq]
    rintro rfl
    exact hport (List.mem_reverse.mp hc)
  have htake : (host ++ ':' :: port).rtakeWhile (· ≠ ':') = port := by
    rw [List.rtakeWhile, List.reverse_append, List.reverse_cons, List.append_assoc,
      List.takeWhile_append_of_pos hall]
    simp
  have hdrop : (host ++ ':' :: port).rdropWhile (· ≠ ':') = host ++ [':'] := by
    rw [List.rdropWhile, List.reverse_append, List.reverse_cons, List.append_assoc,
      List.dropWhile_append_of_pos hall]
    simp
  have hhead : (host ++ ':' :: port).head? ≠ some '[' := by
    cases host with
    | nil => simp
    | cons c cs => simpa using hopen
  rw [splitHostPort, if_neg (by simp), if_neg hhead]
  simp only [rsplitColon, htake, hdrop, List.dropLast_concat, if_neg hhost]

theorem head_ipv4Text (ip : ℕ) : (ipv4Text ip).head? ≠ some '[' := by
  intro h
  have hmem : '[' ∈ ipv4Text ip := by
    cases htext : ipv4Text ip with
    | nil => simp [htext] at h
    | cons c cs => simp_all
  exact not_mem_ipv4Text (by decide) (by decide) ip hmem

theorem compressed_v6_ne_nil (ip : Fin (2 ^ 128)) (s : Option Scope) :
    (IpAddress.v6 ip s).compressed ≠ [] := by
  have hmem := colon_mem_ipv6Text ip
  cases s <;> intro h <;> simp_all [IpAddress.compressed]

/-- The two parts of a printed endpoint. -/
theorem splitHostPort_format {address : IpAddress} (hclose : ']' ∉ address.compressed) (port : ℕ) :
    splitHostPort (.str (formatEndpoint address port)) =
      .ok (address.compressed, Numeral.text 10 port) := by
  cases address with
  | v4 ip =>
    rw [formatEndpoint, if_neg (by simp)]
    exact splitHostPort_colon (head_ipv4Text ip) (not_mem_ipv4Text (by decide) (by decide) ip)
      (not_mem_portText (by decide) port)
  | v6 ip s =>
    rw [formatEndpoint, if_pos (IpAddress.version_v6 ip s)]
    exact splitHostPort_brackets (compressed_v6_ne_nil ip s) hclose

/-- A printed address and port read back as themselves, up to the checks. -/
theorem readEndpoint_format {address : IpAddress} (hclose : ']' ∉ address.compressed) {port : ℕ}
    (hport : port ≤ 65535) :
    readEndpoint (.str (formatEndpoint address port)) = checkEndpoint address port := by
  have haddress : toIpAddress (.str address.compressed) = .ok address := by
    rw [toIpAddress, ipAddress_compressed]
  have hlen : (Numeral.text 10 port).length ≤ 5 :=
    (Numeral.length_text_le (by norm_num) (by norm_num)).mpr (by omega)
  have hint : toInt (.str (Numeral.text 10 port)) = .ok (port : ℤ) := toInt_text (by omega)
  rw [readEndpoint, splitHostPort_format hclose]
  show ((toIpAddress (.str address.compressed)).bind fun address =>
    (toInt (.str (Numeral.text 10 port))).bind fun port => checkEndpoint address port) = _
  rw [haddress, hint]
  rfl

/-! ### The address of an accepted endpoint -/

/-- A host between brackets has no closing bracket; a host before a single colon has no colon. -/
theorem splitHostPort_host {value : Json} {host port : Text}
    (h : splitHostPort value = .ok (host, port)) : ']' ∉ host ∨ ':' ∉ host := by
  cases value with
  | str value =>
    rw [splitHostPort] at h
    split at h
    · cases h
    split at h
    · left
      rw [splitBrackets] at h
      split at h
      · cases h
      · simp only [Except.ok.injEq, Prod.mk.injEq] at h
        obtain ⟨rfl, -⟩ := h
        intro hmem
        have htake := List.mem_of_mem_drop hmem
        have hlt := (List.mem_take_iff_idxOf_lt (List.mem_of_mem_take htake)).mp htake
        omega
    · right
      simp only at h
      split at h
      · cases h
      · rename_i hcolon
        simp only [Except.ok.injEq, Prod.mk.injEq] at h
        exact h.1 ▸ hcolon
  | _ => cases h

theorem formatEndpoint_ne_nil (address : IpAddress) (port : ℕ) : formatEndpoint address port ≠ [] := by
  rw [formatEndpoint]
  split <;> simp

/-- Different addresses print different endpoints. -/
theorem formatEndpoint_injective {a b : IpAddress} (ha : ']' ∉ a.compressed) (hb : ']' ∉ b.compressed)
    {p q : ℕ} (h : formatEndpoint a p = formatEndpoint b q) : a = b := by
  have hsplit := splitHostPort_format ha p
  rw [h, splitHostPort_format hb q, Except.ok.injEq, Prod.mk.injEq] at hsplit
  have hread := ipAddress_compressed b
  rw [hsplit.1, ipAddress_compressed a] at hread
  exact Option.some.inj hread

theorem not_mem_compressed_v4 (ip : Fin (2 ^ 32)) : ']' ∉ (IpAddress.v4 ip).compressed :=
  not_mem_ipv4Text (by decide) (by decide) ip

theorem not_mem_compressed_v6 (ip : Fin (2 ^ 128)) : ']' ∉ (IpAddress.v6 ip none).compressed :=
  not_mem_ipv6Text (by decide) (by decide) ip

/-- The address of an accepted endpoint prints without a closing bracket. -/
theorem not_mem_compressed_of_readEndpoint {value : Json} {e : Endpoint}
    (h : readEndpoint value = .ok e) : ']' ∉ e.address.compressed := by
  rw [readEndpoint] at h
  cases hsplit : splitHostPort value with
  | error err => simp [hsplit, bind, Except.bind] at h
  | ok parts =>
    obtain ⟨host, port⟩ := parts
    cases haddr : ipAddress host with
    | none => simp [hsplit, toIpAddress, haddr, bind, Except.bind] at h
    | some address =>
      have heq : e.address = address := by
        simp only [hsplit, toIpAddress, haddr, bind, Except.bind] at h
        split at h
        · cases h
        · rw [checkEndpoint] at h
          split at h
          · split at h
            · cases h; rfl
            · cases h
          · cases h
      rw [heq]
      cases address with
      | v4 ip => exact not_mem_compressed_v4 ip
      | v6 ip scope =>
        obtain ⟨hcolon, hzone⟩ := mem_of_ipAddress_v6 haddr
        have hclose : ']' ∉ host := (splitHostPort_host hsplit).resolve_right (not_not_intro hcolon)
        cases scope with
        | none => exact not_mem_compressed_v6 ip
        | some z =>
          intro hmem
          rw [IpAddress.compressed, List.mem_append, List.mem_cons] at hmem
          rcases hmem with hmem | hmem | hmem
          · exact not_mem_ipv6Text (by decide) (by decide) ip hmem
          · exact absurd hmem (by decide)
          · exact hclose (hzone z rfl _ hmem)

/-- Reading the normal form of an accepted endpoint gives the endpoint again. -/
theorem readEndpoint_text {value : Json} {e : Endpoint} (h : readEndpoint value = .ok e) :
    readEndpoint (.str e.text) = .ok e := by
  rw [Endpoint.text, readEndpoint_format (not_mem_compressed_of_readEndpoint h) e.port_range.2,
    checkEndpoint_ok e.port_range e.usable]

end Net
