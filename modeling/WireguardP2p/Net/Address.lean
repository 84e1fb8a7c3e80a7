import Mathlib

/-! IP addresses as `ipaddress` objects: an IPv4 address is a 32-bit number, an IPv6 address a
    128-bit number with an optional zone identifier. The special-use predicates are decided on the
    number, by the network tables of the standard library (Python 3.11); an IPv4-mapped IPv6 address
    takes `is_private` from the IPv4 address inside it. -/

namespace Ipaddress

/-- Python text: a sequence of code points. -/
abbrev Text := List Char

instance lawfulText : LawfulBEq Text := inferInstance

instance neZero32 : NeZero (2 ^ 32) := inferInstance

instance neZero128 : NeZero (2 ^ 128) := inferInstance

/-- A zone identifier: nonempty, without `%` and `/`. -/
abbrev Scope := { t : Text // t ≠ [] ∧ '%' ∉ t ∧ '/' ∉ t }

/-- `IPv4Address` or `IPv6Address`. -/
inductive IpAddress
  | v4 (ip : Fin (2 ^ 32))
  | v6 (ip : Fin (2 ^ 128)) (scope : Option Scope)
  deriving DecidableEq

/-- A network of `bits`-bit addresses. -/
structure Network (bits : ℕ) where
  base : ℕ
  prefixlen : ℕ

/-- `address in network`: the bits above the host part agree. -/
def Network.contains {bits : ℕ} (n : Network bits) (ip : ℕ) : Bool :=
  ip / 2 ^ (bits - n.prefixlen) == n.base / 2 ^ (bits - n.prefixlen)

/-- Base `b` digits, most significant first. -/
def ofDigits (b : ℕ) (ds : List ℕ) : ℕ := ds.foldl (fun acc d => acc * b + d) 0

def net4 (octets : List ℕ) (prefixlen : ℕ) : Network 32 := ⟨ofDigits (2 ^ 8) octets, prefixlen⟩

/-- The leading hextets; the others are zero. -/
def net6 (hextets : List ℕ) (prefixlen : ℕ) : Network 128 :=
  ⟨ofDigits (2 ^ 16) (hextets ++ List.replicate (8 - hextets.length) 0), prefixlen⟩

def privateNetworks4 : List (Network 32) :=
  [net4 [0, 0, 0, 0] 8, net4 [10, 0, 0, 0] 8, net4 [127, 0, 0, 0] 8, net4 [169, 254, 0, 0] 16,
   net4 [172, 16, 0, 0] 12, net4 [192, 0, 0, 0] 24, net4 [192, 0, 0, 170] 31,
   net4 [192, 0, 2, 0] 24, net4 [192, 168, 0, 0] 16, net4 [198, 18, 0, 0] 15,
   net4 [198, 51, 100, 0] 24, net4 [203, 0, 113, 0] 24, net4 [240, 0, 0, 0] 4,
   net4 [255, 255, 255, 255] 32]

def privateExceptions4 : List (Network 32) :=
  [net4 [192, 0, 0, 9] 32, net4 [192, 0, 0, 10] 32]

def privateNetworks6 : List (Network 128) :=
  [net6 [0, 0, 0, 0, 0, 0, 0, 1] 128, net6 [] 128, net6 [0, 0, 0, 0, 0, 0xffff] 96,
   net6 [0x64, 0xff9b, 1] 48, net6 [0x100] 64, net6 [0x2001] 23, net6 [0x2001, 0xdb8] 32,
   net6 [0x2002] 16, net6 [0xfc00] 7, net6 [0xfe80] 10]

def privateExceptions6 : List (Network 128) :=
  [net6 [0x2001, 1, 0, 0, 0, 0, 0, 1] 128, net6 [0x2001, 1, 0, 0, 0, 0, 0, 2] 128,
   net6 [0x2001, 3] 32, net6 [0x2001, 4, 0x112] 48, net6 [0x2001, 0x20] 28,
   net6 [0x2001, 0x30] 28]

def isPrivate4 (ip : ℕ) : Bool :=
  privateNetworks4.any (·.contains ip) && privateExceptions4.all fun n => !n.contains ip

/-- The shared address space `100.64.0.0/10` is neither private nor global. -/
def isGlobal4 (ip : ℕ) : Bool :=
  !(net4 [100, 64, 0, 0] 10).contains ip && !isPrivate4 ip

/-- `ipv4_mapped`: the IPv4 address inside `::ffff:0:0/96`. -/
def ipv4Mapped (ip : ℕ) : Option ℕ := if ip / 2 ^ 32 = 0xffff then some (ip % 2 ^ 32) else none

def isPrivate6 (ip : ℕ) : Bool :=
  match ipv4Mapped ip with
  | some v4 => isPrivate4 v4
  | none =>
    privateNetworks6.any (·.contains ip) && privateExceptions6.all fun n => !n.contains ip

namespace IpAddress

/-- `version`. -/
def version : IpAddress → ℕ
  | v4 _ => 4
  | v6 _ _ => 6

/-- The address as a number. -/
def toNat : IpAddress → ℕ
  | v4 ip => ip
  | v6 ip _ => ip

def isPrivate : IpAddress → Bool
  | v4 ip => isPrivate4 ip
  | v6 ip _ => isPrivate6 ip

def isGlobal : IpAddress → Bool
  | v4 ip => isGlobal4 ip
  | v6 ip _ => !isPrivate6 ip

def isMulticast : IpAddress → Bool
  | v4 ip => (net4 [224, 0, 0, 0] 4).contains ip
  | v6 ip _ => (net6 [0xff00] 8).contains ip

def isUnspecified : IpAddress → Bool
  | v4 ip => ip.val == 0
  | v6 ip _ => ip.val == 0

def isLinkLocal : IpAddress → Bool
  | v4 ip => (net4 [169, 254, 0, 0] 16).contains ip
  | v6 ip _ => (net6 [0xfe80] 10).contains ip

def isLoopback : IpAddress → Bool
  | v4 ip => (net4 [127, 0, 0, 0] 8).contains ip
  | v6 ip _ => ip.val == 1

@[simp] theorem version_v4 (ip : Fin (2 ^ 32)) : (v4 ip).version = 4 := rfl
@[simp] theorem version_v6 (ip : Fin (2 ^ 128)) (s : Option Scope) : (v6 ip s).version = 6 := rfl

theorem version_eq_four {a : IpAddress} : a.version = 4 ↔ ∃ ip, a = v4 ip := by
  cases a <;> simp [version]

theorem version_eq_six {a : IpAddress} : a.version = 6 ↔ ∃ ip s, a = v6 ip s := by
  cases a <;> simp [version]

theorem isGlobal_v6 (ip : Fin (2 ^ 128)) (s : Option Scope) :
    (v6 ip s).isGlobal = !(v6 ip s).isPrivate := rfl

theorem not_isPrivate_of_isGlobal {a : IpAddress} (h : a.isGlobal = true) :
    a.isPrivate = false := by
  cases a with
  | v4 ip => simp_all [isGlobal, isGlobal4, isPrivate]
  | v6 ip s => simpa [isGlobal, isPrivate] using h

end IpAddress

/-- No private IPv4 network meets the multicast block. -/
theorem IpAddress.not_isMulticast_of_isPrivate {a : IpAddress} (h4 : a.version = 4)
    (h : a.isPrivate = true) : a.isMulticast = false := by
  obtain ⟨ip, rfl⟩ := version_eq_four.mp h4
  rw [isPrivate, isPrivate4, Bool.and_eq_true] at h
  have hany := h.1
  by_contra hmulti
  simp only [isMulticast, Network.contains, net4, ofDigits] at hmulti
  simp [privateNetworks4, Network.contains, net4, ofDigits] at hany hmulti
  omega

/-- The link-local block is private, and no exception of the private blocks meets it. -/
theorem IpAddress.not_isLinkLocal_of_not_isPrivate {ip : Fin (2 ^ 128)} {s : Option Scope}
    (h : (v6 ip s).isPrivate = false) : (v6 ip s).isLinkLocal = false := by
  by_contra hlocal
  have hlocal' : ip.val / 2 ^ 118 = 0x3fa := by
    simpa [isLinkLocal, Network.contains, net6, ofDigits] using hlocal
  have hmapped : ipv4Mapped ip = none := by
    rw [ipv4Mapped, if_neg (by omega)]
  have hany : privateNetworks6.any (·.contains ip) = true :=
    List.any_eq_true.mpr ⟨net6 [0xfe80] 10, by simp [privateNetworks6], by simpa [isLinkLocal] using hlocal⟩
  have hexcept : privateExceptions6.all (fun n => !n.contains ip) = true := by
    simp [privateExceptions6, Network.contains, net6, ofDigits]
    omega
  simp [isPrivate, isPrivate6, hmapped, hany, hexcept] at h

theorem contains_iff {bits : ℕ} (n : Network bits) (ip : ℕ) :
    n.contains ip = true ↔ ip / 2 ^ (bits - n.prefixlen) = n.base / 2 ^ (bits - n.prefixlen) := by
  simp [Network.contains]

/-- A network is the interval of addresses that share its prefix. -/
theorem contains_iff_interval {bits : ℕ} (n : Network bits) (ip : ℕ) :
    n.contains ip = true ↔
      n.base / 2 ^ (bits - n.prefixlen) * 2 ^ (bits - n.prefixlen) ≤ ip ∧
        ip < (n.base / 2 ^ (bits - n.prefixlen) + 1) * 2 ^ (bits - n.prefixlen) := by
  have hpos : 0 < 2 ^ (bits - n.prefixlen) := Nat.two_pow_pos _
  rw [contains_iff, Nat.div_eq_iff hpos]
  constructor <;> rintro ⟨h, h'⟩ <;> refine ⟨by omega, ?_⟩ <;> rw [Nat.succ_mul] at * <;> omega

end Ipaddress
