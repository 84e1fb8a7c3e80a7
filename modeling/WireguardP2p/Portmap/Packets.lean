import WireguardP2p.Portmap.Mapper

/-! `portmap.py`: the PCP and NAT-PMP packets. A read outside a packet is an error of its own, so that a
    parser that makes none is seen to stay inside. -/

namespace Portmap
open Ipaddress Python Net

/-- `bytes`. -/
abbrev Packet := List UInt8

/-- What a parser can raise. -/
inductive Fault
  | raised (e : Raised)
  | indexError
  | structError
  deriving DecidableEq

/-- `ValueError` or `RuntimeError`. -/
def Fault.expected : Fault → Bool
  | raised (.runtimeError _) => true
  | raised e => e.isValueError
  | _ => false

@[simp] theorem ok_bind {α β : Type} (a : α) (f : α → Except Fault β) : (Except.ok a >>= f) = f a := rfl

/-! ### `struct` and slices -/

/-- The number of `k` bytes, the highest first. -/
def bytesBE (k n : ℕ) : Packet := (toDigitsBE 8 k n).map UInt8.ofNat

/-- `int.from_bytes(b, "big")`. -/
def numberBE (b : Packet) : ℕ := ofDigits (2 ^ 8) (b.map UInt8.toNat)

/-- `struct.pack` of one unsigned number of `k` bytes. -/
def pack (k : ℕ) (n : ℤ) : Except Fault Packet :=
  if 0 ≤ n ∧ n < 2 ^ (8 * k) then .ok (bytesBE k n.toNat) else .error .structError

/-- `packet[a:b] = b`. -/
def setSlice (a b : ℕ) (bytes packet : Packet) : Packet := packet.take a ++ bytes ++ packet.drop b

/-- `struct.pack_into` of one unsigned number of `k` bytes. -/
def packInto (k offset : ℕ) (n : ℤ) (packet : Packet) : Except Fault Packet := do
  let bytes ← pack k n
  if packet.length < offset + k then .error .structError else .ok (setSlice offset (offset + k) bytes packet)

/-- `packet[a:b]`. -/
def slice (a b : ℕ) (packet : Packet) : Packet := (packet.take b).drop a

/-- `packet[i]`. -/
def byteAt (i : ℕ) (packet : Packet) : Except Fault UInt8 :=
  match packet[i]? with
  | some b => .ok b
  | none => .error .indexError

/-- `struct.unpack_from` of one unsigned number of `k` bytes. -/
def unpackFrom (k offset : ℕ) (packet : Packet) : Except Fault ℕ :=
  if packet.length < offset + k then .error .structError
  else .ok (numberBE (slice offset (offset + k) packet))

/-- `socket.inet_ntoa`. -/
def inetNtoa (b : Packet) : Except Fault Text :=
  if b.length = 4 then .ok (ipv4Text (numberBE b)) else .error (.raised .osError)

/-- `ipaddress.ip_address` of bytes. -/
def addressOfBytes (b : Packet) : Except Fault IpAddress :=
  if b.length = 4 then .ok (.v4 (Fin.ofNat _ (numberBE b)))
  else if b.length = 16 then .ok (.v6 (Fin.ofNat _ (numberBE b)) none)
  else .error (.raised .builtinValueError)

/-- `address.packed`. -/
def packed : IpAddress → Packet
  | .v4 ip => bytesBE 4 ip
  | .v6 ip _ => bytesBE 16 ip

/-! ### The packets -/

/-- `_public_ipv4`. -/
def publicIpv4 (value : Text) : Bool :=
  match ipAddress value with
  | some address => address.version == 4 && address.isGlobal
  | none => false

/-- `b"\x00" * 10 + b"\xff\xff"`. -/
def mappedPrefix : Packet := List.replicate 10 0 ++ [0xff, 0xff]

/-- `_ipv4_mapped`. -/
def ipv4MappedBytes (address : Text) : Except Fault Packet :=
  match ipAddress address with
  | some a => .ok (mappedPrefix ++ packed a)
  | none => .error (.raised .builtinValueError)

/-- `socket.IPPROTO_UDP`. -/
def ipprotoUdp : UInt8 := 17

/-- `build_pcp_map_request`; `token` is what `secrets.token_bytes(12)` returns. -/
def buildPcpMapRequest (localIp : Text) (internalPort lifetime : ℤ) (nonce : Option Packet) (token : Packet) :
    Except Fault (Packet × Packet) := do
  let nonce := match nonce with
    | some n => if n = [] then token else n
    | none => token
  if nonce.length ≠ 12 then .error (.raised (.valueError "PCP nonce must be 12 bytes"))
  else do
    let packet := (List.replicate 60 (0 : UInt8)).set 0 2
    let packet := packet.set 1 1
    let packet ← packInto 4 4 lifetime packet
    let packet := setSlice 8 24 (← ipv4MappedBytes localIp) packet
    let packet := setSlice 24 36 nonce packet
    let packet := packet.set 36 ipprotoUdp
    let packet ← packInto 2 40 internalPort packet
    let packet ← packInto 2 42 internalPort packet
    .ok (packet, nonce)

/-- The address in a PCP response. -/
def pcpExternalIp (external : Packet) : Except Fault Text :=
  if slice 0 12 external = mappedPrefix then inetNtoa (slice 12 16 external)
  else do
    let address ← addressOfBytes external
    if address.version ≠ 4 then .error (.raised (.valueError "PCP returned non-IPv4 address"))
    else .ok address.compressed

/-- `parse_pcp_map_response`: external IP, external port, lifetime. -/
def parsePcpMapResponse (packet nonce : Packet) (internalPort : ℤ) : Except Fault (Text × ℕ × ℕ) := do
  if packet.length < 60 then .error (.raised (.valueError "invalid PCP MAP response"))
  else if (← byteAt 0 packet) ≠ 2 then .error (.raised (.valueError "invalid PCP MAP response"))
  else if (← byteAt 1 packet) ≠ 0x81 then .error (.raised (.valueError "invalid PCP MAP response"))
  else
    let result ← byteAt 2 packet
    if result ≠ 0 then .error (.raised (.runtimeError ("PCP result " ++ toString result.toNat)))
    else if slice 24 36 packet ≠ nonce then .error (.raised (.valueError "PCP response mismatch"))
    else if (← byteAt 36 packet) ≠ ipprotoUdp then .error (.raised (.valueError "PCP response mismatch"))
    else
      let returnedInternal ← unpackFrom 2 40 packet
      if (returnedInternal : ℤ) ≠ internalPort then
        .error (.raised (.valueError "PCP internal port mismatch"))
      else
        let lifetime ← unpackFrom 4 4 packet
        let externalPort ← unpackFrom 2 42 packet
        let externalIp ← pcpExternalIp (slice 44 60 packet)
        if !publicIpv4 externalIp || externalPort == 0 then
          .error (.raised (.valueError "PCP returned non-public mapping"))
        else .ok (externalIp, externalPort, lifetime)

/-- `build_natpmp_map_request`. -/
def buildNatpmpMapRequest (internalPort lifetime : ℤ) : Except Fault Packet := do
  let head : Packet := [0, 1] ++ (← pack 2 0)
  let ports := (← pack 2 internalPort) ++ (← pack 2 internalPort)
  .ok (head ++ ports ++ (← pack 4 lifetime))

/-- `parse_natpmp_public_response`. -/
def parseNatpmpPublicResponse (packet : Packet) : Except Fault Text := do
  if packet.length < 12 then .error (.raised (.valueError "invalid NAT-PMP public address response"))
  else if (← byteAt 0 packet) ≠ 0 then .error (.raised (.valueError "invalid NAT-PMP public address response"))
  else if (← byteAt 1 packet) ≠ 128 then .error (.raised (.valueError "invalid NAT-PMP public address response"))
  else
    let result ← unpackFrom 2 2 packet
    if result ≠ 0 then .error (.raised (.runtimeError ("NAT-PMP public result " ++ toString result)))
    else
      let address ← inetNtoa (slice 8 12 packet)
      if !publicIpv4 address then .error (.raised (.valueError "NAT-PMP returned non-public address"))
      else .ok address

/-- `parse_natpmp_map_response`: external port, lifetime. -/
def parseNatpmpMapResponse (packet : Packet) (internalPort : ℤ) : Except Fault (ℕ × ℕ) := do
  if packet.length < 16 then .error (.raised (.valueError "invalid NAT-PMP mapping response"))
  else if (← byteAt 0 packet) ≠ 0 then .error (.raised (.valueError "invalid NAT-PMP mapping response"))
  else if (← byteAt 1 packet) ≠ 129 then .error (.raised (.valueError "invalid NAT-PMP mapping response"))
  else
    let result ← unpackFrom 2 2 packet
    if result ≠ 0 then .error (.raised (.runtimeError ("NAT-PMP map result " ++ toString result)))
    else
      let returnedInternal ← unpackFrom 2 8 packet
      let externalPort ← unpackFrom 2 10 packet
      let lifetime ← unpackFrom 4 12 packet
      if (returnedInternal : ℤ) ≠ internalPort ∨ externalPort = 0 then
        .error (.raised (.valueError "NAT-PMP mapping mismatch"))
      else .ok (externalPort, lifetime)

/-! ### Responses as the two protocols lay them out -/

/-- A mapping a router grants. -/
structure GrantedMapping where
  external : Fin (2 ^ 32)
  externalPort : ℕ
  lifetime : ℕ
  public_external : (IpAddress.v4 external).isGlobal = true
  port_range : 1 ≤ externalPort ∧ externalPort < 2 ^ 16
  lifetime_lt : lifetime < 2 ^ 32

/-- A successful PCP MAP response to a request: version, response bit and opcode, a reserved byte, the
    result code, lifetime, epoch and twelve reserved bytes; then the nonce, the protocol, three reserved
    bytes, both ports and the address, and the options. -/
def pcpMapResponse (request : Packet) (g : GrantedMapping) (epoch : ℕ) (options : Packet) : Packet :=
  [2, 0x81, 0, 0] ++ bytesBE 4 g.lifetime ++ bytesBE 4 epoch ++ List.replicate 12 0 ++ slice 24 36 request ++
    slice 36 37 request ++ List.replicate 3 0 ++ slice 40 42 request ++ bytesBE 2 g.externalPort ++
      (mappedPrefix ++ bytesBE 4 g.external) ++ options

/-- A successful NAT-PMP public address response: version, opcode, result code, epoch, address. -/
def natpmpPublicResponse (g : GrantedMapping) (epoch : ℕ) : Packet :=
  [0, 128, 0, 0] ++ bytesBE 4 epoch ++ bytesBE 4 g.external

/-- A successful NAT-PMP mapping response to a request: version, opcode, result code, epoch, internal port,
    external port, lifetime. -/
def natpmpMapResponse (request : Packet) (g : GrantedMapping) (epoch : ℕ) : Packet :=
  [0, 129, 0, 0] ++ bytesBE 4 epoch ++ slice 4 6 request ++ bytesBE 2 g.externalPort ++ bytesBE 4 g.lifetime

/-! ### Reading back numbers -/

theorem length_bytesBE (k n : ℕ) : (bytesBE k n).length = k := by
  simp [bytesBE, toDigitsBE]

theorem numberBE_bytesBE {k n : ℕ} (h : n < 2 ^ (8 * k)) : numberBE (bytesBE k n) = n := by
  have hdigits : (bytesBE k n).map UInt8.toNat = toDigitsBE 8 k n := by
    rw [bytesBE, List.map_map]
    refine (List.map_congr_left fun d hd => ?_).trans (List.map_id _)
    exact Nat.mod_eq_of_lt (lt_of_mem_toDigitsBE hd)
  rw [numberBE, hdigits, ofDigits_toDigitsBE h]

theorem pack_ok {k n : ℕ} (h : n < 2 ^ (8 * k)) : pack k n = .ok (bytesBE k n) := by
  have hrange : (0 : ℤ) ≤ n ∧ (n : ℤ) < 2 ^ (8 * k) := ⟨by positivity, by exact_mod_cast h⟩
  rw [pack, if_pos hrange, Int.toNat_natCast]

/-- A printed public address is public. -/
theorem publicIpv4_text (g : GrantedMapping) : publicIpv4 (ipv4Text g.external) = true := by
  have hread : ipAddress (ipv4Text g.external) = some (.v4 g.external) := ipAddress_compressed (.v4 g.external)
  rw [publicIpv4, hread]
  simpa using g.public_external

theorem inetNtoa_bytesBE (ip : Fin (2 ^ 32)) : inetNtoa (bytesBE 4 ip) = .ok (ipv4Text ip) := by
  rw [inetNtoa, if_pos (length_bytesBE 4 ip), numberBE_bytesBE ip.2]

/-- A list of twelve bytes, byte by byte. -/
theorem exists_twelve {n : Packet} (h : n.length = 12) : ∃ a b c d e f g i j k l m : UInt8,
    n = [a, b, c, d, e, f, g, i, j, k, l, m] := by
  match n, h with
  | [a, b, c, d, e, f, g, i, j, k, l, m], _ => exact ⟨a, b, c, d, e, f, g, i, j, k, l, m, rfl⟩

/-! ### Slices -/

section Slices
variable {a b c d : ℕ} {v p : Packet}

theorem getElem?_slice (i : ℕ) : (slice a b p)[i]? = if a + i < b then p[a + i]? else none := by
  rw [slice, List.getElem?_drop, List.getElem?_take]

theorem getElem?_setSlice (hv : a + v.length = b) (hb : b ≤ p.length) (i : ℕ) :
    (setSlice a b v p)[i]? = if i < a then p[i]? else if i < b then v[i - a]? else p[i]? := by
  have htake : (p.take a).length = a := by rw [List.length_take, min_eq_left (by omega)]
  rw [setSlice, List.append_assoc, List.getElem?_append, List.getElem?_append, htake, List.getElem?_take,
    List.getElem?_drop]
  split_ifs with h h' h'' h''
  · rfl
  · rfl
  · omega
  · omega
  · rw [show b + (i - a - v.length) = i by omega]

theorem length_setSlice (hv : a + v.length = b) (hb : b ≤ p.length) : (setSlice a b v p).length = p.length := by
  simp only [setSlice, List.length_append, List.length_take, List.length_drop]
  omega

theorem slice_setSlice_self (hv : a + v.length = b) (hb : b ≤ p.length) : slice a b (setSlice a b v p) = v := by
  apply List.ext_getElem?
  intro i
  rw [getElem?_slice, getElem?_setSlice hv hb]
  split_ifs with h h' <;> first | omega | skip
  · rw [Nat.add_sub_cancel_left]
  · exact (List.getElem?_eq_none (by omega)).symm

/-- A slice that is not written to. -/
theorem slice_setSlice (hv : a + v.length = b) (hb : b ≤ p.length) (h : d ≤ a ∨ b ≤ c) :
    slice c d (setSlice a b v p) = slice c d p := by
  apply List.ext_getElem?
  intro i
  rw [getElem?_slice, getElem?_slice, getElem?_setSlice hv hb]
  split_ifs <;> first | omega | rfl

/-- One byte is a slice of length one. -/
theorem set_eq_setSlice {x : UInt8} (h : a < p.length) : p.set a x = setSlice a (a + 1) [x] p := by
  rw [setSlice, List.set_eq_take_append_cons_drop, if_pos h, List.append_assoc, List.singleton_append]

theorem packInto_ok {k n : ℕ} (hn : n < 2 ^ (8 * k)) (hp : a + k ≤ p.length) :
    packInto k a n p = .ok (setSlice a (a + k) (bytesBE k n) p) := by
  rw [packInto, pack_ok hn]
  show (if p.length < a + k then _ else _) = _
  rw [if_neg (by omega)]

end Slices

/-! ### Requests -/

/-- What a PCP request says in the places a response copies. -/
theorem buildPcpMapRequest_ok (ip : Fin (2 ^ 32)) {port lifetime : ℕ} (hport : port < 2 ^ 16)
    (hlifetime : lifetime < 2 ^ 32) {nonce : Packet} (hnonce : nonce.length = 12) (token : Packet) :
    ∃ request, buildPcpMapRequest (ipv4Text ip) port lifetime (some nonce) token = .ok (request, nonce) ∧
      slice 24 36 request = nonce ∧ slice 36 37 request = [ipprotoUdp] ∧
        slice 40 42 request = bytesBE 2 port := by
  have hne : nonce ≠ [] := by
    rintro rfl
    cases hnonce
  have hip : ipv4MappedBytes (ipv4Text ip) = .ok (mappedPrefix ++ bytesBE 4 ip) := by
    have hread : ipAddress (ipv4Text ip) = some (.v4 ip) := ipAddress_compressed (.v4 ip)
    rw [ipv4MappedBytes, hread]
    rfl
  have hmapped : (mappedPrefix ++ bytesBE 4 (ip : ℕ)).length = 16 := by
    rw [List.length_append, length_bytesBE]
    rfl
  -- every write replaces a slice by one of the same length, so the packet keeps its sixty bytes
  obtain ⟨p₀, hp₀, h₀⟩ : ∃ p : Packet, ((List.replicate 60 (0 : UInt8)).set 0 2).set 1 1 = p ∧ p.length = 60 :=
    ⟨_, rfl, by simp⟩
  obtain ⟨p₁, hp₁⟩ : ∃ p, setSlice 4 8 (bytesBE 4 lifetime) p₀ = p := ⟨_, rfl⟩
  obtain ⟨p₂, hp₂⟩ : ∃ p, setSlice 8 24 (mappedPrefix ++ bytesBE 4 ip) p₁ = p := ⟨_, rfl⟩
  obtain ⟨p₃, hp₃⟩ : ∃ p, setSlice 24 36 nonce p₂ = p := ⟨_, rfl⟩
  obtain ⟨p₄, hp₄⟩ : ∃ p, setSlice 36 37 [ipprotoUdp] p₃ = p := ⟨_, rfl⟩
  obtain ⟨p₅, hp₅⟩ : ∃ p, setSlice 40 42 (bytesBE 2 port) p₄ = p := ⟨_, rfl⟩
  have hbytes : (bytesBE 4 lifetime).length = 4 := length_bytesBE 4 lifetime
  have hports : (bytesBE 2 port).length = 2 := length_bytesBE 2 port
  have hudp : [ipprotoUdp].length = 1 := rfl
  have h₁ : p₁.length = 60 := by rw [← hp₁, length_setSlice (by omega) (by omega), h₀]
  have h₂ : p₂.length = 60 := by rw [← hp₂, length_setSlice (by omega) (by omega), h₁]
  have h₃ : p₃.length = 60 := by rw [← hp₃, length_setSlice (by omega) (by omega), h₂]
  have h₄ : p₄.length = 60 := by rw [← hp₄, length_setSlice (by omega) (by omega), h₃]
  have h₅ : p₅.length = 60 := by rw [← hp₅, length_setSlice (by omega) (by omega), h₄]
  refine ⟨setSlice 42 44 (bytesBE 2 port) p₅, ?_, ?_, ?_, ?_⟩
  · have hlifetimeWrite : packInto 4 4 lifetime p₀ = .ok p₁ := hp₁ ▸ packInto_ok hlifetime (by omega)
    have hudpWrite : p₃.set 36 ipprotoUdp = p₄ := hp₄ ▸ set_eq_setSlice (by omega)
    have hportWrite : packInto 2 40 port p₄ = .ok p₅ := hp₅ ▸ packInto_ok hport (by omega)
    have hlastWrite : packInto 2 42 port p₅ = .ok (setSlice 42 44 (bytesBE 2 port) p₅) :=
      packInto_ok hport (by omega)
    rw [buildPcpMapRequest, if_neg hne, if_neg (not_not.mpr hnonce)]
    dsimp only
    rw [hp₀, hlifetimeWrite, ok_bind, hip, ok_bind]
    rw [hp₂, hp₃, hudpWrite, hportWrite, ok_bind, hlastWrite, ok_bind]
  · rw [slice_setSlice (by omega) (by omega) (by omega), ← hp₅, slice_setSlice (by omega) (by omega) (by omega),
      ← hp₄, slice_setSlice (by omega) (by omega) (by omega), ← hp₃, slice_setSlice_self (by omega) (by omega)]
  · rw [slice_setSlice (by omega) (by omega) (by omega), ← hp₅, slice_setSlice (by omega) (by omega) (by omega),
      ← hp₄, slice_setSlice_self (by omega) (by omega)]
  · rw [slice_setSlice (by omega) (by omega) (by omega), ← hp₅, slice_setSlice_self (by omega) (by omega)]

/-- A NAT-PMP request, and the place a response copies. -/
theorem buildNatpmpMapRequest_ok {port lifetime : ℕ} (hport : port < 2 ^ 16) (hlifetime : lifetime < 2 ^ 32) :
    ∃ request, buildNatpmpMapRequest port lifetime = .ok request ∧ slice 4 6 request = bytesBE 2 port := by
  refine ⟨[0, 1] ++ bytesBE 2 0 ++ (bytesBE 2 port ++ bytesBE 2 port) ++ bytesBE 4 lifetime, ?_, rfl⟩
  have hzero : pack 2 0 = .ok (bytesBE 2 0) := pack_ok (by norm_num)
  have hports : pack 2 port = .ok (bytesBE 2 port) := pack_ok hport
  have hbytes : pack 4 lifetime = .ok (bytesBE 4 lifetime) := pack_ok hlifetime
  rw [buildNatpmpMapRequest, hzero, ok_bind, hports, ok_bind, ok_bind, hbytes, ok_bind]

/-! ### Responses -/

theorem unpackFrom_ok {k offset n : ℕ} {packet : Packet} (hlen : offset + k ≤ packet.length)
    (hslice : slice offset (offset + k) packet = bytesBE k n) (hn : n < 2 ^ (8 * k)) :
    unpackFrom k offset packet = .ok n := by
  rw [unpackFrom, if_neg (by omega), hslice, numberBE_bytesBE hn]

/-- A response to a request is parsed to what was granted. -/
theorem parse_pcpMapResponse (g : GrantedMapping) {request nonce : Packet} (hnonce : nonce.length = 12) {port : ℕ}
    (hport : port < 2 ^ 16) (hn : slice 24 36 request = nonce) (hp : slice 36 37 request = [ipprotoUdp])
    (hi : slice 40 42 request = bytesBE 2 port) (epoch : ℕ) (options : Packet) :
    parsePcpMapResponse (pcpMapResponse request g epoch options) nonce port =
      .ok (ipv4Text g.external, g.externalPort, g.lifetime) := by
  rw [pcpMapResponse, hn, hp, hi]
  obtain ⟨a, b, c, d, e, f, h, i, j, k, l, m, rfl⟩ := exists_twelve hnonce
  generalize hpacket : ([2, 0x81, 0, 0] ++ bytesBE 4 g.lifetime ++ bytesBE 4 epoch ++ List.replicate 12 0 ++
    [a, b, c, d, e, f, h, i, j, k, l, m] ++ [ipprotoUdp] ++ List.replicate 3 0 ++ bytesBE 2 port ++
      bytesBE 2 g.externalPort ++ (mappedPrefix ++ bytesBE 4 g.external) ++ options : Packet) = packet
  have hlen : 60 ≤ packet.length := by
    rw [← hpacket]
    simp only [List.length_append, length_bytesBE, List.length_replicate, mappedPrefix, List.length_cons,
      List.length_nil]
    omega
  have h0 : byteAt 0 packet = .ok 2 := by rw [← hpacket]; rfl
  have h1 : byteAt 1 packet = .ok 0x81 := by rw [← hpacket]; rfl
  have h2 : byteAt 2 packet = .ok 0 := by rw [← hpacket]; rfl
  have hnonce' : slice 24 36 packet = [a, b, c, d, e, f, h, i, j, k, l, m] := by rw [← hpacket]; rfl
  have hproto : byteAt 36 packet = .ok ipprotoUdp := by rw [← hpacket]; rfl
  have hinternal : unpackFrom 2 40 packet = .ok port := unpackFrom_ok (by omega) (by rw [← hpacket]; rfl) hport
  have hlifetime : unpackFrom 4 4 packet = .ok g.lifetime :=
    unpackFrom_ok (by omega) (by rw [← hpacket]; rfl) g.lifetime_lt
  have hexternal : unpackFrom 2 42 packet = .ok g.externalPort :=
    unpackFrom_ok (by omega) (by rw [← hpacket]; rfl) g.port_range.2
  have haddress : pcpExternalIp (slice 44 60 packet) = .ok (ipv4Text g.external) := by
    have hraw : slice 44 60 packet = mappedPrefix ++ bytesBE 4 g.external := by rw [← hpacket]; rfl
    have hprefix : slice 0 12 (mappedPrefix ++ bytesBE 4 g.external) = mappedPrefix := rfl
    have hrest : slice 12 16 (mappedPrefix ++ bytesBE 4 g.external) = bytesBE 4 g.external := rfl
    rw [hraw, pcpExternalIp, if_pos hprefix, hrest, inetNtoa_bytesBE]
  have hpublic := publicIpv4_text g
  have hpos : (g.externalPort == 0) = false := by
    have := g.port_range.1
    rw [beq_eq_false_iff_ne]
    omega
  simp only [parsePcpMapResponse, if_neg (show ¬ packet.length < 60 by omega), h0, h1, h2, hnonce', hproto,
    hinternal, hlifetime, hexternal, haddress, hpublic, hpos, ok_bind, ne_eq, not_true_eq_false,
    if_false, Bool.not_true, Bool.or_false, Bool.false_eq_true]

theorem parse_natpmpPublicResponse (g : GrantedMapping) (epoch : ℕ) :
    parseNatpmpPublicResponse (natpmpPublicResponse g epoch) = .ok (ipv4Text g.external) := by
  generalize hpacket : natpmpPublicResponse g epoch = packet
  have hlen : packet.length = 12 := by
    rw [← hpacket, natpmpPublicResponse]
    simp only [List.length_append, length_bytesBE, List.length_cons, List.length_nil]
  have h0 : byteAt 0 packet = .ok 0 := by rw [← hpacket]; rfl
  have h1 : byteAt 1 packet = .ok 128 := by rw [← hpacket]; rfl
  have hresult : unpackFrom 2 2 packet = .ok 0 := unpackFrom_ok (by omega) (by rw [← hpacket]; rfl) (by norm_num)
  have haddress : slice 8 12 packet = bytesBE 4 g.external := by rw [← hpacket]; rfl
  have hpublic := publicIpv4_text g
  rw [parseNatpmpPublicResponse, if_neg (by omega), h0, ok_bind, if_neg (by simp), h1, ok_bind,
    if_neg (by simp), hresult, ok_bind, if_neg (by simp), haddress, inetNtoa_bytesBE, ok_bind, hpublic]
  rfl

theorem parse_natpmpMapResponse (g : GrantedMapping) {request : Packet} {port : ℕ} (hport : port < 2 ^ 16)
    (hi : slice 4 6 request = bytesBE 2 port) (epoch : ℕ) :
    parseNatpmpMapResponse (natpmpMapResponse request g epoch) port = .ok (g.externalPort, g.lifetime) := by
  rw [natpmpMapResponse, hi]
  generalize hpacket : ([0, 129, 0, 0] ++ bytesBE 4 epoch ++ bytesBE 2 port ++ bytesBE 2 g.externalPort ++
    bytesBE 4 g.lifetime : Packet) = packet
  have hlen : packet.length = 16 := by
    rw [← hpacket]
    simp only [List.length_append, length_bytesBE, List.length_cons, List.length_nil]
  have h0 : byteAt 0 packet = .ok 0 := by rw [← hpacket]; rfl
  have h1 : byteAt 1 packet = .ok 129 := by rw [← hpacket]; rfl
  have hresult : unpackFrom 2 2 packet = .ok 0 := unpackFrom_ok (by omega) (by rw [← hpacket]; rfl) (by norm_num)
  have hinternal : unpackFrom 2 8 packet = .ok port := unpackFrom_ok (by omega) (by rw [← hpacket]; rfl) hport
  have hexternal : unpackFrom 2 10 packet = .ok g.externalPort :=
    unpackFrom_ok (by omega) (by rw [← hpacket]; rfl) g.port_range.2
  have hlifetime : unpackFrom 4 12 packet = .ok g.lifetime :=
    unpackFrom_ok (by omega) (by rw [← hpacket]; rfl) g.lifetime_lt
  have hpos : ¬ ((port : ℤ) ≠ port ∨ g.externalPort = 0) := by
    have := g.port_range.1
    omega
  rw [parseNatpmpMapResponse, if_neg (by omega), h0, ok_bind, if_neg (by simp), h1, ok_bind,
    if_neg (by simp), hresult, ok_bind, if_neg (by simp), hinternal, ok_bind, hexternal, ok_bind, hlifetime,
    ok_bind, if_neg hpos]

/-! ### Any packet -/

/-- The parser returns a value of which `P` holds, or raises an error that is expected of it. -/
def Sound {α : Type} (P : α → Prop) : Except Fault α → Prop
  | .ok a => P a
  | .error e => e.expected = true

theorem Sound.ite {α : Type} {P : α → Prop} {c : Prop} [Decidable c] {x y : Except Fault α}
    (hx : c → Sound P x) (hy : ¬ c → Sound P y) : Sound P (if c then x else y) := by
  by_cases hc : c
  · rw [if_pos hc]
    exact hx hc
  · rw [if_neg hc]
    exact hy hc

section Sound
variable {packet nonce : Packet} {internalPort : ℤ}

theorem exists_byteAt {i : ℕ} (h : i < packet.length) : ∃ b, byteAt i packet = .ok b := by
  rw [byteAt, List.getElem?_eq_getElem h]
  exact ⟨_, rfl⟩

theorem byteAt_ok {i : ℕ} {b : UInt8} (h : byteAt i packet = .ok b) : packet[i]? = some b := by
  rw [byteAt] at h
  cases hi : packet[i]? with
  | none => simp [hi] at h
  | some c => simpa [hi] using h

theorem exists_unpackFrom {k offset : ℕ} (h : offset + k ≤ packet.length) :
    unpackFrom k offset packet = .ok (numberBE (slice offset (offset + k) packet)) := by
  rw [unpackFrom, if_neg (by omega)]

theorem length_slice {a b : ℕ} (h : b ≤ packet.length) : (slice a b packet).length = b - a := by
  rw [slice, List.length_drop, List.length_take, min_eq_left h]

theorem exists_inetNtoa {b : Packet} (h : b.length = 4) : ∃ t, inetNtoa b = .ok t := by
  rw [inetNtoa, if_pos h]
  exact ⟨_, rfl⟩

/-- Sixteen bytes are an address; if it is no IPv4 address, that is an error of the parser. -/
theorem sound_pcpExternalIp {external : Packet} (h : external.length = 16) :
    Sound (fun _ => True) (pcpExternalIp external) := by
  rw [pcpExternalIp]
  split_ifs
  · obtain ⟨t, ht⟩ := exists_inetNtoa (@length_slice external 12 16 h.ge)
    rw [ht]
    trivial
  · rw [addressOfBytes, if_neg (by omega), if_pos h, ok_bind]
    rfl

/-- A mapping a PCP response stands for: a public address, a port, and the nonce, the protocol and the
    internal port of the request in their places. -/
def PcpMapping (packet nonce : Packet) (internalPort : ℤ) (r : Text × ℕ × ℕ) : Prop :=
  publicIpv4 r.1 = true ∧ r.2.1 ≠ 0 ∧ slice 24 36 packet = nonce ∧ packet[36]? = some ipprotoUdp ∧
    (numberBE (slice 40 42 packet) : ℤ) = internalPort

theorem sound_parsePcpMapResponse :
    Sound (PcpMapping packet nonce internalPort) (parsePcpMapResponse packet nonce internalPort) := by
  refine .ite (fun _ => rfl) fun hlen => ?_
  obtain ⟨b0, h0⟩ := @exists_byteAt packet 0 (by omega)
  obtain ⟨b1, h1⟩ := @exists_byteAt packet 1 (by omega)
  obtain ⟨b2, h2⟩ := @exists_byteAt packet 2 (by omega)
  obtain ⟨b36, h36⟩ := @exists_byteAt packet 36 (by omega)
  rw [h0, ok_bind]
  refine .ite (fun _ => rfl) fun _ => ?_
  rw [h1, ok_bind]
  refine .ite (fun _ => rfl) fun _ => ?_
  rw [h2, ok_bind]
  refine .ite (fun _ => rfl) fun _ => .ite (fun _ => rfl) fun hnonce => ?_
  rw [h36, ok_bind]
  refine .ite (fun _ => rfl) fun hproto => ?_
  rw [exists_unpackFrom (by omega), ok_bind]
  refine .ite (fun _ => rfl) fun hinternal => ?_
  rw [exists_unpackFrom (by omega), ok_bind, exists_unpackFrom (by omega), ok_bind]
  have hexternal := sound_pcpExternalIp (@length_slice packet 44 60 (by omega))
  cases haddress : pcpExternalIp (slice 44 60 packet) with
  | error e =>
    rw [haddress] at hexternal
    exact hexternal
  | ok address =>
    rw [ok_bind]
    refine .ite (fun _ => rfl) fun hmapping => ?_
    rw [Bool.or_eq_true, not_or, Bool.not_eq_true', beq_iff_eq, Bool.not_eq_false] at hmapping
    refine ⟨hmapping.1, hmapping.2, not_not.mp hnonce, ?_, not_not.mp hinternal⟩
    exact byteAt_ok (not_not.mp hproto ▸ h36)

theorem sound_parseNatpmpPublicResponse :
    Sound (fun address => publicIpv4 address = true) (parseNatpmpPublicResponse packet) := by
  refine .ite (fun _ => rfl) fun hlen => ?_
  obtain ⟨b0, h0⟩ := @exists_byteAt packet 0 (by omega)
  obtain ⟨b1, h1⟩ := @exists_byteAt packet 1 (by omega)
  obtain ⟨address, haddress⟩ := exists_inetNtoa (@length_slice packet 8 12 (by omega))
  rw [h0, ok_bind]
  refine .ite (fun _ => rfl) fun _ => ?_
  rw [h1, ok_bind]
  refine .ite (fun _ => rfl) fun _ => ?_
  rw [exists_unpackFrom (by omega), ok_bind]
  refine .ite (fun _ => rfl) fun _ => ?_
  rw [haddress, ok_bind]
  refine .ite (fun _ => rfl) fun hpublic => ?_
  show publicIpv4 address = true
  simpa using hpublic

theorem sound_parseNatpmpMapResponse :
    Sound (fun r => r.1 ≠ 0 ∧ (numberBE (slice 8 10 packet) : ℤ) = internalPort)
      (parseNatpmpMapResponse packet internalPort) := by
  refine .ite (fun _ => rfl) fun hlen => ?_
  obtain ⟨b0, h0⟩ := @exists_byteAt packet 0 (by omega)
  obtain ⟨b1, h1⟩ := @exists_byteAt packet 1 (by omega)
  rw [h0, ok_bind]
  refine .ite (fun _ => rfl) fun _ => ?_
  rw [h1, ok_bind]
  refine .ite (fun _ => rfl) fun _ => ?_
  rw [exists_unpackFrom (by omega), ok_bind]
  refine .ite (fun _ => rfl) fun _ => ?_
  rw [exists_unpackFrom (by omega), ok_bind, exists_unpackFrom (by omega), ok_bind,
    exists_unpackFrom (by omega), ok_bind]
  refine .ite (fun _ => rfl) fun hmapping => ?_
  rw [not_or] at hmapping
  exact ⟨hmapping.2, not_not.mp hmapping.1⟩

end Sound

/-- A successful response to a request is parsed to what was granted, and any packet whatever to a mapping
    of the request or to an error that is expected of a parser. -/
theorem packets_parsed (localIp : Fin (2 ^ 32)) {port : ℕ} (hport : 1 ≤ port ∧ port ≤ 65535)
    {lifetime : ℕ} (hlifetime : lifetime < 2 ^ 32) {nonce : Packet}
    (hnonce : nonce.length = 12) (token : Packet) (g : GrantedMapping) (epoch : ℕ) (options : Packet) :
    (∃ request, buildPcpMapRequest (IpAddress.v4 localIp).compressed port lifetime (some nonce) token =
        .ok (request, nonce) ∧
      parsePcpMapResponse (pcpMapResponse request g epoch options) nonce port =
        .ok ((IpAddress.v4 g.external).compressed, g.externalPort, g.lifetime)) ∧
    (∃ request, buildNatpmpMapRequest port lifetime = .ok request ∧
      parseNatpmpPublicResponse (natpmpPublicResponse g epoch) = .ok (IpAddress.v4 g.external).compressed ∧
      parseNatpmpMapResponse (natpmpMapResponse request g epoch) port = .ok (g.externalPort, g.lifetime)) ∧
    ∀ (packet nonce : Packet) (internalPort : ℤ),
      Sound (PcpMapping packet nonce internalPort) (parsePcpMapResponse packet nonce internalPort) ∧
      Sound (fun address => publicIpv4 address = true) (parseNatpmpPublicResponse packet) ∧
      Sound (fun r => r.1 ≠ 0 ∧ (numberBE (slice 8 10 packet) : ℤ) = internalPort)
        (parseNatpmpMapResponse packet internalPort) := by
  have hport' : port < 2 ^ 16 := by omega
  refine ⟨?_, ?_, fun packet nonce internalPort =>
    ⟨sound_parsePcpMapResponse, sound_parseNatpmpPublicResponse, sound_parseNatpmpMapResponse⟩⟩
  · obtain ⟨request, hrequest, hn, hp, hi⟩ := buildPcpMapRequest_ok localIp hport' hlifetime hnonce token
    exact ⟨request, hrequest, parse_pcpMapResponse g hnonce hport' hn hp hi epoch options⟩
  · obtain ⟨request, hrequest, hi⟩ := buildNatpmpMapRequest_ok hport' hlifetime
    exact ⟨request, hrequest, parse_natpmpPublicResponse g epoch, parse_natpmpMapResponse g hport' hi epoch⟩

/-- 8.8.8.8 with the port 62000 for an hour. -/
def testGrant : GrantedMapping := ⟨134744072, 62000, 3600, by decide, by decide, by decide⟩

/-- The node 192.168.1.10 asks for a mapping of its port 51820. -/
theorem packets_parsed_test : ∃ request,
    buildPcpMapRequest "192.168.1.10".toList 51820 3600 (some (List.range 12 |>.map UInt8.ofNat)) [] =
      .ok (request, List.range 12 |>.map UInt8.ofNat) ∧
    parsePcpMapResponse (pcpMapResponse request testGrant 0 []) (List.range 12 |>.map UInt8.ofNat) 51820 =
      .ok ("8.8.8.8".toList, 62000, 3600) :=
  (packets_parsed 3232235786 (by decide : 1 ≤ 51820 ∧ 51820 ≤ 65535) (by decide : 3600 < 2 ^ 32)
    (by decide) [] testGrant 0 []).1

end Portmap
