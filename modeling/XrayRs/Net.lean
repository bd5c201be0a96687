import XrayRs.ByteParser
import XrayRs.IpLiteral

/-! # Addresses, destinations and the shared address codec

`kernel/src/net.rs` and the part of `kernel/src/error.rs` its parsers raise.
One codec, parameterised by the address-type bytes (`Family`), the field order
(`PortOrder`) and a mask on the type byte, serves all six protocols.

A parser `fn(&mut Bytes) -> Result<T, Error>` is a `Parser T`; an encoder
`fn(&mut BytesMut, ..) -> Result<(), Error>` returns the bytes it appends. -/

namespace XrayRs

open ByteWords

/-! ## Errors -/

/-- `kernel::Error`, the variants raised while decoding. -/
inductive Error
  | truncated (needed had : Nat)
  | overflow
  | badAddressType (t : UInt8)
  | badDomain
  | protocol (msg : String)
  | auth
  | crypto (msg : String)
  deriving DecidableEq

/-- Whether an error only asks for more bytes. -/
def Error.IsTruncated : Error → Prop
  | .truncated .. => True
  | _ => False

theorem Error.truncated_or (e : Error) : (∃ n m, e = .truncated n m) ∨ ¬ e.IsTruncated := by
  cases e with
  | truncated n m => exact .inl ⟨n, m, rfl⟩
  | _ => exact .inr id

instance : DecidablePred Error.IsTruncated
  | .truncated .. => isTrue trivial
  | .overflow | .badAddressType _ | .badDomain | .protocol _ | .auth | .crypto _ => isFalse id

/-- `io::ErrorKind`, the kinds the data plane raises. -/
inductive ErrorKind
  | invalidData
  | invalidInput
  | unexpectedEof
  | timedOut
  | permissionDenied
  | unsupported
  | other
  deriving DecidableEq

/-- What an `io::Error` carries: a message, or an error of the kernel. -/
inductive ErrorSource
  | msg (text : String)
  | kernel (e : Error)
  deriving DecidableEq

/-- `io::Error`. -/
structure IoError where
  kind : ErrorKind
  source : ErrorSource
  deriving DecidableEq

/-- What `AsyncReadExt::read_exact` fails with when the stream ends before. -/
def earlyEof : IoError := ⟨.unexpectedEof, .msg "early eof"⟩

/-- `io::Error::new(io::ErrorKind::InvalidData, e)`. -/
def IoError.invalidData (e : Error) : IoError := ⟨.invalidData, .kernel e⟩

/-- `io::Error::other(e)`, and `io::Error::from(e)`. -/
def IoError.other (e : Error) : IoError := ⟨.other, .kernel e⟩

/-- A successful sequence is a success of each part. -/
theorem Except.bind_eq_ok {α β ε : Type} {x : Except ε α} {f : α → Except ε β} {b : β}
    (h : x.bind f = .ok b) : ∃ a, x = .ok a ∧ f a = .ok b := by
  cases x with
  | error e => cases h
  | ok a => exact ⟨a, rfl, h⟩

/-! ## Text as bytes -/

/-- `str::as_bytes`. -/
def asBytes (s : String) : Bytes := s.toByteArray.data.toList

/-- `std::str::from_utf8`. -/
def fromUtf8 (bs : Bytes) : Option String := String.fromUTF8? ⟨bs.toArray⟩

@[simp] theorem fromUtf8_asBytes (s : String) : fromUtf8 (asBytes s) = some s := by
  have h : (⟨(asBytes s).toArray⟩ : ByteArray) = s.toByteArray := by
    simp [asBytes]
  rw [fromUtf8, h, String.fromUTF8?, dif_pos s.isValidUTF8]
  rfl

theorem asBytes_of_fromUtf8 {bs : Bytes} {s : String} (h : fromUtf8 bs = some s) :
    asBytes s = bs := by
  unfold fromUtf8 String.fromUTF8? at h
  split at h
  · obtain rfl := Option.some.inj h
    simp [asBytes, String.fromUTF8]
  · cases h

theorem asBytes_ofList (cs : List Char) :
    asBytes (.ofList cs) = cs.flatMap String.utf8EncodeChar := by
  rw [asBytes, String.toByteArray_ofList, List.utf8Encode]
  simp

theorem asBytes_inj {a b : String} : asBytes a = asBytes b ↔ a = b := by
  constructor
  · intro h
    have hread := fromUtf8_asBytes a
    rw [h, fromUtf8_asBytes] at hread
    exact (Option.some.inj hread).symm
  · exact congrArg asBytes

/-! ## Addresses -/

/-- `Network`. -/
inductive Network
  | unknown
  | tcp
  | udp
  | unix
  deriving DecidableEq

/-- `Address`: a resolved IP or an unresolved domain name. -/
inductive Address
  | ip (ip : IpAddr)
  | domain (name : String)
  deriving DecidableEq

/-- `Ipv6Addr::to_ipv4_mapped`: the IPv4 address of `::ffff:a.b.c.d`. -/
def toIpv4Mapped (o : Vector UInt8 16) : Option (Vector UInt8 4) :=
  if o.toList.take 12 = [0, 0, 0, 0, 0, 0, 0, 0, 0, 0, 0xff, 0xff] then
    some #v[o[12], o[13], o[14], o[15]]
  else
    none

/-- `Address::from_ip_bytes`: four or sixteen bytes, a v4-mapped IPv6 address
collapsing to its IPv4 address. -/
def Address.fromIpBytes (bs : Bytes) : Except Error Address :=
  if h : bs.length = 4 then
    .ok (.ip (.v4 ⟨bs.toArray, h⟩))
  else if h : bs.length = 16 then
    match toIpv4Mapped ⟨bs.toArray, h⟩ with
    | some v4 => .ok (.ip (.v4 v4))
    | none => .ok (.ip (.v6 ⟨bs.toArray, h⟩))
  else
    .error (.protocol "invalid IP length")

/-- `s.strip_prefix('[')` followed by `strip_suffix(']')`. -/
def stripBrackets : Bytes → Option Bytes
  | 0x5b :: t => if t.getLast? = some 0x5d then some t.dropLast else none
  | _ => none

/-- `Address::parse`: an IP literal, bare or in brackets, else a domain. -/
def Address.parse (s : String) : Address :=
  match IpLiteral.parseIpAddr (asBytes s) with
  | some literal => .ip literal
  | none =>
    match (stripBrackets (asBytes s)).bind IpLiteral.parseIpAddr with
    | some literal => .ip literal
    | none => .domain s

/-- `Address::is_ip`. -/
def Address.isIp : Address → Bool
  | .ip _ => true
  | .domain _ => false

/-- `Destination`: network, address and port. -/
structure Destination where
  network : Network
  address : Address
  port : UInt16
  deriving DecidableEq

/-- `Destination::tcp`. -/
def Destination.tcp (address : Address) (port : UInt16) : Destination := ⟨.tcp, address, port⟩

/-- `Destination::udp`. -/
def Destination.udp (address : Address) (port : UInt16) : Destination := ⟨.udp, address, port⟩

/-- `Destination::is_valid`. -/
def Destination.isValid (d : Destination) : Bool := d.network ≠ .unknown

/-! ## Field readers -/

/-- A field parser of the kernel: `fn(&mut Bytes) -> Result<T, Error>`. -/
abbrev Parser (α : Type) := ByteParser.Parser Error α

/-- `take_u8`. -/
def takeU8 : Parser UInt8 := fun buf =>
  match buf with
  | [] => .error (.truncated 1 0)
  | b :: rest => .ok (b, rest)

/-- `take`: split off exactly `n` bytes. -/
def take (n : Nat) : Parser Bytes := fun buf =>
  if buf.length < n then .error (.truncated n buf.length)
  else .ok (buf.take n, buf.drop n)

/-- `read_port`: a big-endian port. -/
def readPort : Parser UInt16 := fun buf =>
  match buf with
  | hi :: lo :: rest => .ok (u16OfBe hi lo, rest)
  | _ => .error (.truncated 2 buf.length)

/-! ## The codec -/

/-- `Family`: which address-type byte map to use. -/
inductive Family
  | vlessVmess
  | standard
  deriving DecidableEq

/-- `PortOrder`: whether the port precedes the address on the wire. -/
inductive PortOrder
  | portFirst
  | portLast
  deriving DecidableEq

/-- `Kind`: what an address-type byte announces. -/
inductive Kind
  | ipv4
  | ipv6
  | domain
  deriving DecidableEq

/-- `Family::kind`. -/
def Family.kind : Family → UInt8 → Option Kind
  | .vlessVmess, b =>
    if b = 1 then some .ipv4 else if b = 2 then some .domain else if b = 3 then some .ipv6 else none
  | .standard, b =>
    if b = 1 then some .ipv4 else if b = 3 then some .domain else if b = 4 then some .ipv6 else none

/-- `Family::byte_for`. -/
def Family.byteFor : Family → Address → UInt8
  | .vlessVmess, .ip (.v4 _) => 1
  | .vlessVmess, .domain _ => 2
  | .vlessVmess, .ip (.v6 _) => 3
  | .standard, .ip (.v4 _) => 1
  | .standard, .domain _ => 3
  | .standard, .ip (.v6 _) => 4

/-- `AddrCodec`: the configuration of one call site. -/
structure AddrCodec where
  family : Family
  order : PortOrder
  /-- Mask the type byte with `& 0x0F` before the lookup (Shadowsocks). -/
  mask : Bool
  deriving DecidableEq

/-- `AddrCodec::VLESS`. -/
def AddrCodec.VLESS : AddrCodec := ⟨.vlessVmess, .portFirst, false⟩
/-- `AddrCodec::VMESS`. -/
def AddrCodec.VMESS : AddrCodec := AddrCodec.VLESS
/-- `AddrCodec::TROJAN`. -/
def AddrCodec.TROJAN : AddrCodec := ⟨.standard, .portLast, false⟩
/-- `AddrCodec::SOCKS`. -/
def AddrCodec.SOCKS : AddrCodec := AddrCodec.TROJAN
/-- `AddrCodec::SHADOWSOCKS`. -/
def AddrCodec.SHADOWSOCKS : AddrCodec := ⟨.standard, .portLast, true⟩

/-- A byte a domain name may contain: `is_ascii_alphanumeric`, `-`, `.` or `_`. -/
def isDomainByte (c : UInt8) : Bool :=
  isAsciiDigit c || (0x41 ≤ c && c ≤ 0x5a) || (0x61 ≤ c && c ≤ 0x7a) ||
    c == 0x2d || c == 0x2e || c == 0x5f

/-- `is_valid_domain`. -/
def isValidDomain (d : String) : Bool := !(asBytes d).isEmpty && (asBytes d).all isDomainByte

/-- Whether the first byte of a domain field makes the reader try it as an IP
literal. -/
def looksLikeIp : Bytes → Bool
  | first :: _ => first == 0x5b || isAsciiDigit first
  | [] => false

/-- The domain branch of `AddrCodec::read_address`, on the field's bytes. -/
def readDomain (b : Bytes) : Except Error Address :=
  match fromUtf8 b with
  | none => .error .badDomain
  | some domain =>
    if looksLikeIp (asBytes domain) && (Address.parse domain).isIp then .ok (Address.parse domain)
    else if !isValidDomain domain then .error .badDomain
    else .ok (.domain domain)

/-- `AddrCodec::read_address`. -/
def AddrCodec.readAddress (c : AddrCodec) : Parser Address := do
  let t ← takeU8
  let t := if c.mask then t &&& 0x0f else t
  match c.family.kind t with
  | none => throw (.badAddressType t)
  | some .ipv4 =>
    let b ← take 4
    ByteParser.lift (Address.fromIpBytes b)
  | some .ipv6 =>
    let b ← take 16
    ByteParser.lift (Address.fromIpBytes b)
  | some .domain =>
    let len ← takeU8
    if len = 0 then
      throw .badDomain
    else
      let b ← take len.toNat
      ByteParser.lift (readDomain b)

/-- `AddrCodec::read`. -/
def AddrCodec.read (c : AddrCodec) : Parser (Address × UInt16) :=
  match c.order with
  | .portFirst => do
    let port ← readPort
    let addr ← c.readAddress
    return (addr, port)
  | .portLast => do
    let addr ← c.readAddress
    let port ← readPort
    return (addr, port)

/-- `AddrCodec::write_address`. -/
def AddrCodec.writeAddress (c : AddrCodec) (addr : Address) : Except Error Bytes :=
  let t := c.family.byteFor addr
  match addr with
  | .ip (.v4 octets) => .ok (t :: octets.toList)
  | .ip (.v6 octets) => .ok (t :: octets.toList)
  | .domain d =>
    -- `u8::try_from(bytes.len())`
    if (asBytes d).length ≤ 255 then
      .ok (t :: UInt8.ofNat (asBytes d).length :: asBytes d)
    else
      .error .badDomain

/-- `AddrCodec::write`. -/
def AddrCodec.write (c : AddrCodec) (addr : Address) (port : UInt16) : Except Error Bytes :=
  match c.order with
  | .portFirst => do
    let a ← c.writeAddress addr
    return u16ToBe port ++ a
  | .portLast => do
    let a ← c.writeAddress addr
    return a ++ u16ToBe port

end XrayRs
