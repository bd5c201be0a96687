import XrayRs.ByteWords

/-! # Textual IP addresses

The parser behind `str::parse::<IpAddr>()` of the standard library, function by
function: a recursive descent over the bytes of the text in which every reader
either consumes what it recognises or leaves the state alone.  An address is
accepted when a reader consumes the whole text.

Two facts about IPv4 literals are used elsewhere: they start with a digit and
they are at most fifteen bytes long. -/

namespace XrayRs

open ByteWords

/-- `IpAddr`: four or sixteen octets, in network order. -/
inductive IpAddr
  | v4 (octets : Vector UInt8 4)
  | v6 (octets : Vector UInt8 16)
  deriving DecidableEq

/-- `u8::is_ascii_digit`. -/
def isAsciiDigit (c : UInt8) : Bool := 0x30 ≤ c && c ≤ 0x39

namespace IpLiteral

/-- A reader of the recursive descent: the value read and the rest of the text,
or `none` with the state left alone (`read_atomically`). -/
abbrev Reader (α : Type) := Bytes → Option (α × Bytes)

/-- `char::to_digit`, on an ASCII byte and for radix 10 or 16. -/
def toDigit (radix : Nat) (c : UInt8) : Option Nat :=
  let d :=
    if 0x30 ≤ c ∧ c ≤ 0x39 then some (c.toNat - 0x30)
    else if 0x61 ≤ c ∧ c ≤ 0x7a then some (c.toNat - 0x61 + 10)
    else if 0x41 ≤ c ∧ c ≤ 0x5a then some (c.toNat - 0x41 + 10)
    else none
  d.filter (· < radix)

/-- `Parser::read_given_char`. -/
def readGivenChar (target : UInt8) : Reader Unit
  | [] => none
  | c :: s => if c = target then some ((), s) else none

/-- `Parser::read_separator`: the separator precedes every item but the first. -/
def readSeparator {α : Type} (sep : UInt8) (index : Nat) (inner : Reader α) : Reader α := fun s =>
  if 0 < index then
    match readGivenChar sep s with
    | none => none
    | some ((), s) => inner s
  else
    inner s

/-- The digit loop of `Parser::read_number`: value and number of the digits read
so far, giving up on a digit beyond `maxDigits`. -/
def readDigits (radix maxDigits : Nat) : Nat → Nat → Bytes → Option (Nat × Nat × Bytes)
  | result, digitCount, [] => some (result, digitCount, [])
  | result, digitCount, c :: s =>
    match toDigit radix c with
    | none => some (result, digitCount, c :: s)
    | some digit =>
      if maxDigits < digitCount + 1 then none
      else readDigits radix maxDigits (result * radix + digit) (digitCount + 1) s

/-- `Parser::read_number` for a target type with greatest value `limit`. -/
def readNumber (radix maxDigits : Nat) (allowZeroPrefix : Bool) (limit : Nat) : Reader Nat := fun s =>
  match readDigits radix maxDigits 0 0 s with
  | none => none
  | some (result, digitCount, rest) =>
    if digitCount = 0 then none
    else if !allowZeroPrefix && s.head? == some 0x30 && 1 < digitCount then none
    else if result ≤ limit then some (result, rest)
    else none

/-- One decimal group of an IPv4 address, with the dot before it. -/
def readOctet (index : Nat) : Reader UInt8 := fun s =>
  (readSeparator 0x2e index (readNumber 10 3 false 255) s).map fun (n, rest) => (UInt8.ofNat n, rest)

/-- `Parser::read_ipv4_addr`. -/
def readIpv4Addr : Reader (Vector UInt8 4) := fun s => do
  let (a, s) ← readOctet 0 s
  let (b, s) ← readOctet 1 s
  let (c, s) ← readOctet 2 s
  let (d, s) ← readOctet 3 s
  return (#v[a, b, c, d], s)

/-- `read_groups` inside `Parser::read_ipv6_addr`: up to `left` groups from
number `index` on, and whether an embedded IPv4 address ended them. -/
def readGroups : Nat → Nat → Bytes → List UInt16 × Bool × Bytes
  | _, 0, s => ([], false, s)
  | index, left + 1, s =>
    -- an embedded IPv4 address takes the place of two groups
    match (if 0 < left then readSeparator 0x3a index readIpv4Addr s else none) with
    | some (v4, rest) => ([u16OfBe v4[0] v4[1], u16OfBe v4[2] v4[3]], true, rest)
    | none =>
      match readSeparator 0x3a index (readNumber 16 4 true 65535) s with
      | none => ([], false, s)
      | some (g, rest) =>
        let (groups, ipv4, rest) := readGroups (index + 1) left rest
        (UInt16.ofNat g :: groups, ipv4, rest)

/-- The octets of eight groups. -/
def octetsOfGroups (groups : List UInt16) : Vector UInt8 16 :=
  Vector.ofFn fun i => (groups.flatMap u16ToBe).getD i 0

/-- `Parser::read_ipv6_addr`. -/
def readIpv6Addr : Reader (Vector UInt8 16) := fun s =>
  let (head, headIpv4, s) := readGroups 0 8 s
  if head.length = 8 then some (octetsOfGroups head, s)
  else if headIpv4 then none
  else do
    let ((), s) ← readGivenChar 0x3a s
    let ((), s) ← readGivenChar 0x3a s
    -- `::` stands for at least one group of zeros
    let (tail, _, s) := readGroups 0 (8 - (head.length + 1)) s
    return (octetsOfGroups (head ++ List.replicate (8 - head.length - tail.length) 0 ++ tail), s)

/-- `Parser::read_ip_addr`. -/
def readIpAddr : Reader IpAddr := fun s =>
  match readIpv4Addr s with
  | some (ip, rest) => some (.v4 ip, rest)
  | none => (readIpv6Addr s).map fun (ip, rest) => (.v6 ip, rest)

/-- `text.parse::<IpAddr>()` (`Parser::parse_with`): the whole text must be
read. -/
def parseIpAddr (text : Bytes) : Option IpAddr :=
  match readIpAddr text with
  | some (ip, []) => some ip
  | _ => none

example : parseIpAddr "8.8.8.8".toByteArray.data.toList = some (.v4 #v[8, 8, 8, 8]) := by decide
example : parseIpAddr "08.8.8.8".toByteArray.data.toList = none := by decide
example : parseIpAddr "2a00:1450::200e".toByteArray.data.toList =
    some (.v6 #v[0x2a, 0, 0x14, 0x50, 0, 0, 0, 0, 0, 0, 0, 0, 0, 0, 0x20, 0x0e]) := by decide
example : parseIpAddr "::ffff:10.0.0.1".toByteArray.data.toList =
    some (.v6 #v[0, 0, 0, 0, 0, 0, 0, 0, 0, 0, 0xff, 0xff, 10, 0, 0, 1]) := by decide

/-! ## What an IPv4 literal looks like -/

theorem toDigit_ten {c : UInt8} {d : Nat} (h : toDigit 10 c = some d) : isAsciiDigit c = true := by
  obtain ⟨hd, hlt⟩ := Option.filter_eq_some_iff.mp h
  have hlt : d < 10 := of_decide_eq_true hlt
  split at hd
  · next hc => simp [isAsciiDigit, hc]
  · split at hd
    · have := Option.some.inj hd
      omega
    · split at hd
      · have := Option.some.inj hd
        omega
      · cases hd

/-- The digit loop consumes one byte for each digit it counts, and never counts
more than `maxDigits`. -/
theorem readDigits_count {radix maxDigits : Nat} :
    ∀ {s : Bytes} {r n r' n' : Nat} {rest : Bytes}, n ≤ maxDigits →
      readDigits radix maxDigits r n s = some (r', n', rest) →
      s.length + n = rest.length + n' ∧ n' ≤ maxDigits := by
  intro s
  induction s with
  | nil =>
    intro r n r' n' rest hn h
    simp only [readDigits, Option.some.injEq, Prod.mk.injEq] at h
    obtain ⟨-, rfl, rfl⟩ := h
    exact ⟨rfl, hn⟩
  | cons c s ih =>
    intro r n r' n' rest hn h
    simp only [readDigits] at h
    split at h
    · simp only [Option.some.injEq, Prod.mk.injEq] at h
      obtain ⟨-, rfl, rfl⟩ := h
      exact ⟨rfl, hn⟩
    · split at h
      · cases h
      · obtain ⟨h1, h2⟩ := ih (by omega) h
        refine ⟨?_, h2⟩
        rw [List.length_cons]
        omega

/-- A decimal number starts with a digit and takes at most `maxDigits` bytes. -/
theorem readNumber_ten {maxDigits limit n : Nat} {zero : Bool} {s rest : Bytes}
    (h : readNumber 10 maxDigits zero limit s = some (n, rest)) :
    (∃ c t, s = c :: t ∧ isAsciiDigit c = true) ∧ s.length ≤ rest.length + maxDigits := by
  unfold readNumber at h
  split at h
  · cases h
  · next result count rest' hd =>
    obtain ⟨hcount, hmax⟩ := readDigits_count (Nat.zero_le _) hd
    split at h
    · cases h
    next hne =>
    split at h
    · cases h
    split at h
    · obtain ⟨-, rfl⟩ := Prod.mk.inj (Option.some.inj h)
      refine ⟨?_, by omega⟩
      cases s with
      | nil => simp only [List.length_nil] at hcount; omega
      | cons c t =>
        refine ⟨c, t, rfl, ?_⟩
        -- a first byte that is no digit leaves the count at zero
        cases hc : toDigit 10 c with
        | some d => exact toDigit_ten hc
        | none =>
          simp only [readDigits, hc, Option.some.injEq, Prod.mk.injEq] at hd
          exact absurd hd.2.1.symm hne
    · cases h

theorem readOctet_length {index : Nat} {b : UInt8} {s rest : Bytes}
    (h : readOctet index s = some (b, rest)) : s.length ≤ rest.length + 4 := by
  obtain ⟨⟨n, rest'⟩, hn, he⟩ := Option.map_eq_some_iff.mp h
  obtain ⟨-, rfl⟩ := Prod.mk.inj he
  unfold readSeparator at hn
  split at hn
  · split at hn
    · cases hn
    · next s' hsep =>
      have hs : s.length = s'.length + 1 := by
        cases s with
        | nil => cases hsep
        | cons c t =>
          simp only [readGivenChar] at hsep
          split at hsep
          · obtain ⟨-, rfl⟩ := Prod.mk.inj (Option.some.inj hsep)
            rfl
          · cases hsep
      have := (readNumber_ten hn).2
      omega
  · have := (readNumber_ten hn).2
    omega

/-- The first group of an address has no separator before it. -/
theorem readOctet_zero {b : UInt8} {s rest : Bytes} (h : readOctet 0 s = some (b, rest)) :
    (∃ c t, s = c :: t ∧ isAsciiDigit c = true) ∧ s.length ≤ rest.length + 3 := by
  obtain ⟨⟨n, rest'⟩, hn, he⟩ := Option.map_eq_some_iff.mp h
  obtain ⟨-, rfl⟩ := Prod.mk.inj he
  exact readNumber_ten hn

/-- **An IPv4 literal starts with a digit and has at most fifteen bytes.** -/
theorem parseIpAddr_v4 {text : Bytes} {ip : Vector UInt8 4}
    (h : parseIpAddr text = some (.v4 ip)) :
    (∃ c t, text = c :: t ∧ isAsciiDigit c = true) ∧ text.length ≤ 15 := by
  unfold parseIpAddr at h
  split at h
  · next ip' hread =>
    cases h
    unfold readIpAddr at hread
    split at hread
    · next o rest hv4 =>
      simp only [Option.some.injEq, Prod.mk.injEq] at hread
      obtain ⟨-, rfl⟩ := hread
      simp only [readIpv4Addr, Option.bind_eq_bind, Option.bind_eq_some_iff, Prod.exists] at hv4
      obtain ⟨a, s1, h1, b, s2, h2, c, s3, h3, d, s4, h4, hret⟩ := hv4
      obtain ⟨-, rfl⟩ := Prod.mk.inj (Option.some.inj hret)
      obtain ⟨hdigit, hl1⟩ := readOctet_zero h1
      have hl2 := readOctet_length h2
      have hl3 := readOctet_length h3
      have hl4 := readOctet_length h4
      refine ⟨hdigit, ?_⟩
      simp only [List.length_nil] at hl4
      omega
    · obtain ⟨_, _, he⟩ := Option.map_eq_some_iff.mp hread
      cases he
  · cases h

end IpLiteral
end XrayRs
