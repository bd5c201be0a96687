import XrayRs.Base128
import XrayRs.GrpcHunk

/-! # The fields of a hunk

What `read_varint` and `parse_hunk` (`transport/src/grpc.rs`) make of integers and of
fields that this tunnel does not write itself.

`read_varint` is exact but for its tenth byte, of which it keeps one bit
(`read_varint_exact_iff`).  `parse_hunk` takes the first byte of a key for the whole of
it, so a field is skipped whatever it holds exactly where its key is one byte long
(`unknown_fields_skipped_iff`). -/

namespace XrayRs.Grpc

open Base128 ByteWords

/-! ## Integers -/

theorem toNat_and_7f (byte : UInt8) : (byte &&& 0x7f).toNat = byte.toNat % 128 := by
  rw [UInt8.toNat_and]
  exact Nat.and_two_pow_sub_one_eq_mod byte.toNat 7

theorem and_80_eq_zero_iff : ∀ byte : UInt8, byte &&& 0x80 = 0 ↔ byte.toNat < 128 := by
  decide +kernel

/-- A digit goes above the digits read before, and what does not fit is lost. -/
theorem or_shiftLeft_mod {result shift : Nat} (hresult : result < 2 ^ shift) (hshift : shift ≤ 63)
    (d : Nat) :
    result ||| (d <<< shift) % 2 ^ 64 = (result + d * 2 ^ shift) % 2 ^ 64 := by
  have hpow : 2 ^ 64 = 2 ^ shift * 2 ^ (64 - shift) := by
    rw [← Nat.pow_add]
    congr 1
    omega
  have hmod : (d <<< shift) % 2 ^ 64 = d % 2 ^ (64 - shift) * 2 ^ shift := by
    rw [Nat.shiftLeft_eq, hpow, Nat.mul_comm d, Nat.mul_mod_mul_left, Nat.mul_comm]
  have hkept : d % 2 ^ (64 - shift) * 2 ^ shift + result < 2 ^ 64 := by
    have hd : d % 2 ^ (64 - shift) + 1 ≤ 2 ^ (64 - shift) :=
      Nat.mod_lt _ (Nat.two_pow_pos _)
    calc d % 2 ^ (64 - shift) * 2 ^ shift + result
        < (d % 2 ^ (64 - shift) + 1) * 2 ^ shift := by rw [Nat.add_mul]; omega
      _ ≤ 2 ^ (64 - shift) * 2 ^ shift := Nat.mul_le_mul_right _ hd
      _ = 2 ^ 64 := by rw [hpow, Nat.mul_comm]
  calc result ||| (d <<< shift) % 2 ^ 64
      = d % 2 ^ (64 - shift) * 2 ^ shift + result := by
        rw [hmod, Nat.or_comm, ← Nat.shiftLeft_eq, Nat.shiftLeft_add_eq_or_of_lt hresult]
    _ = (d % 2 ^ (64 - shift) * 2 ^ shift + result) % 2 ^ 64 := (Nat.mod_eq_of_lt hkept).symm
    _ = (result + d * 2 ^ shift) % 2 ^ 64 := by
        rw [← hmod, Nat.shiftLeft_eq, Nat.mod_add_mod, Nat.add_comm]

/-- **An integer is read modulo `2 ^ 64`**, if the bytes before the last one fit. -/
theorem readVarintFrom_terminated {g : Bytes} (hg : Terminated g) (rest : Bytes)
    {result shift : Nat} (hresult : result < 2 ^ shift) (hlength : shift + 7 * g.length ≤ 70) :
    readVarintFrom result shift (g ++ rest) =
      some ((result + value g * 2 ^ shift) % 2 ^ 64, rest) := by
  induction hg generalizing result shift with
  | @last byte hlast =>
    have hshift : shift ≤ 63 := by simpa using hlength
    rw [List.singleton_append, readVarintFrom, if_neg (by omega),
      if_pos ((and_80_eq_zero_iff byte).mpr hlast), or_shiftLeft_mod hresult hshift, toNat_and_7f]
    simp [value]
  | @more byte groups hmore hg ih =>
    have hpos := hg.length_pos
    rw [List.length_cons] at hlength
    -- a digit with others above it is kept whole
    have hnext : result + byte.toNat % 128 * 2 ^ shift < 2 ^ (shift + 7) := by
      have hdigit : byte.toNat % 128 < 128 := Nat.mod_lt _ (by decide)
      have hle : byte.toNat % 128 * 2 ^ shift ≤ 127 * 2 ^ shift :=
        Nat.mul_le_mul_right _ (by omega)
      rw [Nat.pow_add]
      omega
    have hfit : result + byte.toNat % 128 * 2 ^ shift < 2 ^ 64 :=
      Nat.lt_of_lt_of_le hnext (Nat.pow_le_pow_right (by decide) (by omega))
    have hsum : result + byte.toNat % 128 * 2 ^ shift + value groups * 2 ^ (shift + 7) =
        result + value (byte :: groups) * 2 ^ shift := by
      rw [value, Nat.pow_add]
      ring
    rw [List.cons_append, readVarintFrom, if_neg (by omega),
      if_neg (fun h => absurd ((and_80_eq_zero_iff byte).mp h) (by omega)),
      or_shiftLeft_mod hresult (by omega), toNat_and_7f, Nat.mod_eq_of_lt hfit,
      ih hnext (by omega), hsum]

/-- Bytes that all go on are no integer. -/
theorem readVarintFrom_more {n : Nat} {s : Bytes} (hmore : ∀ b ∈ s.take n, 128 ≤ b.toNat)
    {result shift : Nat} (hshift : 64 ≤ shift + 7 * n) : readVarintFrom result shift s = none := by
  induction n generalizing s result shift with
  | zero =>
    cases s with
    | nil => rfl
    | cons byte s =>
      rw [readVarintFrom]
      exact if_pos (by omega)
  | succ n ih =>
    cases s with
    | nil => rfl
    | cons byte s =>
      rw [List.take_succ_cons] at hmore
      have hbyte := hmore byte (List.mem_cons_self ..)
      rw [readVarintFrom]
      by_cases hlong : 64 ≤ shift
      · exact if_pos hlong
      · rw [if_neg hlong]
        dsimp only
        rw [if_neg fun h => absurd ((and_80_eq_zero_iff byte).mp h) (by omega)]
        exact ih (fun b hb => hmore b (List.mem_cons_of_mem _ hb)) (by omega)

/-- **What `read_varint` does**: it reads an integer of at most ten bytes modulo
`2 ^ 64`, and nothing where there is none. -/
theorem readVarint_terminated {g : Bytes} (hg : Terminated g) (hlength : g.length ≤ 10)
    (rest : Bytes) : readVarint (g ++ rest) = some (value g % 2 ^ 64, rest) := by
  rw [readVarint, readVarintFrom_terminated hg rest (by decide) (by omega)]
  simp

theorem readVarint_more {s : Bytes} (hmore : ∀ b ∈ s.take 10, 128 ≤ b.toNat) :
    readVarint s = none :=
  readVarintFrom_more hmore (by decide)

/-- **What `put_varint` writes is an integer.** -/
theorem terminated_putVarint (v : Nat) : Terminated (putVarint v) ∧ value (putVarint v) = v := by
  induction v using Nat.strongRecOn with
  | ind v ih =>
    rw [putVarint]
    by_cases hlast : v < 0x80
    · have hbyte : (UInt8.ofNat v).toNat = v := by
        rw [UInt8.toNat_ofNat', Nat.mod_eq_of_lt (by omega)]
      rw [if_pos hlast]
      refine ⟨.last (by omega), ?_⟩
      rw [value, value, hbyte, Nat.mod_eq_of_lt hlast]
      omega
    · obtain ⟨hrest, hvalue⟩ := ih (v / 2 ^ 7) (by omega)
      obtain ⟨hdigit, hmore⟩ := low_byte v
      rw [toNat_and_7f] at hdigit
      rw [ne_eq, and_80_eq_zero_iff, Nat.not_lt] at hmore
      rw [if_neg hlast]
      refine ⟨.more hmore hrest, ?_⟩
      rw [value, hvalue, hdigit]
      omega

/-- **What is put is read back**, whatever follows it, and not from less; it is as long as
`varint_len` says, and so the length in the header of a frame is the one of its message. -/
theorem varint_round_trip (v : UInt64) (rest : Bytes) :
    readVarint (putVarint v.toNat ++ rest) = some (v.toNat, rest) ∧
      (putVarint v.toNat).length = varintLen v.toNat ∧
      (∀ p, p <+: putVarint v.toNat → p ≠ putVarint v.toNat → readVarint p = none) ∧
      ∀ header, grpcHeader v.toNat = .ok header →
        ∃ field, field = 0x0A :: putVarint v.toNat ∧
          header = 0 :: u32ToBe (field.length + v.toNat) ++ field := by
  refine ⟨readVarint_putVarint v.toNat_lt rest, length_putVarint _, ?_, ?_⟩
  · intro p hp hne
    refine readVarint_more fun b hb => ?_
    exact (terminated_putVarint _).1.more_of_proper hp hne b (List.mem_of_mem_take hb)
  · intro header h
    unfold grpcHeader at h
    simp only at h
    by_cases hfit : 1 + varintLen v.toNat + v.toNat < 2 ^ 32
    · rw [if_pos hfit] at h
      cases h
      refine ⟨_, rfl, ?_⟩
      rw [List.length_cons, length_putVarint, Nat.add_comm 1]
    · rw [if_neg hfit] at h
      cases h

/-- `read_varint` gives a value and a rest exactly where an integer of at most ten bytes
stands there that spells the value, and the value fits in 64 bits. -/
def ReadsExactly (s : Bytes) : Prop :=
  ∀ v rest, readVarint s = some (v, rest) ↔
    ∃ g, s = g ++ rest ∧ Terminated g ∧ g.length ≤ 10 ∧ value g = v ∧ v < 2 ^ 64

/-- If nine bytes go on and the tenth does not, the tenth is 0 or 1. -/
def TenthFits (s : Bytes) : Prop :=
  (∀ b ∈ s.take 9, 128 ≤ b.toNat) → ∀ b, s[9]? = some b → b.toNat < 128 → b.toNat ≤ 1

/-- An integer of ten bytes fits in 64 bits exactly if its last byte is 0 or 1. -/
theorem value_lt_iff {init : Bytes} (hinit : init.length = 9) {byte : UInt8}
    (hlast : byte.toNat < 128) : value (init ++ [byte]) < 2 ^ 64 ↔ byte.toNat ≤ 1 := by
  have hlow := value_lt init
  rw [hinit] at hlow
  rw [value_append, hinit, value, value, Nat.mod_eq_of_lt hlast]
  omega

theorem tenthFits_iff {g : Bytes} (hg : Terminated g) (hlength : g.length ≤ 10) (rest : Bytes) :
    TenthFits (g ++ rest) ↔ value g < 2 ^ 64 := by
  by_cases hshort : g.length ≤ 9
  · have hvalue : value g < 2 ^ 64 := by
      calc value g < 128 ^ g.length := value_lt g
        _ ≤ 128 ^ 9 := Nat.pow_le_pow_right (by decide) hshort
        _ < 2 ^ 64 := by decide
    exact iff_of_true (fun hmore => absurd hmore (hg.not_more hshort)) hvalue
  · obtain ⟨init, last, rfl, hinit, hlast⟩ := hg.exists_eq_append
    have hnine : init.length = 9 := by
      rw [List.length_append, List.length_singleton] at hlength hshort
      omega
    have htake : ((init ++ [last]) ++ rest).take 9 = init := by
      rw [List.append_assoc, ← hnine, List.take_left]
    have htenth : ((init ++ [last]) ++ rest)[9]? = some last := by
      rw [List.append_assoc, ← hnine, List.getElem?_append_right (Nat.le_refl _)]
      simp
    rw [value_lt_iff hnine hlast, TenthFits, htake, htenth]
    constructor
    · intro h
      exact h hinit last rfl hlast
    · rintro h - b hb -
      cases hb
      exact h

theorem readsExactly_iff {g : Bytes} (hg : Terminated g) (hlength : g.length ≤ 10) (rest : Bytes) :
    ReadsExactly (g ++ rest) ↔ value g < 2 ^ 64 := by
  have hread := readVarint_terminated hg hlength rest
  constructor
  · intro h
    obtain ⟨g', heq, hg', -, hvalue, hfit⟩ := (h _ _).mp hread
    obtain ⟨rfl, -⟩ := hg.append_inj hg' heq
    rw [hvalue]
    exact hfit
  · intro hfit v rest'
    rw [Nat.mod_eq_of_lt hfit] at hread
    rw [hread]
    constructor
    · intro h
      cases h
      exact ⟨g, rfl, hg, hlength, rfl, hfit⟩
    · rintro ⟨g', heq, hg', -, rfl, -⟩
      obtain ⟨rfl, rfl⟩ := hg.append_inj hg' heq
      rfl

/-- **Integers are read exactly, but for a tenth byte that does not fit.** -/
theorem read_varint_exact_iff (s : Bytes) : ReadsExactly s ↔ TenthFits s := by
  rcases exists_terminated 10 s with ⟨g, rest, rfl, hg, hlength⟩ | hmore
  · rw [readsExactly_iff hg hlength, tenthFits_iff hg hlength]
  · refine iff_of_true (fun v rest => ?_) fun _ b hb hlast => ?_
    · rw [readVarint_more hmore]
      refine iff_of_false nofun ?_
      rintro ⟨g, rfl, hg, hlength, -⟩
      exact hg.not_more hlength hmore
    · have hmem : b ∈ s.take 10 := by
        rw [List.mem_iff_getElem?]
        exact ⟨9, by rw [List.getElem?_take_of_lt (by decide), hb]⟩
      have := hmore b hmem
      omega

/-- **A value that does not fit**: nine bytes that go on and `0x02` spell `2 ^ 64`, and are
read as 0. -/
theorem read_varint_truncates :
    readVarint [0x80, 0x80, 0x80, 0x80, 0x80, 0x80, 0x80, 0x80, 0x80, 0x02] = some (0, []) ∧
      ¬ ReadsExactly [0x80, 0x80, 0x80, 0x80, 0x80, 0x80, 0x80, 0x80, 0x80, 0x02] := by
  have hread : readVarint [0x80, 0x80, 0x80, 0x80, 0x80, 0x80, 0x80, 0x80, 0x80, 0x02] =
    some (0, []) := by decide
  refine ⟨hread, fun h => ?_⟩
  obtain ⟨g, heq, -, -, hvalue, -⟩ := (h _ _).mp hread
  rw [List.append_nil] at heq
  subst heq
  exact absurd hvalue (by decide)

/-! ## Fields -/

/-- The content of a field, by wire type: an integer, eight bytes, bytes behind their
length, four bytes. -/
inductive Content
  | varint (value : Groups)
  | fixed64 (data : Vector UInt8 8)
  | bytes (len : Groups) (data : Bytes) (hlen : len.value = data.length)
      (hfit : data.length < 2 ^ 64)
  | fixed32 (data : Vector UInt8 4)

namespace Content

def wireType : Content → Nat
  | varint _ => 0
  | fixed64 _ => 1
  | bytes .. => 2
  | fixed32 _ => 5

def encode : Content → Bytes
  | varint value => value.bytes
  | fixed64 data => data.toList
  | bytes len data _ _ => len.bytes ++ data
  | fixed32 data => data.toList

end Content

/-- A well-formed protobuf field: the key has the wire type of the content in its low
three bits and the number of the field above. -/
structure Field where
  key : Groups
  content : Content
  keyed : key.value % 8 = content.wireType

/-- The bytes of a field. -/
def Field.encode (f : Field) : Bytes := f.key.bytes ++ f.content.encode

/-- The bytes of a list of fields. -/
def encodeFields (fields : List Field) : Bytes := fields.flatMap Field.encode

/-- The key of a field with a number in `2..2^29-1` and one of the wire types 0, 1, 2
and 5. -/
def Unknown (key : Groups) : Prop :=
  2 ≤ key.value / 8 ∧ key.value / 8 < 2 ^ 29 ∧ key.value % 8 ∈ [0, 1, 2, 5]

/-! ### One round of `parse_hunk` -/

section
variable {tag : UInt8} {m r : Bytes} {v len : Nat}

theorem parseHunk_varint (htag : tag &&& 0x07 = 0) (hread : readVarint m = some (v, r)) :
    parseHunk (tag :: m) = parseHunk r := by
  rw [parseHunk, if_pos htag]
  split
  · next h =>
    rw [hread] at h
    cases h
  · next h =>
    rw [hread] at h
    cases h
    rfl

theorem parseHunk_bytes (htag : tag &&& 0x07 = 2) (hread : readVarint m = some (len, r))
    (hlen : len ≤ r.length) : parseHunk (tag :: m) =
      if tag >>> 3 = 1 then .ok (r.take len) else parseHunk (r.drop len) := by
  rw [parseHunk, if_neg (by rw [htag]; decide), if_pos htag]
  split
  · next h =>
    rw [hread] at h
    cases h
  · next h =>
    rw [hread] at h
    cases h
    exact if_pos hlen

theorem parseHunk_fixed32 (htag : tag &&& 0x07 = 5) (hlen : 4 ≤ m.length) :
    parseHunk (tag :: m) = parseHunk (m.drop 4) := by
  rw [parseHunk, if_neg (by rw [htag]; decide), if_neg (by rw [htag]; decide), if_pos htag,
    if_pos hlen]

theorem parseHunk_fixed64 (htag : tag &&& 0x07 = 1) (hlen : 8 ≤ m.length) :
    parseHunk (tag :: m) = parseHunk (m.drop 8) := by
  rw [parseHunk, if_neg (by rw [htag]; decide), if_neg (by rw [htag]; decide),
    if_neg (by rw [htag]; decide), if_pos htag, if_pos hlen]

/-- Wire type 3 is given up. -/
theorem parseHunk_three (m : Bytes) : parseHunk (3 :: m) = .error .malformed := by
  rw [parseHunk, if_neg (by decide), if_neg (by decide), if_neg (by decide), if_neg (by decide)]

end

/-! ### Keys of one byte -/

/-- The wire type and the number, as `parse_hunk` takes them off one byte. -/
theorem tag_eq : ∀ tag : UInt8,
    (tag &&& 0x07).toNat = tag.toNat % 8 ∧ (tag >>> 3).toNat = tag.toNat / 8 := by
  decide +kernel

theorem wire_eq {tag : UInt8} {w : UInt8} (h : tag.toNat % 8 = w.toNat) : tag &&& 0x07 = w := by
  apply UInt8.toNat_inj.mp
  rw [(tag_eq tag).1, h]

theorem field_eq_one_iff (tag : UInt8) : tag >>> 3 = 1 ↔ tag.toNat / 8 = 1 := by
  rw [← (tag_eq tag).2, ← UInt8.toNat_inj]
  rfl

/-- A key of one byte is its tag. -/
theorem key_of_length_one {key : Groups} (h : key.bytes.length = 1) :
    ∃ tag, key.bytes = [tag] ∧ tag.toNat = key.value := by
  obtain ⟨tag, htag⟩ := List.length_eq_one_iff.mp h
  have hterminated := key.terminated
  rw [htag] at hterminated
  cases hterminated with
  | last hlast =>
    refine ⟨tag, htag, ?_⟩
    rw [Groups.value, htag, value, value, Nat.mod_eq_of_lt hlast]
    omega
  | more _ hg => cases hg

/-- The length of a field's bytes is read. -/
theorem readVarint_len {len : Groups} {data : Bytes} (hlen : len.value = data.length)
    (hfit : data.length < 2 ^ 64) (rest : Bytes) :
    readVarint (len.bytes ++ rest) = some (data.length, rest) := by
  rw [readVarint_terminated len.terminated len.short, show value len.bytes = _ from hlen,
    Nat.mod_eq_of_lt hfit]

/-- **A field whose key is one byte is skipped.** -/
theorem parseHunk_skip (f : Field) (hshort : f.key.bytes.length = 1) (hnumber : f.key.value / 8 ≠ 1)
    (rest : Bytes) : parseHunk (f.encode ++ rest) = parseHunk rest := by
  obtain ⟨key, content, keyed⟩ := f
  obtain ⟨tag, hbytes, htag⟩ := key_of_length_one hshort
  dsimp only at hbytes htag hnumber keyed
  rw [Field.encode, hbytes, List.append_assoc, List.singleton_append]
  rw [← htag] at keyed hnumber
  cases content with
  | varint v =>
    exact parseHunk_varint (wire_eq keyed) (readVarint_terminated v.terminated v.short rest)
  | fixed64 data =>
    rw [parseHunk_fixed64 (wire_eq keyed) (by simp [Content.encode])]
    simp [Content.encode]
  | bytes len data hlen hfit =>
    have hread : readVarint (Content.encode (.bytes len data hlen hfit) ++ rest) =
        some (data.length, data ++ rest) := by
      rw [Content.encode, List.append_assoc]
      exact readVarint_len hlen hfit _
    rw [parseHunk_bytes (wire_eq keyed) hread (by simp),
      if_neg (fun h => hnumber ((field_eq_one_iff tag).mp h)), List.drop_left]
  | fixed32 data =>
    rw [parseHunk_fixed32 (wire_eq keyed) (by simp [Content.encode])]
    simp [Content.encode]

/-- The payload of field 1 is returned, if its key is one byte. -/
theorem parseHunk_data {key len : Groups} {b : Bytes} (hshort : key.bytes.length = 1)
    (hkey : key.value = 10) (hlen : len.value = b.length) (hfit : b.length < 2 ^ 64)
    (rest : Bytes) : parseHunk (key.bytes ++ (len.bytes ++ b) ++ rest) = .ok b := by
  obtain ⟨tag, hbytes, htag⟩ := key_of_length_one hshort
  rw [hkey] at htag
  have hread : readVarint (len.bytes ++ b ++ rest) = some (b.length, b ++ rest) := by
    rw [List.append_assoc]
    exact readVarint_len hlen hfit _
  rw [hbytes, List.append_assoc, List.singleton_append,
    parseHunk_bytes (wire_eq (by rw [htag]; rfl)) hread (by simp),
    if_pos ((field_eq_one_iff tag).mpr (by rw [htag])), List.take_left]

theorem parseHunk_fields {fields : List Field}
    (h : ∀ f ∈ fields, f.key.bytes.length = 1 ∧ f.key.value / 8 ≠ 1) (rest : Bytes) :
    parseHunk (encodeFields fields ++ rest) = parseHunk rest := by
  induction fields with
  | nil => rfl
  | cons f fields ih =>
    rw [List.forall_mem_cons] at h
    rw [encodeFields, List.flatMap_cons, List.append_assoc, parseHunk_skip f h.1.1 h.1.2]
    exact ih h.2

/-! ### Longer keys -/

/-- Zero groups are read as a varint field, whose value is the next byte. -/
theorem parseHunk_zeros {z : Bytes} (hz : Terminated z) (hlength : z.length ≤ 10)
    (hvalue : value z = 0) (rest : Bytes) :
    parseHunk (z ++ 3 :: 3 :: rest) = .error .malformed := by
  have hthree : Terminated [3] := .last (by decide)
  cases hz with
  | @last byte hlast =>
    have hbyte : byte.toNat % 8 = (0 : UInt8).toNat := by
      rw [value, value, Nat.mod_eq_of_lt hlast] at hvalue
      rw [show byte.toNat = 0 by omega]
      rfl
    have hread : readVarint (3 :: 3 :: rest) = some (3, 3 :: rest) :=
      readVarint_terminated hthree (by simp) (3 :: rest)
    rw [List.singleton_append, parseHunk_varint (wire_eq hbyte) hread, parseHunk_three]
  | @more byte groups _ hg =>
    have hbyte : byte.toNat % 8 = (0 : UInt8).toNat := by
      rw [value] at hvalue
      show byte.toNat % 8 = 0
      omega
    rw [List.length_cons] at hlength
    rw [List.cons_append, parseHunk_varint (wire_eq hbyte)
      (readVarint_terminated hg (by omega) (3 :: 3 :: rest)), parseHunk_three]

/-- The rest of a key, taken for the first of `n` bytes to skip, leaves bytes of the
content to be read as keys. -/
theorem parseHunk_drop {tail : Bytes} (htail : Terminated tail) (hlength : tail.length ≤ 9)
    (hvalue : value tail < 2 ^ 25) {n : Nat} (hn : 4 ≤ n) (rest : Bytes) :
    parseHunk ((tail ++ (List.replicate n 3 ++ rest)).drop n) = .error .malformed := by
  have hpos := htail.length_pos
  by_cases hshort : tail.length ≤ n
  · obtain ⟨k, hk⟩ : ∃ k, n = n - tail.length + (k + 1) := ⟨tail.length - 1, by omega⟩
    have hdrop : (tail ++ (List.replicate n 3 ++ rest)).drop n =
        3 :: (List.replicate k 3 ++ rest) := by
      rw [List.drop_append, List.drop_eq_nil_of_le hshort, List.nil_append,
        List.drop_append_of_le_length (by simp), List.drop_replicate,
        show n - (n - tail.length) = k + 1 by omega, List.replicate_succ, List.cons_append]
    rw [hdrop, parseHunk_three]
  · have hzero : value (tail.drop n) = 0 := by
      have hsplit := value_append (tail.take n) (tail.drop n)
      rw [List.take_append_drop, List.length_take, Nat.min_eq_left (by omega)] at hsplit
      have hpow : 128 ^ 4 ≤ 128 ^ n := Nat.pow_le_pow_right (by decide) hn
      by_contra hne
      have hle : 128 ^ n * 1 ≤ 128 ^ n * value (tail.drop n) :=
        Nat.mul_le_mul_left _ (Nat.pos_of_ne_zero hne)
      omega
    obtain ⟨k, rfl⟩ : ∃ k, n = k + 2 := ⟨n - 2, by omega⟩
    rw [List.drop_append_of_le_length (by omega), List.replicate_succ, List.replicate_succ,
      List.cons_append, List.cons_append]
    exact parseHunk_zeros (htail.drop (by omega)) (by simp; omega) hzero _

/-! #### A length that leads into the content -/

theorem varintLen_le_self {v : Nat} (hv : 0 < v) : varintLen v ≤ v := by
  induction v using Nat.strongRecOn with
  | ind v ih =>
    rw [varintLen]
    by_cases hlast : v < 0x80
    · rw [if_pos hlast]
      exact hv
    · rw [if_neg hlast]
      have hrest := ih (v / 2 ^ 7) (by omega) (by omega)
      omega

theorem varintLen_le {k v : Nat} (hv : v < 128 ^ (k + 1)) : varintLen v ≤ k + 1 := by
  induction k generalizing v with
  | zero =>
    rw [varintLen, if_pos (by omega)]
  | succ k ih =>
    rw [varintLen]
    by_cases hlast : v < 0x80
    · rw [if_pos hlast]
      omega
    · rw [if_neg hlast]
      rw [Nat.pow_succ] at hv
      exact Nat.succ_le_succ (ih (by omega))

/-- The groups that `put_varint` writes for a number below `2 ^ 64`. -/
def putGroups (v : Nat) (hv : v < 2 ^ 64) : Groups where
  bytes := putVarint v
  terminated := (terminated_putVarint v).1
  short := by
    rw [length_putVarint]
    exact varintLen_le (k := 9) (Nat.lt_of_lt_of_le hv (by decide))

/-- Bytes behind their length, of which the first `n` are skipped: there are some that go
on with the byte 3. -/
theorem exists_jump (n : Nat) (hn : n < 2 ^ 25) :
    ∃ (len : Groups) (data : Bytes), len.value = data.length ∧ data.length < 2 ^ 64 ∧
      ∀ rest, n ≤ (len.bytes ++ data ++ rest).length ∧
        ∃ more, (len.bytes ++ data ++ rest).drop n = 3 :: more := by
  by_cases hzero : n = 0
  · subst hzero
    exact ⟨.byte 3 (by decide), [0, 0, 0], by decide, by decide, fun rest =>
      ⟨Nat.zero_le _, _, rfl⟩⟩
  · have hlen : varintLen n ≤ n := varintLen_le_self (Nat.pos_of_ne_zero hzero)
    have hpos := varintLen_pos n
    have hfit : n < 2 ^ 64 := Nat.lt_trans hn (by decide)
    refine ⟨putGroups n hfit, List.replicate n 3, ?_, by simpa using hfit, fun rest => ⟨?_, ?_⟩⟩
    · rw [List.length_replicate]
      exact (terminated_putVarint n).2
    · simp only [List.length_append, List.length_replicate]
      omega
    · obtain ⟨k, hk⟩ : ∃ k, varintLen n = k + 1 := ⟨varintLen n - 1, by omega⟩
      refine ⟨List.replicate k 3 ++ rest, ?_⟩
      have hbytes : (putGroups n hfit).bytes.length = k + 1 := by
        rw [← hk]
        exact length_putVarint n
      rw [List.append_assoc, List.drop_append, List.drop_eq_nil_of_le (by omega), List.nil_append,
        List.drop_append_of_le_length (by simp), List.drop_replicate, hbytes,
        show n - (n - (k + 1)) = k + 1 by omega, List.replicate_succ, List.cons_append]

/-- **A field whose key takes more bytes is misread**, for some content of it: the rest of
the key is taken for the value, the length or the first of the bytes to skip. -/
theorem exists_misread {key : Groups} (hhigh : key.value / 8 < 2 ^ 29)
    (hwire : key.value % 8 ∈ [0, 1, 2, 5]) (hlong : key.bytes.length ≠ 1) :
    ∃ f : Field, f.key = key ∧ ∀ rest, parseHunk (f.encode ++ rest) = .error .malformed := by
  obtain ⟨bytes, terminated, short⟩ := key
  cases terminated with
  | last => exact absurd rfl hlong
  | @more tag tail htag htail =>
    have hvalue : Groups.value ⟨tag :: tail, .more htag htail, short⟩ =
        tag.toNat % 128 + 128 * value tail := rfl
    rw [hvalue] at hhigh hwire
    have hlength : tail.length ≤ 9 := Nat.le_of_succ_le_succ short
    have hsmall : value tail < 2 ^ 25 := by omega
    have hfield : ¬ tag >>> 3 = 1 := by
      rw [field_eq_one_iff]
      omega
    have hmod : (tag.toNat % 128 + 128 * value tail) % 8 = tag.toNat % 8 := by omega
    rw [hmod] at hwire
    have hread := fun rest => readVarint_terminated htail (by omega) rest
    rw [Nat.mod_eq_of_lt (Nat.lt_trans hsmall (by decide))] at hread
    simp only [List.mem_cons, List.not_mem_nil, or_false] at hwire
    rcases hwire with hwire | hwire | hwire | hwire
    · -- the value is the key of the next round
      refine ⟨⟨_, .varint (.byte 3 (by decide)), hvalue ▸ hmod.trans hwire⟩, rfl, fun rest => ?_⟩
      rw [Field.encode, List.append_assoc, List.cons_append,
        parseHunk_varint (wire_eq hwire) (hread _)]
      exact parseHunk_three rest
    · refine ⟨⟨_, .fixed64 (.replicate 8 3), hvalue ▸ hmod.trans hwire⟩, rfl, fun rest => ?_⟩
      rw [Field.encode, List.append_assoc, List.cons_append,
        parseHunk_fixed64 (wire_eq hwire) (by simp [Content.encode]; omega)]
      exact parseHunk_drop htail hlength hsmall (by decide) rest
    · obtain ⟨len, data, hlen, hfit, hjump⟩ := exists_jump (value tail) hsmall
      refine ⟨⟨_, .bytes len data hlen hfit, hvalue ▸ hmod.trans hwire⟩, rfl, fun rest => ?_⟩
      obtain ⟨hle, more, hdrop⟩ := hjump rest
      rw [Field.encode, List.append_assoc, List.cons_append, Content.encode,
        parseHunk_bytes (wire_eq hwire) (hread _) hle, if_neg hfield, hdrop, parseHunk_three]
    · refine ⟨⟨_, .fixed32 (.replicate 4 3), hvalue ▸ hmod.trans hwire⟩, rfl, fun rest => ?_⟩
      rw [Field.encode, List.append_assoc, List.cons_append,
        parseHunk_fixed32 (wire_eq hwire) (by simp [Content.encode]; omega)]
      exact parseHunk_drop htail hlength hsmall (by decide) rest

/-- Some content for a key. -/
theorem exists_field {key : Groups} (hkey : Unknown key) : ∃ f : Field, f.key = key := by
  obtain ⟨-, -, hwire⟩ := hkey
  simp only [List.mem_cons, List.not_mem_nil, or_false] at hwire
  rcases hwire with hwire | hwire | hwire | hwire
  · exact ⟨⟨key, .varint (.byte 0 (by decide)), hwire⟩, rfl⟩
  · exact ⟨⟨key, .fixed64 (.replicate 8 0), hwire⟩, rfl⟩
  · exact ⟨⟨key, .bytes (.byte 0 (by decide)) [] rfl (by decide), hwire⟩, rfl⟩
  · exact ⟨⟨key, .fixed32 (.replicate 4 0), hwire⟩, rfl⟩

theorem exists_fields {keys : List Groups} (hkeys : ∀ key ∈ keys, Unknown key) :
    ∃ fields : List Field, fields.map Field.key = keys := by
  induction keys with
  | nil => exact ⟨[], rfl⟩
  | cons key keys ih =>
    rw [List.forall_mem_cons] at hkeys
    obtain ⟨f, hf⟩ := exists_field hkeys.1
    obtain ⟨fields, hfields⟩ := ih hkeys.2
    exact ⟨f :: fields, by rw [List.map_cons, hf, hfields]⟩

/-- With a longer key among them, some fields are not parsed at all. -/
theorem exists_malformed {keys : List Groups} (hkeys : ∀ key ∈ keys, Unknown key)
    (hlong : ∃ key ∈ keys, key.bytes.length ≠ 1) :
    ∃ fields : List Field, fields.map Field.key = keys ∧
      parseHunk (encodeFields fields) = .error .malformed := by
  induction keys with
  | nil => simp at hlong
  | cons key keys ih =>
    rw [List.forall_mem_cons] at hkeys
    by_cases hshort : key.bytes.length = 1
    · have htail : ∃ key ∈ keys, key.bytes.length ≠ 1 := by
        obtain ⟨key', hmem, hlong⟩ := hlong
        rcases List.mem_cons.mp hmem with rfl | hmem
        · exact absurd hshort hlong
        · exact ⟨key', hmem, hlong⟩
      obtain ⟨f, rfl⟩ := exists_field hkeys.1
      obtain ⟨fields, hfields, herror⟩ := ih hkeys.2 htail
      have hnumber : f.key.value / 8 ≠ 1 := by
        have hlow := hkeys.1.1
        omega
      refine ⟨f :: fields, by rw [List.map_cons, hfields], ?_⟩
      rw [encodeFields, List.flatMap_cons, parseHunk_skip f hshort hnumber]
      exact herror
    · obtain ⟨f, rfl, herror⟩ := exists_misread hkeys.1.2.1 hkeys.1.2.2 hshort
      obtain ⟨fields, hfields⟩ := exists_fields hkeys.2
      refine ⟨f :: fields, by rw [List.map_cons, hfields], ?_⟩
      rw [encodeFields, List.flatMap_cons]
      exact herror _

/-! ### Unknown fields -/

/-- Whatever the fields with these keys hold: behind them the payload of field 1 is
found, whatever comes after it, and without a field 1 the payload is empty. -/
def SkipsUnknown (keys : List Groups) (dataKey : Groups) : Prop :=
  ∀ fields : List Field, fields.map Field.key = keys →
    (∀ (len : Groups) (b rest : Bytes), len.value = b.length → b.length < 2 ^ 64 →
      parseHunk (encodeFields fields ++ (dataKey.bytes ++ (len.bytes ++ b) ++ rest)) = .ok b) ∧
    parseHunk (encodeFields fields) = .ok []

theorem skippable {keys : List Groups} (hkeys : ∀ key ∈ keys, Unknown key)
    (hshort : ∀ key ∈ keys, key.bytes.length = 1) {fields : List Field}
    (hfields : fields.map Field.key = keys) :
    ∀ f ∈ fields, f.key.bytes.length = 1 ∧ f.key.value / 8 ≠ 1 := by
  intro f hf
  have hkey : f.key ∈ keys := hfields ▸ List.mem_map_of_mem hf
  have hlow := (hkeys f.key hkey).1
  exact ⟨hshort f.key hkey, by omega⟩

/-- **Unknown fields are skipped exactly where all keys are of one byte.** -/
theorem unknown_fields_skipped_iff (keys : List Groups) (dataKey : Groups)
    (hkeys : ∀ key ∈ keys, Unknown key) (hdata : dataKey.value = 10) :
    SkipsUnknown keys dataKey ↔ ∀ key ∈ dataKey :: keys, key.bytes.length = 1 := by
  constructor
  · intro hskips
    have hall : ∀ key ∈ keys, key.bytes.length = 1 := by
      by_contra hlong
      push Not at hlong
      obtain ⟨fields, hfields, herror⟩ := exists_malformed hkeys hlong
      have hempty := (hskips fields hfields).2
      rw [herror] at hempty
      cases hempty
    refine List.forall_mem_cons.mpr ⟨?_, hall⟩
    by_contra hlong
    obtain ⟨fields, hfields⟩ := exists_fields hkeys
    obtain ⟨f, hf, herror⟩ := exists_misread (by rw [hdata]; decide) (by rw [hdata]; decide) hlong
    obtain ⟨key, content, keyed⟩ := f
    dsimp only at hf
    subst hf
    have hwire := keyed
    rw [hdata] at hwire
    cases content with
    | bytes len b hlen hfit =>
      have hfound := (hskips fields hfields).1 len b [] hlen hfit
      have hskip : parseHunk (key.bytes ++ (len.bytes ++ b) ++ []) = .ok b := by
        rw [← hfound]
        exact (parseHunk_fields (skippable hkeys hall hfields) _).symm
      cases (herror []).symm.trans hskip
    | varint | fixed64 | fixed32 => cases hwire
  · intro hshort fields hfields
    rw [List.forall_mem_cons] at hshort
    have hall := skippable hkeys hshort.2 hfields
    refine ⟨fun len b rest hlen hfit => ?_, ?_⟩
    · rw [parseHunk_fields hall]
      exact parseHunk_data hshort.1 hdata hlen hfit rest
    · have hskip := parseHunk_fields hall []
      rw [List.append_nil] at hskip
      rw [hskip, parseHunk]

/-- A string in field 2 and a fixed word in field 15 are skipped. -/
theorem unknown_fields_skipped_low :
    SkipsUnknown [.byte 0x12 (by decide), .byte 0x7D (by decide)] (.byte 0x0A (by decide)) :=
  (unknown_fields_skipped_iff _ _
    (List.forall_mem_cons.mpr ⟨by unfold Unknown; decide,
      List.forall_mem_singleton.mpr (by unfold Unknown; decide)⟩) rfl).mpr
    (List.forall_mem_cons.mpr ⟨rfl, List.forall_mem_cons.mpr ⟨rfl,
      List.forall_mem_singleton.mpr rfl⟩⟩)

/-- **The payload that is not the one of field 1**: field 16 holds the integer 10, whose
byte is taken for the key of field 1, and the real key for the length. -/
theorem unknown_field_misread :
    parseHunk ([0x80, 0x01, 0x0A] ++ 0x0A :: 0x0B :: List.replicate 11 7) =
        .ok (0x0B :: List.replicate 9 7) ∧
      ¬ SkipsUnknown [⟨[0x80, 0x01], .more (by decide) (.last (by decide)), by decide⟩]
        (.byte 0x0A (by decide)) := by
  have hmisread : parseHunk ([0x80, 0x01, 0x0A] ++ 0x0A :: 0x0B :: List.replicate 11 7) =
      .ok (0x0B :: List.replicate 9 7) := by
    have hfirst : parseHunk ([0x80, 0x01, 0x0A] ++ 0x0A :: 0x0B :: List.replicate 11 7) =
        parseHunk (0x0A :: 0x0A :: 0x0B :: List.replicate 11 7) :=
      parseHunk_varint (by decide) (by decide : readVarint _ = some (1, _))
    have hlen : readVarint (0x0A :: 0x0B :: List.replicate 11 7) =
        some (10, 0x0B :: List.replicate 11 7) := by decide
    rw [hfirst, parseHunk_bytes (by decide) hlen (by decide), if_pos (by decide)]
    rfl
  refine ⟨hmisread, fun hskips => ?_⟩
  have hfound := (hskips [⟨_, .varint (.byte 10 (by decide)), rfl⟩] rfl).1 (.byte 11 (by decide))
    (List.replicate 11 7) [] rfl (by decide)
  exact absurd (hmisread.symm.trans hfound) (by decide)

end XrayRs.Grpc
