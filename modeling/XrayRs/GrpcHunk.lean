import XrayRs.ByteWords

/-! # The frames of the gRPC tunnel

`grpc_header`, `encode_hunk`, `try_decode`, `parse_hunk` and the base-128 integers they
use (`transport/src/grpc.rs`).  A frame is a flag, the length of a message and the
message, a protobuf with the payload as its field 1.

What was encoded is decoded whatever follows it (`Framed.tryDecode`), and a frame that
is cut short asks for more (`Framed.tryDecode_cut`). -/

namespace XrayRs.Grpc

open ByteWords

/-! ## The codec -/

/-- The errors of the tunnel: of its frames, with their text, and of the HTTP/2 stream. -/
inductive Error
  | invalidData (msg : String)
  | stream
  | brokenPipe
  deriving DecidableEq

/-- The error of `parse_hunk`. -/
def Error.malformed : Error := .invalidData "grpc: malformed hunk"

/-- `MAX_FRAME`. -/
def maxFrame : Nat := 16777216

/-- `varint_len`. -/
def varintLen (v : Nat) : Nat := if v < 0x80 then 1 else varintLen (v / 2 ^ 7) + 1

theorem varintLen_pos (v : Nat) : 0 < varintLen v := by
  rw [varintLen]
  split
  · exact Nat.one_pos
  · exact Nat.succ_pos _

/-- `put_varint`. -/
def putVarint (v : Nat) : Bytes :=
  if v < 0x80 then [UInt8.ofNat v] else (UInt8.ofNat v ||| 0x80) :: putVarint (v / 2 ^ 7)

/-- The loop of `read_varint`. -/
def readVarintFrom (result shift : Nat) : Bytes → Option (Nat × Bytes)
  | [] => none
  | byte :: rest =>
    if 64 ≤ shift then none
    else
      let result := result ||| ((byte &&& 0x7f).toNat <<< shift) % 2 ^ 64
      if byte &&& 0x80 = 0 then some (result, rest) else readVarintFrom result (shift + 7) rest

/-- `read_varint`. -/
def readVarint (src : Bytes) : Option (Nat × Bytes) := readVarintFrom 0 0 src

/-- `grpc_header`.  The length of the message has to fit in 32 bits. -/
def grpcHeader (payloadLen : Nat) : Except Error Bytes :=
  let protoLen := 1 + varintLen payloadLen + payloadLen
  if protoLen < 2 ^ 32 then .ok (0 :: u32ToBe protoLen ++ 0x0A :: putVarint payloadLen)
  else .error (.invalidData "grpc: frame length overflow")

/-- `encode_hunk`. -/
def encodeHunk (payload : Bytes) : Except Error Bytes := do
  let header ← grpcHeader payload.length
  return header ++ payload

theorem length_of_readVarintFrom {result shift : Nat} {src rest : Bytes} {v : Nat}
    (h : readVarintFrom result shift src = some (v, rest)) : rest.length < src.length := by
  induction src generalizing result shift with
  | nil => cases h
  | cons byte src ih =>
    rw [readVarintFrom] at h
    split at h
    · cases h
    · simp only at h
      split at h
      · cases h
        exact Nat.lt_succ_self _
      · exact Nat.lt_succ_of_lt (ih h)

/-- `parse_hunk`: the bytes of field 1.  Other fields are skipped by their wire type. -/
def parseHunk (m : Bytes) : Except Error Bytes :=
  match m with
  | [] => .ok []
  | tag :: m =>
    if tag &&& 0x07 = 0 then
      match h : readVarint m with
      | none => .error .malformed
      | some (_, r) =>
        have := length_of_readVarintFrom h
        parseHunk r
    else if tag &&& 0x07 = 2 then
      match h : readVarint m with
      | none => .error .malformed
      | some (len, r) =>
        have := length_of_readVarintFrom h
        if len ≤ r.length then
          if tag >>> 3 = 1 then .ok (r.take len) else parseHunk (r.drop len)
        else .error .malformed
    else if tag &&& 0x07 = 5 then
      if 4 ≤ m.length then parseHunk (m.drop 4) else .error .malformed
    else if tag &&& 0x07 = 1 then
      if 8 ≤ m.length then parseHunk (m.drop 8) else .error .malformed
    else .error .malformed
termination_by m.length
decreasing_by all_goals (simp only [List.length_cons, List.length_drop]; omega)

/-- `try_decode`: the payload of the first frame and what follows it.  `none` asks for
more. -/
def tryDecode (buf : Bytes) : Except Error (Option (Bytes × Bytes)) :=
  match buf with
  | flag :: a :: b :: c :: d :: rest =>
    if flag ≠ 0 then .error (.invalidData "grpc: compressed frames unsupported")
    else
      let msgLen := (u32OfBe [a, b, c, d]).toNat
      if maxFrame < msgLen then .error (.invalidData "grpc: frame too large")
      else if msgLen ≤ rest.length then do
        let payload ← parseHunk (rest.take msgLen)
        return some (payload, rest.drop msgLen)
      else .ok none
  | _ => .ok none

/-! ## Base-128 integers -/

theorem marked_byte : ∀ b : UInt8, ((b ||| 0x80) &&& 0x7f).toNat = b.toNat % 128 ∧
    (b ||| 0x80) &&& 0x80 ≠ 0 := by
  decide +kernel

/-- The first byte of a longer integer has the low seven bits and goes on. -/
theorem low_byte (v : Nat) : ((UInt8.ofNat v ||| 0x80) &&& 0x7f).toNat = v % 128 ∧
    (UInt8.ofNat v ||| 0x80) &&& 0x80 ≠ 0 := by
  have h := marked_byte (UInt8.ofNat v)
  rwa [UInt8.toNat_ofNat', Nat.mod_mod_of_dvd v (by decide)] at h

/-- The last byte has all that is left and ends it. -/
theorem last_byte : ∀ n : Fin 128, (UInt8.ofNat n &&& 0x7f).toNat = n.val ∧
    UInt8.ofNat n &&& 0x80 = 0 := by
  decide +kernel

theorem length_putVarint (v : Nat) : (putVarint v).length = varintLen v := by
  induction v using Nat.strongRecOn with
  | ind v ih =>
    rw [putVarint, varintLen]
    by_cases hv : v < 0x80
    · rw [if_pos hv, if_pos hv]
      rfl
    · rw [if_neg hv, if_neg hv, List.length_cons, ih _ (by omega)]

/-- **What was put is read.** -/
theorem readVarintFrom_putVarint (v result shift : Nat) (hresult : result < 2 ^ shift)
    (hfit : v * 2 ^ shift < 2 ^ 64) (hshift : shift < 64) (rest : Bytes) :
    readVarintFrom result shift (putVarint v ++ rest) = some (result + v * 2 ^ shift, rest) := by
  induction v using Nat.strongRecOn generalizing result shift with
  | ind v ih =>
    -- a digit goes above the digits read before
    have hor : ∀ d, d * 2 ^ shift < 2 ^ 64 →
        result ||| (d <<< shift) % 2 ^ 64 = result + d * 2 ^ shift := by
      intro d hd
      rw [Nat.shiftLeft_eq, Nat.mod_eq_of_lt hd, Nat.or_comm, ← Nat.shiftLeft_eq,
        ← Nat.shiftLeft_add_eq_or_of_lt hresult, Nat.shiftLeft_eq, Nat.add_comm]
    rw [putVarint]
    by_cases hv : v < 0x80
    · obtain ⟨hdigit, hlast⟩ := last_byte ⟨v, hv⟩
      rw [if_pos hv, List.singleton_append, readVarintFrom, if_neg (Nat.not_le.mpr hshift)]
      simp only at hdigit hlast
      simp only [hdigit, hlast, if_true, hor v hfit]
    · obtain ⟨hdigit, hmore⟩ := low_byte v
      have hsplit : v * 2 ^ shift = v % 128 * 2 ^ shift + v / 2 ^ 7 * 2 ^ (shift + 7) := by
        have hdiv := Nat.mod_add_div v 128
        calc v * 2 ^ shift = (v % 128 + 128 * (v / 128)) * 2 ^ shift := by rw [hdiv]
          _ = v % 128 * 2 ^ shift + v / 2 ^ 7 * 2 ^ (shift + 7) := by
            rw [Nat.add_mul, Nat.pow_add, Nat.mul_comm 128, Nat.mul_assoc, Nat.mul_comm 128]
            rfl
      have hnext : shift + 7 < 64 := by
        have hle : 2 ^ 7 * 2 ^ shift ≤ v * 2 ^ shift := Nat.mul_le_mul_right _ (by omega)
        rw [← Nat.pow_add, Nat.add_comm] at hle
        exact (Nat.pow_lt_pow_iff_right (by decide)).mp (Nat.lt_of_le_of_lt hle hfit)
      have hdigit_lt : result + v % 128 * 2 ^ shift < 2 ^ (shift + 7) := by
        have hle : v % 128 * 2 ^ shift ≤ 127 * 2 ^ shift := Nat.mul_le_mul_right _ (by omega)
        rw [Nat.pow_add]
        omega
      rw [if_neg hv, List.cons_append, readVarintFrom, if_neg (Nat.not_le.mpr hshift)]
      simp only [hdigit, hmore, if_false, hor (v % 128) (by omega)]
      rw [ih _ (by omega) _ _ hdigit_lt (by omega) hnext, hsplit, Nat.add_assoc]

theorem readVarint_putVarint {v : Nat} (hv : v < 2 ^ 64) (rest : Bytes) :
    readVarint (putVarint v ++ rest) = some (v, rest) := by
  rw [readVarint, readVarintFrom_putVarint v 0 0 (by decide) (by omega) (by decide)]
  simp

/-! ## Frames -/

/-- The message of a payload. -/
def message (payload : Bytes) : Bytes := 0x0A :: putVarint payload.length ++ payload

theorem length_message (payload : Bytes) :
    (message payload).length = 1 + varintLen payload.length + payload.length := by
  simp only [message, List.cons_append, List.length_cons, List.length_append, length_putVarint]
  omega

/-- **An encoded frame** is the flag, the length and the message. -/
theorem encodeHunk_eq_ok {payload frame : Bytes} (h : encodeHunk payload = .ok frame) :
    (message payload).length < 2 ^ 32 ∧
      frame = 0 :: u32ToBe (message payload).length ++ message payload := by
  rw [length_message]
  simp only [encodeHunk, grpcHeader] at h
  split at h
  · next hlt =>
    cases h
    exact ⟨hlt, by simp [message, u32ToBe]⟩
  · cases h

theorem parseHunk_message {payload : Bytes} (h : payload.length < 2 ^ 64) :
    parseHunk (message payload) = .ok payload := by
  have htag : (0x0A : UInt8) &&& 0x07 = 2 := by decide
  have hfield : (0x0A : UInt8) >>> 3 = 1 := by decide
  rw [message, List.cons_append, parseHunk]
  simp only [htag, hfield]
  rw [if_neg (by decide), if_pos trivial]
  split
  · next hread =>
    rw [readVarint_putVarint h] at hread
    cases hread
  · next hread =>
    rw [readVarint_putVarint h] at hread
    cases hread
    simp

/-- A frame's first five bytes announce the message. -/
theorem tryDecode_head {n : Nat} (hn : n ≤ maxFrame) (rest : Bytes) :
    tryDecode (0 :: u32ToBe n ++ rest) =
      if n ≤ rest.length then do
        let payload ← parseHunk (rest.take n)
        return some (payload, rest.drop n)
      else .ok none := by
  have hlen : (u32OfBe (u32ToBe n)).toNat = n :=
    u32OfBe_toBe (Nat.lt_of_le_of_lt hn (by decide))
  rw [u32ToBe] at hlen ⊢
  rw [List.cons_append, List.cons_append, List.cons_append, List.cons_append, List.cons_append,
    List.nil_append, tryDecode]
  simp only [hlen, if_neg (Nat.not_lt.mpr hn), ne_eq, not_true_eq_false, if_false]

theorem length_of_tryDecode {buf payload rest : Bytes}
    (h : tryDecode buf = .ok (some (payload, rest))) : rest.length < buf.length := by
  unfold tryDecode at h
  split at h
  · split at h
    · cases h
    · simp only at h
      split at h
      · cases h
      · split at h
        · cases hparse : parseHunk _ with
          | error e => rw [hparse] at h; cases h
          | ok p =>
            rw [hparse] at h
            cases h
            simp only [List.length_drop, List.length_cons]
            omega
        · cases h
  · cases h

theorem tryDecode_short {w : Bytes} (h : w.length < 5) : tryDecode w = .ok none := by
  unfold tryDecode
  split
  · simp only [List.length_cons] at h
    omega
  · rfl

/-- A payload, its frame, and that the frame is not too large to be read. -/
structure Framed (payload frame : Bytes) : Prop where
  encoded : encodeHunk payload = .ok frame
  small : frame.length ≤ 5 + maxFrame

theorem Framed.eq {payload frame : Bytes} (h : Framed payload frame) :
    frame = 0 :: u32ToBe (message payload).length ++ message payload ∧
      (message payload).length ≤ maxFrame := by
  obtain ⟨-, heq⟩ := encodeHunk_eq_ok h.encoded
  have hsmall := h.small
  rw [heq] at hsmall
  simp only [u32ToBe, List.cons_append, List.nil_append, List.length_cons] at hsmall
  exact ⟨heq, by omega⟩

/-- Up to 127 bytes, the length of the payload is one byte. -/
theorem framed_short {payload : Bytes} (h : payload.length < 0x80) :
    Framed payload
      (0 :: u32ToBe (2 + payload.length) ++ 0x0A :: UInt8.ofNat payload.length :: payload) := by
  have hput : putVarint payload.length = [UInt8.ofNat payload.length] := by
    rw [putVarint, if_pos h]
  have hlen : varintLen payload.length = 1 := by
    rw [varintLen, if_pos h]
  refine ⟨?_, ?_⟩
  · rw [encodeHunk, grpcHeader, hput, hlen, if_pos (by omega)]
    simp only [Nat.reduceAdd]
    rfl
  · simp only [u32ToBe, List.cons_append, List.nil_append, List.length_cons, maxFrame]
    omega

/-- **A frame is decoded, whatever follows it.** -/
theorem Framed.tryDecode {payload frame : Bytes} (h : Framed payload frame) (rest : Bytes) :
    tryDecode (frame ++ rest) = .ok (some (payload, rest)) := by
  obtain ⟨heq, hlen⟩ := h.eq
  have hpayload : payload.length < 2 ^ 64 := by
    rw [length_message] at hlen
    exact Nat.lt_of_le_of_lt (by omega) (show maxFrame < 2 ^ 64 by decide)
  rw [heq, List.append_assoc, tryDecode_head hlen, if_pos (by simp), List.take_left, List.drop_left,
    parseHunk_message hpayload]
  rfl

/-- **A frame that is cut short asks for more.** -/
theorem Framed.tryDecode_cut {payload frame w : Bytes} (h : Framed payload frame)
    (hw : w <+: frame) (hlt : w.length < frame.length) : Grpc.tryDecode w = .ok none := by
  obtain ⟨heq, hlen⟩ := h.eq
  rw [heq] at hw hlt
  by_cases hshort : w.length < 5
  · exact tryDecode_short hshort
  · obtain ⟨rest, rfl⟩ : 0 :: u32ToBe (message payload).length <+: w :=
      List.prefix_of_prefix_length_le (List.prefix_append _ _) hw (Nat.not_lt.mp hshort)
    rw [tryDecode_head hlen, if_neg]
    rw [List.length_append, List.length_append] at hlt
    omega

end XrayRs.Grpc
