import XrayRs.Crypto
import XrayRs.FramedStream

/-! # The VMess chunk body

`proxy/src/vmess/body.rs`, and `body_aead` of `proxy/src/vmess.rs`.  Each frame is
a masked length, a sealed piece and padding.  The length mask and the length of
the padding are drawn from one SHAKE128 stream, in the order (padding, length);
the nonce is a counter that wraps around.

Writer and reader start from the same `Body`.  A frame takes the writer and the
reader to the same next `Body` (`writeFrame_spec`), whatever the options are, so
a written body is a stream of `FramedStream.Frames`, and what the reader makes of
any prefix of it is known. -/

namespace XrayRs.Vmess

open ByteWords FramedStream

/-! ## The codec -/

/-- `ShakeParser`: the SHAKE128 stream of an IV and how much of it is read. -/
structure ShakeParser where
  stream : Nat → UInt8
  pos : Nat

/-- `ShakeParser::new`. -/
def ShakeParser.new (P : Primitives) (iv : Vector UInt8 16) : ShakeParser := ⟨P.shake128 iv.toList, 0⟩

/-- `ShakeParser::next_u16`. -/
def ShakeParser.nextU16 (s : ShakeParser) : UInt16 × ShakeParser :=
  (u16OfBe (s.stream s.pos) (s.stream (s.pos + 1)), { s with pos := s.pos + 2 })

/-- `Body`. -/
structure Body where
  aead : Option Aead
  iv : Vector UInt8 16
  count : UInt16
  shake : Option ShakeParser
  globalPadding : Bool

/-- The bytes `rand::fill` will give. -/
abbrev Rng := Nat → UInt8

/-- `rand::fill` of `n` bytes. -/
def Rng.fill (rng : Rng) (n : Nat) : Bytes × Rng := ((List.range n).map rng, fun i => rng (i + n))

namespace Body

/-- `Body::new`. -/
def new (P : Primitives) (aead : Option Aead) (iv : Vector UInt8 16) (masking globalPadding : Bool) :
    Body :=
  ⟨aead, iv, 0, if masking then some (.new P iv) else none, globalPadding⟩

/-- `Body::overhead`. -/
def overhead (b : Body) : Nat := if b.aead.isSome then AeadKind.tag else 0

/-- `Body::chunk_nonce`. -/
def chunkNonce (b : Body) : Bytes := u16ToBe b.count ++ (b.iv.toList.drop 2).take 10

/-- `Body::next_padding`. -/
def nextPadding (b : Body) : Nat × Body :=
  if b.globalPadding then
    match b.shake with
    | some s => (s.nextU16.1.toNat % 64, { b with shake := some s.nextU16.2 })
    | none => (0, b)
  else (0, b)

/-- `Body::mask_size`. -/
def maskSize (b : Body) (size : UInt16) : UInt16 × Body :=
  match b.shake with
  | some s => (s.nextU16.1 ^^^ size, { b with shake := some s.nextU16.2 })
  | none => (size, b)

/-- The chunk counter moves on. -/
def advance (b : Body) : Body := { b with count := b.count + 1 }

/-- `Body::seal_piece`. -/
def sealPiece (P : Primitives) (b : Body) (piece : Bytes) : Except IoError (Bytes × Body) :=
  match b.aead with
  | some aead =>
    match aead.seal P b.chunkNonce piece with
    | .ok ct => .ok (ct, b.advance)
    | .error e => .error (.other e)
  | none => .ok (piece, b.advance)

/-- `Body::open_piece`. -/
def openPiece (P : Primitives) (b : Body) (ct : Bytes) : Except IoError (Bytes × Body) :=
  match b.aead with
  | some aead =>
    match aead.open P b.chunkNonce ct with
    | .ok plain => .ok (plain, b.advance)
    | .error e => .error (.invalidData e)
  | none => .ok (ct, b.advance)

/-- `Body::encode_frame`. -/
def encodeFrame (b : Body) (rng : Rng) (ct : Bytes) (padding : Nat) : Bytes × Body × Rng :=
  let size := ct.length + padding
  let masked := b.maskSize (if size < 65536 then .ofNat size else 65535)
  let pad := rng.fill padding
  (u16ToBe masked.1 ++ ct ++ pad.1, masked.2, pad.2)

end Body

section Codec

variable (P : Primitives)

/-- The part of `read_chunk` after the length is known. -/
def readSized (b : Body) (padding size : Nat) (src : Bytes) :
    Except IoError (Option (Bytes × Body × Bytes)) :=
  let floor := b.overhead + padding
  if size = floor then .ok none
  else if size < floor then .error ⟨.invalidData, .msg "vmess chunk size"⟩
  else
    match readExact size src with
    | none => .error earlyEof
    | some (chunk, src) =>
      match b.openPiece P (chunk.take (size - padding)) with
      | .error e => .error e
      | .ok (plain, b) => .ok (some (plain, b, src))

/-- `read_chunk`, off the bytes `src`. -/
def readChunk : Reader Body Bytes IoError := fun b src =>
  match src with
  | hi :: lo :: src =>
    let padding := b.nextPadding
    let size := padding.2.maskSize (u16OfBe hi lo)
    readSized P size.2 padding.1 size.1.toNat src
  | _ => .ok none

/-- One frame of `write_chunk` or `write_terminal`. -/
def writeFrame (b : Body) (rng : Rng) (piece : Bytes) : Except IoError (Bytes × Body × Rng) :=
  let padding := b.nextPadding
  match padding.2.sealPiece P piece with
  | .error e => .error e
  | .ok (ct, b) => .ok (b.encodeFrame rng ct padding.1)

/-- The loop of `write_chunk`. -/
def writePieces : Body → Rng → List Bytes → Except IoError (Bytes × Body × Rng)
  | b, rng, [] => .ok ([], b, rng)
  | b, rng, piece :: pieces =>
    match writeFrame P b rng piece with
    | .error e => .error e
    | .ok (frame, b, rng) =>
      match writePieces b rng pieces with
      | .error e => .error e
      | .ok (out, b, rng) => .ok (frame ++ out, b, rng)

/-- The longest piece of `write_chunk`. -/
def maxPiece (b : Body) : Nat := max (8192 - b.overhead - 64) 1

/-- `write_chunk`. -/
def writeChunk (b : Body) (rng : Rng) (data : Bytes) : Except IoError (Bytes × Body × Rng) :=
  writePieces P b rng (chunks (maxPiece b) data)

/-- `write_terminal`. -/
def writeTerminal (b : Body) (rng : Rng) : Except IoError (Bytes × Body × Rng) :=
  writeFrame P b rng []

/-- `write_chunk` for each payload. -/
def writeChunks : Body → Rng → List Bytes → Except IoError (Bytes × Body × Rng)
  | b, rng, [] => .ok ([], b, rng)
  | b, rng, data :: payloads =>
    match writeChunk P b rng data with
    | .error e => .error e
    | .ok (out, b, rng) =>
      match writeChunks b rng payloads with
      | .error e => .error e
      | .ok (out', b, rng) => .ok (out ++ out', b, rng)

/-- `SEC_AES128_GCM`, `SEC_CHACHA20` and `SEC_NONE`. -/
def secAes128Gcm : UInt8 := 3
@[inherit_doc secAes128Gcm] def secChacha20 : UInt8 := 4
@[inherit_doc secAes128Gcm] def secNone : UInt8 := 5

/-- `chacha_key`. -/
def chachaKey (k : Bytes) : Bytes :=
  let a := (P.md5 k).toList
  a ++ (P.md5 a).toList

/-- `body_aead`. -/
def bodyAead (security : UInt8) (key : Vector UInt8 16) : Except IoError (Option Aead) :=
  let mk := fun kind k =>
    match Aead.new kind k with
    | .ok aead => .ok (some aead)
    | .error e => .error (IoError.other e)
  if security = secAes128Gcm then mk .aes128Gcm key.toList
  else if security = secChacha20 then mk .chaCha20Poly1305 (chachaKey P key.toList)
  else if security = secNone then .ok none
  else .error ⟨.invalidData, .msg "vmess security"⟩

end Codec

/-! ## Writer and reader in step -/

namespace Body

variable (b : Body)

theorem nextPadding_lt : b.nextPadding.1 < 64 := by
  unfold nextPadding
  split
  · split
    · exact Nat.mod_lt _ (by decide)
    · exact Nat.zero_lt_succ _
  · exact Nat.zero_lt_succ _

@[simp] theorem nextPadding_aead : b.nextPadding.2.aead = b.aead := by
  unfold nextPadding
  split
  · split <;> rfl
  · rfl

@[simp] theorem maskSize_aead (size : UInt16) : (b.maskSize size).2.aead = b.aead := by
  unfold maskSize
  split <;> rfl

/-- Masking twice gives the size back. -/
theorem maskSize_maskSize (size : UInt16) : (b.maskSize (b.maskSize size).1).1 = size := by
  unfold maskSize
  split
  · next s _ => simp only [← UInt16.xor_assoc, UInt16.xor_self, UInt16.zero_xor]
  · rfl

/-- What is drawn from the stream does not depend on the size. -/
theorem maskSize_snd (size size' : UInt16) : (b.maskSize size).2 = (b.maskSize size').2 := by
  unfold maskSize
  split <;> rfl

/-- Sealing and masking do not interfere: the counter is not in the mask, nor the
stream in the nonce. -/
theorem advance_maskSize (size : UInt16) :
    b.advance.maskSize size = ((b.maskSize size).1, (b.maskSize size).2.advance) := by
  obtain ⟨aead, iv, count, shake, globalPadding⟩ := b
  cases shake <;> rfl

theorem maskSize_openPiece (P : Primitives) (size : UInt16) (ct : Bytes) :
    (b.maskSize size).2.openPiece P ct =
      (b.openPiece P ct).map fun r => (r.1, (b.maskSize size).2.advance) := by
  have hnonce : (b.maskSize size).2.chunkNonce = b.chunkNonce := by
    unfold maskSize
    split <;> rfl
  unfold openPiece
  rw [maskSize_aead, hnonce]
  cases b.aead with
  | none => rfl
  | some aead =>
    simp only
    cases aead.open P b.chunkNonce ct <;> rfl

/-- The cipher takes the nonces that `chunk_nonce` makes. -/
def TakesNonce (b : Body) : Prop := ∀ a, b.aead = some a → a.kind.nonceSize = 12

theorem TakesNonce.of_aead_eq {b b' : Body} (hb : b.TakesNonce) (h : b'.aead = b.aead) :
    b'.TakesNonce := by
  intro a ha
  exact hb a (h.symm.trans ha)

/-- A sealed piece is longer by the overhead, and opens again. -/
theorem sealPiece_spec {P : Primitives} (hP : P.Lawful) (hb : b.TakesNonce) {piece : Bytes}
    (hlen : piece.length < 2 ^ 16) :
    ∃ ct, b.sealPiece P piece = .ok (ct, b.advance) ∧ ct.length = piece.length + b.overhead ∧
      b.openPiece P ct = .ok (piece, b.advance) := by
  unfold sealPiece openPiece overhead
  cases haead : b.aead with
  | none => exact ⟨piece, rfl, rfl, rfl⟩
  | some a =>
    have hnonce : b.chunkNonce.length = a.kind.nonceSize := by
      rw [hb a haead]
      simp [chunkNonce]
    obtain ⟨ct, hseal, hct, hopen⟩ := a.open_seal hP hnonce hlen
    refine ⟨ct, ?_, hct, ?_⟩
    · simp only [hseal]
    · simp only [hopen]

end Body

section Frames

variable {P : Primitives}

/-- Behind a masked length, `read_chunk` goes on with that length. -/
theorem readChunk_masked (b : Body) (size : UInt16) (src : Bytes) :
    readChunk P b (u16ToBe (b.nextPadding.2.maskSize size).1 ++ src) =
      readSized P (b.nextPadding.2.maskSize size).2 b.nextPadding.1 size.toNat src := by
  unfold readChunk u16ToBe
  simp only [List.cons_append, List.nil_append, u16OfBe_toBe]
  rw [Body.maskSize_maskSize, Body.maskSize_snd _ _ size]

/-- A source of less than two bytes is a clean end. -/
theorem readChunk_of_short (b : Body) {src : Bytes} (h : src.length < 2) :
    readChunk P b src = .ok none := by
  match src with
  | [] => rfl
  | [_] => rfl
  | _ :: _ :: src => exact absurd h (by simp)

/-- A prefix of a frame ends in its length field, or the field is all there. -/
theorem prefix_u16_cases {m : UInt16} {body w : Bytes} (h : w <+: u16ToBe m ++ body) :
    w.length < 2 ∨ ∃ w', w = u16ToBe m ++ w' ∧ w' <+: body := by
  by_cases hlen : w.length < 2
  · exact .inl hlen
  · obtain ⟨w', rfl⟩ : u16ToBe m <+: w :=
      List.prefix_of_prefix_length_le (List.prefix_append _ _) h (by simp; omega)
    exact .inr ⟨w', rfl, (List.prefix_append_right_inj _).mp h⟩

section Sized

variable {b b' : Body} {padding size : Nat} {src ct plain : Bytes}

/-- Just the overhead and the padding: the terminal frame. -/
theorem readSized_of_floor (h : size = b.overhead + padding) :
    readSized P b padding size src = .ok none := by
  unfold readSized
  exact if_pos h

theorem readSized_of_cut (h : b.overhead + padding < size) (hsrc : src.length < size) :
    readSized P b padding size src = .error earlyEof := by
  unfold readSized
  simp only
  rw [if_neg (by omega), if_neg (by omega), readExact_eq_none.mpr hsrc]

theorem readSized_of_whole (h : b.overhead < ct.length) (hopen : b.openPiece P ct = .ok (plain, b'))
    (pad : Bytes) (rest : Bytes) :
    readSized P b pad.length (ct.length + pad.length) (ct ++ pad ++ rest) =
      .ok (some (plain, b', rest)) := by
  unfold readSized
  simp only
  rw [if_neg (by omega), if_neg (by omega), readExact_append (by simp)]
  simp only [Nat.add_sub_cancel, List.take_left', hopen]

end Sized

/-- The shape of a written frame: a masked length, the sealed piece and padding.
Behind the length `read_chunk` is in a state `b₁` that opens the piece and gets to
where the writer is. -/
theorem writeFrame_shape (hP : P.Lawful) (b : Body) (hb : b.TakesNonce) (rng : Rng) {piece : Bytes}
    (hlen : piece.length ≤ 8192) :
    ∃ m ct pad b₁ b' rng', writeFrame P b rng piece = .ok (u16ToBe m ++ (ct ++ pad), b', rng') ∧
      b'.aead = b.aead ∧ b₁.overhead = b.overhead ∧ ct.length = piece.length + b.overhead ∧
      b₁.openPiece P ct = .ok (piece, b') ∧
      ∀ src, readChunk P b (u16ToBe m ++ src) =
        readSized P b₁ pad.length (ct.length + pad.length) src := by
  have hpad := b.nextPadding_lt
  have hshort : piece.length < 2 ^ 16 := by omega
  obtain ⟨ct, hseal, hct, hopen⟩ :=
    b.nextPadding.2.sealPiece_spec hP (hb.of_aead_eq b.nextPadding_aead) hshort
  have hover : b.nextPadding.2.overhead = b.overhead := by
    rw [Body.overhead, Body.nextPadding_aead, Body.overhead]
  have hover_le : b.overhead ≤ 16 := by
    unfold Body.overhead AeadKind.tag
    split <;> decide
  rw [hover] at hct
  -- the size fits its field, and both sides draw the same mask for it
  have hsize : ct.length + b.nextPadding.1 < 65536 := by omega
  let size : UInt16 := .ofNat (ct.length + b.nextPadding.1)
  have hsize_toNat : size.toNat = ct.length + b.nextPadding.1 := by
    rw [UInt16.toNat_ofNat']
    exact Nat.mod_eq_of_lt hsize
  let mask := b.nextPadding.2.maskSize size
  have hpads : ((rng.fill b.nextPadding.1).1).length = b.nextPadding.1 := by simp [Rng.fill]
  refine ⟨mask.1, ct, (rng.fill b.nextPadding.1).1, mask.2, mask.2.advance,
    (rng.fill b.nextPadding.1).2, ?_, by simp [mask, Body.advance], ?_, hct, ?_, fun src => ?_⟩
  · unfold writeFrame Body.encodeFrame
    simp only [hseal, if_pos hsize, Body.advance_maskSize, List.append_assoc]
    rfl
  · rw [Body.overhead, Body.maskSize_aead, ← Body.overhead, hover]
  · rw [Body.maskSize_openPiece, hopen]
    rfl
  · rw [hpads, ← hsize_toNat]
    exact readChunk_masked b size src

/-- **One frame.**  A written frame of a non-empty piece is read back as that
piece, and takes the reader to where the writer is; cut in its length field it is
a clean end, cut later an early end of file.  The frame of the empty piece is a
clean end, cut or not. -/
theorem writeFrame_spec (hP : P.Lawful) (b : Body) (hb : b.TakesNonce) (rng : Rng) {piece : Bytes}
    (hlen : piece.length ≤ 8192) :
    ∃ frame b' rng', writeFrame P b rng piece = .ok (frame, b', rng') ∧ b'.aead = b.aead ∧
      (piece ≠ [] → (∀ rest, readChunk P b (frame ++ rest) = .ok (some (piece, b', rest))) ∧
        ∀ w, w <+: frame → w.length < frame.length →
          readChunk P b w = if w.length < 2 then .ok none else .error earlyEof) ∧
      (piece = [] → ∀ w, w <+: frame → readChunk P b w = .ok none) := by
  obtain ⟨m, ct, pad, b₁, b', rng', hwrite, haead, hover, hct, hopen, hread⟩ :=
    writeFrame_shape hP b hb rng hlen
  refine ⟨_, b', rng', hwrite, haead, fun hne => ⟨fun rest => ?_, fun w hw hwlen => ?_⟩,
    fun he w hw => ?_⟩
  · have hpos : 0 < piece.length := List.length_pos_iff.mpr hne
    rw [List.append_assoc, hread]
    exact readSized_of_whole (by omega) hopen pad rest
  · have hpos : 0 < piece.length := List.length_pos_iff.mpr hne
    rcases prefix_u16_cases hw with hshort | ⟨w', rfl, hw'⟩
    · rw [readChunk_of_short b hshort, if_pos hshort]
    · have hlong : ¬(u16ToBe m ++ w').length < 2 := by
        rw [List.length_append, u16ToBe_length]
        omega
      have hcut : w'.length < ct.length + pad.length := by
        rw [List.length_append, List.length_append, List.length_append] at hwlen
        omega
      rw [if_neg hlong, hread]
      exact readSized_of_cut (by omega) hcut
  · rcases prefix_u16_cases hw with hshort | ⟨w', rfl, hw'⟩
    · exact readChunk_of_short b hshort
    · rw [hread]
      exact readSized_of_floor (by rw [hct, hover, he, List.length_nil, Nat.zero_add])

theorem frame_length_pos {b b' : Body} {rng rng' : Rng} {piece frame : Bytes}
    (h : writeFrame P b rng piece = .ok (frame, b', rng')) : 0 < frame.length := by
  unfold writeFrame Body.encodeFrame at h
  simp only at h
  split at h
  · cases h
  · cases h
    rw [List.length_append, List.length_append, u16ToBe_length]
    omega

/-- **The frames of a list of pieces.** -/
theorem writePieces_spec (hP : P.Lawful) : ∀ (pieces : List Bytes) (b : Body) (rng : Rng),
    b.TakesNonce → (∀ piece ∈ pieces, piece ≠ [] ∧ piece.length ≤ 8192) →
    ∃ fs b' rng', writePieces P b rng pieces = .ok (wire fs, b', rng') ∧ b'.aead = b.aead ∧
      fs.map Prod.fst = pieces ∧ Frames (readChunk P) 2 earlyEof b fs b' := by
  intro pieces
  induction pieces with
  | nil =>
    intro b rng _ _
    exact ⟨[], b, rng, rfl, rfl, rfl, .nil b⟩
  | cons piece pieces ih =>
    intro b rng hb hpieces
    obtain ⟨⟨hne, hlen⟩, hrest⟩ := List.forall_mem_cons.mp hpieces
    obtain ⟨frame, b₁, rng₁, hframe, haead₁, hread, -⟩ := writeFrame_spec hP b hb rng hlen
    obtain ⟨hwhole, hcut⟩ := hread hne
    have hb₁ : b₁.TakesNonce := hb.of_aead_eq haead₁
    obtain ⟨fs, b₂, rng₂, hwrite, haead₂, hfst, hframes⟩ := ih b₁ rng₁ hb₁ hrest
    refine ⟨(piece, frame) :: fs, b₂, rng₂, ?_, haead₂.trans haead₁, by rw [List.map_cons, hfst],
      .cons (frame_length_pos hframe) hwhole hcut hframes⟩
    simp [writePieces, hframe, hwrite, wire]

theorem maxPiece_pos (b : Body) : 0 < maxPiece b :=
  Nat.lt_of_lt_of_le Nat.one_pos (Nat.le_max_right ..)

/-- **The frames of a list of payloads**: those of their pieces. -/
theorem writeChunks_spec (hP : P.Lawful) : ∀ (payloads : List Bytes) (b : Body) (rng : Rng),
    b.TakesNonce → ∃ fs b' rng', writeChunks P b rng payloads = .ok (wire fs, b', rng') ∧
      b'.aead = b.aead ∧ fs.map Prod.fst = payloads.flatMap (chunks (maxPiece b)) ∧
      Frames (readChunk P) 2 earlyEof b fs b' := by
  intro payloads
  induction payloads with
  | nil =>
    intro b rng _
    exact ⟨[], b, rng, rfl, rfl, rfl, .nil b⟩
  | cons data payloads ih =>
    intro b rng hb
    have hpieces : ∀ piece ∈ chunks (maxPiece b) data, piece ≠ [] ∧ piece.length ≤ 8192 := by
      intro piece hp
      obtain ⟨hne, hlen⟩ := mem_chunks (maxPiece_pos b) hp
      refine ⟨hne, ?_⟩
      unfold maxPiece at hlen
      omega
    obtain ⟨fs₁, b₁, rng₁, hwrite₁, haead₁, hfst₁, hframes₁⟩ := writePieces_spec hP _ b rng hb hpieces
    have hb₁ : b₁.TakesNonce := hb.of_aead_eq haead₁
    have hmax : maxPiece b₁ = maxPiece b := by
      rw [maxPiece, Body.overhead, haead₁]
      rfl
    obtain ⟨fs₂, b₂, rng₂, hwrite₂, haead₂, hfst₂, hframes₂⟩ := ih b₁ rng₁ hb₁
    refine ⟨fs₁ ++ fs₂, b₂, rng₂, ?_, haead₂.trans haead₁, ?_, hframes₁.append hframes₂⟩
    · simp [writeChunks, writeChunk, hwrite₁, hwrite₂, wire_append]
    · rw [List.map_append, hfst₁, hfst₂, hmax, List.flatMap_cons]

/-- The security kinds have a cipher, or none, that takes a body's nonces. -/
theorem bodyAead_spec (P : Primitives) {security : UInt8}
    (h : security ∈ [secAes128Gcm, secChacha20, secNone]) (key : Vector UInt8 16) :
    ∃ aead, bodyAead P security key = .ok aead ∧ ∀ a, aead = some a → a.kind.nonceSize = 12 := by
  have hkey : key.toList.length = AeadKind.keySize .aes128Gcm := by simp [AeadKind.keySize]
  have hchacha : (chachaKey P key.toList).length = AeadKind.keySize .chaCha20Poly1305 := by
    simp [chachaKey, AeadKind.keySize]
  rcases List.mem_cons.mp h with rfl | h
  · refine ⟨_, by simp [bodyAead, Aead.new_of_length hkey]; rfl, ?_⟩
    rintro _ ⟨⟩
    rfl
  · rcases List.mem_cons.mp h with rfl | h
    · refine ⟨_, by simp [bodyAead, secChacha20, secAes128Gcm, Aead.new_of_length hchacha]; rfl, ?_⟩
      rintro _ ⟨⟩
      rfl
    · rw [List.mem_singleton.mp h]
      exact ⟨none, rfl, nofun⟩

/-- **The body codec.**  For every key, IV, security kind and options, every list
of payloads and every padding: with `W` the bytes a fresh `Body` writes for the
payloads and the terminal frame, the calls of `read_chunk` by a fresh `Body` on
any prefix of `W` give the pieces of the frames that lie wholly within it.  Then
they see the clean end if the prefix ends in a length field or reaches the
terminal frame, and an early end of file otherwise.  On `W` itself the pieces
are the whole payload. -/
theorem body_roundtrip (hP : P.Lawful) {security : UInt8}
    (hsec : security ∈ [secAes128Gcm, secChacha20, secNone]) (key iv : Vector UInt8 16)
    (masking globalPadding : Bool) (rng : Rng) (payloads : List Bytes) :
    ∃ aead, bodyAead P security key = .ok aead ∧
      ∃ fs terminal b₁ rng₁ b₂ rng₂,
        writeChunks P (.new P aead iv masking globalPadding) rng payloads = .ok (wire fs, b₁, rng₁) ∧
        writeTerminal P b₁ rng₁ = .ok (terminal, b₂, rng₂) ∧
        fs.map Prod.fst =
          payloads.flatMap (chunks (maxPiece (.new P aead iv masking globalPadding))) ∧
        (fs.map Prod.fst).flatten = payloads.flatten ∧
        (∀ w, w <+: wire fs ++ terminal →
          readAll (readChunk P) (.new P aead iv masking globalPadding) w =
            some ((fs.map Prod.fst).take (whole fs w).1,
              if (whole fs w).2.length < 2 ∨ (whole fs w).1 = fs.length then .ok ()
              else .error earlyEof) ∧
          ((fs.map Prod.fst).take (whole fs w).1).flatten <+: payloads.flatten) ∧
        readAll (readChunk P) (.new P aead iv masking globalPadding) (wire fs ++ terminal) =
          some (fs.map Prod.fst, .ok ()) := by
  obtain ⟨aead, haead, hnonce⟩ := bodyAead_spec P hsec key
  refine ⟨aead, haead, ?_⟩
  have hb : (Body.new P aead iv masking globalPadding).TakesNonce := hnonce
  obtain ⟨fs, b₁, rng₁, hwrite, haead₁, hfst, hframes⟩ := writeChunks_spec hP payloads _ rng hb
  have hb₁ : b₁.TakesNonce := hb.of_aead_eq haead₁
  obtain ⟨terminal, b₂, rng₂, hterm, -, -, hend⟩ :=
    writeFrame_spec hP b₁ hb₁ rng₁ (show ([] : Bytes).length ≤ 8192 from Nat.zero_le _)
  have hflatten : (fs.map Prod.fst).flatten = payloads.flatten := by
    rw [hfst, flatten_flatMap_chunks (maxPiece_pos _)]
  refine ⟨fs, terminal, b₁, rng₁, b₂, rng₂, hwrite, hterm, hfst, hflatten, fun w hw => ⟨?_, ?_⟩,
    hframes.readAll_wire (hend rfl)⟩
  · exact readLoop_prefix hframes (hend rfl) hw (Nat.lt_succ_self _)
  · rw [← hflatten]
    nth_rewrite 2 [← List.take_append_drop (whole fs w).1 (fs.map Prod.fst)]
    rw [List.flatten_append]
    exact List.prefix_append _ _

end Frames

theorem body_roundtrip_chacha :
    ∃ aead W xs, bodyAead chachaPrimitives secChacha20 (.replicate 16 7) = .ok aead ∧
      readAll (readChunk chachaPrimitives)
          (.new chachaPrimitives aead (.replicate 16 9) false true) W =
        some (xs, .ok ()) ∧ xs.flatten = [104, 105, 33] := by
  obtain ⟨aead, haead, fs, terminal, -, -, -, -, -, -, -, hflatten, -, hread⟩ :=
    body_roundtrip chachaPrimitives_lawful (show secChacha20 ∈ _ by decide) (.replicate 16 7)
      (.replicate 16 9) false true (fun _ => 0) [[104, 105], [], [33]]
  exact ⟨aead, _, _, haead, hread, hflatten⟩

end XrayRs.Vmess
