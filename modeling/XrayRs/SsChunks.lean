import XrayRs.Crypto
import XrayRs.FramedStream

/-! # The Shadowsocks chunk stream

`ss_read_chunk` and `ss_write_chunks`, of which there are two copies: the
inbound's (`proxy/src/shadowsocks.rs`) and the outbound's
(`proxy/src/outbound.rs`).  A chunk is two sealed records, its length and its
payload, each under the next value of a nonce counter.

The copies read alike but for their errors and for a bound the outbound puts on
the length; they write alike.  Either reader takes off what either writer wrote
(`readAll_writeEach`), and under an ideal cipher either reader gives nothing but a
prefix of what was written, whatever bytes it is fed (`chunks_authentic`). -/

namespace XrayRs.Ss

open ByteWords FramedStream

/-- `TAG`, `SS_TAG`. -/
def tag : Nat := AeadKind.tag

/-- `MAX_CHUNK`, `SS_MAX_CHUNK`. -/
def maxChunk : Nat := 0x3fff

/-! ## Reading -/

section Read

variable (P : Primitives)

/-- Read one chunk: `chunkLen` reads the length off its record, `openErr` is the
error of a record that does not open. -/
def readChunkWith (chunkLen : Bytes → Except IoError Nat) (openErr : Error → IoError) (aead : Aead) :
    Reader NonceCtr Bytes IoError := fun nonce src =>
  match readExact (2 + tag) src with
  | none => .ok none
  | some (lenct, src) =>
    match aead.open P nonce.bytes lenct with
    | .error e => .error (openErr e)
    | .ok lenpt =>
      match chunkLen lenpt with
      | .error e => .error e
      | .ok length =>
        match readExact (length + tag) src with
        | none => .error earlyEof
        | some (payct, src) =>
          match aead.open P nonce.inc.bytes payct with
          | .error e => .error (openErr e)
          | .ok pay => .ok (some (pay, nonce.inc.inc, src))

/-- `chunk_len` of the inbound. -/
def chunkLen : Bytes → Except IoError Nat
  | hi :: lo :: _ => .ok (u16OfBe hi lo).toNat
  | _ => .error ⟨.invalidData, .msg "len"⟩

/-- `ss_chunk_len` of the outbound. -/
def ssChunkLen : Bytes → Except IoError Nat
  | hi :: lo :: _ =>
    let len := (u16OfBe hi lo).toNat
    if maxChunk < len then .error ⟨.invalidData, .msg "shadowsocks chunk too large"⟩ else .ok len
  | _ => .error ⟨.invalidData, .msg "shadowsocks chunk length"⟩

/-- `ss_read_chunk` of the inbound. -/
def Inbound.ssReadChunk : Aead → Reader NonceCtr Bytes IoError :=
  readChunkWith P chunkLen .invalidData

/-- `ss_read_chunk` of the outbound. -/
def Outbound.ssReadChunk : Aead → Reader NonceCtr Bytes IoError :=
  readChunkWith P ssChunkLen .other

end Read

/-! ## Writing -/

/-- A call of `seal`. -/
structure SealCall where
  nonce : Bytes
  plain : Bytes
  ct : Bytes
  deriving DecidableEq

/-- What a writer has done: the bytes it wrote, its counter, and the calls of
`seal` it made. -/
structure Written where
  out : Bytes
  nonce : NonceCtr
  calls : List SealCall
  deriving DecidableEq

section Write

variable (P : Primitives)

/-- Write one chunk: `lenOf` is the length field of a piece. -/
def writePiece (lenOf : Nat → Except IoError UInt16) (aead : Aead) (nonce : NonceCtr)
    (piece : Bytes) : Except IoError Written :=
  match lenOf piece.length with
  | .error e => .error e
  | .ok len =>
    match aead.seal P nonce.bytes (u16ToBe len) with
    | .error e => .error (.other e)
    | .ok lenct =>
      match aead.seal P nonce.inc.bytes piece with
      | .error e => .error (.other e)
      | .ok payct =>
        .ok ⟨lenct ++ payct, nonce.inc.inc,
          [⟨nonce.bytes, u16ToBe len, lenct⟩, ⟨nonce.inc.bytes, piece, payct⟩]⟩

/-- Do `one` for each of `xs` in turn. -/
def writeEach (one : NonceCtr → Bytes → Except IoError Written) :
    NonceCtr → List Bytes → Except IoError Written
  | nonce, [] => .ok ⟨[], nonce, []⟩
  | nonce, x :: xs =>
    match one nonce x with
    | .error e => .error e
    | .ok w =>
      match writeEach one w.nonce xs with
      | .error e => .error e
      | .ok w' => .ok ⟨w.out ++ w'.out, w'.nonce, w.calls ++ w'.calls⟩

/-- `u16::try_from(len).unwrap_or(0)`. -/
def lenOrZero (len : Nat) : Except IoError UInt16 := .ok (if len < 65536 then .ofNat len else 0)

/-- `u16::try_from(len)`, or an error. -/
def lenOrError (len : Nat) : Except IoError UInt16 :=
  if len < 65536 then .ok (.ofNat len)
  else .error ⟨.invalidInput, .msg "shadowsocks chunk too large"⟩

/-- `ss_write_chunks` of the inbound. -/
def Inbound.ssWriteChunks (aead : Aead) (nonce : NonceCtr) (data : Bytes) : Except IoError Written :=
  writeEach (writePiece P lenOrZero aead) nonce (chunks maxChunk data)

/-- `ss_write_chunks` of the outbound. -/
def Outbound.ssWriteChunks (aead : Aead) (nonce : NonceCtr) (data : Bytes) : Except IoError Written :=
  writeEach (writePiece P lenOrError aead) nonce (chunks maxChunk data)

end Write

/-! ## The two copies -/

/-- Which end of a connection reads or writes. -/
inductive End
  | inbound
  | outbound
  deriving DecidableEq

/-- `ss_read_chunk`, of either end. -/
def End.ssReadChunk (P : Primitives) : End → Aead → Reader NonceCtr Bytes IoError
  | .inbound => Inbound.ssReadChunk P
  | .outbound => Outbound.ssReadChunk P

/-- `ss_write_chunks`, of either end. -/
def End.ssWriteChunks (P : Primitives) : End → Aead → NonceCtr → Bytes → Except IoError Written
  | .inbound => Inbound.ssWriteChunks P
  | .outbound => Outbound.ssWriteChunks P

/-- The length check of either end. -/
def End.chunkLen : End → Bytes → Except IoError Nat
  | .inbound => Ss.chunkLen
  | .outbound => ssChunkLen

/-- The length field of either end. -/
def End.lenOf : End → Nat → Except IoError UInt16
  | .inbound => lenOrZero
  | .outbound => lenOrError

/-- The error of either end for a record that does not open. -/
def End.openErr : End → Error → IoError
  | .inbound => .invalidData
  | .outbound => .other

theorem End.ssReadChunk_eq (P : Primitives) (e : End) (aead : Aead) :
    e.ssReadChunk P aead = readChunkWith P e.chunkLen e.openErr aead := by
  cases e <;> rfl

theorem End.ssWriteChunks_eq (P : Primitives) (e : End) (aead : Aead) :
    e.ssWriteChunks P aead =
      fun nonce data => writeEach (writePiece P e.lenOf aead) nonce (chunks maxChunk data) := by
  cases e <;> rfl

/-- Every piece has a length field. -/
theorem End.lenOf_of_le (e : End) {n : Nat} (h : n ≤ maxChunk) : e.lenOf n = .ok (.ofNat n) := by
  have hlt : n < 65536 := Nat.lt_of_le_of_lt h (by decide)
  cases e with
  | inbound => simp only [End.lenOf, lenOrZero, if_pos hlt]
  | outbound => simp only [End.lenOf, lenOrError, if_pos hlt]

/-- Either end reads the length of a piece. -/
theorem End.chunkLen_of_le (e : End) {n : Nat} (h : n ≤ maxChunk) :
    e.chunkLen (u16ToBe (.ofNat n)) = .ok n := by
  have hlt : n < 65536 := Nat.lt_of_le_of_lt h (by decide)
  have hn : (UInt16.ofNat n).toNat = n := by
    rw [UInt16.toNat_ofNat']
    exact Nat.mod_eq_of_lt hlt
  cases e with
  | inbound =>
    unfold End.chunkLen Ss.chunkLen u16ToBe
    simp only [u16OfBe_toBe]
    rw [hn]
  | outbound =>
    unfold End.chunkLen ssChunkLen u16ToBe
    simp only [u16OfBe_toBe]
    rw [hn, if_neg (Nat.not_lt.mpr h)]

section Each

variable {one : NonceCtr → Bytes → Except IoError Written} {nonce : NonceCtr}

theorem writeEach_append (xs ys : List Bytes) :
    writeEach one nonce (xs ++ ys) =
      match writeEach one nonce xs with
      | .error e => .error e
      | .ok w =>
        match writeEach one w.nonce ys with
        | .error e => .error e
        | .ok w' => .ok ⟨w.out ++ w'.out, w'.nonce, w.calls ++ w'.calls⟩ := by
  induction xs generalizing nonce with
  | nil =>
    simp only [List.nil_append, writeEach]
    cases writeEach one nonce ys <;> rfl
  | cons x xs ih =>
    simp only [List.cons_append, writeEach]
    cases one nonce x with
    | error e => rfl
    | ok w =>
      simp only [ih]
      cases writeEach one w.nonce xs with
      | error e => rfl
      | ok w' =>
        simp only
        cases writeEach one w'.nonce ys with
        | error e => rfl
        | ok w'' => simp only [List.append_assoc]

/-- Writing blocks piece by piece is writing all the pieces. -/
theorem writeEach_flatMap (f : Bytes → List Bytes) (xs : List Bytes) :
    writeEach (fun nonce x => writeEach one nonce (f x)) nonce xs =
      writeEach one nonce (xs.flatMap f) := by
  induction xs generalizing nonce with
  | nil => rfl
  | cons x xs ih =>
    rw [List.flatMap_cons, writeEach_append, writeEach]
    simp only [ih]

end Each

/-- The pieces of a list of blocks. -/
def pieces (blocks : List Bytes) : List Bytes := blocks.flatMap (chunks maxChunk)

theorem mem_pieces {blocks : List Bytes} {piece : Bytes} (h : piece ∈ pieces blocks) :
    piece ≠ [] ∧ piece.length ≤ maxChunk := by
  obtain ⟨data, -, hp⟩ := List.mem_flatMap.mp h
  exact mem_chunks (by decide) hp

theorem flatten_pieces (blocks : List Bytes) : (pieces blocks).flatten = blocks.flatten :=
  flatten_flatMap_chunks (by decide) blocks

/-- `ss_write_chunks` of either end for each block, as one list of pieces. -/
theorem writeEach_ssWriteChunks (P : Primitives) (e : End) (aead : Aead) (nonce : NonceCtr)
    (blocks : List Bytes) :
    writeEach (e.ssWriteChunks P aead) nonce blocks =
      writeEach (writePiece P e.lenOf aead) nonce (pieces blocks) := by
  rw [End.ssWriteChunks_eq, writeEach_flatMap]
  rfl

/-! ## Reading what was written -/

section Frames

variable {P : Primitives}

/-- A counter of the size the cipher takes. -/
def Fits (aead : Aead) (nonce : NonceCtr) : Prop := nonce.size = aead.kind.nonceSize

theorem Fits.length {aead : Aead} {nonce : NonceCtr} (h : Fits aead nonce) :
    nonce.bytes.length = aead.kind.nonceSize := by
  rw [nonce.length_bytes]
  exact h

theorem fits_new (aead : Aead) : Fits aead (.new aead.kind.nonceSize) := by
  unfold Fits NonceCtr.new AeadKind.nonceSize
  split <;> rfl

/-- The two records of a written chunk, and that they open. -/
theorem writePiece_records (hP : P.Lawful) (writer : End) (aead : Aead) {nonce : NonceCtr}
    (hnonce : Fits aead nonce) {piece : Bytes} (hlen : piece.length ≤ maxChunk) :
    ∃ lenct payct calls,
      writePiece P writer.lenOf aead nonce piece = .ok ⟨lenct ++ payct, nonce.inc.inc, calls⟩ ∧
      lenct.length = 2 + tag ∧ payct.length = piece.length + tag ∧
      aead.seal P nonce.bytes (u16ToBe (.ofNat piece.length)) = .ok lenct ∧
      aead.open P nonce.bytes lenct = .ok (u16ToBe (.ofNat piece.length)) ∧
      aead.open P nonce.inc.bytes payct = .ok piece := by
  have hshort : piece.length < 2 ^ 16 := Nat.lt_of_le_of_lt hlen (by decide)
  obtain ⟨lenct, hsealLen, hlenct, hopenLen⟩ :=
    aead.open_seal hP hnonce.length (show (u16ToBe (.ofNat piece.length)).length < 2 ^ 16 by simp)
  have hnonce' : Fits aead nonce.inc := hnonce
  obtain ⟨payct, hsealPay, hpayct, hopenPay⟩ := aead.open_seal hP hnonce'.length hshort
  refine ⟨lenct, payct, [⟨nonce.bytes, u16ToBe (.ofNat piece.length), lenct⟩,
    ⟨nonce.inc.bytes, piece, payct⟩], ?_, hlenct, hpayct, hsealLen, hopenLen, hopenPay⟩
  simp only [writePiece, writer.lenOf_of_le hlen, hsealLen, hsealPay]

/-- **One chunk.**  A written chunk is read back by either end, and takes the
reader's counter to where the writer's is; cut in its length record it is a clean
end, cut later an early end of file. -/
theorem writePiece_spec (hP : P.Lawful) (writer reader : End) (aead : Aead) {nonce : NonceCtr}
    (hnonce : Fits aead nonce) {piece : Bytes} (hlen : piece.length ≤ maxChunk) :
    ∃ w, writePiece P writer.lenOf aead nonce piece = .ok w ∧ w.nonce = nonce.inc.inc ∧
      0 < w.out.length ∧
      (∀ rest, reader.ssReadChunk P aead nonce (w.out ++ rest) = .ok (some (piece, w.nonce, rest))) ∧
      ∀ s, s <+: w.out → s.length < w.out.length →
        reader.ssReadChunk P aead nonce s =
          if s.length < 2 + tag then .ok none else .error earlyEof := by
  obtain ⟨lenct, payct, calls, hwrite, hlenct, hpayct, -, hopenLen, hopenPay⟩ :=
    writePiece_records hP writer aead hnonce hlen
  -- behind the length record the reader wants just the payload record
  have hread : ∀ src, reader.ssReadChunk P aead nonce (lenct ++ src) =
      match readExact (piece.length + tag) src with
      | none => .error earlyEof
      | some (payct, src) =>
        match aead.open P nonce.inc.bytes payct with
        | .error e => .error (reader.openErr e)
        | .ok pay => .ok (some (pay, nonce.inc.inc, src)) := by
    intro src
    rw [End.ssReadChunk_eq]
    simp only [readChunkWith, readExact_append hlenct, hopenLen, reader.chunkLen_of_le hlen]
  refine ⟨_, hwrite, rfl, ?_, fun rest => ?_, fun s hs hslen => ?_⟩
  · rw [List.length_append]
    omega
  · rw [List.append_assoc, hread, readExact_append hpayct]
    simp only [hopenPay]
  · by_cases hhead : s.length < 2 + tag
    · rw [if_pos hhead, End.ssReadChunk_eq]
      simp only [readChunkWith, readExact_eq_none.mpr hhead]
    · obtain ⟨s', rfl⟩ : lenct <+: s :=
        List.prefix_of_prefix_length_le (List.prefix_append _ _) hs (by omega)
      have hcut : s'.length < piece.length + tag := by
        simp only [List.length_append] at hslen
        omega
      rw [if_neg hhead, hread, readExact_eq_none.mpr hcut]

/-- **The stream of a list of pieces.** -/
theorem writeEach_spec (hP : P.Lawful) (writer reader : End) (aead : Aead) :
    ∀ (ps : List Bytes) (nonce : NonceCtr), Fits aead nonce → (∀ p ∈ ps, p.length ≤ maxChunk) →
      ∃ w fs, writeEach (writePiece P writer.lenOf aead) nonce ps = .ok w ∧ w.out = wire fs ∧
        fs.map Prod.fst = ps ∧ Fits aead w.nonce ∧
        Frames (reader.ssReadChunk P aead) (2 + tag) earlyEof nonce fs w.nonce := by
  intro ps
  induction ps with
  | nil =>
    intro nonce hnonce _
    exact ⟨⟨[], nonce, []⟩, [], rfl, rfl, rfl, hnonce, .nil nonce⟩
  | cons p ps ih =>
    intro nonce hnonce hps
    obtain ⟨hp, hps'⟩ := List.forall_mem_cons.mp hps
    obtain ⟨w, hwrite, hnext, hpos, hwhole, hcut⟩ := writePiece_spec hP writer reader aead hnonce hp
    have hnonce' : Fits aead w.nonce := by
      rw [hnext]
      exact hnonce
    obtain ⟨w', fs, hwrite', hout, hfst, hfits, hframes⟩ := ih w.nonce hnonce' hps'
    refine ⟨⟨w.out ++ w'.out, w'.nonce, w.calls ++ w'.calls⟩, (p, w.out) :: fs, ?_, ?_,
      by rw [List.map_cons, hfst], hfits, .cons hpos hwhole hcut hframes⟩
    · simp only [writeEach, hwrite, hwrite']
    · simp [wire, hout]

theorem ssReadChunk_nil (reader : End) (aead : Aead) (nonce : NonceCtr) {s : Bytes} (h : s <+: []) :
    reader.ssReadChunk P aead nonce s = .ok none := by
  rw [List.prefix_nil.mp h]
  cases reader <;> rfl

/-- **Blocks written by one end and read by the other**, from the same counter. -/
theorem readAll_writeEach (hP : P.Lawful) (writer reader : End) (aead : Aead) (blocks : List Bytes)
    {nonce : NonceCtr} (hnonce : Fits aead nonce) :
    ∃ w, writeEach (writer.ssWriteChunks P aead) nonce blocks = .ok w ∧
      readAll (reader.ssReadChunk P aead) nonce w.out = some (pieces blocks, .ok ()) := by
  obtain ⟨w, fs, hwrite, hout, hfst, -, hframes⟩ :=
    writeEach_spec hP writer reader aead (pieces blocks) nonce hnonce fun p hp => (mem_pieces hp).2
  refine ⟨w, by rw [writeEach_ssWriteChunks, hwrite], ?_⟩
  have hall := hframes.readAll_wire fun s hs => ssReadChunk_nil reader aead w.nonce hs
  rwa [List.append_nil, ← hout, hfst] at hall

end Frames

/-! ## Reading what an attacker sends -/

section Integrity

variable {P : Primitives} {aead : Aead}

/-- **An ideal cipher**, for the calls a writer has made under its key: what opens
under a nonce is what the writer sealed under it. -/
def Ideal (P : Primitives) (aead : Aead) (calls : List SealCall) : Prop :=
  ∀ nonce ct plain, aead.open P nonce ct = .ok plain → ⟨nonce, plain, ct⟩ ∈ calls

/-- A call that seals a record of the piece at place `j`: the length under the
counter's value `2 * j`, the payload under the next. -/
def IsRecord (start : NonceCtr) (ps : List Bytes) (call : SealCall) : Prop :=
  ∃ j piece, ps[j]? = some piece ∧
    (call.nonce = (NonceCtr.inc^[2 * j] start).bytes ∧ call.plain = u16ToBe (.ofNat piece.length) ∨
      call.nonce = (NonceCtr.inc^[2 * j + 1] start).bytes ∧ call.plain = piece)

/-- A writer seals the records of its pieces and nothing else. -/
theorem isRecord_of_mem_calls (writer : End) :
    ∀ (ps : List Bytes) (start : NonceCtr) (w : Written), (∀ p ∈ ps, p.length ≤ maxChunk) →
      writeEach (writePiece P writer.lenOf aead) start ps = .ok w →
      ∀ call ∈ w.calls, IsRecord start ps call := by
  intro ps
  induction ps with
  | nil =>
    intro start w _ hw
    cases hw
    exact nofun
  | cons p ps ih =>
    intro start w hps hw call hcall
    obtain ⟨hp, hps'⟩ := List.forall_mem_cons.mp hps
    simp only [writeEach] at hw
    split at hw
    · cases hw
    · next w₁ hw₁ =>
      split at hw
      · cases hw
      · next w₂ hw₂ =>
        cases hw
        simp only [writePiece, writer.lenOf_of_le hp] at hw₁
        split at hw₁
        · cases hw₁
        · split at hw₁
          · cases hw₁
          · cases hw₁
            rcases List.mem_append.mp hcall with hcall | hcall
            · refine ⟨0, p, rfl, ?_⟩
              rcases List.mem_cons.mp hcall with rfl | hcall
              · exact .inl ⟨rfl, rfl⟩
              · rw [List.mem_singleton.mp hcall]
                exact .inr ⟨rfl, rfl⟩
            · obtain ⟨j, piece, hj, hrec⟩ := ih _ _ hps' hw₂ call hcall
              refine ⟨j + 1, piece, hj, ?_⟩
              rw [show 2 * (j + 1) = 2 * j + 2 by omega]
              exact hrec

/-- The counter of a cipher's size does not repeat in its first `2 ^ 96` values. -/
theorem nonce_inj (aead : Aead) {i j : Nat} (hi : i < 2 ^ 96) (hj : j < 2 ^ 96)
    (h : (NonceCtr.inc^[i] (.new aead.kind.nonceSize)).bytes =
      (NonceCtr.inc^[j] (.new aead.kind.nonceSize)).bytes) : i = j := by
  have hsize : 2 ^ 96 ≤ 256 ^ min aead.kind.nonceSize 24 := by
    cases aead.kind <;> decide
  exact NonceCtr.iterate_bytes_inj (by omega) (by omega) h

variable {ps : List Bytes} {calls : List SealCall}

/-- What opens under an even value of the counter is a length. -/
theorem plain_of_even (hideal : Ideal P aead calls) (hcount : ps.length < 2 ^ 95)
    (hcalls : ∀ call ∈ calls, IsRecord (.new aead.kind.nonceSize) ps call) {i : Nat}
    (hi : i ≤ ps.length) {ct plain : Bytes}
    (h : aead.open P (NonceCtr.inc^[2 * i] (.new aead.kind.nonceSize)).bytes ct = .ok plain) :
    ∃ piece, ps[i]? = some piece ∧ plain = u16ToBe (.ofNat piece.length) := by
  obtain ⟨j, piece, hj, ⟨hn, hp⟩ | ⟨hn, -⟩⟩ := hcalls _ (hideal _ _ _ h)
  · have hlt := (List.getElem?_eq_some_iff.mp hj).1
    have hij := nonce_inj aead (by omega) (by omega) hn
    obtain rfl : i = j := by omega
    exact ⟨piece, hj, hp⟩
  · have hlt := (List.getElem?_eq_some_iff.mp hj).1
    have hij := nonce_inj aead (by omega) (by omega) hn
    omega

/-- What opens under an odd value of the counter is a piece. -/
theorem plain_of_odd (hideal : Ideal P aead calls) (hcount : ps.length < 2 ^ 95)
    (hcalls : ∀ call ∈ calls, IsRecord (.new aead.kind.nonceSize) ps call) {i : Nat}
    (hi : i < ps.length) {ct plain : Bytes}
    (h : aead.open P (NonceCtr.inc^[2 * i + 1] (.new aead.kind.nonceSize)).bytes ct = .ok plain) :
    ps[i]? = some plain := by
  obtain ⟨j, piece, hj, ⟨hn, -⟩ | ⟨hn, hp⟩⟩ := hcalls _ (hideal _ _ _ h)
  · have hlt := (List.getElem?_eq_some_iff.mp hj).1
    have hij := nonce_inj aead (by omega) (by omega) hn
    omega
  · have hlt := (List.getElem?_eq_some_iff.mp hj).1
    have hij := nonce_inj aead (by omega) (by omega) hn
    obtain rfl : i = j := by omega
    rw [hj]
    exact congrArg some hp.symm

/-- **One read.**  With the counter at the records of piece `i`, a chunk that is
read is piece `i`, and the counter is at the records of the next. -/
theorem ssReadChunk_eq_some (reader : End) (hideal : Ideal P aead calls) (hcount : ps.length < 2 ^ 95)
    (hcalls : ∀ call ∈ calls, IsRecord (.new aead.kind.nonceSize) ps call) {i : Nat}
    (hi : i ≤ ps.length) {src rest x : Bytes} {st : NonceCtr}
    (h : reader.ssReadChunk P aead (NonceCtr.inc^[2 * i] (.new aead.kind.nonceSize)) src =
      .ok (some (x, st, rest))) :
    ps[i]? = some x ∧ st = NonceCtr.inc^[2 * (i + 1)] (.new aead.kind.nonceSize) ∧
      rest.length < src.length := by
  have hinc : ∀ n : Nat, (NonceCtr.inc^[n] (.new aead.kind.nonceSize)).inc =
      NonceCtr.inc^[n + 1] (.new aead.kind.nonceSize) :=
    fun n => (Function.iterate_succ_apply' ..).symm
  rw [End.ssReadChunk_eq] at h
  unfold readChunkWith at h
  split at h
  · cases h
  · next lenct src₁ hlen =>
    split at h
    · cases h
    · next lenpt hopen =>
      obtain ⟨piece, hpiece, -⟩ := plain_of_even hideal hcount hcalls hi hopen
      have hlt := (List.getElem?_eq_some_iff.mp hpiece).1
      split at h
      · cases h
      · split at h
        · cases h
        · next length hlength payct src₂ hpay =>
          split at h
          · cases h
          · next pay hopenPay =>
            simp only [Except.ok.injEq, Option.some.injEq, Prod.mk.injEq] at h
            obtain ⟨rfl, rfl, rfl⟩ := h
            rw [hinc] at hopenPay
            refine ⟨plain_of_odd hideal hcount hcalls hlt hopenPay, ?_, ?_⟩
            · rw [hinc, hinc]
              rfl
            · obtain ⟨rfl, hlen₁⟩ := readExact_eq_some hlen
              obtain ⟨rfl, -⟩ := readExact_eq_some hpay
              simp only [List.length_append]
              omega

theorem readLoop_authentic (reader : End) (hideal : Ideal P aead calls) (hcount : ps.length < 2 ^ 95)
    (hcalls : ∀ call ∈ calls, IsRecord (.new aead.kind.nonceSize) ps call) :
    ∀ (fuel i : Nat) (src : Bytes), i ≤ ps.length → src.length < fuel →
      ∃ xs r, readLoop (reader.ssReadChunk P aead) fuel
        (NonceCtr.inc^[2 * i] (.new aead.kind.nonceSize)) src = some (xs, r) ∧ xs <+: ps.drop i := by
  intro fuel
  induction fuel with
  | zero => intro i src _ h; exact absurd h (Nat.not_lt_zero _)
  | succ fuel ih =>
    intro i src hi hsrc
    rcases hread : reader.ssReadChunk P aead (NonceCtr.inc^[2 * i] (.new aead.kind.nonceSize)) src
      with e | (_ | ⟨x, st, rest⟩)
    · exact ⟨[], _, readLoop_of_error hread fuel, List.nil_prefix⟩
    · exact ⟨[], _, readLoop_of_end hread fuel, List.nil_prefix⟩
    · obtain ⟨hx, hst, hrest⟩ := ssReadChunk_eq_some reader hideal hcount hcalls hi hread
      obtain ⟨hlt, hget⟩ := List.getElem?_eq_some_iff.mp hx
      obtain ⟨xs, r, hloop, hpre⟩ := ih (i + 1) rest hlt (by omega)
      refine ⟨x :: xs, r, ?_, ?_⟩
      · rw [readLoop_of_item hread, hst, hloop]
        rfl
      · rw [List.drop_eq_getElem_cons hlt, hget]
        exact List.cons_prefix_cons.mpr ⟨rfl, hpre⟩

/-- **Stream integrity.**  Under an ideal cipher and before the counter wraps
around, whatever bytes either reader is fed, the chunks it gives before the clean
end or the first error are a prefix of the pieces the writer sealed. -/
theorem chunks_authentic (writer reader : End) (blocks : List Bytes) (w : Written)
    (hwrite : writeEach (writer.ssWriteChunks P aead) (.new aead.kind.nonceSize) blocks = .ok w)
    (hcount : (pieces blocks).length < 2 ^ 95) (hideal : Ideal P aead w.calls) (src : Bytes) :
    ∃ xs r, readAll (reader.ssReadChunk P aead) (.new aead.kind.nonceSize) src = some (xs, r) ∧
      xs <+: pieces blocks := by
  rw [writeEach_ssWriteChunks] at hwrite
  have hcalls := isRecord_of_mem_calls writer (pieces blocks) _ w (fun p hp => (mem_pieces hp).2) hwrite
  exact readLoop_authentic reader hideal hcount hcalls _ 0 src (Nat.zero_le _) (Nat.lt_succ_self _)

end Integrity

/-- A cipher that seals with ChaCha20-Poly1305 and opens what is in a list of
calls. -/
def listedPrimitives (calls : List SealCall) : Primitives :=
  { chachaPrimitives with
    decrypt := fun _ _ nonce ct =>
      (calls.find? fun call => call.nonce == nonce && call.ct == ct).map SealCall.plain }

theorem listedPrimitives_ideal (aead : Aead) (calls : List SealCall) :
    Ideal (listedPrimitives calls) aead calls := by
  intro nonce ct plain h
  unfold Aead.open listedPrimitives at h
  simp only at h
  split at h
  · next found hfound =>
    cases h
    obtain ⟨call, hcall, hplain⟩ := Option.map_eq_some_iff.mp hfound
    have hmatch := List.find?_some hcall
    simp only [Bool.and_eq_true, beq_iff_eq] at hmatch
    obtain ⟨rfl, rfl⟩ := hmatch
    subst hplain
    exact List.mem_of_find?_eq_some hcall
  · cases h

/-- A key for ChaCha20-Poly1305. -/
def zeroAead : Aead := ⟨.chaCha20Poly1305, List.replicate 32 0, rfl⟩

/-- The calls of a writer that seals the one piece `[1, 2, 3]`. -/
def oneCalls : List SealCall :=
  let nonce := NonceCtr.new 12
  [⟨nonce.bytes, [0, 3], ReferenceCrypto.chachaSeal zeroAead.key nonce.bytes [0, 3]⟩,
    ⟨nonce.inc.bytes, [1, 2, 3], ReferenceCrypto.chachaSeal zeroAead.key nonce.inc.bytes [1, 2, 3]⟩]

theorem chunks_authentic_one :
    ∃ w, writeEach (End.outbound.ssWriteChunks (listedPrimitives oneCalls) zeroAead) (.new 12)
        [[1, 2, 3]] = .ok w ∧
      ∀ src, ∃ xs r, readAll (End.inbound.ssReadChunk (listedPrimitives oneCalls) zeroAead) (.new 12)
        src = some (xs, r) ∧ xs <+: [[1, 2, 3]] := by
  have hwrite : writeEach (End.outbound.ssWriteChunks (listedPrimitives oneCalls) zeroAead) (.new 12)
      [[1, 2, 3]] = .ok ⟨oneCalls.flatMap SealCall.ct, (NonceCtr.new 12).inc.inc, oneCalls⟩ := by
    have hpieces : pieces [[1, 2, 3]] = [[1, 2, 3]] := by decide
    have hseal : ∀ nonce plain, zeroAead.seal (listedPrimitives oneCalls) nonce plain =
        .ok (ReferenceCrypto.chachaSeal zeroAead.key nonce plain) := fun _ _ => rfl
    have hlen : u16ToBe (.ofNat ([1, 2, 3] : Bytes).length) = [0, 3] := by decide
    rw [writeEach_ssWriteChunks, hpieces]
    simp only [writeEach, writePiece,
      End.lenOf_of_le .outbound (show ([1, 2, 3] : Bytes).length ≤ maxChunk by decide), hseal, hlen]
    simp [oneCalls]
  exact ⟨_, hwrite, chunks_authentic .outbound .inbound [[1, 2, 3]] _ hwrite (by decide)
    (listedPrimitives_ideal zeroAead oneCalls)⟩

end XrayRs.Ss
