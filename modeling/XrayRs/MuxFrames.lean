import XrayRs.BufferedStream
import XrayRs.HeaderRead
import XrayRs.Mux
import XrayRs.StepSystem

/-! # Mux frames read back

The frame reader of `mux::demux` over the bytes of the frame builders.  `Reader::take`
pulls a field off the carrier however the carrier is cut into reads; a frame is two to
four fields, of which the lengths announce the next and the meta field says whether
there are data.

`run_readFrame` ties the reader to the carrier of `XrayRs.Mux`, which takes the same
fields step by step. -/

namespace XrayRs.Mux

open ByteParser ByteWords BufferedStream StepSystem

/-! ## The reader -/

/-- A computation that reads off the carrier. -/
abbrev Read := ExceptT IoError (StateM Source)

theorem Read.bind_of_ok {α β : Type} {x : Read α} {f : α → Read β} {src src' : Source} {a : α}
    (h : x src = (.ok a, src')) : (x >>= f) src = f a src' := by
  show (match x src with | (r, src) => ExceptT.bindCont f r src) = _
  rw [h]
  rfl

theorem Read.bind_of_error {α β : Type} {x : Read α} {f : α → Read β} {src src' : Source}
    {e : IoError} (h : x src = (.error e, src')) : (x >>= f) src = (.error e, src') := by
  show (match x src with | (r, src) => ExceptT.bindCont f r src) = _
  rw [h]
  rfl

theorem Read.bind_eq_ok {α β : Type} {x : Read α} {f : α → Read β} {src src' : Source} {b : β}
    (h : (x >>= f) src = (.ok b, src')) :
    ∃ a mid, x src = (.ok a, mid) ∧ f a mid = (.ok b, src') := by
  rcases hx : x src with ⟨r, mid⟩
  cases r with
  | error e =>
    rw [Read.bind_of_error hx] at h
    cases h
  | ok a =>
    rw [Read.bind_of_ok hx] at h
    exact ⟨a, mid, rfl, h⟩

/-- `Reader::take`. -/
def Read.take (n : Nat) : Read Bytes := fun src =>
  match pull Error.IsTruncated (XrayRs.take n) src.buf src.reads with
  | (.ok field, src) => (.ok field, src)
  | (.error _, src) => (.error ⟨.unexpectedEof, .msg "mux eof"⟩, src)

/-- `Reader::u16`. -/
def Read.u16 : Read Nat := do
  let field ← Read.take 2
  return Carrier.fieldU16 field

/-- `io::Error::new(io::ErrorKind::InvalidData, message)`. -/
def Read.fail {α : Type} (message : String) : Read α := throw ⟨.invalidData, .msg message⟩

/-- The rest of a frame in `demux`, after the length of its meta field. -/
def readBody (metalen : Nat) : Read (Meta × Option Bytes) := do
  if metalen = 0 ∨ maxMeta < metalen then
    Read.fail "mux metalen"
  else
    let metaBytes ← Read.take metalen
    match parseMeta metaBytes with
    | none => Read.fail "mux meta"
    | some info =>
      if info.option &&& optData ≠ 0 then
        let dlen ← Read.u16
        if maxData < dlen then
          Read.fail "mux datalen"
        else
          let data ← Read.take dlen
          return (info, some data)
      else
        return (info, none)

/-- One frame of `demux`; `none` where the carrier ends between frames. -/
def readFrame : Read (Option (Meta × Option Bytes)) := fun src =>
  match Read.u16 src with
  | (.error _, src) => (.ok none, src)
  | (.ok metalen, src) => (some <$> readBody metalen) src

/-- The statuses the loop of `demux` knows. -/
def knownStatus (status : UInt8) : Bool :=
  status = stNew || status = stKeep || status = stEnd || status = stKeepalive

/-- The loop of `demux`, for at most `fuel` frames: the frames it dispatches, how it
returns and what it has not read.  `none` is out of fuel. -/
def readFrames : Nat → Source → Option (List (Meta × Option Bytes) × Except IoError Unit × Source)
  | 0, _ => none
  | fuel + 1, src =>
    match readFrame src with
    | (.error e, src) => some ([], .error e, src)
    | (.ok none, src) => some ([], .ok (), src)
    | (.ok (some (info, data)), src) =>
      if knownStatus info.status then
        (readFrames fuel src).map fun (frames, r, src) => ((info, data) :: frames, r, src)
      else some ([], .error ⟨.invalidData, .msg "mux status"⟩, src)

/-! ## The builders -/

/-- A call of one of the frame builders. -/
inductive Frame
  | keepTcp (sid : UInt16) (data : Bytes)
  | keepUdp (sid : UInt16) (target : Destination) (data : Bytes)
  | fin (sid : UInt16)
  deriving DecidableEq

namespace Frame

/-- The bytes it builds. -/
def build : Frame → Option Bytes
  | .keepTcp sid data => some (frameKeepTcp sid data)
  | .keepUdp sid target data => frameKeepUdp sid target data
  | .fin sid => some (frameEnd sid)

/-- What the frame says.  A datagram's target is a UDP target. -/
def fields : Frame → Meta × Option Bytes
  | .keepTcp sid data => (⟨sid, stKeep, optData, none⟩, some data)
  | .keepUdp sid target data =>
    (⟨sid, stKeep, optData, some { target with network := .udp }⟩, some data)
  | .fin sid => (⟨sid, stEnd, 0, none⟩, none)

/-- At most `MAX_DATA` bytes of data, and a canonical target. -/
def Fits : Frame → Prop
  | .keepTcp _ data => data.length ≤ maxData
  | .keepUdp _ target data => target.address.Canonical ∧ data.length ≤ maxData
  | .fin _ => True

end Frame

/-! ## A field, a frame, a carrier -/

theorem fieldU16_toBe {n : Nat} (hn : n < 65536) : Carrier.fieldU16 (u16ToBe (.ofNat n)) = n := by
  show (u16OfBe _ _).toNat = n
  rw [u16OfBe_toBe, UInt16.toNat_ofNat', Nat.mod_eq_of_lt hn]

section Fields

variable {src : Source} {rest : Bytes} (hflows : src.Flows)
include hflows

theorem take_of_content {n : Nat} {field : Bytes} (hlen : field.length = n)
    (hsrc : src.content = field ++ rest) :
    ∃ src', Read.take n src = (.ok field, src') ∧ src'.content = rest ∧ src'.Flows := by
  have hpull := pull_of_attempt (incremental_take n) src.buf src.reads hflows
  have hrun : attempt Error.IsTruncated (XrayRs.take n) (field ++ rest) = some (.ok (field, rest)) :=
    attempt_eq_ok.mpr (take_append hlen rest)
  rw [show src.buf ++ src.reads.flatten = _ from hsrc, hrun] at hpull
  obtain ⟨src', hpull, hcontent, hflows'⟩ := hpull
  exact ⟨src', by rw [Read.take, hpull], hcontent, hflows'⟩

theorem u16_of_content {n : Nat} (hn : n < 65536)
    (hsrc : src.content = u16ToBe (.ofNat n) ++ rest) :
    ∃ src', Read.u16 src = (.ok n, src') ∧ src'.content = rest ∧ src'.Flows := by
  obtain ⟨src', htake, hrest⟩ := take_of_content hflows (n := 2) rfl hsrc
  refine ⟨src', ?_, hrest⟩
  unfold Read.u16
  rw [Read.bind_of_ok htake]
  rw [fieldU16_toBe hn]
  rfl

/-- At the end of the carrier there is no length to read. -/
theorem u16_of_end (hsrc : src.content = []) :
    ∃ e src', Read.u16 src = (.error e, src') ∧ src'.content = [] := by
  have hpull := pull_of_attempt (incremental_take 2) src.buf src.reads hflows
  have hrun : attempt Error.IsTruncated (XrayRs.take 2) [] = none := rfl
  rw [show src.buf ++ src.reads.flatten = _ from hsrc, hrun] at hpull
  have htake : Read.take 2 src = (.error ⟨.unexpectedEof, .msg "mux eof"⟩, ⟨[], []⟩) := by
    rw [Read.take, hpull]
  exact ⟨_, _, Read.bind_of_error htake, rfl⟩

/-- The fields after the length of the meta field. -/
def bodyBytes (metaBytes : Bytes) : Option Bytes → Bytes
  | none => metaBytes
  | some data => metaBytes ++ u16ToBe (.ofNat data.length) ++ data

theorem readBody_of_content {metaBytes : Bytes} {info : Meta} {data : Option Bytes}
    (hpos : metaBytes ≠ []) (hmax : metaBytes.length ≤ maxMeta)
    (hparse : parseMeta metaBytes = some info) (hopt : info.option &&& optData ≠ 0 ↔ data.isSome)
    (hdata : ∀ d, data = some d → d.length ≤ maxData)
    (hsrc : src.content = bodyBytes metaBytes data ++ rest) :
    ∃ src', readBody metaBytes.length src = (.ok (info, data), src') ∧ src'.content = rest ∧
      src'.Flows := by
  have hguard : ¬ (metaBytes.length = 0 ∨ maxMeta < metaBytes.length) := by
    rintro (h | h)
    · exact hpos (List.length_eq_zero_iff.mp h)
    · omega
  unfold readBody
  rw [if_neg hguard]
  cases data with
  | none =>
    rw [bodyBytes] at hsrc
    obtain ⟨src', htake, hrest⟩ := take_of_content hflows rfl hsrc
    refine ⟨src', ?_, hrest⟩
    rw [Read.bind_of_ok htake]
    simp only [hparse]
    rw [if_neg (by simpa using hopt)]
    rfl
  | some d =>
    have hd := hdata d rfl
    rw [bodyBytes, List.append_assoc, List.append_assoc] at hsrc
    obtain ⟨s₁, htake, hs₁, hf₁⟩ := take_of_content hflows rfl hsrc
    obtain ⟨s₂, hlen, hs₂, hf₂⟩ := u16_of_content hf₁ (by unfold maxData at hd; omega) hs₁
    obtain ⟨s₃, htake₃, hrest⟩ := take_of_content hf₂ rfl hs₂
    refine ⟨s₃, ?_, hrest⟩
    rw [Read.bind_of_ok htake]
    simp only [hparse]
    rw [if_pos (hopt.mpr rfl), Read.bind_of_ok hlen, if_neg (by omega), Read.bind_of_ok htake₃]
    rfl

end Fields

theorem parseMeta_eq (sid : UInt16) (status option : UInt8) (rest : Bytes) :
    parseMeta (u16ToBe sid ++ status :: option :: rest) =
      if status = stNew ∨ (status = stKeep ∧ rest.head? = some netUdp) then
        (parseTarget rest).map fun target => ⟨sid, status, option, some target⟩
      else some ⟨sid, status, option, none⟩ := by
  show parseMeta (_ :: _ :: status :: option :: rest) = _
  unfold parseMeta
  simp only [u16OfBe_toBe]

/-- A canonical address fits into a meta field and is read back as a UDP target. -/
theorem parseTarget_of_write {a : Address} (port : UInt16) (h : a.Canonical) :
    ∃ w, AddrCodec.VLESS.write a port = .ok w ∧ w.length ≤ 259 ∧
      parseTarget (netUdp :: w) = some (.udp a port) := by
  obtain ⟨w, hw, hread⟩ := exists_write_read AddrCodec.VLESS port [] (fun d => h.length_le)
    (reread_canonical h)
  rw [List.append_nil] at hread
  refine ⟨w, hw, ?_, ?_⟩
  · have hbound := (bounded_read AddrCodec.VLESS).consumed hread
    simpa using hbound
  · rw [parseTarget, hread]
    rfl

/-- **A built frame is a length and a body that the parser takes apart.** -/
theorem build_eq (f : Frame) (h : f.Fits) :
    ∃ metaBytes, f.build = some (u16ToBe (.ofNat metaBytes.length) ++ bodyBytes metaBytes f.fields.2) ∧
      metaBytes ≠ [] ∧ metaBytes.length ≤ maxMeta ∧ parseMeta metaBytes = some f.fields.1 := by
  cases f with
  | keepTcp sid data =>
    have hlen : u16OrZero data.length = .ofNat data.length :=
      if_pos (Nat.lt_of_le_of_lt h (by decide))
    refine ⟨u16ToBe sid ++ [stKeep, optData], ?_, by simp [u16ToBe], by simp [maxMeta], ?_⟩
    · show some (frameKeepTcp sid data) = _
      rw [frameKeepTcp, hlen]
      simp [bodyBytes, Frame.fields]
    · rw [parseMeta_eq]
      rfl
  | keepUdp sid target data =>
    obtain ⟨hcanon, hdata⟩ := h
    obtain ⟨w, hw, hlen, hparse⟩ := parseTarget_of_write target.port hcanon
    refine ⟨u16ToBe sid ++ [stKeep, optData, netUdp] ++ w, ?_, by simp [u16ToBe], ?_, ?_⟩
    · have hmeta : (u16ToBe sid ++ [stKeep, optData, netUdp] ++ w).length < 65536 := by
        simp
        omega
      have hfit : data.length < 65536 := Nat.lt_of_le_of_lt hdata (by decide)
      show frameKeepUdp sid target data = _
      unfold frameKeepUdp
      rw [hw]
      show (if _ ∧ _ then some _ else none) = _
      rw [if_pos ⟨hmeta, hfit⟩]
      simp [bodyBytes, Frame.fields]
    · simp [maxMeta]
      omega
    · rw [List.append_assoc]
      show parseMeta (u16ToBe sid ++ stKeep :: optData :: netUdp :: w) = _
      rw [parseMeta_eq, if_pos (.inr ⟨rfl, rfl⟩), hparse]
      rfl
  | fin sid =>
    refine ⟨u16ToBe sid ++ [stEnd, 0], ?_, by simp [u16ToBe], by simp [maxMeta], ?_⟩
    · show some (frameEnd sid) = _
      simp [frameEnd, bodyBytes, Frame.fields]
    · rw [parseMeta_eq]
      rfl

theorem fields_fit (f : Frame) (h : f.Fits) :
    (f.fields.1.option &&& optData ≠ 0 ↔ f.fields.2.isSome) ∧
      (∀ d, f.fields.2 = some d → d.length ≤ maxData) ∧ knownStatus f.fields.1.status = true := by
  cases f with
  | keepTcp sid data =>
    exact ⟨iff_of_true (by decide : optData &&& optData ≠ 0) rfl,
      fun d hd => (Option.some.inj hd) ▸ h, rfl⟩
  | keepUdp sid target data =>
    exact ⟨iff_of_true (by decide : optData &&& optData ≠ 0) rfl,
      fun d hd => (Option.some.inj hd) ▸ h.2, rfl⟩
  | fin sid =>
    exact ⟨iff_of_false (by simp [Frame.fields]) (by simp [Frame.fields]),
      fun d hd => (by cases hd), rfl⟩

/-- A built frame at the front of the carrier is read as what it says. -/
theorem readFrame_of_build {f : Frame} (h : f.Fits) {w rest : Bytes} (hw : f.build = some w)
    {src : Source} (hflows : src.Flows) (hsrc : src.content = w ++ rest) :
    ∃ src', readFrame src = (.ok (some f.fields), src') ∧ src'.content = rest ∧ src'.Flows := by
  obtain ⟨metaBytes, hbuild, hpos, hmax, hparse⟩ := build_eq f h
  obtain ⟨hopt, hdata, -⟩ := fields_fit f h
  rw [hw] at hbuild
  obtain rfl := Option.some.inj hbuild
  rw [List.append_assoc] at hsrc
  obtain ⟨s₁, hlen, hs₁, hf₁⟩ := u16_of_content hflows (by unfold maxMeta at hmax; omega) hsrc
  obtain ⟨s₂, hbody, hrest⟩ := readBody_of_content hf₁ hpos hmax hparse hopt hdata hs₁
  refine ⟨s₂, ?_, hrest⟩
  rw [readFrame, hlen]
  show (readBody metaBytes.length >>= fun x => pure (some x)) s₁ = _
  rw [Read.bind_of_ok hbody]
  rfl

/-- **Frames are read back.**  The frames that fit can all be built, and however the
bytes of their concatenation are cut into reads, the first of them in the buffer
already, the reader accepts them, recovers what each frame says, in order, and leaves
nothing over. -/
theorem mux_frames_read_back (frames : List Frame) (h : ∀ f ∈ frames, f.Fits) :
    ∃ wires, frames.mapM Frame.build = some wires ∧
      ∀ src : Source, src.content = wires.flatten → src.Flows → ∀ fuel, frames.length < fuel →
        ∃ src', readFrames fuel src = some (frames.map Frame.fields, .ok (), src') ∧
          src'.content = [] := by
  induction frames with
  | nil =>
    refine ⟨[], rfl, fun src hsrc hflows fuel hfuel => ?_⟩
    obtain ⟨fuel, rfl⟩ : ∃ n, fuel = n + 1 := ⟨fuel - 1, by omega⟩
    obtain ⟨e, src', hread, hend⟩ := u16_of_end hflows hsrc
    refine ⟨src', ?_, hend⟩
    rw [readFrames, readFrame, hread]
    rfl
  | cons f frames ih =>
    obtain ⟨hf, hframes⟩ := List.forall_mem_cons.mp h
    obtain ⟨wires, hwires, hread⟩ := ih hframes
    obtain ⟨metaBytes, hbuild, -⟩ := build_eq f hf
    obtain ⟨-, -, hknown⟩ := fields_fit f hf
    refine ⟨_ :: wires, by rw [List.mapM_cons, hbuild, hwires]; rfl, ?_⟩
    intro src hsrc hflows fuel hfuel
    obtain ⟨fuel, rfl⟩ : ∃ n, fuel = n + 1 := ⟨fuel - 1, by omega⟩
    rw [List.length_cons] at hfuel
    obtain ⟨s₁, hframe, hs₁, hf₁⟩ := readFrame_of_build hf hbuild hflows hsrc
    obtain ⟨src', hrest, hend⟩ := hread s₁ hs₁ hf₁ fuel (by omega)
    refine ⟨src', ?_, hend⟩
    rw [readFrames, hframe]
    show (if knownStatus f.fields.1.status then _ else _) = _
    rw [if_pos hknown, hrest]
    rfl

/-- A TCP answer, a datagram from `10.0.0.1:53` and the end of the first session. -/
theorem mux_frames_read_back_three :
    ∃ wires, [Frame.keepTcp 1 [1, 2], .keepUdp 2 (.udp (.ip (.v4 #v[10, 0, 0, 1])) 53) [7],
        .fin 1].mapM Frame.build = some wires ∧
      ∀ src : Source, src.content = wires.flatten → src.Flows → ∀ fuel, 3 < fuel →
        ∃ src', readFrames fuel src = some
          ([Frame.keepTcp 1 [1, 2], .keepUdp 2 (.udp (.ip (.v4 #v[10, 0, 0, 1])) 53) [7],
            .fin 1].map Frame.fields, .ok (), src') ∧ src'.content = [] := by
  apply mux_frames_read_back
  simp only [List.forall_mem_cons]
  refine ⟨?_, ⟨trivial, ?_⟩, trivial, by simp⟩
  · show 2 ≤ maxData
    decide
  · show 1 ≤ maxData
    decide

/-! ## The reader of the carrier -/

section Carrier

variable {c : Carrier} {cuts : List Bytes}

/-- The reads still to come on a connection. -/
def Cuts (conn : Conn) (cuts : List Bytes) : Prop :=
  cuts.flatten = conn.unread ∧ ∀ piece ∈ cuts, piece ≠ [] ∧ piece.length ≤ 4096

theorem take_eq (n : Nat) (buf : Bytes) (cuts : List Bytes) :
    Read.take n ⟨buf, cuts⟩ =
      if buf.length < n then
        match cuts with
        | [] => (.error ⟨.unexpectedEof, .msg "mux eof"⟩, ⟨buf, []⟩)
        | piece :: cuts =>
          if piece = [] then (.error ⟨.unexpectedEof, .msg "mux eof"⟩, ⟨buf, cuts⟩)
          else Read.take n ⟨buf ++ piece, cuts⟩
      else (.ok (buf.take n), ⟨buf.drop n, cuts⟩) := by
  rw [Read.take]
  by_cases hlen : buf.length < n
  · have hatt : attempt Error.IsTruncated (XrayRs.take n) buf = none := by
      have hrun : (XrayRs.take n).run buf = .error (.truncated n buf.length) := if_pos hlen
      rw [attempt, hrun]
      rfl
    rw [if_pos hlen]
    cases cuts with
    | nil => rw [pull_of_end hatt]
    | cons piece cuts =>
      rw [pull_of_starved hatt]
      by_cases hpiece : piece = []
      · simp only [hpiece, if_true]
      · simp only [hpiece, if_false]
        rfl
  · have hatt : attempt Error.IsTruncated (XrayRs.take n) buf =
        some (.ok (buf.take n, buf.drop n)) := attempt_eq_ok.mpr (if_neg hlen)
    rw [if_neg hlen, pull_of_ok hatt]

/-- **`Reader::take` in the carrier**: reads, then the field. -/
theorem run_take {n : Nat} (hneed : c.demux.need = some n) (hcuts : Cuts c.conn cuts)
    {field : Bytes} {src : Source} (h : Read.take n ⟨c.buf, cuts⟩ = (.ok field, src)) :
    ∃ trace conn, Run Step c trace ({ c with buf := src.buf, conn := conn }.onField field) ∧
      Cuts conn src.reads := by
  induction cuts generalizing c with
  | nil =>
    rw [take_eq] at h
    split at h
    · cases h
    · next hlen =>
      cases h
      exact ⟨_, c.conn, .cons (.field hneed (Nat.not_lt.mp hlen)) (.nil _), hcuts⟩
  | cons piece cuts ih =>
    rw [take_eq] at h
    obtain ⟨hunread, hall⟩ := hcuts
    split at h
    · next hlen =>
      obtain ⟨⟨hpiece, hmax⟩, hcuts⟩ := List.forall_mem_cons.mp hall
      simp only [hpiece, if_false] at h
      rw [List.flatten_cons] at hunread
      have htake : c.conn.unread.take piece.length = piece := by
        rw [← hunread, List.take_left]
      -- the carrier makes the read, then the rest as before
      have hfill := Step.fill (c := c) piece.length hneed hlen (List.length_pos_iff.mpr hpiece) hmax
        (by rw [← hunread, List.length_append]; omega)
      rw [htake] at hfill
      obtain ⟨trace, conn, hrun, hreads⟩ := ih
        (c := { c with conn := c.conn.read piece.length, buf := c.buf ++ piece }) hneed
        ⟨by rw [Conn.read, ← hunread, List.drop_left], hcuts⟩ h
      exact ⟨_, conn, .cons hfill hrun, hreads⟩
    · next hlen =>
      cases h
      exact ⟨_, c.conn, .cons (.field hneed (Nat.not_lt.mp hlen)) (.nil _), hunread, hall⟩

theorem u16_eq_ok {src src' : Source} {n : Nat} (h : Read.u16 src = (.ok n, src')) :
    ∃ field, Read.take 2 src = (.ok field, src') ∧ n = Carrier.fieldU16 field := by
  obtain ⟨field, mid, htake, hpure⟩ := Read.bind_eq_ok h
  cases hpure
  exact ⟨field, htake, rfl⟩

/-- `c'` is `c` about to dispatch the frame `(info, data)`, with the source `src` left. -/
def Carrier.Dispatches (c : Carrier) (info : Meta) (data : Option Bytes) (src : Source) : Prop :=
  ∃ trace conn demux, Run Step c trace
      ({ c with buf := src.buf, conn := conn, demux := demux }.handle info data) ∧
    Cuts conn src.reads

/-- A field that takes the demultiplexer on to the next one. -/
theorem Carrier.Dispatches.of_field {n : Nat} {field : Bytes} {info : Meta}
    {data : Option Bytes} {mid src : Source} (next : Demux) (hneed : c.demux.need = some n)
      (hcuts : Cuts c.conn cuts)
    (htake : Read.take n ⟨c.buf, cuts⟩ = (.ok field, mid))
    (hnext : ∀ buf conn, Carrier.onField { c with buf := buf, conn := conn } field =
      { c with buf := buf, conn := conn, demux := next })
    (h : ∀ conn, Cuts conn mid.reads →
      Carrier.Dispatches { c with buf := mid.buf, conn := conn, demux := next } info data src) :
    c.Dispatches info data src := by
  obtain ⟨t₁, conn₁, hrun₁, hreads₁⟩ := run_take hneed hcuts htake
  rw [hnext] at hrun₁
  obtain ⟨t₂, conn₂, demux, hrun₂, hreads₂⟩ := h conn₁ hreads₁
  exact ⟨t₁ ++ t₂, conn₂, demux, hrun₁.trans hrun₂, hreads₂⟩

/-- A field that completes the frame. -/
theorem Carrier.Dispatches.of_last {n : Nat} {field : Bytes} {info : Meta} {data : Option Bytes}
    {src : Source} (hneed : c.demux.need = some n) (hcuts : Cuts c.conn cuts)
    (htake : Read.take n ⟨c.buf, cuts⟩ = (.ok field, src))
    (hlast : ∀ buf conn, Carrier.onField { c with buf := buf, conn := conn } field =
      Carrier.handle { c with buf := buf, conn := conn } info data) :
    c.Dispatches info data src := by
  obtain ⟨trace, conn, hrun, hreads⟩ := run_take hneed hcuts htake
  rw [hlast] at hrun
  exact ⟨trace, conn, c.demux, hrun, hreads⟩

/-- From the meta field on. -/
theorem dispatches_of_readBody {metalen : Nat} (hdemux : c.demux = .metadata metalen)
    (hcuts : Cuts c.conn cuts) {info : Meta} {data : Option Bytes} {src : Source}
    (h : readBody metalen ⟨c.buf, cuts⟩ = (.ok (info, data), src)) :
    c.Dispatches info data src := by
  unfold readBody at h
  split at h
  · cases h
  · obtain ⟨metaBytes, s₁, htake, h⟩ := Read.bind_eq_ok h
    have hneed : c.demux.need = some metalen := by rw [hdemux]; rfl
    cases hparse : parseMeta metaBytes with
    | none =>
      simp only [hparse] at h
      cases h
    | some info' =>
      simp only [hparse] at h
      by_cases hopt : info'.option &&& optData ≠ 0
      · rw [if_pos hopt] at h
        obtain ⟨dlen, s₂, hlen, h⟩ := Read.bind_eq_ok h
        obtain ⟨field, hfield, rfl⟩ := u16_eq_ok hlen
        by_cases hmax : maxData < Carrier.fieldU16 field
        · rw [if_pos hmax] at h
          cases h
        · rw [if_neg hmax] at h
          obtain ⟨d, s₃, hdata, h⟩ := Read.bind_eq_ok h
          cases h
          -- the meta field, the length of the data, the data
          refine .of_field (.datalen info) hneed hcuts htake ?_ fun conn hreads => ?_
          · intro buf conn
            simp only [Carrier.onField, hdemux, hparse, if_pos hopt]
          refine .of_field (.data info (Carrier.fieldU16 field)) rfl hreads hfield ?_ ?_
          · intro buf conn
            simp only [Carrier.onField, if_neg hmax]
          · intro conn hreads
            exact .of_last rfl hreads hdata fun buf conn => rfl
      · rw [if_neg hopt] at h
        cases h
        refine .of_last hneed hcuts htake fun buf conn => ?_
        simp only [Carrier.onField, hdemux, hparse, if_neg hopt]

/-- **The carrier reads the same frames**: where the reader takes a frame off the
carrier, the demultiplexer comes to dispatch it, by reads and fields alone. -/
theorem dispatches_of_readFrame (hdemux : c.demux = .metalen) (hcuts : Cuts c.conn cuts) {info : Meta}
    {data : Option Bytes} {src : Source}
    (h : readFrame ⟨c.buf, cuts⟩ = (.ok (some (info, data)), src)) : c.Dispatches info data src := by
  unfold readFrame at h
  rcases hlen : Read.u16 ⟨c.buf, cuts⟩ with ⟨r, s₁⟩
  rw [hlen] at h
  cases r with
  | error e => cases h
  | ok metalen =>
    obtain ⟨body, mid, hbody, hpure⟩ := Read.bind_eq_ok (show (readBody metalen >>= _) s₁ = _ from h)
    cases hpure
    obtain ⟨field, htake, rfl⟩ := u16_eq_ok hlen
    have hguard : ¬ (Carrier.fieldU16 field = 0 ∨ maxMeta < Carrier.fieldU16 field) := by
      intro hbad
      rw [readBody, if_pos hbad] at hbody
      cases hbody
    refine .of_field (.metadata (Carrier.fieldU16 field)) (by rw [hdemux]; rfl) hcuts htake
      ?_ fun conn hreads => dispatches_of_readBody rfl hreads hbody
    intro buf conn
    simp only [Carrier.onField, hdemux, if_neg hguard]

end Carrier

end XrayRs.Mux
