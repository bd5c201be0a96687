import XrayRs.BufferedStream
import XrayRs.HeaderRead
import XrayRs.UdpRelay

/-! # Datagrams on a stream

`Framed` and the two packet formats of `proxy/src/udp.rs`.  `Framed::frame` tries the
packet parser on a copy of the buffer, advances the buffer by what the parser took of
the copy, and reads on when the parser asks for more.  Off the same bytes it gives the
same packets, whatever the header read has left over and however the rest comes in
(`Yields`).

The downlink loops of `relay_trojan_udp` and `relay_vless_udp` write their own frames;
they are read back as the answers they were made of. -/

namespace XrayRs

open ByteParser ByteWords BufferedStream

/-! ## The reader -/

section Reader

variable {α : Type}

/-- `Framed`: what the reads of the stream half will give, and the buffer. -/
structure Framed where
  r : List Bytes
  buf : Bytes
  deriving DecidableEq

namespace Framed

/-- `Framed::new`. -/
def new (r : List Bytes) (init : Bytes) : Framed := ⟨r, init⟩

/-- The loop of `Framed::frame`. -/
def frameLoop (parse : Parser α) (buf : Bytes) (reads : List Bytes) : Except IoError α × Framed :=
  match parse.run buf with
  | .ok (t, view) =>
    let consumed := buf.length - view.length
    (.ok t, ⟨reads, buf.drop consumed⟩)
  | .error (.truncated _ _) =>
    match reads with
    | [] => (.error ⟨.unexpectedEof, .msg "eof in udp frame"⟩, ⟨[], buf⟩)
    | chunk :: reads =>
      if chunk = [] then (.error ⟨.unexpectedEof, .msg "eof in udp frame"⟩, ⟨reads, buf⟩)
      else frameLoop parse (buf ++ chunk) reads
  | .error e => (.error (.invalidData e), ⟨reads, buf⟩)
termination_by structural reads

/-- `Framed::frame`. -/
def frame (parse : Parser α) (f : Framed) : Except IoError α × Framed :=
  frameLoop parse f.buf f.r

/-- `n` calls of `Framed::frame`, or those up to the first that fails. -/
def frames (parse : Parser α) : Nat → Framed → List α × Option IoError × Framed
  | 0, f => ([], none, f)
  | n + 1, f =>
    match f.frame parse with
    | (.ok t, f) =>
      let (ts, e, f) := frames parse n f
      (t :: ts, e, f)
    | (.error e, f) => ([], some e, f)

/-- The bytes that no frame has consumed yet. -/
def content (f : Framed) : Bytes := f.buf ++ f.r.flatten

/-! ### The reader pulls its parser -/

/-- What a stop of the parser is reported as. -/
def stopError : Stop Error → IoError
  | .eof => ⟨.unexpectedEof, .msg "eof in udp frame"⟩
  | .reject e => .invalidData e

/-- A source with the reader's two fields. -/
def ofSource (src : Source) : Framed := ⟨src.reads, src.buf⟩

variable {parse : Parser α}

/-- The buffer is advanced to what the parser has left of the copy. -/
theorem drop_consumed (hp : Incremental parse) {buf view : Bytes} {t : α}
    (h : parse.run buf = .ok (t, view)) : buf.drop (buf.length - view.length) = view := by
  obtain ⟨head, rfl, -⟩ := hp.ok_local h
  rw [List.length_append, Nat.add_sub_cancel, List.drop_left]

theorem frameLoop_of_ok (hp : Incremental parse) {buf view : Bytes} {t : α}
    (h : parse.run buf = .ok (t, view)) (reads : List Bytes) :
    frameLoop parse buf reads = (.ok t, ⟨reads, view⟩) := by
  unfold frameLoop
  rw [h]
  simp only [drop_consumed hp h]

theorem frameLoop_of_error {buf : Bytes} {e : Error} (h : parse.run buf = .error e)
    (he : ¬ e.IsTruncated) (reads : List Bytes) :
    frameLoop parse buf reads = (.error (.invalidData e), ⟨reads, buf⟩) := by
  unfold frameLoop
  rw [h]
  cases e with
  | truncated n m => exact absurd trivial he
  | _ => rfl

theorem frameLoop_of_truncated {buf : Bytes} {n m : Nat} (h : parse.run buf = .error (.truncated n m))
    (reads : List Bytes) :
    frameLoop parse buf reads =
      match reads with
      | [] => (.error ⟨.unexpectedEof, .msg "eof in udp frame"⟩, ⟨[], buf⟩)
      | chunk :: reads =>
        if chunk = [] then (.error ⟨.unexpectedEof, .msg "eof in udp frame"⟩, ⟨reads, buf⟩)
        else frameLoop parse (buf ++ chunk) reads := by
  rw [frameLoop.eq_def, h]

/-- **A frame is a pull.** -/
theorem frameLoop_eq_pull (hp : Incremental parse) (buf : Bytes) (reads : List Bytes) :
    frameLoop parse buf reads =
      ((pull Error.IsTruncated parse buf reads).1.mapError stopError,
        ofSource (pull Error.IsTruncated parse buf reads).2) := by
  induction reads generalizing buf with
  | nil =>
    rcases h : parse.run buf with e | ⟨t, view⟩
    · rcases e.truncated_or with ⟨n, m, rfl⟩ | he
      · rw [frameLoop_of_truncated h, pull_of_end (attempt_eq_none h trivial)]
        rfl
      · rw [frameLoop_of_error h he, pull_of_reject (attempt_eq_error.mpr ⟨h, he⟩)]
        rfl
    · rw [frameLoop_of_ok hp h, pull_of_ok (attempt_eq_ok.mpr h)]
      rfl
  | cons chunk reads ih =>
    rcases h : parse.run buf with e | ⟨t, view⟩
    · rcases e.truncated_or with ⟨n, m, rfl⟩ | he
      · rw [frameLoop_of_truncated h, pull_of_starved (attempt_eq_none h trivial)]
        by_cases hchunk : chunk = []
        · simp only [hchunk, if_true]
          rfl
        · simp only [hchunk, if_false]
          exact ih (buf ++ chunk)
      · rw [frameLoop_of_error h he, pull_of_reject (attempt_eq_error.mpr ⟨h, he⟩)]
        rfl
    · rw [frameLoop_of_ok hp h, pull_of_ok (attempt_eq_ok.mpr h)]
      rfl

theorem frames_eq_pulls (hp : Incremental parse) (n : Nat) (f : Framed) :
    f.frames parse n =
      ((pulls Error.IsTruncated parse n ⟨f.buf, f.r⟩).1,
        (pulls Error.IsTruncated parse n ⟨f.buf, f.r⟩).2.1.map stopError,
        ofSource (pulls Error.IsTruncated parse n ⟨f.buf, f.r⟩).2.2) := by
  induction n generalizing f with
  | zero => rfl
  | succ n ih =>
    rw [frames, frame, frameLoop_eq_pull hp, pulls]
    rcases pull Error.IsTruncated parse f.buf f.r with ⟨stop | t, src⟩
    · rfl
    · show (t :: (frames parse n (ofSource src)).1, _, _) = _
      rw [ih]
      rfl

end Framed

/-! ## The same frames for every cut -/

/-- **What the frames of a stream are**: the items, each with the bytes it takes, then the
error and the bytes that are left.  The first `n` calls give the first `n` packets and
consume their bytes, in one piece with the header's leftover or in many. -/
structure Yields (parse : Parser α) (s : Bytes) (items : List (Bytes × α)) (e : IoError)
    (tail : Bytes) : Prop where
  bytes : s = (items.map Prod.fst).flatten ++ tail
  packets : ∀ i ∈ items, parse.run i.1 = .ok (i.2, [])
  ends : ((Framed.new [] tail).frame parse).1 = .error e
  cut : ∀ (init live : Bytes) (reads : List Bytes) (n : Nat), s = init ++ live → IsCut live reads →
    ∃ f, (Framed.new reads init).frames parse n =
        ((items.take n).map Prod.snd, if n ≤ items.length then none else some e, f) ∧
      f.content = ((items.drop n).map Prod.fst).flatten ++ tail

theorem Yields.of_drains {parse : Parser α} (hp : Incremental parse) {s tail : Bytes}
    {items : List (Bytes × α)} {stop : Stop Error}
    (h : Drains Error.IsTruncated parse s items stop tail) :
    Yields parse s items (Framed.stopError stop) tail where
  bytes := h.bytes_eq
  packets := h.item_eq
  ends := by
    show (Framed.frameLoop parse tail []).1 = _
    rw [Framed.frameLoop_eq_pull hp, h.stop_eq]
    rfl
  cut init live reads n hs hcut := by
    have hcontent : (⟨init, reads⟩ : Source).content = s := by
      rw [Source.content, hcut.1, hs]
    obtain ⟨src, hpulls, htail⟩ := pulls_of_drains hp h hcontent (fun r hr => (hcut.2 r hr).1) n
    refine ⟨Framed.ofSource src, ?_, htail⟩
    show (Framed.new reads init).frames parse n = _
    rw [Framed.frames_eq_pulls hp, Framed.new, hpulls]
    by_cases hn : n ≤ items.length
    · simp only [hn, if_true, Option.map_none]
    · simp only [hn, if_false, Option.map_some]

end Reader

/-! ## The packets -/

/-- `parse_trojan_packet`. -/
def parseTrojanPacket : Parser (Destination × Bytes) := do
  let (address, port) ← AddrCodec.TROJAN.read
  let len ← readPort
  let _crlf ← take 2
  let payload ← take len.toNat
  return (.udp address port, payload)

theorem incremental_parseTrojanPacket : Incremental parseTrojanPacket :=
  (incremental_read _).bind fun _ => incremental_readPort.bind fun len =>
    (incremental_take 2).bind fun _ => (incremental_take len.toNat).bind fun _ => .pure _

theorem incremental_parseVlessPacket : Incremental parseVlessPacket :=
  incremental_readPort.bind fun len => incremental_take len.toNat

/-- A datagram that comes back on the socket. -/
structure Answer where
  ip : IpAddr
  port : UInt16
  data : Bytes
  deriving DecidableEq

/-- What `recv_from` puts into the loop's buffer. -/
def Answer.payload (a : Answer) : Bytes := a.data.take recvBuf

/-- The answer as a packet from its source. -/
def Answer.packet (a : Answer) : Destination × Bytes := (.udp (.ip a.ip) a.port, a.data)

/-- The frame that the downlink loop of `relay_trojan_udp` writes for an answer; `none` if
its length does not fit. -/
def trojanFrame (a : Answer) : Except IoError (Option Bytes) :=
  let payload := a.payload
  if payload.length < 65536 then
    let target := Destination.udp (.ip a.ip) a.port
    match AddrCodec.TROJAN.write target.address target.port with
    | .ok out => .ok (some (out ++ u16ToBe (.ofNat payload.length) ++ [0x0d, 0x0a] ++ payload))
    | .error e => .error (.invalidData e)
  else .ok none

/-- What the downlink loop of `relay_trojan_udp` writes for the answers that come in. -/
def trojanDown : List Answer → Except IoError (List Bytes)
  | [] => .ok []
  | a :: answers => do
    let frame ← trojanFrame a
    let frames ← trojanDown answers
    return frame.toList ++ frames

/-- What the downlink loop of `relay_vless_udp` writes for the answers that come in. -/
def vlessDown : List Answer → List Bytes
  | [] => []
  | a :: answers => (datagramFrame a.payload).toList ++ vlessDown answers

/-- An answer that fits the buffer, from an address that the codec keeps as it is: IPv4, or
IPv6 that is not v4-mapped. -/
def Answer.Fits (a : Answer) : Prop := (Address.ip a.ip).Canonical ∧ a.data.length ≤ recvBuf

theorem Answer.Fits.payload_eq {a : Answer} (h : a.Fits) : a.payload = a.data :=
  List.take_of_length_le h.2

/-- A length field that fits is read back. -/
theorem ofNat_toNat_of_fits {a : Answer} (h : a.Fits) :
    (UInt16.ofNat a.data.length).toNat = a.data.length := by
  have hlen := h.2
  unfold recvBuf at hlen
  rw [UInt16.toNat_ofNat', Nat.mod_eq_of_lt (by omega)]

/-- An answer's Trojan frame is the answer again, with the address it came from. -/
theorem parseTrojanPacket_frame {a : Answer} (h : a.Fits) :
    ∃ frame, trojanFrame a = .ok (some frame) ∧
      ∀ more, parseTrojanPacket.run (frame ++ more) =
        .ok (a.packet, more) := by
  obtain ⟨addr, hwrite⟩ := write_eq_ok AddrCodec.TROJAN (.ip a.ip) a.port nofun
  refine ⟨addr ++ u16ToBe (.ofNat a.data.length) ++ [0x0d, 0x0a] ++ a.data, ?_, fun more => ?_⟩
  · have hlen : a.data.length < 65536 := Nat.lt_of_le_of_lt h.2 (by decide)
    unfold trojanFrame
    simp only [h.payload_eq, hlen, if_true, Destination.udp, hwrite]
  · have hread : ∀ rest, AddrCodec.TROJAN.read.run (addr ++ rest) = .ok ((.ip a.ip, a.port), rest) := by
      intro rest
      rw [read_write AddrCodec.TROJAN hwrite, reread_canonical h.1]
      rfl
    have hlen : a.data.length = (UInt16.ofNat a.data.length).toNat := (ofNat_toNat_of_fits h).symm
    unfold parseTrojanPacket
    rw [List.append_assoc, List.append_assoc, List.append_assoc, run_bind_of_ok (hread _)]
    show (readPort >>= _).run _ = _
    rw [run_bind_of_ok (readPort_u16ToBe _ _), run_bind_of_ok (take_append (n := 2) rfl _),
      run_bind_of_ok (take_append hlen _)]
    rfl

/-- An answer's VLESS frame is the answer again. -/
theorem parseVlessPacket_frame {a : Answer} (h : a.Fits) :
    ∃ frame, datagramFrame a.payload = some frame ∧
      ∀ more, parseVlessPacket.run (frame ++ more) = .ok (a.data, more) := by
  refine ⟨u16ToBe (.ofNat a.data.length) ++ a.data, ?_, fun more => ?_⟩
  · rw [h.payload_eq, datagramFrame_of_le h.2]
  · have hlen : a.data.length = (UInt16.ofNat a.data.length).toNat := (ofNat_toNat_of_fits h).symm
    unfold parseVlessPacket
    rw [List.append_assoc, run_bind_of_ok (readPort_u16ToBe _ _), take_append hlen]

/-- **The frames of the Trojan downlink** are the answers, one by one. -/
theorem trojanDown_items : ∀ {answers : List Answer}, (∀ a ∈ answers, a.Fits) →
    ∃ items : List (Bytes × Destination × Bytes), trojanDown answers = .ok (items.map Prod.fst) ∧
      items.map Prod.snd = answers.map Answer.packet ∧
      ∀ i ∈ items, ∀ more, parseTrojanPacket.run (i.1 ++ more) = .ok (i.2, more)
  | [], _ => ⟨[], rfl, rfl, nofun⟩
  | a :: answers, h => by
    obtain ⟨ha, hanswers⟩ := List.forall_mem_cons.mp h
    obtain ⟨frame, hframe, hparse⟩ := parseTrojanPacket_frame ha
    obtain ⟨items, hdown, hpackets, hitems⟩ := trojanDown_items hanswers
    refine ⟨(frame, _) :: items, ?_, congrArg _ hpackets, List.forall_mem_cons.mpr ⟨hparse, hitems⟩⟩
    rw [trojanDown, hframe, hdown]
    rfl

/-- **The frames of the VLESS downlink** are the answers' payloads, one by one. -/
theorem vlessDown_items : ∀ {answers : List Answer}, (∀ a ∈ answers, a.Fits) →
    ∃ items : List (Bytes × Bytes), vlessDown answers = items.map Prod.fst ∧
      items.map Prod.snd = answers.map Answer.data ∧
      ∀ i ∈ items, ∀ more, parseVlessPacket.run (i.1 ++ more) = .ok (i.2, more)
  | [], _ => ⟨[], rfl, rfl, nofun⟩
  | a :: answers, h => by
    obtain ⟨ha, hanswers⟩ := List.forall_mem_cons.mp h
    obtain ⟨frame, hframe, hparse⟩ := parseVlessPacket_frame ha
    obtain ⟨items, hdown, hpackets, hitems⟩ := vlessDown_items hanswers
    refine ⟨(frame, a.data) :: items, ?_, congrArg _ hpackets,
      List.forall_mem_cons.mpr ⟨hparse, hitems⟩⟩
    rw [vlessDown, hframe, hdown]
    rfl

/-- **Datagrams on a stream.**  Every stream of bytes has one list of Trojan packets and one
of VLESS packets, whatever it is cut into; and the frames of the answers that the
downlink loops write are read back as these answers, each frame as one, with nothing
left over. -/
theorem framed_udp_exact :
    (∀ s, ∃ items e tail, Yields parseTrojanPacket s items e tail) ∧
      (∀ s, ∃ items e tail, Yields parseVlessPacket s items e tail) ∧
      ∀ answers : List Answer, (∀ a ∈ answers, a.Fits) →
        (∃ items : List (Bytes × Destination × Bytes), trojanDown answers = .ok (items.map Prod.fst) ∧
          items.map Prod.snd = answers.map Answer.packet ∧
          Yields parseTrojanPacket (items.map Prod.fst).flatten items
            ⟨.unexpectedEof, .msg "eof in udp frame"⟩ []) ∧
        ∃ items : List (Bytes × Bytes), vlessDown answers = items.map Prod.fst ∧
          items.map Prod.snd = answers.map Answer.data ∧
          Yields parseVlessPacket (items.map Prod.fst).flatten items
            ⟨.unexpectedEof, .msg "eof in udp frame"⟩ [] := by
  have htrojan : attempt Error.IsTruncated parseTrojanPacket [] = none := rfl
  have hvless : attempt Error.IsTruncated parseVlessPacket [] = none := rfl
  refine ⟨fun s => ?_, fun s => ?_, fun answers h => ⟨?_, ?_⟩⟩
  · obtain ⟨items, stop, tail, hdrain⟩ := exists_drains incremental_parseTrojanPacket htrojan s
    exact ⟨items, _, tail, .of_drains incremental_parseTrojanPacket hdrain⟩
  · obtain ⟨items, stop, tail, hdrain⟩ := exists_drains incremental_parseVlessPacket hvless s
    exact ⟨items, _, tail, .of_drains incremental_parseVlessPacket hdrain⟩
  · obtain ⟨items, hdown, hpackets, hitems⟩ := trojanDown_items h
    exact ⟨items, hdown, hpackets, .of_drains incremental_parseTrojanPacket (.of_items htrojan hitems)⟩
  · obtain ⟨items, hdown, hpackets, hitems⟩ := vlessDown_items h
    exact ⟨items, hdown, hpackets, .of_drains incremental_parseVlessPacket (.of_items hvless hitems)⟩

theorem framed_udp_exact_two :
    (∃ items : List (Bytes × Destination × Bytes),
      trojanDown [⟨.v4 #v[10, 0, 0, 1], 53, [1, 2]⟩, ⟨.v4 #v[10, 0, 0, 2], 80, []⟩] =
          .ok (items.map Prod.fst) ∧
        items.map Prod.snd = [⟨.v4 #v[10, 0, 0, 1], 53, [1, 2]⟩,
          ⟨.v4 #v[10, 0, 0, 2], 80, []⟩].map Answer.packet ∧
        Yields parseTrojanPacket (items.map Prod.fst).flatten items
          ⟨.unexpectedEof, .msg "eof in udp frame"⟩ []) ∧
      ∃ items : List (Bytes × Bytes),
        vlessDown [⟨.v4 #v[10, 0, 0, 1], 53, [1, 2]⟩, ⟨.v4 #v[10, 0, 0, 2], 80, []⟩] =
          items.map Prod.fst ∧
        items.map Prod.snd = [⟨.v4 #v[10, 0, 0, 1], 53, [1, 2]⟩,
          ⟨.v4 #v[10, 0, 0, 2], 80, []⟩].map Answer.data ∧
        Yields parseVlessPacket (items.map Prod.fst).flatten items
          ⟨.unexpectedEof, .msg "eof in udp frame"⟩ [] := by
  apply framed_udp_exact.2.2
  simp only [List.forall_mem_cons]
  exact ⟨⟨trivial, by decide⟩, ⟨trivial, by decide⟩, nofun⟩

end XrayRs
