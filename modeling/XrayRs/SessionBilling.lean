import XrayRs.ByteConservation
import XrayRs.FramedRelay
import XrayRs.InboundHeaders
import XrayRs.Mux
import XrayRs.VmessBody
import XrayRs.VmessHeader

/-! # What a session is billed

`Vless::decode` and `Vmess::decode` hand an authenticated client to the relay of its
command: `relay_stream` and `relay_framed` for TCP, `relay_vless_udp` for VLESS UDP,
`mux::serve` for mux.  The user's counter should grow by the payload bytes forwarded
and by those sent back, whatever the command.

The first three relays are given the counter, and count a chunk when they take it in;
so they are exact as long as they do not return with a chunk in hand.  `mux::serve` is
given no counter, so all payload of a mux carrier goes uncounted
(`relayed_bytes_billed`). -/

namespace XrayRs

open BoundedChannel StepSystem

/-! ## The VMess carrier -/

/-- `serve_mux` runs `mux::serve` on one end of an in-memory duplex of this size in
each direction. -/
def duplexSize : Nat := 65536

/-- Where the bridge's downlink is. -/
inductive BridgeDown
  | reading
  | writing (data : Bytes)
  | ending
  | over
  deriving DecidableEq

/-- The bridge of `serve_mux` between the client's chunks and the duplex: the chunks
to come and the rest of the one being passed on, and the bytes read back off the duplex
with the calls of the encoder.  What is in the duplex is the connection of the
carrier. -/
structure Bridge where
  toRead : List Bytes
  rest : Bytes
  upOver : Bool
  readBack : Nat
  down : BridgeDown
  log : List EncCall

namespace Bridge

/-- The bridge `serve_mux` spawns. -/
def new (chunks : List Bytes) : Bridge := ⟨chunks, [], false, 0, .reading, []⟩

/-- Both directions have returned, so the bridge's end of the duplex is dropped. -/
def Gone (b : Bridge) : Prop := b.upOver = true ∧ b.down = .over

/-- What the duplex lets the carrier do: its end never fails to be read, and it sees
the end of the stream and failing writes only when the other end is gone. -/
def Allows (b : Bridge) (c : Mux.Carrier) : Mux.Act → Prop
  | .eof | .writeError => b.Gone
  | .readError => False
  | .write n => ¬ b.Gone ∧ c.conn.written.length + n ≤ b.readBack + duplexSize
  | _ => True

end Bridge

/-- The moves of the bridge. -/
inductive BridgeAct
  | chunk
  | feed (n : Nat)
  | upEnd
  | read (n : Nat)
  | readEnd
  | wrote
  | writeError
  | terminal
  deriving DecidableEq

/-- One step of the bridge. -/
inductive BridgeStep (b : Bridge) (c : Mux.Carrier) : BridgeAct → Bridge → Mux.Carrier → Prop
  | chunk {chunk : Bytes} {rest : List Bytes} (hrun : b.upOver = false) (hrest : b.rest = [])
      (hchunk : b.toRead = chunk :: rest) :
      BridgeStep b c .chunk { b with toRead := rest, rest := chunk } c
  | feed (n : Nat) (hrun : b.upOver = false) (hpos : 0 < n) (hlen : n ≤ b.rest.length)
      (hroom : c.conn.unread.length + n ≤ duplexSize) :
      BridgeStep b c (.feed n) { b with rest := b.rest.drop n }
        { c with conn := { c.conn with unread := c.conn.unread ++ b.rest.take n } }
  -- the end of the chunks, a bad one, or a duplex whose other end is gone
  | upEnd (hrun : b.upOver = false) : BridgeStep b c .upEnd { b with upOver := true } c
  | read (n : Nat) (hdown : b.down = .reading) (hpos : 0 < n) (hbuf : n ≤ 16384)
      (hlen : b.readBack + n ≤ c.conn.written.length) :
      BridgeStep b c (.read n)
        { b with
          readBack := b.readBack + n
          down := .writing ((c.conn.written.drop b.readBack).take n) } c
  | readEnd {result : Except IoError Unit} (hdown : b.down = .reading)
      (hall : b.readBack = c.conn.written.length) (hret : c.demux = .returned result) :
      BridgeStep b c .readEnd { b with down := .ending } c
  | wrote {data : Bytes} (hdown : b.down = .writing data) :
      BridgeStep b c .wrote { b with down := .reading, log := b.log ++ [.chunk data] } c
  | writeError {data : Bytes} (hdown : b.down = .writing data) :
      BridgeStep b c .writeError { b with down := .ending } c
  -- the result of `write_terminal` is ignored
  | terminal (hdown : b.down = .ending) :
      BridgeStep b c .terminal { b with down := .over, log := b.log ++ [.finish] } c

/-! ## Sessions -/

/-- A session with its user's counter.  A VMess carrier is behind a bridge; either
carrier runs beside the counter, which `mux::serve` is not given. -/
inductive Session
  | stream (side : Side)
  | framed (side : FramedSide)
  | datagram (relay : VlessUdp)
  | mux (counter : Option Counter) (bridge : Option Bridge) (carrier : Mux.Carrier)

/-- The end of `Vless::decode`: the relay of a request.  `client` is what the client
sends after what was read with the header. -/
def Vless.serve (req : VlessReq) (leftover client : Bytes) (counter : Option Counter) : Session :=
  match req with
  | .tcp _ => .stream ⟨.relayStream (.new client) counter leftover, .new Mux.linkCapacity⟩
  | .udp _ => .datagram (.relayVlessUdp (.new client) leftover counter)
  | .mux => .mux counter none (.serve (.new client) leftover)

/-- `Vless::decode`: the user of the context, and the session.  `userCounter` gives the
counter of a user, if there is a stats registry. -/
def Vless.decode (users : VlessUsers) (reads : List Bytes) (userCounter : String → Option Counter) :
    Except IoError (String × Session) := do
  let (((req, email), leftover), unread) ← readHeader maxHeader (parse users) reads
  return (email, serve req leftover unread.flatten (userCounter email))

/-- `Vmess::decode` on the header of an authenticated user; `chunks` are those
`read_chunk` gives.  The codecs of the two directions are made, or fail, alike. -/
def Vmess.decode (P : Primitives) (email : String) (header : Bytes) (chunks : List Bytes)
    (userCounter : String → Option Counter) : Except IoError (String × Session) := do
  let req ← (parseHeader header).mapError .invalidData
  let req := { req with email := email }
  let _ ← bodyAead P req.security req.reqKey
  if req.mux then
    return (req.email, .mux (userCounter req.email) (some (.new chunks)) (.serve (.new []) []))
  else if req.dest.network = .udp then
    throw ⟨.unsupported, .msg "vmess udp-direct not supported"⟩
  else
    return (req.email,
      .framed ⟨.relayFramed chunks (userCounter req.email) [], .new Mux.linkCapacity⟩)

/-- A session of the authenticated user `email`, with a stats registry. -/
def Session.Authenticated (userCounter : String → Counter) (email : String) (s : Session) : Prop :=
  (∃ users reads, Vless.decode users reads (fun user => some (userCounter user)) = .ok (email, s)) ∨
    ∃ P header chunks,
      Vmess.decode P email header chunks (fun user => some (userCounter user)) = .ok (email, s)

/-- The moves of a session: those of its relay, and those of the peer on the link of a
TCP session. -/
inductive SessionAct
  | stream (a : OpenAct)
  | framed (a : FramedAct)
  | datagram (a : VlessUdpAct)
  | mux (a : Mux.Act)
  | bridge (a : BridgeAct)
  deriving DecidableEq

/-- One step of a session. -/
inductive SessionStep : Session → SessionAct → Session → Prop
  | stream {s s' : Side} {a : OpenAct} :
      OpenStep s a s' → SessionStep (.stream s) (.stream a) (.stream s')
  | framed {s s' : FramedSide} {a : FramedAct} :
      FramedStep s a s' → SessionStep (.framed s) (.framed a) (.framed s')
  | datagram {r r' : VlessUdp} {a : VlessUdpAct} :
      VlessUdpStep r a r' → SessionStep (.datagram r) (.datagram a) (.datagram r')
  | mux {counter : Option Counter} {bridge : Option Bridge} {c c' : Mux.Carrier} {a : Mux.Act} :
      (∀ b ∈ bridge, b.Allows c a) → Mux.Step c a c' →
      SessionStep (.mux counter bridge c) (.mux a) (.mux counter bridge c')
  | bridge {counter : Option Counter} {b b' : Bridge} {c c' : Mux.Carrier} {a : BridgeAct} :
      BridgeStep b c a b' c' →
      SessionStep (.mux counter (some b) c) (.bridge a) (.mux counter (some b') c')

/-- Neither an error, nor a timeout, nor a failed send.  Of a carrier nothing is
asked. -/
def SessionAct.Clean : SessionAct → Prop
  | .stream (.relay a) => a.Clean
  | .framed .seedFail | .framed .sendFail => False
  | .framed a => a.Clean
  | .datagram a => a.Clean
  | .stream .peer | .mux _ | .bridge _ => True

/-! ## The bill -/

/-- The payload of an encoder's call. -/
def EncCall.data : EncCall → Bytes
  | .chunk data => data
  | .finish => []

/-- The chunk taken off the link and not encoded. -/
def EncState.held : EncState → Bytes
  | .writing data => data
  | .receiving | .finishing | .closing => []

namespace Session

/-- The user's counter. -/
def counter : Session → Option Counter
  | stream s => s.relay.counter
  | framed s => s.relay.counter
  | datagram r => r.counter
  | mux counter _ _ => counter

/-- The client's payload bytes forwarded so far: put on a link, or sent on the
socket. -/
def forwarded : Session → Nat
  | stream s => s.link.writer.sent.flatten.length
  | framed s => s.link.writer.sent.flatten.length
  | datagram r => r.sent.flatten.length
  | mux _ _ c => c.forwarded

/-- The target's bytes sent back so far: written to the client, or given to the
encoder. -/
def sentBack : Session → Nat
  | stream s => s.relay.conn.written.length
  | framed s => (s.relay.log.map EncCall.data).flatten.length
  | datagram r => r.answered.flatten.length
  | mux _ _ c => c.answered

/-- The bytes counted and not yet forwarded. -/
def heldUp : Session → Nat
  | stream s => s.relay.up.held.length
  | framed s => s.relay.dec.held.flatten.length
  | datagram r => r.up.held.length
  | mux .. => 0

/-- The bytes counted and not yet sent back. -/
def heldDown : Session → Nat
  | stream s => s.relay.down.rest.length
  | framed s => s.relay.enc.held.length
  | datagram r => r.down.held.length
  | mux .. => 0

/-- Nothing counted is in hand. -/
def AtRest (s : Session) : Prop := s.heldUp = 0 ∧ s.heldDown = 0

/-- The relay has returned `Ok`. -/
def Completed : Session → Prop
  | stream s => s.relay.result = some (.ok ())
  | framed s => s.relay.result = some (.ok ())
  | datagram r => r.result = some (.ok ())
  | mux _ _ c => c.demux = .returned (.ok ())

/-- **The user is billed for what was relayed**: in a completed session, and whenever
nothing is in hand, the counter has grown from `start` by the bytes forwarded and sent
back. -/
def Billed (start : Counter) (s : Session) : Prop :=
  s.AtRest ∨ s.Completed → s.counter = some (start.grown s.forwarded s.sentBack)

/-- **The condition**, on a step and the state before it: a carrier moves no payload,
and `relay_framed` and `relay_vless_udp` do not return with a counted chunk in hand.
Lengths are as `u64`, as they are counted. -/
def BillsStep (s : Session) : SessionAct → Prop
  | .stream _ | .bridge _ => True
  | .framed a => a.Returns → UInt64.ofNat s.heldUp = 0 ∧ UInt64.ofNat s.heldDown = 0
  | .datagram a => a = .idle → UInt64.ofNat s.heldUp = 0 ∧ UInt64.ofNat s.heldDown = 0
  | .mux a =>
    match s with
    | mux _ _ c => UInt64.ofNat (c.forwards a) = 0 ∧ UInt64.ofNat (c.answers a) = 0
    | _ => True

end Session

/-! ## What the relays count -/

theorem Counter.grown_add_eq_iff (c : Counter) (up down m n : Nat) :
    c.grown (up + m) (down + n) = c.grown up down ↔ UInt64.ofNat m = 0 ∧ UInt64.ofNat n = 0 := by
  simp [Counter.grown, UInt64.ofNat_add, ← UInt64.add_assoc]

theorem Counter.grown_zero (c : Counter) : c.grown 0 0 = c := by
  simp [Counter.grown]

/-- **What `relay_framed` counts**: the chunks given by the decoder that are not
skipped, and those that came off the link. -/
def FramedSide.Counted (start : Counter) (s : FramedSide) : Prop :=
  s.relay.counter = some (start.grown (s.relay.produced.filter s.relay.kind.keeps).flatten.length
    s.link.reader.taken.flatten.length)

theorem FramedStep.counted {start : Counter} {s t : FramedSide} {a : FramedAct}
    (h : FramedStep s a t) (hs : s.Counted start) : t.Counted start := by
  unfold FramedSide.Counted at hs ⊢
  cases h with
  | @read r l chunk rest =>
    unfold FramedRelay.onRead
    dsimp only at hs ⊢
    split
    · next hkeep => simp [hs, hkeep, Counter.grown_addUp]
    · next hskip => simp [hs, hskip]
  | recv =>
    dsimp only at hs
    simp [FramedRelay.onRecv, Chan.pop, hs, Counter.grown_addDown]
  | peer htx hrx =>
    dsimp only
    rw [htx.taken_eq]
    exact hs
  | seed | seedFail | salt | readEnd | readError | send | sendFail | recvEnd | wrote | writeError
  | finished | closed | timeout => exact hs

/-- What the encoder was given and what it is being given came off the link. -/
theorem ChunkAccounts.sentBack_held {leftover : Bytes} {s : FramedSide}
    (hs : ChunkAccounts leftover s) :
    (s.relay.log.map EncCall.data).flatten.length + s.relay.enc.held.length =
      s.link.reader.taken.flatten.length := by
  have hlog : ((s.relay.log.map EncCall.data).flatten) =
      (s.relay.log.filterMap EncCall.chunkOf).flatten := by
    induction s.relay.log with
    | nil => rfl
    | cons call log ih =>
      cases call with
      | chunk data => exact congrArg (data ++ ·) ih
      | finish => exact ih
  have hheld : s.relay.enc.held = s.relay.enc.underway.flatten := by
    cases s.relay.enc with
    | writing data => exact (List.append_nil data).symm
    | receiving | finishing | closing => rfl
  rw [hlog, hheld, ← List.length_append, ← List.flatten_append, ← hs.encoded_eq]
  rfl

/-- What is on the link and what is held are the chunks that are not skipped. -/
theorem ChunkAccounts.forwarded_held {s : FramedSide} (hs : ChunkAccounts [] s) :
    s.link.writer.sent.flatten.length + s.relay.dec.held.flatten.length =
      (s.relay.produced.filter s.relay.kind.keeps).flatten.length := by
  have hup := congrArg (fun chunks => chunks.flatten.length) hs.up_chunks
  simpa [seedChunks] using hup

/-- What is written and what is being written came off the link; what is on the link and
what is held was taken in. -/
theorem Accounts.counted_held {leftover bytes : Bytes} {counter : Option Counter} {s : Side}
    (hs : Accounts leftover bytes counter s) :
    s.relay.counter = counter.map
      (·.grown (s.link.writer.sent.flatten.length + s.relay.up.held.length)
        (s.relay.conn.written.length + s.relay.down.rest.length)) := by
  rw [← List.length_append, ← List.length_append, hs.up_bytes, hs.down_bytes]
  exact hs.counted

namespace Session

variable {start : Counter} {s t : Session} {a : SessionAct}

/-- The account of a session. -/
def Inv (start : Counter) : Session → Prop
  | stream s => ∃ leftover client, Accounts leftover client (some start) s ∧ Owns s ∧ Unharmed s.relay
  | framed s => ChunkAccounts [] s ∧ s.Counted start
  | datagram r => r.Counted (some start)
  | mux counter _ _ => counter = some start

/-- The counter has grown by what was passed on and by what is in hand. -/
def Counts (start : Counter) (s : Session) : Prop :=
  s.counter = some (start.grown (s.forwarded + s.heldUp) (s.sentBack + s.heldDown))

/-- Where that is so, the bill of a completed session is right exactly when nothing is
left in hand. -/
theorem Counts.billed_iff (hs : s.Counts start) :
    s.Billed start ↔ (s.Completed → UInt64.ofNat s.heldUp = 0 ∧ UInt64.ofNat s.heldDown = 0) := by
  unfold Billed
  rw [hs, Option.some_inj, Counter.grown_add_eq_iff]
  constructor
  · exact fun h hdone => h (.inr hdone)
  · rintro h (⟨hup, hdown⟩ | hdone)
    · rw [hup, hdown]
      exact ⟨rfl, rfl⟩
    · exact h hdone

/-- A carrier's counter stays where it was, so the bill is right exactly when it moves
no payload. -/
theorem mux_billed_iff {bridge : Option Bridge} {c : Mux.Carrier} :
    (mux (some start) bridge c).Billed start ↔
      UInt64.ofNat c.forwarded = 0 ∧ UInt64.ofNat c.answered = 0 := by
  have hgrown := start.grown_add_eq_iff 0 0 c.forwarded c.answered
  rw [Nat.zero_add, Nat.zero_add, start.grown_zero] at hgrown
  rw [← hgrown]
  constructor
  · intro h
    exact (Option.some.inj (h (.inl ⟨rfl, rfl⟩))).symm
  · intro h _
    exact congrArg some h.symm

/-! ## Steps -/

theorem counts_of_stream {s : Side} (hs : Inv start (.stream s)) : Counts start (.stream s) := by
  obtain ⟨leftover, client, hacc, -, -⟩ := hs
  exact hacc.counted_held

theorem counts_of_framed {s : FramedSide} (hs : Inv start (.framed s)) :
    Counts start (.framed s) := by
  obtain ⟨hacc, hcount⟩ := hs
  unfold Counts forwarded heldUp sentBack heldDown
  rw [hacc.forwarded_held, hacc.sentBack_held]
  exact hcount

theorem counts_of_datagram {r : VlessUdp} (hs : Inv start (.datagram r)) :
    Counts start (.datagram r) := hs

theorem step_inv (ha : a.Clean) (hs : s.Inv start) (h : SessionStep s a t) : t.Inv start := by
  cases h with
  | stream hstep =>
    obtain ⟨leftover, client, hacc, howns, hu⟩ := hs
    refine ⟨leftover, client, OpenStep.accounts hacc hstep, OpenStep.owns howns hstep, ?_⟩
    cases hstep with
    | relay hrelay => exact RelayStep.unharmed ha hu hrelay
    | peer => exact hu
  | framed hstep => exact ⟨FramedStep.chunkAccounts hs.1 hstep, FramedStep.counted hstep hs.2⟩
  | datagram hstep => exact hstep.counted hs
  | mux | bridge => exact hs

/-- A stream session that has returned holds nothing. -/
theorem stream_billed {s : Side} (hs : Inv start (.stream s)) : Billed start (.stream s) := by
  rw [(counts_of_stream hs).billed_iff]
  intro hdone
  obtain ⟨leftover, client, hacc, howns, hu⟩ := hs
  obtain ⟨hup, hdown⟩ := howns.eof_of_ok hu hdone
  dsimp only [heldUp, heldDown]
  rw [hup, hdown]
  exact ⟨rfl, rfl⟩

/-- A clean step of `relay_framed` after which it has returned is its return, with
what is in hand then, or one of its peer. -/
theorem framed_completed {s t : FramedSide} {a : FramedAct} (ha : (SessionAct.framed a).Clean)
    (h : FramedStep s a t) (hdone : (framed t).Completed) :
    (framed t).heldUp = (framed s).heldUp ∧ (framed t).heldDown = (framed s).heldDown ∧
      (a.Returns ∨ (framed s).Completed) := by
  cases h with
  | readEnd hrun hdec =>
    refine ⟨?_, rfl, .inl trivial⟩
    dsimp only [heldUp]
    rw [hdec]
    rfl
  | closed => exact ⟨rfl, rfl, .inl trivial⟩
  | peer => exact ⟨rfl, rfl, .inr hdone⟩
  | seedFail | sendFail | readError | writeError | timeout => exact ha.elim
  | seed hrun | salt hrun | send hrun | recv hrun | recvEnd hrun | wrote hrun | finished hrun =>
    exact absurd (hrun.symm.trans hdone) nofun
  | @read r l chunk rest hrun =>
    exact absurd ((hrun.symm.trans (r.onRead_result chunk rest).symm).trans hdone) nofun

theorem framed_returns {s t : FramedSide} {a : FramedAct} (ha : (SessionAct.framed a).Clean)
    (h : FramedStep s a t) (hret : a.Returns) : (framed t).Completed := by
  cases h with
  | readEnd | closed => exact rfl
  | seedFail | sendFail => exact ha.elim
  | _ => exact hret.elim

/-- `relay_vless_udp` returns `Ok` when it idles, with what is in hand then, and not
otherwise. -/
theorem datagram_completed_iff {r r' : VlessUdp} {a : VlessUdpAct} (ha : a.Clean)
    (h : VlessUdpStep r a r') : (datagram r').Completed ↔ a = .idle := by
  constructor
  · intro hdone
    cases h with
    | idle => rfl
    | opened hrun | frame hrun | read _ hrun | sent hrun | recv _ hrun =>
      exact absurd (hrun.symm.trans hdone) nofun
    | @write payload rest n hrun =>
      exact absurd ((hrun.symm.trans (r.onWrite_result payload rest n).symm).trans hdone) nofun
    | openError | badFrame | eof | readError | sendError | recvError | writeError => exact ha.elim
  · rintro rfl
    cases h
    rfl

theorem idle_held {r r' : VlessUdp} (h : VlessUdpStep r .idle r') :
    (datagram r').heldUp = (datagram r).heldUp ∧ (datagram r').heldDown = (datagram r).heldDown := by
  cases h
  exact ⟨rfl, rfl⟩

/-- **One step** keeps the bill right exactly when it meets the condition. -/
theorem step_billed_iff (ha : a.Clean) (hs : s.Inv start) (hbill : s.Billed start)
    (h : SessionStep s a t) : t.Billed start ↔ s.BillsStep a := by
  have ht := step_inv ha hs h
  cases h with
  | stream => exact ⟨fun _ => trivial, fun _ => stream_billed ht⟩
  | framed hstep =>
    rw [(counts_of_framed hs).billed_iff] at hbill
    rw [(counts_of_framed ht).billed_iff]
    constructor
    · intro h hret
      have hdone := framed_returns ha hstep hret
      obtain ⟨hup, hdown, -⟩ := framed_completed ha hstep hdone
      rw [← hup, ← hdown]
      exact h hdone
    · intro h hdone
      obtain ⟨hup, hdown, hret | hold⟩ := framed_completed ha hstep hdone
      · rw [hup, hdown]
        exact h hret
      · rw [hup, hdown]
        exact hbill hold
  | datagram hstep =>
    rw [(counts_of_datagram ht).billed_iff, datagram_completed_iff ha hstep]
    refine forall_congr' fun hidle => ?_
    subst hidle
    obtain ⟨hup, hdown⟩ := idle_held hstep
    rw [hup, hdown]
  | mux _ hstep =>
    obtain rfl : _ = some start := hs
    rw [mux_billed_iff] at hbill ⊢
    rw [hstep.forwarded_eq, hstep.answered_eq, UInt64.ofNat_add, UInt64.ofNat_add, hbill.1, hbill.2,
      UInt64.zero_add, UInt64.zero_add]
    exact Iff.rfl
  | bridge hstep =>
    obtain rfl : _ = some start := hs
    rw [mux_billed_iff] at hbill ⊢
    refine ⟨fun _ => trivial, fun _ => ?_⟩
    cases hstep <;> exact hbill

/-! ## Runs -/

theorem inv_vlessServe (start : Counter) (req : Vless.VlessReq) (leftover client : Bytes) :
    (Vless.serve req leftover client (some start)).Inv start := by
  cases req with
  | tcp dest =>
    exact ⟨leftover, client, relayStream_accounts .., relayStream_owns .., relayStream_unharmed ..⟩
  | udp dest => exact relayVlessUdp_counted ..
  | mux => exact rfl

theorem inv_relayFramed (start : Counter) (chunks : List Bytes) (capacity : Nat) :
    (framed ⟨.relayFramed chunks (some start) [], .new capacity⟩).Inv start :=
  ⟨relayFramed_chunkAccounts .., congrArg some start.grown_zero.symm⟩

/-- What `Vless::decode` starts, for the user it names. -/
theorem exists_vlessServe {users : Vless.VlessUsers} {reads : List Bytes}
    {userCounter : String → Option Counter} {email : String}
    (h : Vless.decode users reads userCounter = .ok (email, s)) :
    ∃ req leftover client, s = Vless.serve req leftover client (userCounter email) := by
  obtain ⟨⟨⟨⟨req, user⟩, leftover⟩, unread⟩, -, h⟩ := Except.bind_eq_ok h
  cases h
  exact ⟨req, leftover, unread.flatten, rfl⟩

/-- What `Vmess::decode` starts. -/
theorem exists_vmessServe {P : Primitives} {email : String} {header : Bytes} {chunks : List Bytes}
    {userCounter : String → Option Counter}
    (h : Vmess.decode P email header chunks userCounter = .ok (email, s)) :
    (∃ bridge, s = mux (userCounter email) bridge (.serve (.new []) [])) ∨
      s = framed ⟨.relayFramed chunks (userCounter email) [], .new Mux.linkCapacity⟩ := by
  obtain ⟨req, -, h⟩ := Except.bind_eq_ok h
  obtain ⟨aead, -, h⟩ := Except.bind_eq_ok h
  dsimp only at h
  split at h
  · cases h
    exact .inl ⟨_, rfl⟩
  · split at h
    · cases h
    · cases h
      exact .inr rfl

/-- The account holds when the relay of an authenticated user starts, and nothing has
been relayed. -/
theorem Authenticated.inv {userCounter : String → Counter} {email : String}
    (hs : s.Authenticated userCounter email) :
    s.Inv (userCounter email) ∧ s.Billed (userCounter email) := by
  rcases hs with ⟨users, reads, hdec⟩ | ⟨P, header, chunks, hdec⟩
  · obtain ⟨req, leftover, client, rfl⟩ := exists_vlessServe hdec
    have hinv := inv_vlessServe (userCounter email) req leftover client
    refine ⟨hinv, ?_⟩
    cases req with
    | tcp dest => exact stream_billed hinv
    | udp dest => exact (counts_of_datagram hinv).billed_iff.mpr nofun
    | mux => exact mux_billed_iff.mpr ⟨rfl, rfl⟩
  · rcases exists_vmessServe hdec with ⟨bridge, rfl⟩ | rfl
    · exact ⟨rfl, mux_billed_iff.mpr ⟨rfl, rfl⟩⟩
    · have hinv := inv_relayFramed (userCounter email) chunks Mux.linkCapacity
      exact ⟨hinv, (counts_of_framed hinv).billed_iff.mpr nofun⟩

end Session

/-- **What a session is billed.**  In every run of a session of an authenticated user in
which nothing fails, for every command, every stream of the client and every answer of
the targets: the user is billed for what was relayed, in every state, exactly when every
step meets the condition. -/
theorem relayed_bytes_billed (userCounter : String → Counter) (email : String) (start s : Session)
    (hauth : start.Authenticated userCounter email) (trace : List (SessionAct × Session))
    (hrun : Run SessionStep start trace s) (hclean : ∀ p ∈ trace, p.1.Clean) :
    (∀ p ∈ trace, p.2.Billed (userCounter email)) ↔ Meets Session.BillsStep start trace := by
  obtain ⟨hinv, hbilled⟩ := hauth.inv
  exact (hrun.of_good hclean).forall_holds_iff hinv hbilled
    (fun _ _ _ hs h => Session.step_inv h.2 hs h.1)
    (fun _ _ _ hs hbill h => Session.step_billed_iff h.2 hs hbill h.1)

/-- A user with the UUID `0`. -/
def zeroUser : Vless.VlessUsers := .new [(.replicate 16 0, "user@example", 0)]

/-- The header of this user for a mux carrier, and a `New` frame with one byte for
`127.0.0.1:80`. -/
def muxReads : List Bytes :=
  [[0] ++ List.replicate 16 0 ++ [0, 3], [0, 12, 0, 1, 1, 1, 1, 0, 80, 1, 127, 0, 0, 1, 0, 1, 7]]

/-- The header of this user for UDP to `127.0.0.1:53`, and a datagram of two bytes. -/
def udpReads : List Bytes :=
  [[0] ++ List.replicate 16 0 ++ [0, 2, 0, 53, 1, 127, 0, 0, 1], [0, 2, 1, 2]]

/-- A datagram is sent and answered, and the relay idles out: both directions are
billed. -/
theorem udp_session_billed :
    ∃ start trace s, Session.Authenticated (fun _ => ⟨0, 0⟩) "user@example" start ∧
      Run SessionStep start trace s ∧ (∀ p ∈ trace, p.1.Clean) ∧ s.Completed ∧
      s.forwarded = 2 ∧ s.sentBack = 1 ∧ s.counter = some ⟨2, 1⟩ := by
  have hauth : Session.Authenticated (fun _ => ⟨0, 0⟩) "user@example"
      (.datagram (.relayVlessUdp (.new [0, 2, 1, 2]) [] (some ⟨0, 0⟩))) :=
    .inl ⟨zeroUser, udpReads, rfl⟩
  have hrun : Run SessionStep (.datagram (.relayVlessUdp (.new [0, 2, 1, 2]) [] (some ⟨0, 0⟩))) _ _ :=
    .cons (.datagram (.opened rfl rfl))
    (.cons (.datagram (.read 4 rfl rfl rfl trivial (by decide) (by decide) (by decide)))
    (.cons (.datagram (.frame rfl rfl rfl))
    (.cons (.datagram (.sent rfl rfl))
    (.cons (.datagram (.recv [3] rfl nofun rfl (by decide)))
    (.cons (.datagram (.write 3 rfl rfl (by decide) (by decide)))
    (.cons (.datagram (.idle rfl nofun))
    (.nil _)))))))
  have hclean : ∀ a ∈ [VlessUdpAct.opened, .read 4, .frame, .sent, .recv [3], .write 3, .idle],
      (SessionAct.datagram a).Clean := by
    simp [SessionAct.Clean, VlessUdpAct.Clean]
  have hbill := relayed_bytes_billed (fun _ => ⟨0, 0⟩) "user@example" _ _ hauth _ hrun
    (by simpa using hclean)
  refine ⟨_, _, _, hauth, hrun, by simpa using hclean, rfl, rfl, rfl, ?_⟩
  have hlast := hbill.mpr ⟨nofun, nofun, nofun, nofun, nofun, nofun, fun _ => ⟨rfl, rfl⟩, trivial⟩
  exact hlast _ (List.getLast_mem (List.cons_ne_nil _ _)) (.inr rfl)

/-- A mux carrier serves one sub-session to its end: a byte goes to the target, a byte
comes back, and the counter has not moved. -/
theorem mux_session_unbilled :
    ∃ start trace s, Session.Authenticated (fun _ => ⟨0, 0⟩) "user@example" start ∧
      Run SessionStep start trace s ∧ (∀ p ∈ trace, p.1.Clean) ∧ s.Completed ∧
      s.forwarded = 1 ∧ s.sentBack = 1 ∧ s.counter = some ⟨0, 0⟩ ∧ ¬ s.Billed ⟨0, 0⟩ := by
  have hcarrier : ∃ trace c, Run Mux.Step (.serve (.new (muxReads.drop 1).flatten) []) trace c ∧
      c.demux = .returned (.ok ()) ∧ c.forwarded = 1 ∧ c.answered = 1 := by
    refine ⟨_, _,
      .cons (.fill 17 rfl (by decide) (by decide) (by decide) (by decide))
      (.cons (.field rfl (by decide))
      (.cons (.field rfl (by decide))
      (.cons (.field rfl (by decide))
      (.cons (.field rfl (by decide))
      (.cons (.seed rfl rfl ⟨rfl, rfl, by decide⟩)
      -- the sub-session's relay passes the byte on, and the answer back
      (.cons (.dial (k := 0) [9] rfl rfl)
      (.cons (.relay (k := 0) (a := .recv) rfl rfl nofun (.recv rfl trivial rfl rfl ⟨rfl, rfl⟩))
      (.cons (.relay (k := 0) (a := .write 1) rfl rfl nofun
        (.write 1 rfl rfl (by decide) (by decide)))
      (.cons (.relay (k := 0) (a := .read 1) rfl rfl nofun
        (.read 1 rfl rfl rfl (by decide) (by decide) (by decide)))
      (.cons (.relay (k := 0) (a := .send) rfl rfl nofun (.send rfl rfl ⟨rfl, rfl, by decide⟩))
      (.cons (.recvTcp (k := 0) rfl rfl rfl ⟨rfl, rfl⟩)
      (.cons (.push (k := 0) rfl rfl trivial (by decide))
      (.cons (.take rfl rfl)
      (.cons (.wrote rfl)
      -- the client closes the carrier
      (.cons (.eof rfl (by decide) rfl)
      (.cons (.recvEnd (k := 0) rfl rfl (.inl trivial))
      (.cons (.pushEnd (k := 0) rfl rfl trivial (by decide))
      (.cons (.take rfl rfl)
      (.cons (.wrote rfl)
      (.cons (.outEnd rfl rfl trivial ?_)
      (.cons (.flush rfl)
      (.cons (.join rfl rfl)
      (.nil _))))))))))))))))))))))), rfl, rfl, rfl⟩
    intro sub hsub
    obtain rfl := List.mem_singleton.mp hsub
    exact .inr rfl
  obtain ⟨trace, c, hrun, hret, hforwarded, hanswered⟩ := hcarrier
  refine ⟨_, _, _, .inl ⟨zeroUser, muxReads, rfl⟩, hrun.embed (fun _ => True)
    (Session.mux (some ⟨0, 0⟩) none) SessionAct.mux (by simp) fun _ _ _ _ h => .mux nofun h, ?_, hret,
    hforwarded, hanswered, rfl, ?_⟩
  · intro p hp
    obtain ⟨q, -, rfl⟩ := List.mem_map.mp hp
    trivial
  · intro h
    have hcounter : some ⟨0, 0⟩ = some (Counter.grown ⟨0, 0⟩ c.forwarded c.answered) := h (.inr hret)
    rw [hforwarded, hanswered] at hcounter
    exact absurd hcounter (by decide)

end XrayRs
