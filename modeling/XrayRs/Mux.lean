import XrayRs.UdpRelay

/-! # The mux demultiplexer

`mux::serve` (`proxy/src/mux.rs`) takes frames
`[metalen(2)][meta][datalen(2)][data?]` off a carrier and fans them out to
sub-sessions, each with its own link, its own egress (`splice` or `freedom_udp`) and
a task that frames the answers for the one writer of the carrier.

A step is the progress one of these tasks makes between two suspension points.  The
tasks of a sub-session live on when its entry is gone from the session map, so the
sub-sessions are kept in a list, and the map holds positions in it.

The model ends with where payload goes: only the demultiplexer puts bytes on the
sub-sessions' uplinks, and only the writer answers the client (`Step.forwarded_eq`,
`Step.answered_eq`). -/

namespace XrayRs.Mux

open BoundedChannel ByteWords

/-! ## Frames -/

def stNew : UInt8 := 0x01
def stKeep : UInt8 := 0x02
def stEnd : UInt8 := 0x03
def stKeepalive : UInt8 := 0x04
def optData : UInt8 := 0x01
def netTcp : UInt8 := 0x01
def netUdp : UInt8 := 0x02
def maxMeta : Nat := 512
def maxData : Nat := 8192

/-- `Meta`. -/
structure Meta where
  sid : UInt16
  status : UInt8
  option : UInt8
  target : Option Destination
  deriving DecidableEq

/-- The network byte of a target. -/
def networkOf (b : UInt8) : Option Network :=
  if b = netTcp then some .tcp else if b = netUdp then some .udp else none

/-- The target of a `New` frame, or of a `Keep` frame with an address. -/
def parseTarget : Bytes → Option Destination
  | [] => none
  | network :: rest =>
    match AddrCodec.VLESS.read.run rest with
    | .error _ => none
    | .ok ((address, port), _) => (networkOf network).map (⟨·, address, port⟩)

/-- `parse_meta`. -/
def parseMeta : Bytes → Option Meta
  | hi :: lo :: status :: option :: rest =>
    let keepUdp := status = stKeep ∧ rest.head? = some netUdp
    if status = stNew ∨ keepUdp then
      (parseTarget rest).map fun target => ⟨u16OfBe hi lo, status, option, some target⟩
    else some ⟨u16OfBe hi lo, status, option, none⟩
  | _ => none

/-- `u16::try_from(n).unwrap_or(0)`. -/
def u16OrZero (n : Nat) : UInt16 := if n < 65536 then .ofNat n else 0

/-- `frame_keep_tcp`. -/
def frameKeepTcp (sid : UInt16) (data : Bytes) : Bytes :=
  u16ToBe 4 ++ u16ToBe sid ++ [stKeep, optData] ++ u16ToBe (u16OrZero data.length) ++ data

/-- `frame_keep_udp`. -/
def frameKeepUdp (sid : UInt16) (target : Destination) (data : Bytes) : Option Bytes := do
  let address ← (AddrCodec.VLESS.write target.address target.port).toOption
  let metadata := u16ToBe sid ++ [stKeep, optData, netUdp] ++ address
  if metadata.length < 65536 ∧ data.length < 65536 then
    return u16ToBe (.ofNat metadata.length) ++ metadata ++ u16ToBe (.ofNat data.length) ++ data
  else none

/-- `frame_end`. -/
def frameEnd (sid : UInt16) : Bytes := u16ToBe 4 ++ u16ToBe sid ++ [stEnd, 0]

/-- A frame for the writer: the sub-session it comes from, its payload and its
bytes. -/
structure OutFrame where
  sub : Nat
  payload : Bytes
  bytes : Bytes
  deriving DecidableEq

/-- The frames of a chunk from a TCP target. -/
def keepTcpFrames (k : Nat) (sid : UInt16) (chunk : Bytes) : List OutFrame :=
  (chunks maxData chunk).map fun piece => ⟨k, piece, frameKeepTcp sid piece⟩

/-- The frames of a packet from a UDP target: a piece that cannot be framed is
skipped. -/
def keepUdpFrames (k : Nat) (sid : UInt16) (pkt : UdpPacket) : List OutFrame :=
  (chunks maxData pkt.data).filterMap fun piece =>
    (frameKeepUdp sid pkt.target piece).map fun bytes => ⟨k, piece, bytes⟩

/-! ## Sub-sessions -/

/-- `LINK_CAPACITY`. -/
def linkCapacity : Nat := 32

/-- The egress of a TCP sub-session. -/
inductive TcpEgress
  | dialing
  | splicing (relay : Relay)
  | failed

/-- The two channels of a sub-session's link, and its egress. -/
inductive Flow
  | tcp (up down : Chan Bytes) (egress : TcpEgress)
  | udp (up down : Chan UdpPacket) (egress : FreedomUdp)

/-- The task that frames the answers: not yet spawned, waiting for an answer, sending
frames to the writer, sending the last frame, or returned. -/
inductive Downlink
  | unborn
  | receiving
  | sending (frames : List OutFrame)
  | ending
  | done

/-- The rest of the frames of an answer. -/
def sendAll (frames : List OutFrame) : Downlink := if frames = [] then .receiving else .sending frames

/-- A sub-session. -/
structure Sub where
  sid : UInt16
  target : Destination
  flow : Flow
  downlink : Downlink

namespace Flow

/-- A send on the uplink can complete. -/
def CanSend : Flow → Prop
  | .tcp up _ _ => up.CanSend
  | .udp up _ _ => up.CanSend

/-- A send on the uplink fails. -/
def Refuses : Flow → Prop
  | .tcp up _ _ => up.Refuses
  | .udp up _ _ => up.Refuses

/-- Put a packet on the uplink; a TCP link carries its data. -/
def push (pkt : UdpPacket) : Flow → Flow
  | .tcp up down egress => .tcp (up.push pkt.data) down egress
  | .udp up down egress => .udp (up.push pkt) down egress

/-- Drop the uplink's sender. -/
def dropWriter : Flow → Flow
  | .tcp up down egress => .tcp up.dropTx down egress
  | .udp up down egress => .udp up.dropTx down egress

/-- Drop the downlink's receiver. -/
def dropReader : Flow → Flow
  | .tcp up down egress => .tcp up down.dropRx egress
  | .udp up down egress => .udp up down.dropRx egress

/-- The downlink has ended. -/
def Ended : Flow → Prop
  | .tcp _ down _ => down.Ended
  | .udp _ down _ => down.Ended

/-- The bytes put on the uplink so far. -/
def forwarded : Flow → Nat
  | .tcp up _ _ => up.sent.flatten.length
  | .udp up _ _ => (up.sent.map UdpPacket.data).flatten.length

end Flow

/-- The sub-session's entry is dropped from the map. -/
def Sub.dropWriter (sub : Sub) : Sub := { sub with flow := sub.flow.dropWriter }

/-- The task that frames the answers is spawned. -/
def Sub.spawn (sub : Sub) : Sub := { sub with downlink := .receiving }

/-- That task returns. -/
def Sub.finish (sub : Sub) : Sub := { sub with flow := sub.flow.dropReader, downlink := .done }

/-! ## The carrier -/

/-- Where the demultiplexer is: reading one of the four fields of a frame, sending on
the link of a new or of an old sub-session, or through with the carrier; then `serve`
waits for the writer. -/
inductive Demux
  | metalen
  | metadata (len : Nat)
  | datalen (info : Meta)
  | data (info : Meta) (len : Nat)
  | seeding (k : Nat) (pkt : UdpPacket)
  | keeping (k : Nat) (pkt : UdpPacket)
  | draining (result : Except IoError Unit)
  | returned (result : Except IoError Unit)

/-- The bytes the frame reader waits for. -/
def Demux.need : Demux → Option Nat
  | .metalen | .datalen _ => some 2
  | .metadata len | .data _ len => some len
  | _ => none

/-- `demux` has returned, and `serve` has cancelled its token. -/
def Demux.Stopped : Demux → Prop
  | .draining _ | .returned _ => True
  | _ => False

/-- Where the writer task is. -/
inductive Writer
  | receiving
  | writing (frame : OutFrame) (rest : Bytes)
  | flushing
  | done

/-- `mux::serve`: the client's connection with the buffer of `Reader`, the
demultiplexer, the session map, all sub-sessions ever made, the frames on their way to
the writer and those it has written, and the idle token. -/
structure Carrier where
  conn : Conn
  buf : Bytes
  demux : Demux
  sessions : UInt16 → Option Nat
  subs : List Sub
  out : List OutFrame
  writer : Writer
  written : List OutFrame
  idle : Bool

/-- The capacity of the channel to the writer. -/
def outCapacity : Nat := 64

namespace Carrier

/-- `serve`, up to its first suspension point. -/
def serve (conn : Conn) (leftover : Bytes) : Carrier :=
  ⟨conn, leftover, .metalen, fun _ => none, [], [], .receiving, [], false⟩

/-- The writer still receives. -/
def OutAlive (c : Carrier) : Prop :=
  match c.writer with
  | .done => False
  | _ => True

/-- `demux` returns: the token is cancelled, and the session map dropped. -/
def finish (c : Carrier) (result : Except IoError Unit) : Carrier :=
  { c with
    demux := .draining result
    sessions := fun _ => none
    subs := c.subs.map Sub.dropWriter }

/-- `demux` returns an error. -/
def fail (c : Carrier) (message : String) : Carrier :=
  c.finish (.error ⟨.invalidData, .msg message⟩)

/-- `Reader::take` failed: between frames that is the end of the carrier. -/
def readFailed (c : Carrier) (e : IoError) : Carrier :=
  match c.demux with
  | .metalen => c.finish (.ok ())
  | _ => c.finish (.error e)

/-- `sessions.remove`. -/
def remove (c : Carrier) (sid : UInt16) : Carrier :=
  match c.sessions sid with
  | none => c
  | some k =>
    { c with
      sessions := Function.update c.sessions sid none
      subs := c.subs.modify k Sub.dropWriter }

/-- The end of `handle_new`: `sessions.insert`, and the task for the answers. -/
def register (c : Carrier) (sid : UInt16) (k : Nat) : Carrier :=
  let c := c.remove sid
  { c with
    demux := .metalen
    sessions := Function.update c.sessions sid (some k)
    subs := c.subs.modify k Sub.spawn }

/-- A sub-session with a new link. -/
def newSub (sid : UInt16) (target : Destination) : Sub :=
  if target.network = .udp then
    ⟨sid, target, .udp (.new _ linkCapacity) (.new _ linkCapacity) .start, .unborn⟩
  else ⟨sid, target, .tcp (.new _ linkCapacity) (.new _ linkCapacity) .dialing, .unborn⟩

/-- `handle_new`, up to the send of the frame's data.  An empty first chunk is not sent
on a TCP link. -/
def handleNew (c : Carrier) (info : Meta) (data : Option Bytes) : Carrier :=
  match info.target with
  | none => { c with demux := .metalen }
  | some target =>
    let k := c.subs.length
    let c := { c with subs := c.subs ++ [newSub info.sid target] }
    match data with
    | none => c.register info.sid k
    | some d =>
      if target.network = .udp ∨ d ≠ [] then { c with demux := .seeding k ⟨d, target⟩ }
      else c.register info.sid k

/-- `handle_keep`, up to the send: a datagram without a target is dropped. -/
def handleKeep (c : Carrier) (info : Meta) (data : Bytes) : Carrier :=
  match (c.sessions info.sid).bind fun k => c.subs[k]?.map (k, ·) with
  | none => { c with demux := .metalen }
  | some (k, sub) =>
    match sub.flow, info.target with
    | .tcp .., _ => { c with demux := .keeping k ⟨data, sub.target⟩ }
    | .udp .., none => { c with demux := .metalen }
    | .udp .., some target => { c with demux := .keeping k ⟨data, target⟩ }

/-- What the loop does with a whole frame. -/
def handle (c : Carrier) (info : Meta) (data : Option Bytes) : Carrier :=
  if info.status = stNew then c.handleNew info data
  else if info.status = stKeep then
    match data with
    | none => { c with demux := .metalen }
    | some d => c.handleKeep info d
  else if info.status = stEnd then { c.remove info.sid with demux := .metalen }
  else if info.status = stKeepalive then { c with demux := .metalen }
  else c.fail "mux status"

/-- `Reader::u16`, on the two bytes it took. -/
def fieldU16 : Bytes → Nat
  | [hi, lo] => (u16OfBe hi lo).toNat
  | _ => 0

/-- A field of a frame is there. -/
def onField (c : Carrier) (field : Bytes) : Carrier :=
  match c.demux with
  | .metalen =>
    let len := fieldU16 field
    if len = 0 ∨ maxMeta < len then c.fail "mux metalen" else { c with demux := .metadata len }
  | .metadata _ =>
    match parseMeta field with
    | none => c.fail "mux meta"
    | some info =>
      if info.option &&& optData ≠ 0 then { c with demux := .datalen info } else c.handle info none
  | .datalen info =>
    let len := fieldU16 field
    if maxData < len then c.fail "mux datalen" else { c with demux := .data info len }
  | .data info _ => c.handle info (some field)
  | _ => c

end Carrier

/-- The moves of a carrier.  Those of a sub-session name its position. -/
inductive Act
  | fill (n : Nat)
  | eof
  | readError
  | field
  | send
  | sendFail
  | dial (k : Nat) (target : Bytes)
  | dialError (k : Nat)
  | relay (k : Nat) (a : XrayRs.Act)
  | egress (k : Nat) (a : FreedomAct)
  | recv (k : Nat)
  | recvEnd (k : Nat)
  | push (k : Nat)
  | pushFail (k : Nat)
  | take
  | write (n : Nat)
  | writeError
  | outEnd
  | flush
  | idle
  | join
  deriving DecidableEq

/-- **The steps of `serve` and of the tasks it spawns.** -/
inductive Step (c : Carrier) : Act → Carrier → Prop
  | fill {k : Nat} (n : Nat) (hneed : c.demux.need = some k) (hshort : c.buf.length < k)
      (hpos : 0 < n) (hbuf : n ≤ 4096) (hlen : n ≤ c.conn.unread.length) :
      Step c (.fill n) { c with conn := c.conn.read n, buf := c.buf ++ c.conn.unread.take n }
  | eof {k : Nat} (hneed : c.demux.need = some k) (hshort : c.buf.length < k)
      (hend : c.conn.unread = []) :
      Step c .eof (c.readFailed ⟨.unexpectedEof, .msg "mux eof"⟩)
  | readError {k : Nat} (e : IoError) (hneed : c.demux.need = some k) (hshort : c.buf.length < k) :
      Step c .readError (c.readFailed e)
  | field {k : Nat} (hneed : c.demux.need = some k) (hlen : k ≤ c.buf.length) :
      Step c .field ({ c with buf := c.buf.drop k }.onField (c.buf.take k))
  | seed {k : Nat} {pkt : UdpPacket} {sub : Sub} (hdemux : c.demux = .seeding k pkt)
      (hsub : c.subs[k]? = some sub) (hroom : sub.flow.CanSend) :
      Step c .send ({ c with subs := c.subs.set k { sub with flow := sub.flow.push pkt } }.register
        sub.sid k)
  | seedFail {k : Nat} {pkt : UdpPacket} {sub : Sub} (hdemux : c.demux = .seeding k pkt)
      (hsub : c.subs[k]? = some sub) (hgone : sub.flow.Refuses) :
      Step c .sendFail (c.register sub.sid k)
  | keep {k : Nat} {pkt : UdpPacket} {sub : Sub} (hdemux : c.demux = .keeping k pkt)
      (hsub : c.subs[k]? = some sub) (hroom : sub.flow.CanSend) :
      Step c .send
        { c with subs := c.subs.set k { sub with flow := sub.flow.push pkt }, demux := .metalen }
  | keepFail {k : Nat} {pkt : UdpPacket} {sub : Sub} (hdemux : c.demux = .keeping k pkt)
      (hsub : c.subs[k]? = some sub) (hgone : sub.flow.Refuses) :
      Step c .sendFail { c with demux := .metalen }
  | dial {k : Nat} {sub : Sub} {up down : Chan Bytes} (target : Bytes)
      (hsub : c.subs[k]? = some sub) (hflow : sub.flow = .tcp up down .dialing) :
      Step c (.dial k target) { c with
        subs := c.subs.set k { sub with flow := .tcp up down (.splicing (.splice (.new target))) } }
  | dialError {k : Nat} {sub : Sub} {up down : Chan Bytes} (hsub : c.subs[k]? = some sub)
      (hflow : sub.flow = .tcp up down .dialing) :
      Step c (.dialError k) { c with
        subs := c.subs.set k { sub with flow := .tcp up.dropRx down.dropTx .failed } }
  -- the relays of all sub-sessions share the carrier's timer
  | relay {k : Nat} {sub : Sub} {up down : Chan Bytes} {r r' : Relay} {l : Link} {a : XrayRs.Act}
      (hsub : c.subs[k]? = some sub) (hflow : sub.flow = .tcp up down (.splicing r))
      (hidle : a = .cancel → c.idle = true) (hstep : RelayStep r ⟨up, down⟩ a r' l) :
      Step c (.relay k a) { c with
        subs := c.subs.set k { sub with flow := .tcp l.reader l.writer (.splicing r') } }
  | egress {k : Nat} {sub : Sub} {up down : Chan UdpPacket} {e e' : FreedomUdp} {l : UdpLink}
      {a : FreedomAct} (hsub : c.subs[k]? = some sub) (hflow : sub.flow = .udp up down e)
      (hidle : a = .idle → c.idle = true) (hstep : FreedomStep e ⟨up, down⟩ a e' l) :
      Step c (.egress k a) { c with
        subs := c.subs.set k { sub with flow := .udp l.reader l.writer e' } }
  | recvTcp {k : Nat} {sub : Sub} {up down : Chan Bytes} {egress : TcpEgress} {chunk : Bytes}
      {q : List Bytes} (hsub : c.subs[k]? = some sub) (hflow : sub.flow = .tcp up down egress)
      (hdown : sub.downlink = .receiving) (hchunk : down.CanRecv chunk q) :
      Step c (.recv k) { c with subs := c.subs.set k { sub with
        flow := .tcp up (down.pop chunk q) egress
        downlink := sendAll (keepTcpFrames k sub.sid chunk) } }
  | recvUdp {k : Nat} {sub : Sub} {up down : Chan UdpPacket} {egress : FreedomUdp} {pkt : UdpPacket}
      {q : List UdpPacket} (hsub : c.subs[k]? = some sub) (hflow : sub.flow = .udp up down egress)
      (hdown : sub.downlink = .receiving) (hpkt : down.CanRecv pkt q) :
      Step c (.recv k) { c with subs := c.subs.set k { sub with
        flow := .udp up (down.pop pkt q) egress
        downlink := sendAll (keepUdpFrames k sub.sid pkt) } }
  -- the token of `serve` is cancelled, or the egress has dropped its sender
  | recvEnd {k : Nat} {sub : Sub} (hsub : c.subs[k]? = some sub) (hdown : sub.downlink = .receiving)
      (hend : c.demux.Stopped ∨ sub.flow.Ended) :
      Step c (.recvEnd k) { c with subs := c.subs.set k { sub with downlink := .ending } }
  | push {k : Nat} {sub : Sub} {frame : OutFrame} {frames : List OutFrame}
      (hsub : c.subs[k]? = some sub) (hdown : sub.downlink = .sending (frame :: frames))
      (halive : c.OutAlive) (hroom : c.out.length < outCapacity) :
      Step c (.push k) { c with
        out := c.out ++ [frame]
        subs := c.subs.set k { sub with downlink := sendAll frames } }
  | pushEnd {k : Nat} {sub : Sub} (hsub : c.subs[k]? = some sub) (hdown : sub.downlink = .ending)
      (halive : c.OutAlive) (hroom : c.out.length < outCapacity) :
      Step c (.push k) { c with
        out := c.out ++ [⟨k, [], frameEnd sub.sid⟩]
        subs := c.subs.set k sub.finish }
  | pushFail {k : Nat} {sub : Sub} (hsub : c.subs[k]? = some sub)
      (hdown : sub.downlink = .ending ∨ ∃ frames, sub.downlink = .sending frames)
      (hgone : ¬ c.OutAlive) :
      Step c (.pushFail k) { c with subs := c.subs.set k sub.finish }
  | take {frame : OutFrame} {out : List OutFrame} (hwriter : c.writer = .receiving)
      (hout : c.out = frame :: out) :
      Step c .take { c with out := out, writer := .writing frame frame.bytes }
  | write {frame : OutFrame} {rest : Bytes} (n : Nat) (hwriter : c.writer = .writing frame rest)
      (hpos : 0 < n) (hlen : n < rest.length) :
      Step c (.write n)
        { c with conn := c.conn.write (rest.take n), writer := .writing frame (rest.drop n) }
  | wrote {frame : OutFrame} {rest : Bytes} (hwriter : c.writer = .writing frame rest) :
      Step c (.write rest.length) { c with
        conn := c.conn.write rest
        writer := .receiving
        written := c.written ++ [frame] }
  | writeError {frame : OutFrame} {rest : Bytes} (hwriter : c.writer = .writing frame rest) :
      Step c .writeError { c with writer := .flushing }
  -- all senders are gone: `serve`'s own, and those of the tasks
  | outEnd (hwriter : c.writer = .receiving) (hout : c.out = []) (hstop : c.demux.Stopped)
      (htasks : ∀ sub ∈ c.subs, sub.downlink = .unborn ∨ sub.downlink = .done) :
      Step c .outEnd { c with writer := .flushing }
  | flush (hwriter : c.writer = .flushing) : Step c .flush { c with writer := .done }
  | idle : Step c .idle { c with idle := true }
  | join {result : Except IoError Unit} (hdemux : c.demux = .draining result)
      (hwriter : c.writer = .done) :
      Step c .join { c with demux := .returned result }

/-! ## What a frame makes of the carrier -/

namespace Carrier

/-- **The outcomes of `handle`**: the frame comes to nothing; a `New` frame makes a
sub-session, which is registered once its data are on the link; a `Keep` frame has data for
one, which go to the session's target or to the frame's own; an `End` frame takes the
entry away; a status that is none ends the carrier. -/
inductive Outcome (c : Carrier) (info : Meta) (data : Option Bytes) : Carrier → Prop
  | skip (hnew : info.status = stNew → info.target = none)
      (hkeep : info.status = stKeep → ∀ d k sub, data = some d → c.sessions info.sid = some k →
        c.subs[k]? = some sub → info.target = none ∧ ∃ up down egress, sub.flow = .udp up down egress)
      (hend : info.status ≠ stEnd) : Outcome c info data { c with demux := .metalen }
  | register {target : Destination} (hstatus : info.status = stNew)
      (htarget : info.target = some target)
      (hdata : data = none ∨ data = some [] ∧ target.network ≠ .udp) :
      Outcome c info data
        (register { c with subs := c.subs ++ [newSub info.sid target] } info.sid c.subs.length)
  | seed {target : Destination} {d : Bytes} (hstatus : info.status = stNew)
      (htarget : info.target = some target) (hdata : data = some d) :
      Outcome c info data { c with
        subs := c.subs ++ [newSub info.sid target]
        demux := .seeding c.subs.length ⟨d, target⟩ }
  | keep {k : Nat} {sub : Sub} {d : Bytes} {target : Destination} (hstatus : info.status = stKeep)
      (hdata : data = some d) (hentry : c.sessions info.sid = some k) (hsub : c.subs[k]? = some sub)
      (htarget : ∀ up down egress, sub.flow = .udp up down egress → info.target = some target) :
      Outcome c info data { c with demux := .keeping k ⟨d, target⟩ }
  | close (hstatus : info.status = stEnd) :
      Outcome c info data { c.remove info.sid with demux := .metalen }
  | fail (hunknown : info.status ∉ [stNew, stKeep, stEnd, stKeepalive]) :
      Outcome c info data (c.fail "mux status")

variable (c : Carrier) (info : Meta)

theorem outcome_handleNew (data : Option Bytes) (hstatus : info.status = stNew) :
    Outcome c info data (c.handleNew info data) := by
  unfold handleNew
  cases htarget : info.target with
  | none =>
    exact .skip (fun _ => htarget) (fun hkeep => absurd (hstatus.symm.trans hkeep) (by decide))
      (by rw [hstatus]; decide)
  | some target =>
    cases data with
    | none => exact .register hstatus htarget (.inl rfl)
    | some d =>
      dsimp only
      by_cases hseed : target.network = .udp ∨ d ≠ []
      · rw [if_pos hseed]
        exact .seed hstatus htarget rfl
      · rw [if_neg hseed]
        push Not at hseed
        obtain ⟨hudp, rfl⟩ := hseed
        exact .register hstatus htarget (.inr ⟨rfl, hudp⟩)

theorem outcome_handleKeep (data : Bytes) (hstatus : info.status = stKeep) :
    Outcome c info (some data) (c.handleKeep info data) := by
  have hnew : info.status = stNew → info.target = none :=
    fun hnew => absurd (hstatus.symm.trans hnew) (by decide)
  have hend : info.status ≠ stEnd := by rw [hstatus]; decide
  unfold handleKeep
  cases hfound : (c.sessions info.sid).bind fun k => c.subs[k]?.map (k, ·) with
  | none =>
    refine .skip hnew (fun _ d k sub _ hentry hsub => ?_) hend
    rw [hentry, Option.bind_some, hsub] at hfound
    cases hfound
  | some found =>
    obtain ⟨k, sub⟩ := found
    obtain ⟨j, hentry, hmap⟩ := Option.bind_eq_some_iff.mp hfound
    obtain ⟨other, hsub, hpair⟩ := Option.map_eq_some_iff.mp hmap
    cases hpair
    dsimp only
    cases hflow : sub.flow with
    | tcp up down egress =>
      refine .keep hstatus rfl hentry hsub fun _ _ _ hudp => ?_
      rw [hflow] at hudp
      cases hudp
    | udp up down egress =>
      cases htarget : info.target with
      | some target => exact .keep hstatus rfl hentry hsub fun _ _ _ _ => htarget
      | none =>
        refine .skip hnew (fun _ d k' sub' _ hentry' hsub' => ⟨htarget, up, down, egress, ?_⟩) hend
        obtain rfl := Option.some.inj (hentry.symm.trans hentry')
        obtain rfl := Option.some.inj (hsub.symm.trans hsub')
        exact hflow

/-- **What `handle` does.** -/
theorem outcome_handle (data : Option Bytes) : Outcome c info data (c.handle info data) := by
  unfold handle
  by_cases hnew : info.status = stNew
  · rw [if_pos hnew]
    exact c.outcome_handleNew info data hnew
  rw [if_neg hnew]
  by_cases hkeep : info.status = stKeep
  · rw [if_pos hkeep]
    cases data with
    | none =>
      exact .skip (fun h => absurd h hnew) (fun _ _ _ _ hdata => nomatch hdata) (by rw [hkeep]; decide)
    | some d => exact c.outcome_handleKeep info d hkeep
  rw [if_neg hkeep]
  by_cases hend : info.status = stEnd
  · rw [if_pos hend]
    exact .close hend
  rw [if_neg hend]
  by_cases halive : info.status = stKeepalive
  · rw [if_pos halive]
    exact .skip (fun h => absurd h hnew) (fun h => absurd h hkeep) hend
  · rw [if_neg halive]
    exact .fail (by simp [hnew, hkeep, hend, halive])

theorem readFailed_eq (e : IoError) : ∃ result, c.readFailed e = c.finish result := by
  unfold readFailed
  split
  · exact ⟨_, rfl⟩
  · exact ⟨_, rfl⟩

/-- **A field** ends the carrier, or is not the last one of its frame, or completes it.
Between frames, and behind the last, nothing waits for one. -/
theorem onField_eq (field : Bytes) :
    (∃ result, c.onField field = c.finish result) ∨
      (∃ next, c.onField field = { c with demux := next } ∧ next.need.isSome) ∨
      (∃ info data, c.onField field = c.handle info data) ∨ c.onField field = c := by
  unfold onField
  split
  · dsimp only
    split
    · exact .inl ⟨_, rfl⟩
    · exact .inr (.inl ⟨_, rfl, rfl⟩)
  · split
    · exact .inl ⟨_, rfl⟩
    · split
      · exact .inr (.inl ⟨_, rfl, rfl⟩)
      · exact .inr (.inr (.inl ⟨_, none, rfl⟩))
  · dsimp only
    split
    · exact .inl ⟨_, rfl⟩
    · exact .inr (.inl ⟨_, rfl, rfl⟩)
  · exact .inr (.inr (.inl ⟨_, _, rfl⟩))
  · exact .inr (.inr (.inr rfl))

end Carrier

/-! ## Where payload goes -/

/-- A sum in which one summand is replaced. -/
theorem sum_map_set {α : Type} {f : α → Nat} {l : List α} {k : Nat} {a b : α} (h : l[k]? = some a) :
    ((l.set k b).map f).sum + f a = (l.map f).sum + f b := by
  induction l generalizing k with
  | nil => cases h
  | cons x l ih =>
    cases k with
    | zero =>
      obtain rfl : x = a := by simpa using h
      simp only [List.set_cons_zero, List.map_cons, List.sum_cons]
      omega
    | succ k =>
      have hrest := ih (k := k) (by simpa using h)
      simp only [List.set_cons_succ, List.map_cons, List.sum_cons]
      omega

/-- What is replaced by something alike. -/
theorem map_set_eq {α β : Type} {f : α → β} {l : List α} {k : Nat} {a b : α} (h : l[k]? = some a)
    (hf : f b = f a) : (l.set k b).map f = l.map f := by
  obtain ⟨hlt, rfl⟩ := List.getElem?_eq_some_iff.mp h
  have hlt' : k < (l.map f).length := by rwa [List.length_map]
  have hself := List.set_getElem_self hlt'
  rwa [List.getElem_map, ← hf, ← List.map_set] at hself

theorem sum_map_set_eq {α : Type} {f : α → Nat} {l : List α} {k : Nat} {a b : α}
    (h : l[k]? = some a) (hf : f b = f a) : ((l.set k b).map f).sum = (l.map f).sum := by
  rw [map_set_eq h hf]

theorem map_modify_eq {α β : Type} {f : α → β} {g : α → α} (h : ∀ a, f (g a) = f a) (l : List α)
    (k : Nat) : (l.modify k g).map f = l.map f := by
  induction l generalizing k with
  | nil => cases k <;> rfl
  | cons x l ih =>
    cases k with
    | zero => simp [h]
    | succ k => simp [ih]

namespace Flow

theorem forwarded_push (flow : Flow) (pkt : UdpPacket) :
    (flow.push pkt).forwarded = flow.forwarded + pkt.data.length := by
  cases flow <;> simp [push, forwarded]

theorem forwarded_dropWriter (flow : Flow) : flow.dropWriter.forwarded = flow.forwarded := by
  cases flow <;> rfl

theorem forwarded_dropReader (flow : Flow) : flow.dropReader.forwarded = flow.forwarded := by
  cases flow <;> rfl

end Flow

namespace Carrier

/-- The payload bytes put on the uplinks of the sub-sessions. -/
def forwarded (c : Carrier) : Nat := (c.subs.map (·.flow.forwarded)).sum

/-- The payload bytes of the frames written to the client. -/
def answered (c : Carrier) : Nat := (c.written.map (·.payload.length)).sum

/-- The payload bytes a move puts on an uplink. -/
def forwards (c : Carrier) : Act → Nat
  | .send =>
    match c.demux with
    | .seeding _ pkt | .keeping _ pkt => pkt.data.length
    | _ => 0
  | _ => 0

/-- The payload bytes of a frame that a move completes. -/
def answers (c : Carrier) : Act → Nat
  | .write n =>
    match c.writer with
    | .writing frame rest => if rest.length ≤ n then frame.payload.length else 0
    | _ => 0
  | _ => 0

/-- What the demultiplexer does besides sending leaves the payload where it is. -/
structure SamePayload (c c' : Carrier) : Prop where
  forwarded_eq : c'.forwarded = c.forwarded
  written_eq : c'.written = c.written

namespace SamePayload

theorem rfl {c : Carrier} : SamePayload c c := ⟨.refl _, .refl _⟩

theorem trans {c c' c'' : Carrier} (h : SamePayload c c') (h' : SamePayload c' c'') :
    SamePayload c c'' :=
  ⟨h'.forwarded_eq.trans h.forwarded_eq, h'.written_eq.trans h.written_eq⟩

end SamePayload

variable (c : Carrier) (info : Meta) (sid : UInt16) (k : Nat)

theorem finish_same (result : Except IoError Unit) : SamePayload c (c.finish result) := by
  refine ⟨?_, rfl⟩
  unfold forwarded finish
  dsimp only
  rw [List.map_map]
  congr 1
  exact List.map_congr_left fun sub _ => sub.flow.forwarded_dropWriter

theorem readFailed_same (e : IoError) : SamePayload c (c.readFailed e) := by
  unfold readFailed
  split
  · exact c.finish_same _
  · exact c.finish_same _

theorem remove_same : SamePayload c (c.remove sid) := by
  unfold remove
  split
  · exact .rfl
  · refine ⟨?_, rfl⟩
    unfold forwarded
    dsimp only
    rw [map_modify_eq fun sub => sub.flow.forwarded_dropWriter]

theorem register_same : SamePayload c (c.register sid k) := by
  refine (c.remove_same sid).trans ⟨?_, rfl⟩
  unfold forwarded register
  dsimp only
  rw [map_modify_eq (g := Sub.spawn) fun _ => rfl]

theorem forwarded_newSub (target : Destination) : (newSub sid target).flow.forwarded = 0 := by
  unfold newSub
  split <;> rfl

theorem newSub_same (target : Destination) (demux : Demux) :
    SamePayload c { c with subs := c.subs ++ [newSub sid target], demux := demux } := by
  refine ⟨?_, rfl⟩
  simp [forwarded, forwarded_newSub]

variable {c info} in
theorem Outcome.same {c' : Carrier} {data : Option Bytes} (h : Outcome c info data c') :
    SamePayload c c' := by
  cases h with
  | skip | keep => exact ⟨rfl, rfl⟩
  | register => exact (c.newSub_same _ _ _).trans (register_same _ _ _)
  | seed => exact c.newSub_same _ _ _
  | close => exact (c.remove_same info.sid).trans ⟨rfl, rfl⟩
  | fail => exact c.finish_same _

theorem onField_same (field : Bytes) : SamePayload c (c.onField field) := by
  rcases c.onField_eq field with ⟨result, heq⟩ | ⟨next, heq, -⟩ | ⟨info, data, heq⟩ | heq <;> rw [heq]
  · exact c.finish_same result
  · exact ⟨rfl, rfl⟩
  · exact (c.outcome_handle info data).same
  · exact .rfl

end Carrier

section
variable {c c' : Carrier} {a : Act}

/-- **Only the demultiplexer forwards payload**: the uplinks grow by what it sends. -/
theorem Step.forwarded_eq (h : Step c a c') : c'.forwarded = c.forwarded + c.forwards a := by
  cases h with
  | eof | readError => exact (c.readFailed_same _).forwarded_eq
  | field => exact (Carrier.onField_same _ _).forwarded_eq
  | @seed k pkt sub hdemux hsub =>
    rw [(Carrier.register_same _ _ _).forwarded_eq]
    have hsum := sum_map_set (f := fun sub : Sub => sub.flow.forwarded)
      (b := { sub with flow := sub.flow.push pkt }) hsub
    simp only [Flow.forwarded_push] at hsum
    simp only [Carrier.forwarded, Carrier.forwards, hdemux]
    omega
  | @keep k pkt sub hdemux hsub =>
    have hsum := sum_map_set (f := fun sub : Sub => sub.flow.forwarded)
      (b := { sub with flow := sub.flow.push pkt }) hsub
    simp only [Flow.forwarded_push] at hsum
    simp only [Carrier.forwarded, Carrier.forwards, hdemux]
    omega
  | seedFail => exact (c.register_same _ _).forwarded_eq
  | dial _ hsub hflow | dialError hsub hflow =>
    refine sum_map_set_eq hsub ?_
    rw [hflow]
    rfl
  | relay hsub hflow _ hstep =>
    refine sum_map_set_eq hsub ?_
    rw [hflow]
    exact congrArg (fun l => l.flatten.length) hstep.moves.2.sent_eq
  | egress hsub hflow _ hstep =>
    refine sum_map_set_eq hsub ?_
    rw [hflow]
    exact congrArg (fun l => (l.map UdpPacket.data).flatten.length) hstep.moves.2.sent_eq
  | recvTcp hsub hflow | recvUdp hsub hflow =>
    refine sum_map_set_eq hsub ?_
    rw [hflow]
    rfl
  | recvEnd hsub | push hsub => exact sum_map_set_eq hsub rfl
  | pushEnd hsub | pushFail hsub => exact sum_map_set_eq hsub (Flow.forwarded_dropReader _)
  | fill | keepFail | take | write | wrote | writeError | outEnd | flush | idle | join => rfl

/-- **Only the writer answers the client**: a frame counts when it is written whole. -/
theorem Step.answered_eq (h : Step c a c') : c'.answered = c.answered + c.answers a := by
  unfold Carrier.answered
  cases h with
  | eof | readError => rw [(c.readFailed_same _).written_eq]; rfl
  | field => rw [(Carrier.onField_same _ _).written_eq]; rfl
  | seed | seedFail => rw [(Carrier.register_same _ _ _).written_eq]; rfl
  | write n hwriter _ hlen =>
    simp only [Carrier.answers, hwriter]
    rw [if_neg (Nat.not_le.mpr hlen), Nat.add_zero]
  | @wrote frame rest hwriter =>
    simp [Carrier.answers, hwriter]
  | _ => rfl

end

end XrayRs.Mux
