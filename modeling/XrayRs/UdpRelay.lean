import XrayRs.StreamRelay

/-! # The datagram relays

`relay_vless_udp` and `freedom_udp` (`proxy/src/udp.rs`) serve a UDP flow
themselves, on one direct socket.  `relay_vless_udp` takes the client's datagrams
off the stream as `len(2) + payload` and writes the answers back in the same frames;
`freedom_udp` is the egress of a mux sub-session and moves packets between the
socket and a `UdpLink`.

Both run an uplink and a downlink loop under `select!` with the idle token: the
first to end ends the relay, and the other is dropped where it stands.  What the
counter of `relay_vless_udp` has grown by is what was sent and answered, and what
the two loops have in hand (`VlessUdpStep.counted`). -/

namespace XrayRs

open BoundedChannel ByteWords

/-! ## `relay_vless_udp` -/

/-- `parse_vless_packet`. -/
def parseVlessPacket : Parser Bytes := do
  let len ← readPort
  take len.toNat

/-- The receive buffer: no datagram is longer. -/
def recvBuf : Nat := 65535

/-- The frame of an answer; `none` if its length does not fit. -/
def datagramFrame (payload : Bytes) : Option Bytes :=
  if payload.length < 65536 then some (u16ToBe (.ofNat payload.length) ++ payload) else none

/-- Where the uplink is: before the socket and the target's address are there, putting
a frame together, or sending a datagram. -/
inductive DatagramUp
  | opening
  | framing
  | sending (payload : Bytes)
  deriving DecidableEq

/-- The datagram taken in and not sent. -/
def DatagramUp.held : DatagramUp → Bytes
  | .sending payload => payload
  | .opening | .framing => []

/-- Where the downlink is: waiting for an answer, or writing its frame. -/
inductive DatagramDown
  | receiving
  | writing (payload rest : Bytes)
  deriving DecidableEq

/-- The answer taken off the socket and not written. -/
def DatagramDown.held : DatagramDown → Bytes
  | .writing payload _ => payload
  | .receiving => []

/-- `relay_vless_udp`: the two loops, the buffer of `Framed`, the connection, the
datagrams sent and those answered so far, the counter and the result. -/
structure VlessUdp where
  up : DatagramUp
  down : DatagramDown
  buf : Bytes
  conn : Conn
  sent : List Bytes
  answered : List Bytes
  counter : Option Counter
  result : Option (Except IoError Unit)

namespace VlessUdp

/-- `relay_vless_udp`, up to its first suspension point. -/
def relayVlessUdp (conn : Conn) (leftover : Bytes) (counter : Option Counter) : VlessUdp :=
  ⟨.opening, .receiving, leftover, conn, [], [], counter, none⟩

/-- `Framed::frame` gave a datagram. -/
def onFrame (r : VlessUdp) (payload rest : Bytes) : VlessUdp :=
  { r with
    up := .sending payload
    buf := rest
    counter := r.counter.map (·.addUp (.ofNat payload.length)) }

/-- `read` took `n` bytes. -/
def onRead (r : VlessUdp) (n : Nat) : VlessUdp :=
  { r with conn := r.conn.read n, buf := r.buf ++ r.conn.unread.take n }

/-- `recv_from` gave an answer. -/
def onRecv (r : VlessUdp) (payload : Bytes) : VlessUdp :=
  { r with
    down := match datagramFrame payload with
      | some out => .writing payload out
      | none => .receiving
    counter := r.counter.map (·.addDown (.ofNat payload.length)) }

/-- The connection took `n` bytes of the frame. -/
def onWrite (r : VlessUdp) (payload rest : Bytes) (n : Nat) : VlessUdp :=
  let r := { r with conn := r.conn.write (rest.take n) }
  if rest.drop n = [] then { r with down := .receiving, answered := r.answered ++ [payload] }
  else { r with down := .writing payload (rest.drop n) }

theorem onWrite_result (r : VlessUdp) (payload rest : Bytes) (n : Nat) :
    (r.onWrite payload rest n).result = r.result := by
  unfold onWrite
  split <;> rfl

/-- `select!` takes the result of the branch that ended. -/
def ret (r : VlessUdp) (result : Except IoError Unit) : VlessUdp :=
  { r with conn := r.conn.dropRead.dropWrite, result := some result }

end VlessUdp

/-- The moves of `relay_vless_udp`. -/
inductive VlessUdpAct
  | opened
  | frame
  | read (n : Nat)
  | eof
  | sent
  | recv (payload : Bytes)
  | write (n : Nat)
  | idle
  | error
  deriving DecidableEq

/-- No error: the end of the client's stream is one, since `Framed::frame` fails
there. -/
def VlessUdpAct.Clean : VlessUdpAct → Prop
  | .eof | .error => False
  | _ => True

/-- One step of `relay_vless_udp`. -/
inductive VlessUdpStep (r : VlessUdp) : VlessUdpAct → VlessUdp → Prop
  -- `bind_udp` and `resolve_first`
  | opened (hrun : r.result = none) (hup : r.up = .opening) :
      VlessUdpStep r .opened { r with up := .framing }
  | openError (e : IoError) (hrun : r.result = none) (hup : r.up = .opening) :
      VlessUdpStep r .error (r.ret (.error e))
  | frame {payload rest : Bytes} (hrun : r.result = none) (hup : r.up = .framing)
      (hparse : parseVlessPacket.run r.buf = .ok (payload, rest)) :
      VlessUdpStep r .frame (r.onFrame payload rest)
  | badFrame {e : Error} (hrun : r.result = none) (hup : r.up = .framing)
      (hparse : parseVlessPacket.run r.buf = .error e) (hbad : ¬ e.IsTruncated) :
      VlessUdpStep r .error (r.ret (.error (.invalidData e)))
  | read {e : Error} (n : Nat) (hrun : r.result = none) (hup : r.up = .framing)
      (hparse : parseVlessPacket.run r.buf = .error e) (hmore : e.IsTruncated) (hpos : 0 < n)
      (hbuf : n ≤ 4096) (hlen : n ≤ r.conn.unread.length) :
      VlessUdpStep r (.read n) (r.onRead n)
  | eof {e : Error} (hrun : r.result = none) (hup : r.up = .framing)
      (hparse : parseVlessPacket.run r.buf = .error e) (hmore : e.IsTruncated)
      (hend : r.conn.unread = []) :
      VlessUdpStep r .eof (r.ret (.error ⟨.unexpectedEof, .msg "eof in udp frame"⟩))
  | readError (e : IoError) (hrun : r.result = none) (hup : r.up = .framing) :
      VlessUdpStep r .error (r.ret (.error e))
  | sent {payload : Bytes} (hrun : r.result = none) (hup : r.up = .sending payload) :
      VlessUdpStep r .sent { r with up := .framing, sent := r.sent ++ [payload] }
  | sendError {payload : Bytes} (e : IoError) (hrun : r.result = none)
      (hup : r.up = .sending payload) :
      VlessUdpStep r .error (r.ret (.error e))
  | recv (payload : Bytes) (hrun : r.result = none) (hopen : r.up ≠ .opening)
      (hdown : r.down = .receiving) (hbuf : payload.length ≤ recvBuf) :
      VlessUdpStep r (.recv payload) (r.onRecv payload)
  | recvError (e : IoError) (hrun : r.result = none) (hopen : r.up ≠ .opening)
      (hdown : r.down = .receiving) :
      VlessUdpStep r .error (r.ret (.error e))
  | write {payload rest : Bytes} (n : Nat) (hrun : r.result = none)
      (hdown : r.down = .writing payload rest) (hpos : 0 < n) (hlen : n ≤ rest.length) :
      VlessUdpStep r (.write n) (r.onWrite payload rest n)
  | writeError {payload rest : Bytes} (e : IoError) (hrun : r.result = none)
      (hdown : r.down = .writing payload rest) :
      VlessUdpStep r .error (r.ret (.error e))
  | idle (hrun : r.result = none) (hopen : r.up ≠ .opening) :
      VlessUdpStep r .idle (r.ret (.ok ()))

/-- **The counter**, from `counter` at the start, has grown by the datagrams sent and
answered and by those in hand. -/
def VlessUdp.Counted (counter : Option Counter) (r : VlessUdp) : Prop :=
  r.counter = counter.map (·.grown (r.sent.flatten.length + r.up.held.length)
    (r.answered.flatten.length + r.down.held.length))

theorem datagramFrame_of_le {payload : Bytes} (h : payload.length ≤ recvBuf) :
    datagramFrame payload = some (u16ToBe (.ofNat payload.length) ++ payload) :=
  if_pos (Nat.lt_succ_of_le h)

theorem VlessUdpStep.counted {counter : Option Counter} {r r' : VlessUdp} {a : VlessUdpAct}
    (h : VlessUdpStep r a r') (hr : r.Counted counter) : r'.Counted counter := by
  unfold VlessUdp.Counted at hr ⊢
  cases h with
  | opened _ hup =>
    rw [hup] at hr
    exact hr
  | @frame payload rest _ hup =>
    rw [hup] at hr
    rw [VlessUdp.onFrame, Counter.map_addUp hr]
    simp [DatagramUp.held]
  | @sent payload _ hup =>
    rw [hup] at hr
    simpa [DatagramUp.held] using hr
  | recv payload _ _ hdown hbuf =>
    rw [hdown] at hr
    rw [VlessUdp.onRecv, Counter.map_addDown hr, datagramFrame_of_le hbuf]
    simp [DatagramDown.held]
  | @write payload rest n _ hdown =>
    rw [hdown] at hr
    unfold VlessUdp.onWrite
    split
    · simpa [DatagramDown.held] using hr
    · exact hr
  | read | openError | badFrame | eof | readError | sendError | recvError | writeError | idle =>
    exact hr

theorem relayVlessUdp_counted (conn : Conn) (leftover : Bytes) (counter : Option Counter) :
    (VlessUdp.relayVlessUdp conn leftover counter).Counted counter := by
  cases counter with
  | none => rfl
  | some c => simp [VlessUdp.Counted, VlessUdp.relayVlessUdp, Counter.grown, DatagramUp.held,
      DatagramDown.held]

/-! ## `freedom_udp` -/

/-- `UdpPacket`. -/
structure UdpPacket where
  data : Bytes
  target : Destination
  deriving DecidableEq

/-- `UdpLink`: the receiver of one direction and the sender of the other. -/
structure UdpLink where
  reader : Chan UdpPacket
  writer : Chan UdpPacket
  deriving DecidableEq

/-- Drop both ends. -/
def UdpLink.drop (l : UdpLink) : UdpLink := ⟨l.reader.dropRx, l.writer.dropTx⟩

/-- Where the send loop is. -/
inductive EgressSend
  | binding
  | receiving
  | resolving (pkt : UdpPacket)
  | sending (pkt : UdpPacket)
  deriving DecidableEq

/-- Where the receive loop is. -/
inductive EgressRecv
  | receiving
  | delivering (pkt : UdpPacket)
  deriving DecidableEq

/-- `freedom_udp`: the two loops, the packets sent on the socket and the result. -/
structure FreedomUdp where
  send : EgressSend
  recv : EgressRecv
  sent : List UdpPacket
  result : Option (Except IoError Unit)

namespace FreedomUdp

/-- `freedom_udp`, up to its first suspension point. -/
def start : FreedomUdp := ⟨.binding, .receiving, [], none⟩

/-- `select!` takes the result of the branch that ended. -/
def ret (e : FreedomUdp) (result : Except IoError Unit) : FreedomUdp :=
  { e with result := some result }

end FreedomUdp

/-- The moves of `freedom_udp`. -/
inductive FreedomAct
  | bound
  | take
  | resolved
  | sent
  | linkEnd
  | recv (pkt : UdpPacket)
  | deliver
  | refused
  | idle
  | error
  deriving DecidableEq

/-- One step of `freedom_udp` on its half of the link. -/
inductive FreedomStep (e : FreedomUdp) (l : UdpLink) : FreedomAct → FreedomUdp → UdpLink → Prop
  | bound (hrun : e.result = none) (hsend : e.send = .binding) :
      FreedomStep e l .bound { e with send := .receiving } l
  | bindError (err : IoError) (hrun : e.result = none) (hsend : e.send = .binding) :
      FreedomStep e l .error (e.ret (.error err)) l.drop
  | take {pkt : UdpPacket} {q : List UdpPacket} (hrun : e.result = none)
      (hsend : e.send = .receiving) (hpkt : l.reader.CanRecv pkt q) :
      FreedomStep e l .take { e with send := .resolving pkt } { l with reader := l.reader.pop pkt q }
  | linkEnd (hrun : e.result = none) (hsend : e.send = .receiving) (hend : l.reader.Ended) :
      FreedomStep e l .linkEnd (e.ret (.ok ())) l.drop
  | resolved {pkt : UdpPacket} (hrun : e.result = none) (hsend : e.send = .resolving pkt) :
      FreedomStep e l .resolved { e with send := .sending pkt } l
  -- an IP target needs no resolver
  | resolveError {pkt : UdpPacket} (err : IoError) (hrun : e.result = none)
      (hsend : e.send = .resolving pkt) (hname : pkt.target.address.isIp = false) :
      FreedomStep e l .error (e.ret (.error err)) l.drop
  | sent {pkt : UdpPacket} (hrun : e.result = none) (hsend : e.send = .sending pkt) :
      FreedomStep e l .sent { e with send := .receiving, sent := e.sent ++ [pkt] } l
  | sendError {pkt : UdpPacket} (err : IoError) (hrun : e.result = none)
      (hsend : e.send = .sending pkt) :
      FreedomStep e l .error (e.ret (.error err)) l.drop
  | recv (pkt : UdpPacket) (hrun : e.result = none) (hopen : e.send ≠ .binding)
      (hrecv : e.recv = .receiving) (hbuf : pkt.data.length ≤ recvBuf)
      (hfrom : pkt.target.network = .udp ∧ pkt.target.address.isIp = true) :
      FreedomStep e l (.recv pkt) { e with recv := .delivering pkt } l
  | recvError (err : IoError) (hrun : e.result = none) (hopen : e.send ≠ .binding)
      (hrecv : e.recv = .receiving) :
      FreedomStep e l .error (e.ret (.error err)) l.drop
  | deliver {pkt : UdpPacket} (hrun : e.result = none) (hrecv : e.recv = .delivering pkt)
      (hroom : l.writer.CanSend) :
      FreedomStep e l .deliver { e with recv := .receiving } { l with writer := l.writer.push pkt }
  | refused {pkt : UdpPacket} (hrun : e.result = none) (hrecv : e.recv = .delivering pkt)
      (hgone : l.writer.Refuses) :
      FreedomStep e l .refused (e.ret (.ok ())) l.drop
  | idle (hrun : e.result = none) (hopen : e.send ≠ .binding) :
      FreedomStep e l .idle (e.ret (.ok ())) l.drop

/-- `freedom_udp` only sends on its writer and only receives from its reader. -/
theorem FreedomStep.moves {e e' : FreedomUdp} {l l' : UdpLink} {a : FreedomAct}
    (h : FreedomStep e l a e' l') : TxMove l.writer l'.writer ∧ RxMove l.reader l'.reader := by
  cases h with
  | take _ _ hpkt => exact ⟨.stay, .pop hpkt⟩
  | deliver _ _ hroom => exact ⟨.push _ hroom, .stay⟩
  | bindError | linkEnd | resolveError | sendError | recvError | refused | idle =>
    exact ⟨.drop, .drop⟩
  | bound | resolved | sent | recv => exact ⟨.stay, .stay⟩

end XrayRs
