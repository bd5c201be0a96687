import XrayRs.FramedUdp
import XrayRs.SocksAssociate

/-! # A datagram that cannot be sent

`relay_trojan_udp` and `freedom_udp` (`proxy/src/udp.rs`) ask the resolver for the target
of each datagram and send it there.  Where one of the two fails, the loop returns the
error, and `select!` ends the relay with it: the datagrams behind are not sent.  The
association of SOCKS5 gives up such a datagram alone.

So all datagrams that can be sent are sent, in order, exactly if none of them comes behind
one that cannot (`sendable_sent_iff`). -/

namespace XrayRs

open BoundedChannel ByteParser ByteWords BufferedStream StepSystem SsUdp

/-! ## Datagrams and what becomes of them -/

section Attempts

variable {α : Type}

/-- The datagrams that can be sent: those for which the resolver and the socket succeed. -/
def sendable (ds : List (α × Bool)) : List α := (ds.filter Prod.snd).map Prod.fst

/-- No datagram that can be sent comes behind one that cannot. -/
def FailuresLast (ds : List (α × Bool)) : Prop := ds.Pairwise fun d d' => d.2 = false → d'.2 = false

/-- Those in front have been sent: all could be. -/
structure Sent (ds done todo : List (α × Bool)) (sent : List α) : Prop where
  all_eq : ds = done ++ todo
  good : ∀ d ∈ done, d.2 = true
  sent_eq : sent = done.map Prod.fst

variable {ds done todo : List (α × Bool)} {sent : List α} {d : α × Bool}

theorem sendable_of_good (h : ∀ d ∈ done, d.2 = true) : sendable done = done.map Prod.fst := by
  rw [sendable, List.filter_eq_self.mpr h]

theorem sendable_append : sendable (done ++ todo) = sendable done ++ sendable todo := by
  rw [sendable, List.filter_append, List.map_append, sendable, sendable]

theorem sendable_eq_nil : sendable ds = [] ↔ ∀ d ∈ ds, d.2 = false := by
  simp [sendable]

namespace Sent

theorem start (ds : List (α × Bool)) : Sent ds [] ds [] := ⟨rfl, by simp, rfl⟩

/-- What has been sent is in front of what can be sent. -/
theorem isPrefix (h : Sent ds done todo sent) : sent <+: sendable ds := by
  rw [h.all_eq, sendable_append, sendable_of_good h.good, h.sent_eq]
  exact List.prefix_append _ _

theorem next (h : Sent ds done (d :: todo) sent) : ds[sent.length]? = some d := by
  rw [h.all_eq, h.sent_eq, List.length_map,
    List.getElem?_append_right (Nat.le_refl _), Nat.sub_self]
  rfl

/-- One more. -/
theorem snoc (h : Sent ds done (d :: todo) sent) (hd : d.2 = true) :
    Sent ds (done ++ [d]) todo (sent ++ [d.1]) where
  all_eq := by rw [h.all_eq, List.append_assoc, List.singleton_append]
  good := by
    intro d' hd'
    rcases List.mem_append.mp hd' with hd' | hd'
    · exact h.good d' hd'
    · rw [List.mem_singleton.mp hd']
      exact hd
  sent_eq := by rw [h.sent_eq, List.map_append, List.map_singleton]

/-- **Where the loop ends**: behind the last datagram, or at the first that cannot be
sent. -/
theorem sendable_iff (h : Sent ds done todo sent) (hend : ∀ d ∈ todo.head?, d.2 = false) :
    sent = sendable ds ↔ FailuresLast ds := by
  rw [h.all_eq, sendable_append, sendable_of_good h.good, h.sent_eq, List.self_eq_append_right,
    sendable_eq_nil]
  constructor
  · intro hbad
    refine List.pairwise_append.mpr ⟨?_, ?_, ?_⟩
    · refine List.pairwise_of_forall_mem_list fun d hd d' hd' hfail => ?_
      rw [h.good d hd] at hfail
      cases hfail
    · exact List.pairwise_of_forall_mem_list fun d hd d' hd' _ => hbad d' hd'
    · intro d hd d' hd' _
      exact hbad d' hd'
  · intro hlast d hd
    cases todo with
    | nil => cases hd
    | cons first todo =>
      have hfirst := hend first rfl
      have hpairs := (List.pairwise_append.mp hlast).2.1
      rcases List.mem_cons.mp hd with rfl | hd
      · exact hfirst
      · exact (List.pairwise_cons.mp hpairs).1 d hd hfirst

end Sent

end Attempts

/-! ## `relay_trojan_udp` -/

/-- Where the uplink is: before the socket is there, putting a packet together, asking the
resolver for its target, or sending it. -/
inductive TrojanUp
  | opening
  | framing
  | resolving (pkt : Destination × Bytes)
  | sending (pkt : Destination × Bytes) (addr : SocketAddr)
  deriving DecidableEq

/-- The packet taken in and not sent. -/
def TrojanUp.held : TrojanUp → List (Destination × Bytes)
  | .opening | .framing => []
  | .resolving pkt | .sending pkt _ => [pkt]

/-- `relay_trojan_udp`: the two loops, the buffer of `Framed`, the connection, the packets
sent, each with the address it was sent to, the answers written so far, the counter and
the result. -/
structure TrojanUdp where
  up : TrojanUp
  down : DatagramDown
  buf : Bytes
  conn : Conn
  sent : List ((Destination × Bytes) × SocketAddr)
  answered : List Bytes
  counter : Option Counter
  result : Option (Except IoError Unit)

namespace TrojanUdp

/-- `relay_trojan_udp`, up to its first suspension point. -/
def relayTrojanUdp (conn : Conn) (leftover : Bytes) (counter : Option Counter) : TrojanUdp :=
  ⟨.opening, .receiving, leftover, conn, [], [], counter, none⟩

/-- `Framed::frame` gave a packet. -/
def onFrame (r : TrojanUdp) (pkt : Destination × Bytes) (rest : Bytes) : TrojanUdp :=
  { r with
    up := .resolving pkt
    buf := rest
    counter := r.counter.map (·.addUp (.ofNat pkt.2.length)) }

/-- `read` took `n` bytes. -/
def onRead (r : TrojanUdp) (n : Nat) : TrojanUdp :=
  { r with conn := r.conn.read n, buf := r.buf ++ r.conn.unread.take n }

/-- `recv_from` gave an answer, which has the frame `out`, if any. -/
def onRecv (r : TrojanUdp) (payload : Bytes) (out : Option Bytes) : TrojanUdp :=
  { r with
    down := match out with
      | some out => .writing payload out
      | none => .receiving
    counter := r.counter.map (·.addDown (.ofNat payload.length)) }

/-- The connection took `n` bytes of the frame. -/
def onWrite (r : TrojanUdp) (payload rest : Bytes) (n : Nat) : TrojanUdp :=
  let r := { r with conn := r.conn.write (rest.take n) }
  if rest.drop n = [] then { r with down := .receiving, answered := r.answered ++ [payload] }
  else { r with down := .writing payload (rest.drop n) }

/-- `select!` takes the result of the branch that ended. -/
def ret (r : TrojanUdp) (result : Except IoError Unit) : TrojanUdp :=
  { r with conn := r.conn.dropRead.dropWrite, result := some result }

end TrojanUdp

/-- The moves of `relay_trojan_udp`.  `failed` is a packet for which the resolver or the
socket fails, `error` any other error. -/
inductive TrojanAct
  | opened
  | frame
  | badFrame
  | read (n : Nat)
  | eof
  | resolved (addr : SocketAddr)
  | sent
  | failed
  | recv (a : Answer)
  | write (n : Nat)
  | idle
  | error
  deriving DecidableEq

/-- One step of `relay_trojan_udp`. -/
inductive TrojanStep (r : TrojanUdp) : TrojanAct → TrojanUdp → Prop
  | opened (hrun : r.result = none) (hup : r.up = .opening) :
      TrojanStep r .opened { r with up := .framing }
  | openError (e : IoError) (hrun : r.result = none) (hup : r.up = .opening) :
      TrojanStep r .error (r.ret (.error e))
  | frame {pkt : Destination × Bytes} {rest : Bytes} (hrun : r.result = none)
      (hup : r.up = .framing)
      (hparse : parseTrojanPacket.run r.buf = .ok (pkt, rest)) :
      TrojanStep r .frame (r.onFrame pkt rest)
  | badFrame {e : Error} (hrun : r.result = none) (hup : r.up = .framing)
      (hparse : parseTrojanPacket.run r.buf = .error e) (hbad : ¬ e.IsTruncated) :
      TrojanStep r .badFrame (r.ret (.error (.invalidData e)))
  | read {e : Error} (n : Nat) (hrun : r.result = none) (hup : r.up = .framing)
      (hparse : parseTrojanPacket.run r.buf = .error e) (hmore : e.IsTruncated) (hpos : 0 < n)
      (hbuf : n ≤ 4096) (hlen : n ≤ r.conn.unread.length) :
      TrojanStep r (.read n) (r.onRead n)
  | eof {e : Error} (hrun : r.result = none) (hup : r.up = .framing)
      (hparse : parseTrojanPacket.run r.buf = .error e) (hmore : e.IsTruncated)
      (hend : r.conn.unread = []) :
      TrojanStep r .eof (r.ret (.error ⟨.unexpectedEof, .msg "eof in udp frame"⟩))
  | readError (e : IoError) (hrun : r.result = none) (hup : r.up = .framing) :
      TrojanStep r .error (r.ret (.error e))
  | resolved {pkt : Destination × Bytes} (addr : SocketAddr) (hrun : r.result = none)
      (hup : r.up = .resolving pkt) (haddr : Resolves pkt.1 addr) :
      TrojanStep r (.resolved addr) { r with up := .sending pkt addr }
  -- an IP target needs no resolver
  | resolveError {pkt : Destination × Bytes} (e : IoError) (hrun : r.result = none)
      (hup : r.up = .resolving pkt) (hname : pkt.1.address.isIp = false) :
      TrojanStep r .failed (r.ret (.error e))
  | sent {pkt : Destination × Bytes} {addr : SocketAddr} (hrun : r.result = none)
      (hup : r.up = .sending pkt addr) :
      TrojanStep r .sent { r with up := .framing, sent := r.sent ++ [(pkt, addr)] }
  | sendError {pkt : Destination × Bytes} {addr : SocketAddr} (e : IoError) (hrun : r.result = none)
      (hup : r.up = .sending pkt addr) :
      TrojanStep r .failed (r.ret (.error e))
  | recv {out : Option Bytes} (a : Answer) (hrun : r.result = none) (hopen : r.up ≠ .opening)
      (hdown : r.down = .receiving) (hframe : trojanFrame a = .ok out) :
      TrojanStep r (.recv a) (r.onRecv a.payload out)
  | recvBad {e : IoError} (a : Answer) (hrun : r.result = none) (hopen : r.up ≠ .opening)
      (hdown : r.down = .receiving) (hframe : trojanFrame a = .error e) :
      TrojanStep r .error ((r.onRecv a.payload none).ret (.error e))
  | recvError (e : IoError) (hrun : r.result = none) (hopen : r.up ≠ .opening)
      (hdown : r.down = .receiving) :
      TrojanStep r .error (r.ret (.error e))
  | write {payload rest : Bytes} (n : Nat) (hrun : r.result = none)
      (hdown : r.down = .writing payload rest) (hpos : 0 < n) (hlen : n ≤ rest.length) :
      TrojanStep r (.write n) (r.onWrite payload rest n)
  | writeError {payload rest : Bytes} (e : IoError) (hrun : r.result = none)
      (hdown : r.down = .writing payload rest) :
      TrojanStep r .error (r.ret (.error e))
  | idle (hrun : r.result = none) (hopen : r.up ≠ .opening) :
      TrojanStep r .idle (r.ret (.ok ()))

namespace TrojanUdp

/-- The packets of a stream, each with whether it can be sent. -/
def Stream (bytes : Bytes) (ds : List ((Destination × Bytes) × Bool)) : Prop :=
  ∃ items stop tail, Drains Error.IsTruncated parseTrojanPacket bytes items stop tail ∧
    items.map Prod.snd = ds.map Prod.fst

/-- The step goes as the packets' outcomes say. -/
def Agrees (ds : List ((Destination × Bytes) × Bool)) (r : TrojanUdp) : TrojanAct → Prop
  | .sent => ds[r.sent.length]?.map Prod.snd = some true
  | .failed => ds[r.sent.length]?.map Prod.snd = some false
  | _ => True

/-- Neither the timer nor another error. -/
def Calm : TrojanAct → Prop
  | .idle | .error => False
  | _ => True

/-- What a run keeps: the packets sent are those in front; as long as the relay runs, those
behind are in hand or on the stream, and it ends where the stream does or at a packet that
cannot be sent. -/
def Inv (ds : List ((Destination × Bytes) × Bool)) (calm : Prop) (r : TrojanUdp) : Prop :=
  ∃ done todo, Sent ds done todo (r.sent.map Prod.fst) ∧
    (r.result = none → ∃ held rest, todo = held ++ rest ∧ held.map Prod.fst = r.up.held ∧
      Stream (r.buf ++ r.conn.unread) rest) ∧
    (r.result ≠ none → calm → ∀ d ∈ todo.head?, d.2 = false)

section Stream

variable {buf more view : Bytes} {ds : List ((Destination × Bytes) × Bool)}
    {pkt : Destination × Bytes} {e : Error}

theorem Stream.frame (h : Stream (buf ++ more) ds)
    (hparse : parseTrojanPacket.run buf = .ok (pkt, view)) :
    ∃ d rest, ds = d :: rest ∧ d.1 = pkt ∧ Stream (view ++ more) rest := by
  have hall := incremental_parseTrojanPacket.ok_append hparse more
  have hattempt :
    attempt Error.IsTruncated parseTrojanPacket (buf ++ more) = some (.ok (pkt, view ++ more)) :=
    attempt_eq_ok.mpr hall
  obtain ⟨items, stop, tail, hdrains, hitems⟩ := h
  generalize hbytes : buf ++ more = bytes at hdrains
  cases hdrains with
  | starved hnone =>
    rw [← hbytes, hattempt] at hnone
    cases hnone
  | rejected herror =>
    rw [← hbytes, hattempt] at herror
    cases herror
  | @item piece rest tail pkt' items stop hpiece hrest =>
    have hfirst := hpiece rest
    rw [← hbytes, hattempt] at hfirst
    obtain ⟨rfl, rfl⟩ := Prod.mk.inj (Except.ok.inj (Option.some.inj hfirst))
    rw [List.map_cons] at hitems
    obtain ⟨d, ds, rfl, hd, hds⟩ := List.map_eq_cons_iff.mp hitems.symm
    exact ⟨d, ds, rfl, hd, items, stop, tail, hrest, hds.symm⟩

/-- A stream that stops has no packet left. -/
theorem Stream.stopped (h : Stream buf ds)
    (hstop : attempt Error.IsTruncated parseTrojanPacket buf = none ∨
      attempt Error.IsTruncated parseTrojanPacket buf = some (.error e)) : ds = [] := by
  obtain ⟨items, stop, tail, hdrains, hitems⟩ := h
  cases hdrains with
  | starved | rejected => exact List.map_eq_nil_iff.mp hitems.symm
  | @item piece rest tail pkt items stop hpiece hrest =>
    rw [hpiece rest] at hstop
    rcases hstop with hstop | hstop <;> cases hstop

end Stream

section Runs

variable {ds : List ((Destination × Bytes) × Bool)} {calm : Prop} {r r' : TrojanUdp} {a : TrojanAct}
  {conn : Conn} {leftover : Bytes} {counter : Option Counter}

theorem Inv.start (h : Stream (leftover ++ conn.unread) ds) (counter : Option Counter) :
    Inv ds calm (relayTrojanUdp conn leftover counter) :=
  ⟨[], ds, .start ds, fun _ => ⟨[], ds, rfl, rfl, h⟩, fun hrun => absurd rfl hrun⟩

/-- What the invariant looks at. -/
theorem Inv.frame (h : Inv ds calm r) (hrun : r.result = none) (hsent : r'.sent = r.sent)
    (hresult : r'.result = none) (hup : r'.up.held = r.up.held)
    (hbytes : r'.buf ++ r'.conn.unread = r.buf ++ r.conn.unread) : Inv ds calm r' := by
  obtain ⟨done, todo, hdone, hrest, -⟩ := h
  refine ⟨done, todo, hsent ▸ hdone, fun _ => ?_, fun hne => absurd hresult hne⟩
  rw [hup, hbytes]
  exact hrest hrun

/-- The relay ends. -/
theorem Inv.over (h : Inv ds calm r) (hrun : r.result = none) {result : Except IoError Unit}
    (hend : calm → ∀ done held rest, Sent ds done (held ++ rest) (r.sent.map Prod.fst) →
      held.map Prod.fst = r.up.held → Stream (r.buf ++ r.conn.unread) rest →
        ∀ d ∈ (held ++ rest).head?, d.2 = false) : Inv ds calm (r.ret result) := by
  obtain ⟨done, todo, hdone, hrest, -⟩ := h
  obtain ⟨held, rest, rfl, hheld, hstream⟩ := hrest hrun
  exact ⟨done, held ++ rest, hdone, fun hnone => absurd hnone (Option.some_ne_none _),
    fun _ hcalm => hend hcalm done held rest hdone hheld hstream⟩

/-- It ends with the stream. -/
theorem Inv.stopped (h : Inv ds calm r) (hrun : r.result = none) (hup : r.up = .framing) {e : Error}
    {result : Except IoError Unit}
    (hstop : attempt Error.IsTruncated parseTrojanPacket (r.buf ++ r.conn.unread) = none ∨
      attempt Error.IsTruncated parseTrojanPacket (r.buf ++ r.conn.unread) = some (.error e)) :
    Inv ds calm (r.ret result) := by
  refine h.over hrun fun _ done held rest _ hheld hstream => ?_
  rw [hup, TrojanUp.held, List.map_eq_nil_iff] at hheld
  rw [hheld, hstream.stopped hstop]
  simp

/-- It ends at the packet in hand. -/
theorem Inv.failed (h : Inv ds calm r) (hrun : r.result = none) {pkt : Destination × Bytes}
    {result : Except IoError Unit} (hup : r.up.held = [pkt])
    (hagree : ds[r.sent.length]?.map Prod.snd = some false) : Inv ds calm (r.ret result) := by
  refine h.over hrun fun _ done held rest hdone hheld _ => ?_
  rw [hup] at hheld
  obtain ⟨d, rfl, -⟩ := List.map_eq_singleton_iff.mp hheld
  have hnext := hdone.next
  rw [List.length_map] at hnext
  rw [hnext] at hagree
  rintro d' hd'
  obtain rfl := Option.some.inj hd'
  exact Option.some.inj hagree

theorem Inv.step (h : Inv ds calm r) (hstep : TrojanStep r a r') (hagree : Agrees ds r a)
    (hcalm : calm → Calm a) : Inv ds calm r' := by
  cases hstep with
  | opened hrun hup => exact h.frame hrun rfl hrun (by rw [hup]; rfl) rfl
  | @frame pkt rest hrun hup hparse =>
    obtain ⟨done, todo, hdone, hrest, -⟩ := h
    obtain ⟨held, later, rfl, hheld, hstream⟩ := hrest hrun
    rw [hup, TrojanUp.held, List.map_eq_nil_iff] at hheld
    subst hheld
    obtain ⟨d, later, rfl, rfl, hlater⟩ := hstream.frame hparse
    -- the packet leaves the bytes, and is in hand
    exact ⟨done, d :: later, hdone, fun _ => ⟨[d], later, rfl, rfl, hlater⟩,
      fun hne => absurd hrun hne⟩
  | read n hrun hup =>
    refine h.frame hrun rfl hrun rfl ?_
    show (r.buf ++ r.conn.unread.take n) ++ r.conn.unread.drop n = _
    rw [List.append_assoc, List.take_append_drop]
  | @resolved pkt addr hrun hup haddr => exact h.frame hrun rfl hrun (by rw [hup]; rfl) rfl
  | @sent pkt addr hrun hup =>
    obtain ⟨done, todo, hdone, hrest, -⟩ := h
    obtain ⟨held, later, rfl, hheld, hstream⟩ := hrest hrun
    rw [hup] at hheld
    obtain ⟨d, rfl, rfl⟩ := List.map_eq_singleton_iff.mp hheld
    have hnext := hdone.next
    rw [List.length_map] at hnext
    rw [Agrees, hnext] at hagree
    -- it was sent, so it is one that can be
    have hgood : d.2 = true := Option.some.inj hagree
    refine ⟨done ++ [d], later, ?_, fun _ => ⟨[], later, rfl, rfl, hstream⟩,
      fun hne => absurd hrun hne⟩
    have hsnoc := hdone.snoc hgood
    rw [List.map_append, List.map_singleton]
    exact hsnoc
  | @recv out a hrun hopen hdown hframe => exact h.frame hrun rfl hrun rfl rfl
  | @write payload rest n hrun hdown hpos hlen =>
    unfold onWrite
    split
    · exact h.frame hrun rfl hrun rfl rfl
    · exact h.frame hrun rfl hrun rfl rfl
  | @badFrame e hrun hup hparse hbad =>
    -- bytes that are no frame do not become one
    refine h.stopped hrun hup (e := e) (.inr (attempt_eq_error.mpr ⟨?_, hbad⟩))
    exact incremental_parseTrojanPacket.error_final hparse hbad _
  | @eof e hrun hup hparse hmore hend =>
    refine h.stopped hrun hup (e := e) (.inl ?_)
    rw [hend, List.append_nil]
    exact attempt_eq_none hparse hmore
  | resolveError e hrun hup hname => exact h.failed hrun (by rw [hup]; rfl) hagree
  | sendError e hrun hup => exact h.failed hrun (by rw [hup]; rfl) hagree
  | recvBad a hrun =>
    have hrecv : Inv ds calm (r.onRecv a.payload none) := h.frame hrun rfl hrun rfl rfl
    exact hrecv.over hrun fun hc => absurd (hcalm hc) id
  | openError e hrun | readError e hrun | recvError e hrun | writeError e hrun | idle hrun =>
    exact h.over hrun fun hc => absurd (hcalm hc) id

/-- **What every run keeps.** -/
theorem Inv.run {trace : List (TrojanAct × TrojanUdp)} (h : Inv ds calm r)
    (hrun : Run TrojanStep r trace r') (hagree : Meets (Agrees ds) r trace)
    (hcalm : calm → ∀ p ∈ trace, Calm p.1) : Inv ds calm r' := by
  have hmeets := hagree.and (.of_forall (calm → Calm ·) fun p hp hc => hcalm hc p hp)
  exact hrun.invariant_of_meets h hmeets fun _ _ _ hguard h hstep => h.step hstep hguard.1 hguard.2

/-- The packets sent went to addresses of their targets, and so will the one in hand. -/
def Addressed (r : TrojanUdp) : Prop :=
  (∀ p ∈ r.sent, Resolves p.1.1 p.2) ∧ ∀ pkt addr, r.up = .sending pkt addr → Resolves pkt.1 addr

theorem Addressed.step (h : Addressed r) (hstep : TrojanStep r a r') : Addressed r' := by
  obtain ⟨hsent, hup⟩ := h
  cases hstep with
  | resolved addr hrun hup' haddr =>
    refine ⟨hsent, fun pkt addr' h => ?_⟩
    obtain ⟨rfl, rfl⟩ := TrojanUp.sending.inj h
    exact haddr
  | @sent pkt addr hrun hup' =>
    refine ⟨fun p hp => ?_, fun pkt addr h => by cases h⟩
    rcases List.mem_append.mp hp with hp | hp
    · exact hsent p hp
    · rw [List.mem_singleton.mp hp]
      exact hup pkt addr hup'
  | write n =>
    unfold onWrite
    split
    · exact ⟨hsent, hup⟩
    · exact ⟨hsent, hup⟩
  | opened | frame => exact ⟨hsent, fun pkt addr h => by cases h⟩
  | _ => exact ⟨hsent, hup⟩

theorem addressed_of_run {trace : List (TrojanAct × TrojanUdp)}
    (hrun : Run TrojanStep (relayTrojanUdp conn leftover counter) trace r) : Addressed r :=
  hrun.invariant ⟨by simp [relayTrojanUdp],
    fun pkt addr h => by cases h⟩ fun _ _ _ h hstep => h.step hstep

end Runs

end TrojanUdp

/-! ## `freedom_udp` -/

/-- The packet taken off the link and not sent. -/
def EgressSend.held : EgressSend → List UdpPacket
  | .binding | .receiving => []
  | .resolving pkt | .sending pkt => [pkt]

/-- `freedom_udp`, its half of the link, and the packets that are still to be put on it by
the other half. -/
structure UdpEgress where
  relay : FreedomUdp
  link : UdpLink
  coming : List UdpPacket

namespace UdpEgress

/-- The relay at its start, with the packets that will come. -/
def start (cap : Nat) (pkts : List UdpPacket) : UdpEgress :=
    ⟨.start, ⟨.new _ cap, .new _ cap⟩, pkts⟩

end UdpEgress

/-- The moves: those of the relay, and those of the other half of the link: it puts a packet
on, drops its sender behind the last, and takes an answer off. -/
inductive UdpEgressAct
  | relay (a : FreedomAct)
  | arrive
  | close
  | drain
  deriving DecidableEq

/-- One step of the relay or of the other half. -/
inductive UdpEgressStep (s : UdpEgress) : UdpEgressAct → UdpEgress → Prop
  | relay {a : FreedomAct} {e : FreedomUdp} {l : UdpLink}
      (hstep : FreedomStep s.relay s.link a e l) :
      UdpEgressStep s (.relay a) { s with relay := e, link := l }
  | arrive {pkt : UdpPacket} {rest : List UdpPacket} (hcoming : s.coming = pkt :: rest)
      (hroom : s.link.reader.CanSend) :
      UdpEgressStep s .arrive { s with
        link := { s.link with reader := s.link.reader.push pkt }
        coming := rest }
  | close (hcoming : s.coming = []) :
      UdpEgressStep s .close { s with link := { s.link with reader := s.link.reader.dropTx } }
  | drain {pkt : UdpPacket} {q : List UdpPacket} (hpkt : s.link.writer.CanRecv pkt q) :
      UdpEgressStep s .drain { s with link := { s.link with writer := s.link.writer.pop pkt q } }

namespace UdpEgress

/-- The step goes as the packets' outcomes say: an error is that of a packet in hand. -/
def Agrees (ds : List (UdpPacket × Bool)) (s : UdpEgress) : UdpEgressAct → Prop
  | .relay .sent => ds[s.relay.sent.length]?.map Prod.snd = some true
  | .relay .error => s.relay.send.held ≠ [] ∧ ds[s.relay.sent.length]?.map Prod.snd = some false
  | _ => True

/-- Neither the timer nor the end of the other half's receiver. -/
def Calm : UdpEgressAct → Prop
  | .relay .idle | .relay .refused => False
  | _ => True

/-- What a run keeps, as for `relay_trojan_udp`. -/
def Inv (ds : List (UdpPacket × Bool)) (calm : Prop) (s : UdpEgress) : Prop :=
  ∃ done todo, Sent ds done todo s.relay.sent ∧
    (s.relay.result = none →
      todo.map Prod.fst = s.relay.send.held ++ (s.link.reader.queue ++ s.coming) ∧
      (s.link.reader.txAlive = false → s.coming = [])) ∧
    (s.relay.result ≠ none → calm → ∀ d ∈ todo.head?, d.2 = false)

section Runs

variable {ds : List (UdpPacket × Bool)} {calm : Prop} {s s' : UdpEgress} {a : UdpEgressAct}

theorem Inv.start (cap : Nat) (ds : List (UdpPacket × Bool)) :
    Inv ds calm (.start cap (ds.map Prod.fst)) :=
  ⟨[], ds, .start ds, fun _ => ⟨rfl, fun h => by cases h⟩, fun hrun => absurd rfl hrun⟩

/-- What the invariant looks at. -/
theorem Inv.frame (h : Inv ds calm s) (hsent : s'.relay.sent = s.relay.sent)
    (hresult : s'.relay.result = s.relay.result)
    (hpkts : s'.relay.send.held ++ (s'.link.reader.queue ++ s'.coming) =
      s.relay.send.held ++ (s.link.reader.queue ++ s.coming))
    (hclosed : (s.link.reader.txAlive = false → s.coming = []) → s'.link.reader.txAlive = false →
      s'.coming = []) : Inv ds calm s' := by
  obtain ⟨done, todo, hdone, hrest, hover⟩ := h
  rw [← hsent] at hdone
  rw [← hresult] at hrest hover
  refine ⟨done, todo, hdone, fun hrun => ?_, hover⟩
  obtain ⟨htodo, hend⟩ := hrest hrun
  exact ⟨htodo.trans hpkts.symm, hclosed hend⟩

/-- The relay ends. -/
theorem Inv.over (h : Inv ds calm s) (hrun : s.relay.result = none)
    {result : Except IoError Unit} {l : UdpLink}
    (hend : calm → ∀ done todo, Sent ds done todo s.relay.sent →
      todo.map Prod.fst = s.relay.send.held ++ (s.link.reader.queue ++ s.coming) →
      (s.link.reader.txAlive = false → s.coming = []) → ∀ d ∈ todo.head?, d.2 = false) :
    Inv ds calm { s with relay := s.relay.ret result, link := l } := by
  obtain ⟨done, todo, hdone, hrest, -⟩ := h
  obtain ⟨htodo, hclosed⟩ := hrest hrun
  exact ⟨done, todo, hdone, fun hnone => absurd hnone (Option.some_ne_none _),
    fun _ hcalm => hend hcalm done todo hdone htodo hclosed⟩

/-- It ends at the packet in hand. -/
theorem Inv.failed (h : Inv ds calm s) (hrun : s.relay.result = none)
    {result : Except IoError Unit} {l : UdpLink}
    (hagree : Agrees ds s (.relay .error)) :
    Inv ds calm { s with relay := s.relay.ret result, link := l } := by
  refine h.over hrun fun _ done todo hdone htodo _ => ?_
  obtain ⟨hheld, hfail⟩ := hagree
  cases todo with
  | nil =>
    rw [List.map_nil, List.nil_eq, List.append_eq_nil_iff] at htodo
    exact absurd htodo.1 hheld
  | cons d todo =>
    rw [hdone.next] at hfail
    rintro d' hd'
    obtain rfl := Option.some.inj hd'
    exact Option.some.inj hfail

theorem Inv.step (h : Inv ds calm s) (hstep : UdpEgressStep s a s') (hagree : Agrees ds s a)
    (hcalm : calm → Calm a) : Inv ds calm s' := by
  cases hstep with
  | relay hstep =>
    cases hstep with
    | bound hrun hsend => exact h.frame rfl rfl (by rw [hsend]; rfl) id
    | @take pkt q hrun hsend hpkt =>
      refine h.frame rfl rfl ?_ id
      rw [hsend, hpkt.2]
      rfl
    | resolved hrun hsend => exact h.frame rfl rfl (by rw [hsend]; rfl) id
    | @sent pkt hrun hsend =>
      obtain ⟨done, todo, hdone, hrest, -⟩ := h
      obtain ⟨htodo, hclosed⟩ := hrest hrun
      rw [hsend, EgressSend.held, List.singleton_append] at htodo
      obtain ⟨d, todo, rfl, rfl, htail⟩ := List.map_eq_cons_iff.mp htodo
      rw [Agrees, hdone.next] at hagree
      exact ⟨done ++ [d], todo, hdone.snoc (Option.some.inj hagree), fun _ => ⟨htail, hclosed⟩,
        fun hne => absurd hrun hne⟩
    | recv pkt hrun hopen hrecv => exact h.frame rfl rfl rfl id
    | deliver hrun hrecv hroom => exact h.frame rfl rfl rfl id
    | linkEnd hrun hsend hend =>
      refine h.over hrun fun _ done todo _ htodo hclosed => ?_
      rw [hsend, hend.2, hclosed hend.1] at htodo
      rw [List.map_eq_nil_iff.mp htodo]
      simp
    | bindError err hrun | resolveError err hrun | sendError err hrun | recvError err hrun =>
      exact h.failed hrun hagree
    | refused hrun | idle hrun => exact h.over hrun fun hc => absurd (hcalm hc) id
  | @arrive pkt rest hcoming hroom =>
    refine h.frame rfl rfl ?_ fun _ hclosed => ?_
    · rw [hcoming]
      show _ ++ ((s.link.reader.queue ++ [pkt]) ++ rest) = _
      rw [List.append_assoc, List.singleton_append]
    · cases hroom.1.symm.trans hclosed
  | close hcoming => exact h.frame rfl rfl rfl fun _ _ => hcoming
  | drain hpkt => exact h.frame rfl rfl rfl id

/-- **What every run keeps.** -/
theorem Inv.run {trace : List (UdpEgressAct × UdpEgress)} (h : Inv ds calm s)
    (hrun : Run UdpEgressStep s trace s') (hagree : Meets (Agrees ds) s trace)
    (hcalm : calm → ∀ p ∈ trace, Calm p.1) : Inv ds calm s' := by
  have hmeets := hagree.and (.of_forall (calm → Calm ·) fun p hp hc => hcalm hc p hp)
  exact hrun.invariant_of_meets h hmeets fun _ _ _ hguard h hstep => h.step hstep hguard.1 hguard.2

end Runs

end UdpEgress

/-! ## Both relays -/

/-- **A datagram that cannot be sent ends the relay.**  Whatever becomes of each datagram,
`relay_trojan_udp` and `freedom_udp` send those that can be sent in order, none twice and
none left out among those in front.  Where neither the timer nor another error has ended
them, they have sent all of them if and only if none comes behind one that cannot be
sent. -/
theorem sendable_sent_iff (conn : Conn) (leftover : Bytes) (counter : Option Counter)
    (ds : List ((Destination × Bytes) × Bool)) (cap : Nat) (pkts : List (UdpPacket × Bool)) :
    (∀ (trace : List (TrojanAct × TrojanUdp)) (r : TrojanUdp),
      TrojanUdp.Stream (leftover ++ conn.unread) ds →
      Run TrojanStep (.relayTrojanUdp conn leftover counter) trace r →
      Meets (TrojanUdp.Agrees ds) (.relayTrojanUdp conn leftover counter) trace →
      r.sent.map Prod.fst <+: sendable ds ∧ (∀ p ∈ r.sent, Resolves p.1.1 p.2) ∧
        (r.result ≠ none → (∀ p ∈ trace, TrojanUdp.Calm p.1) →
          (r.sent.map Prod.fst = sendable ds ↔ FailuresLast ds))) ∧
    ∀ (trace : List (UdpEgressAct × UdpEgress)) (s : UdpEgress),
      Run UdpEgressStep (.start cap (pkts.map Prod.fst)) trace s →
      Meets (UdpEgress.Agrees pkts) (.start cap (pkts.map Prod.fst)) trace →
      s.relay.sent <+: sendable pkts ∧
        (s.relay.result ≠ none → (∀ p ∈ trace, UdpEgress.Calm p.1) →
          (s.relay.sent = sendable pkts ↔ FailuresLast pkts)) := by
  constructor
  · intro trace r hstream hrun hagree
    have hstart : TrojanUdp.Inv ds (∀ p ∈ trace, TrojanUdp.Calm p.1) _ := .start hstream counter
    obtain ⟨done, todo, hdone, -, hover⟩ := hstart.run hrun hagree id
    exact ⟨hdone.isPrefix, (TrojanUdp.addressed_of_run hrun).1,
      fun hend hcalm => hdone.sendable_iff (hover hend hcalm)⟩
  · intro trace s hrun hagree
    have hstart : UdpEgress.Inv pkts (∀ p ∈ trace, UdpEgress.Calm p.1) _ := .start cap pkts
    obtain ⟨done, todo, hdone, -, hover⟩ := hstart.run hrun hagree id
    exact ⟨hdone.isPrefix, fun hend hcalm => hdone.sendable_iff (hover hend hcalm)⟩

/-- A packet for an address, and its bytes. -/
def plainPacket : Destination × Bytes := (.udp (.ip targetAddr.ip) 53, [7])

def plainBytes : Bytes := [1, 10, 0, 0, 5, 0, 53, 0, 1, 13, 10, 7]

/-- One for a name, and its bytes. -/
def namedPacket : Destination × Bytes := (.udp (.domain "x") 53, [8])

def namedBytes : Bytes := [3, 1, 0x78, 0, 53, 0, 1, 13, 10, 8]

theorem parse_plainBytes : parseTrojanPacket.run plainBytes = .ok (plainPacket, []) := rfl

theorem parse_namedBytes : parseTrojanPacket.run namedBytes = .ok (namedPacket, []) := rfl

/-- Packets in a row. -/
theorem TrojanUdp.Stream.of_items (items : List (Bytes × Destination × Bytes))
    {ds : List ((Destination × Bytes) × Bool)}
      (h : ∀ i ∈ items, parseTrojanPacket.run i.1 = .ok (i.2, []))
    (hds : items.map Prod.snd = ds.map Prod.fst) : Stream (items.map Prod.fst).flatten ds := by
  refine ⟨items, .eof, [], .of_items rfl fun i hi more => ?_, hds⟩
  exact incremental_parseTrojanPacket.ok_append (h i hi) more

/-- What the resolver says of an unknown name. -/
def unknownName : IoError := ⟨.other, .msg "no such name"⟩

/-- The last packet cannot be sent: the one before it has been. -/
theorem sendable_sent_iff_last :
    (∃ trace r, Run TrojanStep (.relayTrojanUdp (.new []) (plainBytes ++ namedBytes) none) trace r ∧
      r.result ≠ none ∧
        r.sent.map Prod.fst = sendable [(plainPacket, true), (namedPacket, false)]) ∧
    ∃ trace s, Run UdpEgressStep (.start 1 [⟨[7], plainPacket.1⟩, ⟨[8], namedPacket.1⟩]) trace s ∧
      s.relay.result ≠ none ∧
      s.relay.sent = sendable [(⟨[7], plainPacket.1⟩, true), (⟨[8], namedPacket.1⟩, false)] := by
  constructor
  · have hstream :
      TrojanUdp.Stream (plainBytes ++ namedBytes) [(plainPacket, true), (namedPacket, false)] :=
      TrojanUdp.Stream.of_items [(plainBytes, plainPacket), (namedBytes, namedPacket)]
        (by simp [parse_plainBytes, parse_namedBytes]) rfl
    have hrun : Run TrojanStep (.relayTrojanUdp (.new []) (plainBytes ++ namedBytes) none) _ _ :=
      .cons (.opened rfl rfl)
      (.cons (.frame rfl rfl (incremental_parseTrojanPacket.ok_append parse_plainBytes namedBytes))
      (.cons (.resolved targetAddr rfl rfl (resolves_ip rfl rfl))
      (.cons (.sent rfl rfl)
      (.cons (.frame rfl rfl parse_namedBytes)
      (.cons (.resolveError unknownName rfl rfl rfl)
      (.nil _))))))
    have hsent := (sendable_sent_iff (.new []) (plainBytes ++ namedBytes) none
      [(plainPacket, true), (namedPacket, false)] 1 []).1 _ _ hstream hrun
      ⟨trivial, trivial, trivial, rfl, trivial, rfl, trivial⟩
    refine ⟨_, _, hrun, Option.some_ne_none _, (hsent.2.2 (Option.some_ne_none _) ?_).mpr ?_⟩
    · simp [TrojanUdp.Calm]
    · simp [FailuresLast]
  · have hrun : Run UdpEgressStep (.start 1 [⟨[7], plainPacket.1⟩, ⟨[8], namedPacket.1⟩]) _ _ :=
      .cons (.relay (.bound rfl rfl))
      (.cons (.arrive rfl ⟨rfl, rfl, by decide⟩)
      (.cons (.relay (.take rfl rfl ⟨rfl, rfl⟩))
      (.cons (.relay (.resolved rfl rfl))
      (.cons (.relay (.sent rfl rfl))
      (.cons (.arrive rfl ⟨rfl, rfl, by decide⟩)
      (.cons (.relay (.take rfl rfl ⟨rfl, rfl⟩))
      (.cons (.relay (.resolveError unknownName rfl rfl rfl))
      (.nil _))))))))
    have hsent := (sendable_sent_iff (.new []) [] none [] 1
      [(⟨[7], plainPacket.1⟩, true), (⟨[8], namedPacket.1⟩, false)]).2 _ _ hrun
      ⟨trivial, trivial, trivial, trivial, rfl, trivial, trivial,
        ⟨List.cons_ne_nil _ _, rfl⟩, trivial⟩
    refine ⟨_, _, hrun, Option.some_ne_none _, (hsent.2 (Option.some_ne_none _) ?_).mpr ?_⟩
    · simp [UdpEgress.Calm]
    · simp [FailuresLast]

/-- **Not all that can be sent is sent.**  Behind a packet for an unknown name, one for an
address is lost, on either relay. -/
theorem sendable_lost :
    (∃ trace r,
      TrojanUdp.Stream (namedBytes ++ plainBytes) [(namedPacket, false), (plainPacket, true)] ∧
      Run TrojanStep (.relayTrojanUdp (.new []) (namedBytes ++ plainBytes) none) trace r ∧
      Meets (TrojanUdp.Agrees [(namedPacket, false), (plainPacket, true)])
        (.relayTrojanUdp (.new []) (namedBytes ++ plainBytes) none) trace ∧
      (∀ p ∈ trace, TrojanUdp.Calm p.1) ∧ r.result = some (.error unknownName) ∧ r.sent = [] ∧
      sendable [(namedPacket, false), (plainPacket, true)] = [plainPacket]) ∧
    ∃ trace s, Run UdpEgressStep (.start 2 [⟨[8], namedPacket.1⟩, ⟨[7], plainPacket.1⟩]) trace s ∧
      Meets (UdpEgress.Agrees [(⟨[8], namedPacket.1⟩, false), (⟨[7], plainPacket.1⟩, true)])
        (.start 2 [⟨[8], namedPacket.1⟩, ⟨[7], plainPacket.1⟩]) trace ∧
      (∀ p ∈ trace, UdpEgress.Calm p.1) ∧
        s.relay.result = some (.error unknownName) ∧ s.relay.sent = [] ∧
      s.coming = [] := by
  constructor
  · refine ⟨_, _, TrojanUdp.Stream.of_items [(namedBytes, namedPacket), (plainBytes, plainPacket)]
      (by simp [parse_plainBytes, parse_namedBytes]) rfl,
      .cons (.opened rfl rfl)
      (.cons (.frame rfl rfl (incremental_parseTrojanPacket.ok_append parse_namedBytes plainBytes))
      (.cons (.resolveError unknownName rfl rfl rfl)
      (.nil _))), ⟨trivial, trivial, rfl, trivial⟩, ?_, rfl, rfl, rfl⟩
    simp [TrojanUdp.Calm]
  · refine ⟨_, _,
      .cons (.relay (.bound rfl rfl))
      (.cons (.arrive rfl ⟨rfl, rfl, by decide⟩)
      (.cons (.arrive rfl ⟨rfl, rfl, by decide⟩)
      (.cons (.relay (.take rfl rfl ⟨rfl, rfl⟩))
      (.cons (.relay (.resolveError unknownName rfl rfl rfl))
      (.nil _))))), ⟨trivial, trivial, trivial, trivial, ⟨List.cons_ne_nil _ _, rfl⟩,
        trivial⟩, ?_, rfl, rfl, rfl⟩
    simp [UdpEgress.Calm]

end XrayRs
