import Mathlib.Data.List.Nodup
import XrayRs.BoundedChannel
import XrayRs.GrpcPaths
import XrayRs.ServiceTree
import XrayRs.StepSystem
import XrayRs.WsAccept

/-! # From the listener to the proxy

The way of a connection above the proxy: the accept loops (`app/src/instance.rs`,
`saas/src/inbound_manager.rs`), `TransportService::call` (`kernel/src/runtime/tree.rs`),
`accept_conn` (`transport/src/lib.rs`), and for gRPC the accept task of a carrier,
`grpc::serve` with `accept_request` (`transport/src/grpc.rs`), which hands its streams
over through a bounded channel.

All tasks of a process run side by side, in any order.  A carrier's accepted streams are
the flows that were begun, those that wait in its channel and the one that its task is
sending, in this order, at every moment (`carrier_loses_nothing`); and they are all begun
without any flow making progress (`carrier_drains`). -/

namespace XrayRs.Listener

open BoundedChannel StepSystem Grpc

/-! ## The services -/

/-- `SocketAddr`. -/
abbrev SocketAddr := IpAddr × UInt16

/-- `Security`. -/
inductive Security
  | none
  | tls
  deriving DecidableEq

/-- `TransportKind`. -/
inductive TransportKind
  | raw
  | ws
  | httpUpgrade
  | grpc (serviceName : String)
  deriving DecidableEq

/-- `StreamConfig`. -/
structure StreamConfig where
  security : Security
  transport : TransportKind
  deriving DecidableEq

/-- `StreamTransport`. -/
structure StreamTransport where
  cfg : StreamConfig
  listen : SocketAddr
  deriving DecidableEq

/-- `TransportService`, without its proxy child. -/
structure TransportService where
  transport : StreamTransport
  tag : String
  deriving DecidableEq

/-- `Ctx`, with the fields that nothing below the proxy reads. -/
structure SessionCtx extends Ctx where
  id : UInt64
  inboundTag : String
  localAddr : Option SocketAddr
  deriving DecidableEq

/-- `Ctx::new`, with the number that `NEXT_ID` gives. -/
def SessionCtx.new (id : UInt64) (inboundTag : String) (source : Option SocketAddr) : SessionCtx :=
  ⟨⟨source, none, none⟩, id, inboundTag, none⟩

/-- `mk_ctx` in `TransportService::call`. -/
def TransportService.mkCtx (service : TransportService) (source : Option SocketAddr)
    (id : UInt64) : SessionCtx :=
  { SessionCtx.new id service.tag source with localAddr := some service.transport.listen }

/-! ## Requests of a carrier -/

variable {S : Type}

/-- A request of an HTTP/2 connection: what `accept_request` reads of it, whether the
response can be sent, and the stream that is then made of its body and the response. -/
structure Request (S : Type) where
  method : String
  path : Bytes
  contentType : Option Bytes
  responds : Bool
  stream : S
  deriving DecidableEq

/-- Why a request is refused. -/
inductive Refusal
  | invalidData (msg : String)
  | response
  deriving DecidableEq

section
variable (encode : (UInt8 → Bool) → Bytes → Bytes)

/-- `accept_request`. -/
def acceptRequest (service : String) (req : Request S) : Except Refusal S :=
  if req.method ≠ "POST" then .error (.invalidData "grpc: expected POST")
  else if !pathMatches encode req.path service then
    .error (.invalidData "grpc: unexpected path")
  else if req.contentType.any fun ct =>
      !((Ws.headerToStr ct).map (asBytes "application/grpc").isPrefixOf).getD false then
    .error (.invalidData "grpc: unexpected content-type")
  else if !req.responds then .error .response
  else .ok req.stream

/-- The transport gives many streams for one connection. -/
def TransportService.Carries (service : TransportService) : Prop :=
  ∃ name, service.transport.cfg.transport = .grpc name

/-- The stream of a request, if the service's transport accepts it. -/
def TransportService.streamOf (service : TransportService) (req : Request S) : Option S :=
  match service.transport.cfg.transport with
  | .grpc name => (acceptRequest encode name req).toOption
  | .raw | .ws | .httpUpgrade => none

end

/-! ## Connections -/

/-- `STREAM_CHANNEL_CAP`. -/
def streamChannelCap : Nat := 256

/-- Where `TransportService::call` is. -/
inductive Call
  | framing
  | proxying
  | carrying
  | returned (r : Except IoError Unit)

/-- Where the task of `grpc::serve` is. -/
inductive Serve (S : Type)
  | accepting
  | sending (stream : S)
  | ended

/-- The stream that the task is sending. -/
def Serve.held : Serve S → List S
  | .sending stream => [stream]
  | .accepting | .ended => []

/-- An accepted connection with the tasks that serve it, the requests that came on it and
those that were reset. -/
structure Connection (S : Type) where
  service : TransportService
  source : Option SocketAddr
  call : Call
  serve : Serve S
  chan : Chan S
  requests : List (Request S)
  resets : List (Request S)

namespace Connection

/-- A connection just accepted.  Without a carrier there is no task, and no channel. -/
def new (service : TransportService) (source : Option SocketAddr) : Connection S :=
  ⟨service, source, .framing, .ended, (Chan.new S streamChannelCap).dropTx, [], []⟩

/-- The rest of `grpc::serve` for one request. -/
def answer (encode : (UInt8 → Bool) → Bytes → Bytes) (c : Connection S) (req : Request S) :
    Connection S :=
  match c.service.streamOf encode req with
  | some stream => { c with requests := c.requests ++ [req], serve := .sending stream }
  | none => { c with requests := c.requests ++ [req], resets := c.resets ++ [req] }

/-- The streams accepted so far. -/
def accepted (encode : (UInt8 → Bool) → Bytes → Bytes) (c : Connection S) : List S :=
  c.requests.filterMap (c.service.streamOf encode)

/-- The streams accepted whose flow has not begun. -/
def waiting (c : Connection S) : List S := c.chan.queue ++ c.serve.held

end Connection

/-! ## The process -/

/-- A flow handed to the proxy. -/
structure Flow (S : Type) where
  conn : Nat
  ctx : SessionCtx
  stream : S

/-- The connections, the flows in the order in which they began, the results of those that
have ended, and how many contexts `NEXT_ID` has numbered. -/
structure Process (S : Type) where
  conns : Nat → Option (Connection S)
  flows : List (Flow S)
  results : Nat → Option (Except IoError Unit)
  made : Nat

namespace Process

def start : Process S := ⟨fun _ => none, [], fun _ => none, 0⟩

def put (p : Process S) (k : Nat) (c : Connection S) : Process S :=
  { p with conns := Function.update p.conns k (some c) }

/-- The context of the next flow of a connection.  `NEXT_ID` starts at 1 and wraps. -/
def nextCtx (p : Process S) (c : Connection S) : SessionCtx :=
  c.service.mkCtx c.source (UInt64.ofNat (p.made + 1))

/-- Hand a stream of a connection to the proxy. -/
def begin (p : Process S) (k : Nat) (c : Connection S) (stream : S) : Process S :=
  { p with flows := p.flows ++ [⟨k, p.nextCtx c, stream⟩], made := p.made + 1 }

/-- The proxy has returned for a flow.  The call of a single stream returns with it. -/
def finish (p : Process S) (n : Nat) (f : Flow S) (r : Except IoError Unit) : Process S :=
  { p with
    results := Function.update p.results n (some r)
    conns := fun k => (p.conns k).map fun c =>
      match c.call with
      | .proxying => if k = f.conn then { c with call := .returned r } else c
      | .framing | .carrying | .returned _ => c }

/-- The flows of a connection. -/
def flowsOf (p : Process S) (k : Nat) : List (Flow S) := p.flows.filter (·.conn = k)

/-- Their streams. -/
def streamsOf (p : Process S) (k : Nat) : List S := (p.flowsOf k).map Flow.stream

end Process

/-- What happens next, and to which connection. -/
inductive Act (S : Type)
  | accept (k : Nat) (service : TransportService) (source : Option SocketAddr)
  | frameFailed (k : Nat) (e : IoError)
  | single (k : Nat) (stream : S)
  | multiplexed (k : Nat)
  | request (k : Nat) (req : Request S)
  | closed (k : Nat)
  | send (k : Nat)
  | sendFailed (k : Nat)
  | recv (k : Nat)
  | recvEnd (k : Nat)
  | flowEnded (n : Nat) (r : Except IoError Unit)
  | otherCtx

/-- A step of any task of the process, or of its peers. -/
inductive Step (encode : (UInt8 → Bool) → Bytes → Bytes) :
    Process S → Act S → Process S → Prop
  /-- An accept loop spawns the call for a new connection. -/
  | accept {p k} (service : TransportService) (source : Option SocketAddr)
      (hnew : p.conns k = none) :
      Step encode p (.accept k service source) (p.put k (.new service source))
  /-- TLS, or the handshake of the transport, fails. -/
  | frameFailed {p k c} (e : IoError) (hconn : p.conns k = some c) (hcall : c.call = .framing)
      (hfail : c.service.transport.cfg ≠ ⟨.none, .raw⟩) :
      Step encode p (.frameFailed k e) (p.put k { c with call := .returned (.error e) })
  /-- `Accepted::Single`: the call goes on in the proxy. -/
  | single {p k c} (stream : S) (hconn : p.conns k = some c) (hcall : c.call = .framing)
      (hkind : ¬ c.service.Carries) :
      Step encode p (.single k stream) ((p.begin k c stream).put k { c with call := .proxying })
  /-- `Accepted::Multiplexed`: the carrier's task is spawned, with a new channel. -/
  | multiplexed {p k c} (hconn : p.conns k = some c) (hcall : c.call = .framing)
      (hkind : c.service.Carries) :
      Step encode p (.multiplexed k) (p.put k
        { c with call := .carrying, serve := .accepting, chan := Chan.new S streamChannelCap })
  | request {p k c} (req : Request S) (hconn : p.conns k = some c) (hserve : c.serve = .accepting) :
      Step encode p (.request k req) (p.put k (c.answer encode req))
  /-- `conn.accept()` gives an error or the end. -/
  | closed {p k c} (hconn : p.conns k = some c) (hserve : c.serve = .accepting) :
      Step encode p (.closed k) (p.put k { c with serve := .ended, chan := c.chan.dropTx })
  | send {p k c} {stream : S} (hconn : p.conns k = some c) (hserve : c.serve = .sending stream)
      (hsend : c.chan.CanSend) :
      Step encode p (.send k) (p.put k { c with serve := .accepting, chan := c.chan.push stream })
  | sendFailed {p k c} {stream : S} (hconn : p.conns k = some c)
      (hserve : c.serve = .sending stream) (hrefuses : c.chan.Refuses) :
      Step encode p (.sendFailed k) (p.put k { c with serve := .ended, chan := c.chan.dropTx })
  /-- The call takes a stream off the channel and spawns its flow. -/
  | recv {p k c} {stream : S} {q : List S} (hconn : p.conns k = some c) (hcall : c.call = .carrying)
      (hrecv : c.chan.CanRecv stream q) :
      Step encode p (.recv k) ((p.begin k c stream).put k { c with chan := c.chan.pop stream q })
  | recvEnd {p k c} (hconn : p.conns k = some c) (hcall : c.call = .carrying)
      (hended : c.chan.Ended) :
      Step encode p (.recvEnd k) (p.put k
        { c with call := .returned (.ok ()), chan := c.chan.dropRx })
  | flowEnded {p n f} (r : Except IoError Unit) (hflow : p.flows[n]? = some f)
      (hopen : p.results n = none) : Step encode p (.flowEnded n r) (p.finish n f r)
  /-- `Ctx::new` elsewhere in the process, for a UDP socket. -/
  | otherCtx {p} : Step encode p .otherCtx { p with made := p.made + 1 }

/-! ## What a step leaves of a connection's flows -/

section Flows

variable {p : Process S} {k j : Nat} {c d : Connection S} {stream : S}

@[simp] theorem flowsOf_put : (p.put k c).flowsOf j = p.flowsOf j := rfl

@[simp] theorem conns_put_self : (p.put k c).conns k = some c := Function.update_self ..

theorem conns_put_ne (h : j ≠ k) : (p.put k c).conns j = p.conns j := Function.update_of_ne h ..

@[simp] theorem flowsOf_begin_self :
    (p.begin k c stream).flowsOf k = p.flowsOf k ++ [⟨k, p.nextCtx c, stream⟩] := by
  simp [Process.flowsOf, Process.begin]

theorem flowsOf_begin_ne (h : j ≠ k) : (p.begin k c stream).flowsOf j = p.flowsOf j := by
  simp [Process.flowsOf, Process.begin, Ne.symm h]

@[simp] theorem flowsOf_finish {n : Nat} {f : Flow S} {r : Except IoError Unit} :
    (p.finish n f r).flowsOf k = p.flowsOf k := rfl

end Flows

/-! ## The invariant -/

variable {encode : (UInt8 → Bool) → Bytes → Bytes}

/-- Where a call is, what its carrier's task and channel are. -/
inductive Connection.Phase (c : Connection S) : List S → Prop
  | framing : c.call = .framing → c.serve = .ended → c.chan.queue = [] → c.requests = [] → Phase c []
  | failed {e : IoError} : c.call = .returned (.error e) → c.serve = .ended → c.chan.queue = [] →
      c.requests = [] → Phase c []
  | single {stream : S} : c.call = .proxying ∨ (∃ r, c.call = .returned r) → c.serve = .ended →
      c.chan.queue = [] → c.requests = [] →
      ¬ c.service.Carries → Phase c [stream]
  | carrying {streams : List S} : c.call = .carrying → c.chan.rxAlive = true →
      (c.chan.txAlive = true ↔ c.serve ≠ .ended) → c.chan.cap = streamChannelCap →
      c.service.Carries → Phase c streams
  | carried {streams : List S} : c.call = .returned (.ok ()) → c.serve = .ended →
      c.chan.queue = [] → c.service.Carries → Phase c streams

/-- What holds of a connection and its flows. -/
structure Connection.Good (encode : (UInt8 → Bool) → Bytes → Bytes) (c : Connection S)
    (flows : List (Flow S)) : Prop where
  ctx : ∀ f ∈ flows, ∃ id, f.ctx = c.service.mkCtx c.source id
  phase : c.Phase (flows.map Flow.stream)
  streams : c.service.Carries → flows.map Flow.stream ++ c.waiting = c.accepted encode
  resets : c.resets = c.requests.filter fun req => (c.service.streamOf encode req).isNone
  room : c.chan.queue.length ≤ streamChannelCap

/-- The invariant of the process. -/
structure Good (encode : (UInt8 → Bool) → Bytes → Bytes) (p : Process S) : Prop where
  conns : ∀ k c, p.conns k = some c → c.Good encode (p.flowsOf k)
  fresh : ∀ k, p.conns k = none → p.flowsOf k = []
  numbered : ∃ numbers : List Nat, p.flows.map (·.ctx.id) = numbers.map (fun m => UInt64.ofNat (m + 1)) ∧
    numbers.Pairwise (· < ·) ∧ ∀ m ∈ numbers, m < p.made

theorem Connection.Phase.carrying_of_serve {c : Connection S} {streams : List S}
    (h : c.Phase streams) (hserve : c.serve ≠ .ended) :
    c.call = .carrying ∧ c.chan.rxAlive = true ∧ c.chan.txAlive = true ∧
      c.chan.cap = streamChannelCap ∧ c.service.Carries := by
  cases h with
  | framing _ hended | failed _ hended | single _ hended | carried _ hended =>
    exact absurd hended hserve
  | carrying hcall hrx htx hcap hkind => exact ⟨hcall, hrx, htx.mpr hserve, hcap, hkind⟩

theorem Connection.Phase.of_framing {c : Connection S} {streams : List S} (h : c.Phase streams)
    (hcall : c.call = .framing) :
    streams = [] ∧ c.serve = .ended ∧ c.chan.queue = [] ∧ c.requests = [] := by
  cases h with
  | framing _ hserve hqueue hrequests => exact ⟨rfl, hserve, hqueue, hrequests⟩
  | failed hcall' | carried hcall' | carrying hcall' =>
    rw [hcall] at hcall'
    cases hcall'
  | single hcall' =>
    rw [hcall] at hcall'
    rcases hcall' with hcall' | ⟨r, hcall'⟩ <;> cases hcall'

theorem Connection.Phase.of_carrying {c : Connection S} {streams : List S} (h : c.Phase streams)
    (hcall : c.call = .carrying) :
    c.chan.rxAlive = true ∧ (c.chan.txAlive = true ↔ c.serve ≠ .ended) ∧
      c.chan.cap = streamChannelCap ∧ c.service.Carries := by
  cases h with
  | carrying _ hrx htx hcap hkind => exact ⟨hrx, htx, hcap, hkind⟩
  | framing hcall' | failed hcall' | carried hcall' =>
    rw [hcall] at hcall'
    cases hcall'
  | single hcall' =>
    rw [hcall] at hcall'
    rcases hcall' with hcall' | ⟨r, hcall'⟩ <;> cases hcall'

/-! ## Each step keeps it -/

section Steps

variable {c : Connection S} {flows : List (Flow S)}

theorem good_new (service : TransportService) (source : Option SocketAddr) :
    (Connection.new service source : Connection S).Good encode [] :=
  ⟨nofun, .framing rfl rfl rfl rfl, fun _ => rfl, rfl, Nat.zero_le _⟩

theorem Connection.Good.frameFailed (h : c.Good encode flows) (hcall : c.call = .framing)
    (e : IoError) : ({ c with call := .returned (.error e) } : Connection S).Good encode flows := by
  obtain ⟨hnil, hserve, hqueue, hrequests⟩ := h.phase.of_framing hcall
  refine ⟨h.ctx, ?_, h.streams, h.resets, h.room⟩
  rw [hnil]
  exact .failed rfl hserve hqueue hrequests

theorem Connection.Good.single (h : c.Good encode flows) (hcall : c.call = .framing)
    (hkind : ¬ c.service.Carries) {f : Flow S}
    (hctx : ∃ id, f.ctx = c.service.mkCtx c.source id) :
    ({ c with call := .proxying } : Connection S).Good encode (flows ++ [f]) := by
  obtain ⟨hnil, hserve, hqueue, hrequests⟩ := h.phase.of_framing hcall
  refine ⟨?_, ?_, fun hcarries => absurd hcarries hkind, h.resets, h.room⟩
  · intro f' hf'
    rcases List.mem_append.mp hf' with hf' | hf'
    · exact h.ctx f' hf'
    · rw [List.mem_singleton.mp hf']
      exact hctx
  · rw [List.map_append, hnil]
    exact .single (.inl rfl) hserve hqueue hrequests hkind

theorem Connection.Good.multiplexed (h : c.Good encode flows) (hcall : c.call = .framing)
    (hkind : c.service.Carries) :
    ({ c with call := .carrying, serve := .accepting, chan := Chan.new S streamChannelCap } :
      Connection S).Good encode flows := by
  obtain ⟨hnil, -, -, hrequests⟩ := h.phase.of_framing hcall
  refine ⟨h.ctx, .carrying rfl rfl ⟨fun _ => nofun, fun _ => rfl⟩ rfl hkind, fun _ => ?_, h.resets,
    Nat.zero_le _⟩
  rw [hnil, Connection.accepted, hrequests]
  rfl

/-- **A request** is accepted, and its stream is held, or it is reset. -/
theorem Connection.Good.answer (h : c.Good encode flows) (hserve : c.serve = .accepting)
    (req : Request S) : (c.answer encode req).Good encode flows := by
  have hne : c.serve ≠ .ended := by
    rw [hserve]
    nofun
  obtain ⟨hcall, hrx, htx, hcap, hkind⟩ := h.phase.carrying_of_serve hne
  have hwaiting : c.waiting = c.chan.queue := by
    rw [Connection.waiting, hserve, Serve.held, List.append_nil]
  unfold Connection.answer
  cases hstream : c.service.streamOf encode req with
  | some stream =>
    refine ⟨h.ctx, .carrying hcall hrx ⟨fun _ => nofun, fun _ => htx⟩ hcap hkind, fun _ => ?_, ?_,
      h.room⟩
    · have hstreams := h.streams hkind
      rw [hwaiting] at hstreams
      show _ ++ (c.chan.queue ++ [stream]) = (c.requests ++ [req]).filterMap _
      rw [List.filterMap_append, List.filterMap_cons_some hstream, ← List.append_assoc, hstreams]
      rfl
    · simp [h.resets, hstream]
  | none =>
    refine ⟨h.ctx, .carrying hcall hrx ⟨fun _ => hne, fun _ => htx⟩ hcap hkind, fun _ => ?_, ?_,
      h.room⟩
    · rw [Connection.accepted, List.filterMap_append, List.filterMap_cons_none hstream,
        List.filterMap_nil, List.append_nil]
      exact h.streams hkind
    · simp [h.resets, hstream]

theorem Connection.Good.closed (h : c.Good encode flows) (hserve : c.serve = .accepting) :
    ({ c with serve := .ended, chan := c.chan.dropTx } : Connection S).Good encode flows := by
  have hne : c.serve ≠ .ended := by
    rw [hserve]
    nofun
  obtain ⟨hcall, hrx, -, hcap, hkind⟩ := h.phase.carrying_of_serve hne
  refine ⟨h.ctx, .carrying hcall hrx ⟨nofun, fun hne => absurd rfl hne⟩ hcap hkind, fun _ => ?_,
    h.resets, h.room⟩
  have hstreams := h.streams hkind
  rw [Connection.waiting, hserve] at hstreams
  exact hstreams

theorem Connection.Good.send (h : c.Good encode flows) {stream : S}
    (hserve : c.serve = .sending stream) (hsend : c.chan.CanSend) :
    ({ c with serve := .accepting, chan := c.chan.push stream } : Connection S).Good encode
      flows := by
  have hne : c.serve ≠ .ended := by
    rw [hserve]
    nofun
  obtain ⟨hcall, hrx, htx, hcap, hkind⟩ := h.phase.carrying_of_serve hne
  refine ⟨h.ctx, .carrying hcall hrx ⟨fun _ => nofun, fun _ => htx⟩ hcap hkind, fun _ => ?_,
    h.resets, ?_⟩
  · have hstreams := h.streams hkind
    rw [Connection.waiting, hserve] at hstreams
    show _ ++ (c.chan.queue ++ [stream] ++ []) = c.accepted encode
    rw [List.append_nil]
    exact hstreams
  · have hroom := hsend.2.2
    rw [hcap] at hroom
    show (c.chan.queue ++ [stream]).length ≤ streamChannelCap
    rw [List.length_append]
    exact hroom

/-- **A send is never refused**: the call holds the receiver until its task has ended. -/
theorem Connection.Good.not_refuses (h : c.Good encode flows) {stream : S}
    (hserve : c.serve = .sending stream) : ¬ c.chan.Refuses := by
  intro hrefuses
  have hne : c.serve ≠ .ended := by
    rw [hserve]
    nofun
  have hrx := (h.phase.carrying_of_serve hne).2.1
  rw [Chan.Refuses, hrx] at hrefuses
  cases hrefuses

theorem Connection.Good.recv (h : c.Good encode flows) (hcall : c.call = .carrying) {stream : S}
    {q : List S} (hrecv : c.chan.CanRecv stream q) {f : Flow S}
    (hctx : ∃ id, f.ctx = c.service.mkCtx c.source id) (hstream : f.stream = stream) :
    ({ c with chan := c.chan.pop stream q } : Connection S).Good encode (flows ++ [f]) := by
  obtain ⟨hrx, htx, hcap, hkind⟩ := h.phase.of_carrying hcall
  refine ⟨?_, .carrying hcall hrx htx hcap hkind, fun _ => ?_, h.resets, ?_⟩
  · intro f' hf'
    rcases List.mem_append.mp hf' with hf' | hf'
    · exact h.ctx f' hf'
    · rw [List.mem_singleton.mp hf']
      exact hctx
  · have hstreams := h.streams hkind
    rw [Connection.waiting, hrecv.2] at hstreams
    show (flows ++ [f]).map Flow.stream ++ (q ++ c.serve.held) = c.accepted encode
    rw [List.map_append, List.map_singleton, hstream, List.append_assoc]
    exact hstreams
  · have hroom := h.room
    rw [hrecv.2] at hroom
    exact Nat.le_of_succ_le hroom

theorem Connection.Good.recvEnd (h : c.Good encode flows) (hcall : c.call = .carrying)
    (hended : c.chan.Ended) :
    ({ c with call := .returned (.ok ()), chan := c.chan.dropRx } : Connection S).Good encode
      flows := by
  obtain ⟨-, htx, -, hkind⟩ := h.phase.of_carrying hcall
  have hserve : c.serve = .ended := by
    by_contra hne
    exact absurd (hended.1.symm.trans (htx.mpr hne)) (by decide)
  exact ⟨h.ctx, .carried rfl hserve hended.2 hkind, h.streams, h.resets, h.room⟩

theorem Connection.Good.finished (h : c.Good encode flows) (hcall : c.call = .proxying)
    (r : Except IoError Unit) :
    ({ c with call := .returned r } : Connection S).Good encode flows := by
  refine ⟨h.ctx, ?_, h.streams, h.resets, h.room⟩
  have hphase := h.phase
  generalize flows.map Flow.stream = streams at hphase ⊢
  cases hphase with
  | framing hcall' | failed hcall' | carrying hcall' | carried hcall' =>
    rw [hcall] at hcall'
    cases hcall'
  | single _ hserve hqueue hrequests hkind =>
    exact .single (.inr ⟨r, rfl⟩) hserve hqueue hrequests hkind

end Steps

section Process

variable {p q : Process S}

theorem good_start : Good encode (Process.start : Process S) := by
  refine ⟨?_, fun k _ => List.filter_nil, [], rfl, .nil, by simp⟩
  intro k c hconn
  exact absurd hconn (by simp [Process.start])

theorem Good.put (h : Good encode p) {k : Nat} {c : Connection S}
    (hc : c.Good encode (p.flowsOf k)) : Good encode (p.put k c) := by
  refine ⟨?_, ?_, h.numbered⟩
  · intro j d hd
    by_cases hj : j = k
    · subst hj
      rw [conns_put_self] at hd
      obtain rfl := Option.some.inj hd
      exact hc
    · rw [conns_put_ne hj] at hd
      exact h.conns j d hd
  · intro j hd
    by_cases hj : j = k
    · subst hj
      rw [conns_put_self] at hd
      cases hd
    · rw [conns_put_ne hj] at hd
      exact h.fresh j hd

/-- The next flow of a connection has the next number. -/
theorem Good.begin_put (h : Good encode p) {k : Nat} {c c' : Connection S} {stream : S}
    (hconn : p.conns k = some c)
    (hc : c'.Good encode (p.flowsOf k ++ [⟨k, p.nextCtx c, stream⟩])) :
    Good encode ((p.begin k c stream).put k c') := by
  have hother : ∀ j, j ≠ k → ((p.begin k c stream).put k c').conns j = p.conns j ∧
      ((p.begin k c stream).put k c').flowsOf j = p.flowsOf j :=
    fun j hj => ⟨conns_put_ne hj, flowsOf_begin_ne hj⟩
  refine ⟨?_, ?_, ?_⟩
  · intro j d hd
    by_cases hj : j = k
    · subst hj
      rw [conns_put_self] at hd
      obtain rfl := Option.some.inj hd
      rw [flowsOf_put, flowsOf_begin_self]
      exact hc
    · rw [(hother j hj).1] at hd
      rw [(hother j hj).2]
      exact h.conns j d hd
  · intro j hd
    by_cases hj : j = k
    · subst hj
      rw [conns_put_self] at hd
      cases hd
    · rw [(hother j hj).1] at hd
      rw [(hother j hj).2]
      exact h.fresh j hd
  · obtain ⟨numbers, hids, hsorted, hlt⟩ := h.numbered
    refine ⟨numbers ++ [p.made], ?_, ?_, ?_⟩
    · rw [List.map_append, ← hids]
      simp [Process.put, Process.begin, Process.nextCtx, TransportService.mkCtx, SessionCtx.new]
    · rw [List.pairwise_append]
      refine ⟨hsorted, List.pairwise_singleton _ _, ?_⟩
      intro m hm m' hm'
      rw [List.mem_singleton.mp hm']
      exact hlt m hm
    · intro m hm
      rcases List.mem_append.mp hm with hm | hm
      · exact Nat.lt_succ_of_lt (hlt m hm)
      · rw [List.mem_singleton.mp hm]
        exact Nat.lt_succ_self _

theorem Good.finish (h : Good encode p) (n : Nat) (f : Flow S) (r : Except IoError Unit) :
    Good encode (p.finish n f r) := by
  refine ⟨?_, ?_, h.numbered⟩
  · intro k d hd
    obtain ⟨c, hc, rfl⟩ := Option.map_eq_some_iff.mp hd
    have hgood := h.conns k c hc
    rw [flowsOf_finish]
    split
    · next hcall =>
      split
      · exact hgood.finished hcall r
      · exact hgood
    · exact hgood
    · exact hgood
    · exact hgood
  · intro k hd
    exact h.fresh k (Option.map_eq_none_iff.mp hd)

/-- **Every step keeps the invariant.** -/
theorem Good.step {a : Act S} (h : Good encode p) (hstep : Step encode p a q) :
    Good encode q := by
  cases hstep with
  | accept service source hnew =>
    refine h.put ?_
    rw [h.fresh _ hnew]
    exact good_new service source
  | frameFailed e hconn hcall => exact h.put ((h.conns _ _ hconn).frameFailed hcall e)
  | single stream hconn hcall hkind =>
    exact h.begin_put hconn ((h.conns _ _ hconn).single hcall hkind ⟨_, rfl⟩)
  | multiplexed hconn hcall hkind => exact h.put ((h.conns _ _ hconn).multiplexed hcall hkind)
  | request req hconn hserve => exact h.put ((h.conns _ _ hconn).answer hserve req)
  | closed hconn hserve => exact h.put ((h.conns _ _ hconn).closed hserve)
  | send hconn hserve hsend => exact h.put ((h.conns _ _ hconn).send hserve hsend)
  | sendFailed hconn hserve hrefuses =>
    exact absurd hrefuses ((h.conns _ _ hconn).not_refuses hserve)
  | recv hconn hcall hrecv =>
    exact h.begin_put hconn ((h.conns _ _ hconn).recv hcall hrecv ⟨_, rfl⟩ rfl)
  | recvEnd hconn hcall hended => exact h.put ((h.conns _ _ hconn).recvEnd hcall hended)
  | flowEnded r => exact h.finish _ _ r
  | otherCtx =>
    obtain ⟨numbers, hids, hsorted, hlt⟩ := h.numbered
    exact ⟨h.conns, h.fresh, numbers, hids, hsorted, fun m hm => Nat.lt_succ_of_lt (hlt m hm)⟩

theorem good_of_run {trace : List (Act S × Process S)}
    (hrun : Run (Step encode) Process.start trace p) : Good encode p :=
  hrun.invariant good_start fun _ _ _ h hstep => h.step hstep

end Process

/-! ## Every run -/

section Runs

variable {p : Process S} {trace : List (Act S × Process S)} {k : Nat} {c : Connection S}

/-- Where a call has returned, none of its streams waits. -/
theorem Connection.Good.waiting_returned {flows : List (Flow S)} (h : c.Good encode flows)
    {r : Except IoError Unit} (hcall : c.call = .returned r) : c.waiting = [] := by
  have hphase := h.phase
  rw [Connection.waiting]
  generalize flows.map Flow.stream = streams at hphase
  cases hphase with
  | failed _ hserve hqueue | single _ hserve hqueue | carried _ hserve hqueue =>
    rw [hserve, hqueue]
    rfl
  | framing hcall' | carrying hcall' =>
    rw [hcall] at hcall'
    cases hcall'

theorem Connection.Good.length_le_one {flows : List (Flow S)} (h : c.Good encode flows)
    (hkind : ¬ c.service.Carries) : flows.length ≤ 1 := by
  have hphase := h.phase
  rw [← List.length_map (f := Flow.stream)]
  generalize flows.map Flow.stream = streams at hphase
  cases hphase with
  | framing | failed => exact Nat.zero_le _
  | single => exact Nat.le_refl _
  | carrying _ _ _ _ hcarries | carried _ _ _ hcarries => exact absurd hcarries hkind

/-- The task holds one stream at most. -/
theorem Serve.length_held (serve : Serve S) : serve.held.length ≤ 1 := by
  cases serve with
  | sending stream => exact Nat.le_refl _
  | accepting | ended => exact Nat.zero_le _

/-- In no run is a send over a carrier's channel refused. -/
theorem never_refused (hrun : Run (Step encode) Process.start trace p) :
    ∀ x ∈ trace, ∀ j, x.1 ≠ .sendFailed j := by
  have hkeep : ∀ s t (a : Act S), Good encode s → Step encode s a t → True →
      Good encode t ∧ ∀ j, a ≠ .sendFailed j := by
    intro s t a hs hstep _
    refine ⟨hs.step hstep, ?_⟩
    rintro j rfl
    cases hstep with
    | sendFailed hconn hserve hrefuses =>
      exact (hs.conns _ _ hconn).not_refuses hserve hrefuses
  exact (hrun.of_meets good_start (Meets.of_forall (fun _ => True) fun _ _ => trivial) hkeep).2

/-- Numbers of contexts repeat only when `NEXT_ID` has wrapped. -/
theorem Good.ids_nodup (h : Good encode p) (hmade : p.made ≤ 2 ^ 64) :
    (p.flows.map (·.ctx.id)).Nodup := by
  obtain ⟨numbers, hids, hsorted, hlt⟩ := h.numbered
  rw [hids]
  refine List.Nodup.map_on ?_ (hsorted.imp Nat.ne_of_lt)
  intro m hm m' hm' heq
  have hm := hlt m hm
  have hm' := hlt m' hm'
  have heq := congrArg UInt64.toNat heq
  rw [UInt64.toNat_ofNat', UInt64.toNat_ofNat'] at heq
  omega

/-- **A carrier loses nothing.**  In every state that the tasks of a process can reach,
whatever the order of their steps: the flows of a connection have the tag, the peer and
the local address of its listener; the streams that a carrier has accepted are those whose
flows were begun, in order, and then those that wait, at most one more than the channel
holds, and all were begun once its call has returned; other transports begin one flow;
the requests that were reset are those not accepted; no send over a channel fails; and no
two flows of the process have one number before `NEXT_ID` wraps. -/
theorem carrier_loses_nothing (hrun : Run (Step encode) Process.start trace p)
    (hconn : p.conns k = some c) :
    (∀ f ∈ p.flowsOf k, ∃ id, f.ctx = c.service.mkCtx c.source id) ∧
      (c.service.Carries → p.streamsOf k ++ c.waiting = c.accepted encode ∧
        c.waiting.length ≤ streamChannelCap + 1 ∧
        ∀ r, c.call = .returned r → p.streamsOf k = c.accepted encode) ∧
      (¬ c.service.Carries → (p.streamsOf k).length ≤ 1) ∧
      c.resets = c.requests.filter (fun req => (c.service.streamOf encode req).isNone) ∧
      (∀ x ∈ trace, ∀ j, x.1 ≠ .sendFailed j) ∧
      (p.made ≤ 2 ^ 64 → (p.flows.map (·.ctx.id)).Nodup) := by
  have hgood := good_of_run hrun
  have hconn := hgood.conns k c hconn
  refine ⟨hconn.ctx, fun hkind => ⟨hconn.streams hkind, ?_, fun r hcall => ?_⟩, fun hkind => ?_,
    hconn.resets, ?_, hgood.ids_nodup⟩
  · rw [Connection.waiting, List.length_append]
    exact Nat.add_le_add hconn.room c.serve.length_held
  · have hstreams := hconn.streams hkind
    rw [hconn.waiting_returned hcall, List.append_nil] at hstreams
    exact hstreams
  · rw [Process.streamsOf, List.length_map]
    exact hconn.length_le_one hkind
  · exact never_refused hrun

end Runs

/-- A listener for gRPC, and a request for its tunnel by the given method. -/
def gunService : TransportService := ⟨⟨⟨.none, .grpc "gun"⟩, (.v4 #v[203, 0, 113, 80], 443)⟩, "in"⟩

def gunRequest (method : String) : Request Nat :=
  ⟨method, asBytes "/gun/Tun", some (asBytes "application/grpc+proto"), true, 7⟩

/-- `utf8_percent_encode`, as its crate documents it. -/
def utf8PercentEncode (set : UInt8 → Bool) : Bytes → Bytes :=
  PercentCoding.percentEncode fun b => b < 0x80 && !set b

/-- A run in which two requests come on a carrier. -/
theorem exists_gun_run : ∃ trace p c, Run (Step utf8PercentEncode) Process.start trace p ∧
    p.conns 0 = some c ∧ c.service = gunService ∧ c.call = .carrying ∧
      c.requests = [gunRequest "GET", gunRequest "POST"] := by
  let c₀ : Connection Nat := .new gunService none
  let c₁ : Connection Nat :=
    { c₀ with call := .carrying, serve := .accepting, chan := Chan.new Nat streamChannelCap }
  let c₂ := c₁.answer utf8PercentEncode (gunRequest "GET")
  let p₂ : Process Nat := (Process.start.put 0 c₀).put 0 c₁
  have hrefused : gunService.streamOf utf8PercentEncode (gunRequest "GET") = none := by
    decide +kernel
  have hheld : gunService.streamOf utf8PercentEncode (gunRequest "POST") = some 7 := by
    decide +kernel
  have hc₂ : c₂ = { c₁ with
      requests := [gunRequest "GET"], resets := [gunRequest "GET"] } := by
    simp [c₂, c₁, c₀, Connection.answer, Connection.new, hrefused]
  have hget : Step utf8PercentEncode p₂ (.request 0 (gunRequest "GET")) (p₂.put 0 c₂) :=
    .request _ conns_put_self rfl
  have hpost : Step utf8PercentEncode (p₂.put 0 c₂) (.request 0 (gunRequest "POST"))
      ((p₂.put 0 c₂).put 0 (c₂.answer utf8PercentEncode (gunRequest "POST"))) :=
    .request _ conns_put_self (by rw [hc₂])
  have hrun := Run.cons (.accept (p := Process.start) (k := 0) gunService none rfl)
    (.cons (.multiplexed conns_put_self rfl ⟨"gun", rfl⟩) (.cons hget (.cons hpost (.nil _))))
  have hanswer : c₂.answer utf8PercentEncode (gunRequest "POST") = { c₂ with
      requests := [gunRequest "GET", gunRequest "POST"], serve := .sending 7 } := by
    simp [hc₂, c₁, c₀, Connection.answer, Connection.new, hheld]
  refine ⟨_, _, _, hrun, conns_put_self, ?_⟩
  rw [hanswer, hc₂]
  exact ⟨rfl, rfl, rfl⟩

/-- One of the two is reset, and the stream of the other waits. -/
theorem carrier_loses_nothing_two : ∃ (p : Process Nat) (c : Connection Nat),
    p.streamsOf 0 ++ c.waiting = [7] ∧ c.resets = [gunRequest "GET"] := by
  obtain ⟨trace, p, c, hrun, hconn, hservice, -, hrequests⟩ := exists_gun_run
  obtain ⟨-, hcarries, -, hresets, -, -⟩ := carrier_loses_nothing hrun hconn
  rw [hservice, hrequests] at hresets
  have hstreams := (hcarries (hservice ▸ ⟨"gun", rfl⟩)).1
  rw [Connection.accepted, hservice, hrequests] at hstreams
  refine ⟨p, c, hstreams.trans ?_, hresets.trans ?_⟩
  · decide +kernel
  · decide +kernel

/-! ## No flow is waited for -/

section Drains

variable {p : Process S} {trace : List (Act S × Process S)} {k : Nat} {c : Connection S}

/-- What a carrier's own tasks do, without any of its flows. -/
def Act.OfCarrier (k : Nat) (a : Act S) : Prop := a = .send k ∨ a = .recv k ∨ a = .recvEnd k

/-- How much a carrier's tasks have left to do with the streams they have. -/
def Connection.left (c : Connection S) : Nat :=
  2 * c.serve.held.length + c.chan.queue.length +
    match c.call with
    | .carrying => 1
    | .framing | .proxying | .returned _ => 0

/-- The process while the tasks of the carrier `k`, once `c`, are at work. -/
structure Draining (encode : (UInt8 → Bool) → Bytes → Bytes) (k : Nat) (c : Connection S)
    (p q : Process S) : Prop where
  good : Good encode q
  flows : p.flows <+: q.flows
  results : q.results = p.results
  conn : ∃ d, q.conns k = some d ∧ d.service = c.service ∧ d.requests = c.requests ∧
    (c.serve = .ended → d.serve = .ended) ∧
    (d.call = .carrying ∨ d.call = .returned (.ok ()))

/-- The work that is left to the carrier `k`. -/
def Process.left (p : Process S) (k : Nat) : Nat := ((p.conns k).map Connection.left).getD 0

/-- All streams of the carrier `k` are begun, and its call has returned if there will be no
more. -/
def Drained (k : Nat) (p : Process S) : Prop :=
  ∃ d, p.conns k = some d ∧ d.waiting = [] ∧ (d.serve = .ended → d.call = .returned (.ok ()))

theorem Process.left_put {d : Connection S} : (p.put k d).left k = d.left := by
  rw [Process.left, conns_put_self]
  rfl

theorem left_lt {q r : Process S} {a : Act S} (ha : a.OfCarrier k) (hstep : Step encode q a r) :
    r.left k < q.left k := by
  rcases ha with rfl | rfl | rfl
  · cases hstep with
    | send hconn hserve hsend =>
      rw [Process.left_put, Process.left, hconn]
      simp only [Connection.left, Serve.held, Chan.push, hserve, List.length_append,
        List.length_singleton, List.length_nil, Option.map_some, Option.getD_some]
      omega
  · cases hstep with
    | recv hconn hcall hrecv =>
      rw [Process.left_put, Process.left, hconn]
      simp only [Connection.left, Chan.pop, hrecv.2, hcall, List.length_cons, Option.map_some,
        Option.getD_some]
      omega
  · cases hstep with
    | recvEnd hconn hcall hended =>
      rw [Process.left_put, Process.left, hconn]
      simp only [Connection.left, Chan.dropRx, hcall, Option.map_some, Option.getD_some]
      omega

theorem Draining.step {q r : Process S} {a : Act S} (h : Draining encode k c p q)
    (ha : a.OfCarrier k) (hstep : Step encode q a r) : Draining encode k c p r := by
  obtain ⟨d, hd, hservice, hrequests, hended, hcall⟩ := h.conn
  have hgood := h.good.step hstep
  rcases ha with rfl | rfl | rfl
  · cases hstep with
    | send hconn hserve hsend =>
      obtain rfl := Option.some.inj (hd.symm.trans hconn)
      refine ⟨hgood, h.flows, h.results, _, conns_put_self, hservice, hrequests, ?_, hcall⟩
      intro hc
      rw [hended hc] at hserve
      cases hserve
  · cases hstep with
    | recv hconn hcall' hrecv =>
      obtain rfl := Option.some.inj (hd.symm.trans hconn)
      exact ⟨hgood, h.flows.trans (List.prefix_append _ _), h.results, _, conns_put_self, hservice,
        hrequests, hended, hcall⟩
  · cases hstep with
    | recvEnd hconn hcall' hend =>
      obtain rfl := Option.some.inj (hd.symm.trans hconn)
      exact ⟨hgood, h.flows, h.results, _, conns_put_self, hservice, hrequests, hended, .inr rfl⟩

/-- **The tasks of a carrier are not stuck** before they are done. -/
theorem Draining.progress {q : Process S} (h : Draining encode k c p q) :
    Drained k q ∨ ∃ a r, Act.OfCarrier k a ∧ Step encode q a r := by
  obtain ⟨d, hd, -, -, -, hcall⟩ := h.conn
  have hgood := h.good.conns k d hd
  rcases hcall with hcall | hcall
  · obtain ⟨hrx, htx, hcap, -⟩ := hgood.phase.of_carrying hcall
    cases hqueue : d.chan.queue with
    | cons stream queue =>
      exact .inr ⟨_, _, .inr (.inl rfl), .recv hd hcall ⟨hrx, hqueue⟩⟩
    | nil =>
      cases hserve : d.serve with
      | sending stream =>
        refine .inr ⟨_, _, .inl rfl, .send hd hserve ⟨htx.mpr (by simp [hserve]), hrx, ?_⟩⟩
        rw [hqueue, hcap]
        exact Nat.succ_pos 255
      | accepting =>
        refine .inl ⟨d, hd, ?_, fun hended => absurd hended (by simp [hserve])⟩
        rw [Connection.waiting, hqueue, hserve]
        rfl
      | ended =>
        have hdropped : d.chan.txAlive = false := by
          rw [← Bool.not_eq_true, htx]
          exact not_not.mpr hserve
        exact .inr ⟨_, _, .inr (.inr rfl), .recvEnd hd hcall ⟨hdropped, hqueue⟩⟩
  · exact .inl ⟨d, hd, hgood.waiting_returned hcall, fun _ => hcall⟩

/-- **A slow flow does not hold up its carrier.**  From every reachable state, a carrier's
own tasks can take all streams that were accepted to the proxy, and return if the
HTTP/2 connection has ended, without a step of any flow, of another connection or of the
peer. -/
theorem carrier_drains (hrun : Run (Step encode) Process.start trace p)
    (hconn : p.conns k = some c) (hcall : c.call = .carrying) :
    ∃ rest q d, Run (Step encode) p rest q ∧ (∀ x ∈ rest, x.1.OfCarrier k) ∧
      q.conns k = some d ∧ q.streamsOf k = c.accepted encode ∧ p.flows <+: q.flows ∧
      q.results = p.results ∧ (c.serve = .ended → d.call = .returned (.ok ())) := by
  have hgood := good_of_run hrun
  have hkind := ((hgood.conns k c hconn).phase.of_carrying hcall).2.2.2
  have hstart : Draining encode k c p p :=
    ⟨hgood, List.prefix_rfl, rfl, c, hconn, rfl, rfl, id, .inl hcall⟩
  -- the invariant is carried along the run that the completion rule gives
  obtain ⟨rest, q, hrest, hacts, hdrained⟩ := exists_run_to (Draining encode k c p) (Drained k)
    (Act.OfCarrier k) (Process.left · k) (fun _ _ _ ha h hstep => h.step ha hstep)
    (fun _ _ _ ha hstep => left_lt ha hstep) (fun _ h => h.progress) hstart
  have hq := hrest.invariant_of_good (Act.OfCarrier k) hacts hstart
    fun _ _ _ ha h hstep => h.step ha hstep
  obtain ⟨d, hd, hservice, hrequests, hended, -⟩ := hq.conn
  obtain ⟨d', hd', hwaiting, hreturned⟩ := hdrained
  obtain rfl := Option.some.inj (hd.symm.trans hd')
  have hstreams := (hq.good.conns k d hd).streams (hservice ▸ hkind)
  rw [hwaiting, List.append_nil, Connection.accepted, hservice, hrequests] at hstreams
  exact ⟨rest, q, d, hrest, hacts, hd, hstreams, hq.flows, hq.results,
    fun hc => hreturned (hended hc)⟩

/-- The waiting stream is taken to the proxy. -/
theorem carrier_drains_one : ∃ q : Process Nat, q.streamsOf 0 = [7] := by
  obtain ⟨trace, p, c, hrun, hconn, hservice, hcall, hrequests⟩ := exists_gun_run
  obtain ⟨rest, q, d, -, -, -, hstreams, -⟩ := carrier_drains hrun hconn hcall
  rw [Connection.accepted, hservice, hrequests] at hstreams
  refine ⟨q, hstreams.trans ?_⟩
  decide +kernel

end Drains

end XrayRs.Listener
