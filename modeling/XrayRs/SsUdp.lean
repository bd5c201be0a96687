import XrayRs.Mux
import XrayRs.Shadowsocks
import XrayRs.StepSystem

/-! # The Shadowsocks datagram server

`Shadowsocks::serve_udp` (`proxy/src/shadowsocks.rs`) with the tasks it starts.  The loop
decodes a datagram with the first user whose key opens it and passes it on to the flow
of its source address.  A flow is opened with the first datagram: the counter and the
key of its user are captured there, by the entry in `sessions` and by the task that
takes the flow's answers back to the client.  When the egress has ended, that task has
the entry removed.

What the loop and the tasks have counted and sealed is kept in the state.  It is
attributed to the right users in every run in which no datagram meets an entry that
another user has opened (`udp_attribution`), and not in every run
(`udp_attribution_mixed`). -/

namespace XrayRs.SsUdp

open BoundedChannel ByteWords StepSystem Ss

/-! ## Datagrams -/

/-- A user of the table, as `udp_decode` gives it: the key and the name. -/
structure SsKey where
  master : Bytes
  email : String
  deriving DecidableEq

/-- `zero.get(..nsize)`. -/
def zeroNonce (kind : AeadKind) : Bytes := List.replicate kind.nonceSize 0

section Datagrams

variable (P : Primitives) (kind : AeadKind)

/-- `ss_udp_encode`, with the salt that is drawn. -/
def ssUdpEncode (salt master : Bytes) (target : Destination) (payload : Bytes) : Option Bytes :=
  match deriveAead P kind master salt with
  | .error _ => none
  | .ok aead =>
    match AddrCodec.SHADOWSOCKS.write target.address target.port with
    | .error _ => none
    | .ok plain =>
      match aead.seal P (zeroNonce kind) (plain ++ payload) with
      | .error _ => none
      | .ok ct => some (salt ++ ct)

/-- The loop of `udp_decode` over the users. -/
def decodeFor (salt ct : Bytes) : List SsUser → Option (SsKey × Destination × Bytes)
  | [] => none
  | user :: users =>
    match deriveAead P kind user.master salt with
    | .error _ => decodeFor salt ct users
    | .ok aead =>
      match aead.open P (zeroNonce kind) ct with
      | .error _ => decodeFor salt ct users
      | .ok plain =>
        match AddrCodec.SHADOWSOCKS.read.run plain with
        | .ok ((address, port), pb) => some (⟨user.master, user.email⟩, .udp address port, pb)
        | .error _ => decodeFor salt ct users

/-- `Shadowsocks::udp_decode`. -/
def udpDecode (users : List SsUser) (dgram : Bytes) : Option (SsKey × Destination × Bytes) :=
  match readExact kind.keySize dgram with
  | none => none
  | some (salt, ct) => decodeFor P kind salt ct users

end Datagrams

/-! ## The server -/

/-- `SocketAddr`.  The flow label and the scope of an IPv6 one are left out. -/
structure SocketAddr where
  ip : IpAddr
  port : UInt16
  deriving DecidableEq

/-- Where the loop of `serve_udp` is: in `select!`, waiting for the counter of a new flow's
user, sending a packet to a flow, or returned. -/
inductive Serve
  | receiving
  | opening (client : SocketAddr) (user : SsKey) (pkt : UdpPacket)
  | sending (k : Nat) (pkt : UdpPacket)
  | failed (e : IoError)
  deriving DecidableEq

/-- Where the task for a flow's answers is. -/
inductive Downlink
  | receiving
  | answering (pkt : UdpPacket)
  | reaping
  | over
  deriving DecidableEq

/-- What is captured when a flow is opened: the client's address, the user whose datagram
opens it, and the name of the user's counter. -/
structure Owner where
  client : SocketAddr
  user : SsKey
  counter : Option String
  deriving DecidableEq

/-- A flow: what it has captured, the outbound half of its link, its egress and the task
for its answers. -/
structure Flow where
  owner : Owner
  link : UdpLink
  egress : FreedomUdp
  down : Downlink

/-- A datagram passed on to a flow: the user whose key has opened it, and the counter that
its payload was added to. -/
structure Passed where
  flow : Nat
  user : SsKey
  counter : Option String
  payload : Bytes
  deriving DecidableEq

/-- An answer taken off a flow, and the counter that it was added to. -/
structure Counted where
  flow : Nat
  counter : Option String
  pkt : UdpPacket
  deriving DecidableEq

/-- An answer sent to the client, as it was sealed; `none` if it could not be. -/
structure Sealed where
  flow : Nat
  pkt : UdpPacket
  dgram : Option Bytes
  deriving DecidableEq

/-- `serve_udp` and the tasks it has started: the table of users, the sessions by source
address, each with its flow and its counter, the flows, the addresses to be reaped, the
counters by the user's name; and what was passed on, counted and sealed so far. -/
structure UdpServer where
  users : List SsUser
  sessions : SocketAddr → Option (Nat × Option String)
  flows : List Flow
  reap : List SocketAddr
  serve : Serve
  counters : String → Counter
  passed : List Passed
  counted : List Counted
  sent : List Sealed

/-- The capacity of the channel `reap_tx`. -/
def reapCapacity : Nat := 64

/-- `user_counter`: with a registry, the counter of the user. -/
def userCounter (stats : Bool) (email : String) : Option String :=
  if stats then some email else none

/-- Count on the counter, if there is one. -/
def count (counters : String → Counter) (counter : Option String) (add : Counter → Counter) :
    String → Counter :=
  match counter with
  | none => counters
  | some email => Function.update counters email (add (counters email))

namespace UdpServer

/-- `serve_udp` at its start. -/
def start (users : List SsUser) (counters : String → Counter) : UdpServer :=
  ⟨users, fun _ => none, [], [], .receiving, counters, [], [], []⟩

/-- Change a flow. -/
def setFlow (s : UdpServer) (k : Nat) (f : Flow) : UdpServer := { s with flows := s.flows.set k f }

/-- The end of an iteration for a datagram: `add_up`, then the send to the flow. -/
def pass (s : UdpServer) (k : Nat) (user : SsKey) (counter : Option String) (pkt : UdpPacket) :
    UdpServer :=
  { s with
    serve := .sending k pkt
    counters := count s.counters counter (·.addUp (.ofNat pkt.data.length))
    passed := s.passed ++ [⟨k, user, counter, pkt.data⟩] }

/-- An answer off a flow: `add_down`. -/
def took (s : UdpServer) (k : Nat) (counter : Option String) (pkt : UdpPacket) : UdpServer :=
  { s with
    counters := count s.counters counter (·.addDown (.ofNat pkt.data.length))
    counted := s.counted ++ [⟨k, counter, pkt⟩] }

/-- The answer off a flow sent to the client: as `ss_udp_encode` has sealed it. -/
def answered (s : UdpServer) (k : Nat) (pkt : UdpPacket) (dgram : Option Bytes) : UdpServer :=
  { s with sent := s.sent ++ [⟨k, pkt, dgram⟩] }

/-- A new flow for a source address, and its entry. -/
def openFlow (s : UdpServer) (stats : Bool) (client : SocketAddr) (user : SsKey) : UdpServer :=
  { s with
    flows := s.flows ++ [⟨⟨client, user, userCounter stats user.email⟩,
      ⟨.new _ Mux.linkCapacity, .new _ Mux.linkCapacity⟩, .start, .receiving⟩]
    sessions := Function.update s.sessions client
      (some (s.flows.length, userCounter stats user.email)) }

end UdpServer

/-- Drop the loop's sender of a flow. -/
def Flow.dropSender (f : Flow) : Flow :=
    { f with link := { f.link with reader := f.link.reader.dropTx } }

/-- The moves of the server: a swap of the user table, a datagram or an error on the socket,
the loop's other moves, those of a flow's egress, and those of the task for its answers. -/
inductive UdpAct
  | setUsers (users : List SsUser)
  | datagram (client : SocketAddr) (dgram : Bytes)
  | recvError
  | opened
  | forwarded
  | refused
  | reaped
  | egress (k : Nat) (a : FreedomAct)
  | take (k : Nat)
  | answer (k : Nat) (salt : Bytes)
  | downEnd (k : Nat)
  | reap (k : Nat)

variable (P : Primitives) (kind : AeadKind) (stats : Bool)

/-- One step of the server. -/
inductive UdpStep (s : UdpServer) : UdpAct → UdpServer → Prop
  | setUsers (users : List SsUser) : UdpStep s (.setUsers users) { s with users }
  | ignored {client : SocketAddr} {dgram : Bytes} (hserve : s.serve = .receiving)
      (hbuf : dgram.length ≤ recvBuf) (hdec : udpDecode P kind s.users dgram = none) :
      UdpStep s (.datagram client dgram) s
  | known (client : SocketAddr) {dgram : Bytes} {user : SsKey} {target : Destination}
      {payload : Bytes} {k : Nat} {counter : Option String} (hserve : s.serve = .receiving)
      (hbuf : dgram.length ≤ recvBuf)
      (hdec : udpDecode P kind s.users dgram = some (user, target, payload))
      (hentry : s.sessions client = some (k, counter)) :
      UdpStep s (.datagram client dgram) (s.pass k user counter ⟨payload, target⟩)
  | fresh (client : SocketAddr) {dgram : Bytes} {user : SsKey} {target : Destination}
      {payload : Bytes} (hserve : s.serve = .receiving) (hbuf : dgram.length ≤ recvBuf)
      (hdec : udpDecode P kind s.users dgram = some (user, target, payload))
      (hentry : s.sessions client = none) :
      UdpStep s (.datagram client dgram) { s with serve := .opening client user ⟨payload, target⟩ }
  | opened {client : SocketAddr} {user : SsKey} {pkt : UdpPacket}
      (hserve : s.serve = .opening client user pkt) :
      UdpStep s .opened ((s.openFlow stats client user).pass s.flows.length user
        (userCounter stats user.email) pkt)
  | forwarded {k : Nat} {pkt : UdpPacket} {f : Flow} (hserve : s.serve = .sending k pkt)
      (hflow : s.flows[k]? = some f) (hroom : f.link.reader.CanSend) :
      UdpStep s .forwarded ({ s with serve := .receiving }.setFlow k { f with
        link := { f.link with reader := f.link.reader.push pkt } })
  | refused {k : Nat} {pkt : UdpPacket} {f : Flow} (hserve : s.serve = .sending k pkt)
      (hflow : s.flows[k]? = some f) (hgone : f.link.reader.Refuses) :
      UdpStep s .refused { s with serve := .receiving }
  -- the sessions are dropped with the loop
  | recvError (e : IoError) (hserve : s.serve = .receiving) :
      UdpStep s .recvError { s with
        serve := .failed e
        sessions := fun _ => none
        flows := s.flows.map Flow.dropSender }
  | reaped {dead : SocketAddr} {rest : List SocketAddr} (hserve : s.serve = .receiving)
      (hreap : s.reap = dead :: rest) :
      UdpStep s .reaped { s with
        reap := rest
        sessions := Function.update s.sessions dead none
        flows := match s.sessions dead with
          | some (k, _) => s.flows.modify k Flow.dropSender
          | none => s.flows }
  | egress {k : Nat} {f : Flow} {a : FreedomAct} {e : FreedomUdp} {l : UdpLink}
      (hflow : s.flows[k]? = some f) (hstep : FreedomStep f.egress f.link a e l) :
      UdpStep s (.egress k a) (s.setFlow k { f with egress := e, link := l })
  | take {k : Nat} {f : Flow} {pkt : UdpPacket} {q : List UdpPacket}
      (hflow : s.flows[k]? = some f) (hdown : f.down = .receiving)
      (hpkt : f.link.writer.CanRecv pkt q) :
      UdpStep s (.take k) ((s.took k f.owner.counter pkt).setFlow k { f with
        link := { f.link with writer := f.link.writer.pop pkt q }
        down := .answering pkt })
  | answer (salt : Bytes) {k : Nat} {f : Flow} {pkt : UdpPacket} (hflow : s.flows[k]? = some f)
      (hdown : f.down = .answering pkt) (hsalt : salt.length = kind.keySize) :
      UdpStep s (.answer k salt) ((s.answered k pkt
          (ssUdpEncode P kind salt f.owner.user.master pkt.target pkt.data)).setFlow k
        { f with down := .receiving })
  | downEnd {k : Nat} {f : Flow} (hflow : s.flows[k]? = some f) (hdown : f.down = .receiving)
      (hend : f.link.writer.Ended) :
      UdpStep s (.downEnd k) (s.setFlow k { f with down := .reaping })
  | reap {k : Nat} {f : Flow} (hflow : s.flows[k]? = some f) (hdown : f.down = .reaping)
      (hroom : s.reap.length < reapCapacity) (hrun : ∀ e, s.serve ≠ .failed e) :
      UdpStep s (.reap k) ({ s with reap := s.reap ++ [f.owner.client] }.setFlow k { f with
        link := { f.link with writer := f.link.writer.dropRx }
        down := .over })
  | reapGone {k : Nat} {f : Flow} {e : IoError} (hflow : s.flows[k]? = some f)
      (hdown : f.down = .reaping) (hgone : s.serve = .failed e) :
      UdpStep s (.reap k) (s.setFlow k { f with
        link := { f.link with writer := f.link.writer.dropRx }
        down := .over })

/-! ## Attribution -/

namespace UdpServer

/-- What the flows have captured. -/
def owners (s : UdpServer) : List Owner := s.flows.map Flow.owner

/-- The bytes added to the up counter of a user. -/
def upBytes (s : UdpServer) (email : String) : Nat :=
  ((s.passed.filter (·.counter = some email)).map (·.payload.length)).sum

/-- The bytes added to the down counter of a user. -/
def downBytes (s : UdpServer) (email : String) : Nat :=
  ((s.counted.filter (·.counter = some email)).map (·.pkt.data.length)).sum

end UdpServer

/-- **Right attribution.**  The counters have grown by what was counted.  Every datagram was
counted for the user whose key has opened it, and goes through a flow that this user has
opened; and every answer was counted for, and sealed with the key of, the user whose
datagram has opened its flow. -/
structure Attributed (before : String → Counter) (s : UdpServer) : Prop where
  counters : ∀ email, s.counters email = (before email).grown (s.upBytes email) (s.downBytes email)
  up : ∀ d ∈ s.passed, d.counter = userCounter stats d.user.email
  through : ∀ d ∈ s.passed, ∃ o, s.owners[d.flow]? = some o ∧ o.user = d.user
  down : ∀ r ∈ s.counted, ∃ o, s.owners[r.flow]? = some o ∧
    r.counter = userCounter stats o.user.email
  key : ∀ r ∈ s.sent, ∃ o, s.owners[r.flow]? = some o ∧ ∃ salt, salt.length = kind.keySize ∧
    r.dgram = ssUdpEncode P kind salt o.user.master r.pkt.target r.pkt.data

/-- The datagram meets no entry that another user has opened. -/
def SameUser (s : UdpServer) : UdpAct → Prop
  | .datagram client dgram => ∀ user target payload k counter owner,
      udpDecode P kind s.users dgram = some (user, target, payload) →
      s.sessions client = some (k, counter) → s.owners[k]? = some owner → owner.user = user
  | _ => True

theorem sameUser_of_new {s : UdpServer} {client : SocketAddr} {dgram : Bytes}
    (hnew : s.sessions client = none) : SameUser P kind s (.datagram client dgram) := by
  intro user target payload k counter owner _ hentry _
  rw [hnew] at hentry
  cases hentry

/-- **What is kept** when no datagram meets another user's entry: flows are named by the
sessions and the books, and what is booked on a flow is its owner's. -/
structure Inv (before : String → Counter) (s : UdpServer) : Prop where
  owner : ∀ o ∈ s.owners, o.counter = userCounter stats o.user.email
  entry : ∀ client k counter, s.sessions client = some (k, counter) →
    ∃ o, s.owners[k]? = some o ∧ counter = o.counter
  passed : ∀ d ∈ s.passed, ∃ o, s.owners[d.flow]? = some o ∧ d.user = o.user ∧ d.counter = o.counter
  counted : ∀ r ∈ s.counted, ∃ o, s.owners[r.flow]? = some o ∧ r.counter = o.counter
  sent : ∀ r ∈ s.sent, ∃ o, s.owners[r.flow]? = some o ∧ ∃ salt, salt.length = kind.keySize ∧
    r.dgram = ssUdpEncode P kind salt o.user.master r.pkt.target r.pkt.data
  counters : ∀ email, s.counters email = (before email).grown (s.upBytes email) (s.downBytes email)

variable {P kind stats} {before : String → Counter} {s t : UdpServer}

theorem Inv.start (users : List SsUser) : Inv P kind stats before (.start users before) where
  owner := nofun
  entry := nofun
  passed := nofun
  counted := nofun
  sent := nofun
  counters email := by simp [UdpServer.start, UdpServer.upBytes, UdpServer.downBytes, Counter.grown]

theorem Inv.attributed (h : Inv P kind stats before s) : Attributed P kind stats before s where
  counters := h.counters
  up d hd := by
    obtain ⟨o, ho, huser, hcounter⟩ := h.passed d hd
    rw [hcounter, huser, h.owner o (List.mem_of_getElem? ho)]
  through d hd := by
    obtain ⟨o, ho, huser, -⟩ := h.passed d hd
    exact ⟨o, ho, huser.symm⟩
  down r hr := by
    obtain ⟨o, ho, hcounter⟩ := h.counted r hr
    exact ⟨o, ho, by rw [hcounter, h.owner o (List.mem_of_getElem? ho)]⟩
  key := h.sent

/-- A step that leaves the flows' owners and the books alone, and adds no session. -/
theorem Inv.frame (h : Inv P kind stats before s) (howners : t.owners = s.owners)
    (hsessions : ∀ client x, t.sessions client = some x → s.sessions client = some x)
    (hpassed : t.passed = s.passed) (hcounted : t.counted = s.counted) (hsent : t.sent = s.sent)
    (hcounters : t.counters = s.counters) : Inv P kind stats before t where
  owner := howners ▸ h.owner
  entry client k counter hentry := howners ▸ h.entry client k counter (hsessions client _ hentry)
  passed := by
    rw [howners, hpassed]
    exact h.passed
  counted := by
    rw [howners, hcounted]
    exact h.counted
  sent := by
    rw [howners, hsent]
    exact h.sent
  counters := by
    unfold UdpServer.upBytes UdpServer.downBytes
    rw [hpassed, hcounted, hcounters]
    exact h.counters

theorem owners_modify (k : Nat) :
    (s.flows.modify k Flow.dropSender).map Flow.owner = s.flows.map Flow.owner := by
  apply List.ext_getElem?
  intro i
  rw [List.getElem?_map, List.getElem?_map, List.getElem?_modify]
  cases s.flows[i]? with
  | none => rfl
  | some f => by_cases hk : k = i <;> simp [hk, Flow.dropSender]

theorem owners_setFlow {k : Nat} {f f' : Flow} (hflow : s.flows[k]? = some f)
    (howner : f'.owner = f.owner) : (s.setFlow k f').owners = s.owners := by
  have hk : s.owners[k]? = some f.owner := by
    rw [UdpServer.owners, List.getElem?_map, hflow]
    rfl
  obtain ⟨hlt, hget⟩ := List.getElem?_eq_some_iff.mp hk
  show (s.flows.set k f').map Flow.owner = s.owners
  rw [List.map_set, howner, ← hget]
  exact List.set_getElem_self hlt

/-- The counter that is named moves, and no other. -/
theorem count_apply (counters : String → Counter) (counter : Option String)
    (add : Counter → Counter) (email : String) :
    count counters counter add email =
      if counter = some email then add (counters email) else counters email := by
  cases counter with
  | none => rfl
  | some name =>
    by_cases hname : name = email
    · subst hname
      simp [count]
    · simp [count, hname, Function.update_of_ne (Ne.symm hname)]

theorem sum_filter_append {α : Type} (l : List α) (x : α) (p : α → Bool) (f : α → Nat) :
    (((l ++ [x]).filter p).map f).sum = ((l.filter p).map f).sum + if p x then f x else 0 := by
  cases hp : p x <;> simp [List.filter_append, hp]

/-- What a passed datagram adds to the counters is in the books. -/
theorem counters_pass
    (h : ∀ email, s.counters email = (before email).grown (s.upBytes email) (s.downBytes email))
    (k : Nat) (user : SsKey) (counter : Option String) (pkt : UdpPacket) (email : String) :
    (s.pass k user counter pkt).counters email =
      (before email).grown ((s.pass k user counter pkt).upBytes email)
        ((s.pass k user counter pkt).downBytes email) := by
  have hup : (s.pass k user counter pkt).upBytes email =
      s.upBytes email + if counter = some email then pkt.data.length else 0 := by
    simp only [UdpServer.upBytes, UdpServer.pass, sum_filter_append, decide_eq_true_eq]
  have hdown : (s.pass k user counter pkt).downBytes email = s.downBytes email := rfl
  have hcount : (s.pass k user counter pkt).counters =
      count s.counters counter (·.addUp (.ofNat pkt.data.length)) := rfl
  rw [hcount, hdown, hup, count_apply, h]
  by_cases hname : counter = some email
  · rw [if_pos hname, if_pos hname, Counter.grown_addUp]
  · rw [if_neg hname, if_neg hname, Nat.add_zero]

theorem counters_took
    (h : ∀ email, s.counters email = (before email).grown (s.upBytes email) (s.downBytes email))
    (k : Nat) (counter : Option String) (pkt : UdpPacket) (email : String) :
    (s.took k counter pkt).counters email =
      (before email).grown ((s.took k counter pkt).upBytes email)
        ((s.took k counter pkt).downBytes email) := by
  have hdown : (s.took k counter pkt).downBytes email =
      s.downBytes email + if counter = some email then pkt.data.length else 0 := by
    simp only [UdpServer.downBytes, UdpServer.took, sum_filter_append, decide_eq_true_eq]
  have hup : (s.took k counter pkt).upBytes email = s.upBytes email := rfl
  have hcount : (s.took k counter pkt).counters =
      count s.counters counter (·.addDown (.ofNat pkt.data.length)) := rfl
  rw [hcount, hdown, hup, count_apply, h]
  by_cases hname : counter = some email
  · rw [if_pos hname, if_pos hname, Counter.grown_addDown]
  · rw [if_neg hname, if_neg hname, Nat.add_zero]

/-- A datagram passed on is booked on the flow's owner. -/
theorem Inv.pass (h : Inv P kind stats before s) {k : Nat} {o : Owner} (ho : s.owners[k]? = some o)
    (pkt : UdpPacket) : Inv P kind stats before (s.pass k o.user o.counter pkt) where
  owner := h.owner
  entry := h.entry
  passed d hd := by
    rcases List.mem_append.mp hd with hd | hd
    · exact h.passed d hd
    · obtain rfl := List.mem_singleton.mp hd
      exact ⟨o, ho, rfl, rfl⟩
  counted := h.counted
  sent := h.sent
  counters := counters_pass h.counters k o.user o.counter pkt

/-- A new flow is its user's. -/
theorem Inv.openFlow (h : Inv P kind stats before s) (client : SocketAddr) (user : SsKey) :
    Inv P kind stats before (s.openFlow stats client user) := by
  have howners : (s.openFlow stats client user).owners =
      s.owners ++ [⟨client, user, userCounter stats user.email⟩] := by
    simp [UdpServer.openFlow, UdpServer.owners]
  have hold : ∀ {k : Nat} {o : Owner}, s.owners[k]? = some o →
      (s.openFlow stats client user).owners[k]? = some o := by
    intro k o ho
    rw [howners, List.getElem?_append_left (List.getElem?_eq_some_iff.mp ho).1, ho]
  exact {
    owner := fun o ho => by
      rw [howners] at ho
      rcases List.mem_append.mp ho with ho | ho
      · exact h.owner o ho
      · obtain rfl := List.mem_singleton.mp ho
        rfl
    entry := fun other k counter hentry => by
      simp only [UdpServer.openFlow] at hentry
      by_cases hsame : other = client
      · subst hsame
        rw [Function.update_self] at hentry
        obtain ⟨rfl, rfl⟩ := Prod.mk.inj (Option.some.inj hentry)
        refine ⟨⟨other, user, userCounter stats user.email⟩, ?_, rfl⟩
        rw [howners, List.getElem?_append_right (by simp [UdpServer.owners])]
        simp [UdpServer.owners]
      · rw [Function.update_of_ne hsame] at hentry
        obtain ⟨o, ho, hcounter⟩ := h.entry other k counter hentry
        exact ⟨o, hold ho, hcounter⟩
    passed := fun d hd => by
      obtain ⟨o, ho, hrest⟩ := h.passed d hd
      exact ⟨o, hold ho, hrest⟩
    counted := fun r hr => by
      obtain ⟨o, ho, hrest⟩ := h.counted r hr
      exact ⟨o, hold ho, hrest⟩
    sent := fun r hr => by
      obtain ⟨o, ho, hrest⟩ := h.sent r hr
      exact ⟨o, hold ho, hrest⟩
    counters := h.counters }

/-- An answer taken is booked on the flow's owner. -/
theorem Inv.took (h : Inv P kind stats before s) {k : Nat} {o : Owner} (ho : s.owners[k]? = some o)
    (pkt : UdpPacket) : Inv P kind stats before (s.took k o.counter pkt) where
  owner := h.owner
  entry := h.entry
  passed := h.passed
  counted r hr := by
    rcases List.mem_append.mp hr with hr | hr
    · exact h.counted r hr
    · obtain rfl := List.mem_singleton.mp hr
      exact ⟨o, ho, rfl⟩
  sent := h.sent
  counters := counters_took h.counters k o.counter pkt

/-- An answer sent is sealed with the key of the flow's owner. -/
theorem Inv.answered (h : Inv P kind stats before s) {k : Nat} {o : Owner}
    (ho : s.owners[k]? = some o) (pkt : UdpPacket) {salt : Bytes} (hsalt : salt.length = kind.keySize) :
    Inv P kind stats before
      (s.answered k pkt (ssUdpEncode P kind salt o.user.master pkt.target pkt.data)) where
  owner := h.owner
  entry := h.entry
  passed := h.passed
  counted := h.counted
  sent r hr := by
    rcases List.mem_append.mp hr with hr | hr
    · exact h.sent r hr
    · obtain rfl := List.mem_singleton.mp hr
      exact ⟨o, ho, salt, hsalt, rfl⟩
  counters := h.counters

/-- A flow that moves leaves the books alone. -/
theorem Inv.setFlow (h : Inv P kind stats before s) {k : Nat} {f f' : Flow}
    (hflow : s.flows[k]? = some f) (howner : f'.owner = f.owner) :
    Inv P kind stats before (s.setFlow k f') :=
  h.frame (owners_setFlow hflow howner) (fun _ _ h => h) rfl rfl rfl rfl

theorem owners_getElem? {k : Nat} {f : Flow} (hflow : s.flows[k]? = some f) :
    s.owners[k]? = some f.owner := by
  rw [UdpServer.owners, List.getElem?_map, hflow]
  rfl

/-- **Every step keeps the books**, where no datagram meets another user's entry. -/
theorem UdpStep.inv {a : UdpAct} (h : UdpStep P kind stats s a t) (hs : Inv P kind stats before s)
    (hsame : SameUser P kind s a) : Inv P kind stats before t := by
  cases h with
  | setUsers users => exact hs.frame rfl (fun _ _ h => h) rfl rfl rfl rfl
  | ignored => exact hs
  | known client hserve hbuf hdec hentry =>
    obtain ⟨o, ho, rfl⟩ := hs.entry _ _ _ hentry
    obtain rfl := hsame _ _ _ _ _ o hdec hentry ho
    exact hs.pass ho _
  | fresh => exact hs.frame rfl (fun _ _ h => h) rfl rfl rfl rfl
  | @opened client user pkt hserve =>
    have ho : (s.openFlow stats client user).owners[s.flows.length]? =
        some ⟨client, user, userCounter stats user.email⟩ := by
      simp [UdpServer.openFlow, UdpServer.owners]
    exact (hs.openFlow client user).pass ho pkt
  | forwarded hserve hflow hroom =>
    exact (hs.frame (t := { s with serve := .receiving }) rfl (fun _ _ h => h) rfl rfl rfl
      rfl).setFlow hflow rfl
  | refused => exact hs.frame rfl (fun _ _ h => h) rfl rfl rfl rfl
  | recvError e hserve =>
    refine hs.frame ?_ nofun rfl rfl rfl rfl
    simp [UdpServer.owners, Flow.dropSender, Function.comp_def]
  | @reaped dead rest hserve hreap =>
    refine hs.frame ?_ (fun client x hx => ?_) rfl rfl rfl rfl
    · cases s.sessions dead with
      | none => rfl
      | some x => exact owners_modify x.1
    · by_cases hdead : client = dead
      · subst hdead
        simp only [Function.update_self] at hx
        cases hx
      · simpa only [Function.update_of_ne hdead] using hx
  | egress hflow hstep => exact hs.setFlow hflow rfl
  | take hflow hdown hpkt =>
    exact (hs.took (owners_getElem? hflow) _).setFlow hflow rfl
  | answer salt hflow hdown hsalt =>
    exact (hs.answered (owners_getElem? hflow) _ hsalt).setFlow hflow rfl
  | downEnd hflow hdown hend => exact hs.setFlow hflow rfl
  | @reap k f hflow hdown hroom hrun =>
    exact (hs.frame (t := { s with reap := s.reap ++ [f.owner.client] }) rfl (fun _ _ h => h) rfl
      rfl rfl rfl).setFlow hflow rfl
  | reapGone hflow hdown hgone => exact hs.setFlow hflow rfl

/-- A datagram that meets another user's entry goes through that user's flow. -/
theorem UdpStep.sameUser {a : UdpAct} (h : UdpStep P kind stats s a t)
    (ht : Attributed P kind stats before t) : SameUser P kind s a := by
  cases h with
  | ignored hserve hbuf hdec =>
    intro user target payload k counter owner hsome
    rw [hdec] at hsome
    cases hsome
  | known client hserve hbuf hdec hentry =>
    intro user target payload k counter owner hsome hsession howner
    rw [hdec] at hsome
    rw [hentry] at hsession
    cases hsome
    cases hsession
    obtain ⟨o, ho, huser⟩ := ht.through _ (List.mem_append_right _ List.mem_cons_self)
    change s.owners[_]? = _ at ho
    rw [howner] at ho
    obtain rfl := Option.some.inj ho
    exact huser
  | fresh client hserve hbuf hdec hentry =>
    intro user target payload k counter owner hsome hsession
    rw [hentry] at hsession
    cases hsession
  | setUsers | opened | forwarded | refused | recvError | reaped | egress | take | answer | downEnd
  | reap | reapGone => trivial

/-- **Attribution.**  In every run of the server, with any users and any swaps of their
table, any datagrams and any answers, in any order: everything is attributed to the right
users in every state exactly when no datagram meets an entry that another user has
opened. -/
theorem udp_attribution (P : Primitives) (kind : AeadKind) (stats : Bool) (users : List SsUser)
    (before : String → Counter) (s : UdpServer) (trace : List (UdpAct × UdpServer))
    (hrun : Run (UdpStep P kind stats) (.start users before) trace s) :
    (∀ p ∈ trace, Attributed P kind stats before p.2) ↔
      Meets (SameUser P kind) (.start users before) trace :=
  hrun.forall_holds_iff_meets (.start users) (fun _ h => h.attributed)
    (fun _ _ _ hs h hsame => h.inv hs hsame) (fun _ _ _ _ h ht => h.sameUser ht)

/-! ## Two users on one address -/

/-- What is sealed for the first user of a table is decoded as this user's. -/
theorem udpDecode_ssUdpEncode (hP : P.Lawful) (kind : AeadKind) (user : SsUser) (users : List SsUser)
    {salt : Bytes} (hsalt : salt.length = kind.keySize) {target : Destination}
    (htarget : target.address.Canonical) {payload : Bytes} (hlen : payload.length < 2 ^ 15) :
    ∃ dgram, ssUdpEncode P kind salt user.master target payload = some dgram ∧
      dgram.length ≤ recvBuf ∧
      udpDecode P kind (user :: users) dgram =
        some (⟨user.master, user.email⟩, .udp target.address target.port, payload) := by
  obtain ⟨aead, haead, rfl⟩ := exists_deriveAead hP kind user.master salt
  obtain ⟨addr, hwrite, hread⟩ := exists_write_read .SHADOWSOCKS target.port payload
    (fun d => htarget.length_le) (reread_canonical htarget)
  have haddr : addr.length ≤ 0x3fff := (length_write hwrite).2
  have hplain : (addr ++ payload).length < 2 ^ 16 := by
    rw [List.length_append]
    omega
  obtain ⟨ct, hseal, hct, hopen⟩ := Aead.open_seal hP aead
    (show (zeroNonce aead.kind).length = _ from List.length_replicate ..) hplain
  refine ⟨salt ++ ct, ?_, ?_, ?_⟩
  · simp only [ssUdpEncode, haead, hwrite, hseal]
  · have hkey : aead.kind.keySize ≤ 32 := by cases aead.kind <;> decide
    rw [List.length_append] at hplain ⊢
    unfold recvBuf
    unfold AeadKind.tag at hct
    rw [List.length_append] at hct
    omega
  · simp only [udpDecode, readExact_append hsalt, decodeFor, haead, hopen, hread]

/-- The users `alpha` and `beta`, each with its password as its name. -/
def alpha : SsUser := ⟨evpBytesToKey chachaPrimitives (asBytes "alpha") 32, "alpha", 0⟩

def beta : SsUser := ⟨evpBytesToKey chachaPrimitives (asBytes "beta") 32, "beta", 0⟩

/-- Where both send from. -/
def nat : SocketAddr := ⟨.v4 #v[192, 0, 2, 1], 5000⟩

/-- A datagram of the first user for `10.0.0.1:53`, with the table that has this user only. -/
theorem exists_first : ∃ dgram, dgram.length ≤ recvBuf ∧
    udpDecode chachaPrimitives .chaCha20Poly1305 [beta] dgram =
      some (⟨beta.master, beta.email⟩, .udp (.ip (.v4 #v[10, 0, 0, 1])) 53, [7]) := by
  have hsalt : (List.replicate 32 1 : Bytes).length = AeadKind.chaCha20Poly1305.keySize := rfl
  have htarget : (Destination.udp (.ip (.v4 #v[10, 0, 0, 1])) 53).address.Canonical := trivial
  have hlen : ([7] : Bytes).length < 2 ^ 15 := by decide
  obtain ⟨dgram, -, hbuf, hdec⟩ :=
    udpDecode_ssUdpEncode chachaPrimitives_lawful _ beta [] hsalt htarget hlen
  exact ⟨dgram, hbuf, hdec⟩

/-- A datagram of the second user for `10.0.0.2:53`, with the table of both. -/
theorem exists_second : ∃ dgram, dgram.length ≤ recvBuf ∧
    udpDecode chachaPrimitives .chaCha20Poly1305 [alpha, beta] dgram =
      some (⟨alpha.master, alpha.email⟩, .udp (.ip (.v4 #v[10, 0, 0, 2])) 53, [8, 9]) := by
  have hsalt : (List.replicate 32 2 : Bytes).length = AeadKind.chaCha20Poly1305.keySize := rfl
  have htarget : (Destination.udp (.ip (.v4 #v[10, 0, 0, 2])) 53).address.Canonical := trivial
  have hlen : ([8, 9] : Bytes).length < 2 ^ 15 := by decide
  obtain ⟨dgram, -, hbuf, hdec⟩ :=
    udpDecode_ssUdpEncode chachaPrimitives_lawful _ alpha [beta] hsalt htarget hlen
  exact ⟨dgram, hbuf, hdec⟩

/-- From two addresses, each user has a flow. -/
theorem udp_attribution_apart :
    ∃ trace s, Run (UdpStep chachaPrimitives .chaCha20Poly1305 true)
        (.start [beta] fun _ => ⟨0, 0⟩) trace s ∧
      s.passed.map (·.user.email) = ["beta", "alpha"] ∧
      ∀ p ∈ trace, Attributed chachaPrimitives .chaCha20Poly1305 true (fun _ => ⟨0, 0⟩) p.2 := by
  obtain ⟨first, hfirst, hdecFirst⟩ := exists_first
  obtain ⟨second, hsecond, hdecSecond⟩ := exists_second
  have hrun : Run (UdpStep chachaPrimitives .chaCha20Poly1305 true)
      (.start [beta] fun _ => ⟨0, 0⟩) _ _ :=
    .cons (.fresh nat rfl hfirst hdecFirst rfl)
    (.cons (.opened rfl)
    (.cons (.forwarded rfl rfl ⟨rfl, rfl, by decide⟩)
    (.cons (.setUsers [alpha, beta])
    (.cons (.fresh { nat with port := 5001 } rfl hsecond hdecSecond rfl)
    (.cons (.opened rfl)
    (.nil _))))))
  refine ⟨_, _, hrun, rfl, (udp_attribution _ _ _ _ _ _ _ hrun).mpr ?_⟩
  exact ⟨sameUser_of_new _ _ rfl, trivial, trivial, trivial, sameUser_of_new _ _ rfl, trivial, trivial⟩

/-- **Not every run attributes rightly.**  Two users share a source address.  One of them
opens the flow; the datagram of the other is counted for the first, and so is its answer,
which is sealed with the key of the first. -/
theorem udp_attribution_mixed :
    ∃ trace s, Run (UdpStep chachaPrimitives .chaCha20Poly1305 true)
        (.start [beta] fun _ => ⟨0, 0⟩) trace s ∧
      ¬ Attributed chachaPrimitives .chaCha20Poly1305 true (fun _ => ⟨0, 0⟩) s ∧
      s.passed.map (·.user.email) = ["beta", "alpha"] ∧
      s.counters "beta" = ⟨3, 1⟩ ∧ s.counters "alpha" = ⟨0, 0⟩ ∧
      s.sent = [⟨0, ⟨[5], .udp (.ip (.v4 #v[10, 0, 0, 2])) 53⟩,
        ssUdpEncode chachaPrimitives .chaCha20Poly1305 (.replicate 32 3) beta.master
          (.udp (.ip (.v4 #v[10, 0, 0, 2])) 53) [5]⟩] := by
  obtain ⟨first, hfirst, hdecFirst⟩ := exists_first
  obtain ⟨second, hsecond, hdecSecond⟩ := exists_second
  refine ⟨_, _,
    .cons (.fresh nat rfl hfirst hdecFirst rfl)
    (.cons (.opened rfl)
    (.cons (.forwarded rfl rfl ⟨rfl, rfl, by decide⟩)
    (.cons (.setUsers [alpha, beta])
    (.cons (.known nat rfl hsecond hdecSecond rfl)
    (.cons (.forwarded rfl rfl ⟨rfl, rfl, by decide⟩)
    -- the egress sends the second datagram behind the first, and has the answer
    (.cons (.egress (k := 0) rfl (.bound rfl rfl))
    (.cons (.egress (k := 0) rfl (.take rfl rfl ⟨rfl, rfl⟩))
    (.cons (.egress (k := 0) rfl (.resolved rfl rfl))
    (.cons (.egress (k := 0) rfl (.sent rfl rfl))
    (.cons (.egress (k := 0) rfl (.take rfl rfl ⟨rfl, rfl⟩))
    (.cons (.egress (k := 0) rfl (.resolved rfl rfl))
    (.cons (.egress (k := 0) rfl (.sent rfl rfl))
    (.cons (.egress (k := 0) rfl (.recv ⟨[5], .udp (.ip (.v4 #v[10, 0, 0, 2])) 53⟩ rfl nofun rfl
      (by decide) ⟨rfl, rfl⟩))
    (.cons (.egress (k := 0) rfl (.deliver rfl rfl ⟨rfl, rfl, by decide⟩))
    (.cons (.take (k := 0) rfl rfl ⟨rfl, rfl⟩)
    (.cons (.answer (k := 0) (.replicate 32 3) rfl rfl rfl)
    (.nil _))))))))))))))))), ?_, rfl, rfl, rfl, rfl⟩
  intro h
  have hup := h.up _ (List.mem_cons_of_mem _ List.mem_cons_self)
  exact absurd hup (by decide)

end XrayRs.SsUdp
