import XrayRs.DatagramCodecs
import XrayRs.StepSystem

/-! # The UDP association of SOCKS5

`socks_udp_associate` (`proxy/src/socks.rs`) serves datagrams of a client on one socket and
has the answers of the targets on another.  It runs one loop: at each turn it takes a
datagram of the client's side, or an answer, or bytes of the control connection, and while
it works on one of them it takes nothing else.

Anybody can send to the socket of the client's side.  The loop notes the sender before it
knows that the datagram decodes, so an answer goes to the sender of the last datagram, and
that one has used the association only if the datagram decodes or an accepted one came from
the same address before (`answers_to_user_iff`). -/

namespace XrayRs

open ByteWords StepSystem SsUdp

/-- Where the loop is: before the second socket is there, in `select!`, asking the resolver,
sending a datagram to its target, or sending an answer to a client. -/
inductive AssocStage
  | binding
  | selecting
  | resolving (target : Destination) (payload : Bytes)
  | sending (payload : Bytes) (addr : SocketAddr)
  | replying (d : Bytes) (addr : SocketAddr)
  deriving DecidableEq

/-- `socks_udp_associate`: the loop, the client it answers, the counter, the datagrams sent
on either socket, and the result. -/
structure Associate where
  stage : AssocStage
  client : Option SocketAddr
  counter : Option Counter
  sent : List (Bytes × SocketAddr)
  replied : List (Bytes × SocketAddr)
  result : Option (Except IoError Unit)

/-- The answers of `resolve_first`: the address itself, or one that the resolver gives. -/
def Resolves (target : Destination) (addr : SocketAddr) : Prop :=
  addr.port = target.port ∧ ∀ ip, target.address = .ip ip → addr.ip = ip

namespace Associate

/-- `socks_udp_associate`, up to its first suspension point. -/
def socksUdpAssociate (counter : Option Counter) : Associate :=
    ⟨.binding, none, counter, [], [], none⟩

/-- `sock.recv_from` gave a datagram. -/
def onDatagram (s : Associate) (sender : SocketAddr) (d : Bytes) : Associate :=
  { s with
    client := some sender
    stage := match decodeSocksUdp d with
      | some (target, payload) => .resolving target payload
      | none => .selecting }

/-- `resolve_first` gave an address. -/
def onResolved (s : Associate) (payload : Bytes) (addr : SocketAddr) : Associate :=
  { s with
    counter := s.counter.map (·.addUp (.ofNat payload.length))
    stage := .sending payload addr }

/-- `egress.recv_from` gave an answer. -/
def onAnswer (s : Associate) (source : SocketAddr) (payload : Bytes) : Associate :=
  match s.client with
  | none => s
  | some addr =>
    match encodeSocksUdp (.udp (.ip source.ip) source.port) payload with
    | none => s
    | some d =>
      { s with
        counter := s.counter.map (·.addDown (.ofNat payload.length))
        stage := .replying d addr }

/-- The loop returns. -/
def ret (s : Associate) (result : Except IoError Unit) : Associate :=
    { s with result := some result }

/-- An answer is on its way to the address. -/
def SendsTo (s : Associate) (addr : SocketAddr) : Prop := ∃ d, s.stage = .replying d addr

end Associate

/-- The moves of the loop: a datagram of the client's side, an answer, bytes of the control
connection or its end, and what becomes of the work on a datagram or an answer. -/
inductive AssocAct
  | bound
  | datagram (sender : SocketAddr) (d : Bytes)
  | resolved (addr : SocketAddr)
  | unresolved
  | sent
  | answer (source : SocketAddr) (payload : Bytes)
  | replied
  | sendFailed
  | control (n : Nat)
  | hangup
  | idle
  | error
  deriving DecidableEq

/-- One step of the loop. -/
inductive AssocStep (s : Associate) : AssocAct → Associate → Prop
  | bound (hrun : s.result = none) (hstage : s.stage = .binding) :
      AssocStep s .bound { s with stage := .selecting }
  | bindError (e : IoError) (hrun : s.result = none) (hstage : s.stage = .binding) :
      AssocStep s .error (s.ret (.error e))
  | datagram (sender : SocketAddr) (d : Bytes) (hrun : s.result = none)
      (hstage : s.stage = .selecting)
      (hbuf : d.length ≤ recvBuf) : AssocStep s (.datagram sender d) (s.onDatagram sender d)
  | resolved {target : Destination} {payload : Bytes} (addr : SocketAddr) (hrun : s.result = none)
      (hstage : s.stage = .resolving target payload) (haddr : Resolves target addr) :
      AssocStep s (.resolved addr) (s.onResolved payload addr)
  -- the datagram is given up, the loop goes on
  | unresolved {target : Destination} {payload : Bytes} (hrun : s.result = none)
      (hstage : s.stage = .resolving target payload) (hname : target.address.isIp = false) :
      AssocStep s .unresolved { s with stage := .selecting }
  | sent {payload : Bytes} {addr : SocketAddr} (hrun : s.result = none)
      (hstage : s.stage = .sending payload addr) :
      AssocStep s .sent { s with stage := .selecting, sent := s.sent ++ [(payload, addr)] }
  | answer (source : SocketAddr) (payload : Bytes) (hrun : s.result = none)
      (hstage : s.stage = .selecting)
      (hbuf : payload.length ≤ recvBuf) :
        AssocStep s (.answer source payload) (s.onAnswer source payload)
  | replied {d : Bytes} {addr : SocketAddr} (hrun : s.result = none)
      (hstage : s.stage = .replying d addr) :
      AssocStep s .replied { s with stage := .selecting, replied := s.replied ++ [(d, addr)] }
  -- the results of both `send_to` are ignored
  | sendFailed {payload : Bytes} {addr : SocketAddr} (hrun : s.result = none)
      (hstage : s.stage = .sending payload addr ∨ s.stage = .replying payload addr) :
      AssocStep s .sendFailed { s with stage := .selecting }
  | control (n : Nat) (hrun : s.result = none) (hstage : s.stage = .selecting) (hpos : 0 < n)
      (hbuf : n ≤ 512) : AssocStep s (.control n) s
  | hangup (hrun : s.result = none) (hstage : s.stage = .selecting) :
      AssocStep s .hangup (s.ret (.ok ()))
  | idle (hrun : s.result = none) (hstage : s.stage = .selecting) :
      AssocStep s .idle (s.ret (.ok ()))
  | recvError (e : IoError) (hrun : s.result = none) (hstage : s.stage = .selecting) :
      AssocStep s .error (s.ret (.error e))

/-! ## What has come in -/

/-- The datagram that an action takes in. -/
def AssocAct.incoming : AssocAct → Option (SocketAddr × Bytes)
  | .datagram sender d => some (sender, d)
  | _ => none

/-- The datagrams of the client's side, so far. -/
def incoming (acts : List AssocAct) : List (SocketAddr × Bytes) := acts.filterMap AssocAct.incoming

/-- The last of them. -/
def lastDatagram (acts : List AssocAct) : Option (SocketAddr × Bytes) := (incoming acts).getLast?

/-- The sender of the last one that `decode_socks_udp` accepted. -/
def lastUser (acts : List AssocAct) : Option SocketAddr :=
  ((incoming acts).filter fun p => (decodeSocksUdp p.2).isSome).getLast?.map Prod.fst

section Runs

variable {s t : Associate} {a : AssocAct} {trace : List (AssocAct × Associate)}

/-- What a step does to the address that is answered. -/
theorem AssocStep.client (h : AssocStep s a t) :
    t.client = (a.incoming.map Prod.fst).or s.client := by
  cases h with
  | answer source payload =>
    show (s.onAnswer source payload).client = s.client
    unfold Associate.onAnswer
    split
    · rfl
    · split <;> rfl
  | datagram => rfl
  | bound | bindError | resolved | unresolved | sent | replied => rfl
  | sendFailed | control | hangup | idle | recvError => rfl

/-- **The loop answers the sender of the last datagram.** -/
theorem client_of_run (h : Run AssocStep s trace t) :
    t.client = ((lastDatagram (trace.map Prod.fst)).map Prod.fst).or s.client := by
  induction h with
  | nil => rfl
  | @cons s t u a trace hstep hrun ih =>
    -- a datagram of this step counts unless the rest has one
    rw [ih, hstep.client]
    unfold lastDatagram incoming
    rw [List.map_cons, List.filterMap_cons]
    cases a.incoming with
    | none => rfl
    | some p =>
      rw [List.getLast?_cons]
      cases (List.filterMap AssocAct.incoming (trace.map Prod.fst)).getLast? <;> rfl

theorem exists_encodeSocksUdp (source : SocketAddr) (payload : Bytes) :
    ∃ d, encodeSocksUdp (.udp (.ip source.ip) source.port) payload = some d := by
  obtain ⟨addr, haddr⟩ :=
    write_eq_ok AddrCodec.SOCKS (.ip source.ip) source.port fun d hd => by cases hd
  refine ⟨[0, 0, 0] ++ addr ++ payload, ?_⟩
  unfold encodeSocksUdp
  simp only [Destination.udp, haddr]

theorem sendsTo_onAnswer {source addr : SocketAddr} {payload : Bytes}
    (hstage : s.stage = .selecting) :
    (s.onAnswer source payload).SendsTo addr ↔ s.client = some addr := by
  obtain ⟨d, hd⟩ := exists_encodeSocksUdp source payload
  unfold Associate.SendsTo Associate.onAnswer
  cases hclient : s.client with
  | none => simp [hstage]
  | some client => simp [hd]

/-- The sender of the last datagram is the last user, unless that datagram is the first bad
one of somebody else. -/
theorem lastDatagram_eq_lastUser {acts : List AssocAct} :
    (lastDatagram acts).map Prod.fst = lastUser acts ↔
      ∀ sender d, lastDatagram acts = some (sender, d) →
      (decodeSocksUdp d).isSome = true ∨ lastUser acts = some sender := by
  constructor
  · intro h sender d hlast
    rw [← h, hlast]
    exact .inr rfl
  · intro h
    cases hlast : lastDatagram acts with
    | none =>
      unfold lastUser
      rw [List.getLast?_eq_none_iff.mp hlast]
      rfl
    | some p =>
      obtain ⟨sender, d⟩ := p
      rcases h sender d hlast with hdec | huser
      · obtain ⟨before, hbefore⟩ := List.getLast?_eq_some_iff.mp hlast
        unfold lastUser
        rw [hbefore, List.filter_append, List.filter_cons_of_pos (by exact hdec), List.filter_nil,
          List.getLast?_concat]
      · rw [huser]
        rfl

end Runs

/-! ## Where the answers go -/

/-- Each answer is sent to the sender of the last datagram that was accepted before, and to
nobody if there was none. -/
def AnswersUsers (trace : List (AssocAct × Associate)) : Prop :=
  ∀ before source payload t after, trace = before ++ (.answer source payload, t) :: after →
    ∀ addr, t.SendsTo addr ↔ lastUser (before.map Prod.fst) = some addr

/-- When an answer arrives, the last datagram of the client's side decodes, or has come from
where the last accepted one came from. -/
def Undisturbed (trace : List (AssocAct × Associate)) : Prop :=
  ∀ before source payload t after, trace = before ++ (.answer source payload, t) :: after →
    ∀ sender d, lastDatagram (before.map Prod.fst) = some (sender, d) →
      (decodeSocksUdp d).isSome = true ∨ lastUser (before.map Prod.fst) = some sender

/-- **Whom the association answers.**  In every run, each answer goes to the last user, and
to nobody if there was none, if and only if no answer arrives behind a datagram that does
not decode and is not the last user's. -/
theorem answers_to_user_iff (counter : Option Counter)
    {trace : List (AssocAct × Associate)} {s : Associate}
    (h : Run AssocStep (.socksUdpAssociate counter) trace s) : AnswersUsers trace ↔
      Undisturbed trace := by
  refine forall_congr' fun before => forall_congr' fun source => forall_congr' fun payload =>
    forall_congr' fun t => forall_congr' fun after => imp_congr_right fun htrace => ?_
  subst htrace
  obtain ⟨m, hbefore, hrest⟩ := h.exists_of_append
  have hclient := client_of_run hbefore
  rw [show (Associate.socksUdpAssociate counter).client = none from rfl, Option.or_none] at hclient
  cases hrest with
  | cons hstep hafter =>
    cases hstep with
    | answer _ _ hrun hstage hbuf =>
      simp only [sendsTo_onAnswer hstage, hclient]
      rw [← lastDatagram_eq_lastUser]
      exact ⟨fun hsame => Option.ext hsame, fun hsame addr => by rw [hsame]⟩

/-- An address needs no resolver. -/
theorem resolves_ip {target : Destination} {addr : SocketAddr}
    (haddr : target.address = .ip addr.ip)
    (hport : addr.port = target.port) : Resolves target addr :=
  ⟨hport, fun _ hip => Address.ip.inj (haddr.symm.trans hip)⟩

/-- The address of a client. -/
def clientAddr : SocketAddr := ⟨.v4 #v[203, 0, 113, 7], 5000⟩

/-- That of somebody else. -/
def otherAddr : SocketAddr := ⟨.v4 #v[198, 51, 100, 7], 9⟩

/-- That of a target. -/
def targetAddr : SocketAddr := ⟨.v4 #v[10, 0, 0, 5], 53⟩

/-- A datagram for the target with one byte. -/
def request : Bytes := [0, 0, 0, 1, 10, 0, 0, 5, 0, 53, 7]

/-- Bad datagrams of the client itself do no harm. -/
theorem answers_to_user_iff_own : ∃ trace s, Run AssocStep (.socksUdpAssociate none) trace s ∧
    s.sent = [([7], targetAddr)] ∧ s.replied.map Prod.snd = [clientAddr] ∧ AnswersUsers trace := by
  have hrun : Run AssocStep (.socksUdpAssociate none) _ _ :=
    .cons (.bound rfl rfl)
    (.cons (.datagram clientAddr request rfl rfl (by decide))
    (.cons (.resolved targetAddr rfl rfl (resolves_ip rfl rfl))
    (.cons (.sent rfl rfl)
    (.cons (.datagram clientAddr [1] rfl rfl (by decide))
    (.cons (.answer targetAddr [5] rfl rfl (by decide))
    (.cons (.replied rfl rfl)
    (.nil _)))))))
  refine ⟨_, _, hrun, rfl, rfl, (answers_to_user_iff none hrun).mpr ?_⟩
  intro before source payload t after htrace sender d hlast
  have hacts := congrArg (List.map Prod.fst) htrace
  rw [List.map_append, List.map_cons] at hacts
  generalize before.map Prod.fst = acts at hacts hlast
  obtain rfl : acts = [.bound, .datagram clientAddr request, .resolved targetAddr, .sent,
      .datagram clientAddr [1]] := by
    simp [List.cons_eq_append_iff] at hacts
    exact hacts.1
  obtain ⟨rfl, rfl⟩ := Prod.mk.inj (Option.some.inj hlast)
  exact .inr (by decide)

/-- **A stranger is answered.**  A byte from somebody else, which does not decode, has the
answer to the client's request sent there. -/
theorem answers_to_stranger : ∃ trace s, Run AssocStep (.socksUdpAssociate none) trace s ∧
    s.sent = [([7], targetAddr)] ∧ s.replied.map Prod.snd = [otherAddr] ∧
      decodeSocksUdp [1] = none ∧ ¬ AnswersUsers trace := by
  have hbefore : Run AssocStep (.socksUdpAssociate none) _ _ :=
    .cons (.bound rfl rfl)
    (.cons (.datagram clientAddr request rfl rfl (by decide))
    (.cons (.resolved targetAddr rfl rfl (resolves_ip rfl rfl))
    (.cons (.sent rfl rfl)
    (.cons (.datagram otherAddr [1] rfl rfl (by decide))
    (.nil _)))))
  refine ⟨_, _, hbefore.trans (.cons (.answer targetAddr [5] rfl rfl (by decide))
    (.cons (.replied rfl rfl) (.nil _))), rfl, rfl, by decide, fun h => ?_⟩
  have huser := (h _ _ _ _ _ rfl otherAddr).mp ⟨_, rfl⟩
  exact absurd huser (by decide)

end XrayRs
