import XrayRs.Mux
import XrayRs.StepSystem

/-! # Whose bytes a mux session carries

A session id is the client's choice, and the task that frames the answers of a
sub-session outlives the session's entry in the map.  Nothing keeps such a task from
sending under an id that a newer session has by then.

What every step does to a sub-session is said once (`Sub.Next`).  From it follows what
is true under the condition that an id is used again only when all is over that was
opened under it (`orderly_of_step`). -/

namespace XrayRs.Mux

open BoundedChannel ByteWords StepSystem

/-! ## Where the bytes of a frame come from -/

/-- The frame is a `Keep` frame with a piece of what the session's downlink task took
off its link. -/
def Flow.Carries (sid : UInt16) (frame : OutFrame) : Flow → Prop
  | .tcp _ down _ => ∃ chunk ∈ down.taken, frame.payload ∈ chunks maxData chunk ∧
      frame.bytes = frameKeepTcp sid frame.payload
  | .udp _ down _ => ∃ pkt ∈ down.taken, frame.payload ∈ chunks maxData pkt.data ∧
      frameKeepUdp sid pkt.target frame.payload = some frame.bytes

/-- What is on the downlink of a TCP session are bytes that its target sent on the
connection dialled for it; before that connection there is nothing. -/
def Flow.Sound : Flow → Prop
  | .tcp up down .dialing => up.taken = [] ∧ down.sent = []
  | .tcp up down (.splicing r) => ∃ bytes, Accounts [] bytes none ⟨r, ⟨up, down⟩⟩
  | .tcp _ down .failed => down.sent = []
  | .udp .. => True

/-- The frame is one of this session: its `End`, or a `Keep` with bytes from its own
target.  On a UDP session these are the datagrams its socket received. -/
def Sub.Frames (sub : Sub) (frame : OutFrame) : Prop :=
  (frame.payload = [] ∧ frame.bytes = frameEnd sub.sid) ∨ sub.flow.Carries sub.sid frame

/-! ## What a step does to a sub-session -/

/-- How the sub-session at position `k` changes. -/
structure Sub.Next (k : Nat) (sub sub' : Sub) : Prop where
  sid_eq : sub'.sid = sub.sid
  target_eq : sub'.target = sub.target
  sound : sub.flow.Sound → sub'.flow.Sound
  done : sub.downlink = .done → sub'.downlink = .done
  carries : ∀ frame, sub.flow.Carries sub.sid frame → sub'.flow.Carries sub.sid frame
  /-- A frame it is sending was there before, or is one of its own. -/
  sending : ∀ frames, sub'.downlink = .sending frames → ∀ frame ∈ frames,
    (∃ before, sub.downlink = .sending before ∧ frame ∈ before) ∨
      frame.sub = k ∧ sub'.flow.Carries sub.sid frame

namespace Sub.Next

variable {k : Nat} {sub sub' sub'' : Sub}

theorem refl (k : Nat) (sub : Sub) : Next k sub sub :=
  ⟨rfl, rfl, id, id, fun _ => id, fun frames h _ hmem => .inl ⟨frames, h, hmem⟩⟩

theorem trans (h : Next k sub sub') (h' : Next k sub' sub'') : Next k sub sub'' := by
  refine ⟨h'.sid_eq.trans h.sid_eq, h'.target_eq.trans h.target_eq, fun hs => h'.sound (h.sound hs),
    fun hd => h'.done (h.done hd), fun frame hc => ?_, fun frames hf frame hmem => ?_⟩
  · have hc' := h'.carries frame
    rw [h.sid_eq] at hc'
    exact hc' (h.carries frame hc)
  · have hc' := h'.carries frame
    rw [h.sid_eq] at hc'
    rcases h'.sending frames hf frame hmem with ⟨before, hbefore, hmem'⟩ | ⟨hsub, hown⟩
    · rcases h.sending before hbefore frame hmem' with hold | ⟨hsub, hown⟩
      · exact .inl hold
      · exact .inr ⟨hsub, hc' hown⟩
    · rw [h.sid_eq] at hown
      exact .inr ⟨hsub, hown⟩

/-- Only the flow changes, and its downlink only grows. -/
theorem of_flow {flow : Flow} (hsound : sub.flow.Sound → flow.Sound)
    (hcarries : ∀ frame, sub.flow.Carries sub.sid frame → flow.Carries sub.sid frame) :
    Next k sub { sub with flow := flow } :=
  ⟨rfl, rfl, hsound, id, hcarries, fun frames h _ hmem => .inl ⟨frames, h, hmem⟩⟩

end Sub.Next

namespace Flow

variable {flow : Flow} {sid : UInt16} {frame : OutFrame}

theorem sound_push (pkt : UdpPacket) (hroom : flow.CanSend) (h : flow.Sound) :
    (flow.push pkt).Sound := by
  cases flow with
  | tcp up down egress =>
    cases egress with
    | dialing => exact h
    | splicing r =>
      obtain ⟨bytes, haccounts⟩ := h
      exact ⟨bytes, haccounts.peer (.push _ hroom) .stay⟩
    | failed => exact h
  | udp up down egress => exact h

theorem sound_dropWriter (h : flow.Sound) : flow.dropWriter.Sound := by
  cases flow with
  | tcp up down egress =>
    cases egress with
    | dialing => exact h
    | splicing r =>
      obtain ⟨bytes, haccounts⟩ := h
      exact ⟨bytes, haccounts.peer .drop .stay⟩
    | failed => exact h
  | udp up down egress => exact h

theorem sound_dropReader (h : flow.Sound) : flow.dropReader.Sound := by
  cases flow with
  | tcp up down egress =>
    cases egress with
    | dialing => exact h
    | splicing r =>
      obtain ⟨bytes, haccounts⟩ := h
      exact ⟨bytes, haccounts.peer .stay .drop⟩
    | failed => exact h
  | udp up down egress => exact h

@[simp] theorem carries_push (pkt : UdpPacket) :
    (flow.push pkt).Carries sid frame ↔ flow.Carries sid frame := by
  cases flow <;> rfl

@[simp] theorem carries_dropWriter : flow.dropWriter.Carries sid frame ↔ flow.Carries sid frame := by
  cases flow <;> rfl

@[simp] theorem carries_dropReader : flow.dropReader.Carries sid frame ↔ flow.Carries sid frame := by
  cases flow <;> rfl

end Flow

namespace Sub

variable {k : Nat} {sub : Sub}

theorem next_push (pkt : UdpPacket) (hroom : sub.flow.CanSend) :
    Next k sub { sub with flow := sub.flow.push pkt } :=
  .of_flow (Flow.sound_push pkt hroom) fun _ => (Flow.carries_push pkt).mpr

theorem next_dropWriter : Next k sub sub.dropWriter :=
  .of_flow Flow.sound_dropWriter fun _ => Flow.carries_dropWriter.mpr

/-- The downlink task is spawned, on a session that has none yet. -/
theorem next_spawn (h : sub.downlink = .unborn) : Next k sub sub.spawn := by
  refine ⟨rfl, rfl, id, fun hdone => ?_, fun _ => id, fun frames hs => by cases hs⟩
  rw [h] at hdone
  cases hdone

theorem next_finish : Next k sub sub.finish :=
  ⟨rfl, rfl, Flow.sound_dropReader, fun _ => rfl, fun _ => Flow.carries_dropReader.mpr,
    fun frames hs => by cases hs⟩

end Sub

/-! ## What a step does to all of them -/

/-- Every sub-session goes on at its position. -/
structure Advances (subs subs' : List Sub) : Prop where
  length_eq : subs'.length = subs.length
  next : ∀ k sub, subs[k]? = some sub → ∃ sub', subs'[k]? = some sub' ∧ Sub.Next k sub sub'

namespace Advances

variable {subs subs' subs'' : List Sub} {k : Nat} {sub sub' : Sub}

theorem refl (subs : List Sub) : Advances subs subs := ⟨rfl, fun k sub h => ⟨sub, h, .refl k sub⟩⟩

theorem trans (h : Advances subs subs') (h' : Advances subs' subs'') : Advances subs subs'' := by
  refine ⟨h'.length_eq.trans h.length_eq, fun k sub hsub => ?_⟩
  obtain ⟨mid, hmid, hnext⟩ := h.next k sub hsub
  obtain ⟨last, hlast, hnext'⟩ := h'.next k mid hmid
  exact ⟨last, hlast, hnext.trans hnext'⟩

theorem set (hsub : subs[k]? = some sub) (h : Sub.Next k sub sub') :
    Advances subs (subs.set k sub') := by
  refine ⟨List.length_set, fun j other hother => ?_⟩
  by_cases hj : k = j
  · subst hj
    rw [hsub] at hother
    cases hother
    refine ⟨sub', ?_, h⟩
    rw [List.getElem?_set_self (List.getElem?_eq_some_iff.mp hsub).1]
  · exact ⟨other, by rw [List.getElem?_set_ne hj, hother], .refl j other⟩

theorem modify {f : Sub → Sub} (h : ∀ sub, subs[k]? = some sub → Sub.Next k sub (f sub)) :
    Advances subs (subs.modify k f) := by
  refine ⟨List.length_modify f subs k, fun j other hother => ?_⟩
  rw [List.getElem?_modify]
  by_cases hj : k = j
  · subst hj
    exact ⟨f other, by simp [hother], h other hother⟩
  · exact ⟨other, by simp [hj, hother], .refl j other⟩

theorem map {f : Sub → Sub} (h : ∀ k sub, Sub.Next k sub (f sub)) : Advances subs (subs.map f) :=
  ⟨List.length_map f, fun k sub hsub => ⟨f sub, by rw [List.getElem?_map, hsub]; rfl, h k sub⟩⟩

/-- Nothing appears at a position that was free. -/
theorem back (h : Advances subs subs') (hsub : subs'[k]? = some sub') :
    ∃ sub, subs[k]? = some sub ∧ Sub.Next k sub sub' := by
  have hlt : k < subs.length := by
    rw [← h.length_eq]
    exact (List.getElem?_eq_some_iff.mp hsub).1
  obtain ⟨last, hlast, hnext⟩ := h.next k subs[k] (List.getElem?_eq_getElem hlt)
  rw [hsub] at hlast
  cases hlast
  exact ⟨subs[k], List.getElem?_eq_getElem hlt, hnext⟩

end Advances

namespace Carrier

/-- A session that is being seeded has no downlink task yet. -/
def Seeded (c : Carrier) : Prop :=
  ∀ k pkt, c.demux = .seeding k pkt → (c.subs.map Sub.downlink)[k]? = some .unborn

theorem advances_finish (c : Carrier) (result : Except IoError Unit) :
    Advances c.subs (c.finish result).subs := .map fun _ _ => Sub.next_dropWriter

theorem advances_readFailed (c : Carrier) (e : IoError) :
    Advances c.subs (c.readFailed e).subs := by
  unfold readFailed
  split
  · exact c.advances_finish _
  · exact c.advances_finish _

theorem advances_remove (c : Carrier) (sid : UInt16) : Advances c.subs (c.remove sid).subs := by
  unfold remove
  split
  · exact .refl _
  · exact .modify fun sub _ => Sub.next_dropWriter

theorem remove_downlinks (c : Carrier) (sid : UInt16) :
    (c.remove sid).subs.map Sub.downlink = c.subs.map Sub.downlink := by
  unfold remove
  split
  · rfl
  · exact map_modify_eq (g := Sub.dropWriter) (fun _ => rfl) _ _

theorem advances_register {c : Carrier} {k : Nat} (sid : UInt16)
    (h : (c.subs.map Sub.downlink)[k]? = some .unborn) :
    Advances c.subs (c.register sid k).subs := by
  refine (c.advances_remove sid).trans (.modify fun sub hsub => Sub.next_spawn ?_)
  rw [← c.remove_downlinks sid, List.getElem?_map, hsub] at h
  exact Option.some.inj h

/-- What a frame opens: the session of a `New` with a target. -/
def opened (info : Meta) : Option UInt16 :=
  if info.status = stNew ∧ info.target.isSome then some info.sid else none

/-- What a field opens: it completes the frame, and the frame is a `New`. -/
def openedBy (c : Carrier) (field : Bytes) : Option UInt16 :=
  match c.demux with
  | .metadata _ =>
    (parseMeta field).bind fun info => if info.option &&& optData ≠ 0 then none else opened info
  | .data info _ => opened info
  | _ => none

/-- The session id that a move opens. -/
def opens (c : Carrier) : Act → Option UInt16
  | .field => c.demux.need.bind fun n => c.openedBy (c.buf.take n)
  | _ => none

/-- The sub-sessions go on, and there may be a new one under the id `s`. -/
def Grows (c c' : Carrier) (s : Option UInt16) : Prop :=
  Advances c.subs c'.subs ∨
    ∃ sid target, s = some sid ∧ Advances (c.subs ++ [newSub sid target]) c'.subs

theorem unborn_newSub (subs : List Sub) (sid : UInt16) (target : Destination) :
    ((subs ++ [newSub sid target]).map Sub.downlink)[subs.length]? = some .unborn := by
  rw [List.getElem?_map, List.getElem?_concat_length]
  unfold newSub
  split <;> rfl

theorem Outcome.grows {c c' : Carrier} {info : Meta} {data : Option Bytes}
    (h : Outcome c info data c') : Grows c c' (opened info) := by
  cases h with
  | skip | keep => exact .inl (.refl _)
  | @register target hstatus htarget =>
    have hopened : opened info = some info.sid := if_pos ⟨hstatus, by rw [htarget]; rfl⟩
    exact .inr ⟨info.sid, target, hopened, advances_register
      (c := { c with subs := c.subs ++ [newSub info.sid target] }) info.sid (unborn_newSub _ _ _)⟩
  | @seed target d hstatus htarget =>
    have hopened : opened info = some info.sid := if_pos ⟨hstatus, by rw [htarget]; rfl⟩
    exact .inr ⟨info.sid, target, hopened, .refl _⟩
  | close => exact .inl (c.advances_remove info.sid)
  | fail => exact .inl (c.advances_finish _)

theorem grows_onField (c : Carrier) (field : Bytes) :
    Grows c (c.onField field) (c.openedBy field) := by
  unfold onField openedBy
  cases hdemux : c.demux with
  | metalen =>
    dsimp only
    split
    · exact .inl (c.advances_finish _)
    · exact .inl (.refl _)
  | metadata len =>
    dsimp only
    cases parseMeta field with
    | none => exact .inl (c.advances_finish _)
    | some info =>
      simp only [Option.bind_some]
      split
      · exact .inl (.refl _)
      · exact (c.outcome_handle info none).grows
  | datalen info =>
    dsimp only
    split
    · exact .inl (c.advances_finish _)
    · exact .inl (.refl _)
  | data info len => exact (c.outcome_handle info _).grows
  | seeding | keeping | draining | returned => exact .inl (.refl _)

/-- The frames between the tasks and the client: the one the writer is at, and those in
the channel to it. -/
def onWay (c : Carrier) : List OutFrame :=
  match c.writer with
  | .writing frame _ => frame :: c.out
  | _ => c.out

theorem mem_onWay {c : Carrier} {frame : OutFrame} :
    frame ∈ c.onWay ↔ (∃ rest, c.writer = .writing frame rest) ∨ frame ∈ c.out := by
  unfold onWay
  cases c.writer with
  | writing other rest => simp [eq_comm]
  | receiving | flushing | done => simp

/-- The writer's side is left alone. -/
structure SameWriter (c c' : Carrier) : Prop where
  conn_eq : c'.conn = c.conn
  out_eq : c'.out = c.out
  writer_eq : c'.writer = c.writer
  written_eq : c'.written = c.written

theorem SameWriter.onWay_eq {c c' : Carrier} (h : SameWriter c c') : c'.onWay = c.onWay := by
  unfold onWay
  rw [h.writer_eq, h.out_eq]

theorem remove_sameWriter (c : Carrier) (sid : UInt16) : SameWriter c (c.remove sid) := by
  unfold remove
  split <;> exact ⟨rfl, rfl, rfl, rfl⟩

theorem register_sameWriter (c : Carrier) (sid : UInt16) (k : Nat) :
    SameWriter c (c.register sid k) :=
  have h := c.remove_sameWriter sid
  ⟨h.conn_eq, h.out_eq, h.writer_eq, h.written_eq⟩

theorem readFailed_sameWriter (c : Carrier) (e : IoError) : SameWriter c (c.readFailed e) := by
  obtain ⟨result, heq⟩ := c.readFailed_eq e
  rw [heq]
  exact ⟨rfl, rfl, rfl, rfl⟩

theorem Outcome.sameWriter {c c' : Carrier} {info : Meta} {data : Option Bytes}
    (h : Outcome c info data c') : SameWriter c c' := by
  cases h with
  | skip | keep | seed | fail => exact ⟨rfl, rfl, rfl, rfl⟩
  | @register target =>
    have h := register_sameWriter { c with subs := c.subs ++ [newSub info.sid target] } info.sid
      c.subs.length
    exact ⟨h.conn_eq, h.out_eq, h.writer_eq, h.written_eq⟩
  | close =>
    have h := c.remove_sameWriter info.sid
    exact ⟨h.conn_eq, h.out_eq, h.writer_eq, h.written_eq⟩

theorem onField_sameWriter (c : Carrier) (field : Bytes) : SameWriter c (c.onField field) := by
  rcases c.onField_eq field with ⟨result, heq⟩ | ⟨next, heq, -⟩ | ⟨info, data, heq⟩ | heq <;> rw [heq]
  · exact ⟨rfl, rfl, rfl, rfl⟩
  · exact ⟨rfl, rfl, rfl, rfl⟩
  · exact (c.outcome_handle info data).sameWriter
  · exact ⟨rfl, rfl, rfl, rfl⟩

theorem seeded_of_ne (c : Carrier) (h : ∀ k pkt, c.demux ≠ .seeding k pkt) : c.Seeded :=
  fun k pkt hk => absurd hk (h k pkt)

/-- A session is being seeded only after its frame was dispatched. -/
theorem Outcome.seeded {c c' : Carrier} {info : Meta} {data : Option Bytes}
    (h : Outcome c info data c') : c'.Seeded := by
  cases h with
  | seed =>
    intro k pkt hk
    cases hk
    exact unborn_newSub _ _ _
  | skip | keep | close => exact seeded_of_ne _ (by simp)
  | register => exact seeded_of_ne _ (by simp [Carrier.register])
  | fail => exact seeded_of_ne _ (by simp [Carrier.fail, finish])

theorem seeded_onField (c : Carrier) (field : Bytes) (h : c.Seeded) :
    (c.onField field).Seeded := by
  rcases c.onField_eq field with ⟨result, heq⟩ | ⟨next, heq, hneed⟩ |
    ⟨info, data, heq⟩ | heq <;> rw [heq]
  · exact seeded_of_ne _ (by simp [finish])
  · refine seeded_of_ne _ fun k pkt hk => ?_
    subst hk
    cases hneed
  · exact (c.outcome_handle info data).seeded
  · exact h

end Carrier

section Step

variable {c c' : Carrier} {a : Act}

theorem sound_dial {up down : Chan Bytes} (target : Bytes) (h : (Flow.tcp up down .dialing).Sound) :
    (Flow.tcp up down (.splicing (.splice (.new target)))).Sound := by
  obtain ⟨hup, hdown⟩ := h
  refine ⟨target, ?_, ?_, rfl, ?_, by simp [Relay.splice], by simp [Relay.splice],
    by simp [Relay.splice]⟩
  · simp [hdown, Relay.splice, UpState.held, Conn.new]
  · simp [hup, Relay.splice, DownState.rest, Conn.new]
  · rfl

theorem frames_of_sendAll {frames sent : List OutFrame} (h : sendAll frames = .sending sent) :
    sent = frames := by
  unfold sendAll at h
  split at h
  · cases h
  · cases h
    rfl

/-- What is taken off the downlink next becomes frames of the session. -/
theorem next_recvTcp {k : Nat} {sub : Sub} {up down : Chan Bytes} {egress : TcpEgress}
    {chunk : Bytes} {q : List Bytes} (hflow : sub.flow = .tcp up down egress)
    (hdown : sub.downlink = .receiving) (hchunk : down.CanRecv chunk q) :
    Sub.Next k sub { sub with
      flow := .tcp up (down.pop chunk q) egress
      downlink := sendAll (keepTcpFrames k sub.sid chunk) } := by
  refine ⟨rfl, rfl, ?_, fun hdone => ?_, ?_, ?_⟩
  · rw [hflow]
    intro h
    cases egress with
    | dialing => exact ⟨h.1, by rw [Chan.sent_pop hchunk]; exact h.2⟩
    | splicing r =>
      obtain ⟨bytes, haccounts⟩ := h
      exact ⟨bytes, haccounts.peer .stay (.pop hchunk)⟩
    | failed => exact (Chan.sent_pop hchunk).trans h
  · rw [hdown] at hdone
    cases hdone
  · rw [hflow]
    rintro frame ⟨other, hmem, hrest⟩
    exact ⟨other, List.mem_append_left _ hmem, hrest⟩
  · intro frames hframes frame hmem
    rw [frames_of_sendAll hframes] at hmem
    obtain ⟨piece, hpiece, rfl⟩ := List.mem_map.mp hmem
    exact .inr ⟨rfl, chunk, List.mem_append_right _ (List.mem_singleton_self _), hpiece, rfl⟩

theorem next_recvUdp {k : Nat} {sub : Sub} {up down : Chan UdpPacket} {egress : FreedomUdp}
    {pkt : UdpPacket} {q : List UdpPacket} (hflow : sub.flow = .udp up down egress)
    (hdown : sub.downlink = .receiving) :
    Sub.Next k sub { sub with
      flow := .udp up (down.pop pkt q) egress
      downlink := sendAll (keepUdpFrames k sub.sid pkt) } := by
  refine ⟨rfl, rfl, fun _ => trivial, fun hdone => ?_, ?_, ?_⟩
  · rw [hdown] at hdone
    cases hdone
  · rw [hflow]
    rintro frame ⟨other, hmem, hrest⟩
    exact ⟨other, List.mem_append_left _ hmem, hrest⟩
  · intro frames hframes frame hmem
    rw [frames_of_sendAll hframes] at hmem
    obtain ⟨piece, hpiece, hframe⟩ := List.mem_filterMap.mp hmem
    obtain ⟨bytes, hbytes, rfl⟩ := Option.map_eq_some_iff.mp hframe
    exact .inr ⟨rfl, pkt, List.mem_append_right _ (List.mem_singleton_self _), hpiece, hbytes⟩

/-- A chunk less to send. -/
theorem next_sendAll {k : Nat} {sub : Sub} {frame : OutFrame} {frames : List OutFrame}
    (hdown : sub.downlink = .sending (frame :: frames)) :
    Sub.Next k sub { sub with downlink := sendAll frames } := by
  refine ⟨rfl, rfl, id, fun hdone => ?_, fun _ => id, fun rest hrest other hmem => ?_⟩
  · rw [hdown] at hdone
    cases hdone
  · rw [frames_of_sendAll hrest] at hmem
    exact .inl ⟨_, hdown, List.mem_cons_of_mem _ hmem⟩

theorem next_ending {k : Nat} {sub : Sub} (hdown : sub.downlink = .receiving) :
    Sub.Next k sub { sub with downlink := .ending } := by
  refine ⟨rfl, rfl, id, fun hdone => ?_, fun _ => id, fun rest hrest => by cases hrest⟩
  rw [hdown] at hdone
  cases hdone

/-- **Every step takes every sub-session on**, and only a `New` adds one. -/
theorem Step.grows (h : Step c a c') (hseed : c.Seeded) : c.Grows c' (c.opens a) := by
  cases h with
  | eof | readError => exact .inl (c.advances_readFailed _)
  | @field k hneed =>
    have hgrows := Carrier.grows_onField { c with buf := c.buf.drop k } (c.buf.take k)
    have hopens : c.opens .field = Carrier.openedBy { c with buf := c.buf.drop k } (c.buf.take k) := by
      rw [Carrier.opens, hneed]
      rfl
    rw [hopens]
    exact hgrows
  | @seed k pkt sub hdemux hsub hroom =>
    have hpush := Advances.set hsub (Sub.next_push pkt hroom)
    have hunborn := hseed k pkt hdemux
    refine .inl (hpush.trans (Carrier.advances_register
      (c := { c with subs := c.subs.set k { sub with flow := sub.flow.push pkt } }) sub.sid ?_))
    rw [List.getElem?_map, hsub] at hunborn
    rw [List.getElem?_map, List.getElem?_set_self (List.getElem?_eq_some_iff.mp hsub).1]
    exact hunborn
  | @seedFail k pkt sub hdemux hsub =>
    exact .inl (Carrier.advances_register sub.sid (hseed k pkt hdemux))
  | keep _ hsub hroom => exact .inl (.set hsub (Sub.next_push _ hroom))
  | dial target hsub hflow =>
    refine .inl (.set hsub (.of_flow ?_ ?_))
    · rw [hflow]
      exact sound_dial target
    · rw [hflow]
      exact fun _ => id
  | dialError hsub hflow =>
    refine .inl (.set hsub (.of_flow ?_ ?_))
    · rw [hflow]
      exact fun h => h.2
    · rw [hflow]
      exact fun _ => id
  | relay hsub hflow _ hstep =>
    refine .inl (.set hsub (.of_flow ?_ ?_))
    · rw [hflow]
      exact fun ⟨bytes, h⟩ => ⟨bytes, hstep.accounts h⟩
    · rw [hflow]
      rintro frame ⟨chunk, hmem, hrest⟩
      exact ⟨chunk, hstep.moves.1.taken_eq ▸ hmem, hrest⟩
  | egress hsub hflow _ hstep =>
    refine .inl (.set hsub (.of_flow (fun _ => trivial) ?_))
    rw [hflow]
    rintro frame ⟨pkt, hmem, hrest⟩
    exact ⟨pkt, hstep.moves.1.taken_eq ▸ hmem, hrest⟩
  | recvTcp hsub hflow hdown hchunk => exact .inl (.set hsub (next_recvTcp hflow hdown hchunk))
  | recvUdp hsub hflow hdown => exact .inl (.set hsub (next_recvUdp hflow hdown))
  | recvEnd hsub hdown => exact .inl (.set hsub (next_ending hdown))
  | push hsub hdown => exact .inl (.set hsub (next_sendAll hdown))
  | pushEnd hsub | pushFail hsub => exact .inl (.set hsub Sub.next_finish)
  | fill | keepFail | take | write | wrote | writeError | outEnd | flush | idle | join =>
    exact .inl (.refl _)

theorem unborn_set {subs : List Sub} {k j : Nat} {sub sub' : Sub} (hsub : subs[k]? = some sub)
    (hunborn : sub.downlink = .unborn → sub'.downlink = .unborn)
    (h : (subs.map Sub.downlink)[j]? = some .unborn) :
    ((subs.set k sub').map Sub.downlink)[j]? = some .unborn := by
  rw [List.getElem?_map] at h ⊢
  by_cases hj : k = j
  · subst hj
    rw [hsub] at h
    rw [List.getElem?_set_self (List.getElem?_eq_some_iff.mp hsub).1]
    exact congrArg some (hunborn (Option.some.inj h))
  · rwa [List.getElem?_set_ne hj]

/-- Seeding ends with the registration, and meanwhile no downlink task is there. -/
theorem Step.seeded (h : Step c a c') (hseed : c.Seeded) : c'.Seeded := by
  -- a task that has something to do has been spawned
  have hborn : ∀ {sub : Sub} {P : Prop}, sub.downlink ≠ .unborn → sub.downlink = .unborn → P :=
    fun hne h => absurd h hne
  cases h with
  | eof | readError =>
    unfold Carrier.readFailed
    split <;> exact Carrier.seeded_of_ne _ (by simp [Carrier.finish])
  | field => exact Carrier.seeded_onField _ _ hseed
  | seed | seedFail => exact Carrier.seeded_of_ne _ (by simp [Carrier.register])
  | keep | keepFail => exact Carrier.seeded_of_ne _ (by simp)
  | dial _ hsub | dialError hsub | relay hsub | egress hsub =>
    exact fun k pkt hk => unborn_set hsub id (hseed k pkt hk)
  | recvTcp hsub _ hdown | recvUdp hsub _ hdown | recvEnd hsub hdown | push hsub hdown
  | pushEnd hsub hdown =>
    exact fun k pkt hk => unborn_set hsub (hborn (by simp [hdown])) (hseed k pkt hk)
  | pushFail hsub hdown =>
    refine fun k pkt hk => unborn_set hsub (hborn ?_) (hseed k pkt hk)
    rcases hdown with hdown | ⟨frames, hdown⟩ <;> simp [hdown]
  | join => exact Carrier.seeded_of_ne _ (by simp)
  | fill | take | write | wrote | writeError | outEnd | flush | idle => exact hseed

/-- **Where the frames on their way come from**: a live downlink task. -/
theorem Step.onWay (h : Step c a c') : ∀ frame ∈ c'.onWay, frame ∈ c.onWay ∨
    ∃ k sub, c.subs[k]? = some sub ∧
      ((∃ frames, sub.downlink = .sending frames ∧ frame ∈ frames) ∨
        sub.downlink = .ending ∧ frame = ⟨k, [], frameEnd sub.sid⟩) := by
  intro frame hmem
  cases h with
  | eof | readError =>
    rw [(c.readFailed_sameWriter _).onWay_eq] at hmem
    exact .inl hmem
  | field =>
    rw [(Carrier.onField_sameWriter _ _).onWay_eq] at hmem
    exact .inl hmem
  | seed | seedFail =>
    rw [(Carrier.register_sameWriter _ _ _).onWay_eq] at hmem
    exact .inl hmem
  | @push k sub next frames hsub hdown =>
    rcases Carrier.mem_onWay.mp hmem with hwriter | hout
    · exact .inl (Carrier.mem_onWay.mpr (.inl hwriter))
    · rcases List.mem_append.mp hout with hold | hnew
      · exact .inl (Carrier.mem_onWay.mpr (.inr hold))
      · obtain rfl := List.mem_singleton.mp hnew
        exact .inr ⟨k, sub, hsub, .inl ⟨_, hdown, List.mem_cons_self⟩⟩
  | @pushEnd k sub hsub hdown =>
    rcases Carrier.mem_onWay.mp hmem with hwriter | hout
    · exact .inl (Carrier.mem_onWay.mpr (.inl hwriter))
    · rcases List.mem_append.mp hout with hold | hnew
      · exact .inl (Carrier.mem_onWay.mpr (.inr hold))
      · exact .inr ⟨k, sub, hsub, .inr ⟨hdown, List.mem_singleton.mp hnew⟩⟩
  | take hwriter hout =>
    refine .inl (Carrier.mem_onWay.mpr (.inr ?_))
    rw [hout]
    rcases Carrier.mem_onWay.mp hmem with ⟨rest, hrest⟩ | hrest
    · cases hrest
      exact List.mem_cons_self
    · exact List.mem_cons_of_mem _ hrest
  | write _ hwriter =>
    refine .inl (Carrier.mem_onWay.mpr ?_)
    rcases Carrier.mem_onWay.mp hmem with ⟨rest, hrest⟩ | hout
    · cases hrest
      exact .inl ⟨_, hwriter⟩
    · exact .inr hout
  | wrote | writeError | outEnd | flush =>
    refine .inl (Carrier.mem_onWay.mpr ?_)
    rcases Carrier.mem_onWay.mp hmem with ⟨rest, hrest⟩ | hout
    · cases hrest
    · exact .inr hout
  | _ => exact .inl hmem

end Step

/-! ## Sessions under one id -/

namespace Carrier

/-- All that was opened under the id is over: no downlink task of such a session is left,
and none of its frames is on the way. -/
def Quiet (c : Carrier) (sid : UInt16) : Prop :=
  ∀ k sub, c.subs[k]? = some sub → sub.sid = sid →
    sub.downlink = .done ∧ ∀ frame ∈ c.onWay, frame.sub ≠ k

/-- **A session id is used again only when it is quiet.** -/
def OpensQuietly (c : Carrier) (a : Act) : Prop := ∀ sid, c.opens a = some sid → c.Quiet sid

/-- What holds while no id is used again too early. -/
structure Orderly (c : Carrier) : Prop where
  seeded : c.Seeded
  sound : ∀ (k : Nat) (sub : Sub), c.subs[k]? = some sub → sub.flow.Sound
  /-- What a task is sending are frames of its own session. -/
  sending : ∀ (k : Nat) (sub : Sub), c.subs[k]? = some sub →
    ∀ frames, sub.downlink = .sending frames → ∀ frame ∈ frames, frame.sub = k ∧ sub.Frames frame
  onWay : ∀ frame ∈ c.onWay, ∃ sub, c.subs[frame.sub]? = some sub ∧ sub.Frames frame
  /-- Only the last session of an id is alive. -/
  last : ∀ (j k : Nat) (sub sub' : Sub), j < k → c.subs[j]? = some sub → c.subs[k]? = some sub' →
    sub'.sid = sub.sid → sub.downlink = .done ∧ ∀ frame ∈ c.onWay, frame.sub ≠ j

theorem orderly_serve (conn : Conn) (leftover : Bytes) : (serve conn leftover).Orderly where
  seeded := seeded_of_ne _ (by simp [serve])
  sound k sub hsub := by cases hsub
  sending k sub hsub := by cases hsub
  onWay frame hmem := by cases hmem
  last j k sub sub' _ hsub := by cases hsub

end Carrier

theorem sound_newSub (sid : UInt16) (target : Destination) :
    (Carrier.newSub sid target).flow.Sound := by
  unfold Carrier.newSub
  split
  · trivial
  · exact ⟨rfl, rfl⟩

theorem Sub.Next.frames {k : Nat} {sub sub' : Sub} (h : Sub.Next k sub sub') {frame : OutFrame}
    (hframe : sub.Frames frame) : sub'.Frames frame := by
  unfold Sub.Frames at hframe ⊢
  rw [h.sid_eq]
  exact hframe.imp id (h.carries frame)

section Orderly

variable {c c' : Carrier} {a : Act}

/-- A session of the next state goes on from one of this state, or is new. -/
theorem Carrier.Grows.back {s : Option UInt16} (h : c.Grows c' s) {k : Nat} {sub' : Sub}
    (hsub' : c'.subs[k]? = some sub') :
    (∃ sub, c.subs[k]? = some sub ∧ Sub.Next k sub sub') ∨
      c.subs.length = k ∧ ∃ sid target, s = some sid ∧
        Sub.Next k (Carrier.newSub sid target) sub' := by
  rcases h with h | ⟨sid, target, hs, h⟩
  · exact .inl (h.back hsub')
  · obtain ⟨sub, hsub, hnext⟩ := h.back hsub'
    rcases Nat.lt_trichotomy k c.subs.length with hlt | heq | hgt
    · rw [List.getElem?_append_left hlt] at hsub
      exact .inl ⟨sub, hsub, hnext⟩
    · rw [heq, List.getElem?_concat_length] at hsub
      cases hsub
      exact .inr ⟨heq.symm, sid, target, hs, hnext⟩
    · rw [List.getElem?_eq_none (by simp; omega)] at hsub
      cases hsub

theorem Carrier.Grows.next {s : Option UInt16} (h : c.Grows c' s) {k : Nat} {sub : Sub}
    (hsub : c.subs[k]? = some sub) : ∃ sub', c'.subs[k]? = some sub' ∧ Sub.Next k sub sub' := by
  rcases h with h | ⟨sid, target, -, h⟩
  · exact h.next k sub hsub
  · refine h.next k sub ?_
    rw [List.getElem?_append_left (List.getElem?_eq_some_iff.mp hsub).1, hsub]

theorem newSub_sid (sid : UInt16) (target : Destination) : (Carrier.newSub sid target).sid = sid := by
  unfold Carrier.newSub
  split <;> rfl

/-- A new session has nothing to send yet. -/
theorem newSub_downlink (sid : UInt16) (target : Destination) :
    (Carrier.newSub sid target).downlink = .unborn := by
  unfold Carrier.newSub
  split <;> rfl

/-- A session that is over stays so: no step sends a frame of it. -/
theorem Step.over (h : Step c a c') (hseed : c.Seeded)
    (hsending : ∀ (k : Nat) (sub : Sub), c.subs[k]? = some sub →
      ∀ frames, sub.downlink = .sending frames → ∀ frame ∈ frames, frame.sub = k ∧ sub.Frames frame)
    {j : Nat} {sub sub' : Sub} (hsub : c.subs[j]? = some sub) (hsub' : c'.subs[j]? = some sub')
    (hdone : sub.downlink = .done) (hway : ∀ frame ∈ c.onWay, frame.sub ≠ j) :
    sub'.downlink = .done ∧ ∀ frame ∈ c'.onWay, frame.sub ≠ j := by
  constructor
  · obtain ⟨next, hnext, hmove⟩ := (h.grows hseed).next hsub
    rw [hsub'] at hnext
    cases hnext
    exact hmove.done hdone
  · intro frame hmem heq
    rcases h.onWay frame hmem with hold | ⟨k, other, hother, hcase⟩
    · exact hway frame hold heq
    · -- the task that sends it is alive, so it is not the one at `j`
      have hk : frame.sub = k ∧ other.downlink ≠ .done := by
        rcases hcase with ⟨frames, hframes, hin⟩ | ⟨hend, rfl⟩
        · exact ⟨(hsending k other hother frames hframes frame hin).1, by simp [hframes]⟩
        · exact ⟨rfl, by simp [hend]⟩
      obtain rfl : k = j := hk.1.symm.trans heq
      rw [hsub] at hother
      cases hother
      exact hk.2 hdone

/-- **A step that opens sessions quietly keeps the order.** -/
theorem orderly_of_step (h : Step c a c') (hc : c.Orderly) (hquiet : c.OpensQuietly a) :
    c'.Orderly := by
  obtain ⟨hseed, hsound, hsending, hway, hlast⟩ := hc
  have hgrows := h.grows hseed
  refine ⟨h.seeded hseed, ?_, ?_, ?_, ?_⟩
  · intro k sub' hsub'
    rcases hgrows.back hsub' with ⟨sub, hsub, hnext⟩ | ⟨-, sid, target, -, hnext⟩
    · exact hnext.sound (hsound k sub hsub)
    · exact hnext.sound (sound_newSub sid target)
  · intro k sub' hsub' frames hframes frame hmem
    rcases hgrows.back hsub' with ⟨sub, hsub, hnext⟩ | ⟨-, sid, target, -, hnext⟩
    · rcases hnext.sending frames hframes frame hmem with ⟨before, hbefore, hin⟩ | ⟨hk, hown⟩
      · obtain ⟨hk, hframe⟩ := hsending k sub hsub before hbefore frame hin
        exact ⟨hk, hnext.frames hframe⟩
      · exact ⟨hk, .inr (hnext.sid_eq ▸ hown)⟩
    · rcases hnext.sending frames hframes frame hmem with ⟨before, hbefore, -⟩ | ⟨hk, hown⟩
      · rw [newSub_downlink] at hbefore
        cases hbefore
      · exact ⟨hk, .inr (hnext.sid_eq ▸ hown)⟩
  · intro frame hmem
    have hbefore : ∃ sub, c.subs[frame.sub]? = some sub ∧ sub.Frames frame := by
      rcases h.onWay frame hmem with hold | ⟨k, sub, hsub, ⟨frames, hframes, hin⟩ | ⟨-, rfl⟩⟩
      · exact hway frame hold
      · obtain ⟨rfl, hframe⟩ := hsending k sub hsub frames hframes frame hin
        exact ⟨sub, hsub, hframe⟩
      · exact ⟨sub, hsub, .inl ⟨rfl, rfl⟩⟩
    obtain ⟨sub, hsub, hframe⟩ := hbefore
    obtain ⟨sub', hsub', hnext⟩ := hgrows.next hsub
    exact ⟨sub', hsub', hnext.frames hframe⟩
  · intro j k sub₁ sub₂ hlt hsub₁ hsub₂ hsid
    have hold : ∃ sub, c.subs[j]? = some sub ∧ sub₁.sid = sub.sid ∧ sub.downlink = .done ∧
        ∀ frame ∈ c.onWay, frame.sub ≠ j := by
      rcases hgrows.back hsub₁ with ⟨sub, hsub, hnext⟩ | ⟨hj, -⟩
      · refine ⟨sub, hsub, hnext.sid_eq, ?_⟩
        rcases hgrows.back hsub₂ with ⟨sub', hsub', hnext'⟩ | ⟨-, sid, target, hopens, hnext'⟩
        · exact hlast j k sub sub' hlt hsub hsub'
            (by rw [← hnext'.sid_eq, hsid, hnext.sid_eq])
        · -- the session at `k` is new, and was opened quietly
          refine hquiet sid hopens j sub hsub ?_
          rw [← hnext.sid_eq, ← hsid, hnext'.sid_eq, newSub_sid]
      · have hk := (List.getElem?_eq_some_iff.mp hsub₂).1
        rcases hgrows.back hsub₂ with ⟨sub', hsub', -⟩ | ⟨hk', -⟩
        · have := (List.getElem?_eq_some_iff.mp hsub').1
          omega
        · omega
    obtain ⟨sub, hsub, -, hdone, hnone⟩ := hold
    exact h.over hseed hsending hsub hsub₁ hdone hnone

end Orderly

/-! ## Isolation -/

/-- The frame is a `Keep` frame with bytes that the session's own target sent: on the
connection dialled for a TCP session, or to the socket bound for a UDP session, which
takes what anyone sends to it and names the sender in the frame. -/
def Sub.FromTarget (sub : Sub) (frame : OutFrame) : Prop :=
  match sub.flow with
  | .tcp _ _ (.splicing r) =>
    frame.payload <:+: r.conn.received ∧ frame.bytes = frameKeepTcp sub.sid frame.payload
  | .tcp .. => False
  | .udp _ down _ => ∃ pkt ∈ down.taken, frame.payload <:+: pkt.data ∧
      frameKeepUdp sub.sid pkt.target frame.payload = some frame.bytes

/-- **Isolation**: what is being sent to the client under a session id is the end, or
bytes from the target, of the session that the latest processed `New` for the id
opened. -/
def Carrier.Isolated (c : Carrier) : Prop :=
  ∀ frame rest, c.writer = .writing frame rest → ∃ sub, c.subs[frame.sub]? = some sub ∧
    (∀ (k : Nat) (other : Sub), c.subs[k]? = some other → other.sid = sub.sid →
      other.downlink ≠ .unborn → k ≤ frame.sub) ∧
    (frame.payload = [] ∧ frame.bytes = frameEnd sub.sid ∨ sub.FromTarget frame)

theorem infix_of_mem_chunks {piece data : Bytes} (h : piece ∈ chunks maxData data) :
    piece <:+: data := by
  have hinfix := List.infix_of_mem_flatten h
  rwa [flatten_chunks (by decide)] at hinfix

/-- The frames of a session carry what its target sent. -/
theorem Sub.Frames.fromTarget {sub : Sub} {frame : OutFrame} (h : sub.Frames frame)
    (hsound : sub.flow.Sound) :
    frame.payload = [] ∧ frame.bytes = frameEnd sub.sid ∨ sub.FromTarget frame := by
  rcases h with hend | hcarries
  · exact .inl hend
  · right
    unfold Sub.FromTarget
    cases hflow : sub.flow with
    | udp up down egress =>
      rw [hflow] at hcarries
      obtain ⟨pkt, hpkt, hpiece, hbytes⟩ := hcarries
      exact ⟨pkt, hpkt, infix_of_mem_chunks hpiece, hbytes⟩
    | tcp up down egress =>
      rw [hflow] at hcarries hsound
      obtain ⟨chunk, hchunk, hpiece, hbytes⟩ := hcarries
      have hsent : chunk ∈ down.sent := List.mem_append_left _ hchunk
      cases egress with
      | dialing =>
        rw [hsound.2] at hsent
        cases hsent
      | failed =>
        rw [show down.sent = [] from hsound] at hsent
        cases hsent
      | splicing r =>
        obtain ⟨bytes, haccounts⟩ := hsound
        refine ⟨?_, hbytes⟩
        have hreceived : down.sent.flatten <+: r.conn.received := by
          have hup := haccounts.up_bytes
          rw [List.nil_append] at hup
          exact ⟨_, hup⟩
        exact (infix_of_mem_chunks hpiece).trans
          ((List.infix_of_mem_flatten hsent).trans hreceived.isInfix)

/-- In an orderly carrier the sessions are isolated. -/
theorem Carrier.Orderly.isolated {c : Carrier} (h : c.Orderly) : c.Isolated := by
  intro frame rest hwriter
  have hway : frame ∈ c.onWay := mem_onWay.mpr (.inl ⟨rest, hwriter⟩)
  obtain ⟨sub, hsub, hframe⟩ := h.onWay frame hway
  refine ⟨sub, hsub, ?_, hframe.fromTarget (h.sound _ _ hsub)⟩
  intro k other hother hsid _
  by_contra hlt
  exact (h.last frame.sub k sub other (by omega) hsub hother hsid).2 frame hway rfl

/-- **Sessions are isolated while no id is used again too early.**  In every run in which
a `New` for an id is dispatched only when all sessions opened under it before are over,
each frame sent to the client is of the session that its id stands for. -/
theorem mux_sessions_isolated {conn : Conn} {leftover : Bytes} {trace : List (Act × Carrier)}
    {c : Carrier} (h : Run Step (.serve conn leftover) trace c)
    (hquiet : Meets Carrier.OpensQuietly (.serve conn leftover) trace) :
    ∀ p ∈ trace, p.2.Isolated := by
  have hstep : ∀ s t a, s.Orderly → Step s a t → s.OpensQuietly a → t.Orderly ∧ t.Isolated := by
    intro s t a hs hstep hguard
    have ht := orderly_of_step hstep hs hguard
    exact ⟨ht, ht.isolated⟩
  exact (h.of_meets (Carrier.orderly_serve conn leftover) hquiet hstep).2

/-- One session to `10.0.0.1:80`, whose target answers with a byte. -/
theorem mux_sessions_isolated_once :
    ∃ trace c, Run Step (.serve (.new []) [0, 12, 0, 1, 1, 0, 1, 0, 80, 1, 10, 0, 0, 1]) trace c ∧
      trace.length = 8 ∧ ∀ p ∈ trace, p.2.Isolated := by
  have hrun : ∃ trace c,
      Run Step (.serve (.new []) [0, 12, 0, 1, 1, 0, 1, 0, 80, 1, 10, 0, 0, 1]) trace c ∧
      trace.length = 8 ∧ Meets Carrier.OpensQuietly
        (.serve (.new []) [0, 12, 0, 1, 1, 0, 1, 0, 80, 1, 10, 0, 0, 1]) trace := by
    refine ⟨_, _, .cons (.field (k := 2) rfl (by decide)) <|
      .cons (.field (k := 12) rfl (by decide)) <| .cons (.dial (k := 0) [9] rfl rfl) <|
      .cons (.relay (k := 0) (a := .read 1) rfl rfl nofun
        (.read 1 rfl rfl rfl (by decide) (by decide) (by decide))) <|
      .cons (.relay (k := 0) (a := .send) rfl rfl nofun (.send rfl rfl ⟨rfl, rfl, by decide⟩)) <|
      .cons (.recvTcp (k := 0) rfl rfl rfl ⟨rfl, rfl⟩) <|
      .cons (.push (k := 0) rfl rfl trivial (by decide)) <| .cons (.take rfl rfl) (.nil _), rfl, ?_⟩
    refine ⟨nofun, ?_, nofun, nofun, nofun, nofun, nofun, nofun, trivial⟩
    exact fun sid _ k sub hsub => nomatch hsub
  obtain ⟨trace, c, h, hlen, hquiet⟩ := hrun
  exact ⟨trace, c, h, hlen, mux_sessions_isolated h hquiet⟩

/-- `New` for session 1 to `10.0.0.1:80`, `End` of it, `New` for session 1 to
`10.0.0.2:80`. -/
def reusedId : Bytes :=
  [0, 12, 0, 1, 1, 0, 1, 0, 80, 1, 10, 0, 0, 1,
    0, 4, 0, 1, 3, 0,
    0, 12, 0, 1, 1, 0, 1, 0, 80, 1, 10, 0, 0, 2]

/-- **A late answer.**  The first target answers after the id was given to the second
session: its byte is sent to the client under the id of the second one. -/
theorem mux_late_answer :
    ∃ trace c, Run Step (.serve (.new []) reusedId) trace c ∧ ¬ c.Isolated := by
  refine ⟨_, _, .cons (.field (k := 2) rfl (by decide)) <| .cons (.field (k := 12) rfl (by decide)) <|
    .cons (.field (k := 2) rfl (by decide)) <| .cons (.field (k := 4) rfl (by decide)) <|
    .cons (.field (k := 2) rfl (by decide)) <| .cons (.field (k := 12) rfl (by decide)) <|
    .cons (.dial (k := 0) [9] rfl rfl) <|
    .cons (.relay (k := 0) (a := .read 1) rfl rfl nofun
      (.read 1 rfl rfl rfl (by decide) (by decide) (by decide))) <|
    .cons (.relay (k := 0) (a := .send) rfl rfl nofun (.send rfl rfl ⟨rfl, rfl, by decide⟩)) <|
    .cons (.recvTcp (k := 0) rfl rfl rfl ⟨rfl, rfl⟩) <|
    .cons (.push (k := 0) rfl rfl trivial (by decide)) <|
    .cons (.take rfl rfl) (.nil _), ?_⟩
  intro h
  obtain ⟨sub, hsub, hlast, -⟩ := h _ _ rfl
  have hsid : sub.sid = 1 := by
    obtain rfl := Option.some.inj hsub
    rfl
  -- the session at position 1 has the id by now
  exact absurd (hlast 1 _ rfl (by rw [hsid]; rfl) nofun) (by decide)

end XrayRs.Mux
