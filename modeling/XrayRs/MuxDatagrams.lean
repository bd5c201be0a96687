import XrayRs.MuxFrames
import XrayRs.MuxSessions

/-! # The datagrams that a mux client gets

The task that frames the answers of a UDP session cuts what it takes off its link into
pieces of at most `MAX_DATA` bytes, as the task of a TCP session does.  To a stream the
cuts mean nothing.  A datagram that is longer becomes several, though, and of an empty one
there is no piece: the client never hears of it.

The frames of a task are accounted for one by one, whether it still has them, or the
writer, or the client (`Step.accounted`).  So the client gets each datagram in one frame
exactly if all of them fit and none is empty (`datagrams_whole_iff`). -/

namespace XrayRs.Mux

open BoundedChannel ByteWords StepSystem

/-! ## The frames of a task -/

/-- The frames of what was taken off the downlink. -/
def Flow.frames (k : Nat) (sid : UInt16) : Flow → List OutFrame
  | .tcp _ down _ => down.taken.flatMap (keepTcpFrames k sid)
  | .udp _ down _ => down.taken.flatMap (keepUdpFrames k sid)

/-- The frames that the task of the session at `k` has made: when it has returned, the
last one is an `End`. -/
def Sub.made (k : Nat) (sub : Sub) : List OutFrame :=
  match sub.downlink with
  | .done => sub.flow.frames k sub.sid ++ [⟨k, [], frameEnd sub.sid⟩]
  | _ => sub.flow.frames k sub.sid

/-- Those that it still has. -/
def Sub.unsent (sub : Sub) : List OutFrame :=
  match sub.downlink with
  | .sending frames => frames
  | _ => []

/-- The task takes nothing and sends nothing. -/
structure Sub.SameTask (sub sub' : Sub) : Prop where
  made_eq : ∀ k, sub'.made k = sub.made k
  unsent_eq : sub'.unsent = sub.unsent

section Task

variable {k : Nat} {sub : Sub} {frame : OutFrame}

theorem Sub.SameTask.refl (sub : Sub) : SameTask sub sub := ⟨fun _ => rfl, rfl⟩

theorem Sub.SameTask.of_flow {flow : Flow}
    (h : ∀ k, flow.frames k sub.sid = sub.flow.frames k sub.sid) :
    SameTask sub { sub with flow := flow } := by
  refine ⟨fun k => ?_, rfl⟩
  simp only [made, h]

theorem Sub.SameTask.push (pkt : UdpPacket) : SameTask sub { sub with flow := sub.flow.push pkt } :=
  .of_flow fun k => by cases sub.flow <;> rfl

theorem Sub.SameTask.dropWriter : SameTask sub sub.dropWriter :=
  .of_flow fun k => by cases sub.flow <;> rfl

theorem Sub.SameTask.spawn (h : sub.downlink = .unborn) : SameTask sub sub.spawn := by
  refine ⟨fun k => ?_, ?_⟩
  · simp only [made, Sub.spawn, h]
  · simp only [unsent, Sub.spawn, h]

theorem Sub.made_of_ne (h : sub.downlink ≠ .done) : sub.made k = sub.flow.frames k sub.sid := by
  unfold made
  split
  · next hdone => exact absurd hdone h
  · rfl

/-- What a frame of a flow is. -/
theorem Flow.of_mem_frames {flow : Flow} {sid : UInt16} (h : frame ∈ flow.frames k sid) :
    frame.sub = k ∧ (frame.bytes = frameKeepTcp sid frame.payload ∨
      ∃ target, frameKeepUdp sid target frame.payload = some frame.bytes) := by
  cases flow with
  | tcp up down egress =>
    obtain ⟨chunk, -, hframe⟩ := List.mem_flatMap.mp h
    obtain ⟨piece, -, rfl⟩ := List.mem_map.mp hframe
    exact ⟨rfl, .inl rfl⟩
  | udp up down egress =>
    obtain ⟨pkt, -, hframe⟩ := List.mem_flatMap.mp h
    obtain ⟨piece, -, hpiece⟩ := List.mem_filterMap.mp hframe
    obtain ⟨bytes, hbytes, rfl⟩ := Option.map_eq_some_iff.mp hpiece
    exact ⟨rfl, .inr ⟨pkt.target, hbytes⟩⟩

theorem Flow.frames_dropReader (flow : Flow) (sid : UInt16) :
    flow.dropReader.frames k sid = flow.frames k sid := by
  cases flow <;> rfl

theorem Sub.sub_of_mem_made (h : frame ∈ sub.made k) : frame.sub = k := by
  unfold made at h
  split at h
  · rcases List.mem_append.mp h with h | h
    · exact (Flow.of_mem_frames h).1
    · rw [List.mem_singleton.mp h]
  · exact (Flow.of_mem_frames h).1

theorem unsent_of_sendAll {frames : List OutFrame} (h : sub.downlink = sendAll frames) :
    sub.unsent = frames := by
  unfold Sub.unsent
  rw [h, sendAll]
  by_cases hnil : frames = []
  · rw [if_pos hnil, hnil]
  · rw [if_neg hnil]

theorem made_of_sendAll {frames : List OutFrame} (h : sub.downlink = sendAll frames) :
    sub.made k = sub.flow.frames k sub.sid := by
  refine Sub.made_of_ne ?_
  rw [h, sendAll]
  split
  · exact nofun
  · exact nofun

end Task

/-! ## The frames of all tasks -/

/-- The frames made at position `k`. -/
def madeBy (subs : List Sub) (k : Nat) : List OutFrame := (subs[k]?.map (Sub.made k)).getD []

/-- Those that the task there still has. -/
def unsentBy (subs : List Sub) (k : Nat) : List OutFrame := (subs[k]?.map Sub.unsent).getD []

/-- No task takes or sends anything. -/
structure SameTasks (subs subs' : List Sub) : Prop where
  made_eq : ∀ k, madeBy subs' k = madeBy subs k
  unsent_eq : ∀ k, unsentBy subs' k = unsentBy subs k

theorem madeBy_eq {subs : List Sub} {k : Nat} {sub : Sub} (h : subs[k]? = some sub) :
    madeBy subs k = sub.made k := by
  rw [madeBy, h]
  rfl

theorem unsentBy_eq {subs : List Sub} {k : Nat} {sub : Sub} (h : subs[k]? = some sub) :
    unsentBy subs k = sub.unsent := by
  rw [unsentBy, h]
  rfl

namespace SameTasks

variable {subs subs' subs'' : List Sub} {k : Nat} {sub sub' : Sub}

theorem refl (subs : List Sub) : SameTasks subs subs := ⟨fun _ => rfl, fun _ => rfl⟩

theorem trans (h : SameTasks subs subs') (h' : SameTasks subs' subs'') : SameTasks subs subs'' :=
  ⟨fun k => (h'.made_eq k).trans (h.made_eq k), fun k => (h'.unsent_eq k).trans (h.unsent_eq k)⟩

/-- At each position the task is the same. -/
theorem of_get (h : ∀ k : Nat, subs[k]? = none ∧ subs'[k]? = none ∨
    ∃ sub sub', subs[k]? = some sub ∧ subs'[k]? = some sub' ∧ Sub.SameTask sub sub') :
    SameTasks subs subs' := by
  constructor <;> intro k <;> rcases h k with ⟨hnone, hnone'⟩ | ⟨sub, sub', hsub, hsub', hsame⟩
  · rw [madeBy, madeBy, hnone, hnone']
  · rw [madeBy_eq hsub, madeBy_eq hsub', hsame.made_eq]
  · rw [unsentBy, unsentBy, hnone, hnone']
  · rw [unsentBy_eq hsub, unsentBy_eq hsub', hsame.unsent_eq]

theorem modify {f : Sub → Sub} (h : ∀ sub, subs[k]? = some sub → Sub.SameTask sub (f sub)) :
    SameTasks subs (subs.modify k f) := by
  refine of_get fun j => ?_
  rw [List.getElem?_modify]
  cases hsub : subs[j]? with
  | none => exact .inl ⟨rfl, by split <;> rfl⟩
  | some sub =>
    by_cases hj : k = j
    · subst hj
      exact .inr ⟨sub, f sub, rfl, by simp, h sub hsub⟩
    · exact .inr ⟨sub, sub, rfl, by simp [hj], .refl sub⟩

theorem set (hsub : subs[k]? = some sub) (h : Sub.SameTask sub sub') :
    SameTasks subs (subs.set k sub') := by
  refine of_get fun j => ?_
  by_cases hj : k = j
  · subst hj
    exact .inr ⟨sub, sub', hsub, List.getElem?_set_self (List.getElem?_eq_some_iff.mp hsub).1, h⟩
  · rw [List.getElem?_set_ne hj]
    cases subs[j]? with
    | none => exact .inl ⟨rfl, rfl⟩
    | some other => exact .inr ⟨other, other, rfl, rfl, .refl other⟩

theorem map_dropWriter (subs : List Sub) : SameTasks subs (subs.map Sub.dropWriter) := by
  refine of_get fun k => ?_
  rw [List.getElem?_map]
  cases subs[k]? with
  | none => exact .inl ⟨rfl, rfl⟩
  | some sub => exact .inr ⟨sub, _, rfl, rfl, .dropWriter⟩

/-- A new session has no frames. -/
theorem newSub (subs : List Sub) (sid : UInt16) (target : Destination) :
    SameTasks subs (subs ++ [Carrier.newSub sid target]) := by
  have hnew : (Carrier.newSub sid target).made subs.length = [] ∧
      (Carrier.newSub sid target).unsent = [] := by
    unfold Carrier.newSub
    split <;> exact ⟨rfl, rfl⟩
  constructor <;> intro k <;> rcases Nat.lt_trichotomy k subs.length with hlt | rfl | hgt
  · rw [madeBy, madeBy, List.getElem?_append_left hlt]
  · rw [madeBy_eq List.getElem?_concat_length, hnew.1, madeBy,
      List.getElem?_eq_none (Nat.le_refl _)]
    rfl
  · rw [madeBy, madeBy, List.getElem?_eq_none (by simp; omega), List.getElem?_eq_none (by omega)]
  · rw [unsentBy, unsentBy, List.getElem?_append_left hlt]
  · rw [unsentBy_eq List.getElem?_concat_length, hnew.2, unsentBy,
      List.getElem?_eq_none (Nat.le_refl _)]
    rfl
  · rw [unsentBy, unsentBy, List.getElem?_eq_none (by simp; omega),
      List.getElem?_eq_none (by omega)]

end SameTasks

namespace Carrier

variable {c c' : Carrier}

theorem sameTasks_remove (c : Carrier) (sid : UInt16) : SameTasks c.subs (c.remove sid).subs := by
  unfold remove
  split
  · exact .refl _
  · exact .modify fun sub _ => .dropWriter

theorem sameTasks_register {k : Nat} (sid : UInt16)
    (h : (c.subs.map Sub.downlink)[k]? = some .unborn) :
      SameTasks c.subs (c.register sid k).subs := by
  refine (c.sameTasks_remove sid).trans (.modify fun sub hsub => .spawn ?_)
  rw [← c.remove_downlinks sid, List.getElem?_map, hsub] at h
  exact Option.some.inj h

theorem Outcome.sameTasks {info : Meta} {data : Option Bytes} (h : Outcome c info data c') :
    SameTasks c.subs c'.subs := by
  cases h with
  | skip | keep => exact .refl _
  | @register target =>
    refine (SameTasks.newSub _ _ _).trans (sameTasks_register
      (c := { c with subs := c.subs ++ [Carrier.newSub info.sid target] }) info.sid
        (unborn_newSub _ _ _))
  | seed => exact .newSub _ _ _
  | close => exact c.sameTasks_remove info.sid
  | fail => exact .map_dropWriter _

theorem sameTasks_onField (c : Carrier) (field : Bytes) :
    SameTasks c.subs (c.onField field).subs := by
  rcases c.onField_eq field with ⟨result, heq⟩ | ⟨next, heq, -⟩ |
    ⟨info, data, heq⟩ | heq <;> rw [heq]
  · exact .map_dropWriter _
  · exact .refl _
  · exact (c.outcome_handle info data).sameTasks
  · exact .refl _

/-! ## Where the frames are -/

/-- The frames of the session at `k` that its task has sent: with the client, or on their
way. -/
def flight (c : Carrier) (k : Nat) : List OutFrame := (c.written ++ c.onWay).filter (·.sub = k)

/-- Every frame is where it should be: sent, or still with its task. -/
def Accounted (c : Carrier) : Prop := ∀ k, c.flight k ++ unsentBy c.subs k = madeBy c.subs k

theorem Accounted.same (h : c.Accounted) (hsubs : SameTasks c.subs c'.subs)
    (hwritten : c'.written ++ c'.onWay = c.written ++ c.onWay) : c'.Accounted := by
  intro k
  rw [hsubs.made_eq, hsubs.unsent_eq, flight, hwritten]
  exact h k

theorem Accounted.sameWriter (h : c.Accounted) (hsubs : SameTasks c.subs c'.subs)
    (hwriter : SameWriter c c') : c'.Accounted :=
  h.same hsubs (by rw [hwriter.written_eq, hwriter.onWay_eq])

/-- **One task moves**: it sends the frames `out`, which are its own. -/
theorem Accounted.set (h : c.Accounted) {k : Nat} {sub sub' : Sub} (out : List OutFrame)
    (hsub : c.subs[k]? = some sub) (hsubs : c'.subs = c.subs.set k sub')
    (hway : c'.written ++ c'.onWay = c.written ++ c.onWay ++ out)
    (hown : ∀ frame ∈ out, frame.sub = k)
    (hbooks : ∀ before, before ++ sub.unsent = sub.made k →
      before ++ out ++ sub'.unsent = sub'.made k) : c'.Accounted := by
  intro j
  have hj := h j
  unfold flight at hj ⊢
  rw [hway, List.filter_append, hsubs]
  by_cases hkj : k = j
  · subst hkj
    have hset : (c.subs.set k sub')[k]? = some sub' :=
      List.getElem?_set_self (List.getElem?_eq_some_iff.mp hsub).1
    have hout : out.filter (·.sub = k) = out :=
      List.filter_eq_self.mpr fun frame hframe => decide_eq_true (hown frame hframe)
    rw [madeBy_eq hsub, unsentBy_eq hsub] at hj
    rw [madeBy_eq hset, unsentBy_eq hset, hout]
    exact hbooks _ hj
  · -- another session does not see the frames
    have hout : out.filter (·.sub = j) = [] := by
      refine List.filter_eq_nil_iff.mpr fun frame hframe => ?_
      simpa [hown frame hframe] using hkj
    rw [hout, List.append_nil, madeBy, unsentBy, List.getElem?_set_ne hkj]
    exact hj

/-- A task frames what it takes off its link. -/
theorem Accounted.recv (h : c.Accounted) {k : Nat} {sub : Sub} {flow : Flow}
    {frames : List OutFrame}
    (hsub : c.subs[k]? = some sub) (hdown : sub.downlink = .receiving)
    (hflow : flow.frames k sub.sid = sub.flow.frames k sub.sid ++ frames)
    (hsubs : c'.subs = c.subs.set k { sub with flow := flow, downlink := sendAll frames })
    (hway : c'.written ++ c'.onWay = c.written ++ c.onWay) : c'.Accounted := by
  refine h.set [] hsub hsubs (by rw [hway, List.append_nil]) nofun fun before hbefore => ?_
  rw [Sub.unsent, hdown, List.append_nil, Sub.made_of_ne (by simp [hdown])] at hbefore
  rw [unsent_of_sendAll rfl, made_of_sendAll rfl, hflow, hbefore, List.append_nil]

/-- It sends the first frame that it has. -/
theorem Accounted.push (h : c.Accounted) {k : Nat} {sub : Sub} {frame : OutFrame}
    {frames : List OutFrame} (hsub : c.subs[k]? = some sub)
    (hdown : sub.downlink = .sending (frame :: frames))
    (hsubs : c'.subs = c.subs.set k { sub with downlink := sendAll frames })
    (hway : c'.written ++ c'.onWay = c.written ++ c.onWay ++ [frame]) : c'.Accounted := by
  have hunsent : sub.unsent = frame :: frames := by rw [Sub.unsent, hdown]
  have hmem : frame ∈ sub.made k := by
    rw [← madeBy_eq hsub, ← h k, unsentBy_eq hsub, hunsent]
    simp
  refine h.set [frame] hsub hsubs hway (List.forall_mem_singleton.mpr (Sub.sub_of_mem_made hmem))
    fun before hbefore => ?_
  rw [hunsent, Sub.made_of_ne (by simp [hdown])] at hbefore
  rw [unsent_of_sendAll rfl, made_of_sendAll rfl, List.append_assoc]
  exact hbefore

end Carrier

theorem Carrier.onWay_push (c : Carrier) (frame : OutFrame) (subs : List Sub) :
    onWay { c with out := c.out ++ [frame], subs := subs } = c.onWay ++ [frame] := by
  unfold onWay
  cases c.writer <;> rfl

/-- The carrier accepts frames: no write of the writer fails, and no send to it. -/
def Act.Accepted : Act → Prop
  | .writeError | .pushFail _ => False
  | _ => True

section Accounts

variable {c c' : Carrier} {a : Act}

/-- **No frame is lost, made twice or overtaken** within its session. -/
theorem Step.accounted (h : Step c a c') (ha : a.Accepted) (hseed : c.Seeded) (hc : c.Accounted) :
    c'.Accounted := by
  cases h with
  | eof | readError =>
    obtain ⟨result, heq⟩ := c.readFailed_eq _
    rw [heq]
    exact hc.same (.map_dropWriter _) rfl
  | @field k hneed =>
    have hbuf : Carrier.Accounted { c with buf := c.buf.drop k } := hc
    exact hbuf.sameWriter (Carrier.sameTasks_onField _ _) (Carrier.onField_sameWriter _ _)
  | @seed k pkt sub hdemux hsub =>
    have hpush : SameTasks c.subs (c.subs.set k { sub with flow := sub.flow.push pkt }) :=
      .set hsub (.push pkt)
    have hpushed : Carrier.Accounted
        { c with subs := c.subs.set k { sub with flow := sub.flow.push pkt } } := hc.same hpush rfl
    refine hpushed.sameWriter (Carrier.sameTasks_register sub.sid ?_)
      (Carrier.register_sameWriter _ _ _)
    exact unborn_set hsub id (hseed k pkt hdemux)
  | @seedFail k pkt sub hdemux hsub =>
    exact hc.sameWriter (Carrier.sameTasks_register sub.sid (hseed k pkt hdemux))
      (Carrier.register_sameWriter _ _ _)
  | keep _ hsub => exact hc.same (.set hsub (.push _)) rfl
  | dial _ hsub hflow | dialError hsub hflow =>
    refine hc.same (.set hsub (.of_flow fun k => ?_)) rfl
    rw [hflow]
    rfl
  | relay hsub hflow _ hstep =>
    refine hc.same (.set hsub (.of_flow fun k => ?_)) rfl
    rw [hflow]
    exact congrArg (List.flatMap _) hstep.moves.1.taken_eq
  | egress hsub hflow _ hstep =>
    refine hc.same (.set hsub (.of_flow fun k => ?_)) rfl
    rw [hflow]
    exact congrArg (List.flatMap _) hstep.moves.1.taken_eq
  | recvTcp hsub hflow hdown =>
    refine hc.recv hsub hdown ?_ rfl rfl
    rw [hflow]
    simp [Flow.frames, Chan.pop]
  | recvUdp hsub hflow hdown =>
    refine hc.recv hsub hdown ?_ rfl rfl
    rw [hflow]
    simp [Flow.frames, Chan.pop]
  | @recvEnd k sub hsub hdown =>
    refine hc.same (.set hsub ⟨fun k => ?_, ?_⟩) rfl
    · rw [Sub.made_of_ne (by simp), Sub.made_of_ne (by simp [hdown])]
    · rw [Sub.unsent, Sub.unsent, hdown]
  | push hsub hdown =>
    refine hc.push hsub hdown rfl ?_
    rw [Carrier.onWay_push, List.append_assoc]
  | @pushEnd k sub hsub hdown =>
    -- the last frame is made as it is sent
    refine hc.set [⟨k, [], frameEnd sub.sid⟩] hsub rfl ?_ (fun other hother => ?_)
      fun before hbefore => ?_
    · rw [Carrier.onWay_push, List.append_assoc]
    · rw [List.mem_singleton.mp hother]
    · rw [Sub.unsent, hdown, List.append_nil, Sub.made_of_ne (by simp [hdown])] at hbefore
      rw [hbefore]
      show _ ++ [] = sub.flow.dropReader.frames k sub.sid ++ _
      rw [Flow.frames_dropReader, List.append_nil]
      rfl
  | pushFail | writeError => exact ha.elim
  | take hwriter hout =>
    refine hc.same (.refl _) ?_
    simp [Carrier.onWay, hwriter, hout]
  | write n hwriter =>
    refine hc.same (.refl _) ?_
    simp [Carrier.onWay, hwriter]
  | wrote hwriter =>
    refine hc.same (.refl _) ?_
    simp [Carrier.onWay, hwriter]
  | outEnd hwriter | flush hwriter =>
    refine hc.same (.refl _) ?_
    simp [Carrier.onWay, hwriter]
  | fill | keepFail | idle | join => exact hc

end Accounts

/-! ## What the client has -/

namespace Carrier

/-- The bytes that are still to be written. -/
def unwritten (c : Carrier) : Bytes :=
  match c.writer with
  | .writing _ rest => rest ++ c.out.flatMap OutFrame.bytes
  | _ => c.out.flatMap OutFrame.bytes

/-- After the bytes that were on the connection `before`, the client gets those of the
frames. -/
def OnWire (before : Bytes) (c : Carrier) : Prop :=
  c.conn.written ++ c.unwritten = before ++ (c.written ++ c.onWay).flatMap OutFrame.bytes

variable {c c' : Carrier} {before : Bytes}

theorem OnWire.same (h : OnWire before c) (hwriter : SameWriter c c') : OnWire before c' := by
  unfold OnWire unwritten at h ⊢
  rw [hwriter.conn_eq, hwriter.writer_eq, hwriter.out_eq, hwriter.written_eq, hwriter.onWay_eq]
  exact h

theorem OnWire.push (h : OnWire before c) (frame : OutFrame) (subs : List Sub) :
    OnWire before { c with out := c.out ++ [frame], subs := subs } := by
  have hunwritten : unwritten { c with out := c.out ++ [frame], subs := subs } =
      c.unwritten ++ frame.bytes := by
    unfold unwritten
    cases c.writer <;> simp
  unfold OnWire at h ⊢
  rw [hunwritten, onWay_push, ← List.append_assoc, h]
  simp

end Carrier

/-- **The client gets the frames**, one after the other. -/
theorem Step.onWire {c c' : Carrier} {a : Act} {before : Bytes} (h : Step c a c') (ha : a.Accepted)
    (hc : Carrier.OnWire before c) : Carrier.OnWire before c' := by
  cases h with
  | eof | readError => exact hc.same (c.readFailed_sameWriter _)
  | @field k =>
    have hbuf : Carrier.OnWire before { c with buf := c.buf.drop k } := hc
    exact hbuf.same (Carrier.onField_sameWriter _ _)
  | @seed k pkt sub =>
    have hpush : Carrier.OnWire before
        { c with subs := c.subs.set k { sub with flow := sub.flow.push pkt } } := hc
    exact hpush.same (Carrier.register_sameWriter _ _ _)
  | seedFail => exact hc.same (c.register_sameWriter _ _)
  | push | pushEnd => exact hc.push _ _
  | pushFail | writeError => exact ha.elim
  | take hwriter hout | outEnd hwriter hout =>
    simpa [Carrier.OnWire, Carrier.unwritten, Carrier.onWay, hwriter, hout] using hc
  | flush hwriter => simpa [Carrier.OnWire, Carrier.unwritten, Carrier.onWay, hwriter] using hc
  | @write frame rest n hwriter =>
    rw [Carrier.OnWire, Carrier.unwritten, Carrier.onWay, hwriter] at hc
    show (c.conn.written ++ rest.take n) ++ (rest.drop n ++ _) = _
    rw [List.append_assoc, ← List.append_assoc (rest.take n), List.take_append_drop]
    exact hc
  | wrote hwriter =>
    simpa [Carrier.OnWire, Carrier.unwritten, Carrier.onWay, Conn.write, hwriter] using hc
  | fill | keep | keepFail | dial | dialError | relay | egress | recvTcp | recvUdp | recvEnd | idle
  | join => exact hc

/-! ## One frame for one datagram -/

namespace OutFrame

/-- A `Keep` frame: its fifth byte is the status. -/
def isKeep (frame : OutFrame) : Bool := frame.bytes[4]? = some stKeep

/-- **A whole datagram**: a `Keep` frame of the session with the payload of the packet, all
of it, and with its source as the target. -/
def Whole (sid : UInt16) (frame : OutFrame) (pkt : UdpPacket) : Prop :=
  ∃ metaBytes : Bytes, metaBytes.length ≤ maxMeta ∧
    frame.bytes = u16ToBe (.ofNat metaBytes.length) ++ bodyBytes metaBytes (some pkt.data) ∧
    parseMeta metaBytes =
      some ⟨sid, stKeep, optData, some (.udp pkt.target.address pkt.target.port)⟩

end OutFrame

theorem frameKeepUdp_eq_some {sid : UInt16} {target : Destination} {data bytes : Bytes}
    (h : frameKeepUdp sid target data = some bytes) :
    ∃ address, (u16ToBe sid ++ [stKeep, optData, netUdp] ++ address).length < 65536 ∧
      bytes = u16ToBe (.ofNat (u16ToBe sid ++ [stKeep, optData, netUdp] ++ address).length) ++
        bodyBytes (u16ToBe sid ++ [stKeep, optData, netUdp] ++ address) (some data) := by
  unfold frameKeepUdp at h
  obtain ⟨address, -, h⟩ := Option.bind_eq_some_iff.mp h
  dsimp only at h
  split at h
  · next hfits =>
    refine ⟨address, hfits.1, ?_⟩
    rw [← Option.some.inj h]
    simp [bodyBytes]
  · cases h

theorem isKeep_of_mem_frames {flow : Flow} {k : Nat} {sid : UInt16} {frame : OutFrame}
    (h : frame ∈ flow.frames k sid) : frame.isKeep = true := by
  obtain ⟨-, htcp | ⟨target, hudp⟩⟩ := Flow.of_mem_frames h
  · rw [OutFrame.isKeep, htcp]
    rfl
  · obtain ⟨address, -, hbytes⟩ := frameKeepUdp_eq_some hudp
    rw [OutFrame.isKeep, hbytes]
    rfl

/-- The `Keep` frames that a task makes are those of what it took off its link. -/
theorem Sub.made_keeps (k : Nat) (sub : Sub) :
    (sub.made k).filter OutFrame.isKeep = sub.flow.frames k sub.sid := by
  have hall : (sub.flow.frames k sub.sid).filter OutFrame.isKeep = sub.flow.frames k sub.sid :=
    List.filter_eq_self.mpr fun _ => isKeep_of_mem_frames
  unfold made
  split
  · rw [List.filter_append, hall]
    exact List.append_nil _
  · exact hall

section Datagrams

variable {k : Nat} {sid : UInt16} {pkt : UdpPacket} {frame : OutFrame}

/-- What a frame says, it says once: its payload is that of the packet. -/
theorem payload_of_whole {other : UdpPacket} (hframe : frame ∈ keepUdpFrames k sid other)
    (h : frame.Whole sid pkt) : frame.payload = pkt.data := by
  obtain ⟨piece, -, hpiece⟩ := List.mem_filterMap.mp hframe
  obtain ⟨bytes, hbytes, rfl⟩ := Option.map_eq_some_iff.mp hpiece
  obtain ⟨address, hlt, rfl⟩ := frameKeepUdp_eq_some hbytes
  obtain ⟨metaBytes, hmax, heq, -⟩ := h
  generalize u16ToBe sid ++ [stKeep, optData, netUdp] ++ address = own at hlt heq
  obtain ⟨hlen, hbody⟩ := List.append_inj heq rfl
  have hlen' : own.length = metaBytes.length := by
    have hword := congrArg Carrier.fieldU16 hlen
    rwa [fieldU16_toBe hlt, fieldU16_toBe (by unfold maxMeta at hmax; omega)] at hword
  rw [bodyBytes, bodyBytes, List.append_assoc, List.append_assoc] at hbody
  exact (List.append_inj (List.append_inj hbody hlen').2 rfl).2

/-- A packet that fits one frame is sent in one, whole. -/
theorem keepUdpFrames_of_fits (k : Nat) (sid : UInt16) (hne : pkt.data ≠ [])
    (hle : pkt.data.length ≤ maxData)
    (hsource : pkt.target.address.Canonical) :
    ∃ frame, keepUdpFrames k sid pkt = [frame] ∧ frame.Whole sid pkt := by
  obtain ⟨metaBytes, hbuild, -, hmax, hparse⟩ :=
    build_eq (.keepUdp sid pkt.target pkt.data) ⟨hsource, hle⟩
  have hframe : frameKeepUdp sid pkt.target pkt.data = some _ := hbuild
  refine ⟨⟨k, pkt.data, _⟩, ?_, metaBytes, hmax, rfl, hparse⟩
  rw [keepUdpFrames, chunks_of_length_le hne hle, List.filterMap_cons, hframe]
  rfl

theorem exists_of_forall₂ {α β : Type} {R : α → β → Prop} {l : List α} {l' : List β}
    (h : List.Forall₂ R l l') {b : β} (hb : b ∈ l') : ∃ a ∈ l, R a b := by
  induction h with
  | nil => cases hb
  | @cons a b' l l' hab _ ih =>
    rcases List.mem_cons.mp hb with rfl | hb
    · exact ⟨a, List.mem_cons_self, hab⟩
    · obtain ⟨a', ha', hab'⟩ := ih hb
      exact ⟨a', List.mem_cons_of_mem _ ha', hab'⟩

/-- **The packets of a task, and its frames**: they are one to one exactly if each packet
fits one frame. -/
theorem whole_frames_iff {pkts : List UdpPacket}
    (hsource : ∀ pkt ∈ pkts, pkt.target.address.Canonical) :
    List.Forall₂ (OutFrame.Whole sid) (pkts.flatMap (keepUdpFrames k sid)) pkts ↔
      ∀ pkt ∈ pkts, pkt.data ≠ [] ∧ pkt.data.length ≤ maxData := by
  constructor
  · intro h pkt hpkt
    obtain ⟨frame, hframe, hwhole⟩ := exists_of_forall₂ h hpkt
    obtain ⟨other, -, hother⟩ := List.mem_flatMap.mp hframe
    obtain ⟨piece, hpiece, hbytes⟩ := List.mem_filterMap.mp hother
    have hpayload := payload_of_whole hother hwhole
    obtain ⟨bytes, -, rfl⟩ := Option.map_eq_some_iff.mp hbytes
    rw [← hpayload]
    exact mem_chunks (by decide) hpiece
  · intro h
    induction pkts with
    | nil => exact .nil
    | cons pkt pkts ih =>
      obtain ⟨⟨hne, hle⟩, hrest⟩ := List.forall_mem_cons.mp h
      obtain ⟨hcanon, hcanons⟩ := List.forall_mem_cons.mp hsource
      obtain ⟨frame, hframe, hwhole⟩ := keepUdpFrames_of_fits k sid hne hle hcanon
      rw [List.flatMap_cons, hframe]
      exact .cons hwhole (ih hcanons hrest)

end Datagrams

/-- The `Keep` frames of the session at `k`: those that the client has, those on the way and
those that the task still has. -/
def Carrier.keeps (c : Carrier) (k : Nat) : List OutFrame :=
  (c.flight k ++ unsentBy c.subs k).filter OutFrame.isKeep

/-- What holds while the carrier accepts frames. -/
structure Carrier.Kept (before : Bytes) (c : Carrier) : Prop where
  seeded : c.Seeded
  accounted : c.Accounted
  wire : c.OnWire before

theorem kept_of_run {conn : Conn} {leftover : Bytes} {trace : List (Act × Carrier)} {c : Carrier}
    (h : Run Step (.serve conn leftover) trace c) (haccepted : ∀ p ∈ trace, p.1.Accepted) :
    c.Kept conn.written :=
  h.invariant_of_good Act.Accepted haccepted
    ⟨Carrier.seeded_of_ne _ (by simp [Carrier.serve]), fun _ => rfl, rfl⟩ fun _ _ _ ha hs hstep =>
      ⟨hstep.seeded hs.seeded, hstep.accounted ha hs.seeded hs.accounted, hstep.onWire ha hs.wire⟩

theorem Carrier.Kept.keeps_eq {before : Bytes} {c : Carrier} (h : c.Kept before)
    {k : Nat} {sub : Sub}
    {up down : Chan UdpPacket} {egress : FreedomUdp} (hsub : c.subs[k]? = some sub)
    (hflow : sub.flow = .udp up down egress) :
    c.keeps k = down.taken.flatMap (keepUdpFrames k sub.sid) := by
  rw [Carrier.keeps, h.accounted k, madeBy_eq hsub, Sub.made_keeps, hflow]
  rfl

/-- **Datagram boundaries.**  While the carrier accepts frames, the client gets the bytes of
the frames one after the other; and of those of a UDP session there is one `Keep` frame for
each packet that its task took off the link, in order, with the whole payload and with the
source as the target, if and only if no packet is empty and none is longer than
`MAX_DATA`. -/
theorem datagrams_whole_iff {conn : Conn} {leftover : Bytes} {trace : List (Act × Carrier)}
    {c : Carrier} (h : Run Step (.serve conn leftover) trace c)
    (haccepted : ∀ p ∈ trace, p.1.Accepted) {k : Nat} {sub : Sub} {up down : Chan UdpPacket}
    {egress : FreedomUdp} (hsub : c.subs[k]? = some sub) (hflow : sub.flow = .udp up down egress)
    (hsource : ∀ pkt ∈ down.taken, pkt.target.address.Canonical) :
    c.OnWire conn.written ∧
      (List.Forall₂ (OutFrame.Whole sub.sid) (c.keeps k) down.taken ↔
        ∀ pkt ∈ down.taken, pkt.data ≠ [] ∧ pkt.data.length ≤ maxData) := by
  have hkept := kept_of_run h haccepted
  rw [hkept.keeps_eq hsub hflow]
  exact ⟨hkept.wire, whole_frames_iff hsource⟩

/-- A `New` for session 1 to `10.0.0.53:53`, over UDP. -/
def newUdp : Bytes := [0, 12, 0, 1, 1, 0, 2, 0, 53, 1, 10, 0, 0, 53]

/-- The source of the answers. -/
def nameServer : Destination := .udp (.ip (.v4 #v[10, 0, 0, 53])) 53

/-- The session is opened, and its task takes one answer off the link. -/
theorem exists_answered (data : Bytes) (hlen : data.length ≤ recvBuf) :
    ∃ trace c sub up down egress, Run Step (.serve (.new []) newUdp) trace c ∧
      (∀ p ∈ trace, p.1.Accepted) ∧ c.subs[0]? = some sub ∧ sub.sid = 1 ∧
      sub.flow = .udp up down egress ∧ down.taken = [⟨data, nameServer⟩] := by
  refine ⟨_, _, _, _, _, _, .cons (.field (k := 2) rfl (by decide)) <|
    .cons (.field (k := 12) rfl (by decide)) <|
    .cons (.egress (k := 0) (a := .bound) rfl rfl nofun (.bound rfl rfl)) <|
    .cons (.egress (k := 0) (a := .recv ⟨data, nameServer⟩) rfl rfl nofun
      (.recv _ rfl nofun rfl hlen ⟨rfl, rfl⟩)) <|
    .cons (.egress (k := 0) (a := .deliver) rfl rfl nofun
      (.deliver rfl rfl ⟨rfl, rfl, by decide⟩)) <|
    .cons (.recvUdp (k := 0) rfl rfl rfl ⟨rfl, rfl⟩) (.nil _), ?_, rfl, rfl, rfl, rfl⟩
  simp [Act.Accepted]

/-- An answer of one byte comes whole. -/
theorem datagrams_whole_iff_byte :
    ∃ trace c, Run Step (.serve (.new []) newUdp) trace c ∧ c.OnWire [] ∧
      List.Forall₂ (OutFrame.Whole 1) (c.keeps 0) [⟨[7], nameServer⟩] := by
  obtain ⟨trace, c, sub, up, down, egress, h, haccepted, hsub, hsid, hflow, htaken⟩ :=
    exists_answered [7] (by decide)
  have hsource : ∀ pkt ∈ down.taken, pkt.target.address.Canonical := by
    rw [htaken]
    exact List.forall_mem_singleton.mpr trivial
  obtain ⟨hwire, hiff⟩ := datagrams_whole_iff h haccepted hsub hflow hsource
  rw [htaken, hsid] at hiff
  exact ⟨trace, c, h, hwire, hiff.mpr (by simp [maxData])⟩

/-- The task takes an answer with these data off the link, and the client does not get it in
one frame. -/
def Mangled (data : Bytes) : Prop :=
  ∃ trace c sub up down egress, Run Step (.serve (.new []) newUdp) trace c ∧
    (∀ p ∈ trace, p.1.Accepted) ∧ c.subs[0]? = some sub ∧ sub.flow = .udp up down egress ∧
    down.taken = [⟨data, nameServer⟩] ∧
    ¬ List.Forall₂ (OutFrame.Whole sub.sid) (c.keeps 0) down.taken

theorem mangled_of_not_fits {data : Bytes} (hlen : data.length ≤ recvBuf)
    (hbad : ¬ (data ≠ [] ∧ data.length ≤ maxData)) : Mangled data := by
  obtain ⟨trace, c, sub, up, down, egress, h, haccepted, hsub, -, hflow, htaken⟩ :=
    exists_answered data hlen
  refine ⟨trace, c, sub, up, down, egress, h, haccepted, hsub, hflow, htaken, fun hwhole => ?_⟩
  have hsource : ∀ pkt ∈ down.taken, pkt.target.address.Canonical := by
    rw [htaken]
    exact List.forall_mem_singleton.mpr trivial
  rw [(kept_of_run h haccepted).keeps_eq hsub hflow, whole_frames_iff hsource, htaken] at hwhole
  exact hbad (hwhole _ List.mem_cons_self)

/-- **An empty answer, and one of 8193 bytes**: of the first the client hears nothing, and the
second becomes two. -/
theorem datagrams_not_whole : Mangled [] ∧ Mangled (List.replicate 8193 0) := by
  constructor
  · exact mangled_of_not_fits (Nat.zero_le _) fun h => h.1 rfl
  · refine mangled_of_not_fits ?_ ?_ <;> rw [List.length_replicate]
    · decide
    · exact fun h => absurd h.2 (by decide)

end XrayRs.Mux
