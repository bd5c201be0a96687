import Mathlib.Data.List.Forall2
import XrayRs.MuxFrames
import XrayRs.MuxSessions

/-! # The frames of a mux client, dispatched

What the demultiplexer does, seen from its side.  The client sends whole frames
(`ClientFrame`).  The demultiplexer is somewhere in their bytes (`Carrier.Holds`): those
before are handled, those after are to come, whatever reads the carrier makes of them.
A frame that is complete does one of few things (`Carrier.handles`).

Of all that goes on beside the demultiplexer only two things matter: it puts nothing
on a link, and no receiver that is gone comes back (`Step.aside`). -/

namespace XrayRs.Mux

open BoundedChannel ByteWords StepSystem

/-! ## The uplink of a sub-session -/

namespace Flow

/-- The kind of the link. -/
def network : Flow → Network
  | .tcp .. => .tcp
  | .udp .. => .udp

/-- The data put on the uplink so far. -/
def uplink : Flow → List Bytes
  | .tcp up _ _ => up.sent
  | .udp up _ _ => up.sent.map UdpPacket.data

/-- The receiver of the uplink is alive. -/
def Heard : Flow → Prop
  | .tcp up _ _ => up.rxAlive = true
  | .udp up _ _ => up.rxAlive = true

variable (flow : Flow)

theorem uplink_push (pkt : UdpPacket) : (flow.push pkt).uplink = flow.uplink ++ [pkt.data] := by
  cases flow <;> simp [push, uplink]

theorem network_push (pkt : UdpPacket) : (flow.push pkt).network = flow.network := by
  cases flow <;> rfl

theorem CanSend.heard {flow : Flow} (h : flow.CanSend) : flow.Heard := by
  cases flow <;> exact h.2.1

theorem Refuses.not_heard {flow : Flow} (h : flow.Refuses) : ¬ flow.Heard := by
  cases flow with
  | tcp up down egress | udp up down egress =>
    intro halive
    exact Bool.false_ne_true (h.symm.trans halive)

end Flow

/-- What happens to a sub-session beside the demultiplexer. -/
structure Sub.Keeps (sub sub' : Sub) : Prop where
  sid_eq : sub'.sid = sub.sid
  network_eq : sub'.flow.network = sub.flow.network
  uplink_eq : sub'.flow.uplink = sub.flow.uplink
  heard : sub'.flow.Heard → sub.flow.Heard

namespace Sub.Keeps

variable {sub sub' sub'' : Sub}

theorem refl (sub : Sub) : Keeps sub sub := ⟨rfl, rfl, rfl, id⟩

theorem trans (h : Keeps sub sub') (h' : Keeps sub' sub'') : Keeps sub sub'' :=
  ⟨h'.sid_eq.trans h.sid_eq, h'.network_eq.trans h.network_eq, h'.uplink_eq.trans h.uplink_eq,
    fun hh => h.heard (h'.heard hh)⟩

theorem dropWriter (sub : Sub) : Keeps sub sub.dropWriter := by
  obtain ⟨sid, target, flow, downlink⟩ := sub
  cases flow <;> exact ⟨rfl, rfl, rfl, id⟩

theorem finish (sub : Sub) : Keeps sub sub.finish := by
  obtain ⟨sid, target, flow, downlink⟩ := sub
  cases flow <;> exact ⟨rfl, rfl, rfl, id⟩

/-- The receiver of a TCP link makes a move, or the sender of its answers. -/
theorem of_tcp {up up' down down' : Chan Bytes} {egress egress' : TcpEgress} {downlink : Downlink}
    (hflow : sub.flow = .tcp up down egress) (hsent : up'.sent = up.sent)
    (hrx : up'.rxAlive = true → up.rxAlive = true) :
    Keeps sub { sub with flow := .tcp up' down' egress', downlink := downlink } := by
  refine ⟨rfl, ?_, ?_, ?_⟩
  · rw [hflow]
    rfl
  · rw [hflow]
    exact hsent
  · rw [hflow]
    exact hrx

theorem of_udp {up up' down down' : Chan UdpPacket} {egress egress' : FreedomUdp}
    {downlink : Downlink} (hflow : sub.flow = .udp up down egress) (hsent : up'.sent = up.sent)
    (hrx : up'.rxAlive = true → up.rxAlive = true) :
    Keeps sub { sub with flow := .udp up' down' egress', downlink := downlink } := by
  refine ⟨rfl, ?_, ?_, ?_⟩
  · rw [hflow]
    rfl
  · rw [hflow]
    exact congrArg (List.map UdpPacket.data) hsent
  · rw [hflow]
    exact hrx

end Sub.Keeps

/-- Every sub-session is where it was, and nothing was put on its uplink. -/
abbrev KeepsAll : List Sub → List Sub → Prop := List.Forall₂ Sub.Keeps

namespace KeepsAll

variable {subs subs' : List Sub} {k : Nat} {sub : Sub}

theorem refl (subs : List Sub) : KeepsAll subs subs := List.forall₂_same.mpr fun sub _ => .refl sub

theorem trans {subs'' : List Sub} (h : KeepsAll subs subs') (h' : KeepsAll subs' subs'') :
    KeepsAll subs subs'' := by
  induction h generalizing subs'' with
  | nil => exact h'
  | cons hsub _ ih =>
    cases h' with
    | cons hsub' hrest => exact .cons (hsub.trans hsub') (ih hrest)

theorem modify {f : Sub → Sub} (h : ∀ sub, Sub.Keeps sub (f sub)) (subs : List Sub) (k : Nat) :
    KeepsAll subs (subs.modify k f) := by
  induction subs generalizing k with
  | nil => cases k <;> exact .nil
  | cons sub subs ih =>
    cases k with
    | zero => exact .cons (h sub) (KeepsAll.refl subs)
    | succ k => exact .cons (.refl sub) (ih k)

theorem set {sub' : Sub} (hsub : subs[k]? = some sub) (h : Sub.Keeps sub sub') :
    KeepsAll subs (subs.set k sub') := by
  induction subs generalizing k with
  | nil => cases hsub
  | cons other subs ih =>
    cases k with
    | zero =>
      obtain rfl : other = sub := by simpa using hsub
      exact .cons h (KeepsAll.refl subs)
    | succ k => exact .cons (.refl other) (ih (by simpa using hsub))

theorem map_dropWriter (subs : List Sub) : KeepsAll subs (subs.map Sub.dropWriter) :=
  List.forall₂_map_right_iff.mpr (List.forall₂_same.mpr fun sub _ => .dropWriter sub)

theorem sids_eq (h : KeepsAll subs subs') : subs'.map Sub.sid = subs.map Sub.sid := by
  induction h with
  | nil => rfl
  | cons hsub _ ih => rw [List.map_cons, List.map_cons, hsub.sid_eq, ih]

theorem uplinks_eq (h : KeepsAll subs subs') :
    subs'.map (·.flow.uplink) = subs.map (·.flow.uplink) := by
  induction h with
  | nil => rfl
  | cons hsub _ ih => rw [List.map_cons, List.map_cons, hsub.uplink_eq, ih]

theorem get (h : KeepsAll subs subs') (hsub : subs[k]? = some sub) :
    ∃ sub', subs'[k]? = some sub' ∧ Sub.Keeps sub sub' := by
  induction h generalizing k with
  | nil => cases hsub
  | @cons other other' _ _ hother _ ih =>
    cases k with
    | zero =>
      obtain rfl : other = sub := by simpa using hsub
      exact ⟨other', rfl, hother⟩
    | succ k => simpa using ih (by simpa using hsub)

end KeepsAll

namespace Carrier

/-- The client's bytes that no field has been taken from. -/
def content (c : Carrier) : Bytes := c.buf ++ c.conn.unread

/-- The client's bytes and the timer are left as they are. -/
structure Untouched (c c' : Carrier) : Prop where
  content_eq : c'.content = c.content
  idle_eq : c'.idle = c.idle

theorem keeps_remove (c : Carrier) (sid : UInt16) : KeepsAll c.subs (c.remove sid).subs := by
  unfold remove
  split
  · exact .refl _
  · exact .modify Sub.Keeps.dropWriter _ _

theorem remove_sessions (c : Carrier) (sid sid' : UInt16) :
    (c.remove sid).sessions sid' = if sid' = sid then none else c.sessions sid' := by
  unfold remove
  cases hsid : c.sessions sid with
  | none =>
    by_cases h : sid' = sid
    · rw [if_pos h, h]
      exact hsid
    · rw [if_neg h]
  | some k =>
    by_cases h : sid' = sid
    · rw [if_pos h, h]
      exact Function.update_self ..
    · rw [if_neg h]
      exact Function.update_of_ne h ..

theorem remove_untouched (c : Carrier) (sid : UInt16) : Untouched c (c.remove sid) := by
  unfold remove
  split <;> exact ⟨rfl, rfl⟩

theorem keeps_register (c : Carrier) (sid : UInt16) (k : Nat) :
    KeepsAll c.subs (c.register sid k).subs :=
  (c.keeps_remove sid).trans (.modify (f := Sub.spawn) (fun _ => ⟨rfl, rfl, rfl, id⟩) _ _)

theorem register_sessions (c : Carrier) (sid sid' : UInt16) (k : Nat) :
    (c.register sid k).sessions sid' = if sid' = sid then some k else c.sessions sid' := by
  unfold register
  by_cases h : sid' = sid
  · rw [if_pos h, h]
    exact Function.update_self ..
  · rw [if_neg h]
    refine (Function.update_of_ne h ..).trans ?_
    rw [remove_sessions, if_neg h]

theorem register_untouched (c : Carrier) (sid : UInt16) (k : Nat) :
    Untouched c (c.register sid k) :=
  ⟨(c.remove_untouched sid).content_eq, (c.remove_untouched sid).idle_eq⟩

/-- The data that the demultiplexer is about to put on the link of the session `k`. -/
def pending (c : Carrier) (k : Nat) : Bytes :=
  match c.demux with
  | .seeding j pkt | .keeping j pkt => if j = k then pkt.data else []
  | _ => []

theorem not_stopped_of_need {c : Carrier} {n : Nat} (h : c.demux.need = some n) :
    ¬ c.demux.Stopped := by
  intro hstop
  unfold Demux.Stopped at hstop
  split at hstop
  · next hdemux => rw [hdemux] at h; cases h
  · next hdemux => rw [hdemux] at h; cases h
  · exact hstop

/-- The demultiplexer has data for the link of the session `j`. -/
def Sending (c : Carrier) (j : Nat) (pkt : UdpPacket) : Prop :=
  c.demux = .seeding j pkt ∨ c.demux = .keeping j pkt

theorem Sending.pending_eq {c : Carrier} {j : Nat} {pkt : UdpPacket} (h : c.Sending j pkt)
    (k : Nat) : c.pending k = if j = k then pkt.data else [] := by
  unfold pending
  rcases h with h | h <;> rw [h]

theorem pending_of_need {c : Carrier} {n : Nat} (h : c.demux.need = some n) (k : Nat) :
    c.pending k = [] := by
  unfold pending
  split
  · next hdemux => rw [hdemux] at h; cases h
  · next hdemux => rw [hdemux] at h; cases h
  · rfl

end Carrier

/-! ## What goes on beside the demultiplexer -/

/-- The moves of the demultiplexer. -/
def Act.ofDemux : Act → Bool
  | .eof | .readError | .field | .send | .sendFail | .join => true
  | _ => false

/-- A move that is not one of the demultiplexer's. -/
structure Aside (c c' : Carrier) : Prop where
  content_eq : c'.content = c.content
  demux_eq : c'.demux = c.demux
  sessions_eq : c'.sessions = c.sessions
  idle : c.idle = true → c'.idle = true
  subs : KeepsAll c.subs c'.subs

/-- **Only the demultiplexer feeds the links**; a read leaves the client's bytes as
they are. -/
theorem Step.aside {c c' : Carrier} {a : Act} (h : Step c a c') (ha : a.ofDemux = false) :
    Aside c c' := by
  have hrefl := KeepsAll.refl c.subs
  cases h with
  | eof | readError | field | seed | seedFail | keep | keepFail | join => cases ha
  | fill n =>
    refine ⟨?_, rfl, rfl, id, hrefl⟩
    show (c.buf ++ c.conn.unread.take n) ++ c.conn.unread.drop n = c.buf ++ c.conn.unread
    rw [List.append_assoc, List.take_append_drop]
  | dial _ hsub hflow => exact ⟨rfl, rfl, rfl, id, .set hsub (.of_tcp hflow rfl id)⟩
  | dialError hsub hflow => exact ⟨rfl, rfl, rfl, id, .set hsub (.of_tcp hflow rfl nofun)⟩
  | relay hsub hflow _ hstep =>
    have hmove := hstep.moves.2
    exact ⟨rfl, rfl, rfl, id, .set hsub (.of_tcp hflow hmove.sent_eq hmove.rxAlive_of)⟩
  | egress hsub hflow _ hstep =>
    have hmove := hstep.moves.2
    exact ⟨rfl, rfl, rfl, id, .set hsub (.of_udp hflow hmove.sent_eq hmove.rxAlive_of)⟩
  | recvTcp hsub hflow => exact ⟨rfl, rfl, rfl, id, .set hsub (.of_tcp hflow rfl id)⟩
  | recvUdp hsub hflow => exact ⟨rfl, rfl, rfl, id, .set hsub (.of_udp hflow rfl id)⟩
  | recvEnd hsub | push hsub => exact ⟨rfl, rfl, rfl, id, .set hsub ⟨rfl, rfl, rfl, id⟩⟩
  | pushEnd hsub | pushFail hsub => exact ⟨rfl, rfl, rfl, id, .set hsub (.finish _)⟩
  | write | wrote | take | writeError | outEnd | flush => exact ⟨rfl, rfl, rfl, id, hrefl⟩
  | idle => exact ⟨rfl, rfl, rfl, fun _ => rfl, hrefl⟩

/-! ## The frames of a client -/

/-- A frame that a client can send: its meta field, what that says, and the data. -/
structure ClientFrame where
  metaBytes : Bytes
  info : Meta
  data : Option Bytes
  length_le : metaBytes.length ≤ maxMeta
  parse : parseMeta metaBytes = some info
  option : info.option &&& optData ≠ 0 ↔ data.isSome
  data_le : ∀ d, data = some d → d.length ≤ maxData

namespace ClientFrame

/-- Its bytes. -/
def wire (f : ClientFrame) : Bytes :=
  u16ToBe (.ofNat f.metaBytes.length) ++ bodyBytes f.metaBytes f.data

theorem metaBytes_ne (f : ClientFrame) : f.metaBytes ≠ [] := by
  intro h
  have hparse := f.parse
  rw [h] at hparse
  cases hparse

/-- The bytes of frames that are sent one after the other. -/
def wires (frames : List ClientFrame) : Bytes := frames.flatMap wire

theorem wires_eq_nil {frames : List ClientFrame} (h : wires frames = []) : frames = [] := by
  cases frames with
  | nil => rfl
  | cons f frames => simp [wires, wire, u16ToBe] at h

end ClientFrame

open ClientFrame

/-- **Where the demultiplexer is in the client's bytes**: the frames `todo` are still to
be dispatched, the first of them perhaps begun.  When `demux` has returned, what it left
may begin anywhere in a frame. -/
def Carrier.Holds (c : Carrier) (todo : List ClientFrame) : Prop :=
  match c.demux with
  | .metalen | .seeding .. | .keeping .. => c.content = wires todo
  | .metadata len => ∃ f rest, todo = f :: rest ∧ len = f.metaBytes.length ∧
      c.content = bodyBytes f.metaBytes f.data ++ wires rest
  | .datalen info => ∃ f rest d, todo = f :: rest ∧ info = f.info ∧ f.data = some d ∧
      c.content = u16ToBe (.ofNat d.length) ++ d ++ wires rest
  | .data info len => ∃ f rest d, todo = f :: rest ∧ info = f.info ∧ f.data = some d ∧
      len = d.length ∧ c.content = d ++ wires rest
  | .draining _ | .returned _ => c.content = [] → todo = []

section Reading

variable {c : Carrier} {todo : List ClientFrame}

/-- A field is the front of the client's bytes. -/
theorem Carrier.field_of_content {field rest : Bytes} {n : Nat} (hcontent : c.content = field ++ rest)
    (hn : field.length = n) (hlen : n ≤ c.buf.length) :
    c.buf.take n = field ∧ Carrier.content { c with buf := c.buf.drop n } = rest := by
  have hsplit : c.buf.take n ++ (c.buf.drop n ++ c.conn.unread) = field ++ rest := by
    rw [← List.append_assoc, List.take_append_drop]
    exact hcontent
  exact List.append_inj hsplit (by rw [List.length_take, hn]; omega)

/-- **Frames in step with the client**: a field is the next one of the first frame to
come, or its last, and then the frame is dispatched as the client sent it. -/
inductive Carrier.Reads (c : Carrier) (field : Bytes) (todo : List ClientFrame) : Prop
  | next (next : Demux) (heq : c.onField field = { c with demux := next })
      (hneed : next.need.isSome) (hholds : Carrier.Holds { c with demux := next } todo)
  | last (f : ClientFrame) (rest : List ClientFrame) (htodo : todo = f :: rest)
      (heq : c.onField field = c.handle f.info f.data) (hcontent : c.content = wires rest)

section Field

variable {f : ClientFrame} {rest : List ClientFrame} {d : Bytes}

theorem reads_metalen (hdemux : c.demux = .metalen)
    (hcontent : c.content = bodyBytes f.metaBytes f.data ++ wires rest) :
    c.Reads (u16ToBe (.ofNat f.metaBytes.length)) (f :: rest) := by
  have hmax := f.length_le
  have hpos := List.length_pos_iff.mpr f.metaBytes_ne
  have hword := fieldU16_toBe (n := f.metaBytes.length) (by unfold maxMeta at hmax; omega)
  refine .next (.metadata f.metaBytes.length) ?_ rfl ⟨f, rest, rfl, rfl, hcontent⟩
  simp only [Carrier.onField, hdemux, hword]
  rw [if_neg (by omega)]

theorem reads_metadata (hdemux : c.demux = .metadata f.metaBytes.length)
    (hcontent : f.metaBytes ++ c.content = bodyBytes f.metaBytes f.data ++ wires rest) :
    c.Reads f.metaBytes (f :: rest) := by
  cases hdata : f.data with
  | none =>
    have hopt : ¬ (f.info.option &&& optData ≠ 0) := by simp [f.option, hdata]
    rw [hdata, bodyBytes] at hcontent
    refine .last f rest rfl ?_ (List.append_cancel_left hcontent)
    simp only [Carrier.onField, hdemux, f.parse, if_neg hopt, hdata]
  | some d =>
    have hopt : f.info.option &&& optData ≠ 0 := by simp [f.option, hdata]
    rw [hdata, bodyBytes, List.append_assoc, List.append_assoc] at hcontent
    refine .next (.datalen f.info) ?_ rfl ⟨f, rest, d, rfl, rfl, hdata, ?_⟩
    · simp only [Carrier.onField, hdemux, f.parse, if_pos hopt]
    · rw [List.append_assoc]
      exact List.append_cancel_left hcontent

theorem reads_datalen (hdemux : c.demux = .datalen f.info) (hdata : f.data = some d)
    (hcontent : c.content = d ++ wires rest) :
    c.Reads (u16ToBe (.ofNat d.length)) (f :: rest) := by
  have hmax := f.data_le d hdata
  have hword := fieldU16_toBe (n := d.length) (by unfold maxData at hmax; omega)
  refine .next (.data f.info d.length) ?_ rfl ⟨f, rest, d, rfl, rfl, hdata, rfl, hcontent⟩
  simp only [Carrier.onField, hdemux, hword]
  rw [if_neg (by omega)]

theorem reads_data {len : Nat} (hdemux : c.demux = .data f.info len) (hdata : f.data = some d)
    (hcontent : c.content = wires rest) : c.Reads d (f :: rest) := by
  refine .last f rest rfl ?_ hcontent
  simp only [Carrier.onField, hdemux, hdata]

end Field

theorem Carrier.Holds.onField {n : Nat} (h : c.Holds todo) (hneed : c.demux.need = some n)
    (hlen : n ≤ c.buf.length) :
    Carrier.Reads { c with buf := c.buf.drop n } (c.buf.take n) todo := by
  unfold Holds at h
  cases hdemux : c.demux with
  | metalen =>
    rw [hdemux] at h hneed
    obtain rfl : 2 = n := Option.some.inj hneed
    cases todo with
    | nil =>
      have hnil : c.buf = [] := (List.append_eq_nil_iff.mp h).1
      rw [hnil] at hlen
      cases hlen
    | cons f rest =>
      have hcontent : c.content =
          u16ToBe (.ofNat f.metaBytes.length) ++ (bodyBytes f.metaBytes f.data ++ wires rest) := by
        rw [show c.content = _ from h, wires, List.flatMap_cons, wire, List.append_assoc]
        rfl
      obtain ⟨hfield, hrest⟩ := field_of_content (n := 2) hcontent rfl hlen
      rw [hfield]
      exact reads_metalen rfl hrest
  | metadata len =>
    rw [hdemux] at h hneed
    obtain rfl : len = n := Option.some.inj hneed
    obtain ⟨f, rest, rfl, rfl, hcontent⟩ := h
    obtain ⟨more, hbody⟩ : ∃ more, bodyBytes f.metaBytes f.data = f.metaBytes ++ more := by
      cases f.data with
      | none => exact ⟨[], (List.append_nil _).symm⟩
      | some d => exact ⟨_, List.append_assoc ..⟩
    rw [hbody, List.append_assoc] at hcontent
    obtain ⟨hfield, hrest⟩ := field_of_content hcontent rfl hlen
    rw [hfield]
    refine reads_metadata rfl ?_
    rw [hbody, List.append_assoc]
    exact congrArg (f.metaBytes ++ ·) hrest
  | datalen info =>
    rw [hdemux] at h hneed
    obtain rfl : 2 = n := Option.some.inj hneed
    obtain ⟨f, rest, d, rfl, rfl, hdata, hcontent⟩ := h
    rw [List.append_assoc] at hcontent
    obtain ⟨hfield, hrest⟩ := field_of_content (n := 2) hcontent rfl hlen
    rw [hfield]
    exact reads_datalen rfl hdata hrest
  | data info len =>
    rw [hdemux] at h hneed
    obtain rfl : len = n := Option.some.inj hneed
    obtain ⟨f, rest, d, rfl, rfl, hdata, rfl, hcontent⟩ := h
    obtain ⟨hfield, hrest⟩ := field_of_content hcontent rfl hlen
    rw [hfield]
    exact reads_data rfl hdata hrest
  | seeding | keeping | draining | returned =>
    rw [hdemux] at hneed
    cases hneed

/-- Between frames nothing of the next one has been taken. -/
theorem Carrier.Holds.content_of_sending {j : Nat} {pkt : UdpPacket} (h : c.Holds todo)
    (hsending : c.Sending j pkt) : c.content = wires todo := by
  unfold Holds at h
  rcases hsending with hdemux | hdemux
  · rwa [hdemux] at h
  · rwa [hdemux] at h

/-- Where the carrier ends, or fails, bytes are missing: if none are left, then there is
no frame left either. -/
theorem Carrier.Holds.stop {n : Nat} (h : c.Holds todo) (hneed : c.demux.need = some n)
    (hshort : c.buf.length < n) (hnil : c.content = []) : todo = [] := by
  unfold Holds at h
  have hbuf : c.buf = [] := (List.append_eq_nil_iff.mp hnil).1
  cases hdemux : c.demux with
  | metalen =>
    rw [hdemux] at h
    exact wires_eq_nil (h.symm.trans hnil)
  | metadata len =>
    rw [hdemux] at h
    obtain ⟨f, rest, -, -, hcontent⟩ := h
    have hbody : f.metaBytes = [] := by
      have hall := hcontent.symm.trans hnil
      cases hdata : f.data with
      | none => simp_all [bodyBytes]
      | some d => simp_all [bodyBytes]
    exact absurd hbody f.metaBytes_ne
  | datalen info =>
    rw [hdemux] at h
    obtain ⟨f, rest, d, -, -, -, hcontent⟩ := h
    rw [hnil] at hcontent
    simp [u16ToBe] at hcontent
  | data info len =>
    rw [hdemux] at h hneed
    obtain ⟨f, rest, d, -, -, -, rfl, hcontent⟩ := h
    rw [hnil] at hcontent
    obtain rfl : d.length = n := Option.some.inj hneed
    have hd : d = [] := (List.append_eq_nil_iff.mp hcontent.symm).1
    rw [hd] at hshort
    cases hshort
  | seeding | keeping | draining | returned =>
    rw [hdemux] at hneed
    cases hneed

end Reading

/-! ## What the loop does with a frame -/

namespace Carrier

/-- **A whole frame**: a `New` makes a session, a `Keep` is for the link of one, an `End`
takes it off the map; all others come to nothing, or end the carrier. -/
inductive Handles (c : Carrier) (info : Meta) (data : Option Bytes) (c' : Carrier) : Prop
  | registered {target : Destination} (hstatus : info.status = stNew)
      (htarget : info.target = some target) (hdata : data.getD [] = [])
      (hdemux : c'.demux = .metalen)
      (hsubs : KeepsAll (c.subs ++ [newSub info.sid target]) c'.subs)
      (hsessions : ∀ s, c'.sessions s = if s = info.sid then some c.subs.length else c.sessions s)
  | seeding {target : Destination} {d : Bytes} (hstatus : info.status = stNew)
      (htarget : info.target = some target) (hdata : data = some d)
      (hdemux : c'.demux = .seeding c.subs.length ⟨d, target⟩)
      (hsubs : c'.subs = c.subs ++ [newSub info.sid target]) (hsessions : c'.sessions = c.sessions)
  | keeping (k : Nat) (pkt : UdpPacket) (hstatus : info.status = stKeep)
      (hdata : data = some pkt.data) (hentry : c.sessions info.sid = some k)
      (hdemux : c'.demux = .keeping k pkt) (hsubs : c'.subs = c.subs)
      (hsessions : c'.sessions = c.sessions)
  | ended (hstatus : info.status = stEnd) (hdemux : c'.demux = .metalen)
      (hsubs : KeepsAll c.subs c'.subs)
      (hsessions : ∀ s, c'.sessions s = if s = info.sid then none else c.sessions s)
  | ignored (hnew : info.status = stNew → info.target = none)
      (hkeep : info.status = stKeep → ∀ d k sub, data = some d → c.sessions info.sid = some k →
        c.subs[k]? = some sub → sub.flow.network = .udp)
      (hend : info.status ≠ stEnd) (hdemux : c'.demux = .metalen) (hsubs : c'.subs = c.subs)
      (hsessions : c'.sessions = c.sessions)
  | failed {result : Except IoError Unit} (hunknown : knownStatus info.status = false)
      (hfailed : c' = c.finish result)

variable {c c' : Carrier} {info : Meta} {data : Option Bytes}

/-- **What `handle` does**, as far as the links and the session map go. -/
theorem Outcome.handles (h : Outcome c info data c') : Handles c info data c' := by
  cases h with
  | skip hnew hkeep hend =>
    refine .ignored hnew (fun hstatus d k sub hdata hentry hsub => ?_) hend rfl rfl rfl
    obtain ⟨-, up, down, egress, hflow⟩ := hkeep hstatus d k sub hdata hentry hsub
    rw [hflow]
    rfl
  | @register target hstatus htarget hdata =>
    refine .registered hstatus htarget ?_ rfl
      (keeps_register { c with subs := c.subs ++ [newSub info.sid target] } info.sid c.subs.length)
      fun s => register_sessions { c with subs := c.subs ++ [newSub info.sid target] } info.sid s
        c.subs.length
    rcases hdata with rfl | ⟨rfl, -⟩ <;> rfl
  | seed hstatus htarget hdata => exact .seeding hstatus htarget hdata rfl rfl rfl
  | keep hstatus hdata hentry => exact .keeping _ _ hstatus hdata hentry rfl rfl rfl
  | close hstatus => exact .ended hstatus rfl (c.keeps_remove info.sid) (c.remove_sessions info.sid)
  | fail hunknown => exact .failed (by simpa [knownStatus, and_assoc] using hunknown) rfl

theorem Outcome.untouched (h : Outcome c info data c') : Untouched c c' := by
  cases h with
  | skip | seed | keep | fail => exact ⟨rfl, rfl⟩
  | @register target =>
    have hregister := register_untouched { c with subs := c.subs ++ [newSub info.sid target] }
      info.sid c.subs.length
    exact ⟨hregister.content_eq, hregister.idle_eq⟩
  | close =>
    have hremove := c.remove_untouched info.sid
    exact ⟨hremove.content_eq, hremove.idle_eq⟩

/-- The session map holds positions of sessions with these ids. -/
def Mapped (c : Carrier) : Prop :=
  ∀ s k, c.sessions s = some k → (c.subs.map Sub.sid)[k]? = some s

/-- Sessions keep their positions, and a `New` appends one with its id. -/
theorem Handles.sids (h : Handles c info data c') :
    c'.subs.map Sub.sid = c.subs.map Sub.sid ∨
      info.status = stNew ∧ c'.subs.map Sub.sid = c.subs.map Sub.sid ++ [info.sid] := by
  have happend : ∀ target,
      (c.subs ++ [newSub info.sid target]).map Sub.sid = c.subs.map Sub.sid ++ [info.sid] := by
    intro target
    rw [List.map_append, List.map_singleton]
    unfold newSub
    split <;> rfl
  cases h with
  | registered hstatus _ _ _ hsubs => exact .inr ⟨hstatus, by rw [hsubs.sids_eq, happend]⟩
  | seeding hstatus _ _ _ hsubs => exact .inr ⟨hstatus, by rw [hsubs, happend]⟩
  | keeping _ _ _ _ _ _ hsubs | ignored _ _ _ _ hsubs => exact .inl (by rw [hsubs])
  | ended _ _ hsubs => exact .inl hsubs.sids_eq
  | failed _ hfailed => exact .inl (by rw [hfailed]; exact (KeepsAll.map_dropWriter _).sids_eq)

/-- Sessions go on, and there may be a new one. -/
theorem Handles.keeps (h : Handles c info data c') : ∃ more, KeepsAll (c.subs ++ more) c'.subs := by
  cases h with
  | registered _ _ _ _ hsubs => exact ⟨_, hsubs⟩
  | seeding _ _ _ _ hsubs => exact ⟨_, by rw [hsubs]; exact KeepsAll.refl _⟩
  | keeping _ _ _ _ _ _ hsubs | ignored _ _ _ _ hsubs =>
    exact ⟨[], by rw [hsubs, List.append_nil]; exact KeepsAll.refl _⟩
  | ended _ _ hsubs => exact ⟨[], by rw [List.append_nil]; exact hsubs⟩
  | failed _ hfailed =>
    exact ⟨[], by rw [List.append_nil, hfailed]; exact KeepsAll.map_dropWriter _⟩

theorem Mapped.handles (hc : c.Mapped) (h : Handles c info data c') : c'.Mapped := by
  intro s k hk
  have hold : c.sessions s = some k → (c'.subs.map Sub.sid)[k]? = some s := by
    intro hentry
    have hsid := hc s k hentry
    rcases h.sids with hsids | ⟨-, hsids⟩
    · rw [hsids, hsid]
    · rw [hsids, List.getElem?_append_left (List.getElem?_eq_some_iff.mp hsid).1, hsid]
  cases h with
  | @registered target _ _ _ _ hsubs hsessions =>
    rw [hsessions] at hk
    by_cases hs : s = info.sid
    · rw [if_pos hs] at hk
      obtain rfl := Option.some.inj hk
      rw [hsubs.sids_eq, List.getElem?_map, List.getElem?_concat_length, hs]
      unfold newSub
      split <;> rfl
    · rw [if_neg hs] at hk
      exact hold hk
  | ended _ _ _ hsessions =>
    rw [hsessions] at hk
    by_cases hs : s = info.sid
    · rw [if_pos hs] at hk
      cases hk
    · rw [if_neg hs] at hk
      exact hold hk
  | seeding _ _ _ _ _ hsessions | keeping _ _ _ _ _ _ _ hsessions | ignored _ _ _ _ _ hsessions =>
    rw [hsessions] at hk
    exact hold hk
  | failed _ hfailed =>
    rw [hfailed] at hk
    cases hk

/-! ## The demultiplexer's moves -/

/-- **A field** ends the carrier, or is not the last one of its frame, or completes it. -/
theorem onField_cases {n : Nat} (hneed : c.demux.need = some n) (field : Bytes) :
    (c.openedBy field = none ∧ ((∃ result, c.onField field = c.finish result) ∨
      ∃ next, c.onField field = { c with demux := next } ∧ next.need.isSome)) ∨
    ∃ info data, c.openedBy field = opened info ∧ c.onField field = c.handle info data := by
  unfold onField openedBy
  cases hdemux : c.demux with
  | metalen =>
    dsimp only
    split
    · exact .inl ⟨rfl, .inl ⟨_, rfl⟩⟩
    · exact .inl ⟨rfl, .inr ⟨_, rfl, rfl⟩⟩
  | metadata len =>
    dsimp only
    cases parseMeta field with
    | none => exact .inl ⟨rfl, .inl ⟨_, rfl⟩⟩
    | some info =>
      simp only [Option.bind_some]
      split
      · exact .inl ⟨rfl, .inr ⟨_, rfl, rfl⟩⟩
      · exact .inr ⟨info, none, rfl, rfl⟩
  | datalen info =>
    dsimp only
    split
    · exact .inl ⟨rfl, .inl ⟨_, rfl⟩⟩
    · exact .inl ⟨rfl, .inr ⟨_, rfl, rfl⟩⟩
  | data info len => exact .inr ⟨info, some field, rfl, rfl⟩
  | seeding | keeping | draining | returned =>
    rw [hdemux] at hneed
    cases hneed

theorem mapped_of_registered {j : Nat} {s : UInt16} (h : c.Mapped)
    (hsids : c'.subs.map Sub.sid = c.subs.map Sub.sid)
    (hj : (c.subs.map Sub.sid)[j]? = some s)
    (hsessions : ∀ s', c'.sessions s' = if s' = s then some j else c.sessions s') : c'.Mapped := by
  intro s' k hk
  rw [hsessions] at hk
  rw [hsids]
  by_cases hs : s' = s
  · rw [if_pos hs] at hk
    rw [← Option.some.inj hk, hj, hs]
  · rw [if_neg hs] at hk
    exact h s' k hk

end Carrier

theorem sids_set {subs : List Sub} {k : Nat} {sub : Sub} (flow : Flow) (hsub : subs[k]? = some sub) :
    (subs.set k { sub with flow := flow }).map Sub.sid = subs.map Sub.sid :=
  map_set_eq hsub rfl

/-- **The session map stays right.** -/
theorem Step.mapped {c c' : Carrier} {a : Act} (h : Step c a c') (hc : c.Mapped) : c'.Mapped := by
  cases hdemuxing : a.ofDemux with
  | false =>
    have ha := h.aside hdemuxing
    unfold Carrier.Mapped
    rw [ha.sessions_eq, ha.subs.sids_eq]
    exact hc
  | true =>
    cases h with
    | eof | readError =>
      obtain ⟨result, heq⟩ := c.readFailed_eq _
      rw [heq]
      exact fun _ _ hk => nomatch hk
    | @field n hneed hlen =>
      have hbuf : Carrier.Mapped { c with buf := c.buf.drop n } := hc
      rcases Carrier.onField_cases (c := { c with buf := c.buf.drop n }) hneed (c.buf.take n) with
        ⟨-, ⟨result, heq⟩ | ⟨next, heq, -⟩⟩ | ⟨info, data, -, heq⟩
      · rw [heq]
        exact fun _ _ hk => nomatch hk
      · rw [heq]
        exact hc
      · rw [heq]
        exact hbuf.handles (Carrier.outcome_handle _ info data).handles
    | @seed k pkt sub hdemux hsub =>
      have hkeeps := Carrier.keeps_register
        { c with subs := c.subs.set k { sub with flow := sub.flow.push pkt } } sub.sid k
      exact Carrier.mapped_of_registered hc (hkeeps.sids_eq.trans (sids_set _ hsub))
        (by rw [List.getElem?_map, hsub]; rfl) fun s => Carrier.register_sessions _ sub.sid s k
    | @seedFail k pkt sub hdemux hsub =>
      exact Carrier.mapped_of_registered hc (c.keeps_register sub.sid k).sids_eq
        (by rw [List.getElem?_map, hsub]; rfl) fun s => c.register_sessions sub.sid s k
    | keep _ hsub =>
      unfold Carrier.Mapped
      rw [sids_set _ hsub]
      exact hc
    | keepFail | join => exact hc
    | _ => cases hdemuxing

/-! ## A step and the frames to come -/

namespace Carrier

variable {c c' : Carrier} {todo : List ClientFrame}

theorem Handles.holds {info : Meta} {data : Option Bytes} {rest : List ClientFrame}
    (hh : Handles c info data c') (hcontent : c'.content = wires rest) : c'.Holds rest := by
  unfold Holds
  cases hh with
  | registered _ _ _ hdemux | seeding _ _ _ hdemux | keeping _ _ _ _ _ hdemux | ended _ hdemux
  | ignored _ _ _ hdemux =>
    rw [hdemux]
    exact hcontent
  | failed _ hfailed =>
    subst hfailed
    intro hnil
    exact wires_eq_nil (hcontent.symm.trans hnil)

/-- The step handles no frame: a field that it takes is one inside a frame. -/
def Within (c c' : Carrier) (a : Act) : Prop :=
  a = .field → ∃ n buf next, c.demux.need = some n ∧ Demux.need next ≠ none ∧
    c' = { c with buf := buf, demux := next }

/-- **A step handles the first of the frames to come**, or none. -/
inductive Progress (c c' : Carrier) (a : Act) (todo : List ClientFrame) : Prop
  | within (hholds : c'.Holds todo) (hwithin : c.Within c' a)
  | frame (f : ClientFrame) (rest : List ClientFrame) (n : Nat) (buf : Bytes)
      (htodo : todo = f :: rest) (hneed : c.demux.need = some n)
      (houtcome : Outcome { c with buf := buf } f.info f.data c') (hholds : c'.Holds rest)

end Carrier

open Carrier in
/-- A step that handles no frame makes no session. -/
theorem Step.sids_eq {c c' : Carrier} {a : Act} (h : Step c a c') (hwithin : c.Within c' a) :
    c'.subs.map Sub.sid = c.subs.map Sub.sid := by
  cases hdemuxing : a.ofDemux with
  | false => exact (h.aside hdemuxing).subs.sids_eq
  | true =>
    cases h with
    | eof | readError =>
      obtain ⟨result, heq⟩ := c.readFailed_eq _
      rw [heq]
      exact (KeepsAll.map_dropWriter _).sids_eq
    | field =>
      obtain ⟨n, buf, next, -, -, heq⟩ := hwithin rfl
      rw [heq]
    | seed _ hsub => exact (keeps_register _ _ _).sids_eq.trans (sids_set _ hsub)
    | seedFail => exact (keeps_register _ _ _).sids_eq
    | keep _ hsub => exact sids_set _ hsub
    | keepFail | join => rfl
    | _ => cases hdemuxing

open Carrier in
theorem Step.progress {c c' : Carrier} {a : Act} {todo : List ClientFrame} (h : Step c a c')
    (hc : c.Holds todo) : c.Progress c' a todo := by
  cases hdemuxing : a.ofDemux with
  | false =>
    have ha := h.aside hdemuxing
    refine .within ?_ fun hfield => by rw [hfield] at hdemuxing; cases hdemuxing
    unfold Holds
    rw [ha.demux_eq, ha.content_eq]
    exact hc
  | true =>
    cases h with
    | eof hneed hshort | readError _ hneed hshort =>
      obtain ⟨result, heq⟩ := c.readFailed_eq _
      rw [heq]
      exact .within (fun hnil => hc.stop hneed hshort hnil) nofun
    | @field n hneed hlen =>
      cases hc.onField hneed hlen with
      | next next hnext hreads hholds =>
        rw [hnext]
        exact .within hholds fun _ => ⟨n, _, next, hneed, Option.isSome_iff_ne_none.mp hreads, rfl⟩
      | last f rest htodo hdispatch hcontent =>
        have houtcome := Carrier.outcome_handle { c with buf := c.buf.drop n } f.info f.data
        rw [hdispatch]
        exact .frame f rest n _ htodo hneed houtcome
          (houtcome.handles.holds (houtcome.untouched.content_eq.trans hcontent))
    | seed hdemux | seedFail hdemux =>
      exact .within ((register_untouched _ _ _).content_eq.trans (hc.content_of_sending (.inl hdemux)))
        nofun
    | keep hdemux | keepFail hdemux => exact .within (hc.content_of_sending (.inr hdemux)) nofun
    | join hdemux =>
      unfold Holds at hc
      rw [hdemux] at hc
      exact .within hc nofun
    | _ => cases hdemuxing

end XrayRs.Mux
