import XrayRs.Net
import XrayRs.PolledReader

/-! # Reading from the WebSocket tunnel

`WsStream`, `WsReadHalf` and `into_split` (`transport/src/ws.rs`), with the reading side:
`poll_read` hands out the payloads of the messages through a buffer that the early data
starts in.  The stream below is the list of the answers that its polls give.

`ws_read_side` says what a reader gets, whatever the messages and its buffers, and
wherever the stream is split. -/

namespace XrayRs.Ws

open PolledReader

/-! ## The stream and its read half -/

/-- `tungstenite::Message`. -/
inductive Message
  | text (t : String)
  | binary (d : Bytes)
  | ping (d : Bytes)
  | pong (d : Bytes)
  | close
  | frame (d : Bytes)
  deriving DecidableEq

/-- What `poll_next` of the WebSocket stream answers. -/
inductive PollNext
  | pending
  | message (m : Message)
  | failed
  deriving DecidableEq

/-- `WebSocketStream`: its answers to come, and whether they end with the end of the
stream.  If not, it is pending from then on. -/
structure WebSocketStream where
  polls : List PollNext
  ended : Bool

/-- The error of `poll_read`: that of the stream below. -/
inductive Error
  | stream
  deriving DecidableEq

/-- `WsReadHalf`. -/
structure WsReadHalf where
  stream : WebSocketStream
  readBuf : Bytes
  eof : Bool

/-- `WsStream`. -/
structure WsStream where
  inner : WebSocketStream
  readBuf : Bytes
  eof : Bool

/-- `WsStream::new`. -/
def WsStream.new (inner : WebSocketStream) (earlyData : Bytes) : WsStream :=
  ⟨inner, earlyData, false⟩

/-- `WsStream::into_split`, the read half. -/
def WsStream.intoSplit (me : WsStream) : WsReadHalf := ⟨me.inner, me.readBuf, me.eof⟩

/-- `WsReadHalf::poll_read`, with room for `room` bytes. -/
def WsReadHalf.pollRead (me : WsReadHalf) (room : Nat) : Polled Error × WsReadHalf :=
  if me.readBuf ≠ [] then
    (.ready (me.readBuf.take room), { me with readBuf := me.readBuf.drop room })
  else if me.eof then (.ready [], me)
  else
    match _h : me.stream.polls with
    | [] => if me.stream.ended then (.ready [], { me with eof := true }) else (.pending, me)
    | next :: polls =>
      let me := { me with stream := { me.stream with polls := polls } }
      match next with
      | .pending => (.pending, me)
      | .failed => (.err .stream, me)
      | .message (.binary d) => pollRead { me with readBuf := d } room
      | .message (.text t) => pollRead { me with readBuf := asBytes t } room
      | .message .close => (.ready [], { me with eof := true })
      | .message _ => pollRead me room
termination_by me.stream.polls.length
decreasing_by all_goals simp [_h]

/-- `WsStream::poll_read`, which is the same loop over the same fields. -/
def WsStream.pollRead (me : WsStream) (room : Nat) : Polled Error × WsStream :=
  let (r, half) := me.intoSplit.pollRead room
  (r, ⟨half.stream, half.readBuf, half.eof⟩)

/-- The tunnel as its reader has it: whole, or the read half. -/
inductive Tunnel
  | whole (s : WsStream)
  | half (r : WsReadHalf)

namespace Tunnel

/-- The state of the reading side. -/
def state : Tunnel → WsReadHalf
  | .whole s => s.intoSplit
  | .half r => r

def pollRead (room : Nat) : Tunnel → Polled Error × Tunnel
  | .whole s => ((s.pollRead room).1, .whole (s.pollRead room).2)
  | .half r => ((r.pollRead room).1, .half (r.pollRead room).2)

/-- A half is not split again. -/
def intoSplit : Tunnel → Tunnel
  | .whole s => .half s.intoSplit
  | .half r => .half r

/-- The tunnel to who reads from it, and may split it. -/
def reader : Reader Tunnel Error := ⟨pollRead, intoSplit⟩

end Tunnel

/-! ## The messages -/

/-- The payload of a message. -/
def Message.payload : Message → Bytes
  | .text t => asBytes t
  | .binary d => d
  | _ => []

/-- The payloads before the first `Close`. -/
def payloads : List PollNext → Bytes
  | [] => []
  | .message .close :: _ => []
  | .message m :: polls => m.payload ++ payloads polls
  | .pending :: polls => payloads polls
  | .failed :: polls => payloads polls

/-- No error comes before the first `Close`. -/
def Clean : List PollNext → Prop
  | [] => True
  | .message .close :: _ => True
  | .message _ :: polls => Clean polls
  | .pending :: polls => Clean polls
  | .failed :: _ => False

/-- The messages come to an end. -/
def Closes (polls : List PollNext) (ended : Bool) : Prop :=
  .message .close ∈ polls ∨ ended = true

/-- How many of the answers are `Pending`. -/
def waits (polls : List PollNext) : Nat := polls.count .pending

/-- What the states of the read half mean. -/
def view : View WsReadHalf where
  Valid me := (me.eof = true → me.readBuf = []) ∧ (me.eof = false → Clean me.stream.polls)
  left me := me.readBuf ++ if me.eof then [] else payloads me.stream.polls
  Ended me := me.eof = true
  Over me := me.eof = true ∨ Closes me.stream.polls me.stream.ended
  waits me := waits me.stream.polls

section
variable {me : WsReadHalf} {room : Nat} {m : Message} {polls : List PollNext}

theorem payloads_message (hm : m ≠ .close) :
    payloads (.message m :: polls) = m.payload ++ payloads polls := by
  cases m with
  | close => exact absurd rfl hm
  | text | binary | ping | pong | frame => rfl

theorem clean_message (hm : m ≠ .close) : Clean (.message m :: polls) ↔ Clean polls := by
  cases m with
  | close => exact absurd rfl hm
  | text | binary | ping | pong | frame => exact Iff.rfl

theorem closes_cons {next : PollNext} (hnext : next ≠ .message .close) (ended : Bool) :
    Closes (next :: polls) ended ↔ Closes polls ended := by
  unfold Closes
  rw [List.mem_cons]
  constructor
  · rintro ((heq | hmem) | hended)
    · exact absurd heq.symm hnext
    · exact .inl hmem
    · exact .inr hended
  · rintro (hmem | hended)
    · exact .inl (.inr hmem)
    · exact .inr hended

/-- A message other than `Close` is loaded: its payload, if it has one, is next. -/
theorem pollRead_message (hbuf : me.readBuf = []) (heof : me.eof = false)
    (hpolls : me.stream.polls = .message m :: polls) (hm : m ≠ .close) :
    me.pollRead room =
      ({ me with
        stream := { me.stream with polls := polls }
        readBuf := m.payload } : WsReadHalf).pollRead room := by
  obtain ⟨⟨p, ended⟩, readBuf, eof⟩ := me
  dsimp only at hbuf heof hpolls
  subst hbuf heof hpolls
  rw [WsReadHalf.pollRead, if_neg (by simp), if_neg (by simp)]
  cases m with
  | close => exact absurd rfl hm
  | text | binary | ping | pong | frame => rfl

/-- What is in the buffer is handed out. -/
theorem after_pollRead_buffered (hvalid : view.Valid me) (hbuf : me.readBuf ≠ [])
    (hroom : 0 < room) : view.After me (me.pollRead room) := by
  obtain ⟨hempty, hclean⟩ := hvalid
  have heof : me.eof = false := by
    by_contra heof
    exact hbuf (hempty (by simpa using heof))
  rw [WsReadHalf.pollRead, if_pos hbuf]
  refine ⟨⟨fun heof' => absurd heof' (by simp [heof]), hclean⟩, ?_, Iff.rfl, Nat.le_refl _, ?_⟩
  · simp only [view, heof]
    rw [← List.append_assoc, List.take_append_drop]
  · intro hnil
    rw [List.take_eq_nil_iff] at hnil
    exact absurd hnil (not_or.mpr ⟨Nat.pos_iff_ne_zero.mp hroom, hbuf⟩)

/-- After the end, the end is told again. -/
theorem after_pollRead_ended (hvalid : view.Valid me) (heof : me.eof = true) :
    view.After me (me.pollRead room) := by
  have hbuf := hvalid.1 heof
  rw [WsReadHalf.pollRead, if_neg (not_not.mpr hbuf), if_pos heof]
  refine ⟨hvalid, rfl, Iff.rfl, Nat.le_refl _, fun _ => ⟨?_, .inl heof, heof⟩⟩
  simp [view, hbuf, heof]

/-- With an empty buffer the loop goes over the messages, up to one with a payload. -/
theorem after_pollRead_empty (hclean : Clean polls) (ended : Bool) (hroom : 0 < room) :
    view.After ⟨⟨polls, ended⟩, [],
      false⟩ (WsReadHalf.pollRead ⟨⟨polls, ended⟩, [], false⟩ room) := by
  induction polls with
  | nil =>
    rw [WsReadHalf.pollRead, if_neg (by simp), if_neg (by simp)]
    cases ended with
    | true =>
      exact ⟨⟨fun _ => rfl, nofun⟩, rfl, by simp [view, Closes], Nat.le_refl _,
        fun _ => ⟨rfl, .inr (.inr rfl), rfl⟩⟩
    | false => exact ⟨⟨nofun, fun _ => trivial⟩, rfl, Iff.rfl, nofun,
        .inr ⟨rfl, by simp [view, Closes]⟩⟩
  | cons next polls ih =>
    cases next with
    | pending =>
      rw [WsReadHalf.pollRead, if_neg (by simp), if_neg (by simp)]
      refine ⟨⟨nofun, fun _ => hclean⟩, rfl, ?_, nofun, .inl ?_⟩
      · simp [view, closes_cons]
      · simp [view, waits]
    | failed => exact hclean.elim
    | message m =>
      by_cases hm : m = .close
      · subst hm
        rw [WsReadHalf.pollRead, if_neg (by simp), if_neg (by simp)]
        refine ⟨⟨fun _ => rfl, nofun⟩, rfl, ?_, ?_, fun _ => ⟨rfl, ?_, rfl⟩⟩
        · simp [view, Closes]
        · simp [view, waits]
        · exact .inr (.inl (List.mem_cons_self ..))
      · rw [clean_message hm] at hclean
        rw [pollRead_message rfl rfl rfl hm]
        -- the state with the payload in the buffer has the same meaning
        have hstep : view.After ⟨⟨polls, ended⟩, m.payload, false⟩
            (WsReadHalf.pollRead ⟨⟨polls, ended⟩, m.payload, false⟩ room) := by
          by_cases hpayload : m.payload = []
          · rw [hpayload]
            exact ih hclean
          · exact after_pollRead_buffered ⟨nofun, fun _ => hclean⟩ hpayload hroom
        refine hstep.of_eq ?_ Iff.rfl ?_ ?_
        · simp [view, payloads_message hm]
        · simp [view, closes_cons (show PollNext.message m ≠ .message .close by simpa using hm)]
        · simp [view, waits]

/-- **One poll.** -/
theorem after_pollRead (hvalid : view.Valid me) (hroom : 0 < room) :
    view.After me (me.pollRead room) := by
  by_cases hbuf : me.readBuf = []
  · cases heof : me.eof with
    | true => exact after_pollRead_ended hvalid heof
    | false =>
      obtain ⟨⟨polls, ended⟩, readBuf, eof⟩ := me
      dsimp only at hbuf heof
      subst hbuf heof
      exact after_pollRead_empty (hvalid.2 rfl) ended hroom
  · exact after_pollRead_buffered hvalid hbuf hroom

end

/-! ## The whole session -/

namespace Tunnel

theorem state_pollRead (t : Tunnel) (room : Nat) :
    ((t.pollRead room).1, (t.pollRead room).2.state) = t.state.pollRead room := by
  cases t with
  | whole s => rfl
  | half r => rfl

theorem state_intoSplit (t : Tunnel) : t.intoSplit.state = t.state := by
  cases t with
  | whole s => rfl
  | half r => rfl

/-- What the states of the tunnel mean: those of its reading side. -/
def view : View Tunnel where
  Valid t := Ws.view.Valid t.state
  left t := Ws.view.left t.state
  Ended t := Ws.view.Ended t.state
  Over t := Ws.view.Over t.state
  waits t := Ws.view.waits t.state

theorem delivers : Delivers reader view where
  poll := by
    intro t room hvalid hroom
    have hafter := after_pollRead hvalid hroom
    rw [← state_pollRead] at hafter
    show view.After t (t.pollRead room)
    generalize t.pollRead room = x at hafter ⊢
    obtain ⟨a, t'⟩ := x
    cases a with
    | pending | ready | err => exact hafter
  turn := by
    intro t hvalid
    show view.Valid t.intoSplit ∧ view.left t.intoSplit = view.left t ∧ _ ∧ _ ∧ _
    simp only [view, reader, state_intoSplit]
    exact ⟨hvalid, trivial, trivial, trivial, trivial⟩
  ended := by
    intro t hvalid hended
    have hbuf := hvalid.1 hended
    have heof : t.state.eof = true := hended
    simp [view, Ws.view, hbuf, heof]

end Tunnel

/-- **The reading side of the tunnel.**  For any early data and messages, any sizes of
the reader's buffers and `into_split` at any point: no poll fails; what is delivered is a
prefix of the early data with the payloads before the first `Close`, and is all of it
after enough polls; the end is told only after all of it and on every poll from then on,
and is told after enough polls if the messages come to an end. -/
theorem ws_read_side {polls : List PollNext} (hclean : Clean polls) (ended : Bool)
    (earlyData : Bytes) {ops : List Op} (hroomy : Roomy ops) {rs : List (Polled Error)}
    (hrs : rs = (Tunnel.reader.run (.whole (.new ⟨polls, ended⟩ earlyData)) ops).1) :
    (∀ e, .err e ∉ rs) ∧ delivered rs <+: earlyData ++ payloads polls ∧
      (∀ before after, rs = before ++ .ready [] :: after →
        delivered before = earlyData ++ payloads polls ∧ Closes polls ended ∧
          ∀ r ∈ after, r = .ready []) ∧
      ((earlyData ++ payloads polls).length + waits polls < PolledReader.polls ops →
        delivered rs = earlyData ++ payloads polls ∧ (Closes polls ended → .ready [] ∈ rs)) := by
  have hvalid : Tunnel.view.Valid (.whole (.new ⟨polls, ended⟩ earlyData)) :=
    ⟨nofun, fun _ => hclean⟩
  have hover : Tunnel.view.Over (.whole (.new ⟨polls, ended⟩ earlyData)) ↔ Closes polls ended := by
    constructor
    · rintro (heof | hcloses)
      · cases heof
      · exact hcloses
    · exact .inr
  have hsession := Tunnel.delivers.run hvalid hroomy
  have henough := Tunnel.delivers.run_enough hvalid hroomy
  rw [← hrs] at hsession henough
  refine ⟨hsession.no_err, ⟨_, hsession.bytes.symm⟩, fun before after heq => ?_, fun hpolls => ?_⟩
  · obtain ⟨hbytes, hclosed, hall⟩ := hsession.at_end before after heq
    exact ⟨hbytes, hover.mp hclosed, hall⟩
  · obtain ⟨hall, hend⟩ := henough hpolls
    exact ⟨hall, fun hcloses => hend (hover.mpr hcloses)⟩

/-- Early data and two messages with empty and control messages between them; the stream
is split in the middle of the first. -/
theorem ws_read_side_split :
    delivered (Tunnel.reader.run
      (.whole (.new ⟨[.message (.binary [1, 2, 3]), .message (.binary []),
      .pending, .message (.ping [9]), .message (.text "A"), .message .close,
      .message (.binary [4])], true⟩ [7])) [.poll 1, .poll 2, .turn, .poll 2, .poll 5, .poll 5,
      .poll 5, .poll 5]).1 = [7, 1, 2, 3, 65] := by
  have hclean : Clean [.message (.binary [1, 2, 3]), .message (.binary []), .pending,
    .message (.ping [9]), .message (.text "A"), .message .close, .message (.binary [4])] := trivial
  exact ((ws_read_side hclean true [7] (by simp [Roomy]) rfl).2.2.2 (by decide)).1

end XrayRs.Ws
