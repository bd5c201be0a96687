import XrayRs.GrpcTunnel

/-! # Writing to the gRPC tunnel

`flush_write_buf`, the `AsyncWrite` of `GrpcStream` and `GrpcWriteHalf::send`
(`transport/src/grpc.rs`).  Each round of their loops finds a `Window` of the HTTP/2
stream, which may be closed, narrow or fail.  The windows are any; that a stream whose
trailers were sent grants nothing and takes no data is a hypothesis on them
(`GrpcStream.RefusesClosed`).

Both loops take data off the front of what is left to send and hand it over in order,
so the bytes handed over and the bytes left are always the frames of what was accepted
(`Writing`, `sends_sendAll`). -/

namespace XrayRs.Grpc

/-! ## The loops -/

/-- The capacity that a round finds: what there is, or what a poll answers.  A task that
waits for capacity polls only. -/
def Window.grant (win : Window) (waiting : Bool) : PollCapacity :=
  if waiting ∨ win.capacity = 0 then win.poll else .granted win.capacity

/-- What a round finds is what the poll answers, or something more than nothing. -/
theorem Window.grant_eq (win : Window) (waiting : Bool) :
    win.grant waiting = win.poll ∨ ∃ c, win.grant waiting = .granted (c + 1) := by
  unfold grant
  split
  · exact .inl rfl
  · next hcap =>
    obtain ⟨c, hc⟩ := Nat.exists_eq_succ_of_ne_zero (fun h => hcap (.inr h))
    exact .inr ⟨c, by rw [hc]⟩

namespace SendStream

/-- A stream to which nothing has been handed over. -/
def new (windows : List Window) (acceptsTrailers : Bool) : SendStream :=
  ⟨windows, acceptsTrailers, [], 0⟩

/-- `send_data`, where the stream accepts it. -/
def push (s : SendStream) (chunk : Bytes) : SendStream := { s with sent := s.sent ++ [chunk] }

/-- `send_trailers`. -/
def sendTrailers (s : SendStream) : SendStream :=
  if s.acceptsTrailers then { s with trailers := s.trailers + 1 } else s

/-- The bytes handed over. -/
def handedOver (s : SendStream) : Bytes := s.sent.flatten

end SendStream

/-- `GrpcStream::flush_write_buf`.  A chunk is taken off the buffer before it is sent. -/
def GrpcStream.flushWriteBuf (me : GrpcStream) : Poll Unit × GrpcStream :=
  if me.writeBuf = [] then (.ready (), me)
  else
    match _h : me.send.windows with
    | [] => (.pending, me)
    | win :: windows =>
      let send := { me.send with windows := windows }
      match win.grant false with
      | .pending => (.pending, { me with send := send })
      | .failed => (.err .stream, { me with send := send })
      | .closed => (.err .brokenPipe, { me with send := send })
      | .granted 0 => (.pending, { me with send := send })
      | .granted (c + 1) =>
        if win.accepts then
          flushWriteBuf { me with
            send := send.push (me.writeBuf.take (c + 1)), writeBuf := me.writeBuf.drop (c + 1) }
        else (.err .stream, { me with send := send, writeBuf := me.writeBuf.drop (c + 1) })
termination_by me.send.windows.length
decreasing_by simp [_h, SendStream.push]

/-- `GrpcWriteHalf::send_all`.  `Pending` is a task that still waits. -/
def sendAll (s : SendStream) (waiting : Bool) (data : Bytes) : Poll Unit × SendStream :=
  if data = [] then (.ready (), s)
  else
    match _h : s.windows with
    | [] => (.pending, s)
    | win :: windows =>
      let send := { s with windows := windows }
      match win.grant waiting with
      | .pending => sendAll send true data
      | .failed => (.err .stream, send)
      | .closed => (.err .brokenPipe, send)
      | .granted 0 => sendAll send false data
      | .granted (c + 1) =>
        if win.accepts then
          sendAll (send.push (data.take (c + 1))) false (data.drop (c + 1))
        else (.err .stream, send)
termination_by s.windows.length
decreasing_by all_goals simp [_h, SendStream.push]

/-- `GrpcWriteHalf::send`. -/
def GrpcWriteHalf.sendPayload (me : GrpcWriteHalf) (payload : Bytes) : Poll Unit × GrpcWriteHalf :=
  if payload = [] then (.ready (), me)
  else
    match grpcHeader payload.length with
    | .error e => (.err e, me)
    | .ok header =>
      match sendAll me.send false header with
      | (.ready _, send) =>
        let (r, send) := sendAll send false payload
        (r, ⟨send⟩)
      | (r, send) => (r, ⟨send⟩)

/-- One `send` after the other, until one fails or waits. -/
def GrpcWriteHalf.sendPayloads (me : GrpcWriteHalf) : List Bytes → Poll Unit × GrpcWriteHalf
  | [] => (.ready (), me)
  | payload :: payloads =>
    match me.sendPayload payload with
    | (.ready _, me) => me.sendPayloads payloads
    | (r, me) => (r, me)

/-! ## The stream's calls -/

/-- `GrpcStream::poll_write`. -/
def GrpcStream.pollWrite (me : GrpcStream) (buf : Bytes) : Poll Nat × GrpcStream :=
  match me.flushWriteBuf with
  | (.pending, me) => (.pending, me)
  | (.err e, me) => (.err e, me)
  | (.ready _, me) =>
    if buf = [] then (.ready 0, me)
    else
      match encodeHunk buf with
      | .error e => (.err e, me)
      | .ok frame =>
        -- what cannot be flushed yet stays in the buffer, and the write counts as done
        match { me with writeBuf := frame }.flushWriteBuf with
        | (.err e, me) => (.err e, me)
        | (.pending, me) => (.ready buf.length, me)
        | (.ready _, me) => (.ready buf.length, me)

/-- `GrpcStream::poll_flush`. -/
def GrpcStream.pollFlush (me : GrpcStream) : Poll Unit × GrpcStream := me.flushWriteBuf

/-- `GrpcStream::poll_shutdown`. -/
def GrpcStream.pollShutdown (me : GrpcStream) : Poll Unit × GrpcStream :=
  match me.flushWriteBuf with
  | (.ready _, me) =>
    if me.trailersSent then (.ready (), me)
    else (.ready (), { me with send := me.send.sendTrailers, trailersSent := true })
  | (r, me) => (r, me)

/-- A call of the writing side. -/
inductive WriteOp
  | write (buf : Bytes)
  | flush
  | shutdown
  deriving DecidableEq

/-- The writes that a call adds to those accepted: a non-empty one that was not put off. -/
def acceptedBy : WriteOp → Poll Nat → List Bytes
  | .write buf, .ready _ => if buf = [] then [] else [buf]
  | _, _ => []

/-- The result of a call without a value, as that of a write of nothing. -/
def Poll.unit : Poll Unit → Poll Nat
  | .pending => .pending
  | .ready _ => .ready 0
  | .err e => .err e

/-- One call of the writing side. -/
def GrpcStream.call (me : GrpcStream) : WriteOp → Poll Nat × GrpcStream
  | .write buf => me.pollWrite buf
  | .flush => (me.pollFlush.1.unit, me.pollFlush.2)
  | .shutdown => (me.pollShutdown.1.unit, me.pollShutdown.2)

/-- Calls one after the other: the writes accepted, and the stream after them.  `none`
where one of them fails. -/
def GrpcStream.calls (me : GrpcStream) : List WriteOp → Option (List Bytes × GrpcStream)
  | [] => some ([], me)
  | op :: ops =>
    match me.call op with
    | (.err _, _) => none
    | (r, me) => (me.calls ops).map fun (accepted, me) => (acceptedBy op r ++ accepted, me)

/-- `h2` refuses to send any more: nothing is granted, and no data is accepted. -/
def Window.refuses (win : Window) : Bool := win.poll = .closed && !win.accepts

/-- Once the trailers are sent, the next round is refused. -/
def SendStream.Refuses (s : SendStream) : Prop :=
  s.trailers ≠ 0 → s.windows.head?.any Window.refuses = true

instance (s : SendStream) : Decidable s.Refuses := inferInstanceAs (Decidable (_ → _))

/-- **What `h2` documents of a stream that is closed for sending**, at each of these calls. -/
def GrpcStream.RefusesClosed (me : GrpcStream) : List WriteOp → Prop
  | [] => True
  | op :: ops => me.send.Refuses ∧ (me.call op).2.RefusesClosed ops

/-! ## What a flush keeps -/

/-- The call did not fail. -/
def Poll.Fine {α : Type} (r : Poll α) : Prop := ∀ e, r ≠ .err e

/-- What `flush_write_buf` leads to, save for an error: nothing is lost or reordered, and
the trailers are left alone. -/
structure Flushed (me : GrpcStream) (r : Poll Unit) (me' : GrpcStream) : Prop where
  bytes : r.Fine → me'.send.handedOver ++ me'.writeBuf = me.send.handedOver ++ me.writeBuf
  trailers : me'.send.trailers = me.send.trailers
  trailersSent : me'.trailersSent = me.trailersSent
  drained : r = .ready () → me'.writeBuf = []

theorem SendStream.handedOver_push (s : SendStream) (chunk : Bytes) :
    (s.push chunk).handedOver = s.handedOver ++ chunk := by
  simp [push, handedOver]

theorem SendStream.handedOver_sendTrailers (s : SendStream) :
    s.sendTrailers.handedOver = s.handedOver := by
  unfold sendTrailers
  split <;> rfl

theorem flushed_flushWriteBuf (me : GrpcStream) :
    Flushed me me.flushWriteBuf.1 me.flushWriteBuf.2 := by
  fun_induction GrpcStream.flushWriteBuf me with
  | case1 me hnil => exact ⟨fun _ => rfl, rfl, rfl, fun _ => hnil⟩
  | case2 me hbuf hwindows => exact ⟨fun _ => rfl, rfl, rfl, nofun⟩
  | case3 me hbuf win windows hwindows send hgrant => exact ⟨fun _ => rfl, rfl, rfl, nofun⟩
  | case4 me hbuf win windows hwindows send hgrant =>
    exact ⟨fun hfine => absurd rfl (hfine .stream), rfl, rfl, nofun⟩
  | case5 me hbuf win windows hwindows send hgrant =>
    exact ⟨fun hfine => absurd rfl (hfine .brokenPipe), rfl, rfl, nofun⟩
  | case6 me hbuf win windows hwindows send hgrant => exact ⟨fun _ => rfl, rfl, rfl, nofun⟩
  | case7 me hbuf win windows hwindows send c hgrant haccepts ih =>
    refine ⟨?_, ih.trailers, ih.trailersSent, ih.drained⟩
    intro hfine
    rw [ih.bytes hfine, SendStream.handedOver_push, List.append_assoc, List.take_append_drop]
    rfl
  | case8 me hbuf win windows hwindows send c hgrant haccepts =>
    exact ⟨fun hfine => absurd rfl (hfine .stream), rfl, rfl, nofun⟩

theorem flushWriteBuf_nil {me : GrpcStream} (h : me.writeBuf = []) :
    me.flushWriteBuf = (.ready (), me) := by
  rw [GrpcStream.flushWriteBuf, if_pos h]

/-- A flush that the stream refuses fails, unless there is nothing to send. -/
theorem flushWriteBuf_refused {me : GrpcStream}
    (hrefuses : me.send.windows.head?.any Window.refuses = true)
    (hfine : me.flushWriteBuf.1.Fine) : me.writeBuf = [] := by
  by_contra hbuf
  cases hwindows : me.send.windows with
  | nil =>
    rw [hwindows] at hrefuses
    cases hrefuses
  | cons win windows =>
    rw [hwindows] at hrefuses
    obtain ⟨hpoll, haccepts⟩ : win.poll = .closed ∧ win.accepts = false := by
      simpa [Window.refuses] using hrefuses
    unfold GrpcStream.flushWriteBuf at hfine
    rw [if_neg hbuf] at hfine
    split at hfine
    · next hnone =>
      rw [hwindows] at hnone
      cases hnone
    · next win' windows' hsome =>
      obtain ⟨rfl, -⟩ := List.cons.inj (hwindows.symm.trans hsome)
      -- what is left of the capacity is not accepted either
      rcases win.grant_eq false with hgrant | ⟨c, hgrant⟩
      · rw [hpoll] at hgrant
        simp only [hgrant] at hfine
        exact hfine .brokenPipe rfl
      · simp only [hgrant, haccepts] at hfine
        exact hfine .stream rfl

/-! ## The stream -/

/-- **The invariant of the writing side**: the frames of the writes accepted are handed
over or in the buffer, and the trailers were sent once at most. -/
structure Writing (accepted : List Bytes) (me : GrpcStream) : Prop where
  bytes : ∃ frames, accepted.mapM encodeHunk = .ok frames ∧
    me.send.handedOver ++ me.writeBuf = frames.flatten
  nonempty : ∀ b ∈ accepted, b ≠ []
  trailers_le : me.send.trailers ≤ if me.trailersSent then 1 else 0

/-- Where the trailers were sent, everything was handed over before. -/
def GrpcStream.Closed (me : GrpcStream) : Prop := me.send.trailers ≠ 0 → me.writeBuf = []

theorem writing_new (windows : List Window) (acceptsTrailers : Bool) (recv : RecvStream) :
    Writing [] (.new (.new windows acceptsTrailers) recv) :=
  ⟨⟨[], rfl, rfl⟩, nofun, Nat.zero_le _⟩

section Writing

variable {accepted : List Bytes} {me : GrpcStream}

theorem Writing.flush (h : Writing accepted me) (hfine : me.flushWriteBuf.1.Fine) :
    Writing accepted me.flushWriteBuf.2 := by
  have hflushed := flushed_flushWriteBuf me
  refine ⟨?_, h.nonempty, ?_⟩
  · rw [hflushed.bytes hfine]
    exact h.bytes
  · rw [hflushed.trailers, hflushed.trailersSent]
    exact h.trailers_le

theorem mapM_concat_eq_ok {frames : List Bytes} {buf frame : Bytes}
    (h : accepted.mapM encodeHunk = .ok frames) (hbuf : encodeHunk buf = .ok frame) :
    (accepted ++ [buf]).mapM encodeHunk = .ok (frames ++ [frame]) := by
  rw [List.mapM_append, h, List.mapM_cons, hbuf]
  rfl

theorem fine_pending {α : Type} : (Poll.pending : Poll α).Fine := fun _ => nofun

theorem fine_ready {α : Type} (a : α) : (Poll.ready a).Fine := fun _ => nofun

theorem fine_of_unit {r : Poll Unit} (h : r.unit.Fine) : r.Fine := by
  rintro e rfl
  exact h e rfl

/-- **What a write does**: it is put off, it writes nothing, or its frame is put into the
empty buffer and flushed. -/
theorem pollWrite_cases {buf : Bytes} (hfine : (me.pollWrite buf).1.Fine) :
    me.flushWriteBuf.1.Fine ∧
      ((acceptedBy (.write buf) (me.pollWrite buf).1 = [] ∧
        (me.pollWrite buf).2 = me.flushWriteBuf.2) ∨
      (me.flushWriteBuf.1 = .ready () ∧ buf ≠ [] ∧ acceptedBy (.write buf) (me.pollWrite buf).1 = [buf] ∧
        ∃ frame, encodeHunk buf = .ok frame ∧
          { me.flushWriteBuf.2 with writeBuf := frame }.flushWriteBuf.1.Fine ∧
          (me.pollWrite buf).2 = { me.flushWriteBuf.2 with writeBuf := frame }.flushWriteBuf.2)) := by
  rcases hfirst : me.flushWriteBuf with ⟨r, me₁⟩
  simp only [GrpcStream.pollWrite, hfirst] at hfine ⊢
  cases r with
  | pending => exact ⟨fine_pending, .inl ⟨rfl, rfl⟩⟩
  | err e => exact absurd rfl (hfine e)
  | ready u =>
    refine ⟨fine_ready u, ?_⟩
    by_cases hbuf : buf = []
    · left
      simp [hbuf, acceptedBy]
    · right
      cases hencode : encodeHunk buf with
      | error e =>
        simp only [if_neg hbuf, hencode] at hfine
        exact absurd rfl (hfine e)
      | ok frame =>
        simp only [if_neg hbuf, hencode] at hfine ⊢
        rcases hsecond : { me₁ with writeBuf := frame }.flushWriteBuf with ⟨r₂, me₂⟩
        simp only [hsecond] at hfine ⊢
        cases r₂ with
        | pending =>
          refine ⟨trivial, hbuf, by simp [acceptedBy, hbuf], frame, rfl, ?_, by rw [hsecond]⟩
          rw [hsecond]
          exact fine_pending
        | ready v =>
          refine ⟨trivial, hbuf, by simp [acceptedBy, hbuf], frame, rfl, ?_, by rw [hsecond]⟩
          rw [hsecond]
          exact fine_ready v
        | err e => exact absurd rfl (hfine e)

theorem Writing.write (h : Writing accepted me) {buf : Bytes} (hfine : (me.pollWrite buf).1.Fine) :
    Writing (accepted ++ acceptedBy (.write buf) (me.pollWrite buf).1) (me.pollWrite buf).2 := by
  obtain ⟨hfirst, ⟨hnone, hsame⟩ | ⟨hready, hbuf, hone, frame, hframe, hsecond, hsame⟩⟩ :=
    pollWrite_cases hfine
  · rw [hnone, hsame, List.append_nil]
    exact h.flush hfirst
  · rw [hone, hsame]
    have hwriting := h.flush hfirst
    have hempty := (flushed_flushWriteBuf me).drained hready
    have hflushed := flushed_flushWriteBuf { me.flushWriteBuf.2 with writeBuf := frame }
    obtain ⟨frames, hframes, hbytes⟩ := hwriting.bytes
    rw [hempty, List.append_nil] at hbytes
    refine ⟨⟨frames ++ [frame], mapM_concat_eq_ok hframes hframe, ?_⟩, ?_, ?_⟩
    · rw [hflushed.bytes hsecond, List.flatten_concat, ← hbytes]
    · intro b hb
      rcases List.mem_append.mp hb with hb | hb
      · exact h.nonempty b hb
      · exact List.mem_singleton.mp hb ▸ hbuf
    · rw [hflushed.trailers, hflushed.trailersSent]
      exact hwriting.trailers_le

/-- **The trailers are sent once.** -/
theorem Writing.shutdown (h : Writing accepted me) (hfine : me.pollShutdown.1.Fine) :
    Writing accepted me.pollShutdown.2 := by
  have hflush := h.flush
  unfold GrpcStream.pollShutdown at hfine ⊢
  rcases hfirst : me.flushWriteBuf with ⟨r, me₁⟩
  rw [hfirst] at hflush hfine
  cases r with
  | pending => exact hflush fine_pending
  | err e => exact absurd rfl (hfine e)
  | ready u =>
    have hwriting := hflush (fine_ready u)
    by_cases hsent : me₁.trailersSent = true
    · simp only [hsent, if_true]
      exact hwriting
    · have hle := hwriting.trailers_le
      simp only [hsent, Bool.false_eq_true, if_false] at hle ⊢
      refine ⟨?_, h.nonempty, ?_⟩
      · show ∃ frames, _ ∧ me₁.send.sendTrailers.handedOver ++ me₁.writeBuf = _
        rw [SendStream.handedOver_sendTrailers]
        exact hwriting.bytes
      · show me₁.send.sendTrailers.trailers ≤ 1
        unfold SendStream.sendTrailers
        split
        · exact Nat.succ_le_succ hle
        · exact Nat.le_succ_of_le hle

theorem Writing.call (h : Writing accepted me) {op : WriteOp} (hfine : (me.call op).1.Fine) :
    Writing (accepted ++ acceptedBy op (me.call op).1) (me.call op).2 := by
  cases op with
  | write buf => exact h.write hfine
  | flush =>
    rw [acceptedBy, List.append_nil]
    · exact h.flush (fine_of_unit hfine)
    · exact nofun
  | shutdown =>
    rw [acceptedBy, List.append_nil]
    · exact h.shutdown (fine_of_unit hfine)
    · exact nofun

/-- **Any calls**, up to the first that fails. -/
theorem Writing.calls (h : Writing accepted me) {ops : List WriteOp} {more : List Bytes}
    {me' : GrpcStream} (hcalls : me.calls ops = some (more, me')) :
    Writing (accepted ++ more) me' := by
  induction ops generalizing accepted me more with
  | nil =>
    cases hcalls
    rw [List.append_nil]
    exact h
  | cons op ops ih =>
    have hcall := @Writing.call accepted me h op
    unfold GrpcStream.calls at hcalls
    rcases hr : me.call op with ⟨r, me₁⟩
    rw [hr] at hcall hcalls
    have hrest : ∀ rest, me₁.calls ops = some (rest, me') → r.Fine →
        Writing (accepted ++ (acceptedBy op r ++ rest)) me' := by
      intro rest hrest hfine
      rw [← List.append_assoc]
      exact ih (hcall hfine) hrest
    cases r with
    | err e => cases hcalls
    | pending =>
      obtain ⟨⟨rest, me₂⟩, hcalls, heq⟩ := Option.map_eq_some_iff.mp hcalls
      cases heq
      exact hrest rest hcalls fine_pending
    | ready n =>
      obtain ⟨⟨rest, me₂⟩, hcalls, heq⟩ := Option.map_eq_some_iff.mp hcalls
      cases heq
      exact hrest rest hcalls (fine_ready n)

end Writing

/-! ## The trailers come last -/

section Closed

variable {me : GrpcStream}

theorem closed_new (windows : List Window) (acceptsTrailers : Bool) (recv : RecvStream) :
    (GrpcStream.new (.new windows acceptsTrailers) recv).Closed :=
  fun _ => rfl

theorem GrpcStream.Closed.flush (h : me.Closed) : me.flushWriteBuf.2.Closed := by
  intro htrailers
  rw [(flushed_flushWriteBuf me).trailers] at htrailers
  rw [flushWriteBuf_nil (h htrailers)]
  exact h htrailers

/-- A write behind the trailers is refused, and fails. -/
theorem GrpcStream.Closed.write (h : me.Closed) (hrefuses : me.send.Refuses) {buf : Bytes}
    (hfine : (me.pollWrite buf).1.Fine) : (me.pollWrite buf).2.Closed := by
  obtain ⟨-, ⟨-, hsame⟩ | ⟨-, -, -, frame, -, hsecond, hsame⟩⟩ := pollWrite_cases hfine
  · rw [hsame]
    exact h.flush
  · intro htrailers
    rw [hsame, (flushed_flushWriteBuf _).trailers] at htrailers
    have hsent : me.send.trailers ≠ 0 := by
      rwa [← (flushed_flushWriteBuf me).trailers]
    rw [flushWriteBuf_nil (h hsent)] at hsecond hsame
    have hnil : frame = [] := @flushWriteBuf_refused { me with writeBuf := frame } (hrefuses hsent)
      hsecond
    subst hnil
    rw [hsame, flushWriteBuf_nil rfl]

/-- The trailers are sent with the buffer empty. -/
theorem GrpcStream.Closed.shutdown (h : me.Closed) : me.pollShutdown.2.Closed := by
  have hflush := h.flush
  have hdrained := (flushed_flushWriteBuf me).drained
  unfold GrpcStream.pollShutdown
  rcases hfirst : me.flushWriteBuf with ⟨r, me₁⟩
  rw [hfirst] at hflush hdrained
  cases r with
  | pending | err e => exact hflush
  | ready u =>
    have hempty : me₁.writeBuf = [] := hdrained rfl
    dsimp only
    split
    · exact hflush
    · intro _
      exact hempty

theorem GrpcStream.Closed.call (h : me.Closed) (hrefuses : me.send.Refuses) {op : WriteOp}
    (hfine : (me.call op).1.Fine) : (me.call op).2.Closed := by
  cases op with
  | write buf => exact h.write hrefuses hfine
  | flush => exact h.flush
  | shutdown => exact h.shutdown

/-- **Any calls**, up to the first that fails. -/
theorem GrpcStream.Closed.calls (h : me.Closed) {ops : List WriteOp} {accepted : List Bytes}
    {me' : GrpcStream} (hrefuses : me.RefusesClosed ops)
    (hcalls : me.calls ops = some (accepted, me')) : me'.Closed := by
  induction ops generalizing me accepted with
  | nil =>
    cases hcalls
    exact h
  | cons op ops ih =>
    obtain ⟨hfirst, hrest⟩ := hrefuses
    have hcall := @GrpcStream.Closed.call me h hfirst op
    unfold GrpcStream.calls at hcalls
    rcases hr : me.call op with ⟨r, me₁⟩
    rw [hr] at hcall hcalls hrest
    cases r with
    | err e => cases hcalls
    | pending | ready n =>
      obtain ⟨⟨more, me₂⟩, hcalls, heq⟩ := Option.map_eq_some_iff.mp hcalls
      cases heq
      exact ih (hcall nofun) hrest hcalls

end Closed

/-! ## The write half -/

/-- What a loop that is to send `data` has handed over: all of it if it returned, and
else a part from the front. -/
def Sends (s : SendStream) (data : Bytes) (r : Poll Unit) (s' : SendStream) : Prop :=
  ∃ part, part <+: data ∧ s'.handedOver = s.handedOver ++ part ∧ (r = .ready () → part = data)

theorem sends_nothing (s : SendStream) (data : Bytes) {r : Poll Unit} (hr : r ≠ .ready ()) :
    Sends s data r s :=
  ⟨[], List.nil_prefix, (List.append_nil _).symm, fun h => absurd h hr⟩

theorem Sends.append {s s₁ s₂ : SendStream} {data more : Bytes} {r : Poll Unit}
    (h : Sends s data (.ready ()) s₁) (h' : Sends s₁ more r s₂) : Sends s (data ++ more) r s₂ := by
  obtain ⟨part, -, hsent, hall⟩ := h
  obtain rfl := hall rfl
  obtain ⟨part', hpart', hsent', hall'⟩ := h'
  refine ⟨part ++ part', (List.prefix_append_right_inj part).mpr hpart', ?_, ?_⟩
  · rw [hsent', hsent, List.append_assoc]
  · intro hr
    rw [hall' hr]

/-- A loop that stopped before the end of `data` has not come to `more`. -/
theorem Sends.stopped {s s' : SendStream} {data : Bytes} {r : Poll Unit} (h : Sends s data r s')
    (hr : r ≠ .ready ()) (more : Bytes) : Sends s (data ++ more) r s' := by
  obtain ⟨part, hpart, hsent, -⟩ := h
  exact ⟨part, hpart.trans (List.prefix_append _ _), hsent, fun h => absurd h hr⟩

theorem sends_sendAll (s : SendStream) (waiting : Bool) (data : Bytes) :
    Sends s data (sendAll s waiting data).1 (sendAll s waiting data).2 := by
  fun_induction sendAll s waiting data with
  | case1 s waiting => exact ⟨[], List.nil_prefix, (List.append_nil _).symm, fun _ => rfl⟩
  | case2 s waiting data hdata hwindows => exact sends_nothing s data nofun
  | case3 s waiting data hdata win windows hwindows send hgrant ih => exact ih
  | case4 s waiting data hdata win windows hwindows send hgrant =>
    exact sends_nothing s data nofun
  | case5 s waiting data hdata win windows hwindows send hgrant =>
    exact sends_nothing s data nofun
  | case6 s waiting data hdata win windows hwindows send hgrant ih => exact ih
  | case7 s waiting data hdata win windows hwindows send c hgrant haccepts ih =>
    have hpush : Sends s (data.take (c + 1)) (.ready ()) (send.push (data.take (c + 1))) :=
      ⟨_, List.prefix_rfl, SendStream.handedOver_push .., fun _ => rfl⟩
    have hboth := hpush.append ih
    rwa [List.take_append_drop] at hboth
  | case8 s waiting data hdata win windows hwindows send c hgrant haccepts =>
    exact sends_nothing s data nofun

/-- A frame is a header and the payload. -/
theorem exists_grpcHeader {payload frame : Bytes} (h : encodeHunk payload = .ok frame) :
    ∃ header, grpcHeader payload.length = .ok header ∧ header ++ payload = frame := by
  cases hheader : grpcHeader payload.length with
  | error e =>
    rw [encodeHunk, hheader] at h
    cases h
  | ok header =>
    rw [encodeHunk, hheader] at h
    exact ⟨header, rfl, Except.ok.inj h⟩

/-- **One payload**: its frame, in two parts. -/
theorem sends_sendPayload {payload frame : Bytes} (hpayload : payload ≠ [])
    (hframe : encodeHunk payload = .ok frame) (me : GrpcWriteHalf) :
    Sends me.send frame (me.sendPayload payload).1 (me.sendPayload payload).2.send := by
  obtain ⟨header, hheader, rfl⟩ := exists_grpcHeader hframe
  have hfirst := sends_sendAll me.send false header
  rcases hr : sendAll me.send false header with ⟨r, send⟩
  rw [hr] at hfirst
  cases r with
  | ready u =>
    have hsend : me.sendPayload payload =
        ((sendAll send false payload).1, ⟨(sendAll send false payload).2⟩) := by
      simp only [GrpcWriteHalf.sendPayload, if_neg hpayload, hheader, hr]
    rw [hsend]
    exact hfirst.append (sends_sendAll send false payload)
  | pending =>
    have hsend : me.sendPayload payload = (.pending, ⟨send⟩) := by
      simp only [GrpcWriteHalf.sendPayload, if_neg hpayload, hheader, hr]
    rw [hsend]
    exact hfirst.stopped nofun payload
  | err e =>
    have hsend : me.sendPayload payload = (.err e, ⟨send⟩) := by
      simp only [GrpcWriteHalf.sendPayload, if_neg hpayload, hheader, hr]
    rw [hsend]
    exact hfirst.stopped nofun payload

theorem mapM_cons_eq_ok {payload : Bytes} {payloads frames : List Bytes}
    (h : (payload :: payloads).mapM encodeHunk = .ok frames) :
    ∃ frame more, encodeHunk payload = .ok frame ∧ payloads.mapM encodeHunk = .ok more ∧
      frames = frame :: more := by
  rw [List.mapM_cons] at h
  cases hframe : encodeHunk payload with
  | error e =>
    rw [hframe] at h
    cases h
  | ok frame =>
    cases hmore : payloads.mapM encodeHunk with
    | error e =>
      rw [hframe, hmore] at h
      cases h
    | ok more =>
      rw [hframe, hmore] at h
      exact ⟨frame, more, rfl, rfl, (Except.ok.inj h).symm⟩

/-- **All payloads**: their frames in order. -/
theorem sends_sendPayloads {payloads frames : List Bytes} (hpayloads : ∀ p ∈ payloads, p ≠ [])
    (hframes : payloads.mapM encodeHunk = .ok frames) (me : GrpcWriteHalf) :
    Sends me.send frames.flatten (me.sendPayloads payloads).1 (me.sendPayloads payloads).2.send := by
  induction payloads generalizing frames me with
  | nil =>
    cases hframes
    exact ⟨[], List.prefix_rfl, (List.append_nil _).symm, fun _ => rfl⟩
  | cons payload payloads ih =>
    obtain ⟨hpayload, hrest⟩ := List.forall_mem_cons.mp hpayloads
    obtain ⟨frame, more, hframe, hmore, rfl⟩ := mapM_cons_eq_ok hframes
    have hfirst := sends_sendPayload hpayload hframe me
    unfold GrpcWriteHalf.sendPayloads
    rw [List.flatten_cons]
    rcases hr : me.sendPayload payload with ⟨r, me₁⟩
    rw [hr] at hfirst
    cases r with
    | ready u => exact hfirst.append (ih hrest hmore me₁)
    | pending => exact hfirst.stopped nofun more.flatten
    | err e => exact hfirst.stopped nofun more.flatten

/-! ## With enough capacity the write half returns -/

/-- A window of a stream that is well: it accepts, and its polls wait or grant. -/
def Window.Healthy (win : Window) : Prop :=
  win.accepts = true ∧ win.poll ≠ .failed ∧ win.poll ≠ .closed

/-- A window that gives something, to a task that waits as to one that does not. -/
def Window.gives (win : Window) : Bool :=
  match win.poll with
  | .granted c => 0 < c
  | _ => false

/-- The stream is well and gives something at least `n` times. -/
structure SendStream.Plenty (s : SendStream) (n : Nat) : Prop where
  healthy : ∀ win ∈ s.windows, win.Healthy
  enough : n ≤ s.windows.countP Window.gives

/-- A round that finds nothing was not one of those that give. -/
theorem Window.gives_eq_false {win : Window} {waiting : Bool}
    (h : win.grant waiting = .pending ∨ win.grant waiting = .granted 0) : win.gives = false := by
  rcases win.grant_eq waiting with heq | ⟨c, heq⟩
  · rw [heq] at h
    rcases h with h | h
    · simp [gives, h]
    · simp [gives, h]
  · rw [heq] at h
    rcases h with h | h
    · cases h
    · cases h

theorem SendStream.Plenty.tail {s : SendStream} {n : Nat} {win : Window} {windows : List Window}
    (h : s.Plenty n) (hwindows : s.windows = win :: windows) :
    win.Healthy ∧
      (win.gives = false → { s with windows := windows }.Plenty n) ∧
      ∀ chunk, ({ s with windows := windows }.push chunk).Plenty (n - 1) := by
  have hhealthy : ∀ x ∈ windows, x.Healthy :=
    fun x hx => h.healthy x (hwindows ▸ List.mem_cons_of_mem _ hx)
  have henough := h.enough
  rw [hwindows, List.countP_cons] at henough
  refine ⟨h.healthy win (hwindows ▸ List.mem_cons_self), ?_, ?_⟩
  · intro hgives
    rw [hgives] at henough
    exact ⟨hhealthy, by simpa using henough⟩
  · intro chunk
    refine ⟨hhealthy, ?_⟩
    show n - 1 ≤ windows.countP Window.gives
    split at henough
    · omega
    · omega

/-- **Each round that gives something takes a byte off.** -/
theorem ready_sendAll {s : SendStream} {waiting : Bool} {data : Bytes} {n : Nat}
    (h : s.Plenty (data.length + n)) :
    (sendAll s waiting data).1 = .ready () ∧ (sendAll s waiting data).2.Plenty n := by
  fun_induction sendAll s waiting data with
  | case1 s waiting => exact ⟨rfl, by simpa using h⟩
  | case2 s waiting data hdata hwindows =>
    have henough := h.enough
    have hpos := List.length_pos_iff.mpr hdata
    rw [hwindows, List.countP_nil] at henough
    omega
  | case3 s waiting data hdata win windows hwindows send hgrant ih =>
    obtain ⟨-, hnext, -⟩ := h.tail hwindows
    exact ih (hnext (Window.gives_eq_false (.inl hgrant)))
  | case4 s waiting data hdata win windows hwindows send hgrant =>
    obtain ⟨hhealthy, -, -⟩ := h.tail hwindows
    rcases win.grant_eq waiting with heq | ⟨c, heq⟩
    · exact absurd (heq.symm.trans hgrant) hhealthy.2.1
    · exact absurd (heq.symm.trans hgrant) nofun
  | case5 s waiting data hdata win windows hwindows send hgrant =>
    obtain ⟨hhealthy, -, -⟩ := h.tail hwindows
    rcases win.grant_eq waiting with heq | ⟨c, heq⟩
    · exact absurd (heq.symm.trans hgrant) hhealthy.2.2
    · exact absurd (heq.symm.trans hgrant) nofun
  | case6 s waiting data hdata win windows hwindows send hgrant ih =>
    obtain ⟨-, hnext, -⟩ := h.tail hwindows
    exact ih (hnext (Window.gives_eq_false (.inr hgrant)))
  | case7 s waiting data hdata win windows hwindows send c hgrant haccepts ih =>
    obtain ⟨-, -, hpush⟩ := h.tail hwindows
    have hpos := List.length_pos_iff.mpr hdata
    have hplenty := hpush (data.take (c + 1))
    apply ih
    refine ⟨hplenty.healthy, Nat.le_trans ?_ hplenty.enough⟩
    rw [List.length_drop]
    omega
  | case8 s waiting data hdata win windows hwindows send c hgrant haccepts =>
    obtain ⟨hhealthy, -, -⟩ := h.tail hwindows
    rw [hhealthy.1] at haccepts
    exact absurd rfl haccepts

theorem ready_sendPayload {payload frame : Bytes} (hpayload : payload ≠ [])
    (hframe : encodeHunk payload = .ok frame) {me : GrpcWriteHalf} {n : Nat}
    (h : me.send.Plenty (frame.length + n)) :
    (me.sendPayload payload).1 = .ready () ∧ (me.sendPayload payload).2.send.Plenty n := by
  cases hheader : grpcHeader payload.length with
  | error e =>
    rw [encodeHunk, hheader] at hframe
    cases hframe
  | ok header =>
    rw [encodeHunk, hheader] at hframe
    obtain rfl : header ++ payload = frame := Except.ok.inj hframe
    rw [List.length_append, Nat.add_assoc] at h
    obtain ⟨hready, hplenty⟩ := @ready_sendAll me.send false header _ h
    simp only [GrpcWriteHalf.sendPayload, if_neg hpayload, hheader]
    rcases hr : sendAll me.send false header with ⟨r, send⟩
    rw [hr] at hready hplenty
    obtain rfl : r = .ready () := hready
    exact ready_sendAll hplenty

theorem ready_sendPayloads {payloads frames : List Bytes} (hpayloads : ∀ p ∈ payloads, p ≠ [])
    (hframes : payloads.mapM encodeHunk = .ok frames) {me : GrpcWriteHalf}
    (h : me.send.Plenty frames.flatten.length) :
    (me.sendPayloads payloads).1 = .ready () := by
  induction payloads generalizing frames me with
  | nil => rfl
  | cons payload payloads ih =>
    obtain ⟨hpayload, hrest⟩ := List.forall_mem_cons.mp hpayloads
    obtain ⟨frame, more, hframe, hmore, rfl⟩ := mapM_cons_eq_ok hframes
    rw [List.flatten_cons, List.length_append] at h
    obtain ⟨hready, hplenty⟩ := ready_sendPayload hpayload hframe h
    unfold GrpcWriteHalf.sendPayloads
    rcases hr : me.sendPayload payload with ⟨r, me₁⟩
    rw [hr] at hready hplenty
    obtain rfl : r = .ready () := hready
    exact ih hrest hmore hplenty

/-- **The writing side of the tunnel.**  After any calls that did not fail, whatever the
capacities were: the bytes handed over and those in the buffer are the frames of the
writes accepted, in order; the trailers were sent at most once, and, where `h2` refuses what
is sent behind them, only with all of them handed over.  The write half, sending the same
payloads under any capacities, hands over a part of the same bytes from the front, all of
them where it returns, and it returns where there is enough capacity. -/
theorem grpc_write_side {windows : List Window} {acceptsTrailers : Bool} {recv : RecvStream}
    {ops : List WriteOp} {accepted : List Bytes} {me : GrpcStream}
    (h : (GrpcStream.new (.new windows acceptsTrailers) recv).calls ops = some (accepted, me)) :
    ∃ frames, accepted.mapM encodeHunk = .ok frames ∧ (∀ b ∈ accepted, b ≠ []) ∧
      me.send.handedOver ++ me.writeBuf = frames.flatten ∧
      me.send.trailers ≤ 1 ∧
      ((GrpcStream.new (.new windows acceptsTrailers) recv).RefusesClosed ops →
        me.send.trailers ≠ 0 → me.send.handedOver = frames.flatten) ∧
      ∀ half : GrpcWriteHalf, half.send.sent = [] →
        (half.sendPayloads accepted).2.send.handedOver <+: me.send.handedOver ++ me.writeBuf ∧
        ((half.sendPayloads accepted).1 = .ready () →
          (half.sendPayloads accepted).2.send.handedOver = me.send.handedOver ++ me.writeBuf) ∧
        (half.send.Plenty frames.flatten.length → (half.sendPayloads accepted).1 = .ready ()) := by
  have hwriting := (writing_new windows acceptsTrailers recv).calls h
  rw [List.nil_append] at hwriting
  obtain ⟨frames, hframes, hbytes⟩ := hwriting.bytes
  refine ⟨frames, hframes, hwriting.nonempty, hbytes, ?_, ?_, ?_⟩
  · have hle := hwriting.trailers_le
    split at hle
    · exact hle
    · exact Nat.le_succ_of_le hle
  · intro hrefuses htrailers
    have hclosed := (closed_new windows acceptsTrailers recv).calls hrefuses h
    rw [← hbytes, hclosed htrailers, List.append_nil]
  · intro half hfresh
    obtain ⟨part, hpart, hsent, hall⟩ := sends_sendPayloads hwriting.nonempty hframes half
    have hnone : half.send.handedOver = [] := by
      rw [SendStream.handedOver, hfresh]
      rfl
    rw [hnone, List.nil_append] at hsent
    rw [hsent, hbytes]
    exact ⟨hpart, hall, ready_sendPayloads hwriting.nonempty hframes⟩

/-- The stream grants three bytes at once and then waits; the rest of the frame goes out
with the flush, before the trailers, behind which nothing is sent. -/
theorem grpc_write_side_once :
    ∃ me frames, (GrpcStream.new (.new [⟨3, .pending, true⟩, ⟨0, .pending, true⟩,
        ⟨0, .granted 9, true⟩, ⟨0, .closed, false⟩] true) ⟨[], false⟩).calls
        [.write [7], .flush, .shutdown, .flush] = some ([[7]], me) ∧
      [[7]].mapM encodeHunk = .ok frames ∧ me.send.trailers = 1 ∧
      me.send.handedOver = frames.flatten := by
  have hcalls : (GrpcStream.new (.new [⟨3, .pending, true⟩, ⟨0, .pending, true⟩,
      ⟨0, .granted 9, true⟩, ⟨0, .closed, false⟩] true) ⟨[], false⟩).calls
      [.write [7], .flush, .shutdown, .flush] =
      some ([[7]], ⟨⟨⟨[], false⟩, [], [], false⟩,
        ⟨[⟨0, .closed, false⟩], true, [[0, 0, 0], [0, 3, 10, 1, 7]], 1⟩, [], true⟩) := by
    decide +kernel
  obtain ⟨frames, hframes, -, -, -, hclosed, -⟩ := grpc_write_side hcalls
  have hrefuses : (GrpcStream.new (.new [⟨3, .pending, true⟩, ⟨0, .pending, true⟩,
      ⟨0, .granted 9, true⟩, ⟨0, .closed, false⟩] true) ⟨[], false⟩).RefusesClosed
      [.write [7], .flush, .shutdown, .flush] :=
    ⟨by decide +kernel, by decide +kernel, by decide +kernel, by decide +kernel, trivial⟩
  exact ⟨_, frames, hcalls, hframes, rfl, hclosed hrefuses Nat.one_ne_zero⟩

end XrayRs.Grpc
