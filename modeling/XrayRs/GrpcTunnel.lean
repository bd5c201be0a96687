import XrayRs.FramedStream
import XrayRs.GrpcHunk

/-! # Reading from the gRPC tunnel

`GrpcStream`, `GrpcReadHalf` and `into_split` (`transport/src/grpc.rs`), with the reading
side: `poll_read` reassembles payloads from the DATA of an HTTP/2 stream through two
buffers.  The stream below is the list of the answers that its polls give.

Whatever the cut of the wire into DATA and the sizes of the reader's buffers, what has
been delivered and is still in `pending` are the payloads of the frames taken off, and
the rest of what has come in is in `recv_buf` (`Reading`). -/

namespace XrayRs.Grpc

/-! ## The stream and its halves -/

/-- What `RecvStream::poll_data` answers. -/
inductive PollData
  | pending
  | data (d : Bytes)
  | failed
  deriving DecidableEq

/-- `RecvStream`: its answers to come, and whether they end with the end of the stream.
If not, it is pending from then on. -/
structure RecvStream where
  polls : List PollData
  ended : Bool
  deriving DecidableEq

/-- What `SendStream::poll_capacity` answers. -/
inductive PollCapacity
  | pending
  | granted (c : Nat)
  | failed
  | closed
  deriving DecidableEq

/-- What a round of a send loop finds: the capacity, the answer to a poll for more, and
whether `send_data` accepts. -/
structure Window where
  capacity : Nat
  poll : PollCapacity
  accepts : Bool
  deriving DecidableEq

/-- `SendStream`: what the rounds to come find, after which it keeps waiting, whether it
accepts trailers, the data handed to it, and whether the trailers were. -/
structure SendStream where
  windows : List Window
  acceptsTrailers : Bool
  sent : List Bytes
  trailers : Nat
  deriving DecidableEq

/-- `GrpcReadHalf`. -/
structure GrpcReadHalf where
  recv : RecvStream
  recvBuf : Bytes
  pending : Bytes
  eof : Bool
  deriving DecidableEq

/-- `GrpcWriteHalf`. -/
structure GrpcWriteHalf where
  send : SendStream
  deriving DecidableEq

/-- `GrpcStream`: the fields of a read half and those of the writing side. -/
structure GrpcStream extends GrpcReadHalf where
  send : SendStream
  writeBuf : Bytes
  trailersSent : Bool
  deriving DecidableEq

/-- `GrpcStream::new`. -/
def GrpcStream.new (send : SendStream) (recv : RecvStream) : GrpcStream :=
  ⟨⟨recv, [], [], false⟩, send, [], false⟩

/-- `GrpcStream::into_split`. -/
def GrpcStream.intoSplit (me : GrpcStream) : GrpcReadHalf × GrpcWriteHalf :=
  (me.toGrpcReadHalf, ⟨me.send⟩)

/-! ## `poll_read` -/

/-- `Poll<io::Result<T>>`. -/
inductive Poll (α : Type)
  | pending
  | ready (a : α)
  | err (e : Error)
  deriving DecidableEq

/-- What `poll_read` returns, with the bytes it puts into the buffer. -/
abbrev PollRead := Poll Bytes

/-- `GrpcReadHalf::poll_read`, with room for `room` bytes. -/
def GrpcReadHalf.pollRead (me : GrpcReadHalf) (room : Nat) : PollRead × GrpcReadHalf :=
  if me.pending ≠ [] then
    (.ready (me.pending.take room), { me with pending := me.pending.drop room })
  else
    match h : tryDecode me.recvBuf with
    | .error e => (.err e, me)
    | .ok (some (payload, rest)) =>
      have := length_of_tryDecode h
      pollRead { me with pending := payload, recvBuf := rest } room
    | .ok none =>
      if _he : me.eof = true then (.ready [], me)
      else
        match _hp : me.recv.polls with
        | [] =>
          if me.recv.ended then pollRead { me with eof := true } room else (.pending, me)
        | .pending :: polls => (.pending, { me with recv := { me.recv with polls := polls } })
        | .data d :: polls =>
          pollRead { me with
            recv := { me.recv with polls := polls }, recvBuf := me.recvBuf ++ d } room
        | .failed :: polls => (.err .stream, { me with recv := { me.recv with polls := polls } })
termination_by (me.recv.polls.length + (if me.eof then 0 else 1), me.recvBuf.length)
decreasing_by
  · exact Prod.Lex.right _ this
  · apply Prod.Lex.left
    simp [_hp, _he]
  · apply Prod.Lex.left
    simp [_hp]

/-- `GrpcStream::poll_read`, which is the same loop over the same fields. -/
def GrpcStream.pollRead (me : GrpcStream) (room : Nat) : PollRead × GrpcStream :=
  let (r, half) := me.toGrpcReadHalf.pollRead room
  (r, { me with toGrpcReadHalf := half })

/-- The tunnel as its reader has it: whole, or the read half. -/
inductive Tunnel
  | whole (s : GrpcStream)
  | half (r : GrpcReadHalf)
  deriving DecidableEq

/-- What the reader does. -/
inductive ReadOp
  | pollRead (room : Nat)
  | intoSplit
  deriving DecidableEq

namespace Tunnel

/-- The state of the reading side. -/
def reader : Tunnel → GrpcReadHalf
  | .whole s => s.toGrpcReadHalf
  | .half r => r

def pollRead (room : Nat) : Tunnel → PollRead × Tunnel
  | .whole s => ((s.pollRead room).1, .whole (s.pollRead room).2)
  | .half r => ((r.pollRead room).1, .half (r.pollRead room).2)

/-- A half is not split again. -/
def intoSplit : Tunnel → Tunnel
  | .whole s => .half s.intoSplit.1
  | .half r => .half r

/-- The reader's operations one after the other, and what its polls return. -/
def run : Tunnel → List ReadOp → List PollRead × Tunnel
  | t, [] => ([], t)
  | t, .pollRead room :: ops =>
    let (r, t') := t.pollRead room
    let (rs, t'') := t'.run ops
    (r :: rs, t'')
  | t, .intoSplit :: ops => t.intoSplit.run ops

end Tunnel

/-- The bytes that a poll delivers. -/
def Poll.bytes : PollRead → Bytes
  | .ready bytes => bytes
  | .pending => []
  | .err _ => []

/-- All bytes that were delivered. -/
def delivered (rs : List PollRead) : Bytes := rs.flatMap Poll.bytes

/-! ## What has been read -/

open FramedStream

/-- The bytes of an answer. -/
def PollData.bytes : PollData → Bytes
  | .data d => d
  | .pending => []
  | .failed => []

/-- The DATA of some answers. -/
def dataOf (polls : List PollData) : Bytes := polls.flatMap PollData.bytes

/-- The payloads of the frames that lie wholly within `w`. -/
def payloadsIn (fs : List (Bytes × Bytes)) (w : Bytes) : Bytes :=
  ((fs.take (whole fs w).1).map Prod.fst).flatten

/-- **The invariant of the reading side.**  Of the frames `fs`, some have been taken off:
their payloads were delivered, in all `got`, or are pending.  The rest of `w` is in the
buffer or comes in. -/
structure Reading (fs : List (Bytes × Bytes)) (w : Bytes) (ended : Bool) (got : Bytes)
    (me : GrpcReadHalf) : Prop where
  frames : ∃ taken left, fs = taken ++ left ∧ got ++ me.pending = (taken.map Prod.fst).flatten ∧
    wire taken ++ (me.recvBuf ++ dataOf me.recv.polls) = w
  clean : .failed ∉ me.recv.polls
  ended_eq : me.recv.ended = ended
  eof : me.eof = true → me.recv.polls = [] ∧ ended = true

section Reading

variable {fs : List (Bytes × Bytes)} {w : Bytes} {ended : Bool} {got : Bytes} {me : GrpcReadHalf}

theorem reading_new {polls : List PollData} (hclean : .failed ∉ polls) :
    Reading fs (dataOf polls) ended [] ⟨⟨polls, ended⟩, [], [], false⟩ :=
  ⟨⟨[], fs, rfl, rfl, rfl⟩, hclean, rfl, nofun⟩

/-- What was delivered are payloads of whole frames. -/
theorem Reading.got_prefix (h : Reading fs w ended got me) : got <+: payloadsIn fs w := by
  obtain ⟨taken, left, rfl, hgot, rfl⟩ := h.frames
  rw [payloadsIn, whole_append, Nat.add_comm, List.take_length_add_append, List.map_append,
    List.flatten_append, ← hgot, List.append_assoc]
  exact List.prefix_append _ _

/-- **The next frame** is in the buffer, or the buffer is within it. -/
theorem Reading.next (h : Reading fs w ended got me) (hfs : ∀ f ∈ fs, Framed f.1 f.2)
    (hw : w <+: wire fs) :
    ∃ taken left, fs = taken ++ left ∧ got ++ me.pending = (taken.map Prod.fst).flatten ∧
      wire taken ++ (me.recvBuf ++ dataOf me.recv.polls) = w ∧
      ((tryDecode me.recvBuf = .ok none ∧ (whole left me.recvBuf).1 = 0) ∨
        ∃ payload frame rest left', left = (payload, frame) :: left' ∧
          me.recvBuf = frame ++ rest ∧ tryDecode me.recvBuf = .ok (some (payload, rest))) := by
  obtain ⟨taken, left, rfl, hgot, rfl⟩ := h.frames
  refine ⟨taken, left, rfl, hgot, rfl, ?_⟩
  rw [wire_append, List.prefix_append_right_inj] at hw
  have hbuf : me.recvBuf <+: wire left := (List.prefix_append _ _).trans hw
  cases left with
  | nil =>
    left
    rw [List.prefix_nil.mp hbuf]
    exact ⟨tryDecode_short (by decide), rfl⟩
  | cons f left =>
    obtain ⟨payload, frame⟩ := f
    have hframed : Framed payload frame := hfs (payload, frame) (by simp)
    have hwire : wire ((payload, frame) :: left) = frame ++ wire left := by simp [wire]
    rw [hwire] at hbuf
    by_cases hlen : frame.length ≤ me.recvBuf.length
    · obtain ⟨rest, hrest⟩ :=
        List.prefix_of_prefix_length_le (List.prefix_append _ _) hbuf hlen
      exact .inr ⟨payload, frame, rest, left, rfl, hrest.symm, hrest ▸ hframed.tryDecode rest⟩
    · have hcut : me.recvBuf <+: frame :=
        List.prefix_of_prefix_length_le hbuf (List.prefix_append _ _) (by omega)
      refine .inl ⟨hframed.tryDecode_cut hcut (by omega), ?_⟩
      rw [whole, if_neg hlen]

theorem Reading.got_eq (h : Reading fs w ended got me) (hfs : ∀ f ∈ fs, Framed f.1 f.2)
    (hw : w <+: wire fs) (hpending : me.pending = []) (hpolls : me.recv.polls = [])
    (hnone : tryDecode me.recvBuf = .ok none) : got = payloadsIn fs w := by
  obtain ⟨taken, left, rfl, hgot, rfl, ⟨-, hwhole⟩ | ⟨_, _, _, _, -, -, hsome⟩⟩ := h.next hfs hw
  · rw [hpending, List.append_nil] at hgot
    have hdata : dataOf me.recv.polls = [] := by rw [hpolls]; rfl
    rw [payloadsIn, hdata, List.append_nil, whole_append, hwhole, Nat.zero_add, List.take_left, hgot]
  · rw [hnone] at hsome
    cases hsome

theorem Reading.deliver (h : Reading fs w ended got me) (room : Nat) :
    Reading fs w ended (got ++ me.pending.take room)
      { me with pending := me.pending.drop room } := by
  refine ⟨?_, h.clean, h.ended_eq, h.eof⟩
  obtain ⟨taken, left, hfs, hgot, hw⟩ := h.frames
  refine ⟨taken, left, hfs, ?_, hw⟩
  rw [List.append_assoc, List.take_append_drop, hgot]

theorem Reading.decode (h : Reading fs w ended got me) (hfs : ∀ f ∈ fs, Framed f.1 f.2)
    (hw : w <+: wire fs) (hpending : me.pending = []) {payload rest : Bytes}
    (hsome : tryDecode me.recvBuf = .ok (some (payload, rest))) :
    Reading fs w ended got { me with pending := payload, recvBuf := rest } := by
  refine ⟨?_, h.clean, h.ended_eq, h.eof⟩
  obtain ⟨taken, left, rfl, hgot, rfl, ⟨hnone, -⟩ | ⟨p, frame, r, left', rfl, hbuf, hdec⟩⟩ :=
    h.next hfs hw
  · rw [hnone] at hsome
    cases hsome
  · obtain ⟨rfl, rfl⟩ : p = payload ∧ r = rest := by
      rw [hdec] at hsome
      cases hsome
      exact ⟨rfl, rfl⟩
    rw [hpending, List.append_nil] at hgot
    refine ⟨taken ++ [(p, frame)], left', by simp, by simp [hgot], ?_⟩
    rw [wire_append, hbuf]
    simp [wire]

/-- An answer other than the end is taken. -/
theorem Reading.recv (h : Reading fs w ended got me) {a : PollData} {polls : List PollData}
    (hpolls : me.recv.polls = a :: polls) :
    Reading fs w ended got { me with
      recv := { me.recv with polls := polls }, recvBuf := me.recvBuf ++ a.bytes } := by
  refine ⟨?_, ?_, h.ended_eq, ?_⟩
  · obtain ⟨taken, left, hfs, hgot, hw⟩ := h.frames
    refine ⟨taken, left, hfs, hgot, ?_⟩
    rw [← hw, hpolls]
    simp [dataOf]
  · intro hfailed
    exact h.clean (hpolls ▸ List.mem_cons_of_mem _ hfailed)
  · intro heof
    rw [(h.eof heof).1] at hpolls
    cases hpolls

/-- How many of the answers are `Pending`. -/
def waits (polls : List PollData) : Nat := polls.count .pending

theorem waits_data (d : Bytes) (polls : List PollData) : waits (.data d :: polls) = waits polls :=
  List.count_cons_of_ne (by simp)

/-- What a poll has to lead to, where at most `n` answers were `Pending`: bytes of the
payloads in order; or `Pending`, with one of these answers less or because nothing is
left to deliver; or the end, because nothing is left and the stream below has ended. -/
def PollsWell (fs : List (Bytes × Bytes)) (w : Bytes) (ended : Bool) (got : Bytes) (n : Nat) :
    PollRead × GrpcReadHalf → Prop
  | (.pending, me) => Reading fs w ended got me ∧ (waits me.recv.polls < n ∨
      waits me.recv.polls ≤ n ∧ got = payloadsIn fs w)
  | (.ready bytes, me) => Reading fs w ended (got ++ bytes) me ∧ waits me.recv.polls ≤ n ∧
      (bytes = [] → got = payloadsIn fs w ∧ ended = true)
  | (.err _, _) => False

/-- **One poll.** -/
theorem pollsWell_pollRead (hfs : ∀ f ∈ fs, Framed f.1 f.2) (hw : w <+: wire fs)
    {room : Nat} (hroom : 0 < room) {n : Nat} (h : Reading fs w ended got me)
    (hn : waits me.recv.polls ≤ n) : PollsWell fs w ended got n (me.pollRead room) := by
  fun_induction GrpcReadHalf.pollRead me room with
  | case1 me hpending =>
    refine ⟨h.deliver room, hn, fun hnil => absurd hnil ?_⟩
    rw [List.take_eq_nil_iff, not_or]
    exact ⟨Nat.pos_iff_ne_zero.mp hroom, hpending⟩
  | case2 me hpending e herr =>
    obtain ⟨_, _, -, -, -, ⟨hnone, -⟩ | ⟨_, _, _, _, -, -, hsome⟩⟩ := h.next hfs hw
    · rw [herr] at hnone
      cases hnone
    · rw [herr] at hsome
      cases hsome
  | case3 me hpending payload rest hsome _ ih =>
    exact ih (h.decode hfs hw (not_not.mp hpending) hsome) hn
  | case4 me hpending hnone heof =>
    obtain ⟨hpolls, hended⟩ := h.eof heof
    exact ⟨(List.append_nil got).symm ▸ h, hn, fun _ =>
      ⟨h.got_eq hfs hw (not_not.mp hpending) hpolls hnone, hended⟩⟩
  | case5 me hpending hnone _ hpolls hended ih =>
    exact ih ⟨h.frames, h.clean, h.ended_eq, fun _ => ⟨hpolls, h.ended_eq ▸ hended⟩⟩ hn
  | case6 me hpending hnone _ hpolls hended =>
    exact ⟨h, .inr ⟨hn, h.got_eq hfs hw (not_not.mp hpending) hpolls hnone⟩⟩
  | case7 me hpending hnone _ polls hpolls =>
    have hrecv := h.recv hpolls
    rw [PollData.bytes, List.append_nil] at hrecv
    refine ⟨hrecv, .inl ?_⟩
    rw [hpolls, waits, List.count_cons_self] at hn
    exact hn
  | case8 me hpending hnone _ d polls hpolls ih =>
    refine ih (h.recv hpolls) ?_
    rw [hpolls, waits_data] at hn
    exact hn
  | case9 me hpending hnone _ polls hpolls =>
    exact h.clean (hpolls ▸ List.mem_cons_self)

/-- A poll that does not fail delivers, or waits, or has nothing left to deliver. -/
theorem PollsWell.spec {n : Nat} {r : PollRead} (h : PollsWell fs w ended got n (r, me)) :
    (∀ e, r ≠ .err e) ∧ (r = .ready [] → got = payloadsIn fs w ∧ ended = true) ∧
      Reading fs w ended (got ++ r.bytes) me ∧ waits me.recv.polls ≤ n ∧
      (r.bytes ≠ [] ∨ waits me.recv.polls < n ∨ got = payloadsIn fs w) := by
  cases r with
  | pending =>
    obtain ⟨hreading, hwaits⟩ := h
    refine ⟨nofun, nofun, (List.append_nil got).symm ▸ hreading, ?_, ?_⟩
    · rcases hwaits with hlt | ⟨hle, -⟩
      · exact Nat.le_of_lt hlt
      · exact hle
    · exact .inr (hwaits.imp_right And.right)
  | ready bytes =>
    obtain ⟨hreading, hwaits, hend⟩ := h
    refine ⟨nofun, fun hr => hend (Poll.ready.inj hr), hreading, hwaits, ?_⟩
    by_cases hbytes : bytes = []
    · exact .inr (.inr (hend hbytes).1)
    · exact .inl hbytes
  | err e => exact h.elim

end Reading

/-! ## The whole session -/

theorem Tunnel.reader_pollRead (t : Tunnel) (room : Nat) :
    (t.pollRead room).1 = (t.reader.pollRead room).1 ∧
      (t.pollRead room).2.reader = (t.reader.pollRead room).2 := by
  cases t with
  | whole s => exact ⟨rfl, rfl⟩
  | half r => exact ⟨rfl, rfl⟩

theorem Tunnel.reader_intoSplit (t : Tunnel) : t.intoSplit.reader = t.reader := by
  cases t with
  | whole s => rfl
  | half r => rfl

/-- How many polls there are among the operations. -/
def pollsOf (ops : List ReadOp) : Nat := ops.countP (· ≠ .intoSplit)

section Session

variable {fs : List (Bytes × Bytes)} {w : Bytes} {ended : Bool}

/-- What a session delivers, from where `got` has been delivered. -/
structure Session (fs : List (Bytes × Bytes)) (w : Bytes) (ended : Bool) (got : Bytes)
    (rs : List PollRead) (me : GrpcReadHalf) : Prop where
  reading : Reading fs w ended (got ++ delivered rs) me
  no_err : ∀ e, .err e ∉ rs
  at_end : ∀ before after, rs = before ++ .ready [] :: after →
    got ++ delivered before = payloadsIn fs w ∧ ended = true

theorem Session.cons {got : Bytes} {r : PollRead} {rs : List PollRead} {me : GrpcReadHalf}
    (hr : ∀ e, r ≠ .err e) (hend : r = .ready [] → got = payloadsIn fs w ∧ ended = true)
    (h : Session fs w ended (got ++ r.bytes) rs me) : Session fs w ended got (r :: rs) me := by
  have hcons : ∀ before, got ++ delivered (r :: before) = got ++ r.bytes ++ delivered before :=
    fun before => by simp [delivered]
  refine ⟨?_, ?_, ?_⟩
  · rw [hcons]
    exact h.reading
  · intro e he
    rcases List.mem_cons.mp he with he | he
    · exact hr e he.symm
    · exact h.no_err e he
  · intro before after heq
    cases before with
    | nil =>
      obtain ⟨hr, -⟩ := List.cons.inj heq
      rw [delivered, List.flatMap_nil, List.append_nil]
      exact hend hr
    | cons r' before =>
      obtain ⟨rfl, hrs⟩ := List.cons.inj heq
      rw [hcons]
      exact h.at_end before after hrs

/-- **Any number of polls**, with the split at any point. -/
theorem session_run (hfs : ∀ f ∈ fs, Framed f.1 f.2) (hw : w <+: wire fs) {got : Bytes}
    {ops : List ReadOp} (hrooms : ∀ room, .pollRead room ∈ ops → 0 < room) {t : Tunnel}
    (h : Reading fs w ended got t.reader) :
    Session fs w ended got (t.run ops).1 (t.run ops).2.reader := by
  induction ops generalizing t got with
  | nil =>
    refine ⟨(List.append_nil got).symm ▸ h, nofun, ?_⟩
    intro before after heq
    exact absurd heq (by simp [Tunnel.run])
  | cons op ops ih =>
    have hrest : ∀ room, .pollRead room ∈ ops → 0 < room :=
      fun room hroom => hrooms room (List.mem_cons_of_mem _ hroom)
    cases op with
    | intoSplit =>
      rw [← t.reader_intoSplit] at h
      exact ih hrest h
    | pollRead room =>
      obtain ⟨hr, hreader⟩ := t.reader_pollRead room
      obtain ⟨hok, hend, hreading, -⟩ :=
        (pollsWell_pollRead hfs hw (hrooms room List.mem_cons_self) h (Nat.le_refl _)).spec
      rw [← hr] at hok hend hreading
      rw [← hreader] at hreading
      exact Session.cons hok hend (ih hrest hreading)

/-- **With enough polls everything is delivered**: each of them delivers a byte, waits or
has nothing left to deliver. -/
theorem delivered_eq_of_polls (hfs : ∀ f ∈ fs, Framed f.1 f.2) (hw : w <+: wire fs)
    {got : Bytes} {ops : List ReadOp} (hrooms : ∀ room, .pollRead room ∈ ops → 0 < room)
    {t : Tunnel} (h : Reading fs w ended got t.reader)
    (hpolls : (payloadsIn fs w).length + waits t.reader.recv.polls < got.length + pollsOf ops) :
    got ++ delivered (t.run ops).1 = payloadsIn fs w := by
  induction ops generalizing t got with
  | nil =>
    have hlen := h.got_prefix.length_le
    simp only [pollsOf, List.countP_nil] at hpolls
    omega
  | cons op ops ih =>
    have hrest : ∀ room, .pollRead room ∈ ops → 0 < room :=
      fun room hroom => hrooms room (List.mem_cons_of_mem _ hroom)
    cases op with
    | intoSplit =>
      rw [← t.reader_intoSplit] at h hpolls
      exact ih hrest h hpolls
    | pollRead room =>
      obtain ⟨hr, hreader⟩ := t.reader_pollRead room
      obtain ⟨-, -, hreading, hwaits, hmoved⟩ :=
        (pollsWell_pollRead hfs hw (hrooms room List.mem_cons_self) h (Nat.le_refl _)).spec
      by_cases hgot : got = payloadsIn fs w
      · have hfront := (session_run hfs hw hrooms h).reading.got_prefix
        rw [← hgot] at hfront ⊢
        exact hfront.eq_of_length_le (by simp)
      · rw [← hr, ← hreader] at hreading
        rw [← hr, ← hreader] at hmoved
        rw [← hreader] at hwaits
        have hall : got ++ delivered (t.run (.pollRead room :: ops)).1 =
            got ++ (t.pollRead room).1.bytes ++ delivered ((t.pollRead room).2.run ops).1 := by
          simp [Tunnel.run, delivered]
        rw [hall]
        apply ih hrest hreading
        have hcount : pollsOf (.pollRead room :: ops) = pollsOf ops + 1 := by simp [pollsOf]
        rw [List.length_append]
        rcases hmoved with hbytes | hless | hgot'
        · have hpos := List.length_pos_iff.mpr hbytes
          omega
        · omega
        · exact absurd hgot' hgot

end Session

/-- **The reading side of the tunnel.**  Of a wire of encoded payloads a part has come,
cut into DATA in any way.  For any sizes of the reader's buffers, with `into_split` at any
point: no poll fails; what is delivered is a prefix of the payloads of the frames that
have come whole, and is all of them when the end is reported and after enough polls.
Where the whole wire has come, these are all payloads in order. -/
theorem grpc_read_side {fs : List (Bytes × Bytes)} (hfs : ∀ f ∈ fs, Framed f.1 f.2)
    {polls : List PollData} (hclean : .failed ∉ polls) (hcut : dataOf polls <+: wire fs)
    (ended : Bool) (send : SendStream) {ops : List ReadOp}
    (hrooms : ∀ room, .pollRead room ∈ ops → 0 < room) {rs : List PollRead}
    (hrs : rs = (Tunnel.run (.whole (.new send ⟨polls, ended⟩)) ops).1) :
    (∀ e, .err e ∉ rs) ∧ delivered rs <+: payloadsIn fs (dataOf polls) ∧
      (∀ before after, rs = before ++ .ready [] :: after →
        delivered before = payloadsIn fs (dataOf polls) ∧ ended = true) ∧
      ((payloadsIn fs (dataOf polls)).length + waits polls < pollsOf ops →
        delivered rs = payloadsIn fs (dataOf polls)) ∧
      (dataOf polls = wire fs → payloadsIn fs (dataOf polls) = (fs.map Prod.fst).flatten) := by
  have hnew : Reading fs (dataOf polls) ended [] (Tunnel.whole (.new send ⟨polls, ended⟩)).reader :=
    reading_new hclean
  have hsession := session_run hfs hcut hrooms hnew
  rw [← hrs] at hsession
  refine ⟨hsession.no_err, hsession.reading.got_prefix, hsession.at_end, ?_, ?_⟩
  · intro hpolls
    have hall := delivered_eq_of_polls hfs hcut hrooms hnew
      (Nat.lt_of_lt_of_eq hpolls (Nat.zero_add _).symm)
    rw [← hrs] at hall
    exact hall
  · intro hwhole
    have hw := whole_wire fs []
    rw [List.append_nil] at hw
    rw [hwhole, payloadsIn, hw, List.take_length]

/-- Three payloads, one of them empty; the stream is split after the first poll. -/
theorem grpc_read_side_three :
    delivered (Tunnel.run (.whole (.new ⟨[], true, [], 0⟩ ⟨[.data [0, 0, 0, 0, 5, 10, 3, 1],
      .pending, .data [2, 3, 0, 0, 0, 0, 2, 10, 0, 0, 0], .data [0, 0, 3, 10, 1, 4]], true⟩))
      [.pollRead 2, .intoSplit, .pollRead 2, .pollRead 2, .pollRead 1, .pollRead 9, .pollRead 9]).1 =
      [1, 2, 3, 4] := by
  have hfs : ∀ f ∈ [([1, 2, 3], [0, 0, 0, 0, 5, 10, 3, 1, 2, 3]), ([], [0, 0, 0, 0, 2, 10, 0]),
      ([4], [0, 0, 0, 0, 3, 10, 1, 4])], Framed f.1 f.2 := by
    simp only [List.forall_mem_cons]
    exact ⟨framed_short (by decide), framed_short (by decide), framed_short (by decide), nofun⟩
  exact (grpc_read_side hfs (by decide) (by decide) true ⟨[], true, [], 0⟩ (by simp) rfl).2.2.2.1
    (by decide)

end XrayRs.Grpc
