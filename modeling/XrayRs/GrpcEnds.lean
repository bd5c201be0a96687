import XrayRs.GrpcSplit

/-! # From one end of the gRPC tunnel to the other

The writing side of one `GrpcStream` and the reading side of another
(`transport/src/grpc.rs`), with an HTTP/2 stream between them that brings the DATA handed
over in order, cut anew in any way.

The writer makes any calls on the whole stream, and may then split it, with nothing
buffered, and send payloads through the write half.  Its frames are those that the reader
takes off, as long as no payload exceeds the reader's limit (`framed_of_fits`), so what is
delivered is what was written (`tunnel_delivers`). -/

namespace XrayRs.Grpc

open ByteWords FramedStream

/-! ## The payloads that the reader takes -/

/-- The payloads whose frame is not larger than `MAX_FRAME` allows: with the tag and four
bytes of length. -/
def Fits (payload : Bytes) : Prop := payload.length ≤ maxFrame - 5

theorem varintLen_mono {a b : Nat} (h : a ≤ b) : varintLen a ≤ varintLen b := by
  induction b using Nat.strongRecOn generalizing a with
  | ind b ih =>
    by_cases ha : a < 0x80
    · rw [varintLen, if_pos ha]
      exact varintLen_pos b
    · have hb : ¬ b < 0x80 := by omega
      rw [varintLen.eq_def a, if_neg ha, varintLen.eq_def b, if_neg hb]
      exact Nat.succ_le_succ (ih (b / 2 ^ 7) (Nat.div_lt_self (by omega) (by decide))
        (Nat.div_le_div_right h))

/-- **Which payloads fit**: those whose message is not larger than `MAX_FRAME`. -/
theorem fits_iff_message (payload : Bytes) :
    Fits payload ↔ (message payload).length ≤ maxFrame := by
  have hfour : varintLen (maxFrame - 5) = 4 := by simp [varintLen, maxFrame]
  have hfour' : varintLen (maxFrame - 4) = 4 := by simp [varintLen, maxFrame]
  rw [length_message, Fits]
  constructor
  · intro hfits
    have hlen := varintLen_mono hfits
    have hmax : maxFrame = 16777216 := rfl
    omega
  · intro hmessage
    by_contra hlarge
    have hlen := varintLen_mono (show maxFrame - 4 ≤ payload.length by omega)
    have hmax : maxFrame = 16777216 := rfl
    omega

theorem framed_of_fits {payload frame : Bytes} (hframe : encodeHunk payload = .ok frame)
    (hfits : Fits payload) : Framed payload frame := by
  refine ⟨hframe, ?_⟩
  rw [(encodeHunk_eq_ok hframe).2]
  have hlen := (fits_iff_message payload).mp hfits
  simp only [u32ToBe, List.cons_append, List.nil_append, List.length_cons]
  omega

/-- Whatever fits has a frame. -/
theorem exists_encodeHunk {payload : Bytes} (hfits : Fits payload) :
    ∃ frame, encodeHunk payload = .ok frame := by
  have hlen := (fits_iff_message payload).mp hfits
  rw [length_message] at hlen
  have hmax : maxFrame < 2 ^ 32 := by decide
  rw [encodeHunk, grpcHeader, if_pos (by omega)]
  exact ⟨_, rfl⟩

/-! ## The frames of a writer -/

/-- The payloads with their frames. -/
def hunks (payloads frames : List Bytes) : List (Bytes × Bytes) := payloads.zip frames

section Hunks

variable {payloads frames more : List Bytes}

theorem length_of_mapM (h : payloads.mapM encodeHunk = .ok frames) :
    payloads.length = frames.length := by
  induction payloads generalizing frames with
  | nil =>
    cases h
    rfl
  | cons payload payloads ih =>
    obtain ⟨frame, more, -, hmore, rfl⟩ := mapM_cons_eq_ok h
    rw [List.length_cons, List.length_cons, ih hmore]

theorem wire_hunks (h : payloads.mapM encodeHunk = .ok frames) :
    wire (hunks payloads frames) = frames.flatten := by
  rw [wire, hunks, List.map_snd_zip (length_of_mapM h).ge]

theorem payloads_hunks (h : payloads.mapM encodeHunk = .ok frames) :
    (hunks payloads frames).map Prod.fst = payloads :=
  List.map_fst_zip (length_of_mapM h).le

theorem framed_hunks (h : payloads.mapM encodeHunk = .ok frames)
    (hfits : ∀ payload ∈ payloads, Fits payload) :
    ∀ f ∈ hunks payloads frames, Framed f.1 f.2 := by
  induction payloads generalizing frames with
  | nil => nofun
  | cons payload payloads ih =>
    obtain ⟨frame, more, hframe, hmore, rfl⟩ := mapM_cons_eq_ok h
    obtain ⟨hfirst, hrest⟩ := List.forall_mem_cons.mp hfits
    rw [hunks, List.zip_cons_cons, List.forall_mem_cons]
    exact ⟨framed_of_fits hframe hfirst, ih hmore hrest⟩

/-- Payloads that fit have frames. -/
theorem exists_mapM (hfits : ∀ payload ∈ payloads, Fits payload) :
    ∃ frames, payloads.mapM encodeHunk = .ok frames := by
  induction payloads with
  | nil => exact ⟨[], rfl⟩
  | cons payload payloads ih =>
    obtain ⟨hfirst, hrest⟩ := List.forall_mem_cons.mp hfits
    obtain ⟨frame, hframe⟩ := exists_encodeHunk hfirst
    obtain ⟨frames, hframes⟩ := ih hrest
    refine ⟨frame :: frames, ?_⟩
    rw [List.mapM_cons, hframe, hframes]
    rfl

end Hunks

/-! ## The writer -/

/-- Empty payloads are passed over. -/
theorem sendPayloads_framed (me : GrpcWriteHalf) (payloads : List Bytes) :
    me.sendPayloads payloads = me.sendPayloads (framed payloads) := by
  induction payloads generalizing me with
  | nil => rfl
  | cons payload payloads ih =>
    by_cases hpayload : payload = []
    · have hsame : me.sendPayload payload = (.ready (), me) := if_pos hpayload
      rw [framed, List.filter_cons_of_neg (by simp [hpayload]), GrpcWriteHalf.sendPayloads, hsame]
      exact ih me
    · rw [framed, List.filter_cons_of_pos (by simp [hpayload]), GrpcWriteHalf.sendPayloads,
        GrpcWriteHalf.sendPayloads]
      rcases me.sendPayload payload with ⟨r, me₁⟩
      cases r with
      | ready u => exact ih me₁
      | pending | err e => rfl

theorem flatten_framed (payloads : List Bytes) : (framed payloads).flatten = payloads.flatten := by
  induction payloads with
  | nil => rfl
  | cons payload payloads ih =>
    by_cases hpayload : payload = []
    · rw [framed, List.filter_cons_of_neg (by simp [hpayload]), List.flatten_cons, hpayload]
      exact ih
    · rw [framed, List.filter_cons_of_pos (by simp [hpayload]), List.flatten_cons,
        List.flatten_cons]
      exact congrArg (payload ++ ·) ih

/-- The payloads of a writer: those of its accepted writes and of its sends. -/
def written (accepted payloads : List Bytes) : List Bytes := accepted ++ framed payloads

theorem flatten_written (accepted payloads : List Bytes) :
    (written accepted payloads).flatten = (accepted ++ payloads).flatten := by
  rw [written, List.flatten_append, flatten_framed, List.flatten_append]

/-- **What a writer has handed over**: the frames of what it has written from the front,
and all of them once nothing is buffered and its sends have returned. -/
theorem handedOver_written {windows : List Window} {acceptsTrailers : Bool} {recv : RecvStream}
    {ops : List WriteOp} {accepted payloads frames : List Bytes} {me : GrpcStream}
    (hcalls : (GrpcStream.new (.new windows acceptsTrailers) recv).calls ops = some (accepted, me))
    (hsplit : framed payloads ≠ [] → me.writeBuf = [])
    (hframes : (written accepted payloads).mapM encodeHunk = .ok frames) :
    (me.intoSplit.2.sendPayloads payloads).2.send.handedOver <+: frames.flatten ∧
      (me.writeBuf = [] → (me.intoSplit.2.sendPayloads payloads).1 = .ready () →
        (me.intoSplit.2.sendPayloads payloads).2.send.handedOver = frames.flatten) := by
  have hwriting := (writing_new windows acceptsTrailers recv).calls hcalls
  rw [List.nil_append] at hwriting
  obtain ⟨first, hfirst, hbytes⟩ := hwriting.bytes
  have hsent : me.intoSplit.2.send.handedOver = me.send.handedOver := rfl
  rw [sendPayloads_framed]
  rw [written, List.mapM_append, hfirst] at hframes
  cases hmore : (framed payloads).mapM encodeHunk with
  | error e =>
    rw [hmore] at hframes
    cases hframes
  | ok more =>
    rw [hmore] at hframes
    obtain rfl : first ++ more = frames := Except.ok.inj hframes
    obtain ⟨part, hpart, hover, hall⟩ := sends_sendPayloads (fun p hp => by
      simpa using (List.mem_filter.mp hp).2) hmore me.intoSplit.2
    rw [hsent] at hover
    rw [hover, List.flatten_append, ← hbytes]
    constructor
    · by_cases hnothing : framed payloads = []
      · rw [hnothing] at hmore
        cases hmore
        obtain rfl := List.prefix_nil.mp hpart
        rw [List.append_nil]
        exact (List.prefix_append _ _).trans (List.prefix_append _ _)
      · rw [hsplit hnothing, List.append_nil]
        exact (List.prefix_append_right_inj _).mpr hpart
    · intro hempty hready
      rw [hempty, List.append_nil, hall hready]

/-! ## Both ends -/

/-- **From end to end.**  A writer makes any calls that do not fail, under any capacities,
and then any sends through its write half, split off with nothing buffered.  Of the bytes
handed over the reader's stream has brought a part, cut in any way, and the reader polls
with buffers of any sizes and splits where it likes.  If no payload exceeds `MAX_FRAME`,
no poll fails and what is delivered is what was written, from the front; all of it is
delivered by the time the end is told and after enough polls, where the writer has handed
everything over and it has arrived. -/
theorem tunnel_delivers {windows : List Window} {acceptsTrailers : Bool} {recv : RecvStream}
    {ops : List WriteOp} {accepted payloads : List Bytes} {me : GrpcStream} {r : Poll Unit}
    {half : GrpcWriteHalf}
    (hcalls : (GrpcStream.new (.new windows acceptsTrailers) recv).calls ops = some (accepted, me))
    (hsplit : framed payloads ≠ [] → me.writeBuf = [])
    (hsends : me.intoSplit.2.sendPayloads payloads = (r, half))
    (hfits : ∀ payload ∈ accepted ++ payloads, Fits payload)
    {polls : List PollData} (hclean : .failed ∉ polls)
    (harrived : dataOf polls <+: half.send.handedOver) (ended : Bool) (send : SendStream)
    {reads : List ReadOp} (hrooms : ∀ room, .pollRead room ∈ reads → 0 < room)
    {rs : List PollRead} (hrs : rs = (Tunnel.run (.whole (.new send ⟨polls, ended⟩)) reads).1) :
    (∀ e, .err e ∉ rs) ∧ delivered rs <+: (accepted ++ payloads).flatten ∧
      (me.writeBuf = [] → r = .ready () → dataOf polls = half.send.handedOver →
        (.ready [] ∈ rs ∨ (accepted ++ payloads).flatten.length + waits polls < pollsOf reads) →
        delivered rs = (accepted ++ payloads).flatten) := by
  have hfits' : ∀ payload ∈ written accepted payloads, Fits payload := by
    intro payload hmem
    rcases List.mem_append.mp hmem with hmem | hmem
    · exact hfits payload (List.mem_append_left _ hmem)
    · exact hfits payload (List.mem_append_right _ (List.mem_filter.mp hmem).1)
  obtain ⟨frames, hframes⟩ := exists_mapM hfits'
  have hframed := framed_hunks hframes hfits'
  obtain ⟨hover, hall⟩ := handedOver_written hcalls hsplit hframes
  rw [hsends] at hover hall
  have hcut : dataOf polls <+: wire (hunks (written accepted payloads) frames) := by
    rw [wire_hunks hframes]
    exact harrived.trans hover
  have hnew : Reading (hunks (written accepted payloads) frames) (dataOf polls) ended []
      (Tunnel.whole (.new send ⟨polls, ended⟩)).reader := reading_new hclean
  have hsession := session_run hframed hcut hrooms hnew
  have henough := delivered_eq_of_polls hframed hcut hrooms hnew
  rw [← hrs] at hsession henough
  rw [List.nil_append] at henough
  have hpayloads : payloadsIn (hunks (written accepted payloads) frames) (dataOf polls) <+:
      (accepted ++ payloads).flatten := by
    obtain ⟨rest, hrest⟩ := List.take_prefix
      (whole (hunks (written accepted payloads) frames) (dataOf polls)).1
      (hunks (written accepted payloads) frames)
    have hall := congrArg (fun fs => (fs.map Prod.fst).flatten) hrest
    rw [List.map_append, List.flatten_append, payloads_hunks hframes, flatten_written] at hall
    exact ⟨_, hall⟩
  refine ⟨hsession.no_err, hsession.reading.got_prefix.trans hpayloads, ?_⟩
  intro hempty hready harrived hend
  -- what has arrived are all frames, whole
  have hwhole : payloadsIn (hunks (written accepted payloads) frames) (dataOf polls) =
      (accepted ++ payloads).flatten := by
    have hw := whole_wire (hunks (written accepted payloads) frames) []
    rw [List.append_nil, wire_hunks hframes, ← hall hempty hready, ← harrived] at hw
    rw [payloadsIn, hw, List.take_length, payloads_hunks hframes, flatten_written]
  rcases hend with hend | hpolls
  · obtain ⟨before, after, heq⟩ := List.append_of_mem hend
    obtain ⟨hbefore, -⟩ := hsession.at_end before after heq
    have hdelivered := hsession.reading.got_prefix.trans hpayloads
    rw [List.nil_append, hwhole] at hbefore
    refine hdelivered.eq_of_length_le ?_
    rw [← hbefore, heq]
    simp [delivered]
  · rw [← hwhole] at hpolls ⊢
    exact henough ((Nat.zero_add _).symm ▸ hpolls)

/-- A write, a payload through the write half, and their DATA cut inside both frames. -/
theorem tunnel_delivers_cut :
    delivered (Tunnel.run (.whole (.new ⟨[], true, [], 0⟩ ⟨[.data [0, 0, 0], .pending,
      .data [0, 3, 10, 1, 7, 0, 0, 0, 0, 3, 10], .data [1, 8]], true⟩))
      [.pollRead 4, .pollRead 1, .intoSplit, .pollRead 9, .pollRead 1]).1 = [7, 8] := by
  have hcalls : (GrpcStream.new (.new [⟨8, .pending, true⟩, ⟨7, .pending, true⟩,
      ⟨1, .pending, true⟩] true) ⟨[], false⟩).calls [.write [7]] =
      some ([[7]], ⟨⟨⟨[], false⟩, [], [], false⟩, ⟨[⟨7, .pending, true⟩, ⟨1, .pending, true⟩],
        true, [[0, 0, 0, 0, 3, 10, 1, 7]], 0⟩, [], false⟩) := by
    decide +kernel
  have hsends : GrpcWriteHalf.sendPayloads ⟨⟨[⟨7, .pending, true⟩, ⟨1, .pending, true⟩],
      true, [[0, 0, 0, 0, 3, 10, 1, 7]], 0⟩⟩ [[8]] =
      (.ready (), ⟨⟨[], true, [[0, 0, 0, 0, 3, 10, 1, 7], [0, 0, 0, 0, 3, 10, 1], [8]], 0⟩⟩) := by
    decide +kernel
  exact (tunnel_delivers hcalls (fun _ => rfl) hsends (by simp [Fits, maxFrame]) (by decide)
    (by decide) true ⟨[], true, [], 0⟩ (by simp) rfl).2.2 rfl rfl (by decide) (.inr (by decide))

end XrayRs.Grpc
