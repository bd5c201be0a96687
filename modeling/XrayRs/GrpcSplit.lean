import XrayRs.GrpcSend

/-! # Splitting the gRPC stream between writes

`into_split` (`transport/src/grpc.rs`) passes the read buffers on to the read half, but
of the writing side only the HTTP/2 stream.  A write is acknowledged while a part of its
frame still waits in `write_buf`, so the wire holds whole frames exactly where that
buffer is empty at the split (`split_keeps_writes_iff`). -/

namespace XrayRs.Grpc

/-- The payloads that are framed: `send` passes over an empty one. -/
def framed (payloads : List Bytes) : List Bytes := payloads.filter (· ≠ [])

/-- The wire holds the frames of the writes accepted before the split and then those of
the payloads sent after it, whole and in order. -/
def WholeFrames (accepted payloads : List Bytes) (wire : Bytes) : Prop :=
  ∃ frames more, accepted.mapM encodeHunk = .ok frames ∧
    (framed payloads).mapM encodeHunk = .ok more ∧ wire = frames.flatten ++ more.flatten

/-- A payload that was sent had a frame. -/
theorem exists_frame {payload : Bytes} (hpayload : payload ≠ []) {me me' : GrpcWriteHalf}
    (h : me.sendPayload payload = (.ready (), me')) :
    ∃ frame, encodeHunk payload = .ok frame ∧
      me'.send.handedOver = me.send.handedOver ++ frame := by
  cases hheader : grpcHeader payload.length with
  | error e =>
    rw [GrpcWriteHalf.sendPayload, if_neg hpayload, hheader] at h
    cases h
  | ok header =>
    have hframe : encodeHunk payload = .ok (header ++ payload) := by
      rw [encodeHunk, hheader]
      rfl
    obtain ⟨part, -, hsent, hall⟩ := sends_sendPayload hpayload hframe me
    rw [h] at hsent hall
    obtain rfl := hall rfl
    exact ⟨_, hframe, hsent⟩

/-- **What a write half that returned has handed over**: the frames of its payloads. -/
theorem sendPayloads_ready {payloads : List Bytes} {me half : GrpcWriteHalf}
    (h : me.sendPayloads payloads = (.ready (), half)) :
    ∃ more, (framed payloads).mapM encodeHunk = .ok more ∧
      half.send.handedOver = me.send.handedOver ++ more.flatten := by
  induction payloads generalizing me with
  | nil =>
    cases h
    exact ⟨[], rfl, (List.append_nil _).symm⟩
  | cons payload payloads ih =>
    unfold GrpcWriteHalf.sendPayloads at h
    rcases hr : me.sendPayload payload with ⟨r, me₁⟩
    rw [hr] at h
    cases r with
    | pending => cases h
    | err e => cases h
    | ready u =>
      obtain ⟨more, hmore, hsent⟩ := ih h
      by_cases hpayload : payload = []
      · have hsame : me.sendPayload payload = (.ready (), me) := if_pos hpayload
        rw [hsame] at hr
        cases hr
        refine ⟨more, ?_, hsent⟩
        rw [framed, List.filter_cons_of_neg (by simp [hpayload])]
        exact hmore
      · obtain ⟨frame, hframe, hfirst⟩ := exists_frame hpayload hr
        refine ⟨frame :: more, ?_, ?_⟩
        · rw [framed, List.filter_cons_of_pos (by simp [hpayload]), List.mapM_cons, hframe]
          rw [framed] at hmore
          rw [hmore]
          rfl
        · rw [hsent, hfirst, List.flatten_cons, List.append_assoc]

/-- **A split keeps the accepted writes exactly where nothing is buffered.**  For any
calls on the stream that did not fail, under any capacities, a split after them and any
payloads sent afterwards. -/
theorem split_keeps_writes_iff {windows : List Window} {acceptsTrailers : Bool}
    {recv : RecvStream} {ops : List WriteOp} {accepted payloads : List Bytes} {me : GrpcStream}
    {half : GrpcWriteHalf}
    (hcalls : (GrpcStream.new (.new windows acceptsTrailers) recv).calls ops = some (accepted, me))
    (hsent : me.intoSplit.2.sendPayloads payloads = (.ready (), half)) :
    WholeFrames accepted payloads half.send.handedOver ↔ me.writeBuf = [] := by
  have hwriting := (writing_new windows acceptsTrailers recv).calls hcalls
  rw [List.nil_append] at hwriting
  obtain ⟨frames, hframes, hbytes⟩ := hwriting.bytes
  obtain ⟨more, hmore, hwire⟩ := sendPayloads_ready hsent
  have hsplit : me.intoSplit.2.send.handedOver = me.send.handedOver := rfl
  rw [hsplit] at hwire
  constructor
  · rintro ⟨frames', more', hframes', hmore', heq⟩
    obtain rfl := Except.ok.inj (hframes.symm.trans hframes')
    obtain rfl := Except.ok.inj (hmore.symm.trans hmore')
    rw [hwire, ← hbytes, List.append_assoc, List.append_cancel_left_eq] at heq
    have hlength := congrArg List.length heq
    rw [List.length_append] at hlength
    exact List.length_eq_zero_iff.mp (by omega)
  · intro hempty
    rw [hempty, List.append_nil] at hbytes
    exact ⟨frames, more, hframes, hmore, by rw [hwire, hbytes]⟩

/-- A write that the capacity takes whole, then the split and another payload. -/
theorem split_keeps_writes_iff_whole :
    ∃ me half, (GrpcStream.new (.new [⟨8, .pending, true⟩, ⟨7, .pending, true⟩,
        ⟨1, .pending, true⟩] true) ⟨[], false⟩).calls [.write [7]] = some ([[7]], me) ∧
      me.intoSplit.2.sendPayloads [[8]] = (.ready (), half) ∧
      WholeFrames [[7]] [[8]] half.send.handedOver := by
  have hcalls : (GrpcStream.new (.new [⟨8, .pending, true⟩, ⟨7, .pending, true⟩,
      ⟨1, .pending, true⟩] true) ⟨[], false⟩).calls [.write [7]] =
      some ([[7]], ⟨⟨⟨[], false⟩, [], [], false⟩, ⟨[⟨7, .pending, true⟩, ⟨1, .pending, true⟩],
        true, [[0, 0, 0, 0, 3, 10, 1, 7]], 0⟩, [], false⟩) := by
    decide +kernel
  have hsent : GrpcWriteHalf.sendPayloads ⟨⟨[⟨7, .pending, true⟩, ⟨1, .pending, true⟩],
      true, [[0, 0, 0, 0, 3, 10, 1, 7]], 0⟩⟩ [[8]] =
      (.ready (), ⟨⟨[], true, [[0, 0, 0, 0, 3, 10, 1, 7], [0, 0, 0, 0, 3, 10, 1], [8]], 0⟩⟩) := by
    decide +kernel
  exact ⟨_, _, hcalls, hsent, (split_keeps_writes_iff hcalls hsent).mpr rfl⟩

/-- **A hunk cut in the middle**: three bytes of an acknowledged write are handed over,
the other five are lost with the buffer, and the next frame begins behind the three. -/
theorem split_loses_write :
    ∃ me half, (GrpcStream.new (.new [⟨3, .pending, true⟩, ⟨0, .pending, true⟩,
        ⟨7, .pending, true⟩, ⟨1, .pending, true⟩] true) ⟨[], false⟩).calls [.write [7]] =
        some ([[7]], me) ∧
      me.intoSplit.2.sendPayloads [[8]] = (.ready (), half) ∧
      half.send.handedOver = [0, 0, 0, 0, 0, 0, 0, 3, 10, 1, 8] ∧
      ¬ WholeFrames [[7]] [[8]] half.send.handedOver := by
  have hcalls : (GrpcStream.new (.new [⟨3, .pending, true⟩, ⟨0, .pending, true⟩,
      ⟨7, .pending, true⟩, ⟨1, .pending, true⟩] true) ⟨[], false⟩).calls [.write [7]] =
      some ([[7]], ⟨⟨⟨[], false⟩, [], [], false⟩, ⟨[⟨7, .pending, true⟩, ⟨1, .pending, true⟩],
        true, [[0, 0, 0]], 0⟩, [0, 3, 10, 1, 7], false⟩) := by
    decide +kernel
  have hsent : GrpcWriteHalf.sendPayloads ⟨⟨[⟨7, .pending, true⟩, ⟨1, .pending, true⟩],
      true, [[0, 0, 0]], 0⟩⟩ [[8]] =
      (.ready (), ⟨⟨[], true, [[0, 0, 0], [0, 0, 0, 0, 3, 10, 1], [8]], 0⟩⟩) := by
    decide +kernel
  refine ⟨_, _, hcalls, hsent, rfl, ?_⟩
  rintro ⟨frames, more, hframes, hmore, hwire⟩
  have hseven : [[7]].mapM encodeHunk = .ok [[0, 0, 0, 0, 3, 10, 1, 7]] := by decide +kernel
  have height : (framed [[8]]).mapM encodeHunk = .ok [[0, 0, 0, 0, 3, 10, 1, 8]] := by
    decide +kernel
  obtain rfl := Except.ok.inj (hseven.symm.trans hframes)
  obtain rfl := Except.ok.inj (height.symm.trans hmore)
  exact absurd hwire (by decide)

end XrayRs.Grpc
