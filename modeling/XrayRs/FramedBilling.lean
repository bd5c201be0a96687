import XrayRs.SessionBilling
import XrayRs.Shadowsocks

/-! # What the framed relay bills

`relay_framed` (`proxy/src/io.rs`) counts a chunk of the uplink when it has been read, and
one of the downlink when it has come off the link.  The leftover it starts with is put on
the link and not counted, where `relay_stream` counts it.

So whenever nothing is in hand, the down counter has grown by the bytes given to the
encoder, and the up counter by the bytes put on the link if and only if there was no
leftover (`framed_account`).  Under Shadowsocks the leftover is the payload that
the client has packed behind the target (`Ss.decode_packed`). -/

namespace XrayRs

open BoundedChannel ByteWords StepSystem

/-- No forwarding step is half done: no chunk of the uplink has been taken in and not put
on the link, and none of the downlink is being encoded. -/
def FramedSide.AtRest (s : FramedSide) : Prop := s.relay.dec.held = [] ∧ s.relay.enc.held = []

/-- The plaintext bytes given to the encoder. -/
def FramedSide.given (s : FramedSide) : Nat := (s.relay.log.map EncCall.data).flatten.length

/-- The account of what was forwarded is right: at rest, the up counter has grown by the
bytes put on the link and the down counter by those given to the encoder. -/
def FramedSide.Accounted (start : Counter) (s : FramedSide) : Prop :=
  s.AtRest → s.relay.counter = some (start.grown s.link.writer.sent.flatten.length s.given)

/-- Neither a refused send nor a failed write. -/
def FramedAct.Accepted : FramedAct → Prop
  | .seedFail | .sendFail | .writeError => False
  | _ => True

section Accounts

variable {start : Counter} {leftover : Bytes} {s : FramedSide}

/-- At rest, what is on the link is the leftover and what was counted. -/
theorem ChunkAccounts.sent_length (hs : ChunkAccounts leftover s) (hrest : s.relay.dec.held = []) :
    s.link.writer.sent.flatten.length =
      (s.relay.produced.filter s.relay.kind.keeps).flatten.length + leftover.length := by
  have hup := hs.up_chunks
  rw [hrest, List.append_nil] at hup
  rw [hup, List.flatten_append, List.length_append, Nat.add_comm]
  by_cases hempty : leftover = []
  · subst hempty
    rfl
  · simp [seedChunks, hempty]

/-- At rest, what was given to the encoder is what came off the link. -/
theorem ChunkAccounts.given_length (hs : ChunkAccounts leftover s) (hrest : s.relay.enc.held = []) :
    s.given = s.link.reader.taken.flatten.length := by
  have hdown := hs.sentBack_held
  rw [hrest] at hdown
  exact hdown

/-- The relay's account in every state of a run, with any chunks and any leftover and
against every peer: whenever no forwarding step is half done, the down counter has grown
by the bytes given to the encoder, and the up counter by the bytes put on the link exactly
if there was no leftover. -/
theorem framed_account {capacity : Nat} {chunks : List Bytes} {trace : List (FramedAct × FramedSide)}
    (hrun : Run FramedStep ⟨.relayFramed chunks (some start) leftover, .new capacity⟩ trace s)
    (hrest : s.AtRest) :
    ∃ counter, s.relay.counter = some counter ∧
      counter.down = start.down + .ofNat s.given ∧
      (counter.up = start.up + .ofNat s.link.writer.sent.flatten.length ↔
        UInt64.ofNat leftover.length = 0) := by
  have hacc : ChunkAccounts leftover s :=
    hrun.invariant (relayFramed_chunkAccounts chunks (some start) leftover capacity)
      fun _ _ _ hs h => FramedStep.chunkAccounts hs h
  have hcount : s.Counted start := by
    apply hrun.invariant _ fun _ _ _ hs h => FramedStep.counted h hs
    exact congrArg some start.grown_zero.symm
  refine ⟨_, hcount, ?_, ?_⟩
  · rw [hacc.given_length hrest.2]
    rfl
  · rw [hacc.sent_length hrest.1, UInt64.ofNat_add, ← UInt64.add_assoc]
    show start.up + _ = start.up + _ + _ ↔ _
    simp

/-- The leftover put on the link, and nothing else done. -/
theorem exists_seeded {capacity : Nat} (hcap : 0 < capacity) (chunks : List Bytes) (start : Counter)
    (leftover : Bytes) :
    ∃ trace s, Run FramedStep ⟨.relayFramed chunks (some start) leftover, .new capacity⟩ trace s ∧
      (∀ p ∈ trace, p.1.Accepted) ∧ s.AtRest := by
  by_cases hempty : leftover = []
  · subst hempty
    exact ⟨[], _, .nil _, by simp, rfl, rfl⟩
  · have hseed : (FramedRelay.relayFramed chunks (some start) leftover).dec = .seeding leftover :=
      if_neg hempty
    have hstep : FramedStep ⟨.relayFramed chunks (some start) leftover, .new capacity⟩ .seed _ :=
      .seed rfl hseed ⟨rfl, rfl, hcap⟩
    exact ⟨_, _, .cons hstep (.nil _), by simp [FramedAct.Accepted], rfl, rfl⟩

/-- **The framed relay's account.**  For any chunks and any leftover: in every run without
a refused send and without a failed write, the counters have grown by what was forwarded
whenever no forwarding step is half done, exactly if there is no leftover. -/
theorem framed_uplink_billed_iff (capacity : Nat) (hcap : 0 < capacity) (chunks : List Bytes)
    (start : Counter) (leftover : Bytes) :
    (∀ trace s, Run FramedStep ⟨.relayFramed chunks (some start) leftover, .new capacity⟩ trace s →
        (∀ p ∈ trace, p.1.Accepted) → s.Accounted start) ↔
      UInt64.ofNat leftover.length = 0 := by
  constructor
  · intro hall
    obtain ⟨trace, s, hrun, haccepted, hrest⟩ := exists_seeded hcap chunks start leftover
    obtain ⟨counter, hcounter, -, hup⟩ := framed_account hrun hrest
    have hgrown := hall trace s hrun haccepted hrest
    rw [hcounter] at hgrown
    exact hup.mp (congrArg Counter.up (Option.some.inj hgrown))
  · intro hempty trace s hrun _ hrest
    obtain ⟨counter, hcounter, hdown, hup⟩ := framed_account hrun hrest
    obtain ⟨up, down⟩ := counter
    obtain rfl : down = _ := hdown
    obtain rfl : up = _ := hup.mpr hempty
    exact hcounter

end Accounts

namespace Ss

variable {P : Primitives}

/-- The relay that `Shadowsocks::decode` spawns, on the chunks that `read_chunk` gives. -/
def Session.relay (s : Session) (chunks : List Bytes) (counter : Option Counter) : FramedSide :=
  ⟨.relayFramed chunks counter s.leftover, .new Mux.linkCapacity⟩

/-- **Payload behind the target** in the first chunk is the leftover of the session. -/
theorem decode_packed (hP : P.Lawful) (kind : AeadKind) (user : SsUser) (users : List SsUser)
    {salt : Bytes} (hsalt : salt.length = kind.keySize) (ssalt : Bytes) {target : Address}
    (htarget : target.Canonical) (port : UInt16) {payload : Bytes} (hlen : payload.length < 2 ^ 13)
    (rest : Bytes) :
    ∃ src s, decode P kind (user :: users) ssalt src = .ok s ∧ s.user = user ∧
      s.target = .tcp target port ∧ s.leftover = payload ∧ s.rest = rest := by
  obtain ⟨aead, haead, rfl⟩ := exists_deriveAead hP kind user.master salt
  obtain ⟨daead, hdaead, -⟩ := exists_deriveAead hP aead.kind user.master ssalt
  obtain ⟨addr, hwrite, hread⟩ := exists_write_read .SHADOWSOCKS port payload
    (fun d => htarget.length_le) (reread_canonical htarget)
  have hfits : (addr ++ payload).length ≤ maxChunk := by
    have haddr := (length_write_le hwrite).2
    rw [List.length_append]
    unfold maxChunk
    omega
  obtain ⟨lenct, payct, -, -, hlenct, hpayct, -, hopenLen, hopenPay⟩ :=
    writePiece_records hP .outbound aead (fits_new aead) hfits
  have hchunk : chunkLen (u16ToBe (.ofNat (addr ++ payload).length)) = .ok (addr ++ payload).length :=
    End.inbound.chunkLen_of_le hfits
  have hmatch : matchUser P aead.kind salt lenct (user :: users) =
      some (user, aead, (NonceCtr.new aead.kind.nonceSize).inc,
        u16ToBe (.ofNat (addr ++ payload).length)) := by
    simp only [matchUser, haead, hopenLen]
  refine ⟨salt ++ (lenct ++ (payct ++ rest)), ⟨user, .tcp target port, payload, aead,
    (NonceCtr.new aead.kind.nonceSize).inc.inc, rest, ssalt, daead, .new aead.kind.nonceSize⟩, ?_,
    rfl, rfl, rfl, rfl⟩
  simp only [decode, readExact_append hsalt, readExact_append hlenct, hmatch, hchunk,
    readExact_append hpayct, hopenPay, hread, hdaead]

/-- A Shadowsocks client that packs three bytes behind the target: they are put on the link,
and the up counter stays where it was. -/
theorem packed_payload_unbilled :
    ∃ users src session trace s,
      decode chachaPrimitives .chaCha20Poly1305 users (.replicate 32 2) src = .ok session ∧
        session.leftover = [7, 8, 9] ∧
        Run FramedStep (session.relay [] (some ⟨0, 0⟩)) trace s ∧ s.AtRest ∧
        s.link.writer.sent = [[7, 8, 9]] ∧ s.relay.counter = some ⟨0, 0⟩ ∧
        (∀ p ∈ trace, p.1.Accepted) ∧ ¬ s.Accounted ⟨0, 0⟩ := by
  have htarget : (Address.ip (.v4 #v[1, 1, 1, 1])).Canonical := trivial
  have hsalt : (List.replicate 32 1 : Bytes).length = AeadKind.chaCha20Poly1305.keySize := rfl
  obtain ⟨src, session, hdecode, -, -, hleft, -⟩ :=
    decode_packed chachaPrimitives_lawful .chaCha20Poly1305 ⟨.replicate 32 5, "user@example", 0⟩ []
      hsalt (.replicate 32 2) htarget 443 (show ([7, 8, 9] : Bytes).length < 2 ^ 13 by decide) []
  have hrelay : session.relay [] (some ⟨0, 0⟩) =
      ⟨.relayFramed [] (some ⟨0, 0⟩) [7, 8, 9], .new Mux.linkCapacity⟩ := by
    rw [Session.relay, hleft]
  have hrun : Run FramedStep ⟨.relayFramed [] (some ⟨0, 0⟩) [7, 8, 9], .new Mux.linkCapacity⟩ _ _ :=
    .cons (.seed rfl rfl ⟨rfl, rfl, by decide⟩) (.nil _)
  rw [← hrelay] at hrun
  refine ⟨_, src, session, _, _, hdecode, hleft, hrun, ⟨rfl, rfl⟩, rfl, rfl, ?_, fun h => ?_⟩
  · intro p hp
    obtain rfl := List.mem_singleton.mp hp
    trivial
  · exact absurd (h ⟨rfl, rfl⟩) (by decide)

end Ss

theorem framed_uplink_billed_chunk :
    (∀ trace s, Run FramedStep ⟨.relayFramed [[7], [], [8, 9]] (some ⟨0, 0⟩) [], .new 32⟩ trace s →
        (∀ p ∈ trace, p.1.Accepted) → s.Accounted ⟨0, 0⟩) ↔
      UInt64.ofNat ([] : Bytes).length = 0 :=
  framed_uplink_billed_iff 32 (by decide) [[7], [], [8, 9]] ⟨0, 0⟩ []

end XrayRs
