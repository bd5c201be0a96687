import XrayRs.FramedRelay
import XrayRs.Shadowsocks

/-! # A Shadowsocks hop

`SsOutbound::relay` of one node and `relay_framed` of the Shadowsocks inbound of another, with
the connection between them: two framed relays, each with its own link, its peer there and
its decoder, which reads what the other's encoder has written, as far as it has arrived.

Where the outbound's password is that of a user of the inbound, and no other user's key opens
what is sealed under it, the hop neither changes nor reorders nor invents bytes, in either
direction (`hop_faithful`): whatever the interleaving, however much of the wire has arrived,
whatever fails, and whatever the peers on both links do. -/

namespace XrayRs

open ByteWords FramedStream BoundedChannel StepSystem

/-! ## What a framed relay carries -/

/-- The decoder gives these chunks. -/
def FramedRelay.Reads (r : FramedRelay) (chunks : List Bytes) : Prop :=
  r.produced ++ r.toRead = chunks

/-- The decoding loop has read all of them, and holds none. -/
def FramedRelay.Drained (r : FramedRelay) : Prop := r.toRead = [] ∧ r.dec.held = []

section Carried

variable {leftover : Bytes} {chunks : List Bytes} {s t : FramedSide} {a : FramedAct}

theorem FramedStep.reads (hs : s.relay.Reads chunks) (h : FramedStep s a t) :
    t.relay.Reads chunks := by
  cases h with
  | @read r l chunk rest hrun hdec hchunk =>
    unfold FramedRelay.Reads at hs ⊢
    rw [← hs, show (⟨r, l⟩ : FramedSide).relay = r from rfl, hchunk]
    unfold FramedRelay.onRead
    dsimp only
    split <;> simp
  | seed | seedFail | salt | readEnd | readError | send | sendFail | recv | recvEnd | wrote
  | writeError | finished | closed | timeout | peer => exact hs

/-- The chunks that are skipped are empty. -/
theorem flatten_filter_keeps (kind : RelayKind) (chunks : List Bytes) :
    (chunks.filter kind.keeps).flatten = chunks.flatten := by
  cases kind with
  | framed => exact List.flatten_filter_not_isEmpty
  | ssOutbound => rw [show RelayKind.ssOutbound.keeps = fun _ => true from rfl, List.filter_true]

theorem ChunkAccounts.sent_held (hs : ChunkAccounts leftover s) :
    s.link.writer.sent.flatten ++ s.relay.dec.held.flatten =
      leftover ++ s.relay.produced.flatten := by
  have hseed : (seedChunks leftover).flatten = leftover := by
    unfold seedChunks
    split <;> simp_all
  have hup := congrArg List.flatten hs.up_chunks
  rwa [List.flatten_append, List.flatten_append, flatten_filter_keeps, hseed] at hup

/-- What the link has got is the front of what the decoder gives. -/
theorem ChunkAccounts.sent_prefix (hs : ChunkAccounts leftover s) (hread : s.relay.Reads chunks) :
    s.link.writer.sent.flatten <+: leftover ++ chunks.flatten := by
  have hsent : s.link.writer.sent.flatten <+: leftover ++ s.relay.produced.flatten :=
    ⟨_, hs.sent_held⟩
  rw [← hread, List.flatten_append, ← List.append_assoc]
  exact hsent.trans (List.prefix_append _ _)

theorem ChunkAccounts.sent_of_drained (hs : ChunkAccounts leftover s) (hread : s.relay.Reads chunks)
    (hdrained : s.relay.Drained) : s.link.writer.sent.flatten = leftover ++ chunks.flatten := by
  have hsent := hs.sent_held
  rw [hdrained.2, List.flatten_nil, List.append_nil] at hsent
  rw [hsent, ← hread, hdrained.1, List.append_nil]

/-- What the encoder was given is the front of what the link has. -/
theorem ChunkAccounts.encoded_prefix (hs : ChunkAccounts leftover s) :
    s.relay.encoded.flatten <+: s.link.reader.sent.flatten := by
  rw [hs.encoded_eq, Chan.sent, List.flatten_append]
  exact List.prefix_append _ _

theorem ChunkAccounts.encoded_of_empty (hs : ChunkAccounts leftover s)
    (hqueue : s.link.reader.queue = []) :
    s.relay.encoded.flatten = s.link.reader.sent.flatten := by
  rw [hs.encoded_eq, Chan.sent, hqueue, List.append_nil]

/-- Both accounts of a run of `relay_framed`. -/
theorem relayFramed_run {counter : Option Counter} {capacity : Nat}
    {trace : List (FramedAct × FramedSide)}
    (h : Run FramedStep ⟨.relayFramed chunks counter leftover, .new capacity⟩ trace s) :
    ChunkAccounts leftover s ∧ s.relay.Reads chunks :=
  ⟨h.invariant (relayFramed_chunkAccounts ..) fun _ _ _ => FramedStep.chunkAccounts,
    h.invariant (show (FramedRelay.relayFramed chunks counter leftover).Reads chunks from rfl)
      fun _ _ _ => FramedStep.reads⟩

/-- Both accounts of a run of `SsOutbound::relay`. -/
theorem ssOutboundRelay_run {capacity : Nat} {trace : List (FramedAct × FramedSide)}
    (h : Run FramedStep ⟨.ssOutboundRelay chunks, .new capacity⟩ trace s) :
    ChunkAccounts [] s ∧ s.relay.Reads chunks :=
  ⟨h.invariant (ssOutboundRelay_chunkAccounts ..) fun _ _ _ => FramedStep.chunkAccounts,
    h.invariant (show (FramedRelay.ssOutboundRelay chunks).Reads chunks from rfl)
      fun _ _ _ => FramedStep.reads⟩

end Carried

namespace Ss

variable {P : Primitives}

/-! ## Less of the wire -/

theorem readExact_more {n : Nat} {src a b : Bytes} (h : readExact n src = some (a, b))
    (more : Bytes) : readExact n (src ++ more) = some (a, b ++ more) := by
  obtain ⟨rfl, hlen⟩ := readExact_eq_some h
  rw [List.append_assoc, readExact_append hlen]

/-- A chunk is read alike whatever follows it. -/
theorem readChunkWith_local (lenOf : Bytes → Except IoError Nat) (openErr : Error → IoError)
    (aead : Aead) : Local (readChunkWith P lenOf openErr aead) := by
  intro nonce src x st rest more h
  unfold readChunkWith at h ⊢
  split at h
  · cases h
  next lenct afterLen hlenct =>
  split at h
  · cases h
  next lenpt hopenLen =>
  split at h
  · cases h
  next length hlength =>
  split at h
  · cases h
  next payct afterPay hpayct =>
  split at h
  · cases h
  next pay hopenPay =>
  cases h
  simp only [readExact_more hlenct, hopenLen, hlength, readExact_more hpayct, hopenPay]

/-- The request is decoded alike whatever follows it. -/
theorem decode_more {kind : AeadKind} {users : List SsUser} {ssalt src : Bytes} {s : Session}
    (h : decode P kind users ssalt src = .ok s) (more : Bytes) :
    decode P kind users ssalt (src ++ more) = .ok { s with rest := s.rest ++ more } := by
  unfold decode at h ⊢
  split at h
  · cases h
  next salt afterSalt hsalt =>
  split at h
  · cases h
  next lenct afterLen hlenct =>
  split at h
  · cases h
  next user aead nonce lenpt hmatch =>
  split at h
  · cases h
  next length hlength =>
  split at h
  · cases h
  next payct rest hpayct =>
  split at h
  · cases h
  next plain hopen =>
  split at h
  · cases h
  next address port leftover hread =>
  split at h
  · cases h
  next daead hdaead =>
  cases h
  simp only [readExact_more hsalt, readExact_more hlenct, hmatch, hlength, readExact_more hpayct,
    hopen, hread, hdaead]

/-- What a session reads off a part of the stream is the front of what it reads off it all. -/
theorem uplink_more {s : Session} {more : Bytes} {xs ys : List Bytes} {r r' : Except IoError Unit}
    (h : s.uplink P = some (xs, r))
    (h' : Session.uplink P { s with rest := s.rest ++ more } = some (ys, r')) : xs <+: ys := by
  obtain ⟨⟨xs', r₁⟩, hxs, heq⟩ := Option.map_eq_some_iff.mp h
  obtain ⟨⟨ys', r₂⟩, hys, heq'⟩ := Option.map_eq_some_iff.mp h'
  cases heq
  cases heq'
  exact (List.prefix_cons_inj _).mpr ((readChunkWith_local _ _ _).readLoop_append hxs hys)

theorem downlink_more {ob : SsOutbound} {src more : Bytes} {xs ys : List Bytes}
    {r r' : Except IoError Unit} (h : ob.downlink P src = some (xs, r))
    (h' : ob.downlink P (src ++ more) = some (ys, r')) : xs <+: ys := by
  unfold SsOutbound.downlink at h h'
  cases hsalt : readExact ob.kind.keySize src with
  | none =>
    rw [hsalt] at h
    cases h
    exact List.nil_prefix
  | some found =>
    obtain ⟨salt, rest⟩ := found
    rw [hsalt] at h
    rw [readExact_more hsalt] at h'
    dsimp only at h h'
    cases haead : deriveAead P ob.kind ob.master salt with
    | error e =>
      rw [haead] at h
      cases h
      exact List.nil_prefix
    | ok aead =>
      rw [haead] at h h'
      exact (readChunkWith_local _ _ _).readLoop_append h h'

/-! ## The hop -/

/-- **A Shadowsocks hop is faithful.**  Let a user of the inbound have the outbound's key,
let the keys of the table be apart under the salt, and let the target be canonical.  Let `a`
be any state that `SsOutbound::relay` reaches on its link, and `b` any state that
`relay_framed` reaches behind a Shadowsocks inbound which decodes what has arrived of the
bytes that `a` has written or is writing.  The inbound finds the target; what it has put on
its link is the front of what the link of `a` got, and all of it once all has arrived and no
chunk is left on the way.  Where the user that is found has the outbound's key, and the
decoder of `a` gives what is read off what has arrived of the bytes of `b`, the same holds
of what `a` has put on its link. -/
theorem hop_faithful (hP : P.Lawful) (ob : SsOutbound) {users : List SsUser} (salt ssalt : Bytes)
    (hsalt : salt.length = ob.kind.keySize) (hssalt : ssalt.length = ob.kind.keySize)
    (huser : ∃ u ∈ users, u.master = ob.master)
    (hapart : ∀ aead, deriveAead P ob.kind ob.master salt = .ok aead → KeysApart P users salt aead)
    {target : Address} (htarget : target.Canonical) (port : UInt16) {answers : List Bytes}
    {capacity : Nat} {trace : List (FramedAct × FramedSide)} {a : FramedSide}
    (ha : Run FramedStep ⟨.ssOutboundRelay answers, .new capacity⟩ trace a) :
    ∃ bytes, ob.uplink P salt (.tcp target port) a.relay.encoded = .ok bytes ∧
      ∀ {arrived : Bytes} {s : Session} {xs : List Bytes} {r : Except IoError Unit},
        arrived <+: bytes → decode P ob.kind users ssalt arrived = .ok s →
        s.uplink P = some (s.leftover :: xs, r) →
        ∀ {counter : Option Counter} {capacity' : Nat} {trace' : List (FramedAct × FramedSide)}
          {b : FramedSide},
          Run FramedStep ⟨.relayFramed xs counter s.leftover, .new capacity'⟩ trace' b →
            s.target = .tcp target port ∧
            b.link.writer.sent.flatten <+: a.link.reader.sent.flatten ∧
            (arrived = bytes → a.link.reader.queue = [] → b.relay.Drained →
              b.link.writer.sent.flatten = a.link.reader.sent.flatten) ∧
            (s.user.master = ob.master → ∃ answer, s.downlink P b.relay.encoded = .ok answer ∧
              ∀ {back : Bytes} {r' : Except IoError Unit}, back <+: answer →
                ob.downlink P back = some (answers, r') →
                a.link.writer.sent.flatten <+: b.link.reader.sent.flatten ∧
                (back = answer → b.link.reader.queue = [] → a.relay.Drained →
                  a.link.writer.sent.flatten = b.link.reader.sent.flatten)) := by
  obtain ⟨hacc, hreads⟩ := ssOutboundRelay_run ha
  obtain ⟨bytes, whole, huplink, hdecode, -, htgt, hwhole, hresp, hdnonce, hdaead⟩ :=
    decode_uplink hP ob ssalt hsalt huser hapart htarget port a.relay.encoded
  refine ⟨bytes, huplink, ?_⟩
  rintro arrived s xs r ⟨more, rfl⟩ hs hxs counter capacity' trace' b hb
  obtain ⟨hacc', hreads'⟩ := relayFramed_run hb
  -- the rest of the stream changes nothing about the session
  obtain rfl : { s with rest := s.rest ++ more } = whole :=
    Except.ok.inj ((decode_more hs more).symm.trans hdecode)
  have hfront : s.leftover :: xs <+: [] :: pieces a.relay.encoded := uplink_more hxs hwhole
  obtain ⟨hleftover, hpieces⟩ := List.cons_prefix_cons.mp hfront
  have hchunks : s.leftover ++ xs.flatten <+: a.relay.encoded.flatten := by
    rw [hleftover, List.nil_append, ← flatten_pieces a.relay.encoded]
    obtain ⟨rest, hrest⟩ := hpieces
    rw [← hrest, List.flatten_append]
    exact List.prefix_append _ _
  refine ⟨htgt, ?_, ?_, ?_⟩
  · exact (hacc'.sent_prefix hreads').trans (hchunks.trans hacc.encoded_prefix)
  · intro hall hqueue hdrained
    have hmore : more = [] := List.append_right_eq_self.mp hall.symm
    subst hmore
    rw [List.append_nil] at hwhole
    obtain ⟨-, rfl⟩ := List.cons.inj (congrArg Prod.fst (Option.some.inj (hxs.symm.trans hwhole)))
    rw [hacc'.sent_of_drained hreads' hdrained, hleftover, List.nil_append, flatten_pieces]
    exact hacc.encoded_of_empty hqueue
  · intro hmaster
    have hkey : deriveAead P ob.kind ob.master s.response = .ok s.daead := by
      rw [← hmaster, show s.response = ssalt from hresp]
      exact hdaead
    have hlength : s.response.length = ob.kind.keySize := by
      rw [show s.response = ssalt from hresp]
      exact hssalt
    obtain ⟨answer, hdownlink, hread⟩ :=
      downlink_downlink hP ob s hlength hkey hdnonce b.relay.encoded
    refine ⟨answer, hdownlink, ?_⟩
    rintro back r' ⟨more', rfl⟩ hback
    obtain ⟨rest, hrest⟩ := downlink_more hback hread
    have hflat : answers.flatten <+: b.relay.encoded.flatten := by
      rw [← flatten_pieces b.relay.encoded, ← hrest, List.flatten_append]
      exact List.prefix_append _ _
    constructor
    · exact (hacc.sent_prefix hreads).trans (hflat.trans hacc'.encoded_prefix)
    · intro hall hqueue hdrained
      have hmore : more' = [] := List.append_right_eq_self.mp hall.symm
      subst hmore
      rw [List.append_nil] at hread
      obtain rfl := congrArg Prod.fst (Option.some.inj (hback.symm.trans hread))
      rw [hacc.sent_of_drained hreads hdrained, List.nil_append, flatten_pieces]
      exact hacc'.encoded_of_empty hqueue

/-- Three bytes of the link are being written; whatever part of the link's other end the
inbound has filled is the front of them. -/
theorem hop_faithful_three : ∃ (bytes : Bytes) (s : Session) (xs : List Bytes),
    chachaOutbound.uplink chachaPrimitives (.replicate 32 1) (.tcp (.domain "a.b") 443)
      [[1, 2, 3]] = .ok bytes ∧
    decode chachaPrimitives .chaCha20Poly1305 twoTable (.replicate 32 2) bytes = .ok s ∧
    s.uplink chachaPrimitives = some (s.leftover :: xs, .ok ()) ∧
    ∀ (trace : List (FramedAct × FramedSide)) (b : FramedSide),
      Run FramedStep ⟨.relayFramed xs none s.leftover, .new 1⟩ trace b →
        b.link.writer.sent.flatten <+: [1, 2, 3] := by
  have hrun : Run FramedStep ⟨.ssOutboundRelay [], .new 1⟩
      [(.salt, _), (.peer, ⟨_, (Link.new 1).reader.push [1, 2, 3], (Link.new 1).writer⟩),
        (.recv, _)] _ :=
    .cons (.salt rfl rfl)
      (.cons (.peer (.push [1, 2, 3] ⟨rfl, rfl, Nat.zero_lt_one⟩) .stay)
        (.cons (.recv rfl rfl ⟨rfl, rfl⟩) (.nil _)))
  have hcanon : (Address.domain "a.b").Canonical :=
    ⟨by decide, by decide, by decide, by decide⟩
  have huser : ∃ u ∈ twoTable, u.master = chachaOutbound.master :=
    ⟨_, List.mem_cons_of_mem _ List.mem_cons_self, rfl⟩
  obtain ⟨bytes, huplink, hall⟩ := hop_faithful chachaPrimitives_lawful chachaOutbound
    (.replicate 32 1) (.replicate 32 2) rfl rfl huser keysApart_twoTable hcanon 443 hrun
  have hsalt : (List.replicate 32 1 : Bytes).length = chachaOutbound.kind.keySize := rfl
  obtain ⟨bytes', s, huplink', hdecode, -, -, hup, -⟩ := decode_uplink chachaPrimitives_lawful
    chachaOutbound (.replicate 32 2) hsalt huser keysApart_twoTable hcanon 443 [[1, 2, 3]]
  obtain rfl : bytes = bytes' := Except.ok.inj (huplink.symm.trans huplink')
  have hleft : s.leftover = [] := by
    obtain ⟨_, _, heq⟩ := Option.map_eq_some_iff.mp hup
    exact (List.cons.inj (congrArg Prod.fst heq)).1
  rw [← hleft] at hup
  refine ⟨bytes, s, _, huplink, hdecode, hup, fun trace b hb => ?_⟩
  exact (hall List.prefix_rfl hdecode hup hb).2.1

end Ss

end XrayRs
