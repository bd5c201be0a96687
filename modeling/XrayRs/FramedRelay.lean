import XrayRs.StreamRelay

/-! # The framed relays

`relay_framed` (`proxy/src/io.rs`), for the Shadowsocks and VMess inbounds, and
`SsOutbound::relay` (`proxy/src/outbound.rs`) move chunks between a framed wire
and a `Link`.  One loop decodes chunks off the wire and sends them on the link,
the other receives chunks from the link and encodes them.  The two relays differ
in what surrounds the loops: `relay_framed` seeds the link with a leftover, skips
empty chunks and ends the wire with `finish` and a flush; `SsOutbound::relay`
reads a salt first and ends the wire with a shutdown.

Both run the loops under `select!`: the relay returns as soon as *one* loop does,
and the other is dropped where it stands.  Whether everything has been delivered
then depends on where that is (`framed_delivery_iff`).

The decoder is the list of chunks `read_chunk` gives before its clean end, and
the encoder is the log of the calls made to it. -/

namespace XrayRs

open BoundedChannel StepSystem

/-- Which relay it is. -/
inductive RelayKind
  | framed
  | ssOutbound
  deriving DecidableEq

/-- Where the decoding loop is. -/
inductive DecState
  | seeding (leftover : Bytes)
  | salting
  | reading
  | sending (chunk : Bytes)
  | ended
  | refused (chunk : Bytes)
  deriving DecidableEq

/-- The chunk taken in and not put on the link. -/
def DecState.held : DecState → List Bytes
  | .seeding b | .sending b | .refused b => [b]
  | .salting | .reading | .ended => []

/-- Where the encoding loop is.  In `closing` the wire's end is flushed or shut
down, with the result ignored. -/
inductive EncState
  | receiving
  | writing (data : Bytes)
  | finishing
  | closing
  deriving DecidableEq

/-- A completed call of the encoder. -/
inductive EncCall
  | chunk (data : Bytes)
  | finish
  deriving DecidableEq

/-- The calls that end the wire. -/
def RelayKind.ending : RelayKind → List EncCall
  | .framed => [.finish]
  | .ssOutbound => []

/-- Where the encoding loop goes when the link has ended. -/
def RelayKind.onLinkEnd : RelayKind → EncState
  | .framed => .finishing
  | .ssOutbound => .closing

/-- Whether a decoded chunk goes on the link. -/
def RelayKind.keeps : RelayKind → Bytes → Bool
  | .framed, chunk => !chunk.isEmpty
  | .ssOutbound, _ => true

/-- A framed relay: the two loops, the chunks the decoder has given and those it
will give, the calls of the encoder, the counter, and the result. -/
structure FramedRelay where
  kind : RelayKind
  dec : DecState
  enc : EncState
  produced : List Bytes
  toRead : List Bytes
  log : List EncCall
  counter : Option Counter
  result : Option (Except IoError Unit)

namespace FramedRelay

/-- `relay_framed`, up to its first suspension point. -/
def relayFramed (chunks : List Bytes) (counter : Option Counter) (leftover : Bytes) : FramedRelay :=
  ⟨.framed, if leftover = [] then .reading else .seeding leftover, .receiving, [], chunks, [],
    counter, none⟩

/-- The relay loops of `SsOutbound::relay`. -/
def ssOutboundRelay (chunks : List Bytes) : FramedRelay :=
  ⟨.ssOutbound, .salting, .receiving, [], chunks, [], none, none⟩

/-- `read_chunk` gave `chunk`. -/
def onRead (r : FramedRelay) (chunk : Bytes) (rest : List Bytes) : FramedRelay :=
  let r := { r with produced := r.produced ++ [chunk], toRead := rest }
  if r.kind.keeps chunk then
    { r with dec := .sending chunk, counter := r.counter.map (·.addUp (.ofNat chunk.length)) }
  else r

theorem onRead_result (r : FramedRelay) (chunk : Bytes) (rest : List Bytes) :
    (r.onRead chunk rest).result = r.result := by
  unfold onRead
  simp only
  split <;> rfl

/-- The link gave `data`. -/
def onRecv (r : FramedRelay) (data : Bytes) : FramedRelay :=
  { r with enc := .writing data, counter := r.counter.map (·.addDown (.ofNat data.length)) }

/-- `select!` takes the result of the loop that returned. -/
def ret (r : FramedRelay) (dec : DecState) (result : Except IoError Unit) : FramedRelay :=
  { r with dec := dec, result := some result }

end FramedRelay

/-- A framed relay with its half of the link. -/
structure FramedSide where
  relay : FramedRelay
  link : Link

/-- The moves of a framed relay and of the peer on its link. -/
inductive FramedAct
  | seed
  | seedFail
  | salt
  | read
  | readEnd
  | readError
  | send
  | sendFail
  | recv
  | recvEnd
  | wrote
  | writeError
  | finished
  | closed
  | timeout
  | peer
  deriving DecidableEq

/-- Neither an error nor a timeout. -/
def FramedAct.Clean : FramedAct → Prop
  | .readError | .writeError | .timeout => False
  | _ => True

/-- The moves by which a loop returns `Ok`, and the relay with it. -/
def FramedAct.Returns : FramedAct → Prop
  | .seedFail | .readEnd | .sendFail | .closed => True
  | _ => False

/-- One step of a framed relay, or of its peer. -/
inductive FramedStep : FramedSide → FramedAct → FramedSide → Prop
  | seed {r : FramedRelay} {l : Link} {b : Bytes} (hrun : r.result = none) (hdec : r.dec = .seeding b)
      (hroom : l.writer.CanSend) :
      FramedStep ⟨r, l⟩ .seed ⟨{ r with dec := .reading }, { l with writer := l.writer.push b }⟩
  | seedFail {r : FramedRelay} {l : Link} {b : Bytes} (hrun : r.result = none)
      (hdec : r.dec = .seeding b) (hgone : l.writer.Refuses) :
      FramedStep ⟨r, l⟩ .seedFail ⟨r.ret (.refused b) (.ok ()), l.drop⟩
  | salt {r : FramedRelay} {l : Link} (hrun : r.result = none) (hdec : r.dec = .salting) :
      FramedStep ⟨r, l⟩ .salt ⟨{ r with dec := .reading }, l⟩
  | read {r : FramedRelay} {l : Link} {chunk : Bytes} {rest : List Bytes} (hrun : r.result = none)
      (hdec : r.dec = .reading) (hchunk : r.toRead = chunk :: rest) :
      FramedStep ⟨r, l⟩ .read ⟨r.onRead chunk rest, l⟩
  | readEnd {r : FramedRelay} {l : Link} (hrun : r.result = none) (hdec : r.dec = .reading)
      (hend : r.toRead = []) :
      FramedStep ⟨r, l⟩ .readEnd ⟨r.ret .ended (.ok ()), l.drop⟩
  | readError {r : FramedRelay} {l : Link} (e : IoError) (hrun : r.result = none)
      (hdec : r.dec = .reading ∨ r.dec = .salting) :
      FramedStep ⟨r, l⟩ .readError ⟨r.ret r.dec (.error e), l.drop⟩
  | send {r : FramedRelay} {l : Link} {b : Bytes} (hrun : r.result = none) (hdec : r.dec = .sending b)
      (hroom : l.writer.CanSend) :
      FramedStep ⟨r, l⟩ .send ⟨{ r with dec := .reading }, { l with writer := l.writer.push b }⟩
  | sendFail {r : FramedRelay} {l : Link} {b : Bytes} (hrun : r.result = none)
      (hdec : r.dec = .sending b) (hgone : l.writer.Refuses) :
      FramedStep ⟨r, l⟩ .sendFail ⟨r.ret (.refused b) (.ok ()), l.drop⟩
  | recv {r : FramedRelay} {l : Link} {b : Bytes} {q : List Bytes} (hrun : r.result = none)
      (henc : r.enc = .receiving) (hchunk : l.reader.CanRecv b q) :
      FramedStep ⟨r, l⟩ .recv ⟨r.onRecv b, { l with reader := l.reader.pop b q }⟩
  | recvEnd {r : FramedRelay} {l : Link} (hrun : r.result = none) (henc : r.enc = .receiving)
      (hend : l.reader.Ended) :
      FramedStep ⟨r, l⟩ .recvEnd ⟨{ r with enc := r.kind.onLinkEnd }, l⟩
  | wrote {r : FramedRelay} {l : Link} {b : Bytes} (hrun : r.result = none)
      (henc : r.enc = .writing b) :
      FramedStep ⟨r, l⟩ .wrote ⟨{ r with enc := .receiving, log := r.log ++ [.chunk b] }, l⟩
  | writeError {r : FramedRelay} {l : Link} (e : IoError) (hrun : r.result = none)
      (henc : r.enc = .finishing ∨ ∃ b, r.enc = .writing b) :
      FramedStep ⟨r, l⟩ .writeError ⟨r.ret r.dec (.error e), l.drop⟩
  | finished {r : FramedRelay} {l : Link} (hrun : r.result = none) (henc : r.enc = .finishing) :
      FramedStep ⟨r, l⟩ .finished ⟨{ r with enc := .closing, log := r.log ++ [.finish] }, l⟩
  | closed {r : FramedRelay} {l : Link} (hrun : r.result = none) (henc : r.enc = .closing) :
      FramedStep ⟨r, l⟩ .closed ⟨r.ret r.dec (.ok ()), l.drop⟩
  | timeout {r : FramedRelay} {l : Link} (hrun : r.result = none) :
      FramedStep ⟨r, l⟩ .timeout ⟨r.ret r.dec (.error ⟨.timedOut, .msg "idle"⟩), l.drop⟩
  | peer {r : FramedRelay} {l l' : Link} :
      TxMove l.reader l'.reader → RxMove l.writer l'.writer → FramedStep ⟨r, l⟩ .peer ⟨r, l'⟩

/-! ## The account of the chunks -/

/-- The chunk of a call of the encoder. -/
def EncCall.chunkOf : EncCall → Option Bytes
  | .chunk data => some data
  | .finish => none

/-- The chunk that is being written. -/
def EncState.underway : EncState → List Bytes
  | .writing data => [data]
  | .receiving | .finishing | .closing => []

/-- The chunks that the encoder has written, and the one that it is writing. -/
def FramedRelay.encoded (r : FramedRelay) : List Bytes :=
  r.log.filterMap EncCall.chunkOf ++ r.enc.underway

/-- The chunks the uplink starts with: the leftover, if there is one. -/
def seedChunks (leftover : Bytes) : List Bytes := if leftover = [] then [] else [leftover]

/-- What the encoder has been told, by where the encoding loop is: `taken` are the
chunks that came off the link. -/
def EncState.Told (kind : RelayKind) (taken : List Bytes) (log : List EncCall) : EncState → Prop
  | .receiving => log = taken.map .chunk
  | .writing data => log ++ [.chunk data] = taken.map .chunk
  | .finishing => log = taken.map .chunk ∧ kind = .framed
  | .closing => log = taken.map .chunk ++ kind.ending

/-- **Where every chunk is.** -/
structure ChunkAccounts (leftover : Bytes) (s : FramedSide) : Prop where
  up_chunks : s.link.writer.sent ++ s.relay.dec.held =
    seedChunks leftover ++ s.relay.produced.filter s.relay.kind.keeps
  told : s.relay.enc.Told s.relay.kind s.link.reader.taken s.relay.log
  link_end : s.relay.enc = .finishing ∨ s.relay.enc = .closing → s.link.reader.Ended
  dropped : s.relay.result ≠ none → s.link.reader.rxAlive = false

section Accounts

variable {leftover : Bytes} {s t : FramedSide} {a : FramedAct}

theorem FramedStep.chunkAccounts (hs : ChunkAccounts leftover s) (h : FramedStep s a t) :
    ChunkAccounts leftover t := by
  obtain ⟨hup, htold, hend, hdrop⟩ := hs
  cases h with
  | seed hrun hdec _ | send hrun hdec _ =>
    simp only [hdec] at hup
    exact ⟨by simpa [DecState.held] using hup, htold, hend, hdrop⟩
  | seedFail _ hdec | sendFail _ hdec =>
    simp only [hdec] at hup
    exact ⟨hup, htold, hend, fun _ => rfl⟩
  | salt hrun hdec =>
    simp only [hdec] at hup
    exact ⟨hup, htold, hend, hdrop⟩
  | @read r l chunk rest hrun hdec _ =>
    simp only [hdec, DecState.held, List.append_nil] at hup
    unfold FramedRelay.onRead
    simp only
    split
    · next hkeep =>
      refine ⟨?_, htold, hend, hdrop⟩
      simp [DecState.held, hup, hkeep]
    · next hskip =>
      refine ⟨?_, htold, hend, hdrop⟩
      simp [hdec, DecState.held, hup, hskip]
  | readEnd _ hdec =>
    simp only [hdec] at hup
    exact ⟨hup, htold, hend, fun _ => rfl⟩
  | recv hrun henc _ =>
    simp only [henc, EncState.Told] at htold
    refine ⟨hup, ?_, by simp [FramedRelay.onRecv], hdrop⟩
    simp [EncState.Told, FramedRelay.onRecv, Chan.pop, htold]
  | @recvEnd r l hrun henc hended =>
    simp only [henc, EncState.Told] at htold
    refine ⟨hup, ?_, fun _ => hended, hdrop⟩
    cases hkind : r.kind with
    | framed => exact ⟨htold, rfl⟩
    | ssOutbound => simpa [EncState.Told, RelayKind.ending, RelayKind.onLinkEnd, hkind] using htold
  | wrote hrun henc =>
    simp only [henc, EncState.Told] at htold
    exact ⟨hup, htold, by simp, hdrop⟩
  | finished hrun henc =>
    simp only [henc, EncState.Told] at htold
    obtain ⟨hlog, hkind⟩ := htold
    refine ⟨hup, ?_, fun _ => hend (.inl henc), hdrop⟩
    simp [EncState.Told, hlog, hkind, RelayKind.ending]
  | readError | writeError | closed | timeout => exact ⟨hup, htold, hend, fun _ => rfl⟩
  | peer htx hrx =>
    refine ⟨?_, ?_, fun h => htx.ended (hend h), ?_⟩
    · rw [hrx.sent_eq]
      exact hup
    · rw [htx.taken_eq]
      exact htold
    · rw [htx.rxAlive_eq]
      exact hdrop

theorem filterMap_chunkOf (chunks : List Bytes) :
    (chunks.map EncCall.chunk).filterMap EncCall.chunkOf = chunks := by
  induction chunks with
  | nil => rfl
  | cons chunk chunks ih => exact congrArg (chunk :: ·) ih

/-- What is written or being written is what was taken off the link. -/
theorem ChunkAccounts.encoded_eq (hs : ChunkAccounts leftover s) :
    s.relay.encoded = s.link.reader.taken := by
  have htold := hs.told
  unfold FramedRelay.encoded
  cases henc : s.relay.enc with
  | receiving =>
    rw [henc] at htold
    rw [show s.relay.log = _ from htold, filterMap_chunkOf]
    exact List.append_nil _
  | writing data =>
    rw [henc] at htold
    rw [← filterMap_chunkOf s.link.reader.taken, ← show s.relay.log ++ [.chunk data] = _ from htold,
      List.filterMap_append]
    rfl
  | finishing =>
    rw [henc] at htold
    rw [htold.1, filterMap_chunkOf]
    exact List.append_nil _
  | closing =>
    rw [henc] at htold
    rw [show s.relay.log = _ from htold, List.filterMap_append, filterMap_chunkOf]
    cases s.relay.kind <;> exact (List.append_nil _).trans (List.append_nil _)

end Accounts

/-! ## When everything is delivered -/

/-- Which of the decoder's chunks are due when the relay returns: those that
`read_chunk` has given, or all that it gives before its clean end. -/
inductive Due
  | given
  | whole
  deriving DecidableEq

/-- The chunks that are due and have not been read. -/
def Due.unread : Due → FramedRelay → List Bytes
  | .given, _ => []
  | .whole, r => r.toRead

/-- **Everything is delivered**: the encoder was given every chunk put on the
relay's reader, in order, and then the end of the wire; the leftover and every
chunk of the decoder that is due (less the skipped empty ones) are on the link,
in order. -/
def Delivered (due : Due) (leftover : Bytes) (s : FramedSide) : Prop :=
  s.relay.log = s.link.reader.sent.map .chunk ++ s.relay.kind.ending ∧
    s.link.writer.sent = seedChunks leftover ++
      (s.relay.produced ++ due.unread s.relay).filter s.relay.kind.keeps

/-- **Neither loop has work in hand**: the decoding loop holds no chunk and none
that is due is left to read, and the encoding loop has seen the link end and
told the encoder so.  A relay that makes no call to end the wire may also be
waiting on an empty link. -/
def Settled (due : Due) (s : FramedSide) : Prop :=
  (s.relay.dec.held = [] ∧ (due.unread s.relay).filter s.relay.kind.keeps = []) ∧
    (s.relay.enc = .closing ∨
      s.relay.kind = .ssOutbound ∧ s.relay.enc = .receiving ∧ s.link.reader.queue = [])

section Delivery

variable {due : Due} {leftover : Bytes} {s t : FramedSide} {a : FramedAct}

theorem finish_notMem_map (chunks : List Bytes) : EncCall.finish ∉ chunks.map .chunk := by
  intro h
  obtain ⟨b, -, hb⟩ := List.mem_map.mp h
  cases hb

/-- The encoder has been told everything exactly when its loop has nothing in
hand. -/
theorem ChunkAccounts.told_all_iff (hs : ChunkAccounts leftover s) :
    s.relay.log = s.link.reader.sent.map .chunk ++ s.relay.kind.ending ↔
      s.relay.enc = .closing ∨
        s.relay.kind = .ssOutbound ∧ s.relay.enc = .receiving ∧ s.link.reader.queue = [] := by
  have htold := hs.told
  -- a log that is part of the chunks taken does not hold the call that ends a framed wire
  have hno : ∀ tail, s.relay.log ++ tail = s.link.reader.taken.map .chunk →
      s.relay.kind = .framed →
      s.relay.log ≠ s.link.reader.sent.map .chunk ++ s.relay.kind.ending := by
    intro tail hlog hkind heq
    apply finish_notMem_map s.link.reader.taken
    rw [← hlog, heq, hkind]
    simp [RelayKind.ending]
  cases henc : s.relay.enc with
  | closing =>
    rw [henc] at htold
    have hended := hs.link_end (.inr henc)
    refine ⟨fun _ => .inl rfl, fun _ => ?_⟩
    rw [← hended.taken_eq_sent]
    exact htold
  | finishing =>
    rw [henc] at htold
    obtain ⟨hlog, hkind⟩ := htold
    refine ⟨fun h => absurd h (hno [] (by rw [List.append_nil, hlog]) hkind), ?_⟩
    rintro (h | ⟨-, h, -⟩) <;> cases h
  | receiving =>
    rw [henc] at htold
    change s.relay.log = s.link.reader.taken.map .chunk at htold
    cases hkind : s.relay.kind with
    | framed =>
      refine ⟨fun h => absurd (hkind ▸ h) (hno [] (by rw [List.append_nil, htold]) hkind), ?_⟩
      rintro (h | ⟨h, -, -⟩) <;> cases h
    | ssOutbound =>
      rw [htold, Chan.sent, RelayKind.ending, List.append_nil, List.map_append]
      constructor
      · intro h
        refine .inr ⟨rfl, rfl, ?_⟩
        simpa using h
      · rintro (h | ⟨-, -, h⟩)
        · cases h
        · simp [h]
  | writing data =>
    rw [henc] at htold
    change s.relay.log ++ [.chunk data] = s.link.reader.taken.map .chunk at htold
    refine ⟨fun h => ?_, ?_⟩
    · exfalso
      cases hkind : s.relay.kind with
      | framed => exact hno _ htold hkind h
      | ssOutbound =>
        have hlen := congrArg List.length htold
        rw [h, hkind] at hlen
        simp [Chan.sent, RelayKind.ending] at hlen
    · rintro (h | ⟨-, h, -⟩) <;> cases h

/-- Everything that is due is on the link exactly when the decoding loop holds no
chunk and has none left to read. -/
theorem ChunkAccounts.put_all_iff (hs : ChunkAccounts leftover s) :
    s.link.writer.sent = seedChunks leftover ++
        (s.relay.produced ++ due.unread s.relay).filter s.relay.kind.keeps ↔
      s.relay.dec.held = [] ∧ (due.unread s.relay).filter s.relay.kind.keeps = [] := by
  rw [List.filter_append, ← List.append_assoc, ← hs.up_chunks, List.append_assoc,
    List.self_eq_append_right, List.append_eq_nil_iff]

theorem ChunkAccounts.delivered_iff (hs : ChunkAccounts leftover s) :
    Delivered due leftover s ↔ Settled due s := by
  unfold Delivered Settled
  rw [hs.told_all_iff, hs.put_all_iff]
  exact and_comm

/-- A relay that has returned `Ok` has delivered everything. -/
def DeliversOnReturn (due : Due) (leftover : Bytes) (s : FramedSide) : Prop :=
  s.relay.result = some (.ok ()) → Delivered due leftover s

/-- A loop returns in this step only when neither has work in hand. -/
def ReturnsSettled (due : Due) (s : FramedSide) (a : FramedAct) : Prop := a.Returns → Settled due s

/-- **One step.**  It leads to undelivered chunks in a returned relay exactly when
it is the return of a loop while there is work in hand. -/
theorem FramedStep.deliversOnReturn (hs : ChunkAccounts leftover s)
    (hdone : DeliversOnReturn due leftover s) (h : FramedStep s a t) :
    DeliversOnReturn due leftover t ↔ ReturnsSettled due s a := by
  have ht := FramedStep.chunkAccounts hs h
  -- where a loop returns, nothing else changes
  have hreturn : t.relay.result = some (.ok ()) → (Settled due t ↔ Settled due s) → a.Returns →
      (DeliversOnReturn due leftover t ↔ ReturnsSettled due s a) := by
    intro hok hsettled ha
    unfold DeliversOnReturn ReturnsSettled
    rw [ht.delivered_iff, hsettled]
    exact ⟨fun h _ => h hok, fun h _ => h ha⟩
  have hquiet : t.relay.result ≠ some (.ok ()) → ¬ a.Returns →
      (DeliversOnReturn due leftover t ↔ ReturnsSettled due s a) :=
    fun hres ha => ⟨fun _ h => absurd h ha, fun _ h => absurd h hres⟩
  cases h with
  | seedFail hrun hdec | sendFail hrun hdec | readEnd hrun hdec =>
    refine hreturn rfl ?_ trivial
    unfold Settled
    rw [hdec]
    cases due <;> exact Iff.rfl
  | closed => exact hreturn rfl (by cases due <;> exact Iff.rfl) trivial
  | readError | writeError | timeout => exact hquiet nofun id
  | seed hrun | salt hrun | send hrun | recv hrun | recvEnd hrun | wrote hrun | finished hrun =>
    exact hquiet (fun h => absurd (hrun.symm.trans h) nofun) id
  | @read r l chunk rest hrun =>
    refine hquiet (fun h => ?_) id
    exact absurd ((hrun.symm.trans (r.onRead_result chunk rest).symm).trans h) nofun
  | peer htx hrx =>
    refine ⟨fun _ => False.elim, fun _ hok => ?_⟩
    obtain ⟨htold, hput⟩ := hdone hok
    refine ⟨?_, hrx.sent_eq.trans hput⟩
    have hgone := hs.dropped (by rw [show _ = some (Except.ok ()) from hok]; nofun)
    rw [htx.sent_eq_of_dropped hgone]
    exact htold

theorem relayFramed_chunkAccounts (chunks : List Bytes) (counter : Option Counter) (leftover : Bytes)
    (capacity : Nat) :
    ChunkAccounts leftover ⟨.relayFramed chunks counter leftover, .new capacity⟩ := by
  refine ⟨?_, rfl, nofun, fun h => absurd rfl h⟩
  unfold FramedRelay.relayFramed seedChunks
  simp only
  split <;> rfl

theorem ssOutboundRelay_chunkAccounts (chunks : List Bytes) (capacity : Nat) :
    ChunkAccounts [] ⟨.ssOutboundRelay chunks, .new capacity⟩ :=
  ⟨rfl, rfl, nofun, fun h => absurd rfl h⟩

/-- **Delivery in the framed relays.**  In every run of `relay_framed`, and of
`SsOutbound::relay`, for every interleaving and against every peer: whenever the
relay has returned `Ok` everything is delivered, exactly when no loop returns
while there is work in hand.  That is so whether the decoder's chunks that count
are those it has given or all it gives before its end. -/
theorem framed_delivery_iff (due : Due) (capacity : Nat) (chunks : List Bytes) :
    (∀ (counter : Option Counter) (leftover : Bytes) (trace : List (FramedAct × FramedSide))
      (s : FramedSide), Run FramedStep ⟨.relayFramed chunks counter leftover, .new capacity⟩ trace s →
        ((∀ p ∈ trace, DeliversOnReturn due leftover p.2) ↔
          Meets (ReturnsSettled due) ⟨.relayFramed chunks counter leftover, .new capacity⟩ trace)) ∧
    (∀ (trace : List (FramedAct × FramedSide)) (s : FramedSide),
      Run FramedStep ⟨.ssOutboundRelay chunks, .new capacity⟩ trace s →
        ((∀ p ∈ trace, DeliversOnReturn due [] p.2) ↔
          Meets (ReturnsSettled due) ⟨.ssOutboundRelay chunks, .new capacity⟩ trace)) := by
  refine ⟨fun counter leftover trace s hrun => ?_, fun trace s hrun => ?_⟩
  · exact hrun.forall_holds_iff (relayFramed_chunkAccounts chunks counter leftover capacity) nofun
      (fun _ _ _ => FramedStep.chunkAccounts) (fun _ _ _ => FramedStep.deliversOnReturn)
  · exact hrun.forall_holds_iff (ssOutboundRelay_chunkAccounts chunks capacity) nofun
      (fun _ _ _ => FramedStep.chunkAccounts) (fun _ _ _ => FramedStep.deliversOnReturn)

/-- A client that has sent its request and closes its direction: the outbound puts
the answer on the link and drops its sender, `read_chunk` gives the clean end,
`relay_framed` returns `Ok`, and the answer is lost, without so much as a
`finish`. -/
theorem framed_downlink_lost :
    ∃ trace s, Run FramedStep ⟨.relayFramed [] none [1], .new 32⟩ trace s ∧
      (∀ p ∈ trace, p.1.Clean) ∧ s.relay.result = some (.ok ()) ∧
      s.link.reader.sent = [[7]] ∧ s.link.reader.txAlive = false ∧ s.relay.log = [] ∧
      ∀ due, ¬ Delivered due [1] s := by
  have hseed : FramedStep ⟨.relayFramed [] none [1], .new 32⟩ .seed _ :=
    .seed rfl rfl ⟨rfl, rfl, by decide⟩
  have hanswer : FramedStep ⟨.relayFramed [] none [], ⟨.new _ 32, (Chan.new _ 32).push [1]⟩⟩ .peer
      ⟨.relayFramed [] none [], ⟨(Chan.new _ 32).push [7], (Chan.new _ 32).push [1]⟩⟩ :=
    .peer (.push [7] ⟨rfl, rfl, by decide⟩) .stay
  have hdrop : FramedStep ⟨.relayFramed [] none [],
      ⟨(Chan.new _ 32).push [7], (Chan.new _ 32).push [1]⟩⟩ .peer
      ⟨.relayFramed [] none [], ⟨((Chan.new _ 32).push [7]).dropTx, (Chan.new _ 32).push [1]⟩⟩ :=
    .peer .drop .stay
  have hend : FramedStep ⟨.relayFramed [] none [],
      ⟨((Chan.new _ 32).push [7]).dropTx, (Chan.new _ 32).push [1]⟩⟩ .readEnd _ :=
    .readEnd rfl rfl rfl
  refine ⟨_, _, .cons hseed (.cons hanswer (.cons hdrop (.cons hend (.nil _)))), ?_, rfl, rfl, rfl,
    rfl, ?_⟩
  · simp [FramedAct.Clean]
  · rintro due ⟨htold, -⟩
    cases htold

end Delivery

end XrayRs
