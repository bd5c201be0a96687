import XrayRs.StreamRelay

/-! # Byte conservation of the unframed relay

A client behind `relay_stream` and a target behind `splice`, joined by
`pipe(n)`: the `World`.  Each side of a world run is a run of that side against a
peer (`WorldStep.inboundSide`, `WorldStep.outboundSide`), so the account of
`StreamRelay` holds on both sides, and the two accounts meet on the channels.

Nothing is lost or made up at any moment.  And a run in which nothing fails is
never stuck and uses up a weight, so it can be carried to the point where both
relays have returned; there every byte has arrived and is counted
(`bytes_conserved`). -/

namespace XrayRs

open BoundedChannel StepSystem

/-! ## One side -/

section Side

variable {leftover bytes : Bytes} {counter : Option Counter} {s : Side}

/-- What is on the link is a prefix of what the relay was given. -/
theorem Accounts.sent_prefix (h : Accounts leftover bytes counter s) :
    s.link.writer.sent.flatten <+: leftover ++ bytes := by
  refine (List.prefix_append _ s.relay.up.held).trans ?_
  rw [h.up_bytes, ← h.input, ← List.append_assoc]
  exact List.prefix_append _ _

/-- What is written is a prefix of what came off the link. -/
theorem Accounts.written_prefix_taken (h : Accounts leftover bytes counter s) :
    s.relay.conn.written <+: s.link.reader.taken.flatten :=
  h.down_bytes ▸ List.prefix_append _ _

theorem Accounts.written_prefix (h : Accounts leftover bytes counter s) :
    s.relay.conn.written <+: s.link.reader.sent.flatten := by
  refine h.written_prefix_taken.trans ?_
  rw [Chan.sent, List.flatten_append]
  exact List.prefix_append _ _

/-- Nothing has gone wrong on this side so far. -/
structure Unharmed (r : Relay) : Prop where
  not_refused : ∀ b, r.up ≠ .refused b
  not_seedRefused : ∀ b, r.up ≠ .seedRefused b
  live : r.cancelled = false
  no_error : ∀ e, r.result ≠ some (.error e)

theorem relayStream_unharmed (conn : Conn) (counter : Option Counter) (leftover : Bytes) :
    Unharmed (.relayStream conn counter leftover) := by
  unfold Relay.relayStream
  split <;> exact ⟨nofun, nofun, rfl, nofun⟩

/-- Clean steps do no harm. -/
theorem RelayStep.unharmed {r r' : Relay} {l l' : Link} {a : Act} (ha : a.Clean) (hr : Unharmed r)
    (h : RelayStep r l a r' l') : Unharmed r' := by
  obtain ⟨href, hseed, hlive, herr⟩ := hr
  cases h with
  | seed | send | read => exact ⟨nofun, nofun, hlive, herr⟩
  | readEof =>
    refine ⟨nofun, nofun, hlive, fun e => ?_⟩
    unfold Relay.upDone
    simp only
    split <;> simp
  | flushLast | flushDrain => exact ⟨href, hseed, hlive, nofun⟩
  | recv | recvEof | write | flushFirst => exact ⟨href, hseed, hlive, herr⟩
  | seedFail | readError | upTimeout | sendFail | downTimeout | writeError | cancel => exact ha.elim

/-- A side that has returned unharmed saw both ends. -/
theorem Owns.eof_of_ok (ho : Owns s) (hu : Unharmed s.relay) (hok : s.relay.result = some (.ok ())) :
    s.relay.up = .eof ∧ s.relay.down = .finished := by
  obtain ⟨hdown, hover⟩ := ho.ok_done hok
  refine ⟨?_, hdown⟩
  cases hup : s.relay.up with
  | eof => rfl
  | refused b => exact absurd hup (hu.not_refused b)
  | seedRefused b => exact absurd hup (hu.not_seedRefused b)
  | seeding | reading | sending =>
    rw [hup] at hover
    exact hover.elim

/-- **A side that has returned unharmed has passed on everything**, and counted
it. -/
theorem Accounts.all_of_ok (h : Accounts leftover bytes counter s) (ho : Owns s)
    (hu : Unharmed s.relay) (hok : s.relay.result = some (.ok ())) :
    s.link.writer.sent.flatten = leftover ++ bytes ∧
      s.relay.conn.written = s.link.reader.sent.flatten ∧
      s.relay.counter = counter.map
        (·.grown (leftover ++ bytes).length s.link.reader.sent.flatten.length) := by
  obtain ⟨hup, hdown⟩ := ho.eof_of_ok hu hok
  have hinput : s.relay.conn.received = bytes := by
    rw [← h.input, h.up_eof hup, List.append_nil]
  have htaken := (h.down_end (.inr hdown)).taken_eq_sent
  refine ⟨?_, ?_, ?_⟩
  · have hbytes := h.up_bytes
    rwa [hup, UpState.held, List.append_nil, hinput] at hbytes
  · have hbytes := h.down_bytes
    rw [hdown, htaken] at hbytes
    exact (List.append_nil _).symm.trans hbytes
  · rw [h.counted, hinput, htaken]

end Side

/-! ## Two sides -/

/-- `relay_stream` and `splice` on the two halves of a pipe. -/
structure World where
  inbound : Relay
  outbound : Relay
  up : Chan Bytes
  down : Chan Bytes

/-- The moves of either side. -/
inductive WorldAct
  | inbound (a : Act)
  | outbound (a : Act)
  deriving DecidableEq

/-- Neither an error, nor a timeout, nor a failed send. -/
def WorldAct.Clean : WorldAct → Prop
  | .inbound a | .outbound a => a.Clean

inductive WorldStep : World → WorldAct → World → Prop
  | inbound {w : World} {a : Act} {r : Relay} {l : Link} :
      RelayStep w.inbound ⟨w.down, w.up⟩ a r l →
      WorldStep w (.inbound a) { w with inbound := r, up := l.writer, down := l.reader }
  | outbound {w : World} {a : Act} {r : Relay} {l : Link} :
      RelayStep w.outbound ⟨w.up, w.down⟩ a r l →
      WorldStep w (.outbound a) { w with outbound := r, up := l.reader, down := l.writer }

namespace World

/-- The client's stream behind `relay_stream`, the target's behind `splice`, and a
new pipe. -/
def start (capacity : Nat) (client leftover : Bytes) (counter : Option Counter) (target : Bytes) :
    World :=
  ⟨.relayStream (.new client) counter leftover, .splice (.new target), .new _ capacity,
    .new _ capacity⟩

/-- The half `relay_stream` was given. -/
def inboundSide (w : World) : Side := ⟨w.inbound, ⟨w.down, w.up⟩⟩

/-- The half `splice` was given. -/
def outboundSide (w : World) : Side := ⟨w.outbound, ⟨w.up, w.down⟩⟩

/-- Both relays have returned `Ok`. -/
def Returned (w : World) : Prop :=
  w.inbound.result = some (.ok ()) ∧ w.outbound.result = some (.ok ())

end World

/-- A world step is a step of the inbound side, or of its peer. -/
theorem WorldStep.inboundSide {w w' : World} {a : WorldAct} (h : WorldStep w a w') :
    ∃ b, OpenStep w.inboundSide b w'.inboundSide := by
  cases h with
  | inbound hstep => exact ⟨_, .relay hstep⟩
  | outbound hstep => exact ⟨_, .peer hstep.moves.1 hstep.moves.2⟩

/-- A world step is a step of the outbound side, or of its peer. -/
theorem WorldStep.outboundSide {w w' : World} {a : WorldAct} (h : WorldStep w a w') :
    ∃ b, OpenStep w.outboundSide b w'.outboundSide := by
  cases h with
  | inbound hstep => exact ⟨_, .peer hstep.moves.1 hstep.moves.2⟩
  | outbound hstep => exact ⟨_, .relay hstep⟩

/-- Both accounts, and who holds what on both sides. -/
structure World.Inv (client leftover : Bytes) (counter : Option Counter) (target : Bytes)
    (w : World) : Prop where
  inbound : Accounts leftover client counter w.inboundSide
  outbound : Accounts [] target none w.outboundSide
  inbound_owns : Owns w.inboundSide
  outbound_owns : Owns w.outboundSide

section World

variable {client leftover target : Bytes} {counter : Option Counter} {capacity : Nat}
  {w w' : World} {a : WorldAct}

theorem World.inv_start : World.Inv client leftover counter target
    (.start capacity client leftover counter target) :=
  ⟨relayStream_accounts .., relayStream_accounts .., relayStream_owns ..,
    relayStream_owns target [] none _⟩

theorem WorldStep.inv (hw : World.Inv client leftover counter target w) (h : WorldStep w a w') :
    World.Inv client leftover counter target w' := by
  obtain ⟨_, hin⟩ := h.inboundSide
  obtain ⟨_, hout⟩ := h.outboundSide
  exact ⟨hin.accounts hw.inbound, hout.accounts hw.outbound, hin.owns hw.inbound_owns,
    hout.owns hw.outbound_owns⟩

end World

/-! ## Clean runs get to the end -/

section Progress

variable {r r' : Relay} {l l' : Link} {a : Act}

/-- A clean step of the relay on this half of the link. -/
def CanStep (r : Relay) (l : Link) : Prop := ∃ a r' l', RelayStep r l a r' l' ∧ a.Clean

/-- An unharmed relay with something left to do has not returned. -/
theorem Owns.running (ho : Owns ⟨r, l⟩) (hu : Unharmed r) (h : ¬ r.up.Over ∨ r.down ≠ .finished) :
    r.result = none := by
  cases hres : r.result with
  | none => rfl
  | some res =>
    cases res with
    | error e => exact absurd hres (hu.no_error e)
    | ok =>
      obtain ⟨hdown, hover⟩ := ho.ok_done hres
      rcases h with h | h
      · exact absurd hover h
      · exact absurd hdown h

/-- An unharmed relay that has seen both ends has returned. -/
theorem Owns.ok_of_eof (ho : Owns ⟨r, l⟩) (hu : Unharmed r) (hup : r.up = .eof)
    (hdown : r.down = .finished) : r.result = some (.ok ()) := by
  cases hres : r.result with
  | none => exact absurd hres (ho.joined (by rw [hup]; trivial) hdown)
  | some res =>
    cases res with
    | error e => exact absurd hres (hu.no_error e)
    | ok => rfl

/-- The uplink of an unharmed relay has ended, can move, or waits for a send. -/
theorem uplink_moves (ho : Owns ⟨r, l⟩) (hu : Unharmed r) :
    r.up = .eof ∨ CanStep r l ∨ (l.writer.txAlive = true ∧ ¬ l.writer.CanSend) := by
  cases hup : r.up with
  | eof => exact .inl rfl
  | refused b => exact absurd hup (hu.not_refused b)
  | seedRefused b => exact absurd hup (hu.not_seedRefused b)
  | reading =>
    have hrun := ho.running hu (.inl (by rw [hup]; exact id))
    refine .inr (.inl ?_)
    cases hunread : r.conn.unread with
    | nil => exact ⟨_, _, _, .readEof hrun hup hu.live hunread, trivial⟩
    | cons b rest =>
      exact ⟨_, _, _, .read 1 hrun hup hu.live Nat.one_pos (by decide) (by simp [hunread]),
        trivial⟩
  | seeding b =>
    have hrun := ho.running hu (.inl (by rw [hup]; exact id))
    by_cases hsend : l.writer.CanSend
    · exact .inr (.inl ⟨_, _, _, .seed hrun hup hsend, trivial⟩)
    · exact .inr (.inr ⟨(ho.up_holds hrun (by rw [hup]; exact id)).2, hsend⟩)
  | sending b =>
    have hrun := ho.running hu (.inl (by rw [hup]; exact id))
    by_cases hsend : l.writer.CanSend
    · exact .inr (.inl ⟨_, _, _, .send hrun hup hsend, trivial⟩)
    · exact .inr (.inr ⟨(ho.up_holds hrun (by rw [hup]; exact id)).2, hsend⟩)

/-- The downlink of an unharmed relay has ended, can move, or waits for a chunk. -/
theorem downlink_moves (ho : Owns ⟨r, l⟩) (hu : Unharmed r)
    (hleft : ∀ rest, r.down = .writing rest → rest ≠ []) (hstart : r.up.Started) :
    r.down = .finished ∨ CanStep r l ∨
      (l.reader.queue = [] ∧ l.reader.txAlive = true ∧ l.reader.rxAlive = true) := by
  cases hdown : r.down with
  | finished => exact .inl rfl
  | receiving =>
    have hne : r.down ≠ .finished := by rw [hdown]; nofun
    have hrun := ho.running hu (.inr hne)
    have halive := (ho.down_holds hrun hne).2
    refine .inr ?_
    cases hq : l.reader.queue with
    | cons b q => exact .inl ⟨_, _, _, .recv hrun hstart hdown hu.live ⟨halive, hq⟩, trivial⟩
    | nil =>
      cases htx : l.reader.txAlive with
      | false => exact .inl ⟨_, _, _, .recvEof hrun hstart hdown hu.live ⟨htx, hq⟩, trivial⟩
      | true => exact .inr ⟨rfl, rfl, halive⟩
  | writing rest =>
    have hrun := ho.running hu (.inr (by rw [hdown]; nofun))
    have hpos : 0 < rest.length := List.length_pos_iff.mpr (hleft rest hdown)
    exact .inr (.inl ⟨_, _, _, .write 1 hrun hdown Nat.one_pos hpos, trivial⟩)
  | flushing =>
    have hrun := ho.running hu (.inr (by rw [hdown]; nofun))
    refine .inr (.inl ?_)
    cases hup : r.up with
    | refused b => exact absurd hup (hu.not_refused b)
    | seedRefused b => exact absurd hup (hu.not_seedRefused b)
    | seeding b =>
      rw [hup] at hstart
      exact hstart.elim
    | eof => exact ⟨_, _, _, .flushLast hrun hdown (by rw [hup]; trivial), trivial⟩
    | reading | sending => exact ⟨_, _, _, .flushFirst hrun hdown (by rw [hup]; trivial), trivial⟩

/-- **A direction is never stuck.**  `r` sends to `r'` over a channel with room for
one chunk: the direction is over, or one of the two can make a clean step. -/
theorem direction_moves {reader chan writer : Chan Bytes} (hcap : 0 < chan.cap)
    (ho : Owns ⟨r, ⟨reader, chan⟩⟩) (ho' : Owns ⟨r', ⟨chan, writer⟩⟩) (hu : Unharmed r)
    (hu' : Unharmed r') (hend : r'.down = .finished → chan.Ended)
    (hleft : ∀ rest, r'.down = .writing rest → rest ≠ []) (hstart : r'.up.Started) :
    (r.up = .eof ∧ r'.down = .finished) ∨ CanStep r ⟨reader, chan⟩ ∨ CanStep r' ⟨chan, writer⟩ := by
  rcases downlink_moves ho' hu' hleft hstart with hfin | hstep | ⟨hq, htx, hrx⟩
  · -- the receiver is done, so the sender is gone
    rcases uplink_moves ho hu with heof | hstep | ⟨htx, -⟩
    · exact .inl ⟨heof, hfin⟩
    · exact .inr (.inl hstep)
    · exact Bool.noConfusion ((hend hfin).1.symm.trans htx)
  · exact .inr (.inr hstep)
  · -- the receiver waits on an empty channel, so there is room
    rcases uplink_moves ho hu with heof | hstep | ⟨-, hfull⟩
    · have hdropped := (ho.up_drops (by rw [heof]; trivial)).2
      exact Bool.noConfusion (hdropped.symm.trans htx)
    · exact .inr (.inl hstep)
    · have hsend : chan.CanSend := ⟨htx, hrx, by rw [hq]; exact hcap⟩
      exact absurd hsend hfull

theorem RelayStep.started (h : RelayStep r l a r' l') (hr : r.up.Started) : r'.up.Started := by
  cases h with
  | seed _ hup | seedFail _ hup =>
    rw [hup] at hr
    exact hr.elim
  | read | readEof | send | sendFail => trivial
  | _ => exact hr

/-- What is left to do for the chunks on a channel. -/
def chanWeight (c : Chan Bytes) : Nat := (c.queue.map fun b => b.length + 1).sum

/-- What is left to do on the uplink. -/
def UpState.weight : UpState → Nat
  | .seeding b | .sending b => b.length + 3
  | .reading => 1
  | .seedRefused _ | .eof | .refused _ => 0

/-- What is left to do on the downlink. -/
def DownState.weight : DownState → Nat
  | .receiving => 2
  | .writing rest => rest.length + 2
  | .flushing => 1
  | .finished => 0

/-- What is left to do for a relay: a byte has four stages to go through. -/
def Relay.weight (r : Relay) : Nat := r.up.weight + 4 * r.conn.unread.length + r.down.weight

theorem weight_writeAll (bs : Bytes) : (writeAll bs).weight = bs.length + 2 := by
  rcases writeAll_cases bs with ⟨rfl, h⟩ | ⟨-, h⟩ <;> rw [h] <;> rfl

/-- **Every clean step uses up weight**, that of the relay and of its two
channels. -/
theorem RelayStep.weight_lt (ha : a.Clean) (h : RelayStep r l a r' l') :
    r'.weight + chanWeight l'.writer + chanWeight l'.reader <
      r.weight + chanWeight l.writer + chanWeight l.reader := by
  cases h with
  | seed _ hup | send _ hup =>
    simp only [Relay.weight, hup, UpState.weight, chanWeight, Chan.push, List.map_append,
      List.sum_append, List.map_singleton, List.sum_singleton]
    omega
  | read n _ hup _ hpos _ hlen =>
    simp only [Relay.weight, hup, UpState.weight, Relay.onRead, Conn.read, List.length_take,
      List.length_drop]
    omega
  | readEof _ hup =>
    simp only [Relay.weight, hup, UpState.weight, Relay.upDone, Conn.dropRead, chanWeight,
      Chan.dropTx]
    omega
  | recv _ _ hdown _ hchunk =>
    simp only [Relay.weight, hdown, Relay.onRecv, weight_writeAll, chanWeight, Chan.pop, hchunk.2,
      List.map_cons, List.sum_cons]
    simp only [DownState.weight]
    omega
  | recvEof _ _ hdown =>
    simp only [Relay.weight, hdown, DownState.weight]
    omega
  | write n _ hdown hpos hlen =>
    simp only [Relay.weight, hdown, Relay.onWrite, Conn.write, weight_writeAll, List.length_drop]
    simp only [DownState.weight]
    omega
  | flushFirst _ hdown | flushLast _ hdown | flushDrain _ hdown =>
    simp only [Relay.weight, hdown, DownState.weight, Relay.downDone, Conn.dropWrite, Conn.dropRead,
      chanWeight, Chan.dropRx, Chan.dropTx, Link.drop]
    omega
  | seedFail | readError | upTimeout | sendFail | downTimeout | writeError | cancel => exact ha.elim

end Progress

/-- The invariant of clean runs. -/
structure World.CleanInv (client leftover : Bytes) (counter : Option Counter) (target : Bytes)
    (w : World) : Prop extends World.Inv client leftover counter target w where
  inbound_unharmed : Unharmed w.inbound
  outbound_unharmed : Unharmed w.outbound
  outbound_started : w.outbound.up.Started
  up_cap : 0 < w.up.cap
  down_cap : 0 < w.down.cap

/-- What is left to do for both relays. -/
def World.weight (w : World) : Nat :=
  w.inbound.weight + w.outbound.weight + chanWeight w.up + chanWeight w.down

section CleanRuns

variable {client leftover target : Bytes} {counter : Option Counter} {capacity : Nat}
  {w w' : World} {a : WorldAct}

theorem World.cleanInv_start (hcap : 1 ≤ capacity) : World.CleanInv client leftover counter target
    (.start capacity client leftover counter target) := by
  exact ⟨World.inv_start, relayStream_unharmed .., relayStream_unharmed _ none [], trivial, hcap,
    hcap⟩

theorem WorldStep.cleanInv (ha : a.Clean) (hw : World.CleanInv client leftover counter target w)
    (h : WorldStep w a w') : World.CleanInv client leftover counter target w' := by
  have hinv := WorldStep.inv hw.toInv h
  obtain ⟨-, hin, hout, hstart, hup, hdown⟩ := hw
  cases h with
  | inbound hstep =>
    obtain ⟨htx, hrx⟩ := hstep.moves
    exact ⟨hinv, RelayStep.unharmed ha hin hstep, hout, hstart, htx.cap_eq ▸ hup, hrx.cap_eq ▸ hdown⟩
  | outbound hstep =>
    obtain ⟨htx, hrx⟩ := hstep.moves
    exact ⟨hinv, hin, RelayStep.unharmed ha hout hstep, hstep.started hstart, hrx.cap_eq ▸ hup,
      htx.cap_eq ▸ hdown⟩

theorem WorldStep.weight_lt (ha : a.Clean) (h : WorldStep w a w') : w'.weight < w.weight := by
  cases h with
  | inbound hstep =>
    have := RelayStep.weight_lt ha hstep
    simp only [World.weight] at *
    omega
  | outbound hstep =>
    have := RelayStep.weight_lt ha hstep
    simp only [World.weight] at *
    omega

/-- **A clean run is never stuck**: both relays have returned, or a clean step can
be made. -/
theorem World.CleanInv.moves (hw : World.CleanInv client leftover counter target w) :
    w.Returned ∨ ∃ a w', a.Clean ∧ WorldStep w a w' := by
  have hinbound : CanStep w.inbound ⟨w.down, w.up⟩ → ∃ a w', a.Clean ∧ WorldStep w a w' := by
    rintro ⟨a, r', l', hstep, ha⟩
    exact ⟨.inbound a, _, ha, .inbound hstep⟩
  have houtbound : CanStep w.outbound ⟨w.up, w.down⟩ → ∃ a w', a.Clean ∧ WorldStep w a w' := by
    rintro ⟨a, r', l', hstep, ha⟩
    exact ⟨.outbound a, _, ha, .outbound hstep⟩
  rcases direction_moves hw.up_cap hw.inbound_owns hw.outbound_owns hw.inbound_unharmed
    hw.outbound_unharmed (fun h => hw.outbound.down_end (.inr h)) hw.outbound.writing_left
    hw.outbound_started with ⟨hinUp, houtDown⟩ | hstep | hstep
  · -- the uplink is over, so the inbound side has long started its downlink
    have hstart : w.inbound.up.Started := by rw [hinUp]; trivial
    rcases direction_moves hw.down_cap hw.outbound_owns hw.inbound_owns hw.outbound_unharmed
      hw.inbound_unharmed (fun h => hw.inbound.down_end (.inr h)) hw.inbound.writing_left
      hstart with ⟨houtUp, hinDown⟩ | hstep | hstep
    · exact .inl ⟨hw.inbound_owns.ok_of_eof hw.inbound_unharmed hinUp hinDown,
        hw.outbound_owns.ok_of_eof hw.outbound_unharmed houtUp houtDown⟩
    · exact .inr (houtbound hstep)
    · exact .inr (hinbound hstep)
  · exact .inr (hinbound hstep)
  · exact .inr (houtbound hstep)

/-- When both relays have returned in a clean run, the two accounts meet: all
bytes have crossed both channels. -/
theorem World.CleanInv.all_of_returned (hw : World.CleanInv client leftover counter target w)
    (hret : w.Returned) :
    w.up.sent.flatten = leftover ++ client ∧ w.inbound.conn.written = w.down.sent.flatten ∧
      w.outbound.conn.written = leftover ++ client ∧ w.inbound.conn.written = target ∧
      w.inbound.counter = counter.map (·.grown (leftover ++ client).length target.length) := by
  obtain ⟨hup, hin, hcount⟩ := hw.inbound.all_of_ok hw.inbound_owns hw.inbound_unharmed hret.1
  obtain ⟨hdown, hout, -⟩ := hw.outbound.all_of_ok hw.outbound_owns hw.outbound_unharmed hret.2
  simp only [World.inboundSide, World.outboundSide, List.nil_append] at hup hin hcount hdown hout
  refine ⟨hup, hin, hout.trans hup, hin.trans hdown, ?_⟩
  rw [hcount, hdown]

end CleanRuns

/-- **Byte conservation.**  At every moment of every run of `relay_stream`, against
any peer, what it has put on the uplink is a prefix of the leftover and the
client's bytes, and what it has written to the client is a prefix of the peer's
chunks.  Joined to `splice` by a pipe of any capacity, what the target has
received is a prefix of the leftover and the client's bytes, and what the client
has received is a prefix of the target's.

Runs without a failure are bounded.  If nothing has failed so far, the run can be
finished without a failure; and once both relays have returned, the four prefixes
are the whole and the counter has grown by their lengths. -/
theorem bytes_conserved (capacity : Nat) (hcap : 1 ≤ capacity) (client leftover : Bytes)
    (counter : Option Counter) :
    (∀ (trace : List (OpenAct × Side)) (s : Side),
      Run OpenStep ⟨.relayStream (.new client) counter leftover, .new capacity⟩ trace s →
        s.link.writer.sent.flatten <+: leftover ++ client ∧
          s.relay.conn.written <+: s.link.reader.sent.flatten) ∧
    (∀ target : Bytes, ∃ bound, ∀ (trace : List (WorldAct × World)) (w : World),
      Run WorldStep (.start capacity client leftover counter target) trace w →
        w.outbound.conn.written <+: leftover ++ client ∧ w.inbound.conn.written <+: target ∧
        ((∀ p ∈ trace, p.1.Clean) →
          trace.length ≤ bound ∧
          (∃ trace' w', Run WorldStep w trace' w' ∧ (∀ p ∈ trace', p.1.Clean) ∧ w'.Returned) ∧
          (w.Returned →
            w.up.sent.flatten = leftover ++ client ∧
            w.inbound.conn.written = w.down.sent.flatten ∧
            w.outbound.conn.written = leftover ++ client ∧
            w.inbound.conn.written = target ∧
            w.inbound.counter =
              counter.map (·.grown (leftover ++ client).length target.length)))) := by
  refine ⟨fun trace s hrun => ?_, fun target =>
    ⟨(World.start capacity client leftover counter target).weight, fun trace w hrun => ?_⟩⟩
  · have hs := hrun.invariant (relayStream_accounts client leftover counter capacity)
      fun _ _ _ => OpenStep.accounts
    exact ⟨hs.sent_prefix, hs.written_prefix⟩
  · have hw := hrun.invariant World.inv_start fun _ _ _ => WorldStep.inv
    refine ⟨hw.outbound.written_prefix.trans hw.inbound.sent_prefix,
      hw.inbound.written_prefix.trans hw.outbound.sent_prefix, fun hclean => ?_⟩
    have hw' := hrun.invariant_of_good _ hclean (World.cleanInv_start hcap)
      fun _ _ _ => WorldStep.cleanInv
    have hlen := hrun.length_le hclean fun _ _ _ => WorldStep.weight_lt
    refine ⟨by omega, ?_, hw'.all_of_returned⟩
    exact exists_run_to (World.CleanInv client leftover counter target) World.Returned
      WorldAct.Clean World.weight (fun _ _ _ => WorldStep.cleanInv)
      (fun _ _ _ => WorldStep.weight_lt) (fun _ => World.CleanInv.moves) hw'

/-- Over a pipe of one chunk there is a run without failures that delivers
everything. -/
theorem bytes_conserved_one :
    ∃ trace w, Run WorldStep (.start 1 [1, 2] [9] (some ⟨0, 0⟩) [3]) trace w ∧ w.Returned ∧
      w.outbound.conn.written = [9, 1, 2] ∧ w.inbound.conn.written = [3] ∧
      w.inbound.counter = some ⟨3, 1⟩ := by
  obtain ⟨bound, hall⟩ := (bytes_conserved 1 (by decide) [1, 2] [9] (some ⟨0, 0⟩)).2 [3]
  obtain ⟨-, ⟨trace, w, hrun, hclean, hret⟩, -⟩ := (hall [] _ (.nil _)).2.2 (by simp)
  obtain ⟨-, -, hdone⟩ := (hall trace w hrun).2.2 hclean
  obtain ⟨-, -, hout, hin, hcount⟩ := hdone hret
  exact ⟨trace, w, hrun, hret, hout, hin, hcount⟩

end XrayRs
