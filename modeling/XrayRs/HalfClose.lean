import XrayRs.StreamRelay

/-! # Half-close through the stream relay

When one direction of a relay ends because its source did, the end should reach
the far side at once: `conn_to_link` passes it on by dropping the sender of the
link, `link_to_conn` should by closing or shutting down the connection for
writing.

`link_to_conn` only flushes and drops its half of the split connection.  The
connection stays open until the other half goes, so the end is passed on exactly
in the runs where `link_to_conn` never returns before `conn_to_link`
(`half_close_passed_iff`).  `SsOutbound::relay` does call `shutdown` there. -/

namespace XrayRs

open BoundedChannel StepSystem

/-- **An end that was seen has been passed on**: a `conn_to_link` that saw the end
of the connection has dropped the link's sender, and the connection of a
`link_to_conn` that saw the end of the link is closed or shut down for writing. -/
def HalfClosePassed (s : Side) : Prop :=
  (s.relay.up = .eof → s.link.writer.txAlive = false) ∧
    (s.relay.down = .finished → ¬ s.relay.conn.OpenForWriting)

/-- `link_to_conn` does not return in this step while `conn_to_link` is running. -/
def ReturnsLast (s : Side) (a : OpenAct) : Prop := a = .relay .flush → ¬ s.relay.up.Running

/-- In a state where everybody holds what they should, only the second part can
fail. -/
theorem Owns.halfClosePassed_iff {s : Side} (hs : Owns s) :
    HalfClosePassed s ↔ (s.relay.down = .finished → s.relay.conn.readHalf = false) := by
  have hup : s.relay.up = .eof → s.link.writer.txAlive = false := by
    intro h
    exact (hs.up_drops (by rw [h]; trivial)).2
  constructor
  · rintro ⟨-, hdown⟩ hfin
    by_contra hread
    exact hdown hfin ⟨.inl (Bool.not_eq_false _ ▸ hread), hs.not_shutdown⟩
  · intro hread
    refine ⟨hup, ?_⟩
    rintro hfin ⟨hopen | hopen, -⟩
    · exact absurd (hread hfin) (by rw [hopen]; decide)
    · exact absurd (hs.down_drops hfin) (by rw [hopen]; decide)

/-- **One step** keeps ends passed on exactly when it is not the early return of
`link_to_conn`. -/
theorem OpenStep.halfClosePassed {s t : Side} {a : OpenAct} (hs : Owns s)
    (hpassed : HalfClosePassed s) (h : OpenStep s a t) : HalfClosePassed t ↔ ReturnsLast s a := by
  have ht := OpenStep.owns hs h
  rw [ht.halfClosePassed_iff]
  rw [hs.halfClosePassed_iff] at hpassed
  cases h with
  | peer => exact ⟨fun _ => nofun, fun _ => hpassed⟩
  | relay hstep =>
    cases hstep with
    | flushFirst hrun hdown hup =>
      -- the read half is still held, so the connection stays open
      have hopen := (hs.up_holds hrun hup.not_finished).1
      refine ⟨fun hclosed => ?_, fun hlast => absurd hup (hlast rfl)⟩
      exact Bool.noConfusion (hopen.symm.trans (hclosed rfl))
    | flushLast hrun hdown hup =>
      exact ⟨fun _ _ h => h.not_finished hup, fun _ _ => (hs.up_drops hup).1⟩
    | flushDrain hrun hdown hup =>
      refine ⟨fun _ _ h => ?_, fun _ _ => rfl⟩
      rw [hup] at h
      exact h
    | recv | write => exact ⟨fun _ => nofun, fun _ h => absurd (.inr h) (writeAll_ne _)⟩
    | recvEof => exact ⟨fun _ => nofun, fun _ => nofun⟩
    | readEof | sendFail | readError | upTimeout | downTimeout | writeError =>
      exact ⟨fun _ => nofun, fun _ _ => rfl⟩
    | seed | seedFail | read | send | cancel => exact ⟨fun _ => nofun, fun _ => hpassed⟩

/-- **Half-close.**  In every run of `relay_stream`, and in every run of `splice`,
for every chunking and interleaving and against every peer: each end that was
seen has been passed on in every state of the run, exactly when `link_to_conn`
never returns while `conn_to_link` is still running. -/
theorem half_close_passed_iff (capacity : Nat) (bytes : Bytes) :
    (∀ (counter : Option Counter) (leftover : Bytes) (trace : List (OpenAct × Side)) (s : Side),
      Run OpenStep ⟨.relayStream (.new bytes) counter leftover, .new capacity⟩ trace s →
        ((∀ p ∈ trace, HalfClosePassed p.2) ↔
          Meets ReturnsLast ⟨.relayStream (.new bytes) counter leftover, .new capacity⟩ trace)) ∧
    (∀ (trace : List (OpenAct × Side)) (s : Side),
      Run OpenStep ⟨.splice (.new bytes), .new capacity⟩ trace s →
        ((∀ p ∈ trace, HalfClosePassed p.2) ↔
          Meets ReturnsLast ⟨.splice (.new bytes), .new capacity⟩ trace)) := by
  have hrelay : ∀ (counter : Option Counter) (leftover : Bytes) (trace : List (OpenAct × Side))
      (s : Side), Run OpenStep ⟨.relayStream (.new bytes) counter leftover, .new capacity⟩ trace s →
        ((∀ p ∈ trace, HalfClosePassed p.2) ↔
          Meets ReturnsLast ⟨.relayStream (.new bytes) counter leftover, .new capacity⟩ trace) := by
    intro counter leftover trace s hrun
    have howns := relayStream_owns bytes leftover counter capacity
    refine hrun.forall_holds_iff howns ?_ (fun _ _ _ => OpenStep.owns)
      (fun _ _ _ => OpenStep.halfClosePassed)
    rw [howns.halfClosePassed_iff]
    unfold Relay.relayStream
    split <;> exact nofun
  -- `splice` is `relay_stream` with no leftover and no counter
  rw [Relay.splice_eq_relayStream]
  exact ⟨hrelay, hrelay none []⟩

/-- Neither an error, nor a timeout, nor a failed send. -/
def OpenAct.Clean : OpenAct → Prop
  | .relay a => a.Clean
  | .peer => True

/-- A `splice` whose client closes first: the sender of the link is dropped,
`link_to_conn` sees it and returns, and the target's connection is open with
nobody left to write to it. -/
theorem half_close_lost :
    ∃ trace s, Run OpenStep ⟨.splice (.new [7]), .new 32⟩ trace s ∧
      (∀ p ∈ trace, p.1.Clean) ∧ ¬ HalfClosePassed s := by
  have hpeer : OpenStep ⟨.splice (.new [7]), .new 32⟩ .peer
      ⟨.splice (.new [7]), ⟨(Chan.new _ 32).dropTx, Chan.new _ 32⟩⟩ := .peer .drop .stay
  have hrecv : OpenStep _ (.relay .recvEof) _ :=
    .relay (.recvEof (r := .splice (.new [7])) (l := ⟨(Chan.new _ 32).dropTx, Chan.new _ 32⟩)
      rfl trivial rfl rfl ⟨rfl, rfl⟩)
  have hflush : OpenStep _ (.relay .flush) _ :=
    .relay (.flushFirst (r := { Relay.splice (.new [7]) with down := .flushing })
      (l := ⟨(Chan.new _ 32).dropTx, Chan.new _ 32⟩) rfl rfl trivial)
  refine ⟨_, _, .cons hpeer (.cons hrecv (.cons hflush (.nil _))), ?_, ?_⟩
  · simp [OpenAct.Clean, Act.Clean]
  · rintro ⟨-, h⟩
    exact h rfl ⟨.inl rfl, rfl⟩

end XrayRs
