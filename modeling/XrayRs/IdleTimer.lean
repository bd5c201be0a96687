import XrayRs.StreamRelay

/-! # The idle timer of a relay

`Timer` (`kernel/src/pipe/timer.rs`) beside the relay that it watches (`relay_stream`,
`conn_to_link` and `link_to_conn`).  The timer's task sleeps until the deadline that it
read, looks at the clock, and then at the deadline again, which the loops have moved with
every chunk; only if that is over it cancels the token.

The relay alone lets the token fire at any step (`StreamRelay`); every run with the clock
is one of these (`run_open`).  With the clock, a relay that is never idle for a whole period
is not interrupted (`busy_relay_not_idle`), and one that is idle ends by its timer just
where one of its loops waits for input (`idle_relay_ends_iff`). -/

namespace XrayRs.Idle

open BoundedChannel StepSystem

/-! ## The timer -/

/-- Where the task of a timer is. -/
inductive TimerTask
  | locking
  | sleeping (next : Nat)
  | woken (clock : Nat)
  | expired
  | stopped
  deriving DecidableEq

/-- `Timer` with the clock, the time of its last update, and its task. -/
structure Timer where
  now : Nat
  lastUpdate : Nat
  deadline : Nat
  cancelled : Bool
  task : TimerTask
  deriving DecidableEq

variable (limit idle : Nat)

/-- The deadline that is set at a time.  `limit` is the last `Instant`, and behind it
`checked_add` fails. -/
def deadlineAfter (now : Nat) : Nat := if now + idle ≤ limit then now + idle else now

/-- `Timer::new`. -/
def Timer.new (now : Nat) : Timer := ⟨now, now, deadlineAfter limit idle now, false, .locking⟩

/-- `Timer::update`. -/
def Timer.update (t : Timer) : Timer :=
  { t with lastUpdate := t.now, deadline := deadlineAfter limit idle t.now }

/-- A step of the timer's task up to the cancelling of the token. -/
inductive TaskStep (t : Timer) : Timer → Prop
  | lock (htask : t.task = .locking) : TaskStep t { t with task := .sleeping t.deadline }
  | wake {next : Nat} (htask : t.task = .sleeping next) (hnext : next ≤ t.now) :
      TaskStep t { t with task := .woken t.now }
  | expire {clock : Nat} (htask : t.task = .woken clock) (hover : t.deadline ≤ clock) :
      TaskStep t { t with task := .expired }
  | again {clock : Nat} (htask : t.task = .woken clock) (hmoved : clock < t.deadline) :
      TaskStep t { t with task := .locking }
  | stop {next : Nat} (htask : t.task = .sleeping next) (hcancelled : t.cancelled = true) :
      TaskStep t { t with task := .stopped }

/-! ## The relay with its timer -/

/-- A side of a relay, and the timer it shares with its loops. -/
structure Timed where
  side : Side
  timer : Timer

/-- The token of a relay that is running. -/
def cancelSide (s : Side) : Side :=
  if s.relay.result = none then { s with relay := { s.relay with cancelled := true } } else s

/-- A chunk came in: the loops update the timer. -/
def movesChunk : XrayRs.Act → Bool
  | .read _ | .recv => true
  | _ => false

/-- What happens next: time passes, the timer's task or a loop moves, somebody calls
`Timer::cancel`, or the holder of the other half of the link moves. -/
inductive Act
  | tick (d : Nat)
  | task
  | cancel
  | interrupt
  | relay (a : XrayRs.Act)
  | peer
  deriving DecidableEq

inductive Step : Timed → Act → Timed → Prop
  | tick {s t} (d : Nat) : Step ⟨s, t⟩ (.tick d) ⟨s, { t with now := t.now + d }⟩
  | task {s t t'} (h : TaskStep t t') : Step ⟨s, t⟩ .task ⟨s, t'⟩
  | cancel {s t} (htask : t.task = .expired) :
      Step ⟨s, t⟩ .cancel ⟨cancelSide s, { t with cancelled := true, task := .stopped }⟩
  | interrupt {s t} : Step ⟨s, t⟩ .interrupt ⟨cancelSide s, { t with cancelled := true }⟩
  | relay {r r' l l' a t} (h : RelayStep r l a r' l') (hact : a ≠ .cancel) :
      Step ⟨⟨r, l⟩, t⟩ (.relay a) ⟨⟨r', l'⟩, if movesChunk a then t.update limit idle else t⟩
  | peer {r l l' t} (htx : TxMove l.reader l'.reader) (hrx : RxMove l.writer l'.writer) :
      Step ⟨⟨r, l⟩, t⟩ .peer ⟨⟨r, l'⟩, t⟩

/-- A relay that starts with its timer: the first update is in the same instant. -/
def start (conn : Conn) (counter : Option Counter) (leftover : Bytes) (link : Link) (now : Nat) :
    Timed :=
  ⟨⟨.relayStream conn counter leftover, link⟩, .new limit idle now⟩

/-! ## Without the clock -/

variable {limit idle} {x y : Timed} {a : Act} {trace : List (Act × Timed)}

/-- On the relay and its link, a step is one of the machine without a clock, or none. -/
theorem Step.open (h : Step limit idle x a y) :
    y.side = x.side ∨ ∃ b, OpenStep x.side b y.side := by
  have hcancel : ∀ s, cancelSide s = s ∨ ∃ b, OpenStep s b (cancelSide s) := by
    rintro ⟨r, l⟩
    unfold cancelSide
    split
    · next hrun => exact .inr ⟨_, .relay (.cancel hrun)⟩
    · exact .inl rfl
  cases h with
  | tick | task => exact .inl rfl
  | cancel | interrupt => exact hcancel _
  | relay h => exact .inr ⟨_, .relay h⟩
  | peer htx hrx => exact .inr ⟨_, .peer htx hrx⟩

/-- **Every run with the clock is one without it**, in which the token fires somewhere. -/
theorem run_open (h : Run (Step limit idle) x trace y) :
    ∃ steps, Run OpenStep x.side steps y.side := by
  induction h with
  | nil => exact ⟨_, .nil _⟩
  | cons hfirst _ ih =>
    obtain ⟨steps, hsteps⟩ := ih
    rcases hfirst.open with hsame | ⟨b, hopen⟩
    · rw [hsame] at hsteps
      exact ⟨steps, hsteps⟩
    · exact ⟨_, .cons hopen hsteps⟩

/-! ## The invariant -/

/-- What holds of the timer and its token in every reachable state.  Within the range of
`Instant`, the deadline is a whole period after the last update, and the task does not
sleep longer. -/
structure Good (limit idle : Nat) (x : Timed) : Prop where
  last : x.timer.lastUpdate ≤ x.timer.now
  deadline : x.timer.now + idle ≤ limit → x.timer.deadline = x.timer.lastUpdate + idle
  sleeping : x.timer.now + idle ≤ limit → ∀ next, x.timer.task = .sleeping next →
    next ≤ x.timer.deadline
  woken : ∀ clock, x.timer.task = .woken clock → clock ≤ x.timer.now
  stopped : x.timer.task = .stopped → x.timer.cancelled = true
  token : x.side.relay.result = none → x.side.relay.cancelled = x.timer.cancelled

theorem deadlineAfter_eq {now : Nat} (h : now + idle ≤ limit) :
    deadlineAfter limit idle now = now + idle := if_pos h

theorem good_start (conn : Conn) (counter : Option Counter) (leftover : Bytes) (link : Link)
    (now : Nat) : Good limit idle (start limit idle conn counter leftover link now) := by
  refine ⟨Nat.le_refl _, deadlineAfter_eq, fun _ _ => nofun, fun _ => nofun, nofun, fun _ => ?_⟩
  unfold start Relay.relayStream
  split <;> rfl

theorem Good.update (h : Good limit idle x) :
    Good limit idle ⟨x.side, x.timer.update limit idle⟩ := by
  refine ⟨Nat.le_refl _, deadlineAfter_eq, ?_, h.woken, h.stopped, h.token⟩
  intro hrange next htask
  have hnext := h.sleeping hrange next htask
  have hdeadline := h.deadline hrange
  have hlast := h.last
  have hnew : deadlineAfter limit idle x.timer.now = x.timer.now + idle := deadlineAfter_eq hrange
  show next ≤ deadlineAfter limit idle x.timer.now
  omega

/-- The token of a relay that goes on is not touched by its loops. -/
theorem cancelled_of_step {r r' : Relay} {l l' : Link} {b : XrayRs.Act} (h : RelayStep r l b r' l')
    (hact : b ≠ .cancel) (hrun : r'.result = none) : r.result = none ∧ r'.cancelled = r.cancelled := by
  cases h with
  | cancel => exact absurd rfl hact
  | readError | upTimeout | downTimeout | writeError | flushLast | flushDrain => cases hrun
  | read _ hlive | write _ hlive => exact ⟨hlive, rfl⟩
  | seed hlive | seedFail hlive | readEof hlive | send hlive | sendFail hlive | recv hlive
  | recvEof hlive | flushFirst hlive => exact ⟨hlive, rfl⟩

theorem cancelSide_token (s : Side) (h : (cancelSide s).relay.result = none) :
    (cancelSide s).relay.cancelled = true := by
  unfold cancelSide at h ⊢
  split
  · rfl
  · next hrun =>
    rw [if_neg hrun] at h
    exact absurd h hrun

/-- **Every step keeps the invariant.** -/
theorem Good.step (h : Good limit idle x) (hstep : Step limit idle x a y) :
    Good limit idle y := by
  cases hstep with
  | tick d =>
    refine ⟨Nat.le_add_right_of_le h.last, fun hrange => h.deadline ?_,
      fun hrange => h.sleeping ?_, fun clock hclock => Nat.le_add_right_of_le (h.woken clock hclock),
      h.stopped, h.token⟩
    all_goals
      dsimp only at hrange ⊢
      omega
  | task htask =>
    cases htask with
    | lock =>
      refine ⟨h.last, h.deadline, fun _ next heq => ?_, fun _ => nofun, nofun, h.token⟩
      exact Nat.le_of_eq (TimerTask.sleeping.inj heq).symm
    | wake =>
      refine ⟨h.last, h.deadline, fun _ _ => nofun, fun clock heq => ?_, nofun, h.token⟩
      exact Nat.le_of_eq (TimerTask.woken.inj heq).symm
    | expire | again =>
      exact ⟨h.last, h.deadline, fun _ _ => nofun, fun _ => nofun, nofun, h.token⟩
    | stop _ hcancelled =>
      exact ⟨h.last, h.deadline, fun _ _ => nofun, fun _ => nofun, fun _ => hcancelled, h.token⟩
  | cancel =>
    exact ⟨h.last, h.deadline, fun _ _ => nofun, fun _ => nofun, fun _ => rfl,
      fun hrun => cancelSide_token _ hrun⟩
  | interrupt =>
    exact ⟨h.last, h.deadline, h.sleeping, h.woken, fun _ => rfl, fun hrun => cancelSide_token _ hrun⟩
  | @relay r r' l l' b t hrelay hact =>
    have htoken := fun hrun => cancelled_of_step hrelay hact hrun
    have hsame : Good limit idle ⟨⟨r', l'⟩, t⟩ := ⟨h.last, h.deadline, h.sleeping, h.woken,
      h.stopped, fun hrun => (htoken hrun).2.trans (h.token (htoken hrun).1)⟩
    split
    · exact hsame.update
    · exact hsame
  | peer => exact ⟨h.last, h.deadline, h.sleeping, h.woken, h.stopped, h.token⟩

theorem good_of_run {z : Timed} (h : Good limit idle z) (hrun : Run (Step limit idle) z trace x) :
    Good limit idle x :=
  hrun.invariant h fun _ _ _ h hstep => h.step hstep

/-! ## Busy relays -/

/-- Less than a period has passed since the last update, or ever. -/
def Busy (idle : Nat) (x : Timed) : Prop := x.timer.now < x.timer.lastUpdate + idle

instance (idle : Nat) (x : Timed) : Decidable (Busy idle x) :=
  inferInstanceAs (Decidable (x.timer.now < x.timer.lastUpdate + idle))

/-- The timer's task has not made up its mind. -/
def Unexpired (x : Timed) : Prop := x.timer.task ≠ .expired ∧ x.timer.cancelled = false

/-- A step that the timer of a busy relay cannot be at the end of. -/
theorem Unexpired.step (hx : Unexpired x) (h : Good limit idle x)
    (hrange : x.timer.now + idle ≤ limit) (hbusy : Busy idle x) (hact : a ≠ .interrupt)
    (hstep : Step limit idle x a y) : Unexpired y := by
  obtain ⟨htask, hcancelled⟩ := hx
  cases hstep with
  | tick => exact ⟨htask, hcancelled⟩
  | task hstep =>
    cases hstep with
    | expire hwoken hover =>
      -- the task woke up before now, and the deadline is still to come
      have hclock := h.woken _ hwoken
      have hdeadline := h.deadline hrange
      unfold Busy at hbusy
      dsimp only at hclock hdeadline hbusy
      omega
    | lock | wake | again => exact ⟨nofun, hcancelled⟩
    | stop _ hcancelled' =>
      dsimp only at hcancelled
      rw [hcancelled] at hcancelled'
      cases hcancelled'
  | cancel hexpired => exact absurd hexpired htask
  | interrupt => exact absurd rfl hact
  | relay =>
    split
    · exact ⟨htask, hcancelled⟩
    · exact ⟨htask, hcancelled⟩
  | peer => exact ⟨htask, hcancelled⟩

/-- Time does not go back. -/
theorem Step.now_le (h : Step limit idle x a y) : x.timer.now ≤ y.timer.now := by
  cases h with
  | tick d => exact Nat.le_add_right _ _
  | task h => cases h <;> exact Nat.le_refl _
  | relay =>
    split <;> exact Nat.le_refl _
  | cancel | interrupt | peer => exact Nat.le_refl _

theorem now_le_of_run (h : Run (Step limit idle) x trace y) : x.timer.now ≤ y.timer.now := by
  induction h with
  | nil => exact Nat.le_refl _
  | cons hfirst _ ih => exact Nat.le_trans hfirst.now_le ih

/-- A loop that times out has seen the token cancelled. -/
theorem cancelled_of_timeout {r r' : Relay} {l l' : Link} {b : XrayRs.Act}
    (h : RelayStep r l b r' l') (hact : b = .upTimeout ∨ b = .downTimeout) :
    r.result = none ∧ r.cancelled = true := by
  rcases hact with rfl | rfl
  · cases h with
    | upTimeout hrun _ hidle => exact ⟨hrun, hidle⟩
  · cases h with
    | downTimeout hrun _ _ hidle => exact ⟨hrun, hidle⟩

/-- Runs of a busy relay, from any state with the invariant. -/
theorem busy_run {z : Timed} (hrun : Run (Step limit idle) z trace x) (hz : Good limit idle z)
    (hunexpired : Unexpired z) (hstart : Busy idle z) (hrange : x.timer.now + idle ≤ limit)
    (hbusy : ∀ p ∈ trace, Busy idle p.2) (hact : ∀ p ∈ trace, p.1 ≠ .interrupt) :
    Unexpired x ∧ ∀ p ∈ trace, p.1 ≠ .relay .upTimeout ∧ p.1 ≠ .relay .downTimeout := by
  induction hrun with
  | nil => exact ⟨hunexpired, by simp⟩
  | @cons z y x b trace hfirst hrest ih =>
    obtain ⟨hbusy', hbusy⟩ := List.forall_mem_cons.mp hbusy
    obtain ⟨hact', hact⟩ := List.forall_mem_cons.mp hact
    have hnow := Nat.le_trans hfirst.now_le (now_le_of_run hrest)
    have hnext := hunexpired.step hz (by omega) hstart hact' hfirst
    obtain ⟨hlast, hall⟩ := ih (hz.step hfirst) hnext hbusy' hrange hbusy hact
    refine ⟨hlast, List.forall_mem_cons.mpr ⟨?_, hall⟩⟩
    have hlive : ∀ c, (c = XrayRs.Act.upTimeout ∨ c = XrayRs.Act.downTimeout) → b ≠ .relay c := by
      rintro c hc rfl
      cases hfirst with
      | relay hrelay =>
        obtain ⟨hnone, htrue⟩ := cancelled_of_timeout hrelay hc
        have htoken := hz.token hnone
        exact absurd (htrue.symm.trans (htoken.trans hunexpired.2)) (by decide)
    exact ⟨hlive _ (.inl rfl), hlive _ (.inr rfl)⟩

/-- **A busy relay is not interrupted.**  In every run in which at every moment less than a
period has passed since the start or the last chunk, whatever the order of the steps of
the loops, the task of the timer and the peers: the token is not cancelled, and neither
loop ends by the timer. -/
theorem busy_relay_not_idle {conn : Conn} {counter : Option Counter} {leftover : Bytes}
    {link : Link} {now : Nat} (hidle : 0 < idle)
    (hrun : Run (Step limit idle) (start limit idle conn counter leftover link now) trace x)
    (hrange : x.timer.now + idle ≤ limit) (hbusy : ∀ p ∈ trace, Busy idle p.2)
    (hact : ∀ p ∈ trace, p.1 ≠ .interrupt) :
    x.timer.cancelled = false ∧
      ∀ p ∈ trace, p.1 ≠ .relay .upTimeout ∧ p.1 ≠ .relay .downTimeout := by
  have hstart : Busy idle (start limit idle conn counter leftover link now) :=
    Nat.lt_add_of_pos_right hidle
  obtain ⟨hunexpired, hall⟩ := busy_run hrun (good_start ..) ⟨nofun, rfl⟩ hstart hrange hbusy hact
  exact ⟨hunexpired.2, hall⟩

/-- A chunk comes in half a period after the start.  The task wakes up at the first
deadline and finds that it has moved. -/
theorem busy_relay_not_idle_moved : ∃ trace x, Run (Step 1000 10)
    (start 1000 10 (.new [1, 2]) none [] ⟨Chan.new Bytes 1, Chan.new Bytes 1⟩ 0) trace x ∧
      x.timer.now = 11 ∧ x.timer.task = .locking ∧ x.timer.cancelled = false := by
  have hread : RelayStep (.relayStream (.new [1, 2]) none []) ⟨Chan.new Bytes 1, Chan.new Bytes 1⟩
      (.read 2) _ _ := .read 2 rfl rfl rfl (by decide) (by decide) (by decide)
  have hrun : Run (Step 1000 10) (start 1000 10 (.new [1, 2]) none []
      ⟨Chan.new Bytes 1, Chan.new Bytes 1⟩ 0) _ _ :=
    .cons (.task (.lock rfl)) (.cons (.tick 5) (.cons (.relay hread nofun) (.cons (.tick 6)
      (.cons (.task (.wake rfl (by decide))) (.cons (.task (.again rfl (by decide))) (.nil _))))))
  refine ⟨_, _, hrun, rfl, rfl, ?_⟩
  refine (busy_relay_not_idle (by decide) hrun (by decide) ?_ (by simp)).1
  simp only [List.forall_mem_cons]
  exact ⟨by decide, by decide, by decide, by decide, by decide, by decide, by simp⟩

/-! ## Idle relays -/

/-- A step of the timer's task, its cancelling of the token, or the timeout of a loop that
waits at its `select!`: the timer's own doing, without a read, a write or a send of the
loops. -/
def OwnAct (b : Act) : Prop :=
  b = .task ∨ b = .cancel ∨ b = .relay .upTimeout ∨ b = .relay .downTimeout

/-- One of the loops waits for input, and for the token. -/
def WaitsForInput (r : Relay) : Prop := r.up = .reading ∨ r.up.Started ∧ r.down = .receiving

/-- The timer of an idle relay cancels the token, whatever its task is doing. -/
theorem exists_cancelled (h : Good limit idle x) (hrange : x.timer.now + idle ≤ limit)
    (hlive : x.side.relay.result = none) (hquiet : ¬ Busy idle x) :
    ∃ rest y, Run (Step limit idle) x rest y ∧ (∀ p ∈ rest, OwnAct p.1) ∧
      y.side = cancelSide x.side := by
  have hover : x.timer.deadline ≤ x.timer.now := by
    rw [h.deadline hrange]
    exact Nat.not_lt.mp hquiet
  obtain ⟨s, t⟩ := x
  have hown : OwnAct .task := .inl rfl
  -- from each place of the task, the steps to the end of its loop
  have hexpired : ∀ t : Timer, t.task = .expired → ∃ rest y, Run (Step limit idle) ⟨s, t⟩ rest y ∧
      (∀ p ∈ rest, OwnAct p.1) ∧ y.side = cancelSide s := by
    intro t htask
    exact ⟨_, _, .cons (.cancel htask) (.nil _), by simp [OwnAct], rfl⟩
  have hwoken : ∀ t : Timer, t.task = .woken t.now → t.deadline ≤ t.now →
      ∃ rest y, Run (Step limit idle) ⟨s, t⟩ rest y ∧ (∀ p ∈ rest, OwnAct p.1) ∧
        y.side = cancelSide s := by
    intro t htask hover
    obtain ⟨rest, y, hrun, hacts, hside⟩ := hexpired { t with task := .expired } rfl
    exact ⟨_, y, .cons (.task (.expire htask hover)) hrun, List.forall_mem_cons.mpr ⟨hown, hacts⟩,
      hside⟩
  have hsleeping : ∀ (t : Timer) (next : Nat), t.task = .sleeping next → next ≤ t.now →
      t.deadline ≤ t.now → ∃ rest y, Run (Step limit idle) ⟨s, t⟩ rest y ∧
        (∀ p ∈ rest, OwnAct p.1) ∧ y.side = cancelSide s := by
    intro t next htask hnext hover
    obtain ⟨rest, y, hrun, hacts, hside⟩ := hwoken { t with task := .woken t.now } rfl hover
    exact ⟨_, y, .cons (.task (.wake htask hnext)) hrun, List.forall_mem_cons.mpr ⟨hown, hacts⟩,
      hside⟩
  have hlocking : ∀ t : Timer, t.task = .locking → t.deadline ≤ t.now →
      ∃ rest y, Run (Step limit idle) ⟨s, t⟩ rest y ∧ (∀ p ∈ rest, OwnAct p.1) ∧
        y.side = cancelSide s := by
    intro t htask hover
    obtain ⟨rest, y, hrun, hacts, hside⟩ :=
      hsleeping { t with task := .sleeping t.deadline } _ rfl hover hover
    exact ⟨_, y, .cons (.task (.lock htask)) hrun, List.forall_mem_cons.mpr ⟨hown, hacts⟩, hside⟩
  cases htask : t.task with
  | expired => exact hexpired t htask
  | locking => exact hlocking t htask hover
  | sleeping next =>
    exact hsleeping t next htask (Nat.le_trans (h.sleeping hrange next htask) hover) hover
  | woken clock =>
    by_cases hclock : t.deadline ≤ clock
    · obtain ⟨rest, y, hrun, hacts, hside⟩ := hexpired { t with task := .expired } rfl
      exact ⟨_, y, .cons (.task (.expire htask hclock)) hrun,
        List.forall_mem_cons.mpr ⟨hown, hacts⟩, hside⟩
    · obtain ⟨rest, y, hrun, hacts, hside⟩ := hlocking { t with task := .locking } rfl hover
      exact ⟨_, y, .cons (.task (.again htask (Nat.not_le.mp hclock))) hrun,
        List.forall_mem_cons.mpr ⟨hown, hacts⟩, hside⟩
  | stopped =>
    -- the token is cancelled already
    have hcancelled := (h.token hlive).trans (h.stopped htask)
    refine ⟨[], _, .nil _, by simp, ?_⟩
    obtain ⟨r, l⟩ := s
    rw [cancelSide, if_pos hlive]
    dsimp only at hcancelled
    rw [← hcancelled]

/-- The loops are not moved by the timer, and a relay that ends by it was waiting. -/
theorem Step.own (h : Step limit idle x a y) (hown : OwnAct a) :
    (y.side.relay.up = x.side.relay.up ∧ y.side.relay.down = x.side.relay.down ∧
        y.side.relay.result = x.side.relay.result) ∨
      (x.side.relay.result = none ∧ WaitsForInput x.side.relay) := by
  rcases hown with rfl | rfl | rfl | rfl
  · cases h with
    | task => exact .inl ⟨rfl, rfl, rfl⟩
  · cases h with
    | cancel =>
      left
      unfold cancelSide
      split <;> exact ⟨rfl, rfl, rfl⟩
  · cases h with
    | relay h =>
      cases h with
      | upTimeout hrun hup => exact .inr ⟨hrun, .inl hup⟩
  · cases h with
    | relay h =>
      cases h with
      | downTimeout hrun hstarted hdown => exact .inr ⟨hrun, .inr ⟨hstarted, hdown⟩⟩

/-- A relay that ends by its timer was waiting for input. -/
theorem waits_of_run {rest : List (Act × Timed)} (hrun : Run (Step limit idle) x rest y)
    (hacts : ∀ p ∈ rest, OwnAct p.1) (hlive : x.side.relay.result = none)
    (hended : y.side.relay.result ≠ none) : WaitsForInput x.side.relay := by
  induction hrun with
  | nil => exact absurd hlive hended
  | cons hfirst _ ih =>
    obtain ⟨hown, hacts⟩ := List.forall_mem_cons.mp hacts
    rcases hfirst.own hown with ⟨hup, hdown, hresult⟩ | ⟨-, hwaits⟩
    · have hwaits := ih hacts (hresult.trans hlive) hended
      unfold WaitsForInput at hwaits ⊢
      rwa [hup, hdown] at hwaits
    · exact hwaits

/-- **An idle relay ends by its timer just where a loop waits for input.**  In any
reachable state in which the relay has been idle for a whole period: it can end with the
idle error by its timer alone, where no loop reads, writes or sends, exactly if one of its
loops is at its `select!`.  A relay of which one loop waits for room on the link, or is not
running, and the other for its connection to take bytes, is not ended by the timer. -/
theorem idle_relay_ends_iff {conn : Conn} {counter : Option Counter} {leftover : Bytes}
    {link : Link} {now : Nat}
    (hrun : Run (Step limit idle) (start limit idle conn counter leftover link now) trace x)
    (hrange : x.timer.now + idle ≤ limit) (hlive : x.side.relay.result = none)
    (hquiet : ¬ Busy idle x) :
    (∃ rest y, Run (Step limit idle) x rest y ∧ (∀ p ∈ rest, OwnAct p.1) ∧
      y.side.relay.result = some (.error idleErr)) ↔ WaitsForInput x.side.relay := by
  have hgood := good_of_run (good_start ..) hrun
  constructor
  · rintro ⟨rest, y, hrest, hacts, hresult⟩
    exact waits_of_run hrest hacts hlive (by rw [hresult]; nofun)
  · intro hwaits
    obtain ⟨rest, ⟨s, t⟩, hrest, hacts, hside⟩ := exists_cancelled hgood hrange hlive hquiet
    dsimp only at hside
    rw [cancelSide, if_pos hlive] at hside
    subst hside
    rcases hwaits with hup | ⟨hstarted, hdown⟩
    · refine ⟨_, _, hrest.trans (.cons (.relay (.upTimeout hlive hup rfl) nofun) (.nil _)), ?_, rfl⟩
      intro p hp
      rcases List.mem_append.mp hp with hp | hp
      · exact hacts p hp
      · rw [List.mem_singleton.mp hp]
        exact .inr (.inr (.inl rfl))
    · refine ⟨_, _, hrest.trans (.cons (.relay (.downTimeout hlive hstarted hdown rfl) nofun)
        (.nil _)), ?_, rfl⟩
      intro p hp
      rcases List.mem_append.mp hp with hp | hp
      · exact hacts p hp
      · rw [List.mem_singleton.mp hp]
        exact .inr (.inr (.inr rfl))

/-- Nothing comes in for a whole period. -/
theorem idle_relay_ends_iff_quiet : ∃ rest y, Run (Step 1000 10)
    ⟨(start 1000 10 (.new []) none [] ⟨Chan.new Bytes 1, Chan.new Bytes 1⟩ 0).side,
      { Timer.new 1000 10 0 with now := 10 }⟩ rest y ∧
      y.side.relay.result = some (.error idleErr) := by
  have hrun : Run (Step 1000 10) (start 1000 10 (.new []) none []
      ⟨Chan.new Bytes 1, Chan.new Bytes 1⟩ 0) _ _ := .cons (.tick 10) (.nil _)
  obtain ⟨rest, y, hrest, -, hresult⟩ :=
    (idle_relay_ends_iff hrun (by decide) rfl (by decide)).mpr (.inl rfl)
  exact ⟨rest, y, hrest, hresult⟩

end XrayRs.Idle
