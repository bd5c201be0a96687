import XrayRs.StepSystem
import XrayRs.Text
import Mathlib.Algebra.Order.BigOperators.Group.Finset
import Mathlib.Data.Finset.Insert

/-! # Traffic counters and their reports

`Counter` and `Stats` (`kernel/src/stats.rs`) and the reporting loop of
`user_info_monitor` (`saas/src/controller.rs`), one atomic operation at a time: the
four atomics of a counter, the set of active tags and the registry are read and
written in separate steps, and any number of workers (connections that count bytes,
controllers that report) take their steps in any order.

A worker's program counter holds what the running call has in its local variables.
So the bytes that are neither in a counter nor reported can be read off the workers,
and nothing is lost or reported twice (`traffic_conserved`). -/

namespace XrayRs.Traffic

open StepSystem Text

/-! ## Counters -/

/-- The two directions of a counter. -/
inductive Dir
  | up
  | down
  deriving DecidableEq

/-- A counter: its tag, and which of the counters made for that tag it is. -/
structure CounterId where
  tag : String
  gen : Nat
  deriving DecidableEq

/-- The atomics of a `Counter`. -/
structure Cell where
  up : UInt64
  down : UInt64
  dirty : Bool
  deriving DecidableEq

namespace Cell

/-- `Counter::new`. -/
def new : Cell := ⟨0, 0, false⟩

/-- The sum of one direction. -/
def get (cell : Cell) : Dir → UInt64
  | .up => cell.up
  | .down => cell.down

/-- `fetch_add`. -/
def fetchAdd (cell : Cell) (d : Dir) (n : UInt64) : Cell :=
  match d with
  | .up => { cell with up := cell.up + n }
  | .down => { cell with down := cell.down + n }

/-- What `swap(0)` leaves. -/
def clear (cell : Cell) (d : Dir) : Cell :=
  match d with
  | .up => { cell with up := 0 }
  | .down => { cell with down := 0 }

@[simp] theorem get_new (d : Dir) : new.get d = 0 := by
  cases d <;> rfl

@[simp] theorem get_dirty (cell : Cell) (b : Bool) (d : Dir) :
    { cell with dirty := b }.get d = cell.get d := by
  cases d <;> rfl

@[simp] theorem dirty_fetchAdd (cell : Cell) (d : Dir) (n : UInt64) :
    (cell.fetchAdd d n).dirty = cell.dirty := by
  cases d <;> rfl

@[simp] theorem dirty_clear (cell : Cell) (d : Dir) : (cell.clear d).dirty = cell.dirty := by
  cases d <;> rfl

theorem get_fetchAdd (cell : Cell) (d d' : Dir) (n : UInt64) :
    (cell.fetchAdd d n).get d' = if d' = d then cell.get d' + n else cell.get d' := by
  cases d <;> cases d' <;> rfl

theorem get_clear (cell : Cell) (d d' : Dir) :
    (cell.clear d).get d' = if d' = d then 0 else cell.get d' := by
  cases d <;> cases d' <;> rfl

end Cell

/-- `Stats`, with the counters it has made. -/
structure Stats where
  cells : CounterId → Cell
  users : String → Option Nat
  gens : String → Nat
  active : Finset String

namespace Stats

/-- `Stats::new`. -/
def new : Stats := ⟨fun _ => .new, fun _ => none, fun _ => 0, ∅⟩

/-- The counter is the one registered under its tag. -/
def Registered (st : Stats) (c : CounterId) : Prop := st.users c.tag = some c.gen

instance (st : Stats) (c : CounterId) : Decidable (st.Registered c) :=
  inferInstanceAs (Decidable (st.users c.tag = some c.gen))

/-- The bytes in the counter that is registered under a tag. -/
def inCounter (st : Stats) (tag : String) (d : Dir) : Nat :=
  match st.users tag with
  | none => 0
  | some gen => ((st.cells ⟨tag, gen⟩).get d).toNat

/-- `Stats::counter` for a tag without a counter. -/
def create (st : Stats) (tag : String) : Stats :=
  { st with
    cells := Function.update st.cells ⟨tag, st.gens tag⟩ .new
    users := Function.update st.users tag (some (st.gens tag))
    gens := Function.update st.gens tag (st.gens tag + 1) }

/-- One counter's atomics are written. -/
def setCell (st : Stats) (c : CounterId) (cell : Cell) : Stats :=
  { st with cells := Function.update st.cells c cell }

variable {st : Stats} {c c' : CounterId} {cell : Cell} {d d' : Dir}

theorem setCell_self : (st.setCell c cell).cells c = cell := Function.update_self ..

theorem setCell_ne (h : c ≠ c') : (st.setCell c' cell).cells c = st.cells c :=
  Function.update_of_ne h ..

/-- A write that leaves the flag alone. -/
theorem dirty_setCell (h : cell.dirty = (st.cells c').dirty) :
    ((st.setCell c' cell).cells c).dirty = (st.cells c).dirty := by
  by_cases hc : c = c'
  · subst hc
    rw [setCell_self, h]
  · rw [setCell_ne hc]

/-- A write that leaves one direction alone. -/
theorem get_setCell (h : cell.get d = (st.cells c').get d) :
    ((st.setCell c' cell).cells c).get d = (st.cells c).get d := by
  by_cases hc : c = c'
  · subst hc
    rw [setCell_self, h]
  · rw [setCell_ne hc]

/-- What is left after a `swap(0)` was there before, in another place. -/
theorem get_clear_ne_zero
    (h : ((st.setCell c' ((st.cells c').clear d')).cells c).get d ≠ 0) :
    (st.cells c).get d ≠ 0 ∧ ¬ (c' = c ∧ d = d') := by
  by_cases hc : c = c'
  · subst hc
    rw [setCell_self, Cell.get_clear] at h
    by_cases hd : d = d'
    · rw [if_pos hd] at h
      exact absurd rfl h
    · rw [if_neg hd] at h
      exact ⟨h, fun heq => hd heq.2⟩
  · rw [setCell_ne hc] at h
    exact ⟨h, fun heq => hc heq.1.symm⟩

end Stats

/-! ## Workers -/

/-- `parse_user_tag`: the user's id and email. -/
def parseUserTag (nodeTag tag : String) : Option (Int × String) := do
  let rest ← stripPrefix (nodeTag ++ "|").toList tag.toList
  let (email, uid) ← rsplitOnce '|' rest
  let uid ← parseSigned (2 ^ 31 - 1) uid
  return (uid, .ofList email)

/-- Counts that a cycle has taken from a counter. -/
structure Taken where
  counter : CounterId
  up : UInt64
  down : UInt64

/-- The count of one direction. -/
def Taken.get (t : Taken) : Dir → UInt64
  | .up => t.up
  | .down => t.down

/-- The local variables of the reporting loop: the counters still to come, and
`taken`. -/
structure Cycle where
  todo : List CounterId
  taken : List Taken

/-- Where a call on a counter returns to: to the connection that counts, to the loop
after a tag that does not match, or to the loop that puts back after a failed
report. -/
inductive After
  | idle
  | looping (cycle : Cycle)
  | failing (taken : List Taken)

/-- A call of `add_up`, `add_down` or `restore`, with the `fetch_add`s still to do. -/
structure Call where
  counter : CounterId
  adds : List (Dir × UInt64)
  after : After

/-- The program counter of a worker. -/
inductive Pc
  | idle
  | marking (call : Call)
  | inserting (call : Call)
  | adding (call : Call)
  | drained (tags : List String)
  | looping (cycle : Cycle)
  | storing (c : CounterId) (cycle : Cycle)
  | swapUp (c : CounterId) (cycle : Cycle)
  | swapDown (c : CounterId) (up : UInt64) (cycle : Cycle)
  | reporting (taken : List Taken)
  | failing (taken : List Taken)

/-- A worker: the node tag it reports for, the counters of its open connections, and
where it is. -/
structure Worker where
  nodeTag : String
  held : List CounterId
  pc : Pc

/-- The program counter after a call. -/
def After.pc : After → Pc
  | .idle => .idle
  | .looping cycle => .looping cycle
  | .failing taken => .failing taken

/-- The start of a call: the counter is marked if there is anything to add. -/
def Call.start (call : Call) : Pc :=
  if call.adds.any (·.2 != 0) then .marking call else .adding call

/-- After a `fetch_add`. -/
def Call.next (call : Call) : Pc :=
  if call.adds.isEmpty then call.after.pc else .adding call

/-- `restore`. -/
def Taken.restore (taken : Taken) (after : After) : Call :=
  ⟨taken.counter, [(.up, taken.up), (.down, taken.down)], after⟩

/-- The rest of the loop's body after `take`: nothing to report, a tag of another
node, or one more entry. -/
def Cycle.took (cycle : Cycle) (nodeTag : String) (taken : Taken) : Pc :=
  if taken.up = 0 ∧ taken.down = 0 then .looping cycle
  else
    match parseUserTag nodeTag taken.counter.tag with
    | none => (taken.restore (.looping cycle)).start
    | some _ => .looping { cycle with taken := cycle.taken ++ [taken] }

/-- The end of the loop: with traffic to report, and unless uploads are disabled, it
is sent. -/
def Cycle.finish (cycle : Cycle) (disableUpload : Bool) : Pc :=
  if cycle.taken.isEmpty ∨ disableUpload then .idle else .reporting cycle.taken

/-- `active_counters`, the second half: the registered counters among the drained
tags. -/
def Stats.lookup (st : Stats) (tags : List String) : List CounterId :=
  tags.filterMap fun tag => (st.users tag).map (⟨tag, ·⟩)

/-- The operations of a worker. -/
inductive Act
  | connect (tag : String)
  | close (c : CounterId)
  | add (c : CounterId) (d : Dir) (n : UInt64)
  | mark
  | insert
  | fetchAdd
  | drain (tags : List String)
  | lookup
  | next
  | store
  | swapUp
  | swapDown
  | finish
  | reportOk
  | reportErr
  | giveBack
  | done

/-- **The operations, one atomic access each.** -/
inductive Op (disableUpload : Bool) : Stats → Worker → Act → Stats → Worker → Prop
  | create {st : Stats} {w : Worker} {tag : String} (hpc : w.pc = .idle)
      (hnone : st.users tag = none) :
      Op disableUpload st w (.connect tag) (st.create tag)
        { w with held := ⟨tag, st.gens tag⟩ :: w.held }
  | get {st : Stats} {w : Worker} {tag : String} {gen : Nat} (hpc : w.pc = .idle)
      (hsome : st.users tag = some gen) :
      Op disableUpload st w (.connect tag) st { w with held := ⟨tag, gen⟩ :: w.held }
  | close {st : Stats} {w : Worker} {c : CounterId} (hpc : w.pc = .idle) :
      Op disableUpload st w (.close c) st { w with held := w.held.erase c }
  | add {st : Stats} {w : Worker} {c : CounterId} {d : Dir} {n : UInt64} (hpc : w.pc = .idle)
      (hheld : c ∈ w.held) :
      Op disableUpload st w (.add c d n) st { w with pc := Call.start ⟨c, [(d, n)], .idle⟩ }
  | markFirst {st : Stats} {w : Worker} {call : Call} (hpc : w.pc = .marking call)
      (hclean : (st.cells call.counter).dirty = false) :
      Op disableUpload st w .mark
        (st.setCell call.counter { st.cells call.counter with dirty := true })
        { w with pc := .inserting call }
  | markAgain {st : Stats} {w : Worker} {call : Call} (hpc : w.pc = .marking call)
      (hdirty : (st.cells call.counter).dirty = true) :
      Op disableUpload st w .mark st { w with pc := .adding call }
  | insert {st : Stats} {w : Worker} {call : Call} (hpc : w.pc = .inserting call) :
      Op disableUpload st w .insert { st with active := insert call.counter.tag st.active }
        { w with pc := .adding call }
  | fetchAdd {st : Stats} {w : Worker} {c : CounterId} {d : Dir} {n : UInt64}
      {adds : List (Dir × UInt64)} {after : After}
      (hpc : w.pc = .adding ⟨c, (d, n) :: adds, after⟩) :
      Op disableUpload st w .fetchAdd (st.setCell c ((st.cells c).fetchAdd d n))
        { w with pc := Call.next ⟨c, adds, after⟩ }
  | drain {st : Stats} {w : Worker} {tags : List String} (hpc : w.pc = .idle)
      (hnodup : tags.Nodup) (htags : tags.toFinset = st.active) :
      Op disableUpload st w (.drain tags) { st with active := ∅ } { w with pc := .drained tags }
  | lookup {st : Stats} {w : Worker} {tags : List String} (hpc : w.pc = .drained tags) :
      Op disableUpload st w .lookup st { w with pc := .looping ⟨st.lookup tags, []⟩ }
  | next {st : Stats} {w : Worker} {c : CounterId} {todo : List CounterId} {taken : List Taken}
      (hpc : w.pc = .looping ⟨c :: todo, taken⟩) :
      Op disableUpload st w .next st { w with pc := .storing c ⟨todo, taken⟩ }
  | store {st : Stats} {w : Worker} {c : CounterId} {cycle : Cycle} (hpc : w.pc = .storing c cycle) :
      Op disableUpload st w .store (st.setCell c { st.cells c with dirty := false })
        { w with pc := .swapUp c cycle }
  | swapUp {st : Stats} {w : Worker} {c : CounterId} {cycle : Cycle} (hpc : w.pc = .swapUp c cycle) :
      Op disableUpload st w .swapUp (st.setCell c ((st.cells c).clear .up))
        { w with pc := .swapDown c (st.cells c).up cycle }
  | swapDown {st : Stats} {w : Worker} {c : CounterId} {up : UInt64} {cycle : Cycle}
      (hpc : w.pc = .swapDown c up cycle) :
      Op disableUpload st w .swapDown (st.setCell c ((st.cells c).clear .down))
        { w with pc := cycle.took w.nodeTag ⟨c, up, (st.cells c).down⟩ }
  | finish {st : Stats} {w : Worker} {taken : List Taken} (hpc : w.pc = .looping ⟨[], taken⟩) :
      Op disableUpload st w .finish st { w with pc := Cycle.finish ⟨[], taken⟩ disableUpload }
  | reportOk {st : Stats} {w : Worker} {taken : List Taken} (hpc : w.pc = .reporting taken) :
      Op disableUpload st w .reportOk st { w with pc := .idle }
  | reportErr {st : Stats} {w : Worker} {taken : List Taken} (hpc : w.pc = .reporting taken) :
      Op disableUpload st w .reportErr st { w with pc := .failing taken }
  | giveBack {st : Stats} {w : Worker} {first : Taken} {taken : List Taken}
      (hpc : w.pc = .failing (first :: taken)) :
      Op disableUpload st w .giveBack st { w with pc := (first.restore (.failing taken)).start }
  | done {st : Stats} {w : Worker} (hpc : w.pc = .failing []) :
      Op disableUpload st w .done st { w with pc := .idle }

/-! ## Bytes outside the counters -/

/-- The bytes of one direction that a list of additions brings under a tag. -/
def amount (tag : String) (d : Dir) (c : CounterId) : List (Dir × UInt64) → Nat
  | [] => 0
  | (d', n) :: adds => (if c.tag = tag ∧ d' = d then n.toNat else 0) + amount tag d c adds

/-- The bytes of one direction that were taken under a tag. -/
def takenAmount (tag : String) (d : Dir) : List Taken → Nat
  | [] => 0
  | t :: taken => amount tag d t.counter [(.up, t.up), (.down, t.down)] + takenAmount tag d taken

/-- What the caller of a call has taken. -/
def After.inFlight (tag : String) (d : Dir) : After → Nat
  | .idle => 0
  | .looping cycle => takenAmount tag d cycle.taken
  | .failing taken => takenAmount tag d taken

/-- The bytes a call carries: those of a `restore` were taken before; those of an
`add_up` or `add_down` are not yet counted. -/
def Call.inFlight (tag : String) (d : Dir) (call : Call) : Nat :=
  match call.after with
  | .idle => 0
  | after => amount tag d call.counter call.adds + after.inFlight tag d

/-- The bytes a worker has taken and neither reported nor put back. -/
def Pc.inFlight (tag : String) (d : Dir) : Pc → Nat
  | .idle | .drained _ => 0
  | .marking call | .inserting call | .adding call => call.inFlight tag d
  | .looping cycle | .storing _ cycle | .swapUp _ cycle => takenAmount tag d cycle.taken
  | .swapDown c up cycle => amount tag d c [(.up, up)] + takenAmount tag d cycle.taken
  | .reporting taken | .failing taken => takenAmount tag d taken

/-- `i64::try_from(n).unwrap_or(i64::MAX)`. -/
def clampI64 (n : UInt64) : Nat := min n.toNat (2 ^ 63 - 1)

/-- The bytes of one direction that a report brings under a tag. -/
def reportAmount (tag : String) (d : Dir) : List Taken → Nat
  | [] => 0
  | t :: taken =>
    (if t.counter.tag = tag then clampI64 (t.get d) else 0) + reportAmount tag d taken

/-- The bytes that an operation adds to what was counted: the `fetch_add` of an
`add_up` or `add_down`. -/
def Pc.counts (tag : String) (d : Dir) (pc : Pc) (a : Act) : Nat :=
  match pc, a with
  | .adding ⟨c, (d', n) :: _, .idle⟩, .fetchAdd => amount tag d c [(d', n)]
  | _, _ => 0

/-- The bytes that an operation reports. -/
def Pc.reports (tag : String) (d : Dir) (pc : Pc) (a : Act) : Nat :=
  match pc, a with
  | .reporting taken, .reportOk => reportAmount tag d taken
  | _, _ => 0

/-! ## The system -/

/-- The registry, the workers, and a record of the bytes counted and reported so far
by tag and direction. -/
structure State (ι : Type) where
  stats : Stats
  worker : ι → Worker
  added : String → Dir → Nat
  reported : String → Dir → Nat

namespace State

variable {ι : Type}

/-- Nothing counted yet, and every worker idle. -/
def new (nodeTag : ι → String) : State ι :=
  ⟨.new, fun i => ⟨nodeTag i, [], .idle⟩, fun _ _ => 0, fun _ _ => 0⟩

variable [DecidableEq ι]

/-- The state after worker `i` did `a`, which left `st` and `w`. -/
def after (s : State ι) (i : ι) (a : Act) (st : Stats) (w : Worker) : State ι where
  stats := st
  worker := Function.update s.worker i w
  added tag d := s.added tag d + (s.worker i).pc.counts tag d a
  reported tag d := s.reported tag d + (s.worker i).pc.reports tag d a

/-- One operation of one worker. -/
inductive Step (disableUpload : ι → Bool) : State ι → ι × Act → State ι → Prop
  | mk {s : State ι} {i : ι} {a : Act} {st : Stats} {w : Worker}
      (hop : Op (disableUpload i) s.stats (s.worker i) a st w) :
      Step disableUpload s (i, a) (s.after i a st w)

variable {s : State ι} {i j : ι} {a : Act} {st : Stats} {w : Worker}

@[simp] theorem after_worker_self : (s.after i a st w).worker i = w := Function.update_self ..

theorem after_worker_ne (h : j ≠ i) : (s.after i a st w).worker j = s.worker j :=
  Function.update_of_ne h ..

end State

/-! ## Live counters -/

/-- The caller of a call still has counts of this counter. -/
def After.Refers (c : CounterId) : After → Prop
  | .idle => False
  | .looping cycle => ∃ t ∈ cycle.taken, t.counter = c
  | .failing taken => ∃ t ∈ taken, t.counter = c

/-- The worker may still add to this counter. -/
def Pc.Refers (c : CounterId) : Pc → Prop
  | .idle | .drained _ => False
  | .marking call | .inserting call | .adding call => call.counter = c ∨ call.after.Refers c
  | .looping cycle | .storing _ cycle | .swapUp _ cycle => ∃ t ∈ cycle.taken, t.counter = c
  | .swapDown c' up cycle => (c' = c ∧ up ≠ 0) ∨ ∃ t ∈ cycle.taken, t.counter = c
  | .reporting taken | .failing taken => ∃ t ∈ taken, t.counter = c

/-- The worker has the counter of an open connection, or may still add to it. -/
def Worker.Refers (w : Worker) (c : CounterId) : Prop := c ∈ w.held ∨ w.pc.Refers c

/-- **A live counter** holds bytes or may still receive some. -/
def State.Live {ι : Type} (s : State ι) (c : CounterId) : Prop :=
  (∃ d, (s.stats.cells c).get d ≠ 0) ∨ ∃ i, (s.worker i).Refers c

section
variable {st st' : Stats} {w w' : Worker} {a : Act} {b : Bool} {c : CounterId} {call : Call}

theorem After.refers_pc (after : After) : after.pc.Refers c ↔ after.Refers c := by
  cases after <;> rfl

theorem Call.refers_start : call.start.Refers c ↔ call.counter = c ∨ call.after.Refers c := by
  unfold Call.start
  split <;> rfl

theorem Call.refers_next (h : call.next.Refers c) : call.counter = c ∨ call.after.Refers c := by
  unfold Call.next at h
  split at h
  · exact .inr ((After.refers_pc _).mp h)
  · exact h

theorem Cycle.refers_took {cycle : Cycle} {nodeTag : String} {taken : Taken}
    (h : (cycle.took nodeTag taken).Refers c) :
    (taken.counter = c ∧ (taken.up ≠ 0 ∨ taken.down ≠ 0)) ∨ ∃ t ∈ cycle.taken, t.counter = c := by
  unfold Cycle.took at h
  by_cases hzero : taken.up = 0 ∧ taken.down = 0
  · rw [if_pos hzero] at h
    exact .inr h
  · rw [if_neg hzero] at h
    have hne := not_and_or.mp hzero
    cases hparse : parseUserTag nodeTag taken.counter.tag with
    | none =>
      rw [hparse] at h
      rcases Call.refers_start.mp h with hc | hc
      · exact .inl ⟨hc, hne⟩
      · exact .inr hc
    | some user =>
      rw [hparse] at h
      obtain ⟨t, ht, hc⟩ := h
      rcases List.mem_append.mp ht with ht | ht
      · exact .inr ⟨t, ht, hc⟩
      · obtain rfl := List.mem_singleton.mp ht
        exact .inl ⟨hc, hne⟩

/-- **Where references come from**: from earlier ones, from the registry for a new
connection, or from a counter that held bytes. -/
theorem Op.refers (h : Op b st w a st' w') (hrefers : w'.Refers c) :
    w.Refers c ∨ (a = .connect c.tag ∧ st'.Registered c) ∨ ∃ d, (st.cells c).get d ≠ 0 := by
  cases h with
  | @create tag hpc hnone =>
    rcases hrefers with hheld | hpc'
    · rcases List.mem_cons.mp hheld with rfl | hheld
      · exact .inr (.inl ⟨rfl, Function.update_self ..⟩)
      · exact .inl (.inl hheld)
    · exact .inl (.inr hpc')
  | get hpc hsome =>
    rcases hrefers with hheld | hpc'
    · rcases List.mem_cons.mp hheld with rfl | hheld
      · exact .inr (.inl ⟨rfl, hsome⟩)
      · exact .inl (.inl hheld)
    · exact .inl (.inr hpc')
  | close =>
    rcases hrefers with hheld | hpc'
    · exact .inl (.inl (List.mem_of_mem_erase hheld))
    · exact .inl (.inr hpc')
  | add hpc hmem =>
    rcases hrefers with hheld | hpc'
    · exact .inl (.inl hheld)
    · rcases Call.refers_start.mp hpc' with rfl | hnone
      · exact .inl (.inl hmem)
      · exact hnone.elim
  | swapUp hpc =>
    rcases hrefers with hheld | ⟨rfl, hup⟩ | htaken
    · exact .inl (.inl hheld)
    · exact .inr (.inr ⟨.up, hup⟩)
    · exact .inl (.inr (by rw [hpc]; exact htaken))
  | @swapDown c' up cycle hpc =>
    rcases hrefers with hheld | hpc'
    · exact .inl (.inl hheld)
    · rcases Cycle.refers_took hpc' with ⟨rfl, hup | hdown⟩ | htaken
      · exact .inl (.inr (by rw [hpc]; exact .inl ⟨rfl, hup⟩))
      · exact .inr (.inr ⟨.down, hdown⟩)
      · exact .inl (.inr (by rw [hpc]; exact .inr htaken))
  | fetchAdd hpc =>
    rcases hrefers with hheld | hpc'
    · exact .inl (.inl hheld)
    · have hcall := Call.refers_next hpc'
      exact .inl (.inr (by rw [hpc]; exact hcall))
  | drain | lookup =>
    rcases hrefers with hheld | hpc'
    · exact .inl (.inl hheld)
    · exact absurd hpc' (by simp [Pc.Refers])
  | finish hpc =>
    rcases hrefers with hheld | hpc'
    · exact .inl (.inl hheld)
    · unfold Cycle.finish at hpc'
      split at hpc'
      · exact hpc'.elim
      · exact .inl (.inr (by rw [hpc]; exact hpc'))
  | reportOk hpc | done hpc =>
    rcases hrefers with hheld | hpc'
    · exact .inl (.inl hheld)
    · exact hpc'.elim
  | @giveBack first taken hpc =>
    rcases hrefers with hheld | hpc'
    · exact .inl (.inl hheld)
    · refine .inl (.inr ?_)
      rw [hpc]
      rcases Call.refers_start.mp hpc' with rfl | ⟨t, ht, hc⟩
      · exact ⟨first, List.mem_cons_self, rfl⟩
      · exact ⟨t, List.mem_cons_of_mem _ ht, hc⟩
  | markFirst hpc | markAgain hpc | insert hpc | next hpc | store hpc | reportErr hpc =>
    rcases hrefers with hheld | hpc'
    · exact .inl (.inl hheld)
    · exact .inl (.inr (by rw [hpc]; exact hpc'))

/-- Counters stay registered. -/
theorem Op.registered (h : Op b st w a st' w') (hc : st.Registered c) : st'.Registered c := by
  cases h with
  | @create tag hpc hnone =>
    have hne : c.tag ≠ tag := by
      rintro rfl
      exact absurd (hnone.symm.trans hc) nofun
    exact (Function.update_of_ne hne ..).trans hc
  | _ => exact hc

/-- Where bytes come from: they were there, or a call added them. -/
theorem Op.cell_ne_zero (h : Op b st w a st' w') {d : Dir} (hcell : (st'.cells c).get d ≠ 0) :
    (st.cells c).get d ≠ 0 ∨ w.Refers c := by
  cases h with
  | @create tag =>
    by_cases hc : c = ⟨tag, st.gens tag⟩
    · subst hc
      exact absurd hcell (by simp [Stats.create])
    · exact .inl (by simpa [Stats.create, hc] using hcell)
  | markFirst | store =>
    rw [Stats.get_setCell (by simp)] at hcell
    exact .inl hcell
  | @fetchAdd c' d' n adds after hpc =>
    by_cases hc : c = c'
    · exact .inr (.inr (by rw [hpc]; exact .inl hc.symm))
    · rw [Stats.setCell_ne hc] at hcell
      exact .inl hcell
  | swapUp | swapDown => exact .inl (Stats.get_clear_ne_zero hcell).1
  | _ => exact .inl hcell

end

/-- **Every live counter is registered**, so that a report can find it. -/
def LiveRegistered {ι : Type} (s : State ι) : Prop := ∀ c, s.Live c → s.stats.Registered c

theorem new_liveRegistered {ι : Type} (nodeTag : ι → String) :
    LiveRegistered (State.new nodeTag) := by
  rintro c (⟨d, hcell⟩ | ⟨i, hheld | hpc⟩)
  · exact absurd (Cell.get_new d) hcell
  · cases hheld
  · exact hpc.elim

/-- **How a counter comes to life**: a connection takes it from the registry. -/
theorem State.Step.live {ι : Type} [DecidableEq ι] {disableUpload : ι → Bool} {s t : State ι}
    {i : ι} {a : Act} {c : CounterId} (h : Step disableUpload s (i, a) t) (hlive : t.Live c) :
    s.Live c ∨ (a = .connect c.tag ∧ t.stats.Registered c) := by
  obtain @⟨_, _, st, w, hop⟩ := h
  rcases hlive with ⟨d, hcell⟩ | ⟨j, hrefers⟩
  · rcases hop.cell_ne_zero hcell with hne | hrefers
    · exact .inl (.inl ⟨d, hne⟩)
    · exact .inl (.inr ⟨i, hrefers⟩)
  · by_cases hj : j = i
    · subst hj
      rw [after_worker_self] at hrefers
      rcases hop.refers hrefers with hrefers | hnew | hcell
      · exact .inl (.inr ⟨j, hrefers⟩)
      · exact .inr hnew
      · exact .inl (.inl hcell)
    · rw [after_worker_ne hj] at hrefers
      exact .inl (.inr ⟨j, hrefers⟩)

/-- **One operation** keeps live counters registered. -/
theorem State.Step.liveRegistered {ι : Type} [DecidableEq ι] {disableUpload : ι → Bool}
    {s t : State ι} {a : ι × Act} (h : Step disableUpload s a t) (hs : LiveRegistered s) :
    LiveRegistered t := by
  intro c hc
  rcases h.live hc with hold | ⟨-, hreg⟩
  · obtain @⟨i, a, st, w, hop⟩ := h
    exact hop.registered (hs c hold)
  · exact hreg

/-! ## Conservation -/

section
variable {st st' : Stats} {w w' : Worker} {a : Act} {b : Bool} {c : CounterId} {call : Call}
  {tag : String} {d : Dir}

theorem Stats.inCounter_of_registered (h : st.Registered c) (htag : c.tag = tag) :
    st.inCounter tag d = ((st.cells c).get d).toNat := by
  subst htag
  unfold inCounter
  rw [show st.users c.tag = some c.gen from h]

theorem Stats.inCounter_setCell {cell : Cell} :
    (st.setCell c cell).inCounter tag d =
      if st.Registered c ∧ c.tag = tag then (cell.get d).toNat else st.inCounter tag d := by
  by_cases h : st.Registered c ∧ c.tag = tag
  · have hreg : (st.setCell c cell).Registered c := h.1
    rw [if_pos h, inCounter_of_registered hreg h.2]
    simp [setCell]
  · rw [if_neg h]
    unfold inCounter setCell
    dsimp only
    cases huser : st.users tag with
    | none => rfl
    | some gen =>
      have hne : (⟨tag, gen⟩ : CounterId) ≠ c := by
        rintro rfl
        exact h ⟨huser, rfl⟩
      simp [hne]

theorem Stats.inCounter_setCell_dirty {dirty : Bool} :
    (st.setCell c { st.cells c with dirty }).inCounter tag d = st.inCounter tag d := by
  rw [inCounter_setCell]
  split
  · rename_i h
    rw [inCounter_of_registered h.1 h.2, Cell.get_dirty]
  · rfl

theorem Stats.inCounter_create (h : st.users c.tag = none) :
    (st.create c.tag).inCounter tag d = st.inCounter tag d := by
  unfold inCounter create
  by_cases htag : tag = c.tag
  · subst htag
    simp [h]
  · simp only [Function.update_of_ne htag]
    cases st.users tag with
    | none => rfl
    | some gen =>
      have hne : (⟨tag, gen⟩ : CounterId) ≠ ⟨c.tag, st.gens c.tag⟩ := fun heq =>
        htag (congrArg CounterId.tag heq)
      simp [hne]

theorem amount_single (d' : Dir) (n : UInt64) :
    amount tag d c [(d', n)] = if c.tag = tag ∧ d' = d then n.toNat else 0 := rfl

/-- **A `fetch_add`** that does not overflow. -/
theorem Stats.inCounter_fetchAdd {d' : Dir} {n : UInt64} (h : st.Registered c)
    (hfits : st.inCounter tag d + amount tag d c [(d', n)] < 2 ^ 64) :
    (st.setCell c ((st.cells c).fetchAdd d' n)).inCounter tag d =
      st.inCounter tag d + amount tag d c [(d', n)] := by
  rw [inCounter_setCell]
  by_cases htag : c.tag = tag
  · rw [if_pos ⟨h, htag⟩, Cell.get_fetchAdd]
    rw [inCounter_of_registered h htag, amount_single] at hfits ⊢
    by_cases hd : d' = d
    · rw [if_pos ⟨htag, hd⟩] at hfits
      rw [if_pos hd.symm, if_pos ⟨htag, hd⟩, UInt64.toNat_add, Nat.mod_eq_of_lt hfits]
    · rw [if_neg (Ne.symm hd), if_neg (fun h => hd h.2), Nat.add_zero]
  · rw [if_neg (fun h => htag h.2), amount_single, if_neg (fun h => htag h.1), Nat.add_zero]

/-- **A `swap(0)`** moves bytes out of the counter; a counter that is not registered
has none. -/
theorem Stats.inCounter_clear (c : CounterId) (tag : String) (d d' : Dir)
    (h : ∀ c d, (st.cells c).get d ≠ 0 → st.Registered c) :
    (st.setCell c ((st.cells c).clear d')).inCounter tag d +
      amount tag d c [(d', (st.cells c).get d')] = st.inCounter tag d := by
  rw [inCounter_setCell, amount_single]
  by_cases htag : c.tag = tag
  · by_cases hreg : st.Registered c
    · rw [if_pos ⟨hreg, htag⟩, Cell.get_clear, inCounter_of_registered hreg htag]
      by_cases hd : d = d'
      · subst hd
        simp [htag]
      · rw [if_neg hd, if_neg (fun h => hd h.2.symm), Nat.add_zero]
    · have hzero : (st.cells c).get d' = 0 := by
        by_contra hne
        exact hreg (h c d' hne)
      rw [if_neg (fun h => hreg h.1), hzero]
      simp
  · rw [if_neg (fun h => htag h.2), if_neg (fun h => htag h.1), Nat.add_zero]

theorem After.inFlight_pc (after : After) : after.pc.inFlight tag d = after.inFlight tag d := by
  cases after <;> rfl

theorem Call.inFlight_start : call.start.inFlight tag d = call.inFlight tag d := by
  unfold Call.start
  split <;> rfl

theorem Call.inFlight_next : call.next.inFlight tag d = call.inFlight tag d := by
  unfold Call.next
  split
  · rename_i hempty
    rw [After.inFlight_pc]
    unfold Call.inFlight
    rw [List.isEmpty_iff.mp hempty]
    cases call.after with
    | idle => rfl
    | looping cycle => exact (Nat.zero_add _).symm
    | failing taken => exact (Nat.zero_add _).symm
  · rfl

theorem takenAmount_append (taken more : List Taken) :
    takenAmount tag d (taken ++ more) = takenAmount tag d taken + takenAmount tag d more := by
  induction taken with
  | nil => exact (Nat.zero_add _).symm
  | cons t taken ih =>
    rw [List.cons_append, takenAmount, takenAmount, ih, Nat.add_assoc]

/-- What was taken from one counter is in flight, whatever becomes of it. -/
theorem Cycle.inFlight_took (cycle : Cycle) (nodeTag : String) (t : Taken) :
    (cycle.took nodeTag t).inFlight tag d =
      takenAmount tag d cycle.taken + takenAmount tag d [t] := by
  unfold Cycle.took
  by_cases hzero : t.up = 0 ∧ t.down = 0
  · rw [if_pos hzero]
    simp [Pc.inFlight, takenAmount, amount, hzero]
  · rw [if_neg hzero]
    cases parseUserTag nodeTag t.counter.tag with
    | none =>
      dsimp only
      rw [Call.inFlight_start]
      exact Nat.add_comm _ _
    | some user => exact takenAmount_append _ _

theorem Cycle.inFlight_finish (cycle : Cycle) :
    (cycle.finish false).inFlight tag d = takenAmount tag d cycle.taken := by
  unfold Cycle.finish
  by_cases hempty : cycle.taken = []
  · rw [if_pos (.inl (by rw [hempty]; rfl)), hempty]
    rfl
  · rw [if_neg (by simp [hempty])]
    rfl

/-- A report that stays below the clamp. -/
theorem reportAmount_eq {taken : List Taken} (h : takenAmount tag d taken < 2 ^ 63) :
    reportAmount tag d taken = takenAmount tag d taken := by
  induction taken with
  | nil => rfl
  | cons t taken ih =>
    rw [takenAmount] at h ⊢
    rw [reportAmount, ih (by omega)]
    congr 1
    by_cases htag : t.counter.tag = tag
    · cases d <;> simp [amount, htag, clampI64, Taken.get] at h ⊢ <;> omega
    · cases d <;> simp [amount, htag]

/-- **One operation moves bytes**: what is in the counter and with the worker changes
by what the operation counts and reports. -/
theorem Op.conserves (tag : String) (d : Dir) (h : Op false st w a st' w')
    (hcells : ∀ c d, (st.cells c).get d ≠ 0 → st.Registered c)
    (hrefers : ∀ c, w.Refers c → st.Registered c)
    (hfits : st.inCounter tag d + w.pc.inFlight tag d + w.pc.counts tag d a < 2 ^ 63) :
    st'.inCounter tag d + w'.pc.inFlight tag d + w.pc.reports tag d a =
      st.inCounter tag d + w.pc.inFlight tag d + w.pc.counts tag d a := by
  cases h with
  | @create tag' hpc hnone =>
    rw [Stats.inCounter_create (c := ⟨tag', 0⟩) hnone]
    simp [hpc, Pc.counts, Pc.reports]
  | get hpc | close hpc => simp [hpc, Pc.counts, Pc.reports]
  | add hpc =>
    dsimp only
    rw [Call.inFlight_start]
    simp [hpc, Pc.inFlight, Call.inFlight, Pc.counts, Pc.reports]
  | markFirst hpc | store hpc =>
    rw [Stats.inCounter_setCell_dirty]
    simp [hpc, Pc.inFlight, Pc.counts, Pc.reports]
  | markAgain hpc | insert hpc | drain hpc | lookup hpc | next hpc | reportErr hpc | done hpc =>
    simp [hpc, Pc.inFlight, Pc.counts, Pc.reports, Stats.inCounter, takenAmount]
  | @fetchAdd c d' n adds after hpc =>
    have hreg : st.Registered c := hrefers c (.inr (by rw [hpc]; exact .inl rfl))
    dsimp only
    rw [Call.inFlight_next]
    rw [hpc] at hfits ⊢
    cases after with
    | idle =>
      have hcounts : Pc.counts tag d (.adding ⟨c, (d', n) :: adds, .idle⟩) .fetchAdd =
        amount tag d c [(d', n)] := rfl
      rw [hcounts] at hfits ⊢
      rw [Stats.inCounter_fetchAdd hreg (by omega)]
      simp [Pc.inFlight, Call.inFlight, Pc.reports]
    | looping cycle | failing taken =>
      simp only [Pc.inFlight, Call.inFlight, Pc.counts, Pc.reports, amount] at hfits ⊢
      rw [Stats.inCounter_fetchAdd hreg (by rw [amount_single]; omega), amount_single]
      omega
  | @swapUp c cycle hpc =>
    have hmoved := Stats.inCounter_clear c tag d .up hcells
    simp only [hpc, Pc.inFlight, Pc.counts, Pc.reports, Cell.get] at hmoved ⊢
    omega
  | @swapDown c up cycle hpc =>
    have hmoved := Stats.inCounter_clear c tag d .down hcells
    dsimp only
    rw [Cycle.inFlight_took]
    simp only [hpc, Pc.inFlight, Pc.counts, Pc.reports, takenAmount, amount, Cell.get] at hmoved ⊢
    omega
  | @finish taken hpc =>
    dsimp only
    rw [Cycle.inFlight_finish]
    simp [hpc, Pc.inFlight, Pc.counts, Pc.reports]
  | @reportOk taken hpc =>
    simp only [hpc, Pc.inFlight, Pc.counts, Pc.reports] at hfits ⊢
    rw [reportAmount_eq (by omega)]
    omega
  | @giveBack first taken hpc =>
    dsimp only
    rw [Call.inFlight_start]
    simp only [hpc, Pc.inFlight, Pc.counts, Pc.reports, takenAmount]
    rfl

end

/-- A sum in which one summand changes. -/
theorem sum_update_add {ι α : Type} [Fintype ι] [DecidableEq ι] (g : α → Nat) (f : ι → α) (i : ι)
    (x : α) : (∑ j, g (Function.update f i x j)) + g (f i) = (∑ j, g (f j)) + g x := by
  have hrest : ∑ j ∈ Finset.univ.erase i, g (Function.update f i x j) =
      ∑ j ∈ Finset.univ.erase i, g (f j) := by
    refine Finset.sum_congr rfl fun j hj => ?_
    rw [Function.update_of_ne (Finset.ne_of_mem_erase hj)]
  have hnew := Finset.add_sum_erase Finset.univ (fun j => g (Function.update f i x j))
    (Finset.mem_univ i)
  have hold := Finset.add_sum_erase Finset.univ (fun j => g (f j)) (Finset.mem_univ i)
  rw [Function.update_self] at hnew
  omega

namespace State

variable {ι : Type} [Fintype ι]

/-- **Conservation**: the bytes counted are those reported, those in the registered
counter and those in flight. -/
def Conserved (s : State ι) (tag : String) (d : Dir) : Prop :=
  s.added tag d = s.reported tag d + s.stats.inCounter tag d + ∑ i, (s.worker i).pc.inFlight tag d

/-- Live counters are registered, and the bytes are conserved unless the total is too
large. -/
def Balanced (tag : String) (d : Dir) (s : State ι) : Prop :=
  LiveRegistered s ∧ (s.added tag d < 2 ^ 63 → s.Conserved tag d)

theorem new_balanced (nodeTag : ι → String) (tag : String) (d : Dir) :
    Balanced tag d (State.new nodeTag) := by
  refine ⟨new_liveRegistered nodeTag, fun _ => ?_⟩
  simp [Conserved, new, Stats.new, Stats.inCounter, Pc.inFlight]

variable [DecidableEq ι] {s t : State ι} {a : ι × Act} {tag : String} {d : Dir}

/-- **One operation** of a worker that uploads conserves the bytes, as long as the
total stays below 2^63. -/
theorem Step.balanced {disableUpload : ι → Bool} (h : Step disableUpload s a t)
    (hupload : disableUpload a.1 = false) (hs : Balanced tag d s) : Balanced tag d t := by
  obtain ⟨hlive, hs⟩ := hs
  refine ⟨h.liveRegistered hlive, fun ht => ?_⟩
  obtain @⟨i, a, st, w, hop⟩ := h
  rw [hupload] at hop
  have hadded : (s.after i a st w).added tag d = s.added tag d + (s.worker i).pc.counts tag d a := rfl
  have hreported : (s.after i a st w).reported tag d =
    s.reported tag d + (s.worker i).pc.reports tag d a := rfl
  have hbefore := hs (by omega)
  unfold Conserved at hbefore ⊢
  have hle : (s.worker i).pc.inFlight tag d ≤ ∑ j, (s.worker j).pc.inFlight tag d :=
    Finset.single_le_sum (f := fun j => (s.worker j).pc.inFlight tag d)
      (fun _ _ => Nat.zero_le _) (Finset.mem_univ i)
  have hmoved := hop.conserves tag d (fun c d hne => hlive c (.inl ⟨d, hne⟩))
    (fun c hc => hlive c (.inr ⟨i, hc⟩)) (by omega)
  have hsum := sum_update_add (fun w : Worker => w.pc.inFlight tag d) s.worker i w
  have hworkers : ∀ j, (s.after i a st w).worker j = Function.update s.worker i w j := fun _ => rfl
  have hstats : (s.after i a st w).stats = st := rfl
  simp only [hworkers, hstats]
  omega

end State

/-- **Traffic is conserved.**  For any number of workers on one registry, any
interleaving of their single operations, and every tag and direction whose total is
below 2^63: at every moment the bytes counted so far are the bytes of successful
reports, the bytes in the counter and the bytes that a worker has taken and neither
reported nor put back. -/
theorem traffic_conserved {ι : Type} [Fintype ι] [DecidableEq ι] (nodeTag : ι → String)
    {trace : List ((ι × Act) × State ι)} {s : State ι}
    (h : Run (State.Step fun _ => false) (.new nodeTag) trace s) (tag : String) (d : Dir)
    (htotal : s.added tag d < 2 ^ 63) :
    s.added tag d =
      s.reported tag d + s.stats.inCounter tag d + ∑ i, (s.worker i).pc.inFlight tag d := by
  have hbalanced := h.invariant (State.new_balanced nodeTag tag d)
    fun _ _ _ hs hstep => hstep.balanced rfl hs
  exact hbalanced.2 htotal

/-- The counter of the one user of a small example. -/
def aliceCounter : CounterId := ⟨"n|alice|1", 0⟩

/-- Five bytes are counted, taken by a cycle, and put back after a failed report; in
the end they are in the counter again. -/
theorem traffic_conserved_five :
    ∃ s : State Bool, s.stats.inCounter "n|alice|1" .up = 5 ∧
      s.added "n|alice|1" .up = s.reported "n|alice|1" .up + s.stats.inCounter "n|alice|1" .up +
        ∑ i, (s.worker i).pc.inFlight "n|alice|1" .up := by
  have hrun : Run (State.Step fun _ : Bool => false) (.new fun _ => "n")
      [((true, .connect "n|alice|1"), _), ((true, .add aliceCounter .up 5), _), ((true, .mark), _),
        ((true, .insert), _), ((true, .fetchAdd), _), ((false, .drain ["n|alice|1"]), _),
        ((false, .lookup), _), ((false, .next), _), ((false, .store), _), ((false, .swapUp), _),
        ((false, .swapDown), _), ((false, .finish), _), ((false, .reportErr), _),
        ((false, .giveBack), _), ((false, .mark), _), ((false, .insert), _),
        ((false, .fetchAdd), _), ((false, .fetchAdd), _), ((false, .done), _)] _ :=
    .cons (.mk (.create rfl rfl)) (.cons (.mk (.add rfl List.mem_cons_self))
      (.cons (.mk (.markFirst rfl rfl)) (.cons (.mk (.insert rfl)) (.cons (.mk (.fetchAdd rfl))
        (.cons (.mk (.drain rfl (List.nodup_singleton _) rfl)) (.cons (.mk (.lookup rfl))
          (.cons (.mk (.next rfl)) (.cons (.mk (.store rfl)) (.cons (.mk (.swapUp rfl))
            (.cons (.mk (.swapDown rfl)) (.cons (.mk (.finish rfl)) (.cons (.mk (.reportErr rfl))
              (.cons (.mk (.giveBack rfl)) (.cons (.mk (.markFirst rfl rfl))
                (.cons (.mk (.insert rfl)) (.cons (.mk (.fetchAdd rfl)) (.cons (.mk (.fetchAdd rfl))
                  (.cons (.mk (.done rfl)) (.nil _)))))))))))))))))))
  exact ⟨_, rfl, traffic_conserved _ hrun _ _ (by decide)⟩

end XrayRs.Traffic
