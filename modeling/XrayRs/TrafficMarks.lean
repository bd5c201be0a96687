import XrayRs.TrafficStats

/-! # Marks on counters with traffic

A counter is reported only if its tag is in the active set.  `mark_active` puts it
there before the bytes are added, and a cycle that drains the set resets the `dirty`
flag and takes the counts, all in separate steps.

A cycle may run between the mark and the addition: it finds nothing to take, and the
bytes then land in a counter that nobody looks at (`marked_add_stranded`).  In runs
where no cycle empties a direction while such an addition is due, traffic is never
stranded (`traffic_not_stranded`). -/

namespace XrayRs.Traffic

open StepSystem

/-! ## Who attends to a counter -/

/-- The parts of a counter that a cycle resets, in this order: the flag, then the two
sums. -/
inductive Part
  | flag
  | sum (d : Dir)

/-- The counters that a loop has still to come to. -/
def After.todo : After → List CounterId
  | .looping cycle => cycle.todo
  | .idle | .failing _ => []

/-- The worker will put the counter's tag into the active set, or its cycle will yet
reset this part of it. -/
def Pc.Attends (c : CounterId) (part : Part) : Pc → Prop
  | .idle | .reporting _ | .failing _ => False
  | .marking call | .adding call => c ∈ call.after.todo
  | .inserting call => call.counter = c ∨ c ∈ call.after.todo
  | .drained tags => c.tag ∈ tags
  | .looping cycle => c ∈ cycle.todo
  | .storing c' cycle => c' = c ∨ c ∈ cycle.todo
  | .swapUp c' cycle => (c' = c ∧ part ≠ .flag) ∨ c ∈ cycle.todo
  | .swapDown c' _ cycle => (c' = c ∧ part = .sum .down) ∨ c ∈ cycle.todo

/-- The operation resets this part of the counter. -/
def Pc.Resets (c : CounterId) (part : Part) (pc : Pc) (a : Act) : Prop :=
  match pc, a with
  | .storing c' _, .store => c' = c ∧ part = .flag
  | .swapUp c' _, .swapUp => c' = c ∧ part = .sum .up
  | .swapDown c' _ _, .swapDown => c' = c ∧ part = .sum .down
  | _, _ => False

/-- An addition to this direction is due, and the counter was marked for it. -/
def Pc.Due (c : CounterId) (d : Dir) : Pc → Prop
  | .adding call => call.counter = c ∧ ∃ n, n ≠ 0 ∧ (d, n) ∈ call.adds
  | _ => False

section
variable {st st' : Stats} {w w' : Worker} {a : Act} {b : Bool} {c : CounterId} {call : Call}
  {part : Part} {d : Dir}

theorem Pc.Attends.sum {pc : Pc} (h : pc.Attends c .flag) : pc.Attends c (.sum d) := by
  cases pc with
  | swapUp c' cycle =>
    rcases h with ⟨-, hne⟩ | htodo
    · exact absurd rfl hne
    · exact .inr htodo
  | swapDown c' up cycle =>
    rcases h with ⟨-, hne⟩ | htodo
    · cases hne
    · exact .inr htodo
  | _ => exact h

theorem Pc.Due.refers {pc : Pc} (h : pc.Due c d) : pc.Refers c := by
  cases pc with
  | adding call => exact .inl h.1
  | _ => exact h.elim

theorem After.attends_pc (after : After) : after.pc.Attends c part ↔ c ∈ after.todo := by
  cases after with
  | looping cycle => rfl
  | idle => exact (iff_false_right List.not_mem_nil).mpr (fun h => h)
  | failing taken => exact (iff_false_right List.not_mem_nil).mpr (fun h => h)

theorem Call.attends_start : call.start.Attends c part ↔ c ∈ call.after.todo := by
  unfold Call.start
  split <;> rfl

theorem Call.attends_next : call.next.Attends c part ↔ c ∈ call.after.todo := by
  unfold Call.next
  split
  · exact After.attends_pc _
  · rfl

theorem Cycle.attends_took {cycle : Cycle} {nodeTag : String} {t : Taken} :
    (cycle.took nodeTag t).Attends c part ↔ c ∈ cycle.todo := by
  unfold Cycle.took
  split
  · rfl
  · split
    · exact Call.attends_start
    · rfl

/-- **Attention lasts** until the operation that resets the part. -/
theorem Op.attends (h : Op b st w a st' w') (hreg : st.Registered c)
    (hatt : c.tag ∈ st.active ∨ w.pc.Attends c part) :
    (c.tag ∈ st'.active ∨ w'.pc.Attends c part) ∨ w.pc.Resets c part a := by
  cases h with
  | create hpc | get hpc | close hpc => exact .inl hatt
  | add hpc | reportOk hpc | reportErr hpc | done hpc =>
    rw [hpc] at hatt
    exact .inl (.inl (hatt.resolve_right (fun h => h)))
  | giveBack hpc =>
    rw [hpc] at hatt
    exact .inl (.inl (hatt.resolve_right (fun h => h)))
  | markFirst hpc =>
    rw [hpc] at hatt
    exact .inl (hatt.imp_right .inr)
  | markAgain hpc =>
    rw [hpc] at hatt
    exact .inl hatt
  | insert hpc =>
    rw [hpc] at hatt
    rcases hatt with hactive | rfl | htodo
    · exact .inl (.inl (Finset.mem_insert_of_mem hactive))
    · exact .inl (.inl (Finset.mem_insert_self ..))
    · exact .inl (.inr htodo)
  | fetchAdd hpc =>
    rw [hpc] at hatt
    exact .inl (hatt.imp_right Call.attends_next.mpr)
  | drain hpc hnodup htags =>
    rw [hpc] at hatt
    have hactive := hatt.resolve_right (fun h => h)
    rw [← htags] at hactive
    exact .inl (.inr (List.mem_toFinset.mp hactive))
  | lookup hpc =>
    rw [hpc] at hatt
    refine .inl (hatt.imp_right fun htag => ?_)
    exact List.mem_filterMap.mpr ⟨c.tag, htag, by rw [show st.users c.tag = _ from hreg]; rfl⟩
  | next hpc =>
    rw [hpc] at hatt
    exact .inl (hatt.imp_right fun htodo => (List.mem_cons.mp htodo).imp_left Eq.symm)
  | @store c' cycle hpc =>
    rw [hpc] at hatt ⊢
    rcases hatt with hactive | rfl | htodo
    · exact .inl (.inl hactive)
    · cases part with
      | flag => exact .inr ⟨rfl, rfl⟩
      | sum d => exact .inl (.inr (.inl ⟨rfl, nofun⟩))
    · exact .inl (.inr (.inr htodo))
  | @swapUp c' cycle hpc =>
    rw [hpc] at hatt ⊢
    rcases hatt with hactive | ⟨rfl, hne⟩ | htodo
    · exact .inl (.inl hactive)
    · cases part with
      | flag => exact absurd rfl hne
      | sum d =>
        cases d with
        | up => exact .inr ⟨rfl, rfl⟩
        | down => exact .inl (.inr (.inl ⟨rfl, rfl⟩))
    · exact .inl (.inr (.inr htodo))
  | @swapDown c' up cycle hpc =>
    rw [hpc] at hatt ⊢
    rcases hatt with hactive | ⟨rfl, heq⟩ | htodo
    · exact .inl (.inl hactive)
    · exact .inr ⟨rfl, heq⟩
    · exact .inl (.inr (Cycle.attends_took.mpr htodo))
  | finish hpc =>
    rw [hpc] at hatt
    exact .inl (.inl (hatt.resolve_right List.not_mem_nil))

theorem Call.not_due_start : ¬ call.start.Due c d := by
  unfold Call.start
  split
  · exact fun h => h
  · rename_i hnone
    rintro ⟨-, n, hn, hmem⟩
    refine hnone (List.any_eq_true.mpr ⟨_, hmem, ?_⟩)
    simpa using hn

theorem Call.due_next (h : call.next.Due c d) :
    call.counter = c ∧ ∃ n, n ≠ 0 ∧ (d, n) ∈ call.adds := by
  unfold Call.next at h
  split at h
  · cases hafter : call.after with
    | _ =>
      rw [hafter] at h
      exact h.elim
  · exact h

theorem Cycle.not_due_took {cycle : Cycle} {nodeTag : String} {t : Taken} :
    ¬ (cycle.took nodeTag t).Due c d := by
  unfold Cycle.took
  split
  · exact fun h => h
  · split
    · exact Call.not_due_start
    · exact fun h => h

theorem Cycle.not_due_finish {cycle : Cycle} : ¬ (cycle.finish b).Due c d := by
  unfold Cycle.finish
  split <;> exact fun h => h

/-- **How an addition becomes due**: its counter is active, or was found marked. -/
theorem Op.due (h : Op b st w a st' w') (hdue : w'.pc.Due c d) :
    w.pc.Due c d ∨ c.tag ∈ st'.active ∨
      ((st.cells c).dirty = true ∧ ∃ call, w.pc = .marking call ∧ call.counter = c) := by
  cases h with
  | create | get | close => exact .inl hdue
  | add | giveBack => exact absurd hdue Call.not_due_start
  | swapDown => exact absurd hdue Cycle.not_due_took
  | finish => exact absurd hdue Cycle.not_due_finish
  | markAgain hpc hdirty =>
    obtain ⟨rfl, -⟩ := hdue
    exact .inr (.inr ⟨hdirty, _, hpc, rfl⟩)
  | insert hpc =>
    obtain ⟨rfl, -⟩ := hdue
    exact .inr (.inl (Finset.mem_insert_self ..))
  | fetchAdd hpc =>
    obtain ⟨rfl, n, hn, hmem⟩ := Call.due_next hdue
    exact .inl (by rw [hpc]; exact ⟨rfl, n, hn, List.mem_cons_of_mem _ hmem⟩)
  | markFirst | drain | lookup | next | store | swapUp | reportOk | reportErr | done =>
    exact hdue.elim

/-- **How a flag is set**: by the worker that goes on to the active set. -/
theorem Op.dirty (h : Op b st w a st' w') (hdirty : (st'.cells c).dirty = true) :
    w'.pc.Attends c .flag ∨ ((st.cells c).dirty = true ∧ ¬ w.pc.Resets c .flag a) := by
  cases h with
  | @create tag hpc =>
    by_cases hc : c = ⟨tag, st.gens tag⟩
    · subst hc
      exact absurd hdirty (by simp [Stats.create, Cell.new])
    · exact .inr ⟨by simpa [Stats.create, hc] using hdirty, by simp [hpc, Pc.Resets]⟩
  | @markFirst call hpc =>
    by_cases hc : c = call.counter
    · exact .inl (.inl hc.symm)
    · rw [Stats.setCell_ne hc] at hdirty
      exact .inr ⟨hdirty, by simp [hpc, Pc.Resets]⟩
  | @store c' cycle hpc =>
    by_cases hc : c = c'
    · subst hc
      rw [Stats.setCell_self] at hdirty
      cases hdirty
    · rw [Stats.setCell_ne hc] at hdirty
      exact .inr ⟨hdirty, by simp [hpc, Pc.Resets, Ne.symm hc]⟩
  | fetchAdd hpc | swapUp hpc | swapDown hpc =>
    rw [Stats.dirty_setCell (by simp)] at hdirty
    exact .inr ⟨hdirty, by simp [hpc, Pc.Resets]⟩
  | get hpc | close hpc | add hpc | markAgain hpc | insert hpc | drain hpc | lookup hpc | next hpc
  | finish hpc | reportOk hpc | reportErr hpc | giveBack hpc | done hpc =>
    exact .inr ⟨hdirty, by simp [hpc, Pc.Resets]⟩

/-- **How bytes get into a counter**: by an addition that was due. -/
theorem Op.sum_ne_zero (h : Op b st w a st' w') (hsum : (st'.cells c).get d ≠ 0) :
    w.pc.Due c d ∨ ((st.cells c).get d ≠ 0 ∧ ¬ w.pc.Resets c (.sum d) a) := by
  cases h with
  | @create tag hpc =>
    by_cases hc : c = ⟨tag, st.gens tag⟩
    · subst hc
      exact absurd hsum (by simp [Stats.create])
    · exact .inr ⟨by simpa [Stats.create, hc] using hsum, by simp [hpc, Pc.Resets]⟩
  | markFirst hpc | store hpc =>
    rw [Stats.get_setCell (by simp)] at hsum
    exact .inr ⟨hsum, by simp [hpc, Pc.Resets]⟩
  | @fetchAdd c' d' n adds after hpc =>
    by_cases hadded : c = c' ∧ d = d' ∧ n ≠ 0
    · obtain ⟨rfl, rfl, hn⟩ := hadded
      exact .inl (by rw [hpc]; exact ⟨rfl, n, hn, List.mem_cons_self⟩)
    · refine .inr ⟨?_, by simp [hpc, Pc.Resets]⟩
      by_cases hc : c = c'
      · subst hc
        rw [Stats.setCell_self, Cell.get_fetchAdd] at hsum
        by_cases hd : d = d'
        · have hn : n = 0 := by_contra fun hn => hadded ⟨rfl, hd, hn⟩
          simpa [hd, hn] using hsum
        · rwa [if_neg hd] at hsum
      · rwa [Stats.setCell_ne hc] at hsum
  | swapUp hpc | swapDown hpc =>
    obtain ⟨hne, hother⟩ := Stats.get_clear_ne_zero hsum
    refine .inr ⟨hne, ?_⟩
    rw [hpc]
    rintro ⟨rfl, hd⟩
    exact hother ⟨rfl, Part.sum.inj hd⟩
  | get hpc | close hpc | add hpc | markAgain hpc | insert hpc | drain hpc | lookup hpc | next hpc
  | finish hpc | reportOk hpc | reportErr hpc | giveBack hpc | done hpc =>
    exact .inr ⟨hsum, by simp [hpc, Pc.Resets]⟩

/-- A counter that is registered was so before, or is new. -/
theorem Op.registered_or_new (h : Op b st w a st' w') (hreg : st'.Registered c) :
    st.Registered c ∨ st'.cells c = .new := by
  cases h with
  | @create tag hpc hnone =>
    by_cases htag : c.tag = tag
    · subst htag
      have hgen : st.gens c.tag = c.gen := by simpa [Stats.Registered, Stats.create] using hreg
      have hc : c = ⟨c.tag, st.gens c.tag⟩ := by rw [hgen]
      right
      show Function.update st.cells _ _ c = _
      rw [← hc, Function.update_self]
    · exact .inl ((Function.update_of_ne htag ..).symm.trans hreg)
  | _ => exact .inl hreg

end

/-! ## Runs -/

namespace State

variable {ι : Type}

/-- The counter's tag is in the active set, or a worker attends to this part of the
counter. -/
def Attended (s : State ι) (c : CounterId) (part : Part) : Prop :=
  c.tag ∈ s.stats.active ∨ ∃ i, (s.worker i).pc.Attends c part

/-- **Marks are kept**: a flag that is set, an addition that is due and a sum that is
not zero are all attended to. -/
structure Marked (s : State ι) : Prop where
  flag : ∀ c, s.stats.Registered c → (s.stats.cells c).dirty = true → s.Attended c .flag
  due : ∀ i c d, (s.worker i).pc.Due c d → s.Attended c (.sum d)
  sum : ∀ c d, s.stats.Registered c → (s.stats.cells c).get d ≠ 0 → s.Attended c (.sum d)

/-- The operation does not empty a direction of a counter while an addition to it is
due, unless somebody else attends to it. -/
def EmptiesNoneDue (s : State ι) (a : ι × Act) : Prop :=
  ∀ c d, (s.worker a.1).pc.Resets c (.sum d) a.2 → ∀ j, (s.worker j).pc.Due c d →
    c.tag ∈ s.stats.active ∨ ∃ k, k ≠ a.1 ∧ (s.worker k).pc.Attends c (.sum d)

/-- No call and no cycle is in progress. -/
def Quiescent (s : State ι) : Prop := ∀ i, (s.worker i).pc = .idle

/-- **Nothing is stranded**: when no call and no cycle is in progress, the tag of every
registered counter with bytes is in the active set. -/
def NoneStranded (s : State ι) : Prop :=
  s.Quiescent → ∀ c, s.stats.Registered c → ∀ d, (s.stats.cells c).get d ≠ 0 →
    c.tag ∈ s.stats.active

/-- Live counters are registered, and the marks are kept. -/
def Kept (s : State ι) : Prop := LiveRegistered s ∧ s.Marked

theorem Marked.noneStranded {s : State ι} (h : s.Marked) : s.NoneStranded := by
  intro hquiet c hreg d hne
  rcases h.sum c d hreg hne with hactive | ⟨i, hatt⟩
  · exact hactive
  · rw [hquiet i] at hatt
    exact hatt.elim

theorem new_marked (nodeTag : ι → String) : Marked (.new nodeTag) where
  flag := nofun
  due := fun _ _ _ hdue => hdue.elim
  sum := nofun

variable [DecidableEq ι] {disableUpload : ι → Bool} {s t : State ι} {a : ι × Act} {c : CounterId}
  {part : Part}

/-- Attention to a registered counter lasts through an operation, unless this resets
the part and nobody else attends to it. -/
theorem Step.attended (h : Step disableUpload s a t) (hreg : s.stats.Registered c)
    (hatt : s.Attended c part)
    (hreset : (s.worker a.1).pc.Resets c part a.2 →
      c.tag ∈ s.stats.active ∨ ∃ k, k ≠ a.1 ∧ (s.worker k).pc.Attends c part) :
    t.Attended c part := by
  obtain @⟨i, a, st, w, hop⟩ := h
  have hother : ∀ k, k ≠ i → (s.worker k).pc.Attends c part →
      (s.after i a st w).Attended c part := by
    intro k hk hattk
    exact .inr ⟨k, by rwa [after_worker_ne hk]⟩
  have hself : c.tag ∈ s.stats.active ∨ (s.worker i).pc.Attends c part →
      ¬ (s.worker i).pc.Resets c part a → (s.after i a st w).Attended c part := by
    intro hatt hno
    rcases (hop.attends hreg hatt).resolve_right hno with hactive | hatt
    · exact .inl hactive
    · exact .inr ⟨i, by rwa [after_worker_self]⟩
  by_cases hresets : (s.worker i).pc.Resets c part a
  · rcases hreset hresets with hactive | ⟨k, hk, hattk⟩
    · -- a reset does not touch the active set
      cases hop with
      | store | swapUp | swapDown => exact .inl hactive
      | _ => simp_all [Pc.Resets]
    · exact hother k hk hattk
  · rcases hatt with hactive | ⟨k, hattk⟩
    · exact hself (.inl hactive) hresets
    · by_cases hk : k = i
      · subst hk
        exact hself (.inr hattk) hresets
      · exact hother k hk hattk

/-- **One operation** keeps the marks, if it does not empty what is due. -/
theorem Step.marked (h : Step disableUpload s a t) (hlive : LiveRegistered s) (hs : s.Marked)
    (hguard : s.EmptiesNoneDue a) : t.Marked := by
  have hattended : ∀ c part, s.stats.Registered c → s.Attended c part →
      ((s.worker a.1).pc.Resets c part a.2 →
        c.tag ∈ s.stats.active ∨ ∃ k, k ≠ a.1 ∧ (s.worker k).pc.Attends c part) →
      t.Attended c part := fun c part => h.attended
  obtain @⟨i, a, st, w, hop⟩ := h
  have hdueKept : ∀ j c d, (s.worker j).pc.Due c d → (s.after i a st w).Attended c (.sum d) := by
    intro j c d hdue
    exact hattended c _ (hlive c (.inr ⟨j, .inr hdue.refers⟩)) (hs.due j c d hdue)
      fun hresets => hguard c d hresets j hdue
  constructor
  · intro c hreg hdirty
    rcases hop.registered_or_new hreg with hold | hnew
    · rcases hop.dirty hdirty with hatt | ⟨hdirty, hno⟩
      · exact .inr ⟨i, by rwa [after_worker_self]⟩
      · exact hattended c _ hold (hs.flag c hold hdirty) fun hresets => absurd hresets hno
    · rw [show (s.after i a st w).stats.cells c = .new from hnew] at hdirty
      cases hdirty
  · intro j c d hdue
    by_cases hj : j = i
    · subst hj
      rw [after_worker_self] at hdue
      rcases hop.due hdue with hdue | hactive | ⟨hdirty, call, hpc, hcall⟩
      · exact hdueKept j c d hdue
      · exact .inl hactive
      · have hreg : s.stats.Registered c :=
          hlive c (.inr ⟨j, .inr (by rw [hpc]; exact .inl hcall)⟩)
        have hatt : s.Attended c (.sum d) :=
          (hs.flag c hreg hdirty).imp_right fun ⟨k, hk⟩ => ⟨k, hk.sum⟩
        exact hattended c _ hreg hatt fun hresets => by simp [hpc, Pc.Resets] at hresets
    · rw [after_worker_ne hj] at hdue
      exact hdueKept j c d hdue
  · intro c d hreg hne
    rcases hop.sum_ne_zero hne with hdue | ⟨hne, hno⟩
    · exact hdueKept i c d hdue
    · have hold := hlive c (.inl ⟨d, hne⟩)
      exact hattended c _ hold (hs.sum c d hold hne) fun hresets => absurd hresets hno

end State

/-- **No traffic is stranded** in a run where no cycle empties a direction of a counter
while a marked addition to it is due: whenever no call and no cycle is in progress, the
tags of all registered counters with bytes are in the active set. -/
theorem traffic_not_stranded {ι : Type} [DecidableEq ι] (disableUpload : ι → Bool)
    (nodeTag : ι → String) {trace : List ((ι × Act) × State ι)} {s : State ι}
    (h : Run (State.Step disableUpload) (.new nodeTag) trace s)
    (hguard : Meets State.EmptiesNoneDue (.new nodeTag) trace) :
    ∀ p ∈ trace, p.2.NoneStranded := by
  have hinit : State.Kept (.new nodeTag) :=
    ⟨new_liveRegistered nodeTag, State.new_marked nodeTag⟩
  have hstep : ∀ s t a, State.Kept s → State.Step disableUpload s a t → s.EmptiesNoneDue a →
      t.Kept ∧ t.NoneStranded := by
    rintro s t a ⟨hlive, hs⟩ hstep hg
    have ht := hstep.marked hlive hs hg
    exact ⟨⟨hstep.liveRegistered hlive, ht⟩, ht.noneStranded⟩
  exact (h.of_meets hinit hguard hstep).2

/-- Five bytes that are counted in one go are not stranded. -/
theorem traffic_not_stranded_five :
    ∃ s : State Bool, s.Quiescent ∧ (s.stats.cells aliceCounter).up = 5 ∧ s.NoneStranded := by
  have hrun : Run (State.Step fun _ : Bool => false) (.new fun _ => "n")
      [((true, .connect "n|alice|1"), _), ((true, .add aliceCounter .up 5), _), ((true, .mark), _),
        ((true, .insert), _), ((true, .fetchAdd), _)] _ :=
    .cons (.mk (.create rfl rfl)) (.cons (.mk (.add rfl List.mem_cons_self))
      (.cons (.mk (.markFirst rfl rfl)) (.cons (.mk (.insert rfl))
        (.cons (.mk (.fetchAdd rfl)) (.nil _)))))
  refine ⟨_, ?_, ?_, traffic_not_stranded _ _ hrun ?_ _ (List.getLast_mem (List.cons_ne_nil _ _))⟩
  · intro i
    cases i <;> rfl
  · rfl
  · exact ⟨fun _ _ h => h.elim, fun _ _ h => h.elim, fun _ _ h => h.elim, fun _ _ h => h.elim,
      fun _ _ h => h.elim, trivial⟩

/-- **Stranded bytes.**  The worker `true` marks the counter for five bytes; the cycle
of `false` drains the tag, resets the flag and takes nothing; then the bytes arrive.
Nothing is in progress any more, and no cycle will look at them. -/
theorem marked_add_stranded :
    ∃ (trace : List ((Bool × Act) × State Bool)) (s : State Bool),
      trace.map Prod.fst = [(true, .connect "n|alice|1"), (true, .add aliceCounter .up 5),
        (true, .mark), (true, .insert), (false, .drain ["n|alice|1"]), (false, .lookup),
        (false, .next), (false, .store), (false, .swapUp), (false, .swapDown), (false, .finish),
        (true, .fetchAdd)] ∧
      Run (State.Step fun _ => false) (.new fun _ => "n") trace s ∧ s.Quiescent ∧
      s.stats.Registered aliceCounter ∧ (s.stats.cells aliceCounter).up = 5 ∧
      "n|alice|1" ∉ s.stats.active := by
  refine ⟨[((true, .connect "n|alice|1"), _), ((true, .add aliceCounter .up 5), _),
    ((true, .mark), _), ((true, .insert), _), ((false, .drain ["n|alice|1"]), _),
    ((false, .lookup), _), ((false, .next), _), ((false, .store), _), ((false, .swapUp), _),
    ((false, .swapDown), _), ((false, .finish), _), ((true, .fetchAdd), _)], _, rfl,
    .cons (.mk (.create rfl rfl)) (.cons (.mk (.add rfl List.mem_cons_self))
      (.cons (.mk (.markFirst rfl rfl)) (.cons (.mk (.insert rfl))
        (.cons (.mk (.drain rfl (List.nodup_singleton _) rfl)) (.cons (.mk (.lookup rfl))
          (.cons (.mk (.next rfl)) (.cons (.mk (.store rfl)) (.cons (.mk (.swapUp rfl))
            (.cons (.mk (.swapDown rfl)) (.cons (.mk (.finish rfl))
              (.cons (.mk (.fetchAdd rfl)) (.nil _)))))))))))), ?_, ?_, ?_, ?_⟩
  · intro i
    cases i <;> rfl
  · rfl
  · rfl
  · exact Finset.notMem_empty _

end XrayRs.Traffic
