import XrayRs.TrafficMarks

/-! # What a cycle delivers

From a moment at which nothing is in progress, a controller can run one reporting
cycle on its own: it drains the active set, takes each counter, puts back what
belongs to other nodes and reports the rest.  Every operation uses up a rank
(`Op.rank_lt`), so the cycle comes to its end, and a counter of the controller's node
that was in the active set is then empty (`State.exists_cycle`). -/

namespace XrayRs.Traffic

open StepSystem

/-! ## The rank of a cycle -/

/-- The operations of a cycle whose report gets through, after its start. -/
def Act.OfCycle : Act → Prop
  | .mark | .insert | .fetchAdd | .lookup | .next | .store | .swapUp | .swapDown | .finish
  | .reportOk => True
  | _ => False

/-- The operations of such a cycle. -/
def Act.Reports : Act → Prop
  | .drain _ => True
  | a => a.OfCycle

theorem Act.OfCycle.reports {a : Act} (h : a.OfCycle) : a.Reports := by
  cases a <;> first | exact h | trivial

/-- What a loop has left to do: at most eight operations for each counter. -/
def Cycle.rank (cycle : Cycle) : Nat := 8 * cycle.todo.length + 2

/-- What is left to do after a call. -/
def After.rank : After → Nat
  | .looping cycle => cycle.rank
  | .idle | .failing _ => 0

/-- A bound on the operations that a cycle has left. -/
def Pc.rank : Pc → Nat
  | .idle | .failing _ => 0
  | .marking call => call.after.rank + call.adds.length + 2
  | .inserting call => call.after.rank + call.adds.length + 1
  | .adding call => call.after.rank + call.adds.length
  | .drained tags => 8 * tags.length + 3
  | .looping cycle => cycle.rank
  | .storing _ cycle => cycle.rank + 7
  | .swapUp _ cycle => cycle.rank + 6
  | .swapDown _ _ cycle => cycle.rank + 5
  | .reporting _ => 1

/-- The call puts back counts of another tag, and its loop goes on. -/
def Call.OtherTag (tag : String) (call : Call) : Prop :=
  call.adds ≠ [] ∧ (∃ cycle, call.after = .looping cycle) ∧ call.counter.tag ≠ tag

/-- The worker is in a cycle that leaves what it took under this tag to the report. -/
def Pc.Collects (tag : String) : Pc → Prop
  | .marking call | .inserting call | .adding call => call.OtherTag tag
  | .failing _ => False
  | _ => True

section
variable {st st' : Stats} {w w' : Worker} {a : Act} {b : Bool} {c : CounterId} {call : Call}
  {tag : String} {d : Dir}

theorem After.rank_pc (after : After) : after.pc.rank = after.rank := by
  cases after <;> rfl

theorem Call.rank_start_le : call.start.rank ≤ call.after.rank + call.adds.length + 2 := by
  unfold Call.start
  split
  · exact Nat.le_refl _
  · exact Nat.le_add_right _ 2

theorem Call.rank_next : call.next.rank = call.after.rank + call.adds.length := by
  unfold Call.next
  split
  · rename_i hempty
    rw [After.rank_pc, List.isEmpty_iff.mp hempty]
    rfl
  · rfl

theorem Cycle.rank_took_le (cycle : Cycle) (nodeTag : String) (t : Taken) :
    (cycle.took nodeTag t).rank ≤ cycle.rank + 4 := by
  unfold Cycle.took
  split
  · exact Nat.le_add_right _ 4
  · split
    · exact Call.rank_start_le
    · exact Nat.le_add_right _ 4

/-- **Every operation of a cycle uses up its rank.** -/
theorem Op.rank_lt (h : Op b st w a st' w') (hcycle : a.OfCycle) : w'.pc.rank < w.pc.rank := by
  cases h with
  | create | get | close | add | drain | reportErr | giveBack | done => exact hcycle.elim
  | markFirst hpc | markAgain hpc | insert hpc | store hpc | swapUp hpc =>
    rw [hpc]
    simp [Pc.rank]
  | fetchAdd hpc =>
    rw [hpc]
    dsimp only
    rw [Call.rank_next]
    simp [Pc.rank]
  | @lookup tags hpc =>
    have hle : (st.lookup tags).length ≤ tags.length := List.length_filterMap_le ..
    rw [hpc]
    simp only [Pc.rank, Cycle.rank]
    omega
  | next hpc =>
    rw [hpc]
    simp only [Pc.rank, Cycle.rank, List.length_cons]
    omega
  | @swapDown c up cycle hpc =>
    have hle := cycle.rank_took_le w.nodeTag ⟨c, up, (st.cells c).down⟩
    calc (cycle.took w.nodeTag ⟨c, up, (st.cells c).down⟩).rank
      _ < cycle.rank + 5 := Nat.lt_succ_of_le hle
      _ = w.pc.rank := by rw [hpc]; rfl
  | finish hpc =>
    rw [hpc]
    unfold Cycle.finish
    split <;> simp [Pc.rank, Cycle.rank]
  | reportOk hpc =>
    rw [hpc]
    exact Nat.zero_lt_one

theorem Call.OtherTag.start (h : call.OtherTag tag) : call.start.Collects tag := by
  unfold Call.start
  split <;> exact h

/-- **A cycle goes on collecting.** -/
theorem Op.collects (h : Op b st w a st' w') (hcycle : a.OfCycle)
    (htag : (parseUserTag w.nodeTag tag).isSome) (hpc : w.pc.Collects tag) :
    w'.pc.Collects tag := by
  cases h with
  | create | get | close | add | drain | reportErr | giveBack | done => exact hcycle.elim
  | markFirst heq | markAgain heq | insert heq =>
    rw [heq] at hpc
    exact hpc
  | @fetchAdd c d n adds after heq =>
    rw [heq] at hpc
    obtain ⟨-, ⟨cycle, rfl⟩, hne⟩ := hpc
    dsimp only
    unfold Call.next
    split
    · trivial
    · rename_i hempty
      exact ⟨fun hnil => hempty (by rw [hnil]; rfl), ⟨cycle, rfl⟩, hne⟩
  | @swapDown c up cycle heq =>
    dsimp only
    unfold Cycle.took
    split
    · trivial
    · split
      · rename_i hnone
        refine Call.OtherTag.start ⟨List.cons_ne_nil _ _, ⟨cycle, rfl⟩, ?_⟩
        rintro rfl
        exact absurd (Option.isSome_iff_ne_none.mp htag hnone) (fun h => h)
      · trivial
  | finish heq =>
    dsimp only
    unfold Cycle.finish
    split <;> trivial
  | lookup | next | store | swapUp | reportOk => trivial

/-- **A cycle does not get stuck** before it is done. -/
theorem exists_op (hpc : w.pc.Collects tag) :
    w.pc = .idle ∨ ∃ a st' w', Op b st w a st' w' ∧ a.OfCycle := by
  cases hw : w.pc with
  | idle => exact .inl rfl
  | marking call =>
    right
    by_cases hdirty : (st.cells call.counter).dirty = true
    · exact ⟨_, _, _, .markAgain hw hdirty, trivial⟩
    · exact ⟨_, _, _, .markFirst hw (Bool.eq_false_iff.mpr hdirty), trivial⟩
  | inserting call => exact .inr ⟨_, _, _, .insert hw, trivial⟩
  | adding call =>
    rw [hw] at hpc
    obtain ⟨c, adds, after⟩ := call
    cases adds with
    | nil => exact absurd rfl hpc.1
    | cons add adds => exact .inr ⟨_, _, _, .fetchAdd hw, trivial⟩
  | drained tags => exact .inr ⟨_, _, _, .lookup hw, trivial⟩
  | looping cycle =>
    obtain ⟨todo, taken⟩ := cycle
    cases todo with
    | nil => exact .inr ⟨_, _, _, .finish hw, trivial⟩
    | cons c todo => exact .inr ⟨_, _, _, .next hw, trivial⟩
  | storing c cycle => exact .inr ⟨_, _, _, .store hw, trivial⟩
  | swapUp c cycle => exact .inr ⟨_, _, _, .swapUp hw, trivial⟩
  | swapDown c up cycle => exact .inr ⟨_, _, _, .swapDown hw, trivial⟩
  | reporting taken => exact .inr ⟨_, _, _, .reportOk hw, trivial⟩
  | failing taken =>
    rw [hw] at hpc
    exact hpc.elim

theorem Pc.Collects.not_due {pc : Pc} (h : pc.Collects c.tag) : ¬ pc.Due c d := by
  cases pc with
  | adding call =>
    rintro ⟨rfl, -⟩
    exact h.2.2 rfl
  | _ => exact fun hdue => hdue

/-- A collecting cycle counts nothing under its tag. -/
theorem Pc.Collects.counts {pc : Pc} (h : pc.Collects tag) (a : Act) :
    pc.counts tag d a = 0 := by
  unfold Pc.counts
  split
  · rw [amount_single, if_neg (fun heq => h.2.2 heq.1)]
  · rfl

/-- A collecting cycle does not put its tag back into the active set. -/
theorem Op.not_mem_active (h : Op b st w a st' w') (hpc : w.pc.Collects tag)
    (hactive : tag ∉ st.active) : tag ∉ st'.active := by
  cases h with
  | insert heq =>
    rw [heq] at hpc
    rw [Finset.mem_insert]
    rintro (rfl | hmem)
    · exact hpc.2.2 rfl
    · exact hactive hmem
  | drain => exact Finset.notMem_empty _
  | _ => exact hactive

theorem Op.nodeTag (h : Op b st w a st' w') : w'.nodeTag = w.nodeTag := by
  cases h <;> rfl

end

/-! ## A cycle on its own -/

namespace State

variable {ι : Type} [DecidableEq ι] {disableUpload : ι → Bool} {s s' t : State ι} {i : ι}
  {a : ι × Act} {c : CounterId}

/-- In the cycle that worker `i` runs from `s`, for the counter `c` of its node: what is
in the counter will yet be taken, and nothing else changed. -/
structure Collecting (i : ι) (c : CounterId) (s t : State ι) : Prop where
  registered : t.stats.Registered c
  inactive : c.tag ∉ t.stats.active
  collects : (t.worker i).pc.Collects c.tag
  attended : ∀ d, (t.stats.cells c).get d ≠ 0 → (t.worker i).pc.Attends c (.sum d)
  nodeTag : (parseUserTag (t.worker i).nodeTag c.tag).isSome
  others : ∀ j, j ≠ i → t.worker j = s.worker j
  added : ∀ d, t.added c.tag d = s.added c.tag d

/-- **One operation** of the cycle. -/
theorem Collecting.step (ht : Collecting i c s t) (h : Step disableUpload t a s') (ha : a.1 = i)
    (hcycle : a.2.OfCycle) : Collecting i c s s' := by
  obtain @⟨i', a, st, w, hop⟩ := h
  obtain rfl : i' = i := ha
  have hinactive := hop.not_mem_active ht.collects ht.inactive
  constructor
  · exact hop.registered ht.registered
  · exact hinactive
  · rw [after_worker_self]
    exact hop.collects hcycle ht.nodeTag ht.collects
  · intro d hne
    rw [after_worker_self]
    obtain ⟨hne, hno⟩ := (hop.sum_ne_zero hne).resolve_left ht.collects.not_due
    have hatt := hop.attends ht.registered (.inr (ht.attended d hne))
    exact (hatt.resolve_right hno).resolve_left hinactive
  · rw [after_worker_self, hop.nodeTag]
    exact ht.nodeTag
  · intro j hj
    rw [after_worker_ne hj]
    exact ht.others j hj
  · intro d
    show t.added c.tag d + (t.worker i').pc.counts c.tag d a = _
    rw [ht.collects.counts, ht.added]
    rfl

/-- Operations leave the node tags alone. -/
theorem Step.nodeTag (h : Step disableUpload s a t) (j : ι) :
    (t.worker j).nodeTag = (s.worker j).nodeTag := by
  obtain @⟨i, a, st, w, hop⟩ := h
  by_cases hj : j = i
  · subst hj
    rw [after_worker_self, hop.nodeTag]
  · rw [after_worker_ne hj]

/-- A new connection holds the counter it asked for. -/
theorem Step.connect {tag : String} (h : Step disableUpload s (i, .connect tag) t) :
    ∃ gen, ⟨tag, gen⟩ ∈ (t.worker i).held := by
  obtain @⟨_, _, st, w, hop⟩ := h
  rw [after_worker_self]
  cases hop with
  | create | get => exact ⟨_, List.mem_cons_self⟩

/-- The cycle starts to collect when it drains the active set. -/
theorem collecting_drain (hreg : s.stats.Registered c) (hidle : (s.worker i).pc = .idle)
    (hactive : c.tag ∈ s.stats.active) (htag : (parseUserTag (s.worker i).nodeTag c.tag).isSome) :
    ∃ tags t, Step disableUpload s (i, .drain tags) t ∧ Collecting i c s t := by
  have htags : s.stats.active.toList.toFinset = s.stats.active := Finset.toList_toFinset _
  refine ⟨s.stats.active.toList, _, .mk (.drain hidle (Finset.nodup_toList _) htags), ?_⟩
  constructor
  · exact hreg
  · exact Finset.notMem_empty _
  · rw [after_worker_self]
    trivial
  · intro d _
    rw [after_worker_self]
    exact Finset.mem_toList.mpr hactive
  · rw [after_worker_self]
    exact htag
  · exact fun j hj => after_worker_ne hj
  · intro d
    show s.added c.tag d + (s.worker i).pc.counts c.tag d _ = _
    rw [hidle]
    rfl

/-- **A cycle on its own empties the counters of its node** that were in the active
set, and comes to its end. -/
theorem exists_cycle (disableUpload : ι → Bool) (hreg : s.stats.Registered c)
    (hidle : (s.worker i).pc = .idle) (hactive : c.tag ∈ s.stats.active)
    (htag : (parseUserTag (s.worker i).nodeTag c.tag).isSome) :
    ∃ trace t, Run (Step disableUpload) s trace t ∧ (∀ p ∈ trace, p.1.1 = i ∧ p.1.2.Reports) ∧
      Collecting i c s t ∧ (t.worker i).pc = .idle := by
  have hrank : ∀ (t t' : State ι) (a : ι × Act), a.1 = i ∧ a.2.OfCycle →
      Step disableUpload t a t' → (t'.worker i).pc.rank < (t.worker i).pc.rank := by
    rintro t t' a ⟨rfl, hcycle⟩ hstep
    obtain @⟨i, a, st, w, hop⟩ := hstep
    rw [after_worker_self]
    exact hop.rank_lt hcycle
  have hprogress : ∀ t, Collecting i c s t → (Collecting i c s t ∧ (t.worker i).pc = .idle) ∨
      ∃ (a : ι × Act) (t' : State ι), (a.1 = i ∧ a.2.OfCycle) ∧ Step disableUpload t a t' := by
    intro t ht
    rcases exists_op ht.collects with hdone | ⟨a, st, w, hop, hcycle⟩
    · exact .inl ⟨ht, hdone⟩
    · exact .inr ⟨(i, a), _, ⟨rfl, hcycle⟩, .mk hop⟩
  obtain ⟨tags, s', hdrain, hs'⟩ := collecting_drain hreg hidle hactive htag
  obtain ⟨trace, t, hrun, hgood, ht, hdone⟩ := exists_run_to _ _ _
    (fun t => (t.worker i).pc.rank) (fun _ _ _ ha ht hstep => ht.step hstep ha.1 ha.2) hrank
    hprogress hs'
  refine ⟨_, t, .cons hdrain hrun, ?_, ht, hdone⟩
  refine List.forall_mem_cons.mpr ⟨⟨rfl, trivial⟩, fun p hp => ?_⟩
  exact ⟨(hgood p hp).1, (hgood p hp).2.reports⟩

end State

end XrayRs.Traffic
