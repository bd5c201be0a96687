import Mathlib.Data.List.Basic
import Mathlib.Tactic.Common

/-! # Labelled step systems

A step relation `Step s a t` says that in state `s` the action `a` can be taken
and may lead to `t`.  A run lists its actions, each with the state it leads to.

Three rules are used of runs: an invariant kept by every step holds at the end of
every run (`Run.invariant`); a property that each step keeps exactly when it is
taken under a guard holds along a run exactly when every step meets the guard
(`Run.forall_holds_iff`); and where good steps use up a measure, runs of good
steps are bounded (`Run.length_le`) and, if they never get stuck, can be completed
(`exists_run_to`).

Where the actions are those of independent parties, one run that ends tells the
end of all runs (`Run.rest_of_step`). -/

namespace StepSystem

variable {σ α : Type} {Step : σ → α → σ → Prop}

/-- `Run Step s trace t`: from `s`, the actions of `trace` lead to `t` through the
states it lists. -/
inductive Run (Step : σ → α → σ → Prop) : σ → List (α × σ) → σ → Prop
  | nil (s : σ) : Run Step s [] s
  | cons {s t u : σ} {a : α} {trace : List (α × σ)} :
      Step s a t → Run Step t trace u → Run Step s ((a, t) :: trace) u

namespace Run

variable {s t : σ} {trace : List (α × σ)}

theorem trans {u : σ} {trace' : List (α × σ)} (h : Run Step s trace t) (h' : Run Step t trace' u) :
    Run Step s (trace ++ trace') u := by
  induction h with
  | nil => exact h'
  | cons hfirst _ ih => exact .cons hfirst (ih h')

theorem exists_of_append {u : σ} {trace' : List (α × σ)} (h : Run Step s (trace ++ trace') u) :
    ∃ t, Run Step s trace t ∧ Run Step t trace' u := by
  induction trace generalizing s with
  | nil => exact ⟨s, .nil s, h⟩
  | cons p trace ih =>
    cases h with
    | cons hfirst hrest =>
      obtain ⟨t, hleft, hright⟩ := ih hrest
      exact ⟨t, .cons hfirst hleft, hright⟩

/-- **Invariant rule.** -/
theorem invariant {Inv : σ → Prop} (h : Run Step s trace t) (hs : Inv s)
    (hstep : ∀ s t a, Inv s → Step s a t → Inv t) : Inv t := by
  induction h with
  | nil => exact hs
  | cons hfirst _ ih => exact ih (hstep _ _ _ hs hfirst)

/-- The invariant rule for runs whose actions are all `good`. -/
theorem invariant_of_good {Inv : σ → Prop} (good : α → Prop)
    (h : Run Step s trace t) (hgood : ∀ p ∈ trace, good p.1) (hs : Inv s)
    (hstep : ∀ s t a, good a → Inv s → Step s a t → Inv t) : Inv t := by
  induction h with
  | nil => exact hs
  | cons hfirst _ ih =>
    obtain ⟨ha, hrest⟩ := List.forall_mem_cons.mp hgood
    exact ih hrest (hstep _ _ _ ha hs hfirst)

/-- Each good step takes at least one off the measure. -/
theorem length_le {good : α → Prop} {measure : σ → Nat} (h : Run Step s trace t)
    (hgood : ∀ p ∈ trace, good p.1)
    (hmeasure : ∀ s t a, good a → Step s a t → measure t < measure s) :
    trace.length + measure t ≤ measure s := by
  induction h with
  | nil => exact Nat.le_of_eq (Nat.zero_add _)
  | cons hfirst _ ih =>
    obtain ⟨ha, hrest⟩ := List.forall_mem_cons.mp hgood
    have hlt := hmeasure _ _ _ ha hfirst
    have hle := ih hrest
    rw [List.length_cons]
    omega

/-- A run of good steps, as a run of the system that has no others. -/
theorem of_good {good : α → Prop} (h : Run Step s trace t) (hgood : ∀ p ∈ trace, good p.1) :
    Run (fun s a t => Step s a t ∧ good a) s trace t := by
  induction h with
  | nil => exact .nil _
  | cons hfirst _ ih =>
    obtain ⟨ha, hrest⟩ := List.forall_mem_cons.mp hgood
    exact .cons ⟨hfirst, ha⟩ (ih hrest)

/-- **Runs inside a larger system**: where `f` embeds the states and good steps are
steps of the larger system, so are runs. -/
theorem embed {τ β : Type} {Step' : τ → β → τ → Prop} (good : α → Prop) (f : σ → τ) (g : α → β)
    (h : Run Step s trace t) (hgood : ∀ p ∈ trace, good p.1)
    (hstep : ∀ s t a, good a → Step s a t → Step' (f s) (g a) (f t)) :
    Run Step' (f s) (trace.map (Prod.map g f)) (f t) := by
  induction h with
  | nil => exact .nil _
  | cons hfirst _ ih =>
    obtain ⟨ha, hrest⟩ := List.forall_mem_cons.mp hgood
    exact .cons (hstep _ _ _ ha hfirst) (ih hrest)

end Run

/-- Every step of the run is taken in a state that meets the guard. -/
def Meets (guard : σ → α → Prop) : σ → List (α × σ) → Prop
  | _, [] => True
  | s, (a, t) :: trace => guard s a ∧ Meets guard t trace

theorem Meets.and {guard guard' : σ → α → Prop} {s : σ} {trace : List (α × σ)}
    (h : Meets guard s trace) (h' : Meets guard' s trace) :
    Meets (fun s a => guard s a ∧ guard' s a) s trace := by
  induction trace generalizing s with
  | nil => trivial
  | cons p trace ih => exact ⟨⟨h.1, h'.1⟩, ih h.2 h'.2⟩

/-- Good actions are taken in any state. -/
theorem Meets.of_forall (good : α → Prop) {s : σ} {trace : List (α × σ)}
    (h : ∀ p ∈ trace, good p.1) : Meets (fun _ a => good a) s trace := by
  induction trace generalizing s with
  | nil => trivial
  | cons p trace ih =>
    obtain ⟨ha, hrest⟩ := List.forall_mem_cons.mp h
    exact ⟨ha, ih hrest⟩

/-- The invariant rule for runs whose steps all meet the guard. -/
theorem Run.invariant_of_meets {Inv : σ → Prop} {guard : σ → α → Prop} {s t : σ}
    {trace : List (α × σ)} (h : Run Step s trace t) (hs : Inv s) (hguard : Meets guard s trace)
    (hstep : ∀ s t a, guard s a → Inv s → Step s a t → Inv t) : Inv t := by
  induction h with
  | nil => exact hs
  | cons hfirst _ ih => exact ih (hstep _ _ _ hguard.1 hs hfirst) hguard.2

/-- **Guarded runs.**  If guarded steps keep an invariant and leave their action
`fulfilled`, then so do all steps of a run that meets the guard. -/
theorem Run.of_meets {Inv : σ → Prop} {guard : σ → α → Prop} {fulfilled : α → σ → Prop}
    {s t : σ} {trace : List (α × σ)} (h : Run Step s trace t) (hs : Inv s)
    (hguard : Meets guard s trace)
    (hstep : ∀ s t a, Inv s → Step s a t → guard s a → Inv t ∧ fulfilled a t) :
    Inv t ∧ ∀ p ∈ trace, fulfilled p.1 p.2 := by
  induction h with
  | nil => exact ⟨hs, by simp⟩
  | cons hfirst _ ih =>
    obtain ⟨ha, hrest⟩ := hguard
    obtain ⟨ht, hfulfilled⟩ := hstep _ _ _ hs hfirst ha
    obtain ⟨hu, hall⟩ := ih ht hrest
    exact ⟨hu, List.forall_mem_cons.mpr ⟨hfulfilled, hall⟩⟩

/-- **A guarded property along a run.**  Let each step, from a state with the
invariant and the property, lead to the property exactly when its guard is met.
Then the property holds in every state of a run exactly when every step of the
run meets the guard. -/
theorem Run.forall_holds_iff {Inv holds : σ → Prop} {guard : σ → α → Prop}
    {s t : σ} {trace : List (α × σ)} (h : Run Step s trace t) (hs : Inv s) (hh : holds s)
    (hinv : ∀ s t a, Inv s → Step s a t → Inv t)
    (hstep : ∀ s t a, Inv s → holds s → Step s a t → (holds t ↔ guard s a)) :
    (∀ p ∈ trace, holds p.2) ↔ Meets guard s trace := by
  induction h with
  | nil => simp [Meets]
  | @cons s t u a trace hfirst _ ih =>
    rw [List.forall_mem_cons]
    have hiff := hstep _ _ _ hs hh hfirst
    have ht' := hinv _ _ _ hs hfirst
    constructor
    · rintro ⟨ht, hrest⟩
      exact ⟨hiff.mp ht, (ih ht' ht).mp hrest⟩
    · rintro ⟨hg, hrest⟩
      have ht := hiff.mpr hg
      exact ⟨ht, (ih ht' ht).mpr hrest⟩

/-- **An invariant under a guard.**  Let guarded steps keep an invariant, and let the
property, which the invariant gives, fail after every other step.  Then the
property holds in every state of a run exactly when every step meets the guard. -/
theorem Run.forall_holds_iff_meets {Inv holds : σ → Prop} {guard : σ → α → Prop}
    {s t : σ} {trace : List (α × σ)} (h : Run Step s trace t) (hs : Inv s)
    (hholds : ∀ s, Inv s → holds s)
    (hkeep : ∀ s t a, Inv s → Step s a t → guard s a → Inv t)
    (hneed : ∀ s t a, Inv s → Step s a t → holds t → guard s a) :
    (∀ p ∈ trace, holds p.2) ↔ Meets guard s trace := by
  induction h with
  | nil => simp [Meets]
  | @cons s t u a trace hfirst _ ih =>
    rw [List.forall_mem_cons]
    constructor
    · rintro ⟨ht, hrest⟩
      have hg := hneed _ _ _ hs hfirst ht
      exact ⟨hg, (ih (hkeep _ _ _ hs hfirst hg)).mp hrest⟩
    · rintro ⟨hg, hrest⟩
      have ht := hkeep _ _ _ hs hfirst hg
      exact ⟨hholds _ ht, (ih ht).mpr hrest⟩

/-- **Completion rule.**  If every good step uses up the measure, and in every
state with the invariant that is not final some good step can be taken, then a
run of good steps leads from any such state to a final one. -/
theorem exists_run_to (Inv final : σ → Prop) (good : α → Prop) (measure : σ → Nat)
    (hinv : ∀ s t a, good a → Inv s → Step s a t → Inv t)
    (hmeasure : ∀ s t a, good a → Step s a t → measure t < measure s)
    (hprogress : ∀ s, Inv s → final s ∨ ∃ a t, good a ∧ Step s a t) {s : σ} (hs : Inv s) :
    ∃ trace t, Run Step s trace t ∧ (∀ p ∈ trace, good p.1) ∧ final t := by
  induction hn : measure s using Nat.strongRecOn generalizing s with
  | ind n ih =>
    rcases hprogress s hs with hfinal | ⟨a, t, ha, hstep⟩
    · exact ⟨[], s, .nil s, by simp, hfinal⟩
    · obtain ⟨trace, u, hrun, hgood, hu⟩ :=
        ih (measure t) (hn ▸ hmeasure _ _ _ ha hstep) (hinv _ _ _ ha hs hstep) rfl
      exact ⟨(a, t) :: trace, u, .cons hstep hrun, List.forall_mem_cons.mpr ⟨ha, hgood⟩, hu⟩

/-! ## Independent parties -/

section Independent

variable (hdet : ∀ s a t t', Step s a t → Step s a t' → t = t')
  (hcomm : ∀ s a b t u, a ≠ b → Step s a t → Step s b u → ∃ v, Step t b v ∧ Step u a v)
include hdet hcomm

/-- **One run tells all**: where it ends in a state without steps, a step taken out
of turn is one of the steps that were left to take. -/
theorem Run.rest_of_step {s t u : σ} {a : α} {trace : List (α × σ)} (hrun : Run Step s trace u)
    (hlast : ∀ a t, ¬ Step u a t) (hstep : Step s a t) :
    ∃ rest, Run Step t rest u ∧ rest.length + 1 = trace.length := by
  induction hrun generalizing t with
  | nil s => exact absurd hstep (hlast a t)
  | @cons s s' u b trace hfirst hrest ih =>
    by_cases hab : a = b
    · subst hab
      obtain rfl := hdet _ _ _ _ hstep hfirst
      exact ⟨trace, hrest, rfl⟩
    · obtain ⟨v, htv, hsv⟩ := hcomm _ _ _ _ _ hab hstep hfirst
      obtain ⟨rest, hr, hlen⟩ := ih hlast hsv
      refine ⟨(b, v) :: rest, .cons htv hr, ?_⟩
      rw [List.length_cons, List.length_cons, hlen]

end Independent

end StepSystem
