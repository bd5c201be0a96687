import Mathlib.Data.List.Basic
import Mathlib.Data.List.Nodup
import Mathlib.Order.Monotone.Basic
import Mathlib.Tactic.Common

/-! # Replay windows

A stream of timed tokens passes a gate that remembers what it admitted.  A token
is admitted when it is `valid` at its time and no earlier admission of the same
identity is still remembered; an admission at time `n` is remembered before
`expiry n`, a monotone bound.

The gate admits no identity twice exactly when no identity is presented validly
at two times so far apart that the first has been forgotten
(`admitted_nodup_iff`): the memory has to outlive the validity. -/

namespace ReplayWindow

variable {ι : Type}

/-- A token: its identity and the time it is presented at. -/
structure Token (ι : Type) where
  id : ι
  now : Nat
  deriving DecidableEq

variable (expiry : Nat → Nat) (valid : Token ι → Prop)

/-- `x` may pass, given the earlier admissions `log`. -/
def Admits (log : List (Token ι)) (x : Token ι) : Prop :=
  valid x ∧ ∀ y ∈ log, y.id = x.id → expiry y.now ≤ x.now

open Classical in
/-- The admissions among `xs`, in order, after the earlier ones in `log`. -/
noncomputable def admitted : List (Token ι) → List (Token ι) → List (Token ι)
  | _, [] => []
  | log, x :: xs =>
    if Admits expiry valid log x then x :: admitted (log ++ [x]) xs else admitted log xs

variable {expiry valid}

theorem admitted_cons_of_admits {log : List (Token ι)} {x : Token ι} (h : Admits expiry valid log x)
    (xs : List (Token ι)) :
    admitted expiry valid log (x :: xs) = x :: admitted expiry valid (log ++ [x]) xs := by
  rw [admitted, if_pos h]

theorem admitted_cons_of_not_admits {log : List (Token ι)} {x : Token ι}
    (h : ¬ Admits expiry valid log x) (xs : List (Token ι)) :
    admitted expiry valid log (x :: xs) = admitted expiry valid log xs := by
  rw [admitted, if_neg h]

/-- A valid presentation of a logged identity still falls under the memory of
that admission. -/
def Remembered (expiry : Nat → Nat) (valid : Token ι → Prop) (y x : Token ι) : Prop :=
  y.id = x.id → valid x → x.now < expiry y.now

/-- In a log without repetition an identity has one admission. -/
theorem eq_of_mem_of_nodup {log : List (Token ι)} (h : (log.map Token.id).Nodup)
    {x y : Token ι} (hx : x ∈ log) (hy : y ∈ log) (he : x.id = y.id) : x = y :=
  List.inj_on_of_nodup_map h hx hy he

/-- Every valid presentation in `xs` is remembered: by the admission in the log,
and by every earlier valid presentation. -/
structure AllRemembered (expiry : Nat → Nat) (valid : Token ι → Prop) (log xs : List (Token ι)) :
    Prop where
  logged : ∀ y ∈ log, ∀ x ∈ xs, Remembered expiry valid y x
  earlier : xs.Pairwise fun x y => valid x → Remembered expiry valid x y

section Step

variable {log xs : List (Token ι)} {x : Token ι}

/-- A token that is admitted goes on the log; had its identity been there, it
would not have been remembered. -/
theorem allRemembered_of_admits (hadm : Admits expiry valid log x) :
    AllRemembered expiry valid log (x :: xs) ↔
      (∀ y ∈ log, y.id ≠ x.id) ∧ AllRemembered expiry valid (log ++ [x]) xs := by
  constructor
  · rintro ⟨hlogged, hearlier⟩
    obtain ⟨hx, hearlier⟩ := List.pairwise_cons.mp hearlier
    refine ⟨fun y hy he => ?_, fun y hy z hz => ?_, hearlier⟩
    · have hlt := hlogged y hy x List.mem_cons_self he hadm.1
      exact absurd (hadm.2 y hy he) (Nat.not_le.mpr hlt)
    · rcases List.mem_append.mp hy with hy | hy
      · exact hlogged y hy z (List.mem_cons_of_mem _ hz)
      · rw [List.mem_singleton.mp hy]
        exact hx z hz hadm.1
  · rintro ⟨hfresh, hlogged, hearlier⟩
    refine ⟨fun y hy z hz => ?_, List.pairwise_cons.mpr ⟨fun z hz _ => ?_, hearlier⟩⟩
    · rcases List.mem_cons.mp hz with rfl | hz
      · exact fun he => absurd he (hfresh y hy)
      · exact hlogged y (List.mem_append_left _ hy) z hz
    · exact hlogged x (List.mem_append_right _ List.mem_cons_self) z hz

/-- A token that is not admitted is invalid, or held back by an entry of the log
that is at least as old: it adds nothing to what has to be remembered. -/
theorem allRemembered_of_not_admits (hmono : Monotone expiry) (hlog : (log.map Token.id).Nodup)
    (hbefore : ∀ y ∈ log, y.now ≤ x.now) (hadm : ¬ Admits expiry valid log x) :
    AllRemembered expiry valid log (x :: xs) ↔ AllRemembered expiry valid log xs := by
  have hheld : valid x → ∃ y ∈ log, y.id = x.id ∧ x.now < expiry y.now := by
    intro hv
    by_contra hno
    exact hadm ⟨hv, fun y hy he => Nat.not_lt.mp fun hlt => hno ⟨y, hy, he, hlt⟩⟩
  constructor
  · rintro ⟨hlogged, hearlier⟩
    exact ⟨fun y hy z hz => hlogged y hy z (List.mem_cons_of_mem _ hz),
      (List.pairwise_cons.mp hearlier).2⟩
  · rintro ⟨hlogged, hearlier⟩
    refine ⟨fun y hy z hz => ?_, List.pairwise_cons.mpr ⟨fun z hz hv he hvz => ?_, hearlier⟩⟩
    · rcases List.mem_cons.mp hz with rfl | hz
      · intro he hv
        obtain ⟨y', hy', he', hlt⟩ := hheld hv
        rwa [eq_of_mem_of_nodup hlog hy hy' (he.trans he'.symm)]
      · exact hlogged y hy z hz
    · obtain ⟨y, hy, hye, -⟩ := hheld hv
      have hlt := hlogged y hy z hz (hye.trans he) hvz
      exact Nat.lt_of_lt_of_le hlt (hmono (hbefore y hy))

end Step

/-- Nothing is admitted twice, the log included, exactly when every valid
presentation is remembered. -/
theorem log_admitted_nodup_iff (hmono : Monotone expiry) :
    ∀ {xs log : List (Token ι)}, (log.map Token.id).Nodup →
      (∀ y ∈ log, ∀ x ∈ xs, y.now ≤ x.now) → xs.Pairwise (fun x y => x.now ≤ y.now) →
      (((log ++ admitted expiry valid log xs).map Token.id).Nodup ↔
        AllRemembered expiry valid log xs) := by
  intro xs
  induction xs with
  | nil =>
    intro log hlog _ _
    rw [admitted, List.append_nil]
    exact ⟨fun _ => ⟨by simp, .nil⟩, fun _ => hlog⟩
  | cons x xs ih =>
    intro log hlog hbefore hsorted
    obtain ⟨hx, hsorted⟩ := List.pairwise_cons.mp hsorted
    have hold : ∀ y ∈ log, y.now ≤ x.now := fun y hy => hbefore y hy x List.mem_cons_self
    have hbefore' : ∀ y ∈ log, ∀ z ∈ xs, y.now ≤ z.now :=
      fun y hy z hz => hbefore y hy z (List.mem_cons_of_mem _ hz)
    by_cases hadm : Admits expiry valid log x
    · have happ : log ++ admitted expiry valid log (x :: xs) =
          (log ++ [x]) ++ admitted expiry valid (log ++ [x]) xs := by
        rw [admitted_cons_of_admits hadm, List.append_assoc, List.singleton_append]
      rw [happ, allRemembered_of_admits hadm]
      have hbefore'' : ∀ y ∈ log ++ [x], ∀ z ∈ xs, y.now ≤ z.now := by
        intro y hy z hz
        rcases List.mem_append.mp hy with hy | hy
        · exact hbefore' y hy z hz
        · rw [List.mem_singleton.mp hy]
          exact hx z hz
      have hlog' : ((log ++ [x]).map Token.id).Nodup ↔ ∀ y ∈ log, y.id ≠ x.id := by
        rw [List.map_append, List.map_singleton, List.nodup_append]
        simp [hlog]
      constructor
      · intro hnodup
        have hfresh : ∀ y ∈ log, y.id ≠ x.id := by
          apply hlog'.mp
          rw [List.map_append] at hnodup
          exact (List.nodup_append.mp hnodup).1
        exact ⟨hfresh, (ih (hlog'.mpr hfresh) hbefore'' hsorted).mp hnodup⟩
      · rintro ⟨hfresh, hall⟩
        exact (ih (hlog'.mpr hfresh) hbefore'' hsorted).mpr hall
    · rw [admitted_cons_of_not_admits hadm, ih hlog hbefore' hsorted,
        allRemembered_of_not_admits hmono hlog hold hadm]

/-- **A gate admits no identity twice iff its memory outlives the validity**: no
identity is presented validly both at a time and again once the admission at
that time would be forgotten. -/
theorem admitted_nodup_iff (hmono : Monotone expiry) {xs : List (Token ι)}
    (hsorted : xs.Pairwise fun x y => x.now ≤ y.now) :
    ((admitted expiry valid [] xs).map Token.id).Nodup ↔
      xs.Pairwise fun x y => valid x → Remembered expiry valid x y := by
  have h : (([] ++ admitted expiry valid [] xs).map Token.id).Nodup ↔ _ :=
    log_admitted_nodup_iff hmono List.nodup_nil (by simp) hsorted
  rw [List.nil_append] at h
  exact h.trans ⟨fun hall => hall.earlier, fun hearlier => ⟨by simp, hearlier⟩⟩

end ReplayWindow
