import Mathlib.Data.List.Basic
import Mathlib.Tactic.Common

/-! # Lexicographic order up to padding

Lists that are compared as if the shorter one went on with a default element, as many
times as the longer one needs.  More of it changes nothing (`compareLex_rightpad`), so
lists of different lengths can be brought to one length, and the comparison is as good as
the one of the elements (`transCmp`).  An algorithm on two lists goes by
`comparePadded_eq`: the first elements decide, or the rest does. -/

namespace PaddedLex

variable {α : Type} {cmp : α → α → Ordering} {z : α} {l m l' m' : List α} {n k : Nat}

/-- The order of two lists, the shorter one padded. -/
def comparePadded (cmp : α → α → Ordering) (z : α) (l m : List α) : Ordering :=
  List.compareLex cmp (l.rightpad (max l.length m.length) z)
    (m.rightpad (max l.length m.length) z)

/-! ## Padding -/

theorem rightpad_succ (n : Nat) (z : α) (l : List α) :
    l.rightpad (n + 1) z = l.headD z :: l.tail.rightpad n z := by
  cases l with
  | nil => simp [List.rightpad, List.replicate_succ]
  | cons x l => simp [List.rightpad]

/-- A padded list lists the elements at the first positions. -/
theorem rightpad_eq_map (h : l.length ≤ n) :
    l.rightpad n z = (List.range n).map fun i => l.getD i z := by
  induction n generalizing l with
  | zero =>
    obtain rfl := List.length_eq_zero_iff.mp (Nat.le_zero.mp h)
    rfl
  | succ n ih =>
    rw [rightpad_succ, List.range_succ_eq_map, List.map_cons, List.map_map,
      ih (l := l.tail) (by rw [List.length_tail]; omega)]
    cases l with
    | nil => simp [Function.comp_def]
    | cons x l => simp [Function.comp_def]

/-! ## The order -/

theorem compareLex_rightpad_succ :
    List.compareLex cmp (l.rightpad (n + 1) z) (m.rightpad (n + 1) z) =
      (cmp (l.headD z) (m.headD z)).then
        (List.compareLex cmp (l.tail.rightpad n z) (m.tail.rightpad n z)) := by
  rw [rightpad_succ, rightpad_succ, List.compareLex_cons_cons]

section
variable [Std.ReflCmp cmp]

theorem compareLex_self (l : List α) : List.compareLex cmp l l = .eq :=
  @Std.ReflCmp.compare_self _ (List.compareLex cmp) _ l

theorem compareLex_rightpad_eq (hl : l.length ≤ n) (hm : m.length ≤ n) (hl' : l.length ≤ k)
    (hm' : m.length ≤ k) :
    List.compareLex cmp (l.rightpad n z) (m.rightpad n z) =
      List.compareLex cmp (l.rightpad k z) (m.rightpad k z) := by
  induction n generalizing l m k with
  | zero =>
    obtain rfl := List.length_eq_zero_iff.mp (Nat.le_zero.mp hl)
    obtain rfl := List.length_eq_zero_iff.mp (Nat.le_zero.mp hm)
    rw [compareLex_self, compareLex_self]
  | succ n ih =>
    cases k with
    | zero =>
      obtain rfl := List.length_eq_zero_iff.mp (Nat.le_zero.mp hl')
      obtain rfl := List.length_eq_zero_iff.mp (Nat.le_zero.mp hm')
      rw [compareLex_self, compareLex_self]
    | succ k =>
      have htail : ∀ {x : List α} {j : Nat}, x.length ≤ j + 1 → x.tail.length ≤ j := by
        intro x j hx
        rw [List.length_tail]
        omega
      rw [compareLex_rightpad_succ, compareLex_rightpad_succ,
        ih (htail hl) (htail hm) (htail hl') (htail hm')]

/-- **The length that both lists are padded to does not matter.** -/
theorem compareLex_rightpad (hl : l.length ≤ n) (hm : m.length ≤ n) :
    List.compareLex cmp (l.rightpad n z) (m.rightpad n z) = comparePadded cmp z l m :=
  compareLex_rightpad_eq hl hm (Nat.le_max_left ..) (Nat.le_max_right ..)

theorem comparePadded_self (l : List α) : comparePadded cmp z l l = .eq := compareLex_self _

/-- **The first elements decide, or the rest does.** -/
theorem comparePadded_eq (l m : List α) :
    comparePadded cmp z l m =
      (cmp (l.headD z) (m.headD z)).then (comparePadded cmp z l.tail m.tail) := by
  have hl : l.length ≤ max l.length m.length := Nat.le_max_left ..
  have hm : m.length ≤ max l.length m.length := Nat.le_max_right ..
  rw [← compareLex_rightpad (Nat.le_succ_of_le hl) (Nat.le_succ_of_le hm),
    compareLex_rightpad_succ, compareLex_rightpad (by rw [List.length_tail]; omega)
      (by rw [List.length_tail]; omega)]

/-- Only the elements at the positions count, not where a list ends. -/
theorem comparePadded_congr (hl : ∀ i, l.getD i z = l'.getD i z)
    (hm : ∀ i, m.getD i z = m'.getD i z) :
    comparePadded cmp z l m = comparePadded cmp z l' m' := by
  let n := l.length + m.length + l'.length + m'.length
  rw [← compareLex_rightpad (n := n) (by omega) (by omega),
    ← compareLex_rightpad (l := l') (n := n) (by omega) (by omega),
    rightpad_eq_map (by omega), rightpad_eq_map (by omega), rightpad_eq_map (l := l') (by omega),
    rightpad_eq_map (l := m') (by omega)]
  simp only [hl, hm]

end

instance orientedCmp [Std.OrientedCmp cmp] : Std.OrientedCmp (comparePadded cmp z) where
  eq_swap {l m} := by
    unfold comparePadded
    rw [Nat.max_comm m.length]
    exact Std.OrientedCmp.eq_swap

/-- **The padded order is transitive** where the order of the elements is. -/
instance transCmp [Std.TransCmp cmp] : Std.TransCmp (comparePadded cmp z) where
  isLE_trans {l m k} := by
    let n := l.length + m.length + k.length
    rw [← compareLex_rightpad (l := l) (m := m) (n := n) (by omega) (by omega),
      ← compareLex_rightpad (l := m) (m := k) (n := n) (by omega) (by omega),
      ← compareLex_rightpad (l := l) (m := k) (n := n) (by omega) (by omega)]
    exact Std.TransCmp.isLE_trans

/-- Lists are level where padding makes them equal. -/
theorem comparePadded_eq_eq_iff [Std.LawfulEqCmp cmp] :
    comparePadded cmp z l m = .eq ↔
      l.rightpad (max l.length m.length) z = m.rightpad (max l.length m.length) z :=
  @Std.LawfulEqCmp.compare_eq_iff_eq _ (List.compareLex cmp) _ _ _

end PaddedLex
