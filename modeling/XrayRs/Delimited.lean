import Mathlib.Data.List.Basic
import Mathlib.Data.List.Infix
import Mathlib.Tactic.Common

/-! # Lists cut at a separator

What `List.splitOn` does to a list that ends like another one, and to one whose elements
are replaced.  The parts of a list are the last parts of a longer one exactly where the
longer one is cut in front of it (`splitOn_suffix_iff`). -/

namespace Delimited

variable {α β : Type} {a : α} {xs ys : List α}

/-- A list around one of its elements. -/
theorem take_append_cons_drop {i : Nat} (h : xs[i]? = some a) :
    xs.take i ++ a :: xs.drop (i + 1) = xs := by
  obtain ⟨hbound, hget⟩ := List.getElem?_eq_some_iff.mp h
  rw [← hget, ← List.drop_eq_getElem_cons hbound, List.take_append_drop]

/-- A list that ends in a mark and another list, by positions. -/
theorem exists_append_cons_iff : (∃ front, xs = front ++ a :: ys) ↔
    ys.length < xs.length ∧ xs[xs.length - ys.length - 1]? = some a ∧
      xs.drop (xs.length - ys.length) = ys := by
  constructor
  · rintro ⟨front, rfl⟩
    have hlength : (front ++ a :: ys).length = front.length + 1 + ys.length := by
      rw [List.length_append, List.length_cons]
      omega
    rw [hlength, Nat.add_sub_cancel, Nat.add_sub_cancel, List.getElem?_append_right (Nat.le_refl _),
      Nat.sub_self, List.drop_append]
    refine ⟨by omega, rfl, ?_⟩
    simp
  · rintro ⟨hlt, hget, hdrop⟩
    obtain ⟨i, hi⟩ : ∃ i, xs.length - ys.length = i + 1 := ⟨xs.length - ys.length - 1, by omega⟩
    rw [hi, Nat.add_sub_cancel] at hget
    rw [hi] at hdrop
    refine ⟨xs.take i, ?_⟩
    rw [← hdrop, take_append_cons_drop hget]

/-- Joining two runs of parts puts one more separator between them. -/
theorem intercalate_append (sep : List α) {ls ms : List (List α)} (hls : ls ≠ []) (hms : ms ≠ []) :
    sep.intercalate (ls ++ ms) = sep.intercalate ls ++ (sep ++ sep.intercalate ms) := by
  induction ls with
  | nil => exact absurd rfl hls
  | cons l ls ih =>
    by_cases hnil : ls = []
    · subst hnil
      rw [List.singleton_append, List.intercalate_cons_of_ne_nil hms, List.intercalate_singleton,
        List.append_assoc]
    · have hne : ls ++ ms ≠ [] := by simp [hnil]
      rw [List.cons_append, List.intercalate_cons_of_ne_nil hne, ih hnil,
        List.intercalate_cons_of_ne_nil hnil]
      simp

/-- Joined parts with a separator behind the last are parts that each have their separator. -/
theorem intercalate_append_self (sep : List α) {ls : List (List α)} (hls : ls ≠ []) :
    sep.intercalate ls ++ sep = ls.flatMap (· ++ sep) := by
  induction ls with
  | nil => exact absurd rfl hls
  | cons l ls ih =>
    by_cases hnil : ls = []
    · rw [hnil, List.intercalate_singleton, List.flatMap_singleton]
    · rw [List.intercalate_cons_of_ne_nil hnil, List.append_assoc, ih hnil, List.flatMap_cons]

/-- What is in no part and not in the separator is not in the joined list. -/
theorem notMem_intercalate {c : α} {sep : List α} {ls : List (List α)} (hsep : c ∉ sep)
    (hls : ∀ l ∈ ls, c ∉ l) : c ∉ sep.intercalate ls := by
  induction ls with
  | nil => exact List.not_mem_nil
  | cons l ls ih =>
    obtain ⟨hl, hls⟩ := List.forall_mem_cons.mp hls
    by_cases hnil : ls = []
    · rwa [hnil, List.intercalate_singleton]
    · rw [List.intercalate_cons_of_ne_nil hnil]
      simp [hl, hsep, ih hls]

variable [BEq α] [LawfulBEq α] [BEq β] [LawfulBEq β]

/-- **Parts at the end**: of a list that is cut right in front of the other one. -/
theorem splitOn_suffix_iff :
    xs.splitOn a <:+ ys.splitOn a ↔ ys = xs ∨ ∃ front, ys = front ++ a :: xs := by
  constructor
  · rintro ⟨parts, hparts⟩
    have hjoin : ys = [a].intercalate (parts ++ xs.splitOn a) := by
      rw [hparts, List.intercalate_splitOn]
    by_cases hnil : parts = []
    · left
      rw [hjoin, hnil, List.nil_append, List.intercalate_splitOn]
    · right
      refine ⟨[a].intercalate parts, ?_⟩
      rw [hjoin, intercalate_append _ hnil (List.splitOn_ne_nil a xs), List.intercalate_splitOn]
      rfl
  · rintro (rfl | ⟨front, rfl⟩)
    · exact List.suffix_refl _
    · rw [List.splitOn_append_cons_self]
      exact List.suffix_append ..

/-- The parts of a list whose elements are replaced, no other becoming a separator. -/
theorem splitOn_map {f : α → β} (hf : ∀ x, f x = f a ↔ x = a) (xs : List α) :
    (xs.map f).splitOn (f a) = (xs.splitOn a).map (List.map f) := by
  induction xs with
  | nil => rfl
  | cons x xs ih =>
    rw [List.map_cons, List.splitOn_cons_eq_if_modifyHead, List.splitOn_cons_eq_if_modifyHead, ih]
    by_cases hx : x = a
    · rw [if_pos (beq_iff_eq.mpr hx), if_pos (beq_iff_eq.mpr ((hf x).mpr hx))]
      rfl
    · rw [if_neg (mt beq_iff_eq.mp hx), if_neg (mt beq_iff_eq.mp (mt (hf x).mp hx))]
      obtain ⟨first, parts, hsplit⟩ := List.exists_cons_of_ne_nil (List.splitOn_ne_nil a xs)
      rw [hsplit]
      rfl

end Delimited
