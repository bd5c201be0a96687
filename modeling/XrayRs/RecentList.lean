import Mathlib.Data.List.Dedup
import Mathlib.Data.List.Induction
import Mathlib.Tactic.Common

/-! # Lists of recent elements

A list of at most `cap` elements that is touched: the element touched goes to the
front, from wherever it was, and the last one is dropped when there are too many.

The list that a history of touches leaves is the first `cap` of its distinct elements,
the latest first (`foldl_touch`).  Truncation commutes with a touch, for moving an
element to the front moves no other one forward past the end (`take_erase_take`). -/

namespace RecentList

variable {α : Type} [DecidableEq α]

/-- Touch `a`. -/
def touch (cap : Nat) (l : List α) (a : α) : List α :=
  if cap < (a :: l.erase a).length then (a :: l.erase a).dropLast else a :: l.erase a

/-- The distinct elements of a history, the latest first. -/
def recent (history : List α) : List α := history.dedup.reverse

theorem nodup_recent (history : List α) : (recent history).Nodup :=
  List.nodup_reverse.mpr (List.nodup_dedup history)

/-- An element that comes last is the last of the distinct ones. -/
theorem dedup_append_singleton (history : List α) (a : α) :
    (history ++ [a]).dedup = history.dedup.erase a ++ [a] := by
  induction history with
  | nil => rfl
  | cons b history ih =>
    rw [List.cons_append]
    by_cases hmem : b ∈ history
    · rw [List.dedup_cons_of_mem (List.mem_append_left _ hmem), List.dedup_cons_of_mem hmem, ih]
    · rw [List.dedup_cons_of_notMem hmem]
      by_cases hba : b = a
      · subst hba
        have hdedup : b ∉ history.dedup := fun h => hmem (List.mem_dedup.mp h)
        rw [List.dedup_cons_of_mem (List.mem_append_right _ List.mem_cons_self), ih,
          List.erase_of_not_mem hdedup, List.erase_cons_head]
      · have hnot : b ∉ history ++ [a] := by
          simp [hmem, hba]
        rw [List.dedup_cons_of_notMem hnot, ih, List.erase_cons_tail (by simpa using hba),
          List.cons_append]

/-- The element touched last is the most recent one. -/
theorem recent_append_singleton (history : List α) (a : α) :
    recent (history ++ [a]) = a :: (recent history).erase a := by
  have hnodup := List.nodup_dedup history
  unfold recent
  rw [dedup_append_singleton, List.reverse_append, List.reverse_singleton, List.singleton_append,
    (List.nodup_reverse.mpr hnodup).erase_eq_filter, hnodup.erase_eq_filter, List.filter_reverse]

/-- With at most `cap` elements before, a touch truncates. -/
theorem touch_eq_take {cap : Nat} {l : List α} (h : l.length ≤ cap) (a : α) :
    touch cap l a = (a :: l.erase a).take cap := by
  have hlen : (a :: l.erase a).length ≤ cap + 1 := by
    have hle := List.length_erase_le (a := a) (l := l)
    rw [List.length_cons]
    omega
  unfold touch
  by_cases hfull : cap < (a :: l.erase a).length
  · rw [if_pos hfull, List.dropLast_eq_take, show (a :: l.erase a).length - 1 = cap by omega]
  · rw [if_neg hfull, List.take_of_length_le (by omega)]

/-- What is past the end of the truncated list does not come back by an erasure. -/
theorem take_erase_take (l : List α) (a : α) (n : Nat) :
    ((l.take (n + 1)).erase a).take n = (l.erase a).take n := by
  induction l generalizing n with
  | nil => rfl
  | cons b l ih =>
    rw [List.take_succ_cons]
    by_cases hba : b = a
    · subst hba
      rw [List.erase_cons_head, List.erase_cons_head, List.take_take, Nat.min_self]
    · have hne : (b == a) = false := by simpa using hba
      rw [List.erase_cons_tail (by simp [hne]), List.erase_cons_tail (by simp [hne])]
      cases n with
      | zero => rfl
      | succ n => rw [List.take_succ_cons, List.take_succ_cons, ih]

/-- A touch of the truncated list is the truncated touch of the whole one. -/
theorem touch_take (cap : Nat) (l : List α) (a : α) :
    touch cap (l.take cap) a = (a :: l.erase a).take cap := by
  rw [touch_eq_take (List.length_take_le cap l)]
  cases cap with
  | zero => rfl
  | succ n => rw [List.take_succ_cons, List.take_succ_cons, take_erase_take]

/-- **What a history of touches leaves**: of its distinct elements the first `cap`, the
latest first. -/
theorem foldl_touch (cap : Nat) (history : List α) :
    history.foldl (touch cap) [] = (recent history).take cap := by
  induction history using List.reverseRecOn with
  | nil => simp [recent]
  | append_singleton history a ih =>
    rw [List.foldl_append, ih, List.foldl_cons, List.foldl_nil, touch_take,
      recent_append_singleton]

end RecentList
