import Mathlib.Data.List.Infix
import Mathlib.Tactic.Common

/-! # Lines that end in two marks

A text in lines, each but the last followed by the two marks `cr`, `lf`.  Splitting takes
the breaks from left to right; as the marks differ, two breaks never overlap, so a text is
split in one way only: joined lines without a break inside are split into just these
(`splitLines_intercalate`), whatever single marks stand in them. -/

namespace LineBreaks

variable {α : Type} (cr lf : α)

/-- The parts between the breaks, taken from the left. -/
def splitLines [DecidableEq α] : List α → List (List α)
  | [] => [[]]
  | [a] => [[a]]
  | a :: b :: s =>
    if a = cr ∧ b = lf then [] :: splitLines s else (splitLines (b :: s)).modifyHead (a :: ·)

/-- No break inside. -/
def Unbroken : List α → Prop
  | a :: b :: line => ¬(a = cr ∧ b = lf) ∧ Unbroken (b :: line)
  | _ => True

/-- A break at the start. -/
def StartsBroken : List α → Prop
  | a :: b :: _ => a = cr ∧ b = lf
  | _ => False

variable {cr lf}

/-! ## Lines -/

section
variable {a : α} {line : List α}

theorem Unbroken.tail (h : Unbroken cr lf (a :: line)) : Unbroken cr lf line := by
  cases line with
  | nil => trivial
  | cons b line => exact h.2

theorem unbroken_cons : Unbroken cr lf (a :: line) ↔
    ¬StartsBroken cr lf (a :: line) ∧ Unbroken cr lf line := by
  cases line with
  | nil => exact ⟨fun _ => ⟨id, trivial⟩, fun _ => trivial⟩
  | cons b line => rfl

/-- A break starts with the mark `cr`. -/
theorem not_startsBroken_of_ne (h : a ≠ cr) (t : List α) : ¬StartsBroken cr lf (a :: t) := by
  cases t with
  | nil => exact id
  | cons b t => exact fun hbreak => h hbreak.1

theorem unbroken_of_not_mem (h : cr ∉ line) : Unbroken cr lf line := by
  induction line with
  | nil => trivial
  | cons a line ih =>
    obtain ⟨ha, hline⟩ := not_or.mp (mt List.mem_cons.mpr h)
    exact unbroken_cons.mpr ⟨not_startsBroken_of_ne (Ne.symm ha) line, ih hline⟩

theorem Unbroken.right {s t : List α} (h : Unbroken cr lf (s ++ t)) : Unbroken cr lf t := by
  induction s with
  | nil => exact h
  | cons a s ih => exact ih h.tail

theorem Unbroken.left {s t : List α} (h : Unbroken cr lf (s ++ t)) : Unbroken cr lf s := by
  induction s with
  | nil => trivial
  | cons a s ih =>
    obtain ⟨hstart, hrest⟩ := unbroken_cons.mp h
    refine unbroken_cons.mpr ⟨?_, ih hrest⟩
    cases s with
    | nil => exact id
    | cons b s => exact hstart

/-- Lines on both sides of something that is no mark are one line. -/
theorem Unbroken.append_cons {s t : List α} (hs : Unbroken cr lf s) (hcr : a ≠ cr) (hlf : a ≠ lf)
    (ht : Unbroken cr lf t) : Unbroken cr lf (s ++ a :: t) := by
  induction s with
  | nil => exact unbroken_cons.mpr ⟨not_startsBroken_of_ne hcr t, ht⟩
  | cons b s ih =>
    obtain ⟨hb, hrest⟩ := unbroken_cons.mp hs
    refine unbroken_cons.mpr ⟨?_, ih hrest⟩
    cases s with
    | nil => exact fun h => hlf h.2
    | cons c s => exact hb

/-- A line in front of a break does not make one earlier: a mark cannot be both. -/
theorem not_startsBroken_append (hne : cr ≠ lf) (hline : Unbroken cr lf line) (hnil : line ≠ [])
    (t : List α) : ¬StartsBroken cr lf (line ++ cr :: t) := by
  match line, hline, hnil with
  | [a], _, _ => exact fun h => hne h.2
  | _ :: _ :: _, hline, _ => exact hline.1

end

/-! ## Splitting -/

section
variable [DecidableEq α] {a : α} {line s : List α}

theorem splitLines_ne_nil (s : List α) : splitLines cr lf s ≠ [] := by
  fun_induction splitLines cr lf s with
  | case1 | case2 | case3 => exact List.cons_ne_nil _ _
  | case4 a b s hbreak ih =>
    intro h
    exact ih (by simpa using h)

variable (cr lf) in
/-- There is a first line. -/
theorem exists_splitLines (s : List α) : ∃ line lines, splitLines cr lf s = line :: lines :=
  List.exists_cons_of_ne_nil (splitLines_ne_nil s)

theorem splitLines_break (s : List α) :
    splitLines cr lf (cr :: lf :: s) = [] :: splitLines cr lf s := by
  rw [splitLines, if_pos ⟨rfl, rfl⟩]

/-- A mark that begins no break belongs to the first line. -/
theorem splitLines_cons (h : ¬StartsBroken cr lf (a :: s)) :
    splitLines cr lf (a :: s) = (splitLines cr lf s).modifyHead (a :: ·) := by
  cases s with
  | nil => rfl
  | cons b s =>
    rw [StartsBroken] at h
    rw [splitLines, if_neg h]

/-- So does a piece without a mark `cr`. -/
theorem splitLines_append_of_not_mem {piece : List α} (h : cr ∉ piece) (s : List α) :
    splitLines cr lf (piece ++ s) = (splitLines cr lf s).modifyHead (piece ++ ·) := by
  induction piece with
  | nil => exact (congrFun List.modifyHead_id (splitLines cr lf s)).symm
  | cons a piece ih =>
    obtain ⟨ha, hpiece⟩ := not_or.mp (mt List.mem_cons.mpr h)
    have hstart : ¬StartsBroken cr lf (a :: (piece ++ s)) :=
      not_startsBroken_of_ne (Ne.symm ha) (piece ++ s)
    rw [List.cons_append, splitLines_cons hstart, ih hpiece, List.modifyHead_modifyHead]
    rfl

/-- The first line begins as the text does. -/
theorem head_splitLines {b : α} {lines : List (List α)}
    (h : splitLines cr lf (a :: s) = (b :: line) :: lines) : b = a := by
  cases s with
  | nil =>
    cases h
    rfl
  | cons c s =>
    rw [splitLines] at h
    split at h
    · cases h
    · obtain ⟨next, rest, hrest⟩ := exists_splitLines cr lf (c :: s)
      rw [hrest] at h
      cases h
      rfl

theorem splitLines_of_unbroken (h : Unbroken cr lf line) : splitLines cr lf line = [line] := by
  induction line with
  | nil => rfl
  | cons a line ih =>
    obtain ⟨hstart, hline⟩ := unbroken_cons.mp h
    rw [splitLines_cons hstart, ih hline]
    rfl

/-- **A line and its break are split off.** -/
theorem splitLines_append (hne : cr ≠ lf) (h : Unbroken cr lf line) (s : List α) :
    splitLines cr lf (line ++ cr :: lf :: s) = line :: splitLines cr lf s := by
  induction line with
  | nil => exact splitLines_break s
  | cons a line ih =>
    have hstart := not_startsBroken_append hne h (List.cons_ne_nil _ _) (lf :: s)
    rw [List.cons_append] at hstart ⊢
    rw [splitLines_cons hstart, ih h.tail]
    rfl

/-- **Joined lines are split into just these.** -/
theorem splitLines_intercalate (hne : cr ≠ lf) {lines : List (List α)} (hlines : lines ≠ [])
    (h : ∀ line ∈ lines, Unbroken cr lf line) :
    splitLines cr lf ([cr, lf].intercalate lines) = lines := by
  induction lines with
  | nil => exact absurd rfl hlines
  | cons line lines ih =>
    obtain ⟨hline, hrest⟩ := List.forall_mem_cons.mp h
    cases lines with
    | nil =>
      rw [List.intercalate_singleton]
      exact splitLines_of_unbroken hline
    | cons next lines =>
      have hsplit := splitLines_append hne hline ([cr, lf].intercalate (next :: lines))
      rw [ih (List.cons_ne_nil _ _) hrest] at hsplit
      rw [List.intercalate_cons_cons, List.append_assoc]
      exact hsplit

/-- **No part has a break inside.** -/
theorem unbroken_of_mem_splitLines (h : line ∈ splitLines cr lf s) : Unbroken cr lf line := by
  fun_induction splitLines cr lf s generalizing line with
  | case1 | case2 =>
    rw [List.mem_singleton.mp h]
    trivial
  | case3 a b s hbreak ih =>
    rcases List.mem_cons.mp h with rfl | h
    · trivial
    · exact ih h
  | case4 a b s hbreak ih =>
    obtain ⟨first, lines, hrest⟩ := exists_splitLines cr lf (b :: s)
    rw [hrest] at h ih
    rw [List.modifyHead_cons, List.mem_cons] at h
    rcases h with rfl | h
    · have hfirst := ih (List.mem_cons_self ..)
      cases first with
      | nil => trivial
      | cons c first =>
        obtain rfl := head_splitLines hrest
        exact ⟨hbreak, hfirst⟩
    · exact ih (List.mem_cons_of_mem _ h)

/-- **Nothing is lost.** -/
theorem intercalate_splitLines (s : List α) : [cr, lf].intercalate (splitLines cr lf s) = s := by
  fun_induction splitLines cr lf s with
  | case1 | case2 => rfl
  | case3 a b s hbreak ih =>
    obtain ⟨rfl, rfl⟩ := hbreak
    obtain ⟨line, lines, hrest⟩ := exists_splitLines a b s
    rw [hrest, List.intercalate_cons_cons, ← hrest, ih]
    rfl
  | case4 a b s hbreak ih =>
    obtain ⟨first, lines, hrest⟩ := exists_splitLines cr lf (b :: s)
    rw [hrest] at ih
    rw [hrest, List.modifyHead_cons, ← ih]
    cases lines with
    | nil => simp only [List.intercalate_singleton]
    | cons next lines =>
      rw [List.intercalate_cons_cons, List.intercalate_cons_cons]
      rfl

end

end LineBreaks
