import Mathlib.Tactic.Ring
import XrayRs.ByteWords

/-! # Base-128 integers

An integer in groups of seven bits, the lowest first: a byte with its high bit set goes
on, one without it is the last.  `Terminated` are the byte strings of this form and
`value` is what they spell; a byte string begins with one of them at most
(`Terminated.append_inj`). -/

namespace Base128

/-- Every byte but the last goes on. -/
inductive Terminated : Bytes → Prop
  | last {byte : UInt8} (h : byte.toNat < 128) : Terminated [byte]
  | more {byte : UInt8} {groups : Bytes} (h : 128 ≤ byte.toNat) (hg : Terminated groups) :
      Terminated (byte :: groups)

/-- The number spelled by the groups. -/
def value : Bytes → Nat
  | [] => 0
  | byte :: groups => byte.toNat % 128 + 128 * value groups

section
variable {g g' rest rest' : Bytes}

theorem value_append (g g' : Bytes) : value (g ++ g') = value g + 128 ^ g.length * value g' := by
  induction g with
  | nil => simp [value]
  | cons byte g ih =>
    rw [List.cons_append, value, value, ih, List.length_cons, Nat.pow_succ]
    ring

theorem value_lt (g : Bytes) : value g < 128 ^ g.length := by
  induction g with
  | nil => exact Nat.one_pos
  | cons byte g ih =>
    have hdigit : byte.toNat % 128 < 128 := Nat.mod_lt _ (by decide)
    rw [value, List.length_cons, Nat.pow_succ]
    omega

theorem Terminated.length_pos (h : Terminated g) : 0 < g.length := by
  cases h with
  | last => exact Nat.one_pos
  | more => exact Nat.succ_pos _

/-- The last byte, and those that go on. -/
theorem Terminated.exists_eq_append (h : Terminated g) :
    ∃ init last, g = init ++ [last] ∧ (∀ b ∈ init, 128 ≤ b.toNat) ∧ last.toNat < 128 := by
  induction h with
  | last hlast => exact ⟨[], _, rfl, by simp, hlast⟩
  | @more byte groups hmore hg ih =>
    obtain ⟨init, last, rfl, hinit, hlast⟩ := ih
    exact ⟨byte :: init, last, rfl, List.forall_mem_cons.mpr ⟨hmore, hinit⟩, hlast⟩

/-- An integer that is cut short goes on. -/
theorem Terminated.more_of_proper (h : Terminated g) {p : Bytes} (hp : p <+: g) (hne : p ≠ g) :
    ∀ b ∈ p, 128 ≤ b.toNat := by
  obtain ⟨init, last, rfl, hinit, -⟩ := h.exists_eq_append
  rcases List.prefix_concat_iff.mp hp with heq | hpre
  · exact absurd heq hne
  · exact fun b hb => hinit b (hpre.subset hb)

/-- The bytes that are left of an integer end it. -/
theorem Terminated.drop (h : Terminated g) {n : Nat} (hn : n < g.length) :
    Terminated (g.drop n) := by
  induction h generalizing n with
  | last hlast =>
    obtain rfl : n = 0 := by simpa using hn
    exact .last hlast
  | more hmore hg ih =>
    cases n with
    | zero => exact .more hmore hg
    | succ n => exact ih (Nat.lt_of_succ_lt_succ hn)

/-- **No integer is the beginning of another one.** -/
theorem Terminated.append_inj (h : Terminated g) (h' : Terminated g')
    (heq : g ++ rest = g' ++ rest') : g = g' ∧ rest = rest' := by
  induction h generalizing g' with
  | last hlast =>
    cases h' with
    | last => simpa using heq
    | more hmore =>
      obtain ⟨rfl, -⟩ := List.cons_eq_cons.mp heq
      omega
  | more hmore _ ih =>
    cases h' with
    | last hlast =>
      obtain ⟨rfl, -⟩ := List.cons_eq_cons.mp heq
      omega
    | more _ h' =>
      obtain ⟨rfl, htail⟩ := List.cons_eq_cons.mp heq
      obtain ⟨rfl, hrest⟩ := ih h' htail
      exact ⟨rfl, hrest⟩

/-- Within any number of bytes an integer ends, or all of them go on. -/
theorem exists_terminated (n : Nat) (s : Bytes) :
    (∃ g rest, s = g ++ rest ∧ Terminated g ∧ g.length ≤ n) ∨ ∀ b ∈ s.take n, 128 ≤ b.toNat := by
  induction n generalizing s with
  | zero => exact .inr (by simp)
  | succ n ih =>
    cases s with
    | nil => exact .inr (by simp)
    | cons byte s =>
      by_cases hlast : byte.toNat < 128
      · exact .inl ⟨[byte], s, rfl, .last hlast, by simp⟩
      · rcases ih s with ⟨g, rest, rfl, hg, hlength⟩ | hmore
        · exact .inl ⟨byte :: g, rest, rfl, .more (Nat.not_lt.mp hlast) hg, by simpa using hlength⟩
        · right
          intro b hb
          rw [List.take_succ_cons, List.mem_cons] at hb
          rcases hb with rfl | hb
          · exact Nat.not_lt.mp hlast
          · exact hmore b hb

/-- An integer ends within bytes that do not all go on. -/
theorem Terminated.not_more (h : Terminated g) {n : Nat} (hlength : g.length ≤ n) :
    ¬ ∀ b ∈ (g ++ rest).take n, 128 ≤ b.toNat := by
  induction h generalizing n with
  | last hlast =>
    intro hmore
    obtain ⟨n, rfl⟩ := Nat.exists_eq_succ_of_ne_zero (by simp at hlength; omega : n ≠ 0)
    have hfirst := hmore _ (List.mem_cons_self ..)
    omega
  | more _ _ ih =>
    intro hmore
    obtain ⟨n, rfl⟩ := Nat.exists_eq_succ_of_ne_zero (by simp at hlength; omega : n ≠ 0)
    refine ih (n := n) (by simpa using hlength) fun b hb => hmore b ?_
    rw [List.cons_append, List.take_succ_cons]
    exact List.mem_cons_of_mem _ hb

end

/-- An integer of at most ten bytes, as many as 64 bits take. -/
structure Groups where
  bytes : Bytes
  terminated : Terminated bytes
  short : bytes.length ≤ 10

/-- A byte that does not go on. -/
def Groups.byte (byte : UInt8) (h : byte.toNat < 128) : Groups := ⟨[byte], .last h, by simp⟩

/-- The number that an integer spells. -/
def Groups.value (g : Groups) : Nat := Base128.value g.bytes

end Base128
