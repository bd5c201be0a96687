import Mathlib.Tactic.Ring
import XrayRs.ByteWords

/-! # Prefixes of byte strings, as numbers

Two byte strings of one length share their first `bits` bits when the numbers they
spell agree after a division (`SamePrefix`).  The rules take the comparison apart byte
by byte, as a loop over the bytes does: a whole byte that has to be equal, or the
upper bits of the last one, by a mask. -/

namespace BitPrefix

open ByteWords

theorem natOfBe_foldl (bs : Bytes) (acc : Nat) :
    bs.foldl (fun acc b => acc * 256 + b.toNat) acc = acc * 2 ^ (8 * bs.length) + natOfBe bs := by
  unfold natOfBe
  induction bs generalizing acc with
  | nil => simp
  | cons b bs ih =>
    simp only [List.foldl_cons]
    rw [ih, ih (0 * 256 + b.toNat), List.length_cons, Nat.mul_succ 8, Nat.pow_add]
    ring

theorem natOfBe_cons (b : UInt8) (bs : Bytes) :
    natOfBe (b :: bs) = b.toNat * 2 ^ (8 * bs.length) + natOfBe bs := by
  calc natOfBe (b :: bs)
      = (0 * 256 + b.toNat) * 2 ^ (8 * bs.length) + natOfBe bs := natOfBe_foldl bs _
    _ = b.toNat * 2 ^ (8 * bs.length) + natOfBe bs := by rw [Nat.zero_mul, Nat.zero_add]

theorem natOfBe_lt (bs : Bytes) : natOfBe bs < 2 ^ (8 * bs.length) := by
  induction bs with
  | nil => exact Nat.one_pos
  | cons b bs ih =>
    have hb := b.toNat_lt
    rw [natOfBe_cons, List.length_cons, Nat.mul_succ, Nat.pow_add]
    calc b.toNat * 2 ^ (8 * bs.length) + natOfBe bs
        < (b.toNat + 1) * 2 ^ (8 * bs.length) := by rw [Nat.add_mul, Nat.one_mul]; omega
      _ ≤ 2 ^ 8 * 2 ^ (8 * bs.length) := Nat.mul_le_mul_right _ hb
      _ = 2 ^ (8 * bs.length) * 2 ^ 8 := Nat.mul_comm ..

/-- The first `bits` bits are the same. -/
def SamePrefix (bits : Nat) (xs ys : Bytes) : Prop :=
  natOfBe xs / 2 ^ (8 * xs.length - bits) = natOfBe ys / 2 ^ (8 * ys.length - bits)

section Rules

variable {bits : Nat} {a b : UInt8} {xs ys : Bytes}

theorem samePrefix_zero (xs ys : Bytes) : SamePrefix 0 xs ys := by
  unfold SamePrefix
  rw [Nat.sub_zero, Nat.sub_zero, Nat.div_eq_of_lt (natOfBe_lt xs),
    Nat.div_eq_of_lt (natOfBe_lt ys)]

/-- The number of the first byte with some of those after it. -/
theorem natOfBe_cons_div {e : Nat} (he : e ≤ 8 * xs.length) :
    natOfBe (a :: xs) / 2 ^ e = a.toNat * 2 ^ (8 * xs.length - e) + natOfBe xs / 2 ^ e := by
  have hsplit : 2 ^ (8 * xs.length) = 2 ^ e * 2 ^ (8 * xs.length - e) := by
    rw [← Nat.pow_add, Nat.add_sub_cancel' he]
  have hpos : 0 < 2 ^ e := Nat.two_pow_pos e
  rw [natOfBe_cons, hsplit, Nat.mul_left_comm, Nat.add_comm, Nat.add_mul_div_left _ _ hpos,
    Nat.add_comm]

/-- What is left of the bytes after the first is below the weight of the first. -/
theorem natOfBe_div_lt {e : Nat} (he : e ≤ 8 * xs.length) :
    natOfBe xs / 2 ^ e < 2 ^ (8 * xs.length - e) := by
  rw [Nat.div_lt_iff_lt_mul (Nat.two_pow_pos e), ← Nat.pow_add, Nat.sub_add_cancel he]
  exact natOfBe_lt xs

theorem samePrefix_byte (hlen : xs.length = ys.length) (hlow : 8 ≤ bits)
    (hhigh : bits ≤ 8 * xs.length + 8) :
    SamePrefix bits (a :: xs) (b :: ys) ↔ a = b ∧ SamePrefix (bits - 8) xs ys := by
  have he : 8 * xs.length + 8 - bits ≤ 8 * xs.length := by omega
  have he' : 8 * xs.length + 8 - bits ≤ 8 * ys.length := by omega
  have hexp : 8 * xs.length - (bits - 8) = 8 * xs.length + 8 - bits := by omega
  unfold SamePrefix
  rw [List.length_cons, List.length_cons, ← hlen, Nat.mul_succ, hexp, natOfBe_cons_div he,
    natOfBe_cons_div he', ← hlen]
  have hx := natOfBe_div_lt he
  have hy := natOfBe_div_lt he'
  rw [← hlen] at hy
  generalize natOfBe xs / 2 ^ (8 * xs.length + 8 - bits) = m at *
  generalize natOfBe ys / 2 ^ (8 * xs.length + 8 - bits) = n at *
  generalize 2 ^ (8 * xs.length - (8 * xs.length + 8 - bits)) = w at *
  -- `a * w + m = b * w + n` with `m` and `n` below `w`
  constructor
  · intro h
    have hpos : 0 < w := Nat.zero_lt_of_lt hx
    have hdiv := congrArg (· / w) h
    have hmod := congrArg (· % w) h
    simp only [Nat.mul_add_mod_self_right, Nat.mod_eq_of_lt hx, Nat.mod_eq_of_lt hy] at hmod
    simp only [Nat.mul_comm _ w, Nat.mul_add_div hpos, Nat.div_eq_of_lt hx,
      Nat.div_eq_of_lt hy] at hdiv
    exact ⟨UInt8.toNat_inj.mp hdiv, hmod⟩
  · rintro ⟨rfl, rfl⟩
    rfl

/-- The bits of a mask. -/
theorem testBit_mask {s : Nat} (hs : s < 8) (i : Nat) :
    ((0xff : UInt8) <<< UInt8.ofNat s).toNat.testBit i = (decide (i < 8) && decide (s ≤ i)) := by
  have hones : ∀ j, Nat.testBit 255 j = decide (j < 8) := Nat.testBit_two_pow_sub_one 8
  have hmask : ((0xff : UInt8) <<< UInt8.ofNat s).toNat = 255 <<< s % 2 ^ 8 := by
    have hshift : s % 256 % 8 = s := by omega
    rw [UInt8.toNat_shiftLeft, UInt8.toNat_ofNat', hshift]
    rfl
  rw [hmask, Nat.testBit_mod_two_pow, Nat.testBit_shiftLeft, hones]
  by_cases hi : i < 8
  · simp [hi]
    omega
  · simp [hi]

/-- The upper bits of a byte, by a mask and by a division. -/
theorem mask_eq_iff (a b : UInt8) {s : Nat} (hs : s < 8) :
    a &&& (0xff <<< UInt8.ofNat s) = b &&& (0xff <<< UInt8.ofNat s) ↔
      a.toNat / 2 ^ s = b.toNat / 2 ^ s := by
  have hmask : ∀ a : UInt8, (a &&& (0xff <<< UInt8.ofNat s)).toNat = a.toNat / 2 ^ s * 2 ^ s := by
    -- bit by bit: the mask clears what the division drops
    intro a
    apply Nat.eq_of_testBit_eq
    intro i
    rw [UInt8.toNat_and, Nat.testBit_and, testBit_mask hs, Nat.testBit_mul_two_pow,
      Nat.testBit_div_two_pow]
    by_cases hsi : s ≤ i
    · have hhigh : 8 ≤ i → a.toNat.testBit i = false := fun hi =>
        Nat.testBit_lt_two_pow (Nat.lt_of_lt_of_le a.toNat_lt (Nat.pow_le_pow_right (by omega) hi))
      rw [Nat.sub_add_cancel hsi]
      by_cases hi : i < 8
      · simp [hi, hsi]
      · simp [hi, hhigh (by omega)]
    · simp [hsi]
  rw [← UInt8.toNat_inj, hmask, hmask]
  exact Nat.mul_left_inj (Nat.two_pow_pos s).ne'

theorem samePrefix_mask (hlen : xs.length = ys.length) (hlow : 0 < bits) (hhigh : bits < 8) :
    SamePrefix bits (a :: xs) (b :: ys) ↔
      a &&& (0xff <<< UInt8.ofNat (8 - bits)) = b &&& (0xff <<< UInt8.ofNat (8 - bits)) := by
  have hexp : 8 * xs.length + 8 - bits = 8 * xs.length + (8 - bits) := by omega
  have hpos : 0 < 2 ^ (8 * xs.length) := Nat.two_pow_pos _
  rw [mask_eq_iff a b (by omega)]
  have hy := natOfBe_lt ys
  unfold SamePrefix
  -- in two steps: the bytes behind the first, then its lower bits
  rw [List.length_cons, List.length_cons, ← hlen, Nat.mul_succ, hexp, Nat.pow_add,
    ← Nat.div_div_eq_div_mul, ← Nat.div_div_eq_div_mul, natOfBe_cons, natOfBe_cons]
  rw [← hlen] at hy ⊢
  rw [Nat.mul_comm a.toNat, Nat.mul_comm b.toNat, Nat.mul_add_div hpos, Nat.mul_add_div hpos,
    Nat.div_eq_of_lt (natOfBe_lt xs), Nat.div_eq_of_lt hy, Nat.add_zero, Nat.add_zero]

/-- Fewer bits are shared as well. -/
theorem SamePrefix.mono {bits' : Nat} (h : SamePrefix bits' xs ys) (hlen : xs.length = ys.length)
    (hbits : bits ≤ bits') : SamePrefix bits xs ys := by
  unfold SamePrefix at *
  rw [← hlen] at h ⊢
  have hsplit : 8 * xs.length - bits =
      (8 * xs.length - bits') + ((8 * xs.length - bits) - (8 * xs.length - bits')) := by omega
  rw [hsplit, Nat.pow_add, ← Nat.div_div_eq_div_mul, ← Nat.div_div_eq_div_mul, h]

/-- All bits are shared by equal strings only. -/
theorem samePrefix_full (hlen : xs.length = ys.length) :
    SamePrefix (8 * xs.length) xs ys ↔ xs = ys := by
  induction xs generalizing ys with
  | nil =>
    cases ys with
    | nil => exact ⟨fun _ => rfl, fun _ => samePrefix_zero [] []⟩
    | cons => cases hlen
  | cons a xs ih =>
    cases ys with
    | nil => cases hlen
    | cons b ys =>
      have hlen' := Nat.succ.inj hlen
      rw [List.length_cons, Nat.mul_succ, samePrefix_byte hlen' (by omega) (Nat.le_refl _),
        Nat.add_sub_cancel, ih hlen', List.cons.injEq]

end Rules

end BitPrefix
