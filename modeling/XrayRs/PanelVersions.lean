import Mathlib.Algebra.Order.Ring.Int
import XrayRs.Net
import XrayRs.PaddedLex
import XrayRs.Text

/-! # Panel versions

`compare_version` (`saas/src/sspanel/mod.rs`) walks two version texts with one cursor
each, a segment a turn, until both are past their ends.  On digits and dots it is the
order of the segments as numbers, the shorter list padded with zeros, and no `i64`
overflows while no segment is longer than 18 digits (`compare_version_numeric`). -/

namespace XrayRs.Saas

open PaddedLex

/-! ## The comparison -/

/-- The result of an `i64` operation, if it does not overflow. -/
def i64 (x : Int) : Option Int := if -2 ^ 63 ≤ x ∧ x < 2 ^ 63 then some x else none

/-- The inner loops of `compare_version`: the number in front of the next dot, and the
bytes from there on. -/
def readSegment (x : Int) : Bytes → Option (Int × Bytes)
  | [] => some (x, [])
  | c :: a =>
    if c = 0x2e then some (x, c :: a)
    else do
      let tens ← i64 (x * 10)
      let digit ← i64 (c.toNat - 0x30)
      let x ← i64 (tens + digit)
      readSegment x a

theorem length_of_readSegment {x y : Int} {a a' : Bytes} (h : readSegment x a = some (y, a')) :
    a'.length ≤ a.length := by
  induction a generalizing x with
  | nil =>
    cases h
    exact Nat.le_refl _
  | cons c a ih =>
    rw [readSegment] at h
    by_cases hdot : c = 0x2e
    · rw [if_pos hdot] at h
      cases h
      exact Nat.le_refl _
    · rw [if_neg hdot] at h
      obtain ⟨tens, -, h⟩ := Option.bind_eq_some_iff.mp h
      obtain ⟨digit, -, h⟩ := Option.bind_eq_some_iff.mp h
      obtain ⟨x', -, h⟩ := Option.bind_eq_some_iff.mp h
      exact Nat.le_succ_of_le (ih h)

/-- The loop of `compare_version`, on the bytes behind the two cursors; `none` is an
overflow.  A cursor skips the dot it stands on and stays past the end. -/
def compareFrom (a b : Bytes) : Option Int32 :=
  if _ : a = [] ∧ b = [] then some 0
  else
    match hx : readSegment 0 a, hy : readSegment 0 b with
    | some (x, a'), some (y, b') =>
      if y < x then some 1
      else if x < y then some (-1)
      else compareFrom a'.tail b'.tail
    | _, _ => none
termination_by a.length + b.length
decreasing_by
  have hx' := length_of_readSegment hx
  have hy' := length_of_readSegment hy
  have hpos : 0 < a.length + b.length := by
    rw [← List.length_append, List.length_pos_iff]
    have hne : ¬ (a = [] ∧ b = []) := by assumption
    simpa using hne
  rw [List.length_tail, List.length_tail]
  omega

/-- `compare_version`. -/
def compareVersion (v1 v2 : String) : Option Int32 := compareFrom (asBytes v1) (asBytes v2)

/-! ## Versions -/

/-- Digits and dots, and at most 18 digits in a row. -/
structure IsVersion (v : List Char) : Prop where
  digitOrDot : ∀ c ∈ v, c.isDigit = true ∨ c = '.'
  short : ∀ seg ∈ v.splitOn '.', seg.length ≤ 18

/-- The segments of a version as numbers; an empty one is 0. -/
def segments (v : List Char) : List Nat := (v.splitOn '.').map (Nat.ofDigitChars 10 · 0)

/-- The numeric order of versions: the first segments that differ decide, the shorter list
padded with zeros. -/
def versionOrder (v w : List Char) : Ordering := comparePadded compare 0 (segments v) (segments w)

/-- The sign that `compare_version` stands for an order with. -/
def sign : Ordering → Int32
  | .lt => -1
  | .eq => 0
  | .gt => 1

/-! ## One turn of the loop -/

theorem i64_of_lt {n : Nat} (h : n < 2 ^ 63) : i64 n = some (n : Int) :=
  if_pos ⟨by omega, by omega⟩

/-- A digit is one byte, at its distance from `0`. -/
theorem digit_byte {c : Char} (h : c.isDigit = true) :
    String.utf8EncodeChar c = [UInt8.ofNat c.toNat] ∧ UInt8.ofNat c.toNat ≠ 0x2e ∧
      i64 ((UInt8.ofNat c.toNat).toNat - 0x30) = some ((c.toNat - '0'.toNat : Nat) : Int) ∧
      c.toNat - '0'.toNat < 10 := by
  obtain ⟨h1, h2⟩ : 48 ≤ c.toNat ∧ c.toNat ≤ 57 := Char.isDigit_iff_toNat.mp h
  have hbyte : (UInt8.ofNat c.toNat).toNat = c.toNat :=
    UInt8.toNat_ofNat_of_lt' (show _ < 256 by omega)
  have hzero : '0'.toNat = 48 := rfl
  refine ⟨?_, ?_, ?_, by omega⟩
  · rcases Text.utf8EncodeChar_cases c with ⟨-, hbytes⟩ | ⟨hge, -⟩
    · exact hbytes
    · have hval : c.val.toNat = c.toNat := rfl
      omega
  · intro hdot
    have hval := congrArg UInt8.toNat hdot
    rw [hbyte] at hval
    have hdotval : (0x2e : UInt8).toNat = 46 := rfl
    omega
  · rw [hbyte, hzero]
    have hcast : (c.toNat : Int) - 0x30 = ((c.toNat - 48 : Nat) : Int) := by omega
    rw [hcast]
    exact i64_of_lt (by omega)

theorem asBytes_cons (c : Char) (v : List Char) :
    asBytes (.ofList (c :: v)) = String.utf8EncodeChar c ++ asBytes (.ofList v) := by
  rw [asBytes_ofList, asBytes_ofList, List.flatMap_cons]

theorem readSegment_cons {c : UInt8} {a : Bytes} {x tens digit y : Int} (hdot : c ≠ 0x2e)
    (htens : i64 (x * 10) = some tens) (hdigit : i64 (c.toNat - 0x30) = some digit)
    (hsum : i64 (tens + digit) = some y) : readSegment x (c :: a) = readSegment y a := by
  rw [readSegment, if_neg hdot, htens, hdigit, Option.bind_eq_bind, Option.bind_some,
    Option.bind_some, hsum, Option.bind_some]

/-- **Digits are read without overflow** while they stay below `2 ^ 63`. -/
theorem readSegment_digits {seg : List Char} (hseg : ∀ c ∈ seg, c.isDigit = true) (n : Nat)
    (hfit : (n + 1) * 10 ^ seg.length ≤ 2 ^ 63) (rest : List Char) :
    readSegment n (asBytes (.ofList (seg ++ rest))) =
      readSegment (Nat.ofDigitChars 10 seg n : Nat) (asBytes (.ofList rest)) := by
  induction seg generalizing n with
  | nil => rw [List.nil_append, Nat.ofDigitChars_nil]
  | cons c seg ih =>
    obtain ⟨hc, hseg⟩ := List.forall_mem_cons.mp hseg
    obtain ⟨hbytes, hdot, hdigit, hlt⟩ := digit_byte hc
    rw [List.length_cons] at hfit
    have hpow : (n + 1) * 10 ≤ (n + 1) * 10 ^ (seg.length + 1) :=
      Nat.mul_le_mul_left _ (Nat.le_self_pow (Nat.succ_ne_zero _) 10)
    have hnext : (10 * n + (c.toNat - '0'.toNat) + 1) * 10 ^ seg.length ≤ 2 ^ 63 := by
      calc (10 * n + (c.toNat - '0'.toNat) + 1) * 10 ^ seg.length
          ≤ (n + 1) * 10 * 10 ^ seg.length := Nat.mul_le_mul_right _ (by omega)
        _ = (n + 1) * 10 ^ (seg.length + 1) := by rw [Nat.pow_succ, Nat.mul_assoc, Nat.mul_comm 10]
        _ ≤ 2 ^ 63 := hfit
    have htens : i64 ((n : Int) * 10) = some ((n * 10 : Nat) : Int) := by
      have hcast : (n : Int) * 10 = ((n * 10 : Nat) : Int) := by omega
      rw [hcast]
      exact i64_of_lt (by omega)
    have hsum : i64 (((n * 10 : Nat) : Int) + ((c.toNat - '0'.toNat : Nat) : Int)) =
        some ((10 * n + (c.toNat - '0'.toNat) : Nat) : Int) := by
      rw [← Int.natCast_add, Nat.mul_comm n]
      exact i64_of_lt (by omega)
    rw [List.cons_append, asBytes_cons, hbytes, List.singleton_append,
      readSegment_cons hdot htens hdigit hsum, ih hseg _ hnext, Nat.ofDigitChars_cons]

theorem readSegment_rest {rest : List Char} (hrest : rest = [] ∨ ∃ v, rest = '.' :: v) (n : Int) :
    readSegment n (asBytes (.ofList rest)) = some (n, asBytes (.ofList rest)) ∧
      (asBytes (.ofList rest)).tail = asBytes (.ofList rest.tail) := by
  rcases hrest with rfl | ⟨v, rfl⟩
  · exact ⟨rfl, rfl⟩
  · rw [asBytes_cons]
    exact ⟨if_pos rfl, rfl⟩

/-- A segment and what follows it. -/
theorem exists_segment (v : List Char) : ∃ seg rest, v = seg ++ rest ∧ '.' ∉ seg ∧
    ((rest = [] ∧ v.splitOn '.' = [seg]) ∨
      ∃ w, rest = '.' :: w ∧ v.splitOn '.' = seg :: w.splitOn '.') := by
  by_cases hmem : '.' ∈ v
  · obtain ⟨seg, w, rfl, hseg⟩ := List.eq_append_cons_of_mem hmem
    exact ⟨seg, '.' :: w, rfl, hseg,
      .inr ⟨w, rfl, List.splitOn_append_cons_self_of_not_mem hseg w⟩⟩
  · exact ⟨v, [], (List.append_nil v).symm, hmem, .inl ⟨rfl, List.splitOn_eq_singleton hmem⟩⟩

/-- A segment of at most 18 digits is read whole. -/
theorem readSegment_segment {seg rest : List Char} (hdigit : ∀ c ∈ seg, c.isDigit = true)
    (hlength : seg.length ≤ 18) (hends : rest = [] ∨ ∃ w, rest = '.' :: w) :
    readSegment 0 (asBytes (.ofList (seg ++ rest))) =
      some (((Nat.ofDigitChars 10 seg 0 : Nat) : Int), asBytes (.ofList rest)) := by
  have hfit : (0 + 1) * 10 ^ seg.length ≤ 2 ^ 63 := by
    have hpow := Nat.pow_le_pow_right (show 0 < 10 by decide) hlength
    have hbound : 10 ^ 18 ≤ 2 ^ 63 := by decide
    omega
  have hdigits := readSegment_digits hdigit 0 hfit rest
  rw [(readSegment_rest hends _).1] at hdigits
  exact hdigits

/-- **What a cursor does in a turn**: it takes the first segment, and leaves the others. -/
theorem IsVersion.readSegment {v : List Char} (h : IsVersion v) : ∃ (rest : Bytes) (w : List Char),
    Saas.readSegment 0 (asBytes (.ofList v)) = some ((((segments v).headD 0 : Nat) : Int), rest) ∧
      rest.tail = asBytes (.ofList w) ∧ IsVersion w ∧ w.length ≤ v.length - 1 ∧
      ∀ i, (segments v).tail.getD i 0 = (segments w).getD i 0 := by
  obtain ⟨seg, rest, rfl, hdot, hrest⟩ := exists_segment v
  have hdigit : ∀ c ∈ seg, c.isDigit = true := by
    intro c hc
    refine (h.digitOrDot c (List.mem_append_left _ hc)).resolve_right ?_
    rintro rfl
    exact hdot hc
  rcases hrest with ⟨rfl, hsplit⟩ | ⟨w, rfl, hsplit⟩
  · have hlength : seg.length ≤ 18 := h.short seg (by rw [hsplit]; exact List.mem_singleton_self _)
    refine ⟨[], [], ?_, rfl, ⟨fun _ hc => absurd hc List.not_mem_nil, ?_⟩, Nat.zero_le _, ?_⟩
    · rw [readSegment_segment hdigit hlength (.inl rfl), segments, hsplit]
      rfl
    · intro seg' hseg'
      obtain rfl := List.mem_singleton.mp hseg'
      exact Nat.zero_le _
    · intro i
      rw [segments, hsplit]
      -- no segment left, or the one of the empty text
      cases i <;> rfl
  · have hlength : seg.length ≤ 18 := h.short seg (by rw [hsplit]; exact List.mem_cons_self)
    refine ⟨_, w, ?_, (readSegment_rest (.inr ⟨w, rfl⟩) 0).2, ⟨?_, ?_⟩, ?_, ?_⟩
    · rw [readSegment_segment hdigit hlength (.inr ⟨w, rfl⟩), segments, hsplit]
      rfl
    · exact fun c hc => h.digitOrDot c (List.mem_append_right _ (List.mem_cons_of_mem _ hc))
    · intro seg' hseg'
      exact h.short seg' (by rw [hsplit]; exact List.mem_cons_of_mem _ hseg')
    · rw [List.length_append, List.length_cons]
      omega
    · intro i
      rw [segments, hsplit]
      rfl

/-- A turn of the loop whose segments are read. -/
theorem compareFrom_of_read {a b a' b' : Bytes} {x y : Int} (hne : ¬ (a = [] ∧ b = []))
    (hx : readSegment 0 a = some (x, a')) (hy : readSegment 0 b = some (y, b')) :
    compareFrom a b =
      if y < x then some 1 else if x < y then some (-1) else compareFrom a'.tail b'.tail := by
  rw [compareFrom, dif_neg hne]
  split
  · next hx' hy' =>
    rw [hx] at hx'
    rw [hy] at hy'
    cases hx'
    cases hy'
    rfl
  · next hnone => exact (hnone x a' y b' hx hy).elim

/-! ## The order -/

/-- **The loop compares**: on versions it never overflows, and it returns the sign of
their order. -/
theorem compareFrom_eq {v w : List Char} (hv : IsVersion v) (hw : IsVersion w) :
    compareFrom (asBytes (.ofList v)) (asBytes (.ofList w)) = some (sign (versionOrder v w)) := by
  induction hn : v.length + w.length using Nat.strongRecOn generalizing v w with
  | ind n ih =>
    have hnil : ∀ v : List Char, asBytes (.ofList v) = [] ↔ v = [] := by
      intro v
      rw [asBytes_ofList, List.flatMap_eq_nil_iff, List.eq_nil_iff_forall_not_mem]
      exact forall_congr' fun c => by simp
    by_cases hends : v = [] ∧ w = []
    · obtain ⟨rfl, rfl⟩ := hends
      rw [compareFrom, dif_pos ⟨(hnil _).mpr rfl, (hnil _).mpr rfl⟩, versionOrder,
        comparePadded_self]
      rfl
    · obtain ⟨a, v', hx, ha, hv', hlength, hsegments⟩ := hv.readSegment
      obtain ⟨b, w', hy, hb, hw', hlength', hsegments'⟩ := hw.readSegment
      have hshorter : v'.length + w'.length < n := by
        have hpos : 0 < v.length + w.length := by
          rw [← List.length_append, List.length_pos_iff]
          simpa using hends
        omega
      have horder : versionOrder v w =
          (compare ((segments v).headD 0) ((segments w).headD 0)).then (versionOrder v' w') := by
        rw [versionOrder, comparePadded_eq, comparePadded_congr hsegments hsegments']
        rfl
      rw [compareFrom_of_read (by rwa [hnil, hnil]) hx hy, horder, ha, hb, ih _ hshorter hv' hw' rfl]
      rcases Nat.lt_trichotomy ((segments v).headD 0) ((segments w).headD 0) with hlt | heq | hgt
      · rw [if_neg (by omega), if_pos (by omega), Nat.compare_eq_lt.mpr hlt]
        rfl
      · rw [if_neg (by omega), if_neg (by omega), Nat.compare_eq_eq.mpr heq]
        rfl
      · rw [if_pos (by omega), Nat.compare_eq_gt.mpr hgt]
        rfl

theorem sign_swap (o : Ordering) : sign o.swap = -sign o := by
  cases o <;> rfl

theorem sign_le_zero_iff (o : Ordering) : sign o ≤ 0 ↔ o.isLE = true := by
  cases o <;> decide

theorem sign_eq_zero_iff (o : Ordering) : sign o = 0 ↔ o = .eq := by
  cases o <;> decide

theorem compareVersion_eq {v w : String} (hv : IsVersion v.toList) (hw : IsVersion w.toList) :
    compareVersion v w = some (sign (versionOrder v.toList w.toList)) := by
  have h := compareFrom_eq hv hw
  rwa [String.ofList_toList, String.ofList_toList] at h

/-- **`compare_version` is the numeric order** of versions: no `i64` overflows, the result
is the sign of the order of the padded segment lists, and so it is a total preorder whose
level versions are those with equal padded lists. -/
theorem compare_version_numeric :
    (∀ v w : String, IsVersion v.toList → IsVersion w.toList →
      compareVersion v w = some (sign (versionOrder v.toList w.toList))) ∧
    (∀ v w : String, IsVersion v.toList → IsVersion w.toList →
      compareVersion w v = (compareVersion v w).map (-·)) ∧
    (∀ u v w : String, IsVersion u.toList → IsVersion v.toList → IsVersion w.toList →
      ∀ r r', compareVersion u v = some r → r ≤ 0 → compareVersion v w = some r' → r' ≤ 0 →
        ∃ r'', compareVersion u w = some r'' ∧ r'' ≤ 0) ∧
    ∀ v w : String, IsVersion v.toList → IsVersion w.toList →
      (compareVersion v w = some 0 ↔
        let n := max (segments v.toList).length (segments w.toList).length
        (segments v.toList).rightpad n 0 = (segments w.toList).rightpad n 0) := by
  refine ⟨fun v w => compareVersion_eq, ?_, ?_, ?_⟩
  · intro v w hv hw
    have hswap : versionOrder w.toList v.toList = (versionOrder v.toList w.toList).swap :=
      (@orientedCmp Nat compare 0 _).eq_swap
    rw [compareVersion_eq hw hv, compareVersion_eq hv hw, hswap, sign_swap]
    rfl
  · intro u v w hu hv hw r r' huv hr hvw hr'
    rw [compareVersion_eq hu hv] at huv
    rw [compareVersion_eq hv hw] at hvw
    cases huv
    cases hvw
    refine ⟨_, compareVersion_eq hu hw, ?_⟩
    rw [sign_le_zero_iff] at hr hr' ⊢
    exact transCmp.isLE_trans hr hr'
  · intro v w hv hw
    rw [compareVersion_eq hv hw, Option.some.injEq, sign_eq_zero_iff]
    exact comparePadded_eq_eq_iff

example : compareVersion "2021.11" "2021.2" = some 1 := by decide +kernel

example : compareVersion "1.0." "1" = some 0 := by decide +kernel

end XrayRs.Saas
