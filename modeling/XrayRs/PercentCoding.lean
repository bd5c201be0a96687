import XrayRs.ByteWords

/-! # Percent-encoding

A byte string with some of its bytes spelled as `%` and two hexadecimal digits.  Where
`%` itself is always spelled, the encoding loses nothing (`percentEncode_inj`), and it
brings in no other bytes than `%` and the digits (`not_mem_percentEncode`). -/

namespace PercentCoding

/-- An upper-case hexadecimal digit. -/
def hexDigit (n : Nat) : UInt8 := if n < 10 then UInt8.ofNat (0x30 + n) else UInt8.ofNat (0x37 + n)

/-- `%XX`. -/
def percentByte (b : UInt8) : Bytes := [0x25, hexDigit (b.toNat / 16), hexDigit (b.toNat % 16)]

/-- A byte that is kept, or its spelling. -/
def spell (keep : UInt8 → Bool) (b : UInt8) : Bytes := if keep b then [b] else percentByte b

/-- The encoding of a byte string. -/
def percentEncode (keep : UInt8 → Bool) (s : Bytes) : Bytes := s.flatMap (spell keep)

theorem hexDigit_inj : ∀ m n : Fin 16, hexDigit m = hexDigit n → m = n := by
  decide

theorem percentByte_inj {a b : UInt8} (h : percentByte a = percentByte b) : a = b := by
  obtain ⟨-, hhigh, hlow⟩ : (0x25 : UInt8) = 0x25 ∧
    hexDigit (a.toNat / 16) = hexDigit (b.toNat / 16) ∧
      hexDigit (a.toNat % 16) = hexDigit (b.toNat % 16) := by
    simpa [percentByte] using h
  have ha := a.toNat_lt
  have hb := b.toNat_lt
  have hdiv := hexDigit_inj ⟨_, by omega⟩ ⟨_, by omega⟩ hhigh
  have hmod := hexDigit_inj ⟨_, by omega⟩ ⟨_, by omega⟩ hlow
  rw [Fin.mk.injEq] at hdiv hmod
  apply UInt8.toNat_inj.mp
  omega

section
variable {keep : UInt8 → Bool} {c : UInt8} {s t : Bytes}

/-- **No spelling is the beginning of another one.** -/
theorem spell_append_inj (hpercent : keep 0x25 = false) {a b : UInt8} {x y : Bytes}
    (h : spell keep a ++ x = spell keep b ++ y) : a = b ∧ x = y := by
  unfold spell at h
  by_cases ha : keep a = true
  · rw [if_pos ha] at h
    by_cases hb : keep b = true
    · rw [if_pos hb] at h
      exact List.cons_eq_cons.mp h
    · rw [if_neg hb] at h
      obtain ⟨rfl, -⟩ := List.cons_eq_cons.mp h
      rw [hpercent] at ha
      cases ha
  · rw [if_neg ha] at h
    by_cases hb : keep b = true
    · rw [if_pos hb] at h
      obtain ⟨rfl, -⟩ := List.cons_eq_cons.mp h
      rw [hpercent] at hb
      cases hb
    · rw [if_neg hb] at h
      obtain ⟨hbyte, hrest⟩ := List.append_inj h rfl
      exact ⟨percentByte_inj hbyte, hrest⟩

theorem spell_ne_nil (b : UInt8) : spell keep b ≠ [] := by
  unfold spell percentByte
  split
  · exact List.cons_ne_nil _ _
  · exact List.cons_ne_nil _ _

/-- **Nothing is lost.** -/
theorem percentEncode_inj (hpercent : keep 0x25 = false)
    (h : percentEncode keep s = percentEncode keep t) : s = t := by
  induction s generalizing t with
  | nil =>
    cases t with
    | nil => rfl
    | cons b t =>
      exact absurd (List.append_eq_nil_iff.mp h.symm).1 (spell_ne_nil b)
  | cons a s ih =>
    cases t with
    | nil => exact absurd (List.append_eq_nil_iff.mp h).1 (spell_ne_nil a)
    | cons b t =>
      obtain ⟨rfl, hrest⟩ := spell_append_inj hpercent (x := percentEncode keep s)
        (y := percentEncode keep t) h
      rw [ih hrest]

/-- **No other bytes come in**: one that is not kept, no `%` and no digit is not there. -/
theorem not_mem_percentEncode (hkeep : keep c = false) (hpercent : c ≠ 0x25)
    (hdigit : ∀ n : Fin 16, hexDigit n ≠ c) (s : Bytes) : c ∉ percentEncode keep s := by
  intro hmem
  obtain ⟨b, -, hb⟩ := List.mem_flatMap.mp hmem
  unfold spell at hb
  split at hb
  · next hkept =>
    rw [List.mem_singleton.mp hb, hkept] at hkeep
    cases hkeep
  · have hlt := b.toNat_lt
    simp only [percentByte, List.mem_cons, List.not_mem_nil, or_false] at hb
    rcases hb with rfl | hb | hb
    · exact hpercent rfl
    · exact hdigit ⟨_, by omega⟩ hb.symm
    · exact hdigit ⟨_, by omega⟩ hb.symm

end

end PercentCoding
