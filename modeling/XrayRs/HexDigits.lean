import Mathlib.Data.List.Forall2
import XrayRs.ByteWords
import XrayRs.Text

/-! # Hexadecimal text

Bytes and the digits that spell them, two for each, the high one first.  A digit has one
value in either case, and `bytesOf` and `digitsOf` are inverse to each other on digits
below 16. -/

namespace HexDigits

open Text

/-- A digit in lower case. -/
def hexDigit (n : Nat) : UInt8 :=
  if n < 10 then UInt8.ofNat (0x30 + n) else UInt8.ofNat (0x57 + n)

/-- The value of a digit in either case. -/
def digitValue (c : UInt8) : Option Nat := (List.range 16).find? fun n => hexDigit n == lowerByte c

/-- These bytes are digits with these values. -/
abbrev Spells : Bytes → List Nat → Prop := List.Forall₂ fun c d => digitValue c = some d

/-- The bytes with these digits. -/
def bytesOf : List Nat → Bytes
  | [] | [_] => []
  | hi :: lo :: ds => UInt8.ofNat (16 * hi + lo) :: bytesOf ds

/-- The digits of these bytes. -/
def digitsOf (bs : Bytes) : List Nat := bs.flatMap fun b => [b.toNat / 16, b.toNat % 16]

theorem digitValue_hexDigit : ∀ n : Fin 16, digitValue (hexDigit n) = some n.val := by
  decide +kernel

theorem lt_of_digitValue {c : UInt8} {d : Nat} (h : digitValue c = some d) : d < 16 :=
  List.mem_range.mp (List.mem_of_find?_eq_some h)

theorem hexDigit_of_digitValue {c : UInt8} {d : Nat} (h : digitValue c = some d) :
    hexDigit d = lowerByte c := by
  have hfound := List.find?_some h
  exact beq_iff_eq.mp hfound

/-- What spells a number are digits. -/
theorem Spells.isSome {hex : Bytes} {ds : List Nat} (h : Spells hex ds) :
    ∀ c ∈ hex, (digitValue c).isSome := by
  induction h with
  | nil => simp
  | cons hc _ ih => exact List.forall_mem_cons.mpr ⟨Option.isSome_of_eq_some hc, ih⟩

theorem Spells.lt {hex : Bytes} {ds : List Nat} (h : Spells hex ds) : ∀ d ∈ ds, d < 16 := by
  induction h with
  | nil => simp
  | cons hc _ ih => exact List.forall_mem_cons.mpr ⟨lt_of_digitValue hc, ih⟩

theorem digitValue_lowerByte (c : UInt8) : digitValue (lowerByte c) = digitValue c := by
  unfold digitValue
  rw [lowerByte_lowerByte]

theorem spells_map_lowerByte {hex : Bytes} {ds : List Nat} :
    Spells (hex.map lowerByte) ds ↔ Spells hex ds := by
  rw [Spells, List.forall₂_map_left_iff]
  simp only [digitValue_lowerByte]

@[simp] theorem bytesOf_cons_cons (hi lo : Nat) (ds : List Nat) :
    bytesOf (hi :: lo :: ds) = UInt8.ofNat (16 * hi + lo) :: bytesOf ds := rfl

@[simp] theorem digitsOf_cons (b : UInt8) (bs : Bytes) :
    digitsOf (b :: bs) = b.toNat / 16 :: b.toNat % 16 :: digitsOf bs := rfl

theorem digitsOf_append (bs bs' : Bytes) : digitsOf (bs ++ bs') = digitsOf bs ++ digitsOf bs' :=
  List.flatMap_append

theorem length_digitsOf (bs : Bytes) : (digitsOf bs).length = 2 * bs.length := by
  induction bs with
  | nil => rfl
  | cons b bs ih =>
    rw [digitsOf_cons, List.length_cons, List.length_cons, List.length_cons, ih]
    omega

/-- **Bytes are read back from their digits.** -/
@[simp] theorem bytesOf_digitsOf (bs : Bytes) : bytesOf (digitsOf bs) = bs := by
  induction bs with
  | nil => rfl
  | cons b bs ih =>
    have hbyte : 16 * (b.toNat / 16) + b.toNat % 16 = b.toNat := Nat.div_add_mod ..
    rw [digitsOf_cons, bytesOf_cons_cons, ih, hbyte, UInt8.ofNat_toNat]

/-- Different digits spell different bytes. -/
theorem digitsOf_bytesOf {ds : List Nat} (heven : 2 ∣ ds.length) (hlt : ∀ d ∈ ds, d < 16) :
    digitsOf (bytesOf ds) = ds := by
  induction ds using bytesOf.induct with
  | case1 => rfl
  | case2 d => simp at heven
  | case3 hi lo ds ih =>
    obtain ⟨hhi, hlo, hds⟩ : hi < 16 ∧ lo < 16 ∧ ∀ d ∈ ds, d < 16 := by simpa using hlt
    have hbyte : (UInt8.ofNat (16 * hi + lo)).toNat = 16 * hi + lo :=
      UInt8.toNat_ofNat_of_lt' (show _ < 256 by omega)
    have hrest : 2 ∣ ds.length := Nat.dvd_add_self_right.mp heven
    rw [bytesOf_cons_cons, digitsOf_cons, hbyte, ih hrest hds]
    congr 1
    · omega
    · congr 1
      omega

theorem length_bytesOf (ds : List Nat) : (bytesOf ds).length = ds.length / 2 := by
  induction ds using bytesOf.induct with
  | case1 => rfl
  | case2 d => simp [bytesOf]
  | case3 hi lo ds ih =>
    rw [bytesOf_cons_cons, List.length_cons, ih, List.length_cons, List.length_cons]
    omega

theorem bytesOf_append {ds : List Nat} (heven : 2 ∣ ds.length) (ds' : List Nat) :
    bytesOf (ds ++ ds') = bytesOf ds ++ bytesOf ds' := by
  induction ds using bytesOf.induct with
  | case1 => rfl
  | case2 d => simp at heven
  | case3 hi lo ds ih =>
    have hrest : 2 ∣ ds.length := Nat.dvd_add_self_right.mp heven
    rw [List.cons_append, List.cons_append, bytesOf_cons_cons, ih hrest, bytesOf_cons_cons,
      List.cons_append]

/-- The digits of bytes, written in lower case. -/
theorem spells_digitsOf (bs : Bytes) : Spells ((digitsOf bs).map hexDigit) (digitsOf bs) := by
  rw [Spells, List.forall₂_map_left_iff, List.forall₂_same]
  intro d hd
  obtain ⟨b, -, hd⟩ := List.mem_flatMap.mp hd
  have hlt : d < 16 := by
    have hb := b.toNat_lt
    simp only [List.mem_cons, List.not_mem_nil, or_false] at hd
    omega
  exact digitValue_hexDigit ⟨d, hlt⟩

end HexDigits
