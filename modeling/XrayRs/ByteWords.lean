import Mathlib.Algebra.Order.Ring.Int
import Mathlib.Algebra.Order.Ring.Nat
import Mathlib.Data.List.Basic
import Mathlib.Data.List.Infix
import Mathlib.Tactic.Common

/-! # Bytes, words and slices

Big-endian words as byte lists, the split of a slice into pieces of bounded
length, and the reading of exactly `n` bytes off the front of a stream.  The
conversions are stated with their inverses, so later proofs never look at
digits. -/

/-- A byte string. -/
abbrev Bytes := List UInt8

namespace ByteWords

/-- What is said of all bytes can be tried on each of the 256. -/
theorem forall_byte_iff {p : UInt8 → Prop} : (∀ b, p b) ↔ ∀ n : Fin 256, p (UInt8.ofNat n) :=
  ⟨fun h _ => h _, fun h b => UInt8.ofNat_toNat (x := b) ▸ h ⟨b.toNat, b.toNat_lt⟩⟩

instance decidableForallByte {p : UInt8 → Prop} [DecidablePred p] : Decidable (∀ b, p b) :=
  decidable_of_iff' _ forall_byte_iff

/-! ## Big-endian words -/

/-- The two bytes of a 16-bit word, most significant first. -/
def u16ToBe (w : UInt16) : Bytes :=
  [UInt8.ofNat (w.toNat / 256), UInt8.ofNat (w.toNat % 256)]

/-- The 16-bit word spelled by two bytes, most significant first. -/
def u16OfBe (hi lo : UInt8) : UInt16 := UInt16.ofNat (hi.toNat * 256 + lo.toNat)

/-- The number spelled by a byte string, most significant byte first. -/
def natOfBe (bs : Bytes) : Nat := bs.foldl (fun acc b => acc * 256 + b.toNat) 0

/-- `u32::from_be_bytes`. -/
def u32OfBe (bs : Bytes) : UInt32 := UInt32.ofNat (natOfBe bs)

/-- The four bytes of a number below `2 ^ 32`, most significant first. -/
def u32ToBe (n : Nat) : Bytes :=
  [UInt8.ofNat (n / 2 ^ 24), UInt8.ofNat (n / 2 ^ 16), UInt8.ofNat (n / 2 ^ 8), UInt8.ofNat n]

/-- `i64::from_be_bytes`: eight bytes in two's complement. -/
def i64OfBe (bs : Bytes) : Int :=
  let n := natOfBe bs
  if n < 2 ^ 63 then n else (n : Int) - 2 ^ 64

theorem u32OfBe_toBe {n : Nat} (h : n < 2 ^ 32) : (u32OfBe (u32ToBe n)).toNat = n := by
  have hnat : natOfBe (u32ToBe n) = n := by
    simp only [natOfBe, u32ToBe, List.foldl, UInt8.toNat_ofNat']
    omega
  rw [u32OfBe, hnat, UInt32.toNat_ofNat', Nat.mod_eq_of_lt h]

/-- Four bytes are those of the number that they spell. -/
theorem u32ToBe_ofBe {bs : Bytes} (h : bs.length = 4) : u32ToBe (u32OfBe bs).toNat = bs := by
  obtain ⟨a, b, c, d, rfl⟩ : ∃ a b c d, bs = [a, b, c, d] := by
    match bs, h with
    | [a, b, c, d], _ => exact ⟨a, b, c, d, rfl⟩
  have ha := a.toNat_lt
  have hb := b.toNat_lt
  have hc := c.toNat_lt
  have hd := d.toNat_lt
  have hnat : natOfBe [a, b, c, d] =
      ((a.toNat * 256 + b.toNat) * 256 + c.toNat) * 256 + d.toNat := by
    simp [natOfBe]
  have hn : (u32OfBe [a, b, c, d]).toNat = natOfBe [a, b, c, d] := by
    rw [u32OfBe, UInt32.toNat_ofNat', Nat.mod_eq_of_lt (by omega)]
  rw [hn, hnat]
  simp only [u32ToBe, List.cons.injEq, and_true, ← UInt8.toNat_inj, UInt8.toNat_ofNat']
  omega

@[simp] theorem u16ToBe_length (w : UInt16) : (u16ToBe w).length = 2 := rfl

theorem u16OfBe_toNat (hi lo : UInt8) : (u16OfBe hi lo).toNat = hi.toNat * 256 + lo.toNat := by
  have h1 := hi.toNat_lt
  have h2 := lo.toNat_lt
  rw [u16OfBe, UInt16.toNat_ofNat']
  omega

theorem u16OfBe_toBe (w : UInt16) :
    u16OfBe (UInt8.ofNat (w.toNat / 256)) (UInt8.ofNat (w.toNat % 256)) = w := by
  have hw := w.toNat_lt
  apply UInt16.toNat_inj.mp
  rw [u16OfBe_toNat, UInt8.toNat_ofNat', UInt8.toNat_ofNat']
  omega

theorem u16ToBe_ofBe (hi lo : UInt8) : u16ToBe (u16OfBe hi lo) = [hi, lo] := by
  have h2 := lo.toNat_lt
  have hdiv : (u16OfBe hi lo).toNat / 256 = hi.toNat := by
    rw [u16OfBe_toNat]
    omega
  have hmod : (u16OfBe hi lo).toNat % 256 = lo.toNat := by
    rw [u16OfBe_toNat]
    omega
  rw [u16ToBe, hdiv, hmod, UInt8.ofNat_toNat, UInt8.ofNat_toNat]

/-! ## Little-endian numbers -/

/-- Little-endian bytes as a number. -/
def natOfLe : Bytes → Nat
  | [] => 0
  | b :: bs => b.toNat + 256 * natOfLe bs

theorem natOfLe_lt (bs : Bytes) : natOfLe bs < 256 ^ bs.length := by
  induction bs with
  | nil => decide
  | cons b bs ih =>
    have hb := b.toNat_lt
    rw [natOfLe, List.length_cons, Nat.pow_succ]
    omega

theorem natOfLe_replicate_zero (n : Nat) : natOfLe (List.replicate n 0) = 0 := by
  induction n with
  | zero => rfl
  | succ n ih =>
    rw [List.replicate_succ, natOfLe, ih]
    rfl

theorem natOfLe_append (bs cs : Bytes) :
    natOfLe (bs ++ cs) = natOfLe bs + 256 ^ bs.length * natOfLe cs := by
  induction bs with
  | nil => simp [natOfLe]
  | cons b bs ih =>
    rw [List.cons_append, natOfLe, natOfLe, ih, List.length_cons, Nat.pow_succ', Nat.mul_add,
      Nat.mul_assoc, Nat.add_assoc]

/-! ## Pieces of a slice -/

/-- The pieces of `data`, of length `n` each, with `fuel` bounding their
number. -/
def chunksAux {α : Type} (n : Nat) : Nat → List α → List (List α)
  | 0, _ => []
  | _ + 1, [] => []
  | fuel + 1, x :: xs => (x :: xs).take n :: chunksAux n fuel ((x :: xs).drop n)

/-- The pieces of `data`, each of length `n` except perhaps the last, none of
them empty (`0 < n`).  `slice::chunks`. -/
def chunks {α : Type} (n : Nat) (data : List α) : List (List α) := chunksAux n data.length data

section Chunks
variable {α : Type}

@[simp] theorem chunks_nil (n : Nat) : chunks n ([] : List α) = [] := rfl

-- The fuel is only a bound: every sufficient amount gives the same pieces.
theorem chunksAux_of_le {n : Nat} (hn : 0 < n) :
    ∀ {fuel : Nat} {data : List α}, data.length ≤ fuel → chunksAux n fuel data = chunks n data := by
  suffices key : ∀ (k fuel : Nat) (data : List α), data.length ≤ k → k ≤ fuel →
      chunksAux n fuel data = chunksAux n k data by
    intro fuel data h
    exact key data.length fuel data (Nat.le_refl _) h
  intro k
  induction k with
  | zero =>
    intro fuel data h _
    obtain rfl := List.length_eq_zero_iff.mp (Nat.le_zero.mp h)
    cases fuel <;> rfl
  | succ k ih =>
    intro fuel data h hf
    obtain ⟨fuel, rfl⟩ := Nat.exists_eq_succ_of_ne_zero (show fuel ≠ 0 by omega)
    cases data with
    | nil => rfl
    | cons x xs =>
      have hd : ((x :: xs).drop n).length ≤ k := by
        rw [List.length_drop]
        omega
      simp only [chunksAux]
      rw [ih fuel _ hd (by omega)]

theorem chunks_of_ne_nil {n : Nat} (hn : 0 < n) {data : List α} (h : data ≠ []) :
    chunks n data = data.take n :: chunks n (data.drop n) := by
  cases data with
  | nil => exact absurd rfl h
  | cons x xs =>
    have hd : ((x :: xs).drop n).length ≤ xs.length := by
      rw [List.length_drop, List.length_cons]
      omega
    rw [← chunksAux_of_le hn hd]
    rfl

/-- Induction on a slice by dropping one piece at a time. -/
theorem chunks_induction {n : Nat} (hn : 0 < n) {motive : List α → Prop}
    (nil : motive []) (piece : ∀ data, data ≠ [] → motive (data.drop n) → motive data)
    (data : List α) : motive data := by
  induction hlen : data.length using Nat.strongRecOn generalizing data with
  | _ len ih =>
    by_cases hne : data = []
    · exact hne ▸ nil
    · have hpos : 0 < data.length := List.length_pos_iff.mpr hne
      refine piece data hne (ih (data.drop n).length ?_ _ rfl)
      rw [List.length_drop]
      omega

/-- The pieces put together again are the slice. -/
theorem flatten_chunks {n : Nat} (hn : 0 < n) (data : List α) : (chunks n data).flatten = data := by
  induction data using chunks_induction hn with
  | nil => rfl
  | piece data hne ih =>
    rw [chunks_of_ne_nil hn hne, List.flatten_cons, ih, List.take_append_drop]

/-- The pieces of many slices put together again. -/
theorem flatten_flatMap_chunks {n : Nat} (hn : 0 < n) (slices : List (List α)) :
    (slices.flatMap (chunks n)).flatten = slices.flatten := by
  induction slices with
  | nil => rfl
  | cons data slices ih =>
    rw [List.flatMap_cons, List.flatten_append, flatten_chunks hn, ih, List.flatten_cons]

/-- Every piece is non-empty and at most `n` long. -/
theorem mem_chunks {n : Nat} (hn : 0 < n) {data piece : List α} (h : piece ∈ chunks n data) :
    piece ≠ [] ∧ piece.length ≤ n := by
  induction data using chunks_induction hn with
  | nil => cases h
  | piece data hne ih =>
    rw [chunks_of_ne_nil hn hne] at h
    rcases List.mem_cons.mp h with rfl | h
    · refine ⟨fun ht => ?_, by rw [List.length_take]; exact Nat.min_le_left ..⟩
      rcases List.take_eq_nil_iff.mp ht with h1 | h1
      · omega
      · exact hne h1
    · exact ih h

/-- A slice that fits one piece is one piece. -/
theorem chunks_of_length_le {n : Nat} {data : List α} (h : data ≠ []) (hle : data.length ≤ n) :
    chunks n data = [data] := by
  have hn : 0 < n := Nat.lt_of_lt_of_le (List.length_pos_iff.mpr h) hle
  rw [chunks_of_ne_nil hn h, List.take_of_length_le hle, List.drop_of_length_le hle, chunks_nil]

end Chunks

/-! ## Reading exactly `n` bytes -/

/-- The first `n` bytes of a stream and what follows them, or `none` when the
stream ends before.  `AsyncReadExt::read_exact`. -/
def readExact (n : Nat) (s : Bytes) : Option (Bytes × Bytes) :=
  if s.length < n then none else some (s.take n, s.drop n)

theorem readExact_append {n : Nat} {a : Bytes} (h : a.length = n) (b : Bytes) :
    readExact n (a ++ b) = some (a, b) := by
  subst h
  simp [readExact]

theorem readExact_eq_none {n : Nat} {s : Bytes} : readExact n s = none ↔ s.length < n := by
  unfold readExact
  split <;> simp_all

theorem readExact_eq_some {n : Nat} {s a b : Bytes} (h : readExact n s = some (a, b)) :
    s = a ++ b ∧ a.length = n := by
  unfold readExact at h
  split at h
  · cases h
  · obtain ⟨rfl, rfl⟩ := Prod.mk.inj (Option.some.inj h)
    refine ⟨(List.take_append_drop n s).symm, ?_⟩
    rw [List.length_take]
    omega

/-! ## Fields behind their length -/

/-- A field behind its length in one byte. -/
def sized8 (field : Bytes) : Bytes := UInt8.ofNat field.length :: field

/-- A field behind its length in two bytes. -/
def sized16 (field : Bytes) : Bytes := u16ToBe (.ofNat field.length) ++ field

theorem sized8_eq {field : Bytes} (h : field.length < 256) (rest : Bytes) :
    ∃ l : UInt8, sized8 field ++ rest = l :: (field ++ rest) ∧ l.toNat = field.length :=
  ⟨_, rfl, by rw [UInt8.toNat_ofNat', Nat.mod_eq_of_lt h]⟩

theorem sized16_eq {field : Bytes} (h : field.length < 65536) (rest : Bytes) :
    ∃ l1 l0, sized16 field ++ rest = l1 :: l0 :: (field ++ rest) ∧
      (u16OfBe l1 l0).toNat = field.length := by
  refine ⟨_, _, rfl, ?_⟩
  rw [u16OfBe_toBe, UInt16.toNat_ofNat', Nat.mod_eq_of_lt h]

/-- What a length and enough bytes behind it spell. -/
theorem exists_sized8 {l : UInt8} {d : Bytes} (h : l.toNat ≤ d.length) :
    (d.take l.toNat).length < 256 ∧ l :: d = sized8 (d.take l.toNat) ++ d.drop l.toNat := by
  have hlen : (d.take l.toNat).length = l.toNat := List.length_take_of_le h
  refine ⟨hlen.trans_lt l.toNat_lt, ?_⟩
  rw [sized8, hlen, UInt8.ofNat_toNat, List.cons_append, List.take_append_drop]

theorem exists_sized16 {l1 l0 : UInt8} {d : Bytes} (h : (u16OfBe l1 l0).toNat ≤ d.length) :
    (d.take (u16OfBe l1 l0).toNat).length < 65536 ∧
      l1 :: l0 :: d = sized16 (d.take (u16OfBe l1 l0).toNat) ++ d.drop (u16OfBe l1 l0).toNat := by
  have hlen : (d.take (u16OfBe l1 l0).toNat).length = (u16OfBe l1 l0).toNat := List.length_take_of_le h
  refine ⟨hlen.trans_lt (u16OfBe l1 l0).toNat_lt, ?_⟩
  rw [sized16, hlen, UInt16.ofNat_toNat, u16ToBe_ofBe, List.append_assoc, List.take_append_drop]
  rfl

end ByteWords
