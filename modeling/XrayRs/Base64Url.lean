import Mathlib.Data.List.Forall2
import Mathlib.Tactic.Common
import XrayRs.ByteWords

/-! # Base64 with the URL alphabet

Bytes as groups of six bits, most significant first, and the symbols that spell these;
without padding.  A last group of two or three symbols leaves four or two bits over, which
are zero.  `decode` is strict: it takes the texts that `encode` writes and no others
(`decode_eq_some_iff`). -/

namespace Base64Url

/-! ## Six bits at a time -/

/-- The groups of six bits of these bytes. -/
def sextets : Bytes → List Nat
  | [] => []
  | [a] => [a.toNat / 4, a.toNat % 4 * 16]
  | [a, b] => [a.toNat / 4, a.toNat % 4 * 16 + b.toNat / 16, b.toNat % 16 * 4]
  | a :: b :: c :: bs =>
    a.toNat / 4 :: (a.toNat % 4 * 16 + b.toNat / 16) :: (b.toNat % 16 * 4 + c.toNat / 64) ::
      c.toNat % 64 :: sextets bs

/-- The bytes with these groups, where the bits left over are zero. -/
def bytesOf : List Nat → Option Bytes
  | [] => some []
  | [_] => none
  | [p, q] => if q % 16 = 0 then some [UInt8.ofNat (4 * p + q / 16)] else none
  | [p, q, r] =>
    if r % 4 = 0 then some [UInt8.ofNat (4 * p + q / 16), UInt8.ofNat (q % 16 * 16 + r / 4)]
    else none
  | p :: q :: r :: s :: ds =>
    (bytesOf ds).map fun bs => UInt8.ofNat (4 * p + q / 16) :: UInt8.ofNat (q % 16 * 16 + r / 4) ::
      UInt8.ofNat (r % 4 * 64 + s) :: bs

theorem ofNat_eq {n : Nat} {b : UInt8} (h : n = b.toNat) : UInt8.ofNat n = b := by
  rw [h, UInt8.ofNat_toNat]

theorem sextets_lt (bs : Bytes) : ∀ d ∈ sextets bs, d < 64 := by
  induction bs using sextets.induct with
  | case1 => nofun
  | case2 a =>
    have ha := a.toNat_lt
    simp only [sextets, List.forall_mem_cons]
    exact ⟨by omega, by omega, nofun⟩
  | case3 a b =>
    have ha := a.toNat_lt
    have hb := b.toNat_lt
    simp only [sextets, List.forall_mem_cons]
    exact ⟨by omega, by omega, by omega, nofun⟩
  | case4 a b c bs ih =>
    have ha := a.toNat_lt
    have hb := b.toNat_lt
    have hc := c.toNat_lt
    simp only [sextets, List.forall_mem_cons]
    exact ⟨by omega, by omega, by omega, by omega, ih⟩

/-- **Bytes are read back from their groups.** -/
theorem bytesOf_sextets (bs : Bytes) : bytesOf (sextets bs) = some bs := by
  induction bs using sextets.induct with
  | case1 => rfl
  | case2 a =>
    have ha := a.toNat_lt
    rw [sextets, bytesOf, if_pos (by omega), ofNat_eq (show _ = a.toNat by omega)]
  | case3 a b =>
    have ha := a.toNat_lt
    have hb := b.toNat_lt
    rw [sextets, bytesOf, if_pos (by omega), ofNat_eq (show _ = a.toNat by omega),
      ofNat_eq (show _ = b.toNat by omega)]
  | case4 a b c bs ih =>
    have ha := a.toNat_lt
    have hb := b.toNat_lt
    have hc := c.toNat_lt
    rw [sextets, bytesOf, ih, Option.map_some, ofNat_eq (show _ = a.toNat by omega),
      ofNat_eq (show _ = b.toNat by omega), ofNat_eq (show _ = c.toNat by omega)]

theorem toNat_ofNat {n : Nat} (h : n < 256) : (UInt8.ofNat n).toNat = n :=
  UInt8.toNat_ofNat_of_lt' h

/-- **Groups are read back from their bytes.** -/
theorem sextets_bytesOf {ds : List Nat} {bs : Bytes} (h : bytesOf ds = some bs)
    (hlt : ∀ d ∈ ds, d < 64) : sextets bs = ds := by
  induction ds using bytesOf.induct generalizing bs with
  | case1 =>
    obtain rfl := Option.some.inj h
    rfl
  | case2 => cases h
  | case3 p q hq =>
    simp only [List.forall_mem_cons] at hlt
    rw [bytesOf, if_pos hq] at h
    obtain rfl := Option.some.inj h
    rw [sextets, toNat_ofNat (by omega)]
    congr 1
    · omega
    · congr 1
      omega
  | case4 p q hq =>
    rw [bytesOf, if_neg hq] at h
    cases h
  | case5 p q r hr =>
    simp only [List.forall_mem_cons] at hlt
    rw [bytesOf, if_pos hr] at h
    obtain rfl := Option.some.inj h
    rw [sextets, toNat_ofNat (by omega), toNat_ofNat (by omega)]
    congr 1
    · omega
    · congr 1
      · omega
      · congr 1
        omega
  | case6 p q r hr =>
    rw [bytesOf, if_neg hr] at h
    cases h
  | case7 p q r s ds ih =>
    simp only [List.forall_mem_cons] at hlt
    obtain ⟨hp, hq, hr, hs, hds⟩ := hlt
    obtain ⟨bs, hbs, rfl⟩ := Option.map_eq_some_iff.mp h
    rw [sextets, toNat_ofNat (by omega), toNat_ofNat (by omega), toNat_ofNat (by omega),
      ih hbs hds]
    congr 1
    · omega
    · congr 1
      · omega
      · congr 1
        · omega
        · congr 1
          omega

/-! ## Symbols -/

/-- The symbol of a group: letters, digits, `-` and `_`. -/
def symbol (n : Nat) : UInt8 :=
  if n < 26 then UInt8.ofNat (0x41 + n)
  else if n < 52 then UInt8.ofNat (0x61 + (n - 26))
  else if n < 62 then UInt8.ofNat (0x30 + (n - 52))
  else if n = 62 then 0x2d
  else 0x5f

/-- The group that a symbol stands for. -/
def value (c : UInt8) : Option Nat := (List.range 64).find? fun n => symbol n == c

theorem value_symbol : ∀ n : Fin 64, value (symbol n) = some n.val := by decide +kernel

theorem symbol_of_value {c : UInt8} {d : Nat} (h : value c = some d) : symbol d = c := by
  have hfound := List.find?_some h
  exact beq_iff_eq.mp hfound

theorem lt_of_value {c : UInt8} {d : Nat} (h : value c = some d) : d < 64 :=
  List.mem_range.mp (List.mem_of_find?_eq_some h)

/-- The text of these bytes. -/
def encode (bs : Bytes) : Bytes := (sextets bs).map symbol

/-- The bytes of a text. -/
def decode (s : Bytes) : Option Bytes := (s.mapM value).bind bytesOf

theorem mapM_value_map_symbol {ds : List Nat} (hlt : ∀ d ∈ ds, d < 64) :
    (ds.map symbol).mapM value = some ds := by
  induction ds with
  | nil => rfl
  | cons d ds ih =>
    obtain ⟨hd, hds⟩ := List.forall_mem_cons.mp hlt
    rw [List.map_cons, List.mapM_cons, value_symbol ⟨d, hd⟩, ih hds]
    rfl

theorem of_mapM_value {s : Bytes} {ds : List Nat} (h : s.mapM value = some ds) :
    ds.map symbol = s ∧ ∀ d ∈ ds, d < 64 := by
  induction s generalizing ds with
  | nil =>
    obtain rfl := Option.some.inj h
    exact ⟨rfl, nofun⟩
  | cons c s ih =>
    rw [List.mapM_cons] at h
    obtain ⟨d, hd, h⟩ := Option.bind_eq_some_iff.mp h
    obtain ⟨ds', hds, h⟩ := Option.bind_eq_some_iff.mp h
    obtain rfl := Option.some.inj h
    obtain ⟨hmap, hlt⟩ := ih hds
    refine ⟨?_, List.forall_mem_cons.mpr ⟨lt_of_value hd, hlt⟩⟩
    rw [List.map_cons, symbol_of_value hd, hmap]

/-- **The texts that are decoded** are the encoded ones. -/
theorem decode_eq_some_iff {s bs : Bytes} : decode s = some bs ↔ s = encode bs := by
  constructor
  · intro h
    obtain ⟨ds, hds, hbs⟩ := Option.bind_eq_some_iff.mp h
    obtain ⟨hmap, hlt⟩ := of_mapM_value hds
    rw [encode, sextets_bytesOf hbs hlt, hmap]
  · rintro rfl
    rw [decode, encode, mapM_value_map_symbol (sextets_lt bs)]
    exact bytesOf_sextets bs

/-- The symbols that an encoded text has. -/
theorem exists_symbol_of_mem {c : UInt8} {bs : Bytes} (h : c ∈ encode bs) :
    ∃ n : Fin 64, symbol n = c := by
  obtain ⟨n, hn, rfl⟩ := List.mem_map.mp h
  exact ⟨⟨n, sextets_lt bs n hn⟩, rfl⟩

end Base64Url
