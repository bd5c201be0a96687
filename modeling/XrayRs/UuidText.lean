import XrayRs.HexDigits
import XrayRs.PanelInbound
import XrayRs.RouteTable

/-! # UUIDs in text

`Uuid::parse_str` and `Display` (`kernel/src/uuid.rs`).  The hexadecimal forms are five
groups of digits, each behind an optional dash.  What `Display` writes is read back in any
case and without any of its dashes (`uuid_text_round_trip`).  `parse_str` does not look
behind the fifth group, so it reads such a form exactly where nothing follows it
(`parse_str_exact_iff`). -/

namespace XrayRs.Saas.Uuid

open HexDigits Text

/-- `GROUPS`: the lengths of the groups. -/
def groups : List Nat := [8, 4, 4, 4, 12]

/-- **The grammar**: groups of digits of these lengths, each behind an optional dash, and
nothing else; the digits have these values. -/
inductive Grouped : List Nat → Bytes → List Nat → Prop
  | nil : Grouped [] [] []
  | cons {n : Nat} {ns : List Nat} {dash hex text : Bytes} {ds ds' : List Nat}
      (hdash : dash = [] ∨ dash = [0x2d]) (hlength : hex.length = n) (hhex : Spells hex ds)
      (hrest : Grouped ns text ds') : Grouped (n :: ns) (dash ++ (hex ++ text)) (ds ++ ds')

/-! ## The grammar -/

section
variable {ns : List Nat} {text text' rest rest' : Bytes} {ds ds' : List Nat}

theorem digitValue_dash : digitValue 0x2d = none := by decide

/-- A digit is no dash. -/
theorem head?_ne_dash {hex : Bytes} (hhex : Spells hex ds) (hpos : 0 < hex.length) (x : Bytes) :
    (hex ++ x).head? ≠ some 0x2d := by
  cases hhex with
  | nil => cases hpos
  | cons hc _ =>
    intro h
    obtain rfl := Option.some.inj h
    rw [digitValue_dash] at hc
    cases hc

/-- Behind the optional dash. -/
theorem strip_dash {dash hex : Bytes} (hdash : dash = [] ∨ dash = [0x2d]) (hhex : Spells hex ds)
    (hpos : 0 < hex.length) (x : Bytes) :
    (if (dash ++ (hex ++ x)).head? = some 0x2d then (dash ++ (hex ++ x)).tail
      else dash ++ (hex ++ x)) = hex ++ x := by
  rcases hdash with rfl | rfl
  · rw [List.nil_append, if_neg (head?_ne_dash hhex hpos x)]
  · rfl

theorem Grouped.length_digits (h : Grouped ns text ds) : ds.length = ns.sum := by
  induction h with
  | nil => rfl
  | cons _ hlength hhex _ ih =>
    rw [List.length_append, List.sum_cons, ih, ← hhex.length_eq, hlength]

/-- There are digits and dashes only. -/
theorem Grouped.mem (h : Grouped ns text ds) : ∀ b ∈ text, b = 0x2d ∨ (digitValue b).isSome := by
  induction h with
  | nil => simp
  | @cons n ns dash hex text ds ds' hdash _ hhex _ ih =>
    intro b hb
    rcases List.mem_append.mp hb with hb | hb
    · left
      rcases hdash with rfl | rfl
      · cases hb
      · exact List.mem_singleton.mp hb
    · rcases List.mem_append.mp hb with hb | hb
      · exact Or.inr (hhex.isSome b hb)
      · exact ih b hb

theorem Grouped.lt (h : Grouped ns text ds) : ∀ d ∈ ds, d < 16 := by
  induction h with
  | nil => simp
  | cons _ _ hhex _ ih =>
    intro d hd
    rcases List.mem_append.mp hd with hd | hd
    · exact hhex.lt d hd
    · exact ih d hd

/-- **No text of the grammar begins another one.** -/
theorem Grouped.append_inj (hpos : ∀ n ∈ ns, 0 < n) (h : Grouped ns text ds)
    (h' : Grouped ns text' ds') (heq : text ++ rest = text' ++ rest') :
    text = text' ∧ rest = rest' := by
  induction h generalizing text' ds' with
  | nil =>
    cases h'
    exact ⟨rfl, heq⟩
  | @cons n ns dash hex text ds _ hdash hlength hhex _ ih =>
    obtain ⟨hn, hpos⟩ := List.forall_mem_cons.mp hpos
    cases h' with
    | @cons _ _ dash' hex' text' _ _ hdash' hlength' hhex' hrest' =>
      rw [List.append_assoc, List.append_assoc, List.append_assoc, List.append_assoc] at heq
      -- the digits follow on the same dash
      have hstrip := strip_dash hdash hhex (by omega) (text ++ rest)
      rw [heq, strip_dash hdash' hhex' (by omega)] at hstrip
      obtain ⟨rfl, htext⟩ := List.append_inj hstrip.symm (hlength.trans hlength'.symm)
      obtain ⟨rfl, hrest⟩ := ih hpos hrest' htext
      refine ⟨?_, hrest⟩
      rw [hstrip] at heq
      rw [List.append_cancel_right heq]

/-- Different texts of the grammar give one identity only if they have the same digits. -/
theorem Grouped.digits_inj (heven : 2 ∣ ns.sum) (h : Grouped ns text ds)
    (h' : Grouped ns text' ds') (heq : bytesOf ds = bytesOf ds') : ds = ds' := by
  calc ds = digitsOf (bytesOf ds) :=
      (digitsOf_bytesOf (by rwa [h.length_digits]) h.lt).symm
    _ = digitsOf (bytesOf ds') := by rw [heq]
    _ = ds' := digitsOf_bytesOf (by rwa [h'.length_digits]) h'.lt

end

/-! ## Reading -/

theorem hexVal_lowerByte : ∀ c : UInt8, hexVal (lowerByte c) = hexVal c := by
  decide +kernel

theorem hexVal_hexDigit : ∀ n : Fin 16, hexVal (hexDigit n) = some (UInt8.ofNat n) := by
  decide +kernel

theorem hexDigit_hexVal : ∀ c : UInt8, (hexVal c).all (fun b =>
    decide (b.toNat < 16) && hexDigit b.toNat == lowerByte c) = true := by
  decide +kernel

/-- `hex_val` gives the value of a digit. -/
theorem hexVal_eq_some_iff {c b : UInt8} :
    hexVal c = some b ↔ ∃ d, digitValue c = some d ∧ UInt8.ofNat d = b := by
  constructor
  · intro h
    have hdigit := hexDigit_hexVal c
    simp only [h, Option.all_some, Bool.and_eq_true, decide_eq_true_eq, beq_iff_eq] at hdigit
    refine ⟨b.toNat, ?_, UInt8.ofNat_toNat⟩
    rw [← digitValue_lowerByte, ← hdigit.2]
    exact digitValue_hexDigit ⟨b.toNat, hdigit.1⟩
  · rintro ⟨d, hd, rfl⟩
    rw [← hexVal_lowerByte, ← hexDigit_of_digitValue hd]
    exact hexVal_hexDigit ⟨d, lt_of_digitValue hd⟩

theorem nibbles : ∀ hi lo : Fin 16,
    UInt8.ofNat hi <<< 4 ||| UInt8.ofNat lo = UInt8.ofNat (16 * hi + lo) := by
  decide +kernel

theorem decodeHex_cons_cons {hi lo : UInt8} {hex bytes : Bytes} :
    decodeHex (hi :: lo :: hex) = some bytes ↔ ∃ h l bs, hexVal hi = some h ∧
      hexVal lo = some l ∧ decodeHex hex = some bs ∧ bytes = (h <<< 4 ||| l) :: bs := by
  rw [decodeHex]
  simp only [Option.bind_eq_bind, Option.bind_eq_some_iff, Option.pure_def, Option.some.injEq]
  constructor
  · rintro ⟨h, hh, l, hl, bs, hbs, rfl⟩
    exact ⟨h, l, bs, hh, hl, hbs, rfl⟩
  · rintro ⟨h, l, bs, hh, hl, hbs, rfl⟩
    exact ⟨h, hh, l, hl, bs, hbs, rfl⟩

/-- Digits are decoded, and nothing else is. -/
theorem decodeHex_eq_some_iff {hex bytes : Bytes} (heven : 2 ∣ hex.length) :
    decodeHex hex = some bytes ↔ ∃ ds, Spells hex ds ∧ bytes = bytesOf ds := by
  induction hex using decodeHex.induct generalizing bytes with
  | case1 hi lo hex ih =>
    have hrest : 2 ∣ hex.length := Nat.dvd_add_self_right.mp heven
    rw [decodeHex_cons_cons]
    constructor
    · rintro ⟨_, _, bs, hh, hl, hbs, rfl⟩
      obtain ⟨h, hhi, rfl⟩ := hexVal_eq_some_iff.mp hh
      obtain ⟨l, hlo, rfl⟩ := hexVal_eq_some_iff.mp hl
      obtain ⟨ds, hspells, rfl⟩ := (ih hrest).mp hbs
      refine ⟨h :: l :: ds, .cons hhi (.cons hlo hspells), ?_⟩
      rw [bytesOf_cons_cons]
      exact congrArg (· :: _) (nibbles ⟨h, lt_of_digitValue hhi⟩ ⟨l, lt_of_digitValue hlo⟩)
    · rintro ⟨_, hspells, rfl⟩
      cases hspells with
      | @cons _ h _ _ hh hspells =>
        cases hspells with
        | @cons _ l _ ds hl hspells =>
          refine ⟨_, _, _, hexVal_eq_some_iff.mpr ⟨h, hh, rfl⟩, hexVal_eq_some_iff.mpr ⟨l, hl, rfl⟩,
            (ih hrest).mpr ⟨ds, hspells, rfl⟩, ?_⟩
          rw [bytesOf_cons_cons]
          exact congrArg (· :: _)
            (nibbles ⟨h, lt_of_digitValue hh⟩ ⟨l, lt_of_digitValue hl⟩).symm
  | case2 hex hshort =>
    -- an even number of bytes leaves no single one
    obtain rfl : hex = [] := by
      match hex, heven, hshort with
      | [], _, _ => rfl
      | [_], heven, _ => simp at heven
      | hi :: lo :: hex, _, hshort => exact absurd rfl (hshort hi lo hex)
    constructor
    · rintro h
      exact ⟨[], .nil, (Option.some.inj h).symm⟩
    · rintro ⟨_, hspells, rfl⟩
      cases hspells
      rfl

/-- There may be a dash in front. -/
theorem exists_dash (text : Bytes) : ∃ dash, (dash = [] ∨ dash = [0x2d]) ∧
    text = dash ++ if text.head? = some 0x2d then text.tail else text := by
  by_cases hhead : text.head? = some 0x2d
  · refine ⟨[0x2d], .inr rfl, ?_⟩
    obtain ⟨rest, rfl⟩ := List.head?_eq_some_iff.mp hhead
    rfl
  · exact ⟨[], .inl rfl, by rw [if_neg hhead, List.nil_append]⟩

/-- **The group loop reads a text of the grammar off the front**, whatever follows. -/
theorem parseGroups_eq_some_iff {ns : List Nat} (hns : ∀ n ∈ ns, 2 ∣ n ∧ 0 < n)
    {text bytes : Bytes} : parseGroups ns text = some bytes ↔
      ∃ front rest ds, text = front ++ rest ∧ Grouped ns front ds ∧ bytes = bytesOf ds := by
  induction ns generalizing text bytes with
  | nil =>
    constructor
    · intro h
      exact ⟨[], text, [], rfl, .nil, (Option.some.inj h).symm⟩
    · rintro ⟨_, _, _, -, hgrouped, rfl⟩
      cases hgrouped
      rfl
  | cons n ns ih =>
    obtain ⟨⟨heven, hpos⟩, hns⟩ := List.forall_mem_cons.mp hns
    simp only [parseGroups, Option.bind_eq_bind, Option.pure_def]
    constructor
    · intro h
      obtain ⟨dash, hdash, htext⟩ := exists_dash text
      revert h
      generalize (if text.head? = some 0x2d then text.tail else text) = stripped at htext ⊢
      intro h
      split at h
      · cases h
      · next hlength =>
        have hlength : (stripped.take n).length = n := List.length_take_of_le (by omega)
        obtain ⟨bytes₁, hdecode, h⟩ := Option.bind_eq_some_iff.mp h
        obtain ⟨bytes₂, hgroups, h⟩ := Option.bind_eq_some_iff.mp h
        obtain ⟨ds, hhex, rfl⟩ := (decodeHex_eq_some_iff (by rwa [hlength])).mp hdecode
        obtain ⟨front, rest, ds', hrest, hgrouped, rfl⟩ := (ih hns).mp hgroups
        refine ⟨_, rest, _, ?_, .cons hdash hlength hhex hgrouped, ?_⟩
        · rw [List.append_assoc, List.append_assoc, ← hrest, List.take_append_drop, htext]
        · rw [bytesOf_append (by rwa [← hhex.length_eq, hlength]), Option.some.inj h]
    · rintro ⟨_, rest, _, rfl, hgrouped, rfl⟩
      cases hgrouped with
      | @cons _ _ dash hex front ds ds' hdash hlength hhex hrest =>
        rw [List.append_assoc, List.append_assoc, strip_dash hdash hhex (by omega), if_neg,
          List.take_left' hlength, List.drop_left' hlength,
          (decodeHex_eq_some_iff (by rwa [hlength])).mpr ⟨ds, hhex, rfl⟩, Option.bind_some,
          (ih hns).mpr ⟨front, rest, ds', rfl, hrest, rfl⟩, Option.bind_some,
          bytesOf_append (by rwa [← hhex.length_eq, hlength])]
        rw [List.length_append]
        omega

theorem fromBytes_eq_some_iff {b : Bytes} {u : Uuid} : fromBytes b = some u ↔ u.toList = b := by
  unfold fromBytes
  constructor
  · intro h
    split at h
    · obtain rfl := Option.some.inj h
      rfl
    · cases h
  · rintro rfl
    rw [dif_pos u.length_toList]
    rfl

theorem groups_even_pos : ∀ n ∈ groups, 2 ∣ n ∧ 0 < n := by decide

section
variable (sha1 : Bytes → Vector UInt8 20) {s : String}

/-- `parse_str` on the lengths of the hexadecimal forms. -/
theorem parseStr_eq_some_iff (hlo : 32 ≤ (asBytes s).length) (hhi : (asBytes s).length ≤ 36)
    {u : Uuid} : parseStr sha1 s = some u ↔
      ∃ front rest ds, asBytes s = front ++ rest ∧ Grouped groups front ds ∧
        u.toList = bytesOf ds := by
  rw [parseStr, if_pos ⟨hlo, hhi⟩, Option.bind_eq_some_iff]
  constructor
  · rintro ⟨bytes, hparse, hbytes⟩
    obtain ⟨front, rest, ds, htext, hgrouped, rfl⟩ :=
      (parseGroups_eq_some_iff groups_even_pos).mp hparse
    exact ⟨front, rest, ds, htext, hgrouped, fromBytes_eq_some_iff.mp hbytes⟩
  · rintro ⟨front, rest, ds, htext, hgrouped, hu⟩
    exact ⟨u.toList, (parseGroups_eq_some_iff groups_even_pos).mpr
      ⟨front, rest, ds, htext, hgrouped, hu⟩, fromBytes_eq_some_iff.mpr rfl⟩

/-- `parse_str` reads these forms and nothing else. -/
def ParsesExactly (s : String) : Prop :=
  ∀ u, parseStr sha1 s = some u ↔ ∃ ds, Grouped groups (asBytes s) ds ∧ u.toList = bytesOf ds

/-- Something follows a complete form. -/
def GoesOn (s : String) : Prop :=
  ∃ front rest ds, asBytes s = front ++ rest ∧ Grouped groups front ds ∧ rest ≠ []

/-- Where nothing follows, the form is the text. -/
theorem exists_grouped (hlo : 32 ≤ (asBytes s).length) (hhi : (asBytes s).length ≤ 36)
    (hend : ¬GoesOn s) {u : Uuid} (hparse : parseStr sha1 s = some u) :
    ∃ ds, Grouped groups (asBytes s) ds ∧ u.toList = bytesOf ds := by
  obtain ⟨front, rest, ds, htext, hgrouped, hu⟩ := (parseStr_eq_some_iff sha1 hlo hhi).mp hparse
  by_cases hrest : rest = []
  · rw [hrest, List.append_nil] at htext
    exact ⟨ds, htext ▸ hgrouped, hu⟩
  · exact absurd ⟨front, rest, ds, htext, hgrouped, hrest⟩ hend

end

/-- **A UUID is read exactly where nothing follows a complete form.**  Then two texts give
one identity only if they have the same digits, and dashes besides. -/
theorem parse_str_exact_iff (sha1 : Bytes → Vector UInt8 20) (s : String)
    (hlo : 32 ≤ (asBytes s).length) (hhi : (asBytes s).length ≤ 36) :
    (ParsesExactly sha1 s ↔ ¬GoesOn s) ∧
    ∀ s' u, 32 ≤ (asBytes s').length → (asBytes s').length ≤ 36 → ¬GoesOn s → ¬GoesOn s' →
      parseStr sha1 s = some u → parseStr sha1 s' = some u →
      ∃ ds, Grouped groups (asBytes s) ds ∧ Grouped groups (asBytes s') ds ∧
        ∀ b ∈ asBytes s ++ asBytes s', b = 0x2d ∨ (digitValue b).isSome := by
  have hpos := fun n hn => (groups_even_pos n hn).2
  refine ⟨⟨?_, fun hend u => ⟨exists_grouped sha1 hlo hhi hend, ?_⟩⟩, ?_⟩
  · rintro hexact ⟨front, rest, ds, htext, hgrouped, hrest⟩
    have hlength : (bytesOf ds).length = 16 := by
      rw [length_bytesOf, hgrouped.length_digits]
      rfl
    obtain ⟨u, hu⟩ : ∃ u : Uuid, u.toList = bytesOf ds := ⟨⟨(bytesOf ds).toArray, hlength⟩, rfl⟩
    obtain ⟨ds', hgrouped', -⟩ :=
      (hexact u).mp ((parseStr_eq_some_iff sha1 hlo hhi).mpr ⟨front, rest, ds, htext, hgrouped, hu⟩)
    have heq : front ++ rest = asBytes s ++ [] := by rw [List.append_nil, htext]
    exact hrest (hgrouped.append_inj hpos hgrouped' heq).2
  · rintro ⟨ds, hgrouped, hu⟩
    exact (parseStr_eq_some_iff sha1 hlo hhi).mpr
      ⟨_, [], ds, (List.append_nil _).symm, hgrouped, hu⟩
  · intro s' u hlo' hhi' hend hend' hparse hparse'
    obtain ⟨ds, hgrouped, hu⟩ := exists_grouped sha1 hlo hhi hend hparse
    obtain ⟨ds', hgrouped', hu'⟩ := exists_grouped sha1 hlo' hhi' hend' hparse'
    obtain rfl := hgrouped.digits_inj (by decide) hgrouped' (hu.symm.trans hu')
    refine ⟨ds, hgrouped, hgrouped', fun b hb => ?_⟩
    rcases List.mem_append.mp hb with hb | hb
    · exact hgrouped.mem b hb
    · exact hgrouped'.mem b hb

theorem parse_str_exact_iff_canonical :
    (ParsesExactly (fun _ => .replicate 20 0) "2418d087-648d-4990-86e8-19dca1d006d3" ↔
      ¬GoesOn "2418d087-648d-4990-86e8-19dca1d006d3") :=
  (parse_str_exact_iff _ _ (by decide +kernel) (by decide +kernel)).1

/-- Two bytes that are no digits stand behind 32 digits. -/
theorem parse_str_reads_a_longer_text :
    ¬ParsesExactly (fun _ => .replicate 20 0) "b831381d63244d53ad4f8cda48b30811zz" := by
  intro h
  have hparse : parseStr (fun _ => .replicate 20 0) "b831381d63244d53ad4f8cda48b30811zz" =
      some #v[0xb8, 0x31, 0x38, 0x1d, 0x63, 0x24, 0x4d, 0x53, 0xad, 0x4f, 0x8c, 0xda, 0x48, 0xb3,
        0x08, 0x11] := by
    decide +kernel
  obtain ⟨ds, hgrouped, -⟩ := (h _).mp hparse
  have hz := hgrouped.mem 0x7a (by decide +kernel)
  revert hz
  decide +kernel

/-! ## Writing -/

/-- `{:02x}`. -/
def hexByte (b : UInt8) : List Char := [Nat.digitChar (b.toNat / 16), Nat.digitChar (b.toNat % 16)]

/-- Bytes, each written with `{:02x}`. -/
def hexText (bs : Bytes) : List Char := bs.flatMap hexByte

/-- `Display for Uuid`. -/
def display (u : Uuid) : String :=
  let b := u.toList
  .ofList (hexText (b.take 4) ++ '-' :: hexText ((b.drop 4).take 2) ++
    '-' :: hexText ((b.drop 6).take 2) ++ '-' :: hexText ((b.drop 8).take 2) ++
    '-' :: hexText (b.drop 10))

/-- A dash that may be left out. -/
def dash (kept : Bool) : List Char := if kept then ['-'] else []

/-- The form with some of its dashes. -/
def form (k₁ k₂ k₃ k₄ : Bool) (u : Uuid) : List Char :=
  let b := u.toList
  hexText (b.take 4) ++ (dash k₁ ++ (hexText ((b.drop 4).take 2) ++
    (dash k₂ ++ (hexText ((b.drop 6).take 2) ++ (dash k₃ ++ (hexText ((b.drop 8).take 2) ++
      (dash k₄ ++ hexText (b.drop 10))))))))

theorem utf8EncodeChar_digitChar : ∀ n : Fin 16,
    String.utf8EncodeChar (Nat.digitChar n) = [hexDigit n] := by
  decide +kernel

/-- A written byte is two digits. -/
theorem flatMap_hexByte (b : UInt8) : (hexByte b).flatMap String.utf8EncodeChar =
    [hexDigit (b.toNat / 16), hexDigit (b.toNat % 16)] := by
  have hb := b.toNat_lt
  have hhi := utf8EncodeChar_digitChar ⟨b.toNat / 16, by omega⟩
  have hlo := utf8EncodeChar_digitChar ⟨b.toNat % 16, by omega⟩
  rw [hexByte, List.flatMap_cons, List.flatMap_cons, List.flatMap_nil, hhi, hlo]
  rfl

theorem flatMap_hexText (bs : Bytes) :
    (hexText bs).flatMap String.utf8EncodeChar = (digitsOf bs).map hexDigit := by
  rw [hexText, digitsOf, List.flatMap_assoc, List.map_flatMap]
  simp only [flatMap_hexByte, List.map_cons, List.map_nil]

theorem flatMap_dash (kept : Bool) :
    (dash kept).flatMap String.utf8EncodeChar = if kept then [0x2d] else [] := by
  cases kept <;> rfl

/-- The bytes by groups. -/
theorem toList_groups (u : Uuid) : u.toList = u.toList.take 4 ++ ((u.toList.drop 4).take 2 ++
    ((u.toList.drop 6).take 2 ++ ((u.toList.drop 8).take 2 ++ u.toList.drop 10))) := by
  have hcut : ∀ k m, (u.toList.drop k).take m ++ u.toList.drop (k + m) = u.toList.drop k := by
    intro k m
    rw [← List.drop_drop, List.take_append_drop]
  rw [hcut 8 2, hcut 6 2, hcut 4 2, List.take_append_drop]

/-- A written group, with or without its dash. -/
theorem Grouped.written {n : Nat} {ns : List Nat} {text bs : Bytes} {ds : List Nat} (kept : Bool)
    (hn : 2 * bs.length = n) (hrest : Grouped ns text ds) :
    Grouped (n :: ns) ((if kept then [0x2d] else []) ++ ((digitsOf bs).map hexDigit ++ text))
      (digitsOf bs ++ ds) := by
  refine .cons ?_ ?_ (spells_digitsOf bs) hrest
  · cases kept
    · exact Or.inl rfl
    · exact Or.inr rfl
  · rw [List.length_map, length_digitsOf, hn]

/-- The written form belongs to the grammar with any of its dashes. -/
theorem grouped_form (k₁ k₂ k₃ k₄ : Bool) (u : Uuid) :
    Grouped groups ((form k₁ k₂ k₃ k₄ u).flatMap String.utf8EncodeChar) (digitsOf u.toList) := by
  have h : Grouped groups _ _ :=
    .written false (show 2 * (u.toList.take 4).length = 8 by simp) <|
    .written k₁ (show 2 * ((u.toList.drop 4).take 2).length = 4 by simp) <|
    .written k₂ (show 2 * ((u.toList.drop 6).take 2).length = 4 by simp) <|
    .written k₃ (show 2 * ((u.toList.drop 8).take 2).length = 4 by simp) <|
    .written k₄ (show 2 * (u.toList.drop 10).length = 12 by simp) .nil
  rw [List.append_nil, List.append_nil] at h
  rw [toList_groups, digitsOf_append, digitsOf_append, digitsOf_append, digitsOf_append]
  simp only [form, List.flatMap_append, flatMap_hexText, flatMap_dash]
  exact h

theorem length_form (k₁ k₂ k₃ k₄ : Bool) (u : Uuid) :
    ((form k₁ k₂ k₃ k₄ u).flatMap String.utf8EncodeChar).length =
      32 + (k₁.toNat + k₂.toNat + k₃.toNat + k₄.toNat) := by
  have hdash : ∀ k : Bool, ((dash k).flatMap String.utf8EncodeChar).length = k.toNat := by decide
  simp only [form, List.flatMap_append, List.length_append, flatMap_hexText, List.length_map,
    length_digitsOf, hdash, List.length_take, List.length_drop, Vector.length_toList]
  omega

theorem toLower_digitChar : ∀ n : Fin 16, (Nat.digitChar n).toLower = Nat.digitChar n := by
  decide +kernel

/-- `{:02x}` writes lower case. -/
theorem lower_hexText (bs : Bytes) : toAsciiLowercase (hexText bs) = hexText bs := by
  rw [toAsciiLowercase, hexText, List.map_flatMap]
  congr 1
  funext b
  have hb := b.toNat_lt
  have hhi := toLower_digitChar ⟨b.toNat / 16, by omega⟩
  have hlo := toLower_digitChar ⟨b.toNat % 16, by omega⟩
  rw [hexByte, List.map_cons, List.map_cons, List.map_nil, hhi, hlo]

theorem lower_form (k₁ k₂ k₃ k₄ : Bool) (u : Uuid) :
    toAsciiLowercase (form k₁ k₂ k₃ k₄ u) = form k₁ k₂ k₃ k₄ u := by
  have hdash : ∀ k : Bool, (dash k).map Char.toLower = dash k := by decide
  have hhex : ∀ bs, (hexText bs).map Char.toLower = hexText bs := lower_hexText
  simp only [form, toAsciiLowercase, List.map_append, hhex, hdash]

/-- The grammar does not look at the case. -/
theorem Grouped.of_map_lowerByte {ns : List Nat} {lower text : Bytes} {ds : List Nat}
    (h : Grouped ns lower ds) (heq : text.map lowerByte = lower) : Grouped ns text ds := by
  induction h generalizing text with
  | nil =>
    obtain rfl := List.map_eq_nil_iff.mp heq
    exact .nil
  | cons hdash hlength hhex _ ih =>
    obtain ⟨dash, digits, rfl, hdash', hdigits⟩ := List.map_eq_append_iff.mp heq
    obtain ⟨hex, text, rfl, rfl, htext⟩ := List.map_eq_append_iff.mp hdigits
    rw [List.length_map] at hlength
    refine .cons ?_ hlength (spells_map_lowerByte.mp hhex) (ih htext)
    rcases hdash with rfl | rfl
    · exact Or.inl (List.map_eq_nil_iff.mp hdash')
    · right
      obtain ⟨b, rfl, hb⟩ := List.map_eq_singleton_iff.mp hdash'
      rw [eq_of_lowerByte_eq (by decide) hb]

/-- **A UUID is read back from its text**, in any case and without any of the dashes. -/
theorem uuid_text_round_trip (sha1 : Bytes → Vector UInt8 20) (u : Uuid) :
    display u = .ofList (form true true true true u) ∧ parseStr sha1 (display u) = some u ∧
    ∀ k₁ k₂ k₃ k₄ t, toAsciiLowercase t.toList = form k₁ k₂ k₃ k₄ u →
      parseStr sha1 t = some u := by
  have hform : ∀ k₁ k₂ k₃ k₄ t, toAsciiLowercase t.toList = form k₁ k₂ k₃ k₄ u →
      parseStr sha1 t = some u := by
    intro k₁ k₂ k₃ k₄ t ht
    have hbytes : (asBytes t).map lowerByte =
        (form k₁ k₂ k₃ k₄ u).flatMap String.utf8EncodeChar := by
      rw [← asBytes_lowercase, lowercase, ht, asBytes_ofList]
    have hlength := congrArg List.length hbytes
    rw [List.length_map, length_form] at hlength
    have hdashes : k₁.toNat + k₂.toNat + k₃.toNat + k₄.toNat ≤ 4 := by
      have h₁ := k₁.toNat_le
      have h₂ := k₂.toNat_le
      have h₃ := k₃.toNat_le
      have h₄ := k₄.toNat_le
      omega
    rw [parseStr_eq_some_iff sha1 (by omega) (by omega)]
    exact ⟨_, [], _, (List.append_nil _).symm, (grouped_form k₁ k₂ k₃ k₄ u).of_map_lowerByte hbytes,
      (bytesOf_digitsOf _).symm⟩
  have hdisplay : display u = .ofList (form true true true true u) := by
    simp [display, form, dash]
  refine ⟨hdisplay, hform true true true true _ ?_, hform⟩
  rw [hdisplay, String.toList_ofList]
  exact lower_form true true true true u

theorem uuid_text_round_trip_mixed :
    parseStr (fun _ => .replicate 20 0) "2418D087648d-4990-86e819DCA1d006d3" =
      some #v[0x24, 0x18, 0xd0, 0x87, 0x64, 0x8d, 0x49, 0x90, 0x86, 0xe8, 0x19, 0xdc, 0xa1, 0xd0,
        0x06, 0xd3] :=
  (uuid_text_round_trip _ _).2.2 false true true false _ (by decide +kernel)

end XrayRs.Saas.Uuid
