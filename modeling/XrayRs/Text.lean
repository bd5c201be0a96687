import Mathlib.Data.List.DropRight
import Mathlib.Tactic.Common

/-! # Text as a list of characters

The operations of `str` that configuration parsers use, on the characters of the
text: trimming, splitting at a character, ASCII case and decimal numbers.  Splitting is
the same for the bytes of a text, and is stated for lists of any type.

Trimming stops at the first character that is no white space, so a fixed word in
front of a text is never touched (`trim_append`), and splitting at a separator
finds the end of a word without it (`splitOnce_append`). -/

namespace Text

/-- `char::is_whitespace`: the `White_Space` property of Unicode. -/
def isWhitespace (c : Char) : Bool :=
  (0x09 ≤ c.val && c.val ≤ 0x0d) || c.val == 0x20 || c.val == 0x85 || c.val == 0xa0 ||
    c.val == 0x1680 || (0x2000 ≤ c.val && c.val ≤ 0x200a) || c.val == 0x2028 || c.val == 0x2029 ||
    c.val == 0x202f || c.val == 0x205f || c.val == 0x3000

/-- `str::trim_end`. -/
def trimEnd (s : List Char) : List Char := s.rdropWhile isWhitespace

/-- `str::trim`. -/
def trim (s : List Char) : List Char := (trimEnd s).dropWhile isWhitespace

section

variable {α : Type} [DecidableEq α]

/-- `str::split_once`: the parts before and after the first `sep`. -/
def splitOnce (sep : α) : List α → Option (List α × List α)
  | [] => none
  | c :: s => if c = sep then some ([], s) else (splitOnce sep s).map fun (a, b) => (c :: a, b)

/-- `str::rsplit_once`: the parts before and after the last `sep`. -/
def rsplitOnce (sep : α) (s : List α) : Option (List α × List α) :=
  (splitOnce sep s.reverse).map fun (a, b) => (b.reverse, a.reverse)

end

/-- `str::starts_with`. -/
def startsWith (pre s : List Char) : Bool := pre.isPrefixOf s

/-- `str::strip_prefix`. -/
def stripPrefix (pre s : List Char) : Option (List Char) :=
  if startsWith pre s then some (s.drop pre.length) else none

/-- `str::to_ascii_lowercase`. -/
def toAsciiLowercase (s : List Char) : List Char := s.map Char.toLower

/-- `char::to_digit(10)`. -/
def decimalDigit (c : Char) : Option Nat :=
  if '0' ≤ c ∧ c ≤ '9' then some (c.toNat - '0'.toNat) else none

/-- The digit loop of `from_str_radix`, with `acc` read so far. -/
def parseDigits : Nat → List Char → Option Nat
  | acc, [] => some acc
  | acc, c :: s => (decimalDigit c).bind fun d => parseDigits (10 * acc + d) s

/-- `str::parse` for an unsigned type with greatest value `limit`: digits after an
optional `+`. -/
def parseUnsigned (limit : Nat) (s : List Char) : Option Nat :=
  let digits := match s with
    | '+' :: t => t
    | t => t
  if digits = [] then none else (parseDigits 0 digits).filter (· ≤ limit)

/-- `str::parse` for a signed type with greatest value `limit`. -/
def parseSigned (limit : Nat) (s : List Char) : Option Int :=
  if s.head? = some '-' then
    if s.tail = [] then none
    else ((parseDigits 0 s.tail).filter (· ≤ limit + 1)).map fun n => -(n : Int)
  else (parseUnsigned limit s).map Int.ofNat

/-! ## A word in front of a text -/

/-- A word that trimming leaves alone: not empty, and white space at neither
end. -/
def Solid (w : List Char) : Prop :=
  w.head?.any (!isWhitespace ·) = true ∧ w.getLast?.any (!isWhitespace ·) = true

instance (w : List Char) : Decidable (Solid w) := inferInstanceAs (Decidable (_ ∧ _))

theorem Solid.head {w : List Char} (h : Solid w) : ∃ c t, w = c :: t ∧ isWhitespace c = false := by
  obtain ⟨c, hhead, hc⟩ := (Option.any_eq_true ..).mp h.1
  obtain ⟨t, rfl⟩ := List.head?_eq_some_iff.mp hhead
  exact ⟨c, t, rfl, by simpa using hc⟩

theorem Solid.last {w : List Char} (h : Solid w) : ∃ t c, w = t ++ [c] ∧ isWhitespace c = false := by
  obtain ⟨c, hlast, hc⟩ := (Option.any_eq_true ..).mp h.2
  obtain ⟨t, rfl⟩ := List.getLast?_eq_some_iff.mp hlast
  exact ⟨t, c, rfl, by simpa using hc⟩

theorem trimEnd_append {w : List Char} (h : Solid w) (s : List Char) :
    trimEnd (w ++ s) = w ++ trimEnd s := by
  obtain ⟨t, c, rfl, hc⟩ := h.last
  unfold trimEnd List.rdropWhile
  rw [List.reverse_append, List.dropWhile_append]
  by_cases hs : (s.reverse.dropWhile isWhitespace).isEmpty = true
  · rw [if_pos hs, List.isEmpty_iff.mp hs]
    simp [hc]
  · rw [if_neg hs]
    simp

/-- **Trimming behind a word.** -/
theorem trim_append {w : List Char} (h : Solid w) (s : List Char) :
    trim (w ++ s) = w ++ trimEnd s := by
  rw [trim, trimEnd_append h]
  obtain ⟨c, t, rfl, hc⟩ := h.head
  rw [List.cons_append, List.dropWhile_cons_of_neg (by simp [hc])]

@[simp] theorem trim_trimEnd (s : List Char) : trim (trimEnd s) = trim s := by
  unfold trim trimEnd
  rw [List.rdropWhile_idempotent]

/-- What has been trimmed has nothing to trim. -/
@[simp] theorem trim_trim (s : List Char) : trim (trim s) = trim s := by
  have hend : trimEnd (trim s) = trim s := by
    apply List.rdropWhile_eq_self_iff.mpr
    intro hne
    have hsuffix : trim s <:+ trimEnd s := List.dropWhile_suffix isWhitespace
    have hlast : (trim s).getLast hne = (trimEnd s).getLast (hsuffix.ne_nil hne) :=
      hsuffix.getLast hne
    rw [hlast]
    exact List.rdropWhile_last_not isWhitespace s (hsuffix.ne_nil hne)
  conv_lhs => rw [trim, hend]
  exact List.dropWhile_idempotent ..

/-- White space in front is trimmed. -/
theorem trim_cons {c : Char} (h : isWhitespace c = true) (s : List Char) :
    trim (c :: s) = trim s := by
  unfold trim trimEnd List.rdropWhile
  rw [List.reverse_cons, List.dropWhile_append]
  split
  · next hempty =>
    rw [List.isEmpty_iff.mp hempty]
    simp [h]
  · simp [h]

section

variable {α : Type} [DecidableEq α] {sep : α} {s w a b : List α}

/-- **Splitting behind a word.** -/
theorem splitOnce_append (h : sep ∉ w) (s : List α) :
    splitOnce sep (w ++ sep :: s) = some (w, s) := by
  induction w with
  | nil => simp [splitOnce]
  | cons c w ih =>
    obtain ⟨hc, hw⟩ := not_or.mp (mt List.mem_cons.mpr h)
    rw [List.cons_append, splitOnce, if_neg (Ne.symm hc), ih hw]
    rfl

theorem rsplitOnce_append (h : sep ∉ w) (s : List α) :
    rsplitOnce sep (s ++ sep :: w) = some (s, w) := by
  have hrev : (s ++ sep :: w).reverse = w.reverse ++ sep :: s.reverse := by simp
  rw [rsplitOnce, hrev, splitOnce_append (by simpa using h)]
  simp

theorem splitOnce_eq_none (h : splitOnce sep s = none) : sep ∉ s := by
  induction s with
  | nil => exact List.not_mem_nil
  | cons c s ih =>
    rw [splitOnce] at h
    split at h
    · cases h
    · next hc => exact List.not_mem_cons_of_ne_of_not_mem (Ne.symm hc) (ih (Option.map_eq_none_iff.mp h))

theorem rsplitOnce_eq_none (h : rsplitOnce sep s = none) : sep ∉ s := by
  have hmem := splitOnce_eq_none (Option.map_eq_none_iff.mp h)
  rwa [List.mem_reverse] at hmem

theorem splitOnce_eq_some : splitOnce sep s = some (a, b) ↔ sep ∉ a ∧ s = a ++ sep :: b := by
  constructor
  · intro h
    induction s generalizing a with
    | nil => cases h
    | cons c s ih =>
      rw [splitOnce] at h
      by_cases hc : c = sep
      · rw [if_pos hc] at h
        obtain ⟨rfl, rfl⟩ := Prod.mk.inj (Option.some.inj h)
        exact ⟨List.not_mem_nil, by rw [hc, List.nil_append]⟩
      · rw [if_neg hc] at h
        obtain ⟨⟨a', b'⟩, hsplit, heq⟩ := Option.map_eq_some_iff.mp h
        obtain ⟨rfl, rfl⟩ := Prod.mk.inj heq
        obtain ⟨hmem, rfl⟩ := ih hsplit
        refine ⟨?_, rfl⟩
        rw [List.mem_cons]
        exact not_or.mpr ⟨Ne.symm hc, hmem⟩
  · rintro ⟨hmem, rfl⟩
    exact splitOnce_append hmem b

theorem rsplitOnce_eq_some : rsplitOnce sep s = some (a, b) ↔ sep ∉ b ∧ s = a ++ sep :: b := by
  constructor
  · intro h
    obtain ⟨⟨x, y⟩, hsplit, heq⟩ := Option.map_eq_some_iff.mp h
    obtain ⟨rfl, rfl⟩ := Prod.mk.inj heq
    obtain ⟨hmem, hrev⟩ := splitOnce_eq_some.mp hsplit
    refine ⟨by simpa using hmem, ?_⟩
    rw [← List.reverse_reverse s, hrev]
    simp
  · rintro ⟨hmem, rfl⟩
    exact rsplitOnce_append hmem a

end

theorem startsWith_iff {pre s : List Char} : startsWith pre s = true ↔ ∃ x, s = pre ++ x := by
  rw [startsWith, List.isPrefixOf_iff_prefix]
  exact exists_congr fun x => eq_comm

theorem stripPrefix_append (pre x : List Char) : stripPrefix pre (pre ++ x) = some x := by
  rw [stripPrefix, if_pos (startsWith_iff.mpr ⟨x, rfl⟩), List.drop_left]

theorem stripPrefix_of_not {pre s : List Char} (h : startsWith pre s ≠ true) :
    stripPrefix pre s = none :=
  if_neg h

/-! ## ASCII case -/

/-- `u8::to_ascii_lowercase`. -/
def lowerByte (b : UInt8) : UInt8 := if 0x41 ≤ b ∧ b ≤ 0x5a then b + 0x20 else b

/-- `[u8]::eq_ignore_ascii_case`. -/
def eqIgnoreAsciiCase (a b : List UInt8) : Bool := a.map lowerByte == b.map lowerByte

theorem lowerByte_lowerByte (b : UInt8) : lowerByte (lowerByte b) = lowerByte b := by
  unfold lowerByte
  by_cases h : 0x41 ≤ b ∧ b ≤ 0x5a
  · rw [if_pos h, if_neg]
    rintro ⟨-, hle⟩
    have h1 := UInt8.le_iff_toNat_le.mp h.1
    have h2 := UInt8.le_iff_toNat_le.mp h.2
    have h3 := UInt8.le_iff_toNat_le.mp hle
    rw [UInt8.toNat_add] at h3
    simp at h1 h2 h3
    omega
  · rw [if_neg h, if_neg h]

/-- A byte below the letters is no letter in lower case. -/
theorem eq_of_lowerByte_eq {a b : UInt8} (ha : a.toNat < 0x41) (h : lowerByte b = a) : b = a := by
  unfold lowerByte at h
  by_cases hb : 0x41 ≤ b ∧ b ≤ 0x5a
  · rw [if_pos hb] at h
    have h1 := UInt8.le_iff_toNat_le.mp hb.1
    have h2 := UInt8.le_iff_toNat_le.mp hb.2
    have h3 := congrArg UInt8.toNat h
    rw [UInt8.toNat_add] at h3
    simp at h1 h2 h3
    omega
  · rwa [if_neg hb] at h

theorem lowerByte_of_high {n : Nat} (h : 128 ≤ n) (hn : n < 256) :
    lowerByte (UInt8.ofNat n) = UInt8.ofNat n := by
  refine if_neg ?_
  rintro ⟨-, hle⟩
  have hle := UInt8.le_iff_toNat_le.mp hle
  rw [UInt8.toNat_ofNat_of_lt' hn] at hle
  simp at hle
  omega

/-- A capital becomes a letter. -/
theorem toNat_toLower {c : Char} (h : c.val ≥ 'A'.val ∧ c.val ≤ 'Z'.val) :
    c.toLower.val.toNat = c.val.toNat + 32 := by
  have hle : c.val.toNat ≤ 90 := UInt32.le_iff_toNat_le.mp h.2
  have hchar : c.toLower = _ := dif_pos h
  rw [hchar]
  show (c.val + 32).toNat = _
  rw [UInt32.toNat_add]
  show (c.val.toNat + 32) % 2 ^ 32 = _
  omega

/-- Lowering neither makes a sign nor takes one away. -/
theorem toLower_eq_iff {c sign : Char} (hlower : sign.toLower = sign)
    (hletter : ¬ (97 ≤ sign.val.toNat ∧ sign.val.toNat ≤ 122)) : c.toLower = sign ↔ c = sign := by
  -- a capital becomes a letter, and nothing else changes
  by_cases hupper : c.val ≥ 'A'.val ∧ c.val ≤ 'Z'.val
  · have h1 : 65 ≤ c.val.toNat := UInt32.le_iff_toNat_le.mp hupper.1
    have h2 : c.val.toNat ≤ 90 := UInt32.le_iff_toNat_le.mp hupper.2
    have hval := toNat_toLower hupper
    constructor
    · rintro rfl
      exact absurd ⟨by omega, by omega⟩ hletter
    · rintro rfl
      rw [hlower] at hval
      omega
  · have hsame : c.toLower = c := dif_neg hupper
    rw [hsame]

/-- **Lowering the characters lowers the bytes.** -/
theorem utf8EncodeChar_toLower (c : Char) :
    String.utf8EncodeChar c.toLower = (String.utf8EncodeChar c).map lowerByte := by
  by_cases h : c.val ≥ 'A'.val ∧ c.val ≤ 'Z'.val
  · have h1 : 65 ≤ c.val.toNat := UInt32.le_iff_toNat_le.mp h.1
    have h2 : c.val.toNat ≤ 90 := UInt32.le_iff_toNat_le.mp h.2
    have hlow := toNat_toLower h
    have hbyte : lowerByte (UInt8.ofNat c.val.toNat) = UInt8.ofNat (c.val.toNat + 32) := by
      rw [lowerByte, if_pos]
      · rw [UInt8.ofNat_add]
        rfl
      · rw [UInt8.le_iff_toNat_le, UInt8.le_iff_toNat_le,
          UInt8.toNat_ofNat_of_lt' (show _ < 256 by omega)]
        exact ⟨h1, h2⟩
    unfold String.utf8EncodeChar
    simp only
    rw [hlow, if_pos (by omega), if_pos (by omega), List.map_singleton, hbyte]
  · have hsame : c.toLower = c := dif_neg h
    rw [hsame]
    unfold String.utf8EncodeChar
    simp only
    by_cases h7 : c.val.toNat ≤ 127
    · rw [if_pos h7, List.map_singleton, lowerByte, if_neg]
      rw [UInt8.le_iff_toNat_le, UInt8.le_iff_toNat_le, UInt8.toNat_ofNat_of_lt' (show _ < 256 by omega)]
      exact fun hle => h ⟨UInt32.le_iff_toNat_le.mpr hle.1, UInt32.le_iff_toNat_le.mpr hle.2⟩
    · rw [if_neg h7]
      -- every byte of a longer sequence has its top bit set
      split
      · rw [List.map_cons, List.map_singleton, lowerByte_of_high (by omega) (by omega),
          lowerByte_of_high (by omega) (by omega)]
      · split
        · rw [List.map_cons, List.map_cons, List.map_singleton,
            lowerByte_of_high (by omega) (by omega), lowerByte_of_high (by omega) (by omega),
            lowerByte_of_high (by omega) (by omega)]
        · rw [List.map_cons, List.map_cons, List.map_cons, List.map_singleton,
            lowerByte_of_high (by omega) (by omega), lowerByte_of_high (by omega) (by omega),
            lowerByte_of_high (by omega) (by omega), lowerByte_of_high (by omega) (by omega)]

/-! ## Characters and their bytes -/

/-- A character is one byte or has only high bytes. -/
theorem utf8EncodeChar_cases (c : Char) :
    (c.val.toNat < 128 ∧ String.utf8EncodeChar c = [UInt8.ofNat c.val.toNat]) ∨
      (128 ≤ c.val.toNat ∧ ∀ b ∈ String.utf8EncodeChar c, 128 ≤ b.toNat) := by
  have hhigh : ∀ n, 128 ≤ n → n < 256 → 128 ≤ (UInt8.ofNat n).toNat := by
    intro n hn hlt
    rwa [UInt8.toNat_ofNat_of_lt' hlt]
  unfold String.utf8EncodeChar
  simp only
  by_cases h7 : c.val.toNat ≤ 127
  · exact .inl ⟨by omega, if_pos h7⟩
  · refine .inr ⟨by omega, ?_⟩
    -- two bytes, three or four, each with the high bit
    rw [if_neg h7]
    split
    · simp only [List.forall_mem_cons]
      exact ⟨hhigh _ (by omega) (by omega), hhigh _ (by omega) (by omega), by simp⟩
    · split
      · simp only [List.forall_mem_cons]
        exact ⟨hhigh _ (by omega) (by omega), hhigh _ (by omega) (by omega),
          hhigh _ (by omega) (by omega),
          by simp⟩
      · simp only [List.forall_mem_cons]
        exact ⟨hhigh _ (by omega) (by omega), hhigh _ (by omega) (by omega),
          hhigh _ (by omega) (by omega),
          hhigh _ (by omega) (by omega), by simp⟩

theorem utf8EncodeChar_ne_nil (c : Char) : String.utf8EncodeChar c ≠ [] := by
  unfold String.utf8EncodeChar
  simp only
  split
  · simp
  · split
    · simp
    · split <;> simp

/-- An ASCII byte is the byte of one character, and part of no other. -/
theorem eq_of_mem_utf8EncodeChar {c d : Char} (hd : d.val.toNat < 128)
    (h : UInt8.ofNat d.val.toNat ∈ String.utf8EncodeChar c) : c = d := by
  have htoNat : (UInt8.ofNat d.val.toNat).toNat = d.val.toNat :=
    UInt8.toNat_ofNat_of_lt' (hd.trans (by decide))
  rcases utf8EncodeChar_cases c with ⟨hlt, hbytes⟩ | ⟨hge, hall⟩
  · rw [hbytes, List.mem_singleton] at h
    have hval := congrArg UInt8.toNat h
    rw [htoNat, UInt8.toNat_ofNat_of_lt' (hlt.trans (by decide))] at hval
    exact Char.ext (UInt32.toNat_inj.mp hval.symm)
  · have := hall _ h
    omega

/-- **An ASCII byte in a text** is one of its characters. -/
theorem exists_of_flatMap_utf8EncodeChar {d : Char} (hd : d.val.toNat < 128) {cs : List Char}
    {front rest : List UInt8}
    (h : cs.flatMap String.utf8EncodeChar = front ++ UInt8.ofNat d.val.toNat :: rest) :
    ∃ a b, cs = a ++ d :: b ∧ a.flatMap String.utf8EncodeChar = front ∧
      b.flatMap String.utf8EncodeChar = rest := by
  induction cs generalizing front with
  | nil => simp at h
  | cons c cs ih =>
    have hbehind : ∀ front', front = String.utf8EncodeChar c ++ front' →
        cs.flatMap String.utf8EncodeChar = front' ++ UInt8.ofNat d.val.toNat :: rest →
        ∃ a b, c :: cs = a ++ d :: b ∧ a.flatMap String.utf8EncodeChar = front ∧
          b.flatMap String.utf8EncodeChar = rest := by
      intro front' hfront hrest
      obtain ⟨a, b, rfl, ha, hb⟩ := ih hrest
      exact ⟨c :: a, b, rfl, by rw [List.flatMap_cons, ha, hfront], hb⟩
    rw [List.flatMap_cons] at h
    rcases List.append_eq_append_iff.mp h with ⟨front', hfront, hrest⟩ | ⟨bytes, hc, hrest⟩
    · exact hbehind front' hfront hrest
    · cases bytes with
      | nil => exact hbehind [] (by simpa using hc.symm) hrest.symm
      | cons b bytes =>
        -- the byte is one of the character's
        obtain ⟨rfl, htail⟩ := List.cons_eq_cons.mp hrest
        obtain rfl : c = d := by
          refine eq_of_mem_utf8EncodeChar hd ?_
          rw [hc]
          simp
        rcases utf8EncodeChar_cases c with ⟨-, hbytes⟩ | ⟨hge, -⟩
        · rw [hbytes] at hc
          obtain ⟨rfl, rfl⟩ : front = [] ∧ bytes = [] := by
            have hlength := congrArg List.length hc
            simp only [List.length_append, List.length_cons, List.length_nil] at hlength
            exact ⟨List.length_eq_zero_iff.mp (by omega), List.length_eq_zero_iff.mp (by omega)⟩
          exact ⟨[], cs, rfl, rfl, htail.symm⟩
        · omega

/-! ## Numbers and their text -/

theorem decimalDigit_digitChar {n : Nat} (h : n < 10) : decimalDigit n.digitChar = some n := by
  have hall : ∀ k : Fin 10, decimalDigit (Nat.digitChar k) = some k.val := by decide
  exact hall ⟨n, h⟩

theorem parseDigits_append (s t : List Char) (acc : Nat) :
    parseDigits acc (s ++ t) = (parseDigits acc s).bind (parseDigits · t) := by
  induction s generalizing acc with
  | nil => rfl
  | cons c s ih =>
    show (decimalDigit c).bind (fun d => parseDigits (10 * acc + d) (s ++ t)) = _
    simp only [ih]
    exact (Option.bind_assoc ..).symm

/-- A number is read back from its decimal digits. -/
theorem parseDigits_toDigits (n : Nat) : parseDigits 0 (Nat.toDigits 10 n) = some n := by
  induction n using Nat.strongRecOn with
  | ind n ih =>
    by_cases h : n < 10
    · rw [Nat.toDigits_of_lt_base h]
      show (decimalDigit n.digitChar).bind _ = _
      rw [decimalDigit_digitChar h]
      simp [parseDigits]
    · rw [Nat.toDigits_of_base_le (by decide) (Nat.not_lt.mp h), parseDigits_append,
        ih (n / 10) (by omega)]
      show (decimalDigit (n % 10).digitChar).bind _ = _
      rw [decimalDigit_digitChar (Nat.mod_lt _ (by decide))]
      show some (10 * (n / 10) + n % 10) = some n
      rw [Nat.div_add_mod]

theorem notMem_toDigits {c : Char} (h : c.isDigit = false) (n : Nat) : c ∉ Nat.toDigits 10 n := by
  intro hc
  exact absurd (Nat.isDigit_of_mem_toDigits (by decide) (by decide) hc) (by simp [h])

theorem parseUnsigned_toDigits {limit n : Nat} (h : n ≤ limit) :
    parseUnsigned limit (Nat.toDigits 10 n) = some n := by
  have hplus := notMem_toDigits (c := '+') (by decide) n
  have hparse := parseDigits_toDigits n
  unfold parseUnsigned
  cases hdigits : Nat.toDigits 10 n with
  | nil => exact absurd hdigits Nat.toDigits_ne_nil
  | cons c s =>
    rw [hdigits] at hplus hparse
    have hc : c ≠ '+' := fun hc => hplus (hc ▸ List.mem_cons_self)
    simp [hc, hparse, h]

/-- The decimal text of an integer: its digits, after a `-` if it is negative. -/
theorem toList_toString (i : Int) :
    (toString i).toList =
      if i < 0 then '-' :: Nat.toDigits 10 i.natAbs else Nat.toDigits 10 i.natAbs := by
  cases i with
  | ofNat n =>
    rw [if_neg (by simp)]
    show (Nat.repr n).toList = _
    rw [Nat.toList_repr]
    rfl
  | negSucc n =>
    rw [if_pos (by simp)]
    show ("-" ++ Nat.repr (n + 1)).toList = _
    rw [String.toList_append, Nat.toList_repr]
    rfl

/-- **An integer is read back from its text**, if it is in range. -/
theorem parseSigned_toString {limit : Nat} {i : Int} (hlo : -(limit + 1 : Int) ≤ i)
    (hhi : i ≤ limit) : parseSigned limit (toString i).toList = some i := by
  rw [toList_toString]
  by_cases hneg : i < 0
  · have hle : i.natAbs ≤ limit + 1 := by omega
    rw [if_pos hneg, parseSigned, List.head?_cons, if_pos rfl, List.tail_cons,
      if_neg Nat.toDigits_ne_nil, parseDigits_toDigits]
    show (((some i.natAbs).filter (· ≤ limit + 1)).bind fun n => some (n : Int)).map (- ·) = some i
    rw [Option.filter_some, if_pos (decide_eq_true hle)]
    show some (-(i.natAbs : Int)) = some i
    congr 1
    omega
  · have hle : i.natAbs ≤ limit := by omega
    have hminus : (Nat.toDigits 10 i.natAbs).head? ≠ some '-' := fun h =>
      notMem_toDigits (by decide) _ (List.mem_of_head? h)
    rw [if_neg hneg, parseSigned, if_neg hminus, parseUnsigned_toDigits hle]
    show some (i.natAbs : Int) = some i
    congr 1
    omega

end Text
