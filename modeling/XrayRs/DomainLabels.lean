import XrayRs.Delimited
import XrayRs.RouteTable

/-! # Domain suffixes by labels

`domain_suffix_match` (`kernel/src/route/rule.rs`) works on byte offsets.  With its slice
`d.get(i..)` written out, it says of every two names that the labels of one end with the
labels of the other, up to ASCII case, and the slice it takes begins behind a dot
(`domain_suffix_match_labels`). -/

namespace XrayRs

open Text Delimited

/-! ## Slices of a text -/

/-- `str::is_char_boundary`, on the bytes of the text. -/
def isCharBoundary (s : Bytes) (i : Nat) : Bool :=
  i == 0 ||
    match s[i]? with
    | some b => b &&& 0xc0 != 0x80
    | none => i == s.length

/-- `str::get(i..)`, on the bytes of the text. -/
def strGetFrom (s : Bytes) (i : Nat) : Option Bytes :=
  if isCharBoundary s i then some (s.drop i) else none

/-- `domain_suffix_match`, with its slice: there is none off a character boundary. -/
def domainSuffixMatchSliced (d suffix : String) : Bool :=
  let d := asBytes d
  let suffix := asBytes suffix
  if eqIgnoreAsciiCase d suffix then true
  else if suffix.length < d.length then
    let i := d.length - suffix.length
    d[i - 1]? == some 0x2e && (strGetFrom d i).any (eqIgnoreAsciiCase · suffix)
  else false

theorem first_byte : ∀ b : UInt8, b.IsUTF8FirstByte → (b &&& 0xc0 != 0x80) = true := by
  decide +kernel

/-- The first byte of a character continues no other one. -/
theorem exists_first_byte (c : Char) :
    ∃ b bs, String.utf8EncodeChar c = b :: bs ∧ (b &&& 0xc0 != 0x80) = true := by
  obtain ⟨b, bs, hbytes⟩ := List.exists_cons_of_ne_nil (utf8EncodeChar_ne_nil c)
  refine ⟨b, bs, hbytes, ?_⟩
  have hfirst := UInt8.isUTF8FirstByte_getElem_zero_utf8EncodeChar (c := c)
  simp only [hbytes, List.getElem_cons_zero] at hfirst
  exact first_byte b hfirst

/-- A text may be cut between two characters. -/
theorem strGetFrom_append (a b : List Char) :
    strGetFrom (asBytes (.ofList (a ++ b))) (asBytes (.ofList a)).length =
      some (asBytes (.ofList b)) := by
  rw [asBytes_ofList, asBytes_ofList, asBytes_ofList, List.flatMap_append, strGetFrom, if_pos,
    List.drop_left]
  unfold isCharBoundary
  rw [Bool.or_eq_true]
  right
  cases b with
  | nil => simp
  | cons c b =>
    obtain ⟨first, more, hbytes, hfirst⟩ := exists_first_byte c
    rw [List.getElem?_append_right (Nat.le_refl _), Nat.sub_self, List.flatMap_cons, hbytes]
    exact hfirst

/-- **A dot in front of an offset** ends a part of the text. -/
theorem exists_of_dot {d : String} {i : Nat} (hdot : (asBytes d)[i]? = some 0x2e) :
    ∃ a b : List Char, d.toList = a ++ '.' :: b ∧ (asBytes (.ofList (a ++ ['.']))).length = i + 1 ∧
      asBytes (.ofList b) = (asBytes d).drop (i + 1) := by
  have hd : asBytes d = d.toList.flatMap String.utf8EncodeChar := by
    rw [← asBytes_ofList, String.ofList_toList]
  obtain ⟨a, b, hab, ha, hb⟩ := exists_of_flatMap_utf8EncodeChar (d := '.') (by decide)
    (hd.symm.trans (take_append_cons_drop hdot).symm)
  refine ⟨a, b, hab, ?_, ?_⟩
  · have hbound := (List.getElem?_eq_some_iff.mp hdot).1
    have hbyte : ['.'].flatMap String.utf8EncodeChar = [0x2e] := by decide
    rw [asBytes_ofList, List.flatMap_append, ha, hbyte, List.length_append, List.length_take,
      List.length_singleton, Nat.min_eq_left (Nat.le_of_lt hbound)]
  · rw [asBytes_ofList, hb]

/-- Behind a dot the slice is there. -/
theorem strGetFrom_of_dot {d : String} {i : Nat} (hdot : (asBytes d)[i]? = some 0x2e) :
    strGetFrom (asBytes d) (i + 1) = some ((asBytes d).drop (i + 1)) := by
  obtain ⟨a, b, hab, hlength, hb⟩ := exists_of_dot hdot
  have hd : asBytes d = asBytes (.ofList ((a ++ ['.']) ++ b)) := by
    rw [List.append_assoc, List.singleton_append, ← hab, String.ofList_toList]
  rw [← hb, ← hlength, hd, strGetFrom_append]

/-- **The slice changes nothing**: the byte in front of it is a dot. -/
theorem domainSuffixMatchSliced_eq (d suffix : String) :
    domainSuffixMatchSliced d suffix = domainSuffixMatch d suffix := by
  unfold domainSuffixMatchSliced domainSuffixMatch
  simp only
  by_cases hlt : (asBytes suffix).length < (asBytes d).length
  · obtain ⟨i, hi⟩ : ∃ i, (asBytes d).length - (asBytes suffix).length = i + 1 :=
      ⟨(asBytes d).length - (asBytes suffix).length - 1, by omega⟩
    rw [if_pos hlt, if_pos hlt, hi, Nat.add_sub_cancel]
    by_cases hdot : (asBytes d)[i]? = some 0x2e
    · rw [strGetFrom_of_dot hdot]
      rfl
    · rw [beq_eq_false_iff_ne.mpr hdot, Bool.false_and, Bool.false_and]
  · rw [if_neg hlt, if_neg hlt]

/-! ## Labels -/

/-- The labels of a name, in lower case. -/
def labels (name : String) : List (List Char) := (name.toList.splitOn '.').map toAsciiLowercase

theorem labels_eq (name : String) : labels name = (lowercase name).toList.splitOn '.' := by
  have hlower : lowercase name = .ofList (name.toList.map Char.toLower) := rfl
  rw [hlower, String.toList_ofList]
  exact (splitOn_map (f := Char.toLower) (a := '.')
    (fun c => toLower_eq_iff (by decide) (by decide)) name.toList).symm

/-- The bytes of a name and its subdomains, by characters. -/
theorem isWithin_iff {d x : String} : IsWithin d x ↔ (lowercase d).toList = (lowercase x).toList ∨
    ∃ front, (lowercase d).toList = front ++ '.' :: (lowercase x).toList := by
  have hbytes : ∀ s, lowerBytes s = (lowercase s).toList.flatMap String.utf8EncodeChar := by
    intro s
    rw [lowerBytes, ← asBytes_lowercase, ← asBytes_ofList, String.ofList_toList]
  have hinj : ∀ {a b : List Char},
      a.flatMap String.utf8EncodeChar = b.flatMap String.utf8EncodeChar → a = b := by
    intro a b h
    rw [← asBytes_ofList, ← asBytes_ofList, asBytes_inj] at h
    exact String.ofList_injective h
  unfold IsWithin
  rw [hbytes, hbytes]
  constructor
  · rintro (heq | ⟨sub, hsub⟩)
    · exact .inl (hinj heq)
    · obtain ⟨a, b, hab, -, hb⟩ := exists_of_flatMap_utf8EncodeChar (d := '.') (by decide) hsub
      exact .inr ⟨a, by rw [hab, hinj hb]⟩
  · rintro (heq | ⟨front, hfront⟩)
    · exact .inl (congrArg _ heq)
    · refine .inr ⟨front.flatMap String.utf8EncodeChar, ?_⟩
      rw [hfront, List.flatMap_append, List.flatMap_cons]
      rfl

/-- **Suffixes are label suffixes.** -/
theorem domainSuffixMatchSliced_iff (d suffix : String) :
    domainSuffixMatchSliced d suffix = true ↔ labels suffix <:+ labels d := by
  rw [domainSuffixMatchSliced_eq, domainSuffixMatch_iff, isWithin_iff, labels_eq, labels_eq,
    splitOn_suffix_iff]

/-- **`domain_suffix_match` compares label lists**: it is true exactly where the labels of
the suffix end the labels of the name, up to ASCII case, and the slice that a true answer
rests on begins behind a dot of the name. -/
theorem domain_suffix_match_labels (d suffix : String) :
    (domainSuffixMatchSliced d suffix = true ↔ labels suffix <:+ labels d) ∧
      (domainSuffixMatchSliced d suffix = true →
        eqIgnoreAsciiCase (asBytes d) (asBytes suffix) = true ∨
          ∃ a b : List Char, d.toList = a ++ '.' :: b ∧
            (asBytes (.ofList (a ++ ['.']))).length =
              (asBytes d).length - (asBytes suffix).length ∧
            strGetFrom (asBytes d) ((asBytes d).length - (asBytes suffix).length) =
              some (asBytes (.ofList b))) := by
  refine ⟨domainSuffixMatchSliced_iff d suffix, fun htrue => ?_⟩
  unfold domainSuffixMatchSliced at htrue
  simp only at htrue
  by_cases heq : eqIgnoreAsciiCase (asBytes d) (asBytes suffix) = true
  · exact .inl heq
  · right
    rw [if_neg heq] at htrue
    by_cases hlt : (asBytes suffix).length < (asBytes d).length
    · obtain ⟨i, hi⟩ : ∃ i, (asBytes d).length - (asBytes suffix).length = i + 1 :=
        ⟨(asBytes d).length - (asBytes suffix).length - 1, by omega⟩
      rw [if_pos hlt, hi, Nat.add_sub_cancel, Bool.and_eq_true, beq_iff_eq] at htrue
      obtain ⟨a, b, hab, hlength, hb⟩ := exists_of_dot htrue.1
      refine ⟨a, b, hab, hlength.trans hi.symm, ?_⟩
      rw [hi, strGetFrom_of_dot htrue.1, hb]
    · rw [if_neg hlt] at htrue
      cases htrue

example : domainSuffixMatchSliced "www.Google.com" "google.COM" = true := by decide +kernel

example : domainSuffixMatchSliced "notgoogle.com" "google.com" = false := by decide +kernel

end XrayRs
