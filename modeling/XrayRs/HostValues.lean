import XrayRs.SniffHttp

/-! # The host in a `Host` value

What `strip_port` (`kernel/src/route/sniff.rs`) makes of the value of a `Host` line: the
host is in brackets, stands alone, or stands in front of the one colon (`stripPort_iff`).
A value names the host in its text, in lower case (`hostNamed_eq_some`). -/

namespace XrayRs

open ByteWords Text

/-! ## The host in a text -/

/-- The text of a value and the host in it. -/
inductive Spelled : List Char → List Char → Prop
  | bracketed {addr after : List Char} (haddr : ']' ∉ addr)
      (hafter : after = [] ∨ after.head? = some ':') : Spelled ('[' :: (addr ++ ']' :: after)) addr
  | bare {host : List Char}
      (hbracket : host.head? ≠ some '[') (hcolon : ':' ∉ host) : Spelled host host
  | port {host port : List Char} (hbracket : host.head? ≠ some '[') (hcolon : ':' ∉ host)
      (hport : ':' ∉ port) : Spelled (host ++ ':' :: port) host

/-- **`strip_port`.** -/
theorem stripPort_iff {cs host : List Char} :
    stripPort (.ofList cs) = some (.ofList host) ↔ Spelled cs host := by
  unfold stripPort
  rw [String.toList_ofList]
  constructor
  · intro h
    split at h
    · obtain ⟨⟨addr, after⟩, hsplit, hhost⟩ := Option.bind_eq_some_iff.mp h
      obtain ⟨haddr, rfl⟩ := splitOnce_eq_some.mp hsplit
      by_cases hafter : after = [] ∨ after.head? = some ':'
      · simp only [if_pos hafter, Option.some.injEq, String.ofList_inj] at hhost
        rw [← hhost]
        exact .bracketed haddr hafter
      · simp [if_neg hafter] at hhost
    · next hno =>
      have hbracket : cs.head? ≠ some '[' := by
        intro hhead
        obtain ⟨rest, rfl⟩ := List.head?_eq_some_iff.mp hhead
        exact hno rest rfl
      split at h
      · next hcount =>
        rw [Option.some.injEq, String.ofList_inj] at h
        rw [← h]
        exact .bare hbracket (List.count_eq_zero.mp hcount)
      · next hcount =>
        obtain ⟨⟨host', port⟩, hsplit, hhost⟩ := Option.map_eq_some_iff.mp h
        obtain ⟨hport, rfl⟩ := rsplitOnce_eq_some.mp hsplit
        obtain rfl := String.ofList_inj.mp hhost
        have hcolon : ':' ∉ host' := by
          rw [List.count_append, List.count_cons_self] at hcount
          exact List.count_eq_zero.mp (by omega)
        refine .port ?_ hcolon hport
        intro hhead
        rw [List.head?_append, hhead] at hbracket
        exact hbracket rfl
      · cases h
  · intro h
    cases h with
    | @bracketed _ after haddr hafter =>
      simp only [splitOnce_append haddr, Option.bind_some, if_pos hafter]
    | bare hbracket hcolon =>
      split
      · next rest => exact absurd rfl hbracket
      · rw [List.count_eq_zero.mpr hcolon]
        rfl
    | @port _ port hbracket hcolon hport =>
      have hcount : (host ++ ':' :: port).count ':' = 1 := by
        rw [List.count_append, List.count_cons_self, List.count_eq_zero.mpr hcolon,
          List.count_eq_zero.mpr hport]
      split
      · next rest heq =>
        cases host with
        | nil => cases (List.cons.inj heq).1
        | cons c host => exact absurd (congrArg some (List.cons.inj heq).1) hbracket
      · rw [hcount]
        simp only [rsplitOnce_append hport, Option.map_some]

theorem toLower_eq {c sep : Char} (hsep : sep ∈ ['[', ']', ':']) : c.toLower = sep ↔ c = sep := by
  simp only [List.mem_cons, List.not_mem_nil, or_false] at hsep
  rcases hsep with rfl | rfl | rfl
  · exact toLower_eq_iff (by decide) (by decide)
  · exact toLower_eq_iff (by decide) (by decide)
  · exact toLower_eq_iff (by decide) (by decide)

theorem mem_map_toLower {cs : List Char} {sep : Char} (hsep : sep ∈ ['[', ']', ':']) :
    sep ∈ cs.map Char.toLower ↔ sep ∈ cs := by
  rw [List.mem_map]
  constructor
  · rintro ⟨c, hmem, hc⟩
    rwa [← (toLower_eq hsep).mp hc]
  · exact fun hmem => ⟨sep, hmem, (toLower_eq hsep).mpr rfl⟩

theorem head?_map_toLower {cs : List Char} {sep : Char} (hsep : sep ∈ ['[', ']', ':']) :
    (cs.map Char.toLower).head? = some sep ↔ cs.head? = some sep := by
  cases cs with
  | nil => exact Iff.rfl
  | cons c cs =>
    rw [List.map_cons, List.head?_cons, List.head?_cons, Option.some.injEq, Option.some.injEq]
    exact toLower_eq hsep

/-- The host of a lowered text. -/
theorem spelled_toLower {cs host : List Char} :
    Spelled (cs.map Char.toLower) host ↔ ∃ h, Spelled cs h ∧ host = h.map Char.toLower := by
  constructor
  · intro h
    generalize hlow : cs.map Char.toLower = low at h
    cases h with
    | @bracketed _ after haddr hafter =>
      obtain ⟨c, cs, rfl, hc, hrest⟩ := List.map_eq_cons_iff.mp hlow
      obtain ⟨addr', tail, rfl, rfl, htail⟩ := List.map_eq_append_iff.mp hrest
      obtain ⟨c', after', rfl, hc', rfl⟩ := List.map_eq_cons_iff.mp htail
      rw [(toLower_eq (by decide)).mp hc, (toLower_eq (by decide)).mp hc']
      rw [mem_map_toLower (by decide)] at haddr
      rw [List.map_eq_nil_iff, head?_map_toLower (by decide)] at hafter
      exact ⟨addr', .bracketed haddr hafter, rfl⟩
    | bare hbracket hcolon =>
      subst hlow
      rw [Ne, head?_map_toLower (by decide)] at hbracket
      rw [mem_map_toLower (by decide)] at hcolon
      exact ⟨cs, .bare hbracket hcolon, rfl⟩
    | @port _ port hbracket hcolon hport =>
      obtain ⟨host', tail, rfl, rfl, htail⟩ := List.map_eq_append_iff.mp hlow
      obtain ⟨c', port', rfl, hc', rfl⟩ := List.map_eq_cons_iff.mp htail
      rw [(toLower_eq (by decide)).mp hc']
      rw [Ne, head?_map_toLower (by decide)] at hbracket
      rw [mem_map_toLower (by decide)] at hcolon hport
      exact ⟨host', .port hbracket hcolon hport, rfl⟩
  · rintro ⟨h, hspelled, rfl⟩
    cases hspelled with
    | @bracketed _ after haddr hafter =>
      rw [List.map_cons, List.map_append, List.map_cons]
      refine .bracketed (mt (mem_map_toLower (by decide)).mp haddr) ?_
      rwa [List.map_eq_nil_iff, head?_map_toLower (by decide)]
    | bare hbracket hcolon =>
      exact .bare (mt (head?_map_toLower (by decide)).mp hbracket)
        (mt (mem_map_toLower (by decide)).mp hcolon)
    | port hbracket hcolon hport =>
      rw [List.map_append, List.map_cons]
      exact .port (mt (head?_map_toLower (by decide)).mp hbracket)
        (mt (mem_map_toLower (by decide)).mp hcolon) (mt (mem_map_toLower (by decide)).mp hport)

/-! ## White space around a value -/

/-- `char::is_ascii_whitespace`. -/
def isBlank (c : Char) : Bool := c == ' ' || c == '\t' || c == '\n' || c == '\x0c' || c == '\r'

theorem isBlank_iff {c : Char} : isBlank c = true ↔ c.val.toNat ∈ [32, 9, 10, 12, 13] := by
  simp [isBlank, Char.ext_iff, ← UInt32.toNat_inj, or_assoc]

theorem isAsciiWhitespace_iff {b : UInt8} : isAsciiWhitespace b = true ↔
    b.toNat ∈ [32, 9, 10, 12, 13] := by
  simp [isAsciiWhitespace, ← UInt8.toNat_inj, or_assoc]

/-- The bytes of a blank are white space, those of other characters are not. -/
theorem isAsciiWhitespace_of_mem {c : Char} {b : UInt8} (h : b ∈ String.utf8EncodeChar c) :
    isAsciiWhitespace b = isBlank c := by
  rw [Bool.eq_iff_iff, isAsciiWhitespace_iff, isBlank_iff]
  rcases utf8EncodeChar_cases c with ⟨hlt, hbytes⟩ | ⟨hge, hall⟩
  · rw [hbytes, List.mem_singleton] at h
    rw [h, UInt8.toNat_ofNat_of_lt' (show _ < 256 by omega)]
  · have hb := hall b h
    simp only [List.mem_cons, List.not_mem_nil, or_false]
    omega

section Trim

variable {v front core : Bytes}

/-- What trimming leaves is inside white space. -/
theorem exists_trimAscii (v : Bytes) :
    ∃ front back, v = front ++ (trimAscii v ++ back) ∧ ∀ b ∈ front, isAsciiWhitespace b = true := by
  refine ⟨(v.rdropWhile isAsciiWhitespace).takeWhile isAsciiWhitespace,
    v.rtakeWhile isAsciiWhitespace, ?_,
    fun b hb => List.mem_takeWhile_imp hb⟩
  rw [trimAscii, ← List.append_assoc, List.takeWhile_append_dropWhile,
    List.rdropWhile_append_rtakeWhile]

/-- It begins and ends with something else. -/
theorem trimAscii_head {b : UInt8} (h : b ∈ (trimAscii v).head?) : isAsciiWhitespace b = false := by
  rw [← List.head_of_mem_head? h]
  exact List.head_dropWhile_not ..

theorem trimAscii_getLast {b : UInt8} (h : b ∈ (trimAscii v).getLast?) :
    isAsciiWhitespace b = false := by
  have hsuffix : trimAscii v <:+ v.rdropWhile isAsciiWhitespace := List.dropWhile_suffix _
  rw [← List.getLast_of_mem_getLast? h, hsuffix.getLast, ← Bool.not_eq_true]
  exact List.rdropWhile_last_not isAsciiWhitespace v _

/-- Dropping white space stops at what begins with something else. -/
theorem dropWhile_append_blank (back : Bytes) (hfront : ∀ b ∈ front, isAsciiWhitespace b = true)
    (hhead : ∃ b ∈ core.head?, isAsciiWhitespace b = false) :
    (front ++ (core ++ back)).dropWhile isAsciiWhitespace = core ++ back := by
  obtain ⟨b, hb, hblank⟩ := hhead
  obtain ⟨rest, rfl⟩ := List.head?_eq_some_iff.mp hb
  rw [List.dropWhile_append_of_pos hfront, List.cons_append,
    List.dropWhile_cons_of_neg (by simp [hblank])]

theorem trimAscii_append (hfront : ∀ b ∈ front, isAsciiWhitespace b = true)
    (hhead : ∃ b ∈ core.head?, isAsciiWhitespace b = false)
    (hlast : ∃ b ∈ core.getLast?, isAsciiWhitespace b = false) :
      trimAscii (front ++ core) = core := by
  have hend : (front ++ core).rdropWhile isAsciiWhitespace = front ++ core := by
    obtain ⟨b, hb, hblank⟩ := hlast
    obtain ⟨init, rfl⟩ := List.getLast?_eq_some_iff.mp hb
    rw [← List.append_assoc]
    exact List.rdropWhile_concat_neg _ _ _ (by simp [hblank])
  have hdrop := dropWhile_append_blank [] hfront hhead
  rw [List.append_nil] at hdrop
  rw [trimAscii, hend, hdrop]

end Trim

/-! ## The host of a value -/

/-- The value is UTF-8, and there is a host in its text. -/
def HostIn (v : Bytes) (host : List Char) : Prop :=
  ∃ cs, fromUtf8 (trimAscii v) = some (.ofList cs) ∧ Spelled cs host ∧ host ≠ []

section HostIn

variable {v : Bytes} {cs host : List Char} {d : String}

theorem stripPort_lowercase {raw : String} :
    stripPort (lowercase raw) = some d ↔ ∃ host, Spelled raw.toList host ∧
      d = lowercase (.ofList host) := by
  have hlower : ∀ host : List Char, lowercase (.ofList host) = .ofList (host.map Char.toLower) := by
    intro host
    rw [lowercase, String.toList_ofList, toAsciiLowercase]
  rw [lowercase, toAsciiLowercase, ← String.ofList_toList (s := d), stripPort_iff, spelled_toLower]
  simp only [hlower, String.ofList_inj]

/-- **The host that a value names**, in lower case. -/
theorem hostNamed_eq_some : hostNamed v = some d ↔ ∃ host, HostIn v host ∧
    d = lowercase (.ofList host) := by
  have hempty : ∀ host : List Char, (!(lowercase (.ofList host)).isEmpty) = true ↔ host ≠ [] := by
    intro host
    simp [lowercase, toAsciiLowercase]
  constructor
  · intro h
    obtain ⟨raw, hraw, hfilter⟩ := Option.bind_eq_some_iff.mp h
    obtain ⟨hstrip, hne⟩ := Option.filter_eq_some_iff.mp hfilter
    obtain ⟨host, hspelled, rfl⟩ := stripPort_lowercase.mp hstrip
    refine ⟨host, ⟨raw.toList, ?_, hspelled, (hempty host).mp hne⟩, rfl⟩
    rw [String.ofList_toList]
    exact hraw
  · rintro ⟨host, ⟨cs, hraw, hspelled, hne⟩, rfl⟩
    refine Option.bind_eq_some_iff.mpr ⟨_, hraw,
      Option.filter_eq_some_iff.mpr ⟨?_, (hempty host).mpr hne⟩⟩
    exact stripPort_lowercase.mpr ⟨host, by rwa [String.toList_ofList], rfl⟩

theorem Spelled.ne_nil (h : Spelled cs host) (hne : host ≠ []) : cs ≠ [] := by
  cases h with
  | bracketed => exact List.cons_ne_nil _ _
  | bare => exact hne
  | port => simp

/-- The first byte of a text is one of its first character. -/
theorem head_asBytes (h : cs ≠ []) :
    ∃ c ∈ cs.head?, ∃ b ∈ (asBytes (.ofList cs)).head?, isAsciiWhitespace b = isBlank c := by
  obtain ⟨c, cs, rfl⟩ := List.exists_cons_of_ne_nil h
  have hne := utf8EncodeChar_ne_nil c
  refine ⟨c, rfl, (String.utf8EncodeChar c).head hne, ?_,
    isAsciiWhitespace_of_mem (List.head_mem hne)⟩
  rw [asBytes_ofList, List.flatMap_cons, List.head?_append, List.head?_eq_some_head hne]
  rfl

theorem getLast_asBytes (h : cs ≠ []) :
    ∃ c ∈ cs.getLast?, ∃ b ∈ (asBytes (.ofList cs)).getLast?, isAsciiWhitespace b = isBlank c := by
  obtain ⟨cs, c, rfl⟩ : ∃ init c, cs = init ++ [c] := ⟨_, _, (List.dropLast_append_getLast h).symm⟩
  have hne := utf8EncodeChar_ne_nil c
  refine ⟨c, List.getLast?_concat, (String.utf8EncodeChar c).getLast hne, ?_,
    isAsciiWhitespace_of_mem (List.getLast_mem hne)⟩
  rw [asBytes_ofList, List.flatMap_append, List.flatMap_cons, List.flatMap_nil, List.append_nil,
    List.getLast?_append, List.getLast?_eq_some_getLast hne]
  rfl

/-- A text without blanks at its ends, behind white space. -/
theorem hostIn_of_spelled {front : Bytes} (hfront : ∀ b ∈ front, isAsciiWhitespace b = true)
    (hspelled : Spelled cs host) (hne : host ≠ []) (hhead : ∀ c ∈ cs.head?, isBlank c = false)
    (hlast : ∀ c ∈ cs.getLast?, isBlank c = false) :
      HostIn (front ++ asBytes (.ofList cs)) host := by
  obtain ⟨c, hc, b, hb, hblank⟩ := head_asBytes (hspelled.ne_nil hne)
  obtain ⟨c', hc', b', hb', hblank'⟩ := getLast_asBytes (hspelled.ne_nil hne)
  rw [hhead c hc] at hblank
  rw [hlast c' hc'] at hblank'
  refine ⟨cs, ?_, hspelled, hne⟩
  rw [trimAscii_append hfront ⟨b, hb, hblank⟩ ⟨b', hb', hblank'⟩, fromUtf8_asBytes]

/-- A part of a value that names a host begins with the text of that host. -/
theorem HostIn.text {w : Bytes} (h : HostIn w host) (hpart : w <+: v) :
    ∃ cs, asBytes (.ofList cs) <+: v.dropWhile isAsciiWhitespace ∧ Spelled cs host ∧
      ∀ c ∈ cs.getLast?, isBlank c = false := by
  obtain ⟨cs, hraw, hspelled, hne⟩ := h
  obtain ⟨rest, rfl⟩ := hpart
  obtain ⟨front, back, hw, hfront⟩ := exists_trimAscii w
  have hcore : trimAscii w = asBytes (.ofList cs) := (asBytes_of_fromUtf8 hraw).symm
  obtain ⟨c, hc, b, hb, -⟩ := head_asBytes (hspelled.ne_nil hne)
  obtain ⟨c', hc', b', hb', hblank'⟩ := getLast_asBytes (hspelled.ne_nil hne)
  rw [← hcore] at hb hb'
  refine ⟨cs, ⟨back ++ rest, ?_⟩, hspelled, ?_⟩
  · rw [← hcore]
    conv_rhs => rw [hw, List.append_assoc, List.append_assoc]
    exact (dropWhile_append_blank _ hfront ⟨b, hb, trimAscii_head hb⟩).symm
  · intro c hlast
    obtain rfl := Option.some.inj (hc'.symm.trans hlast)
    rw [← hblank', trimAscii_getLast hb']

end HostIn

end XrayRs
