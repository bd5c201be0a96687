import XrayRs.HostValues
import XrayRs.SniffTls

/-! # Sniffing a message that has not arrived whole

`sniff` (`kernel/src/route/sniff.rs`) is asked as soon as there are some bytes.  A record
tells its length, so a part of it names nobody.  A request does not: its last line is read
as far as it has arrived, and the lines that are missing may replace the host.  So a part
of a request names the same host as the whole, or none, only where the `Host` values are
steady (`sniff_part_iff`): what is before the port has one character, or is in brackets. -/

namespace XrayRs

open ByteWords Text

/-! ## Values that are cut -/

/-- A text that names `x` or nobody, wherever it is cut: nothing, a port alone, something
in brackets, or one character with white space or a port behind it. -/
inductive SteadyText (x : Option String) : List Char → Prop
  | empty : SteadyText x []
  | port (rest : List Char) : SteadyText x (':' :: rest)
  | bracket {rest : List Char} (hrest : ∀ addr after, ']' ∉ addr → rest = addr ++ ']' :: after →
      addr = [] ∨ x = some (lowercase (.ofList addr))) : SteadyText x ('[' :: rest)
  | single {c : Char} {rest : List Char} (hc : c ≠ '[') (hx : x = some (lowercase (.ofList [c])))
      (hrest : (∀ c' ∈ rest, isBlank c' = true) ∨ rest.head? = some ':') : SteadyText x (c :: rest)

/-- A value whose text is steady, as far as it is UTF-8. -/
def SteadyValue (x : Option String) (v : Bytes) : Prop :=
  ∀ cs, asBytes (.ofList cs) <+: v.dropWhile isAsciiWhitespace → SteadyText x cs

section Cut

variable {x : Option String} {v w : Bytes} {cs host : List Char}

theorem length_of_lowercase_eq {a b : List Char}
    (h : lowercase (.ofList a) = lowercase (.ofList b)) :
    a.length = b.length := by
  simp only [lowercase, toAsciiLowercase, String.ofList_inj, String.toList_ofList] at h
  simpa using congrArg List.length h

/-- A host in a steady text is the one it names. -/
theorem SteadyText.names (h : SteadyText x cs) (hspelled : Spelled cs host) (hne : host ≠ [])
    (hlast : ∀ c ∈ cs.getLast?, isBlank c = false) : x = some (lowercase (.ofList host)) := by
  cases h with
  | empty => exact absurd rfl (hspelled.ne_nil hne)
  | port rest =>
    generalize htext : ':' :: rest = text at hspelled
    cases hspelled with
    | bracketed => cases (List.cons.inj htext).1
    | bare hbracket hcolon => exact absurd (htext ▸ List.mem_cons_self) hcolon
    | port hbracket hcolon hport =>
      cases host with
      | nil => exact absurd rfl hne
      | cons c host => exact absurd ((List.cons.inj htext).1 ▸ List.mem_cons_self) hcolon
  | @bracket rest hrest =>
    generalize htext : '[' :: rest = text at hspelled
    cases hspelled with
    | bracketed haddr hafter => exact (hrest _ _ haddr (List.cons.inj htext).2).resolve_left hne
    | bare hbracket hcolon => exact absurd (htext ▸ rfl) hbracket
    | port hbracket hcolon hport =>
      cases host with
      | nil => exact absurd rfl hne
      | cons c host => exact absurd ((List.cons.inj htext).1 ▸ rfl) hbracket
  | @single c rest hc hx hrest =>
    generalize htext : c :: rest = text at hspelled
    cases hspelled with
    | bracketed => exact absurd (List.cons.inj htext).1 hc
    | bare hbracket hcolon =>
      subst htext
      cases rest with
      | nil => exact hx
      | cons c' rest =>
        rcases hrest with hblank | hhead
        · obtain ⟨last, hmem⟩ :=
            List.getLast?_isSome.mpr (List.cons_ne_nil c' rest) |> Option.isSome_iff_exists.mp
          have hno := hlast last (by rw [List.getLast?_cons_cons]; exact hmem)
          rw [hblank last (List.mem_of_getLast? hmem)] at hno
          cases hno
        · rw [Option.some.inj hhead] at hcolon
          exact absurd (by simp) hcolon
    | @port _ port hbracket hcolon hport =>
      cases host with
      | nil => exact absurd rfl hne
      | cons c' host =>
        obtain ⟨rfl, hrest'⟩ := List.cons.inj htext
        cases host with
        | nil => exact hx
        | cons c' host =>
          rcases hrest with hblank | hhead
          · have hcolon := hblank ':' (by rw [hrest']; simp)
            exact absurd hcolon (by decide)
          · rw [hrest'] at hhead
            obtain rfl := Option.some.inj hhead
            exact absurd (by simp) hcolon

theorem asBytes_isPrefix {cs' : List Char} (h : cs' <+: cs) :
    asBytes (.ofList cs') <+: asBytes (.ofList cs) := by
  obtain ⟨more, rfl⟩ := h
  rw [asBytes_ofList, asBytes_ofList, List.flatMap_append]
  exact List.prefix_append _ _

/-- The text of a value does not begin with a blank. -/
theorem isBlank_head (hcs : asBytes (.ofList cs) <+: v.dropWhile isAsciiWhitespace) {c : Char}
    (hc : c ∈ cs.head?) : isBlank c = false := by
  have hne : cs ≠ [] := List.ne_nil_of_mem (List.mem_of_mem_head? hc)
  obtain ⟨c', hc', b, hb, hblank⟩ := head_asBytes hne
  obtain rfl := Option.some.inj (hc.symm.trans hc')
  obtain ⟨rest, hrest⟩ := hcs
  have hhead : b ∈ (v.dropWhile isAsciiWhitespace).head? := by
    rw [← hrest, List.head?_append, hb]
    rfl
  rw [← hblank, ← List.head_of_mem_head? hhead]
  exact List.head_dropWhile_not ..

/-- A text at the front of a value is that of a part. -/
theorem exists_part (hcs : asBytes (.ofList cs) <+: v.dropWhile isAsciiWhitespace)
    (hspelled : Spelled cs host)
    (hne : host ≠ []) (hlast : ∀ c ∈ cs.getLast?, isBlank c = false) :
    ∃ w, w <+: v ∧ hostNamed w = some (lowercase (.ofList host)) := by
  have hhead : ∀ c ∈ cs.head?, isBlank c = false := fun c hc => isBlank_head hcs hc
  obtain ⟨rest, hrest⟩ := hcs
  -- the part that ends with the text
  refine ⟨v.takeWhile isAsciiWhitespace ++ asBytes (.ofList cs), ⟨rest, ?_⟩, ?_⟩
  · rw [List.append_assoc, hrest, List.takeWhile_append_dropWhile]
  · have hfront : ∀ b ∈ v.takeWhile isAsciiWhitespace, isAsciiWhitespace b = true :=
      fun b hb => List.mem_takeWhile_imp hb
    exact hostNamed_eq_some.mpr ⟨host, hostIn_of_spelled hfront hspelled hne hhead hlast, rfl⟩

theorem exists_first_char {rest : List Char} (h : ∃ c ∈ rest, isBlank c = false) :
    ∃ blanks c more, rest = blanks ++ c :: more ∧ (∀ b ∈ blanks, isBlank b = true) ∧
      isBlank c = false := by
  have hne : rest.dropWhile isBlank ≠ [] := by
    rw [Ne, List.dropWhile_eq_nil_iff]
    push Not
    simpa using h
  obtain ⟨c, more, hmore⟩ := List.exists_cons_of_ne_nil hne
  refine ⟨rest.takeWhile isBlank, c, more, ?_, fun b hb => List.mem_takeWhile_imp hb, ?_⟩
  · rw [← hmore, List.takeWhile_append_dropWhile]
  · have hnot := List.head_dropWhile_not isBlank hne
    simpa only [hmore, List.head_cons] using hnot

/-- What is behind the first character of a text that names that character alone. -/
theorem single_rest {c : Char} {rest : List Char} (hbracket : c ≠ '[') (hcolon : c ≠ ':')
    (hnames : ∀ cs host, cs <+: c :: rest → Spelled cs host → host ≠ [] →
      (∀ c ∈ cs.getLast?, isBlank c = false) → host.length = 1) :
    (∀ c' ∈ rest, isBlank c' = true) ∨ rest.head? = some ':' := by
  by_contra hno
  push Not at hno
  obtain ⟨⟨c', hmem, hblank⟩, hhead⟩ := hno
  obtain ⟨blanks, c', more, rfl, hblanks, hc'⟩ :=
    exists_first_char ⟨c', hmem, by simpa using hblank⟩
  have hnot : ':' ∉ c :: blanks := by
    intro hmem
    rcases List.mem_cons.mp hmem with heq | hmem
    · exact hcolon heq.symm
    · exact absurd (hblanks ':' hmem) (by decide)
  have hnotbracket : (c :: blanks).head? ≠ some '[' := by simpa using hbracket
  have hlast : ∀ b ∈ ((c :: blanks) ++ [c']).getLast?, isBlank b = false := by
    intro b hb
    rw [List.getLast?_concat, Option.mem_some_iff] at hb
    rwa [← hb]
  -- cut behind the first character that is no blank, it names more than one
  have hpart : (c :: blanks) ++ [c'] <+: c :: (blanks ++ c' :: more) := ⟨more, by simp⟩
  by_cases hy : c' = ':'
  · subst hy
    have hlen :=
      hnames _ _ hpart (.port hnotbracket hnot List.not_mem_nil) (List.cons_ne_nil _ _) hlast
    cases blanks with
    | nil => exact hhead rfl
    | cons b blanks => simp at hlen
  · have hspelled : Spelled ((c :: blanks) ++ [c']) ((c :: blanks) ++ [c']) := by
      refine .bare hnotbracket ?_
      rw [List.mem_append, List.mem_singleton]
      exact not_or.mpr ⟨hnot, Ne.symm hy⟩
    have hlen := hnames _ _ hpart hspelled (by simp) hlast
    simp at hlen

/-- **The steady values** are those whose parts name one host at most. -/
theorem steadyValue_iff : SteadyValue x v ↔ ∀ w, w <+: v → hostNamed w = none ∨
    hostNamed w = x := by
  constructor
  · intro h w hw
    cases hd : hostNamed w with
    | none => exact .inl rfl
    | some d =>
      obtain ⟨host, hin, rfl⟩ := hostNamed_eq_some.mp hd
      obtain ⟨cs, hcs, hspelled, hlast⟩ := hin.text hw
      exact .inr (((h cs hcs).names hspelled hin.choose_spec.2.2 hlast).symm)
  · intro h cs hcs
    cases cs with
    | nil => exact .empty
    | cons c rest =>
      have hnames : ∀ cs' host, cs' <+: c :: rest → Spelled cs' host → host ≠ [] →
          (∀ c ∈ cs'.getLast?, isBlank c = false) → x = some (lowercase (.ofList host)) := by
        intro cs' host hcs' hspelled hhost hlast
        obtain ⟨w, hw, hd⟩ := exists_part ((asBytes_isPrefix hcs').trans hcs) hspelled hhost hlast
        rcases h w hw with hnone | hx
        · cases hnone.symm.trans hd
        · exact hx.symm.trans hd
      by_cases hcolon : c = ':'
      · subst hcolon
        exact .port rest
      by_cases hbracket : c = '['
      · subst hbracket
        refine .bracket fun addr after haddr hrest => ?_
        by_cases hempty : addr = []
        · exact .inl hempty
        · -- cut behind the bracket
          refine .inr (hnames ('[' :: (addr ++ [']'])) addr ⟨after, ?_⟩
            (.bracketed haddr (.inl rfl)) hempty ?_)
          · rw [hrest]
            simp
          · intro c hc
            rw [← List.cons_append, List.getLast?_concat, Option.mem_some_iff] at hc
            subst hc
            decide
      · -- cut behind the first character
        have hx : x = some (lowercase (.ofList [c])) := by
          refine hnames [c] [c] ⟨rest, rfl⟩ (.bare ?_ ?_)
            (List.cons_ne_nil c []) fun c' hc' => isBlank_head hcs hc'
          · simpa using hbracket
          · simpa using Ne.symm hcolon
        refine .single hbracket hx
          (single_rest hbracket hcolon fun cs' host hcs' hspelled hhost hlast => ?_)
        exact length_of_lowercase_eq
          (Option.some.inj ((hnames cs' host hcs' hspelled hhost hlast).symm.trans hx))

end Cut

/-! ## Parts of a request -/

/-- A part of some lines: all of them, or some whole ones and a part of the next. -/
theorem prefix_lines {lines : List Bytes} {p : Bytes} (h : p <+: lines.flatMap (· ++ [0x0a])) :
    p = lines.flatMap (· ++ [0x0a]) ∨
      ∃ before line after w, lines = before ++ line :: after ∧ w <+: line ∧
      p = before.flatMap (· ++ [0x0a]) ++ w := by
  induction lines generalizing p with
  | nil => exact .inl (List.prefix_nil.mp h)
  | cons line lines ih =>
    rw [List.flatMap_cons, List.append_assoc, List.singleton_append] at h
    obtain ⟨rest, hrest⟩ := h
    rcases List.append_eq_append_iff.mp hrest with ⟨more, hline, -⟩ | ⟨p', rfl, hp'⟩
    · exact .inr ⟨[], line, lines, p, rfl, ⟨more, hline.symm⟩, rfl⟩
    · cases p' with
      | nil => exact .inr ⟨[], line, lines, line, rfl, List.prefix_refl _, by simp⟩
      | cons c p' =>
        obtain ⟨rfl, htail⟩ := List.cons.inj hp'
        rcases ih ⟨rest, htail.symm⟩ with rfl | ⟨before, line', after, w, rfl, hw, rfl⟩
        · exact .inl (by simp)
        · exact .inr ⟨line :: before, line', after, w, rfl, hw, by simp⟩

/-- A part of a line has a part of its value. -/
theorem hostValue_part {line w v' : Bytes} (hw : w <+: line) (h : hostValue w = some v') :
    ∃ v, hostValue line = some v ∧ v' <+: v := by
  obtain ⟨key, rfl, hmem, hkey⟩ := hostValue_eq_some.mp h
  obtain ⟨rest, rfl⟩ := hw
  refine ⟨v' ++ rest, hostValue_eq_some.mpr ⟨key, ?_, hmem, hkey⟩, List.prefix_append _ _⟩
  rw [List.append_assoc, List.cons_append]

/-- A part of a value is that of a part of the line. -/
theorem exists_hostValue {line v w : Bytes} (h : hostValue line = some v) (hw : w <+: v) :
    ∃ part, part <+: line ∧ hostValue part = some w := by
  obtain ⟨key, rfl, hmem, hkey⟩ := hostValue_eq_some.mp h
  refine ⟨key ++ 0x3a :: w, ?_, hostValue_eq_some.mpr ⟨key, rfl, hmem, hkey⟩⟩
  exact (List.prefix_append_right_inj key).mpr (List.cons_prefix_cons.mpr ⟨rfl, hw⟩)

namespace HeaderBlock

variable (b : HeaderBlock) {before : List Bytes} {w : Bytes}

/-- What the sniffer reads of a request whose last line is `w`. -/
theorem hostValues_part (hbefore : before <+: b.headers) (hw : (0x0a : UInt8) ∉ w) :
    hostValues (b.requestLine ++ 0x0a :: (before.flatMap (· ++ [0x0a]) ++ w)) =
      before.filterMap hostValue ++ (hostValue w).toList := by
  have hlines : ∀ line ∈ b.requestLine :: before, (0x0a : UInt8) ∉ line := by
    intro line hline
    refine b.no_lf line ?_
    rcases List.mem_cons.mp hline with rfl | hline
    · exact List.mem_cons_self
    · exact List.mem_cons_of_mem _ (hbefore.subset hline)
  have hbytes : b.requestLine ++ 0x0a :: (before.flatMap (· ++ [0x0a]) ++ w) =
      (b.requestLine :: before).flatMap (· ++ [0x0a]) ++ w := by
    simp
  have hheaders : headerLines (before ++ [w]) = before ++ headerLines [w] := by
    refine List.takeWhile_append_of_pos fun line hline => ?_
    simpa using (b.headers_ne line (hbefore.subset hline)).1
  rw [hbytes, hostValues, splitOn_lines hlines, List.splitOn_eq_singleton hw,
    List.cons_append, List.tail_cons,
    hheaders, List.filterMap_append]
  by_cases hempty : w = []
  · subst hempty
    rfl
  · have hlast : headerLines [w] = [w] := by simp [headerLines, hempty]
    rw [hlast, List.filterMap_cons]
    cases hostValue w <;> rfl

theorem hostValues_bytes : hostValues b.bytes = b.hosts := by
  have hbytes : b.bytes = b.bytes ++ [] := (List.append_nil _).symm
  rcases b.blank_eq with hblank | hblank
  · rw [hbytes, b.hostValues_of_lf [] hblank]
  · rw [hbytes, b.hostValues_of_cr [] hblank]
    simp [headerLines]

theorem begins_part {rest : Bytes} (hrest : rest ≠ []) :
    beginsWithHttpMethod (b.requestLine ++ 0x0a :: rest) = beginsWithHttpMethod b.bytes := by
  have hbytes := b.begins_append []
  rw [List.append_nil] at hbytes
  exact Bool.eq_iff_iff.mpr ((beginsWithHttpMethod_line hrest).trans hbytes.symm)

/-- A value is reached if those before it are UTF-8. -/
def Reached (v : Bytes) : Prop :=
  ∃ before after, b.hosts = before ++ v :: after ∧ ∀ v' ∈ before, (valueText v').isSome

theorem bytes_eq :
    b.bytes = b.requestLine ++ 0x0a :: (b.headers ++ [b.blank]).flatMap (· ++ [0x0a]) := by
  rw [bytes, lines, List.flatMap_cons, List.append_assoc, List.singleton_append]

/-- The parts of a reached value are read. -/
theorem exists_reading (hbegins : beginsWithHttpMethod b.bytes = true) {v : Bytes} (h : b.Reached v)
    (hw : w <+: v) : ∃ p, p <+: b.bytes ∧ sniffHttp p = hostNamed w := by
  obtain ⟨values, after, hhosts, hall⟩ := h
  obtain ⟨before, tail, hheaders, hbefore, htail⟩ := List.filterMap_eq_append_iff.mp hhosts
  obtain ⟨skipped, line, rest, rfl, hskipped, hline, -⟩ := List.filterMap_eq_cons_iff.mp htail
  obtain ⟨part, hpart, hvalue⟩ := exists_hostValue hline hw
  have hmem : line ∈ b.headers := by
    rw [hheaders]
    simp
  have hlf : (0x0a : UInt8) ∉ part :=
    fun h => b.no_lf line (List.mem_cons_of_mem _ hmem) (hpart.subset h)
  have hfront : before ++ skipped <+: b.headers :=
    ⟨line :: rest, by rw [hheaders, List.append_assoc]⟩
  have hvalues := b.hostValues_part hfront hlf
  rw [List.filterMap_append, hbefore, List.filterMap_eq_nil_iff.mpr hskipped,
    List.append_nil, hvalue,
    Option.toList_some] at hvalues
  -- the request is cut in the line of the value
  refine ⟨b.requestLine ++ 0x0a :: ((before ++ skipped).flatMap (· ++ [0x0a]) ++ part), ?_,
    Option.ext fun d => ?_⟩
  · obtain ⟨more, rfl⟩ := hpart
    rw [bytes_eq, hheaders]
    refine ⟨more ++ 0x0a :: (rest ++ [b.blank]).flatMap (· ++ [0x0a]), ?_⟩
    simp
  · have hrest : (before ++ skipped).flatMap (· ++ [0x0a]) ++ part ≠ [] := by
      obtain ⟨key, rfl, -, -⟩ := hostValue_eq_some.mp hvalue
      simp
    rw [sniffHttp_eq_some, hvalues, b.begins_part hrest]
    constructor
    · rintro ⟨-, -, v', hlast, hd⟩
      rw [List.getLast?_concat, Option.some.injEq] at hlast
      rwa [hlast]
    · intro hd
      refine ⟨hbegins, ?_, w, List.getLast?_concat, hd⟩
      intro v' hv'
      rcases List.mem_append.mp hv' with hv' | hv'
      · exact hall v' hv'
      · obtain ⟨raw, hraw, -⟩ := Option.bind_eq_some_iff.mp hd
        rw [List.mem_singleton.mp hv', hraw]
        rfl

/-- The last value of the first lines. -/
theorem reached_of_whole {before : List Bytes} (hfront : before <+: b.headers) {v : Bytes}
    (hlast : (before.filterMap hostValue).getLast? = some v)
    (hread : ∀ v' ∈ before.filterMap hostValue, (valueText v').isSome) : b.Reached v := by
  obtain ⟨rest, hrest⟩ := hfront
  obtain ⟨values, hvalues⟩ := List.getLast?_eq_some_iff.mp hlast
  refine ⟨values, rest.filterMap hostValue, ?_, ?_⟩
  · rw [hosts, ← hrest, List.filterMap_append, hvalues, List.append_assoc, List.singleton_append]
  · intro v' hv'
    exact hread v' (hvalues ▸ List.mem_append_left _ hv')

/-- The value of a line that is cut: the line is not the blank one. -/
theorem reached_of_cut {before after : List Bytes} {line v : Bytes}
    (hheaders : b.headers ++ [b.blank] = before ++ line :: after) (hvalue : hostValue line = some v)
    (hread : ∀ v' ∈ before.filterMap hostValue, (valueText v').isSome) : b.Reached v := by
  refine ⟨before.filterMap hostValue, after.filterMap hostValue, ?_, hread⟩
  have hblank : hostValue b.blank = none := by
    rcases b.blank_eq with hblank | hblank <;> rw [hblank] <;> decide
  have hvalues := congrArg (List.filterMap hostValue) hheaders
  rw [List.filterMap_append, List.filterMap_cons, hblank, List.filterMap_nil,
    List.append_nil] at hvalues
  rw [hosts, hvalues, List.filterMap_append, List.filterMap_cons, hvalue]

/-- What is read of a part, but not of the whole, is read of a part of a reached value. -/
theorem reading_of_part {p : Bytes} {d : String} (hp : p <+: b.bytes) (h : sniffHttp p = some d) :
    p = b.bytes ∨ beginsWithHttpMethod b.bytes = true ∧
      ∃ v, b.Reached v ∧ ∃ w, w <+: v ∧ hostNamed w = some d := by
  rcases prefix_lines hp with hall | ⟨before, line, after, w, hlines, hw, rfl⟩
  · exact .inl hall
  right
  have hlf : (0x0a : UInt8) ∉ w := by
    have hline : line ∈ b.lines := by
      rw [hlines]
      simp
    exact fun h => b.lf_notMem hline (hw.subset h)
  obtain ⟨hbegins, hread, v, hlast, hd⟩ := sniffHttp_eq_some.mp h
  cases before with
  | nil =>
    rw [hostValues, List.flatMap_nil, List.nil_append, List.splitOn_eq_singleton hlf] at hlast
    cases hlast
  | cons first before =>
    obtain ⟨rfl, hheaders⟩ := List.cons.inj hlines
    have hfront : before <+: b.headers := by
      rcases List.prefix_concat_iff.mp ⟨line :: after, hheaders.symm⟩ with rfl | hfront
      · have hlen := congrArg List.length hheaders
        simp at hlen
      · exact hfront
    have hbytes : (b.requestLine :: before).flatMap (· ++ [0x0a]) ++ w =
        b.requestLine ++ 0x0a :: (before.flatMap (· ++ [0x0a]) ++ w) := by
      simp
    rw [hbytes] at hbegins hread hlast
    rw [b.hostValues_part hfront hlf] at hread hlast
    have hrest : before.flatMap (· ++ [0x0a]) ++ w ≠ [] := by
      intro hempty
      obtain ⟨hbefore, rfl⟩ := List.append_eq_nil_iff.mp hempty
      cases before with
      | nil => cases hlast
      | cons line before => simp at hbefore
    rw [b.begins_part hrest] at hbegins
    refine ⟨hbegins, ?_⟩
    cases hvalue : hostValue w with
    | none =>
      rw [hvalue, Option.toList_none, List.append_nil] at hread hlast
      exact ⟨v, b.reached_of_whole hfront hlast hread, v, List.prefix_refl _, hd⟩
    | some v' =>
      rw [hvalue, Option.toList_some, List.getLast?_concat] at hlast
      obtain rfl := Option.some.inj hlast
      obtain ⟨whole, hwhole, hpart⟩ := hostValue_part hw hvalue
      have hbefore := fun v hv => hread v (List.mem_append_left _ hv)
      exact ⟨whole, b.reached_of_cut hheaders hwhole hbefore, v', hpart, hd⟩

/-- The values that are reached name one host at most, however they are cut; if they name
one, so does the last of them, and all of them are UTF-8. -/
def Steady : Prop :=
  ∃ x : Option String, (∀ v, b.Reached v → SteadyValue x v) ∧ ∀ d, x = some d →
    b.Readable ∧ ∃ v host, b.hosts.getLast? = some v ∧ HostIn v host ∧ d = lowercase (.ofList host)

theorem sniffHttp_bytes {d : String} : sniffHttp b.bytes = some d ↔
    beginsWithHttpMethod b.bytes = true ∧ b.Readable ∧
      ∃ v host, b.hosts.getLast? = some v ∧ HostIn v host ∧ d = lowercase (.ofList host) := by
  simp only [sniffHttp_eq_some, b.hostValues_bytes, hostNamed_eq_some, Readable, exists_and_left]

/-- **The parts of a request.** -/
theorem sniffHttp_part_iff :
    (∀ p, p <+: b.bytes → sniffHttp p = none ∨ sniffHttp p = sniffHttp b.bytes) ↔
      beginsWithHttpMethod b.bytes = false ∨ b.Steady := by
  constructor
  · intro h
    cases hbegins : beginsWithHttpMethod b.bytes with
    | false => exact .inl rfl
    | true =>
      refine .inr ⟨sniffHttp b.bytes,
        fun v hv => steadyValue_iff.mpr fun w hw => ?_, fun d hd => ?_⟩
      · obtain ⟨p, hp, hread⟩ := b.exists_reading hbegins hv hw
        rw [← hread]
        exact h p hp
      · exact (b.sniffHttp_bytes.mp hd).2
  · intro h p hp
    cases hd : sniffHttp p with
    | none => exact .inl rfl
    | some d =>
      right
      rcases b.reading_of_part hp hd with rfl | ⟨hbegins, v, hv, w, hw, hnamed⟩
      · exact hd.symm
      · obtain ⟨x, hsteady, hx⟩ := h.resolve_left (by rw [hbegins]; decide)
        have hsome : x = some d := by
          rcases steadyValue_iff.mp (hsteady v hv) w hw with hnone | hsame
          · cases hnone.symm.trans hnamed
          · exact hsame.symm.trans hnamed
        exact (b.sniffHttp_bytes.mpr ⟨hbegins, hx d hsome⟩).symm

end HeaderBlock

/-! ## Messages -/

/-- What a client begins with: a handshake record, or the header block of a request. -/
inductive Message
  | handshake (minor : UInt8) (hello : Bytes) (fits : hello.length < 65536)
  | request (b : HeaderBlock)

/-- Its bytes. -/
def Message.bytes : Message → Bytes
  | .handshake minor hello _ => tlsRecord minor hello
  | .request b => b.bytes

/-- The messages that may arrive in pieces. -/
def Message.Steady : Message → Prop
  | .handshake .. => True
  | .request b => beginsWithHttpMethod b.bytes = false ∨ b.Steady

/-- Nothing that begins like a record is a request. -/
theorem sniffHttp_handshake (rest : Bytes) : sniffHttp (0x16 :: rest) = none := by
  refine Option.eq_none_iff_forall_ne_some.mpr fun d hd => ?_
  obtain ⟨hbegins, -⟩ := sniffHttp_eq_some.mp hd
  obtain ⟨m, hmem, hle, heq⟩ := exists_of_beginsWithMethod hbegins
  -- a method begins with a letter
  have hletter : ∃ b, ((asBytes m).map lowerByte).head? = some b ∧ b ≠ lowerByte 0x16 := by
    clear hle heq
    revert m
    decide
  obtain ⟨b, hhead, hne⟩ := hletter
  rw [eqIgnoreAsciiCase, beq_iff_eq] at heq
  rw [← heq, List.head?_map, List.head?_take] at hhead
  split at hhead
  · cases hhead
  · exact hne (Option.some.inj hhead).symm

/-- A target is overridden by what is sniffed alone. -/
theorem sniffOverride_of_sniff {p m : Bytes} (h : sniff p = none ∨ sniff p = sniff m)
    (target : Destination) :
    sniffOverride target p = target ∨ sniffOverride target p = sniffOverride target m := by
  cases hp : sniff p with
  | none => exact .inl (sniffOverride_of_none hp)
  | some found =>
    obtain ⟨protocol, domain⟩ := found
    rw [hp] at h
    have hm := (h.resolve_left (Option.some_ne_none _)).symm
    cases hip : target.address.isIp with
    | false =>
      left
      unfold sniffOverride
      simp [hip]
    | true =>
      right
      rw [sniffOverride_of_some hip hp, sniffOverride_of_some hip hm]

/-- **No name from a message that has not arrived whole.**  Every part of a message names
what the whole one names, or nobody, and a target is overridden by nothing else, if and
only if the message is a handshake, or a request whose `Host` values are steady. -/
theorem sniff_part_iff (m : Message) :
    (∀ p, p <+: m.bytes → (sniff p = none ∨ sniff p = sniff m.bytes) ∧
      ∀ target, sniffOverride target p = target ∨
        sniffOverride target p = sniffOverride target m.bytes) ↔
      m.Steady := by
  suffices hsniff : (∀ p, p <+: m.bytes → sniff p = none ∨ sniff p = sniff m.bytes) ↔ m.Steady by
    rw [← hsniff]
    constructor
    · exact fun h p hp => (h p hp).1
    · exact fun h p hp => ⟨h p hp, sniffOverride_of_sniff (h p hp)⟩
  cases m with
  | handshake minor hello fits =>
    refine iff_of_true (fun p hp => ?_) trivial
    by_cases hall : p = tlsRecord minor hello
    · exact .inr (congrArg sniff hall)
    · left
      cases p with
      | nil => rfl
      | cons c rest =>
        rw [sniff, sniffTls_part fits hp hall]
        obtain ⟨rfl, -⟩ := List.cons_prefix_cons.mp hp
        rw [sniffHttp_handshake]
  | request b =>
    have hsniff : ∀ p, p <+: b.bytes → sniff p = (sniffHttp p).map (SniffedProtocol.http, ·) := by
      intro p hp
      rw [sniff, b.sniffTls_of_prefix [] (by rwa [List.append_nil])]
      cases sniffHttp p <;> rfl
    show (∀ p, p <+: b.bytes → sniff p = none ∨ sniff p = sniff b.bytes) ↔ _
    rw [Message.Steady, ← b.sniffHttp_part_iff]
    refine forall_congr' fun p => imp_congr_right fun hp => ?_
    rw [hsniff p hp, hsniff b.bytes (List.prefix_refl _), Option.map_eq_none_iff]
    refine or_congr_right (Option.map_injective fun d d' h => ?_).eq_iff
    exact congrArg Prod.snd h

/-- The header block of a request for `example.com`. -/
def exampleBlock : HeaderBlock :=
  { postBlock with
    requestLine := asBytes "GET / HTTP/1.1\r"
    headers := [asBytes "Host: example.com\r"]
    method := ⟨0x47, by decide, by decide⟩
    no_lf := by decide
    headers_ne := by decide }

/-- A part of it names somebody else. -/
theorem sniff_part_names_other :
    asBytes "GET / HTTP/1.1\r\nHost: exam" <+: (Message.request exampleBlock).bytes ∧
      sniff (Message.request exampleBlock).bytes = some (.http, "example.com") ∧
      sniff (asBytes "GET / HTTP/1.1\r\nHost: exam") = some (.http, "exam") ∧
      (sniffOverride (.tcp (.ip (.v4 #v[10, 0, 0, 1])) 80)
        (asBytes "GET / HTTP/1.1\r\nHost: exam")).address =
        .domain "exam" := by
  decide

end XrayRs
