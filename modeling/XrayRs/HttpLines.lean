import XrayRs.Delimited
import XrayRs.HostValues
import XrayRs.InboundHeaders
import XrayRs.LineBreaks

/-! # The lines of an HTTP head

What `find_crlfcrlf` and `text.split("\r\n")` (`proxy/src/http.rs`) make of the bytes
before a body.  The lines of the text are the lines of its bytes (`splitLines_textBytes`),
and the first blank line is the one behind the last header line, whatever follows it
(`findCrlfCrlf_intercalate`, `lines_of_findCrlfCrlf`). -/

namespace XrayRs.Http

open ByteWords Delimited LineBreaks Text

/-- A line break. -/
def crlf : Bytes := [0x0d, 0x0a]

/-- `str::as_bytes` of a piece of text. -/
def textBytes (s : List Char) : Bytes := asBytes (.ofList s)

/-! ## The lines of the text are the lines of the bytes -/

theorem textBytes_cons (c : Char) (s : List Char) :
    textBytes (c :: s) = String.utf8EncodeChar c ++ textBytes s := by
  rw [textBytes, textBytes, asBytes_ofList, asBytes_ofList, List.flatMap_cons]

theorem textBytes_append (s t : List Char) : textBytes (s ++ t) = textBytes s ++ textBytes t := by
  rw [textBytes, textBytes, textBytes, asBytes_ofList, asBytes_ofList, asBytes_ofList,
    List.flatMap_append]

theorem textBytes_toList (s : String) : textBytes s.toList = asBytes s := by
  rw [textBytes, String.ofList_toList]

theorem textBytes_eq_nil {s : List Char} : textBytes s = [] ↔ s = [] := by
  cases s with
  | nil => exact ⟨fun _ => rfl, fun _ => rfl⟩
  | cons c s =>
    rw [textBytes_cons]
    simp

/-- A character that is no break leaves its bytes to the first line. -/
theorem splitLines_utf8EncodeChar {c : Char} {s : List Char}
    (h : ¬StartsBroken '\r' '\n' (c :: s)) :
    splitLines 0x0d 0x0a (textBytes (c :: s)) =
      (splitLines 0x0d 0x0a (textBytes s)).modifyHead (String.utf8EncodeChar c ++ ·) := by
  rw [textBytes_cons]
  by_cases hc : c = '\r'
  · subst hc
    -- the next byte would be the one of a line feed
    have hstart : ¬StartsBroken 0x0d 0x0a (0x0d :: textBytes s) := by
      cases s with
      | nil => exact id
      | cons d s =>
        rw [textBytes_cons]
        obtain ⟨b, bs, hbytes⟩ := List.exists_cons_of_ne_nil (utf8EncodeChar_ne_nil d)
        rw [hbytes]
        rintro ⟨-, rfl⟩
        have hmem : UInt8.ofNat '\n'.val.toNat ∈ String.utf8EncodeChar d := by
          rw [hbytes]
          exact List.mem_cons_self ..
        exact h ⟨rfl, eq_of_mem_utf8EncodeChar (by decide) hmem⟩
    exact splitLines_cons hstart
  · refine splitLines_append_of_not_mem (fun hmem => hc ?_) (textBytes s)
    exact eq_of_mem_utf8EncodeChar (d := '\r') (by decide) hmem

/-- **The lines of a text are the lines of its bytes.** -/
theorem splitLines_textBytes (s : List Char) :
    splitLines 0x0d 0x0a (textBytes s) = (splitLines '\r' '\n' s).map textBytes := by
  fun_induction splitLines '\r' '\n' s with
  | case1 => rfl
  | case2 c =>
    rw [splitLines_utf8EncodeChar id]
    simp [textBytes_cons, show textBytes [] = [] from rfl, splitLines]
  | case3 c d s hbreak ih =>
    obtain ⟨rfl, rfl⟩ := hbreak
    rw [textBytes_cons, textBytes_cons]
    exact (splitLines_break (textBytes s)).trans (by rw [ih]; rfl)
  | case4 c d s hbreak ih =>
    rw [splitLines_utf8EncodeChar (by rwa [StartsBroken]), ih]
    obtain ⟨line, lines, hrest⟩ := exists_splitLines '\r' '\n' (d :: s)
    rw [hrest, List.modifyHead_cons, List.map_cons, List.map_cons, List.modifyHead_cons,
      textBytes_cons]

/-- A line of text is a line of bytes. -/
theorem unbroken_textBytes {s : List Char} :
    Unbroken 0x0d 0x0a (textBytes s) ↔ Unbroken '\r' '\n' s := by
  have hsplit := splitLines_textBytes s
  constructor
  · intro h
    rw [splitLines_of_unbroken h] at hsplit
    obtain ⟨line, hlines, -⟩ := List.map_eq_singleton_iff.mp hsplit.symm
    have hjoin : ['\r', '\n'].intercalate (splitLines '\r' '\n' s) = s := intercalate_splitLines s
    rw [hlines, List.intercalate_singleton] at hjoin
    refine unbroken_of_mem_splitLines (s := s) ?_
    rw [hlines, hjoin]
    exact List.mem_singleton_self s
  · intro h
    rw [splitLines_of_unbroken h] at hsplit
    refine unbroken_of_mem_splitLines (s := textBytes s) ?_
    rw [hsplit]
    exact List.mem_singleton_self _

/-! ## The blank line -/

theorem findCrlfCrlf_cons {c : UInt8} {b : Bytes} (h : ¬StartsBroken 0x0d 0x0a (c :: b)) :
    findCrlfCrlf (c :: b) = (findCrlfCrlf b).map (· + 1) := by
  rw [findCrlfCrlf, if_neg]
  intro htake
  cases b with
  | nil => cases htake
  | cons d b =>
    obtain ⟨rfl, rfl, -⟩ : c = 0x0d ∧ d = 0x0a ∧ b.take 2 = [0x0d, 0x0a] := by
      simpa using htake
    exact h ⟨rfl, rfl⟩

/-- A line in front of a break with no blank line behind it. -/
theorem findCrlfCrlf_next {line t : Bytes} (h : Unbroken 0x0d 0x0a line)
    (ht : ¬StartsBroken 0x0d 0x0a t) :
    findCrlfCrlf (line ++ 0x0d :: 0x0a :: t) =
      (findCrlfCrlf t).map (· + (line.length + 2)) := by
  induction line with
  | nil =>
    have hmiss : (0x0d :: 0x0a :: t).take 4 ≠ [0x0d, 0x0a, 0x0d, 0x0a] := by
      intro htake
      match t, ht with
      | [], _ => cases htake
      | [_], _ => cases htake
      | c :: d :: t, ht => exact ht (by simpa [StartsBroken] using htake)
    rw [List.nil_append, findCrlfCrlf, if_neg hmiss,
      findCrlfCrlf_cons (by cases t <;> simp [StartsBroken]),
      Option.map_map]
    rfl
  | cons c line ih =>
    have hstart := not_startsBroken_append (by decide) h (List.cons_ne_nil _ _) (0x0a :: t)
    rw [List.cons_append] at hstart ⊢
    rw [findCrlfCrlf_cons hstart, ih h.tail, Option.map_map]
    rfl

/-- A line in front of a blank one. -/
theorem findCrlfCrlf_blank {line : Bytes} (h : Unbroken 0x0d 0x0a line) (t : Bytes) :
    findCrlfCrlf (line ++ 0x0d :: 0x0a :: 0x0d :: 0x0a :: t) = some line.length := by
  induction line with
  | nil => rfl
  | cons c line ih =>
    have hstart := not_startsBroken_append (by decide) h (List.cons_ne_nil _ _)
      (0x0a :: 0x0d :: 0x0a :: t)
    rw [List.cons_append] at hstart ⊢
    rw [findCrlfCrlf_cons hstart, ih h.tail]
    rfl

/-- **The blank line is found behind the last line.** -/
theorem findCrlfCrlf_intercalate {line : Bytes} {lines : List Bytes}
    (h : ∀ l ∈ line :: lines, Unbroken 0x0d 0x0a l) (hne : ∀ l ∈ lines, l ≠ []) (t : Bytes) :
    findCrlfCrlf (crlf.intercalate (line :: lines) ++ 0x0d :: 0x0a :: 0x0d :: 0x0a :: t) =
      some (crlf.intercalate (line :: lines)).length := by
  induction lines generalizing line with
  | nil =>
    rw [List.intercalate_singleton]
    exact findCrlfCrlf_blank (h line (List.mem_singleton_self _)) t
  | cons next lines ih =>
    obtain ⟨hline, hrest⟩ := List.forall_mem_cons.mp h
    obtain ⟨hnext, hlines⟩ := List.forall_mem_cons.mp hne
    have hstart : ¬StartsBroken 0x0d 0x0a
        (crlf.intercalate (next :: lines) ++ 0x0d :: 0x0a :: 0x0d :: 0x0a :: t) := by
      have hnext' : ∀ t, ¬StartsBroken 0x0d 0x0a (next ++ 0x0d :: t) :=
        not_startsBroken_append (by decide) (hrest next (List.mem_cons_self ..)) hnext
      cases lines with
      | nil =>
        rw [List.intercalate_singleton]
        exact hnext' _
      | cons last lines =>
        rw [List.intercalate_cons_cons, List.append_assoc, List.append_assoc]
        exact hnext' _
    have hsplit := findCrlfCrlf_next hline hstart
    rw [ih hrest hlines] at hsplit
    rw [List.intercalate_cons_cons, List.append_assoc, List.append_assoc]
    refine hsplit.trans ?_
    simp [crlf]
    omega

theorem take_of_findCrlfCrlf {b : Bytes} {idx : Nat} (h : findCrlfCrlf b = some idx) :
    b.take (idx + 4) = b.take idx ++ crlf ++ crlf := by
  induction b generalizing idx with
  | nil => cases h
  | cons c b ih =>
    rw [findCrlfCrlf] at h
    split at h
    · next htake =>
      cases h
      exact htake
    · obtain ⟨i, hi, rfl⟩ := Option.map_eq_some_iff.mp h
      rw [show i + 1 + 4 = (i + 4) + 1 by omega, List.take_succ_cons, ih hi]
      rfl

/-- A blank line among the lines is found before the one behind the last line. -/
theorem findCrlfCrlf_lt {line : Bytes} {lines : List Bytes}
    (h : ∀ l ∈ line :: lines, Unbroken 0x0d 0x0a l) (hmem : [] ∈ lines) :
    ∃ i < (crlf.intercalate (line :: lines)).length,
      findCrlfCrlf (crlf.intercalate (line :: lines) ++ crlf ++ crlf) = some i := by
  obtain ⟨before, after, rfl, hbefore⟩ := List.eq_append_cons_of_mem hmem
  have hself := intercalate_append_self crlf (List.cons_ne_nil line before)
  have hself' := intercalate_append_self crlf (List.cons_ne_nil line (before ++ [] :: after))
  rw [← List.cons_append, List.flatMap_append, ← hself] at hself'
  have hunbroken : ∀ l ∈ line :: before, Unbroken 0x0d 0x0a l := fun l hl =>
    h l (List.mem_append_left (([] : Bytes) :: after) hl)
  have hfirst := findCrlfCrlf_intercalate hunbroken (fun l hl hnil => hbefore (hnil ▸ hl))
    (after.flatMap (· ++ crlf) ++ crlf)
  refine ⟨(crlf.intercalate (line :: before)).length, ?_, ?_⟩
  · have hlength := congrArg List.length hself'
    simp only [List.length_append, List.flatMap_cons, crlf, List.length_cons, List.length_nil]
      at hlength
    rw [← List.cons_append]
    simp only [crlf]
    omega
  · rw [← hfirst, ← List.cons_append, hself']
    simp [crlf]

/-- **A head that was found is lines and a blank line.** -/
theorem lines_of_findCrlfCrlf {b : Bytes} {idx : Nat} (h : findCrlfCrlf b = some idx) :
    ∃ line lines, b.take idx = crlf.intercalate (line :: lines) ∧
      (∀ l ∈ line :: lines, Unbroken 0x0d 0x0a l) ∧ ∀ l ∈ lines, l ≠ [] := by
  have htake := take_of_findCrlfCrlf h
  obtain ⟨hle, hfound⟩ := findCrlfCrlf_take h
  have hlength : (b.take idx).length = idx := by
    rw [List.length_take]
    omega
  obtain ⟨line, lines, hsplit⟩ := exists_splitLines 0x0d 0x0a (b.take idx)
  have hjoin : crlf.intercalate (line :: lines) = b.take idx := by
    rw [← hsplit]
    exact intercalate_splitLines _
  have hunbroken : ∀ l ∈ line :: lines, Unbroken 0x0d 0x0a l := by
    rw [← hsplit]
    exact fun l hl => unbroken_of_mem_splitLines hl
  refine ⟨line, lines, hjoin.symm, hunbroken, fun l hl hnil => ?_⟩
  subst hnil
  obtain ⟨i, hlt, hfirst⟩ := findCrlfCrlf_lt hunbroken hl
  have hidx := hfound []
  rw [List.append_nil, htake, ← hjoin, hfirst, Option.some.injEq] at hidx
  rw [hjoin, hlength] at hlt
  omega

/-- **The lines of a head** are the ones before the blank line, and two empty ones. -/
theorem splitLines_of_findCrlfCrlf {b : Bytes} {idx : Nat} (h : findCrlfCrlf b = some idx) :
    ∃ line lines, b.take (idx + 4) = crlf.intercalate (line :: lines) ++ crlf ++ crlf ∧
      splitLines 0x0d 0x0a (b.take (idx + 4)) = line :: (lines ++ [[], []]) ∧
      (∀ l ∈ line :: lines, Unbroken 0x0d 0x0a l) ∧ ∀ l ∈ lines, l ≠ [] := by
  obtain ⟨line, lines, hlines, hunbroken, hne⟩ := lines_of_findCrlfCrlf h
  have hhead := take_of_findCrlfCrlf h
  rw [hlines] at hhead
  refine ⟨line, lines, hhead, ?_, hunbroken, hne⟩
  have hjoin : b.take (idx + 4) = crlf.intercalate ((line :: lines) ++ [[], []]) := by
    have hself := intercalate_append_self crlf (List.cons_ne_nil line (lines ++ [[], []]))
    rw [← List.cons_append, List.flatMap_append,
      ← intercalate_append_self crlf (List.cons_ne_nil _ _)] at hself
    have hbreak : b.take (idx + 4) ++ crlf =
        crlf.intercalate ((line :: lines) ++ [[], []]) ++ crlf := by
      rw [hself, hhead]
      simp
    exact List.append_cancel_right hbreak
  rw [hjoin]
  refine splitLines_intercalate (by decide) (List.cons_ne_nil _ _) fun l hl => ?_
  rcases List.mem_append.mp hl with hl | hl
  · exact hunbroken l hl
  · obtain rfl : l = [] := by simpa using hl
    trivial

/-! ## Requests -/

/-- A request with a request line and header lines. -/
def encodeRequest (requestLine : List Char) (lines : List (List Char)) : Bytes :=
  textBytes (['\r', '\n'].intercalate (requestLine :: (lines ++ [[], []])))

section
variable {requestLine : List Char} {lines : List (List Char)}
  (hline : Unbroken '\r' '\n' requestLine)
  (hlines : ∀ l ∈ lines, Unbroken '\r' '\n' l ∧ l ≠ [])
include hline hlines

theorem splitLines_encodeRequest :
    splitLines '\r' '\n' (['\r', '\n'].intercalate (requestLine :: (lines ++ [[], []]))) =
      requestLine :: (lines ++ [[], []]) := by
  refine splitLines_intercalate (by decide) (List.cons_ne_nil _ _) fun l hl => ?_
  rcases List.mem_cons.mp hl with rfl | hl
  · exact hline
  · rcases List.mem_append.mp hl with hl | hl
    · exact (hlines l hl).1
    · obtain rfl : l = [] := by simpa using hl
      trivial

/-- A request is a head, but for its length. -/
theorem findCrlfCrlf_encodeRequest :
    ∃ idx, findCrlfCrlf (encodeRequest requestLine lines) = some idx ∧
      idx + 4 = (encodeRequest requestLine lines).length := by
  have hbytes : encodeRequest requestLine lines =
      crlf.intercalate ((requestLine :: lines).map textBytes) ++ crlf ++ crlf := by
    have hsplit := splitLines_textBytes
      (['\r', '\n'].intercalate (requestLine :: (lines ++ [[], []])))
    rw [splitLines_encodeRequest hline hlines] at hsplit
    have hjoin : crlf.intercalate (splitLines 0x0d 0x0a (encodeRequest requestLine lines)) =
      encodeRequest requestLine lines := intercalate_splitLines _
    rw [encodeRequest, hsplit, ← List.cons_append, List.map_append,
      intercalate_append crlf (by simp) (show [[], []].map textBytes ≠ [] by simp)] at hjoin
    refine hjoin.symm.trans ?_
    simp [crlf, show textBytes [] = [] from rfl]
  have hunbroken : ∀ l ∈ textBytes requestLine :: lines.map textBytes, Unbroken 0x0d 0x0a l := by
    intro l hl
    rcases List.mem_cons.mp hl with rfl | hl
    · exact unbroken_textBytes.mpr hline
    · obtain ⟨text, htext, rfl⟩ := List.mem_map.mp hl
      exact unbroken_textBytes.mpr (hlines text htext).1
  have hne : ∀ l ∈ lines.map textBytes, l ≠ [] := by
    intro l hl
    obtain ⟨text, htext, rfl⟩ := List.mem_map.mp hl
    exact fun hnil => (hlines text htext).2 (textBytes_eq_nil.mp hnil)
  refine ⟨(crlf.intercalate (textBytes requestLine :: lines.map textBytes)).length, ?_, ?_⟩
  · rw [hbytes, List.append_assoc]
    exact findCrlfCrlf_intercalate hunbroken hne []
  · rw [hbytes]
    simp [crlf]

end

end XrayRs.Http
