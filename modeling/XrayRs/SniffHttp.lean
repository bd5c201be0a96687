import XrayRs.SniffTls

/-! # The header block of a request

`sniff_http` (`kernel/src/route/sniff.rs`) splits what it gets at line feeds and looks for
`Host` lines up to the first empty one.  What it finds is said by the values of these
lines: none if one of them is not UTF-8, else the host that the last one names
(`sniffHttp_eq_some`).

The blank line that ends the header block of a request is empty only if it is a bare line
feed.  Behind the usual blank line the sniffer reads on in the body
(`sniffHttp_header_only_iff`). -/

namespace XrayRs

open ByteWords Text

/-! ## The values of the `Host` lines -/

/-- The value of a `Host` line. -/
def hostValue (line : Bytes) : Option Bytes :=
  match line.idxOf? 0x3a with
  | none => none
  | some colon =>
    if eqIgnoreAsciiCase (line.take colon) (asBytes "host") then some
      (line.drop (colon + 1)) else none

/-- The lines up to the first empty one. -/
def headerLines (lines : List Bytes) : List Bytes := lines.takeWhile (· ≠ [])

/-- The values of the `Host` lines that the sniffer looks at. -/
def hostValues (payload : Bytes) : List Bytes :=
  (headerLines (payload.splitOn 0x0a).tail).filterMap hostValue

/-- The text of a value, where it is UTF-8. -/
def valueText (v : Bytes) : Option String := fromUtf8 (trimAscii v)

/-- The host that a value names, where it names one. -/
def hostNamed (v : Bytes) : Option String :=
  (valueText v).bind fun raw => (stripPort (lowercase raw)).filter (!·.isEmpty)

/-- The loop of `sniff_http`, on the values alone. -/
def readValues (host : Option String) : List Bytes → Option (Option String)
  | [] => some host
  | v :: vs => (valueText v).bind fun raw => readValues (stripPort (lowercase raw)) vs

/-- A `Host` line: the word, a colon and the value. -/
theorem hostValue_eq_some {line v : Bytes} : hostValue line = some v ↔
    ∃ key : Bytes, line = key ++ 0x3a :: v ∧ 0x3a ∉ key ∧
      eqIgnoreAsciiCase key (asBytes "host") = true := by
  unfold hostValue
  constructor
  · intro h
    split at h
    · cases h
    · next colon hcolon =>
      obtain ⟨hlt, heq, hbefore⟩ := List.idxOf?_eq_some_iff.mp hcolon
      by_cases hkey : eqIgnoreAsciiCase (line.take colon) (asBytes "host") = true
      · rw [if_pos hkey] at h
        refine ⟨line.take colon, ?_, ?_, hkey⟩
        · rw [← Option.some.inj h, ← heq, ← List.drop_eq_getElem_cons hlt, List.take_append_drop]
        · intro hmem
          obtain ⟨j, hj, hget⟩ := List.mem_take_iff_getElem.mp hmem
          exact hbefore j (by omega) hget
      · rw [if_neg hkey] at h
        cases h
  · rintro ⟨key, rfl, hmem, hkey⟩
    have hcolon : (key ++ 0x3a :: v).idxOf? 0x3a = some key.length := by
      refine List.idxOf?_eq_some_iff.mpr ⟨by simp, by simp, ?_⟩
      intro j hj hget
      rw [List.getElem_append_left hj] at hget
      exact hmem (hget ▸ List.getElem_mem hj)
    rw [hcolon]
    simp [hkey]

section Lines

variable {host : Option String} {line : Bytes} {lines : List Bytes}

theorem readHost_cons (hline : line ≠ []) :
    readHost host (line :: lines) =
      match hostValue line with
      | none => readHost host lines
      | some v => (valueText v).bind fun raw => readHost (stripPort (lowercase raw)) lines := by
  rw [readHost, if_neg hline]
  unfold hostValue
  cases line.idxOf? 0x3a with
  | none => rfl
  | some colon =>
    dsimp only
    split
    · dsimp only
      unfold valueText
      cases fromUtf8 (trimAscii (line.drop (colon + 1))) <;> rfl
    · rfl

theorem readHost_eq (host : Option String) (lines : List Bytes) :
    readHost host lines = readValues host ((headerLines lines).filterMap hostValue) := by
  induction lines generalizing host with
  | nil => rfl
  | cons line lines ih =>
    by_cases hline : line = []
    · subst hline
      simp [readHost, headerLines, readValues]
    · have hlines : headerLines (line :: lines) = line :: headerLines lines := by
        simp [headerLines, hline]
      rw [readHost_cons hline, hlines, List.filterMap_cons]
      cases hostValue line with
      | none => exact ih host
      | some v =>
        simp only [readValues]
        congr 1
        funext raw
        exact ih _

/-- What the loop ends with: nothing if a value is not UTF-8, else what the last one says. -/
theorem readValues_eq_some {vs : List Bytes} {result : Option String} :
    readValues host vs = some result ↔ (∀ v ∈ vs, (valueText v).isSome) ∧
      result = match vs.getLast? with
        | none => host
        | some v => (valueText v).bind fun raw => stripPort (lowercase raw) := by
  induction vs generalizing host with
  | nil =>
    constructor
    · intro h
      exact ⟨fun _ hv => absurd hv List.not_mem_nil, (Option.some.inj h).symm⟩
    · rintro ⟨-, rfl⟩
      rfl
  | cons v vs ih =>
    rw [readValues, List.forall_mem_cons]
    cases hv : valueText v with
    | none => simp
    | some raw =>
      rw [Option.bind_some, ih]
      cases vs with
      | nil => simp [hv]
      | cons v' vs =>
        rw [List.getLast?_cons_cons, List.getLast?_cons]
        simp

/-- **What the sniffer finds in a request.** -/
theorem sniffHttp_eq_some {payload : Bytes} {d : String} :
    sniffHttp payload = some d ↔ beginsWithHttpMethod payload = true ∧
      (∀ v ∈ hostValues payload, (valueText v).isSome) ∧
        ∃ v, (hostValues payload).getLast? = some v ∧ hostNamed v = some d := by
  unfold sniffHttp
  cases hbegins : beginsWithHttpMethod payload with
  | false => simp
  | true =>
    simp only [Bool.not_true, Bool.false_eq_true, if_false, true_and]
    rw [readHost_eq, ← hostValues]
    constructor
    · intro h
      split at h
      · next result hread =>
        obtain ⟨hall, hresult⟩ := readValues_eq_some.mp hread
        split at h
        · cases h
        · next hne =>
          obtain rfl := Option.some.inj h
          refine ⟨hall, ?_⟩
          cases hlast : (hostValues payload).getLast? with
          | none =>
            rw [hlast] at hresult
            cases hresult
          | some v =>
            rw [hlast] at hresult
            obtain ⟨raw, hraw, hstrip⟩ := Option.bind_eq_some_iff.mp hresult.symm
            refine ⟨v, rfl, ?_⟩
            simp [hostNamed, hraw, hstrip, hne]
      · cases h
    · rintro ⟨hall, v, hlast, hnamed⟩
      obtain ⟨raw, hraw, hfilter⟩ := Option.bind_eq_some_iff.mp hnamed
      obtain ⟨hstrip, hne⟩ := Option.filter_eq_some_iff.mp hfilter
      have hread : readValues none (hostValues payload) = some (some d) := by
        refine readValues_eq_some.mpr ⟨hall, ?_⟩
        rw [hlast]
        simp [hraw, hstrip]
      rw [hread]
      simpa using hne

end Lines

/-! ## The method -/

/-- The buffer begins with the method. -/
def StartsWith (m : String) (b : Bytes) : Prop :=
  (asBytes m).length ≤ b.length ∧ eqIgnoreAsciiCase (b.take (asBytes m).length) (asBytes m) = true

theorem exists_of_beginsWithMethod {b : Bytes} {ms : List String}
    (h : beginsWithMethod b ms = true) :
    ∃ m ∈ ms, StartsWith m b := by
  induction ms with
  | nil => cases h
  | cons m ms ih =>
    unfold beginsWithMethod at h
    by_cases hm : ((asBytes m).length ≤ b.length &&
        eqIgnoreAsciiCase (b.take (asBytes m).length) (asBytes m)) = true
    · rw [Bool.and_eq_true, decide_eq_true_eq] at hm
      exact ⟨m, List.mem_cons_self, hm⟩
    · -- a buffer shorter than this method stops the search
      simp only [if_neg hm] at h
      by_cases hshort : b.length < (asBytes m).length
      · rw [if_pos hshort] at h
        cases h
      · rw [if_neg hshort] at h
        obtain ⟨m', hmem, hm'⟩ := ih h
        exact ⟨m', List.mem_cons_of_mem m hmem, hm'⟩

/-- The methods before one in the list are not much longer. -/
theorem httpMethods_pairwise :
    httpMethods.Pairwise fun m m' => (asBytes m).length ≤ (asBytes m').length + 1 := by
  decide

/-- A buffer with a byte more than its method is not too short for the ones before. -/
theorem beginsWithMethod_of_startsWith {b : Bytes} {ms : List String} {m : String}
    (hms : ms.Pairwise fun m m' => (asBytes m).length ≤ (asBytes m').length + 1) (hmem : m ∈ ms)
    (hm : StartsWith m b) (hlong : (asBytes m).length + 1 ≤ b.length) :
    beginsWithMethod b ms = true := by
  induction ms with
  | nil => cases hmem
  | cons m' ms ih =>
    obtain ⟨hfirst, hrest⟩ := List.pairwise_cons.mp hms
    unfold beginsWithMethod
    dsimp only
    split
    · rfl
    · next hno =>
      rcases List.mem_cons.mp hmem with rfl | hmem
      · exact absurd (by rw [Bool.and_eq_true, decide_eq_true_eq]; exact hm) hno
      · have hle := hfirst m hmem
        rw [if_neg (by omega)]
        exact ih hrest hmem

/-- No method has a line feed in it. -/
theorem lf_notMem_method {m : String} (h : m ∈ httpMethods) :
    (0x0a : UInt8) ∉ (asBytes m).map lowerByte := by
  revert m
  decide

/-- A method fits the first line. -/
theorem StartsWith.le_of_line {m : String} (hm : m ∈ httpMethods) {line rest : Bytes}
    (h : StartsWith m (line ++ 0x0a :: rest)) : (asBytes m).length ≤ line.length := by
  -- else the method would reach over the line feed
  by_contra hlong
  obtain ⟨hle, heq⟩ := h
  have hmem : (0x0a : UInt8) ∈ (line ++ 0x0a :: rest).take (asBytes m).length := by
    rw [List.take_append]
    obtain ⟨k, hk⟩ : ∃ k, (asBytes m).length - line.length = k + 1 :=
      ⟨(asBytes m).length - line.length - 1, by omega⟩
    rw [hk]
    simp
  have hlower := List.mem_map_of_mem (f := lowerByte) hmem
  rw [eqIgnoreAsciiCase, beq_iff_eq] at heq
  rw [heq] at hlower
  exact lf_notMem_method hm hlower

/-- **The method is read off the request line**, once there is something behind it. -/
theorem beginsWithHttpMethod_line {line rest : Bytes} (hrest : rest ≠ []) :
    beginsWithHttpMethod (line ++ 0x0a :: rest) = true ↔ ∃ m ∈ httpMethods, StartsWith m line := by
  constructor
  · intro h
    obtain ⟨m, hmem, hm⟩ := exists_of_beginsWithMethod h
    have hle := hm.le_of_line hmem
    refine ⟨m, hmem, hle, ?_⟩
    rw [← hm.2, List.take_append_of_le_length hle]
  · rintro ⟨m, hmem, hle, heq⟩
    have hpos := List.length_pos_iff.mpr hrest
    refine beginsWithMethod_of_startsWith httpMethods_pairwise hmem ⟨?_, ?_⟩ ?_
    · rw [List.length_append]
      omega
    · rw [List.take_append_of_le_length hle]
      exact heq
    · rw [List.length_append, List.length_cons]
      omega

/-! ## Header blocks -/

/-- The header block of a request: its lines, without the line feeds that end them.  In
the usual form they end with a carriage return, and the blank one is a carriage return.
The first begins with the name of a method. -/
structure HeaderBlock where
  requestLine : Bytes
  headers : List Bytes
  blank : Bytes
  method : ∃ c ∈ requestLine.head?, 0x20 < c
  no_lf : ∀ line ∈ requestLine :: headers, (0x0a : UInt8) ∉ line
  headers_ne : ∀ line ∈ headers, line ≠ [] ∧ line ≠ [0x0d]
  blank_eq : blank = [] ∨ blank = [0x0d]

namespace HeaderBlock

/-- All its lines. -/
def lines (b : HeaderBlock) : List Bytes := b.requestLine :: (b.headers ++ [b.blank])

/-- Its bytes. -/
def bytes (b : HeaderBlock) : Bytes := b.lines.flatMap (· ++ [0x0a])

/-- The values of its `Host` lines. -/
def hosts (b : HeaderBlock) : List Bytes := b.headers.filterMap hostValue

variable (b : HeaderBlock)

theorem lf_notMem {line : Bytes} (h : line ∈ b.lines) : (0x0a : UInt8) ∉ line := by
  rw [lines, ← List.cons_append] at h
  rcases List.mem_append.mp h with h | h
  · exact b.no_lf line h
  · rw [List.mem_singleton.mp h]
    rcases b.blank_eq with hblank | hblank
    · rw [hblank]
      exact List.not_mem_nil
    · rw [hblank]
      decide

end HeaderBlock

/-- Whole lines, split off. -/
theorem splitOn_lines {lines : List Bytes}
    (h : ∀ line ∈ lines, (0x0a : UInt8) ∉ line) (rest : Bytes) :
    (lines.flatMap (· ++ [0x0a]) ++ rest).splitOn 0x0a = lines ++ rest.splitOn 0x0a := by
  induction lines with
  | nil => rfl
  | cons line lines ih =>
    obtain ⟨hline, hlines⟩ := List.forall_mem_cons.mp h
    rw [List.flatMap_cons, List.append_assoc, List.append_assoc, List.singleton_append,
      List.splitOn_append_cons_self_of_not_mem hline, ih hlines, List.cons_append]

namespace HeaderBlock

variable (b : HeaderBlock) (body : Bytes)

theorem headerLines_append (lines : List Bytes) :
    headerLines (b.headers ++ lines) = b.headers ++ headerLines lines := by
  refine List.takeWhile_append_of_pos fun line hline => ?_
  simpa using (b.headers_ne line hline).1

/-- A blank line that is a bare line feed ends what the sniffer reads. -/
theorem hostValues_of_lf (h : b.blank = []) : hostValues (b.bytes ++ body) = b.hosts := by
  rw [hostValues, bytes, splitOn_lines fun _ => b.lf_notMem, lines,
    List.cons_append, List.tail_cons,
    List.append_assoc, headerLines_append, h]
  simp [headerLines, hosts]

/-- Behind any other it reads on. -/
theorem hostValues_of_cr (h : b.blank = [0x0d]) :
    hostValues (b.bytes ++ body) =
      b.hosts ++ (headerLines (body.splitOn 0x0a)).filterMap hostValue := by
  have hcr :
      headerLines ([0x0d] :: body.splitOn 0x0a) = [0x0d] :: headerLines (body.splitOn 0x0a) := by
    simp [headerLines]
  have hnone : hostValue [0x0d] = none := by decide
  rw [hostValues, bytes, splitOn_lines fun _ => b.lf_notMem, lines,
    List.cons_append, List.tail_cons,
    List.append_assoc, headerLines_append, h, List.singleton_append, hcr, List.filterMap_append,
    List.filterMap_cons, hnone, hosts]

theorem begins_append :
    beginsWithHttpMethod (b.bytes ++ body) = true ↔
      ∃ m ∈ httpMethods, StartsWith m b.requestLine := by
  rw [bytes, lines, List.flatMap_cons, List.append_assoc, List.append_assoc, List.singleton_append]
  refine beginsWithHttpMethod_line ?_
  simp

theorem begins_eq : beginsWithHttpMethod (b.bytes ++ body) = beginsWithHttpMethod b.bytes := by
  have h := b.begins_append []
  rw [List.append_nil] at h
  exact Bool.eq_iff_iff.mpr ((b.begins_append body).trans h.symm)

/-- A request is no handshake, and no part of it is. -/
theorem sniffTls_of_prefix {p : Bytes} (h : p <+: b.bytes ++ body) : sniffTls p = none := by
  obtain ⟨c, hhead, hc⟩ := b.method
  obtain ⟨line, hline⟩ := List.head?_eq_some_iff.mp hhead
  have hne : c ≠ 0x16 := by
    rintro rfl
    exact absurd hc (by decide)
  cases p with
  | nil => rfl
  | cons c' p =>
    rw [bytes, lines, List.flatMap_cons, hline, List.cons_append,
      List.cons_append, List.cons_append,
      List.cons_prefix_cons] at h
    rw [h.1]
    exact sniffTls_cons hne p

theorem sniff_append :
    sniff (b.bytes ++ body) = (sniffHttp (b.bytes ++ body)).map (SniffedProtocol.http, ·) := by
  unfold sniff
  rw [b.sniffTls_of_prefix body (List.prefix_refl _)]
  cases sniffHttp (b.bytes ++ body) <;> rfl

theorem bytes_ne : b.bytes ≠ [] := by
  rw [bytes, lines, List.flatMap_cons]
  simp

/-- The target is overridden by what `sniff_http` finds. -/
theorem sniffOverride_congr {body body' : Bytes}
    (h : sniffHttp (b.bytes ++ body) = sniffHttp (b.bytes ++ body')) (target : Destination) :
    sniffOverride target (b.bytes ++ body) = sniffOverride target (b.bytes ++ body') := by
  have hnonempty : ∀ body, (b.bytes ++ body).isEmpty = false := by
    intro body
    simp [b.bytes_ne]
  unfold sniffOverride
  rw [hnonempty, hnonempty, b.sniff_append, b.sniff_append, h]

/-- The values of all its `Host` lines are UTF-8. -/
def Readable : Prop := ∀ v ∈ b.hosts, (valueText v).isSome

/-- What the sniffer finds depends on the values of the `Host` lines. -/
theorem sniffHttp_congr {body body' : Bytes}
    (h : hostValues (b.bytes ++ body) = hostValues (b.bytes ++ body')) :
    sniffHttp (b.bytes ++ body) = sniffHttp (b.bytes ++ body') := by
  refine Option.ext fun d => ?_
  rw [sniffHttp_eq_some, sniffHttp_eq_some, h, b.begins_eq body, b.begins_eq body']

theorem hosts_prefix : b.hosts <+: hostValues (b.bytes ++ body) := by
  rcases b.blank_eq with hblank | hblank
  · rw [b.hostValues_of_lf body hblank]
  · rw [b.hostValues_of_cr body hblank]
    exact List.prefix_append _ _

/-- A value that is not UTF-8 gives up the search. -/
theorem sniffHttp_unreadable (hread : ¬ b.Readable) : sniffHttp (b.bytes ++ body) = none := by
  refine Option.eq_none_iff_forall_ne_some.mpr fun d hd => ?_
  obtain ⟨-, hall, -⟩ := sniffHttp_eq_some.mp hd
  exact hread fun v hv => hall v ((b.hosts_prefix body).subset hv)

/-- A line of the body is read behind the usual blank line, and decides. -/
theorem sniffHttp_body (hblank : b.blank = [0x0d]) (hbegins : beginsWithHttpMethod b.bytes = true)
    (hread : b.Readable) {line v : Bytes} {d : String} (hline : line ≠ [])
      (hlf : (0x0a : UInt8) ∉ line)
    (hv : hostValue line = some v) (hd : hostNamed v = some d) :
    sniffHttp (b.bytes ++ line) = some d := by
  have hvalues : hostValues (b.bytes ++ line) = b.hosts ++ [v] := by
    rw [b.hostValues_of_cr line hblank, List.splitOn_eq_singleton hlf]
    simp [headerLines, hline, hv]
  obtain ⟨raw, hraw, -⟩ := Option.bind_eq_some_iff.mp hd
  rw [sniffHttp_eq_some, hvalues, b.begins_eq]
  refine ⟨hbegins, ?_, v, List.getLast?_concat, hd⟩
  intro v' hv'
  rcases List.mem_append.mp hv' with hv' | hv'
  · exact hread v' hv'
  · rw [List.mem_singleton.mp hv', hraw]
    rfl

end HeaderBlock

/-- **Which header blocks are read alone.**  What is behind the header block changes
neither the sniffed host nor a target if, and only if, the blank line is a bare line feed,
the method is not one of those that are looked for, or a `Host` line is not UTF-8. -/
theorem sniffHttp_header_only_iff (b : HeaderBlock) :
    (∀ body, sniffHttp (b.bytes ++ body) = sniffHttp b.bytes ∧
      ∀ target, sniffOverride target (b.bytes ++ body) = sniffOverride target b.bytes) ↔
      b.blank = [] ∨ beginsWithHttpMethod b.bytes = false ∨ ¬ b.Readable := by
  have hnil : b.bytes = b.bytes ++ [] := (List.append_nil _).symm
  constructor
  · intro h
    rcases b.blank_eq with hblank | hblank
    · exact .inl hblank
    by_cases hread : b.Readable
    · right
      left
      -- two bodies that name different hosts
      by_contra hbegins
      rw [Bool.not_eq_false] at hbegins
      have hfirst : sniffHttp (b.bytes ++ asBytes "host:a") = some "a" :=
        b.sniffHttp_body hblank hbegins hread (v := asBytes "a") (by decide) (by decide)
          (by decide) (by decide)
      have hsecond : sniffHttp (b.bytes ++ asBytes "host:b") = some "b" :=
        b.sniffHttp_body hblank hbegins hread (v := asBytes "b") (by decide) (by decide)
          (by decide) (by decide)
      rw [(h _).1] at hfirst hsecond
      exact absurd (hfirst.symm.trans hsecond) (by decide)
    · exact .inr (.inr hread)
  · intro h body
    have hsame : sniffHttp (b.bytes ++ body) = sniffHttp (b.bytes ++ []) := by
      rcases h with hblank | hbegins | hread
      · refine b.sniffHttp_congr ?_
        rw [b.hostValues_of_lf body hblank, b.hostValues_of_lf [] hblank]
      · have hnone : ∀ body, sniffHttp (b.bytes ++ body) = none := by
          intro body
          simp [sniffHttp, b.begins_eq, hbegins]
        rw [hnone, hnone]
      · rw [b.sniffHttp_unreadable body hread, b.sniffHttp_unreadable [] hread]
    rw [← hnil] at hsame
    refine ⟨hsame, fun target => ?_⟩
    have hover :=
      @HeaderBlock.sniffOverride_congr b _ [] (hsame.trans (congrArg sniffHttp hnil)) target
    rwa [← hnil] at hover

/-- The header block of a request with a body. -/
def postBlock : HeaderBlock where
  requestLine := asBytes "POST / HTTP/1.1\r"
  headers := [asBytes "Host: a.b\r"]
  blank := [0x0d]
  method := ⟨0x50, by decide, by decide⟩
  no_lf := by decide
  headers_ne := by decide
  blank_eq := .inr rfl

/-- A line of its body replaces the host that the request names. -/
theorem sniffHttp_reads_body :
    sniffHttp postBlock.bytes = some "a.b" ∧
      sniffHttp (postBlock.bytes ++ asBytes "Host: evil") = some "evil" ∧
      (sniffOverride (.tcp (.ip (.v4 #v[10, 0, 0, 1])) 80) postBlock.bytes).address =
        .domain "a.b" ∧
      (sniffOverride (.tcp (.ip (.v4 #v[10, 0, 0, 1])) 80)
        (postBlock.bytes ++ asBytes "Host: evil")).address = .domain "evil" := by
  decide

end XrayRs
