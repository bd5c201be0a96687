import XrayRs.HttpForward

/-! # The host and the target of a proxied request

The two fields of the new head that `Http::decode` (`proxy/src/http.rs`) takes from an
absolute target.  The authority is what is dialled; but a client that names a host keeps
its own `Host` lines, which need not agree with it (`forwarded_host`).  And what stands
behind the authority is written as it is, which is in origin form if and only if it is
empty or a path without a fragment (`origin_form_iff`). -/

namespace XrayRs.Http

open ByteWords LineBreaks Text

section
variable {base64Decode : List Char → Option Bytes} {accounts : List HttpAccount} {ctx : Ctx}
  {reads : List Bytes} {head body : Bytes} {request : Request} {target : Destination}
  {leftover : Bytes}

/-! ## The host -/

/-- The value of a header line, trimmed. -/
def lineValue (line : List Char) : Option (List Char) :=
  (splitOnce ':' line).map fun (_, value) => trim value

theorem lineValue_hostLine (authority : List Char) :
    lineValue (hostLine authority) = some (trim authority) := by
  have hsplit :
    splitOnce ':' (hostLine authority) = some (['H', 'o', 's', 't'], ' ' :: authority) :=
    splitOnce_append (by decide : ':' ∉ ['H', 'o', 's', 't']) (' ' :: authority)
  rw [lineValue, hsplit, Option.map_some]
  exact congrArg some (trim_cons (by decide) authority)

theorem filter_isHost_originHeaders {authority path : List Char} {port : UInt16}
    (habs : splitAbsolute request.target = some (authority, path, port)) :
    request.originHeaders.filter isHost =
      if request.headers.any isHost then request.headers.filter isHost
      else [hostLine authority] := by
  have hrelayed : request.relayed.filter isHost = request.headers.filter isHost := by
    rw [Request.relayed, List.filter_filter]
    refine List.filter_congr fun line _ => ?_
    cases hline : isHost line with
    | false => rfl
    | true => simp [not_isDropped_of_isHost hline]
  have hclose : [closeLine].filter isHost = [] := by decide
  rw [Request.originHeaders, List.filter_append, List.filter_append, hrelayed, hclose,
    Request.hostLines, habs]
  by_cases hany : request.headers.any isHost = true
  · simp only [if_pos hany, List.filter_nil, List.append_nil]
  · have hnone : request.headers.filter isHost = [] := by
      rw [List.filter_eq_nil_iff]
      exact fun line hline hhost => hany (List.any_eq_true.mpr ⟨line, hline, hhost⟩)
    simp only [if_neg hany, hnone, List.filter_singleton, isHost_hostLine]
    rfl

/-- **The `Host` lines of the new head.**  For an absolute target the authority is what is
dialled.  A client that names no host gets the one line that names the authority; one that
does keeps its own lines, as they are, and no other is added: the new head names the
authority alone if and only if the client did. -/
theorem forwarded_host
    (h : Forwards base64Decode accounts ctx reads head body request target leftover)
    {authority path : List Char} {port : UInt16}
    (habs : splitAbsolute request.target = some (authority, path, port)) :
    parseAuthority authority port = .ok (target.address, target.port) ∧
      ∃ (idx : Nat) (lines : List (List Char)), findCrlfCrlf leftover = some idx ∧
        splitLines 0x0d 0x0a (leftover.take idx) =
          textBytes request.originLine :: lines.map textBytes ∧
        lines.filter isHost =
          (if request.headers.any isHost then request.headers.filter isHost
            else [hostLine authority]) ∧
        ((∀ line ∈ lines, isHost line → lineValue line = some (trim authority)) ↔
          ∀ line ∈ request.headers, isHost line → lineValue line = some (trim authority)) := by
  obtain ⟨idx, hfound, hlines, -⟩ := h.lines
  have hhost := filter_isHost_originHeaders habs
  refine ⟨(forward_eq_ok h.spells h.forwarded).2 authority path port habs, idx,
    request.originHeaders, hfound, hlines, hhost, ?_⟩
  have hmem : ∀ line, line ∈ request.originHeaders ∧ isHost line = true ↔
      line ∈ if request.headers.any isHost then request.headers.filter isHost
        else [hostLine authority] := by
    intro line
    rw [← hhost, List.mem_filter]
  constructor
  · intro hall line hline hline'
    have hany : request.headers.any isHost = true := List.any_eq_true.mpr ⟨line, hline, hline'⟩
    have hkept := (hmem line).mpr (by rw [if_pos hany]; exact List.mem_filter.mpr ⟨hline, hline'⟩)
    exact hall line hkept.1 hline'
  · intro hall line hline hline'
    have hkept := (hmem line).mp ⟨hline, hline'⟩
    split at hkept
    · exact hall line (List.mem_of_mem_filter hkept) hline'
    · rw [List.mem_singleton.mp hkept]
      exact lineValue_hostLine authority

theorem forwarded_host_get : ∃ (idx : Nat) (lines : List (List Char)),
    findCrlfCrlf (asBytes "GET /x HTTP/1.1\r\nA:\rb\r\nHost: a\r\nConnection: close\r\n\r\nc") =
      some idx ∧ lines.filter isHost = [hostLine ['a']] := by
  obtain ⟨-, idx, lines, hfound, -, hhost, -⟩ := forwarded_host forwards_get
    (show splitAbsolute "http://a/x".toList = some (['a'], ['/', 'x'], 80) by decide)
  refine ⟨idx, lines, hfound, hhost.trans ?_⟩
  decide

/-- The client's own host is kept beside another authority. -/
theorem client_host_kept :
    ¬∀ (reads : List Bytes) (head body : Bytes) (request : Request) (target : Destination)
      (leftover : Bytes), Forwards (fun _ => none) [] ⟨none, none, none⟩ reads head body request
        target leftover →
      ∀ authority path port, splitAbsolute request.target = some (authority, path, port) →
      ∀ (idx : Nat) (lines : List (List Char)), findCrlfCrlf leftover = some idx →
        splitLines 0x0d 0x0a (leftover.take idx) =
          textBytes request.originLine :: lines.map textBytes →
        ∀ line ∈ lines, isHost line → lineValue line = some (trim authority) := by
  intro hall
  have hforwards : Forwards (fun _ => none) [] ⟨none, none, none⟩
      [asBytes "GET http://a/ HTTP/1.1\r\nHost: b\r\n\r\n"]
      (asBytes "GET http://a/ HTTP/1.1\r\nHost: b\r\n\r\n") []
      ⟨"GET http://a/ HTTP/1.1".toList, "GET".toList, "http://a/".toList, "HTTP/1.1".toList,
        ["Host: b".toList]⟩ ⟨.tcp, .domain "a", 80⟩
      (asBytes "GET / HTTP/1.1\r\nHost: b\r\nConnection: close\r\n\r\n") :=
    .of_forward ⟨[], by decide⟩ (by decide) rfl (by decide) (by decide)
  have hvalue := hall _ _ _ _ _ _ hforwards ['a'] ['/'] 80 (by decide) 42
    ["Host: b".toList, "Connection: close".toList] (by decide) (by decide) "Host: b".toList
    (List.mem_cons_self ..) (by decide)
  exact absurd hvalue (by decide)

end

/-! ## The target -/

/-- The path of what follows the authority. -/
def uriPath (rest : List Char) : List Char := (rest.takeWhile (· ≠ '#')).takeWhile (· ≠ '?')

/-- The query with its question mark, if there is one. -/
def uriQuery (rest : List Char) : List Char := (rest.takeWhile (· ≠ '#')).dropWhile (· ≠ '?')

/-- `written` is the origin form of what follows the authority: the path, or a slash for
none, and the query. -/
structure IsOriginForm (rest written : List Char) : Prop where
  slash : written.head? = some '/'
  spelled : written = (if uriPath rest ≠ [] then uriPath rest else ['/']) ++ uriQuery rest
  fragment : '#' ∉ written

/-- What is written for a path without a fragment is the path and the query. -/
theorem isOriginForm_of_path {rest : List Char} (hslash : rest.head? = some '/')
    (hfragment : '#' ∉ rest) : IsOriginForm rest rest where
  slash := hslash
  spelled := by
    have hall : rest.takeWhile (· ≠ '#') = rest := by
      refine List.takeWhile_eq_self_iff.mpr fun c hc => ?_
      exact decide_eq_true fun heq => hfragment (heq ▸ hc)
    obtain ⟨t, rfl⟩ := List.head?_eq_some_iff.mp hslash
    have hpath : uriPath ('/' :: t) ≠ [] := by
      rw [uriPath, hall]
      exact List.cons_ne_nil _ _
    rw [if_pos hpath, uriPath, uriQuery, hall, List.takeWhile_append_dropWhile]
  fragment := hfragment

/-- **The target that is written is in origin form exactly where nothing, or a path
without a fragment, follows the authority.**  A query straight behind the authority is
written without a slash, and a fragment is passed on. -/
theorem origin_form_iff {target authority written : List Char} {port : UInt16}
    (h : splitAbsolute target = some (authority, written, port)) :
    (∀ c ∈ authority, c ∉ authorityEnds) ∧
      (∃ scheme rest, AbsoluteForm target scheme authority rest port) ∧
      (∀ scheme rest, AbsoluteForm target scheme authority rest port →
        (IsOriginForm rest written ↔ rest = [] ∨ rest.head? = some '/' ∧ '#' ∉ rest)) ∧
      ∀ base64Decode accounts ctx reads head body request dest leftover,
        Forwards base64Decode accounts ctx reads head body request dest leftover →
        request.target = target → ∃ idx line lines, findCrlfCrlf leftover = some idx ∧
          splitLines 0x0d 0x0a (leftover.take idx) = textBytes line :: lines ∧
          splitn ' ' 3 line = [request.method, written, request.version] := by
  obtain ⟨scheme, rest, hform, -⟩ := form_of_splitAbsolute h
  refine ⟨hform.authority, ⟨scheme, rest, hform⟩, ?_, ?_⟩
  · intro scheme' rest' hform'
    rw [splitAbsolute_of_form hform'] at h
    obtain ⟨-, hwritten, -⟩ := Prod.mk.inj (Option.some.inj h) |>.imp id Prod.mk.inj
    subst hwritten
    by_cases hrest : rest' = []
    · subst hrest
      exact ⟨fun _ => .inl rfl, fun _ => ⟨rfl, rfl, by decide⟩⟩
    · rw [if_pos hrest]
      constructor
      · exact fun horigin => .inr ⟨horigin.slash, horigin.fragment⟩
      · rintro (hnil | ⟨hslash, hfragment⟩)
        · exact absurd hnil hrest
        · exact isOriginForm_of_path hslash hfragment
  · rintro base64Decode accounts ctx reads head body request dest leftover hforwards rfl
    obtain ⟨idx, hfound, hlines, -⟩ := hforwards.lines
    refine ⟨idx, request.originLine, _, hfound, hlines, ?_⟩
    have horigin : request.originTarget = written := by
      rw [Request.originTarget, h]
    rw [splitn_originLine hforwards.spells, horigin]

theorem origin_form_iff_path : IsOriginForm ['/', 'x', '?', 'y'] ['/', 'x', '?', 'y'] := by
  have hsplit : splitAbsolute "http://a/x?y".toList = some (['a'], ['/', 'x', '?', 'y'], 80) := by
    decide
  obtain ⟨hauthority, -, hiff, -⟩ := origin_form_iff hsplit
  have hrest : ∀ c ∈ ['/', 'x', '?', 'y'].head?, c ∈ authorityEnds := by
    rintro c ⟨⟩
    exact List.mem_cons_self ..
  exact (hiff "http://".toList _ ⟨by decide, .inl (by decide), hauthority, hrest⟩).mpr
    (.inr (by decide))

/-- A query straight behind the authority is written as it is. -/
theorem query_without_slash :
    ¬∀ (reads : List Bytes) (head body : Bytes) (request : Request) (target : Destination)
      (leftover : Bytes), Forwards (fun _ => none) [] ⟨none, none, none⟩ reads head body request
        target leftover →
      ∀ scheme authority rest port, AbsoluteForm request.target scheme authority rest port →
      ∀ (idx : Nat) (line : List Char) (lines : List Bytes), findCrlfCrlf leftover = some idx →
        splitLines 0x0d 0x0a (leftover.take idx) = textBytes line :: lines →
        ∀ method written version, splitn ' ' 3 line = [method, written, version] →
        IsOriginForm rest written := by
  intro hall
  have hforwards : Forwards (fun _ => none) [] ⟨none, none, none⟩
      [asBytes "GET http://a?q HTTP/1.1\r\n\r\n"] (asBytes "GET http://a?q HTTP/1.1\r\n\r\n") []
      ⟨"GET http://a?q HTTP/1.1".toList, "GET".toList, "http://a?q".toList, "HTTP/1.1".toList, []⟩
      ⟨.tcp, .domain "a", 80⟩
      (asBytes "GET ?q HTTP/1.1\r\nHost: a\r\nConnection: close\r\n\r\n") :=
    .of_forward ⟨[], by decide⟩ (by decide) rfl (by decide) (by decide)
  have hform : AbsoluteForm "http://a?q".toList "http://".toList ['a'] ['?', 'q'] 80 := by
    refine ⟨by decide, .inl (by decide), List.forall_mem_singleton.mpr (by decide), ?_⟩
    rintro c ⟨⟩
    decide
  have horigin := hall _ _ _ _ _ _ hforwards _ _ _ _ hform 43 "GET ?q HTTP/1.1".toList
    [asBytes "Host: a", asBytes "Connection: close"] (by decide) (by decide) _ _ _
    (show splitn ' ' 3 "GET ?q HTTP/1.1".toList = ["GET".toList, ['?', 'q'], "HTTP/1.1".toList]
      by decide)
  exact absurd horigin.slash (by decide)

end XrayRs.Http
