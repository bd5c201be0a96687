import XrayRs.HttpDecode

/-! # The request the origin gets

What `Http::decode` writes for a plain request, read back the way an origin does: up to
the first blank line, and line by line.  The request line keeps the method and the
version, the header lines are the client's without those of the proxy, and what follows
the head is the body (`proxied_request_kept`), however the client's lines are spelled: a
line of the client never makes two. -/

namespace XrayRs.Http

open ByteWords Delimited LineBreaks Text

/-! ## The lines of the new head -/

/-- The header lines that are relayed. -/
def Request.relayed (request : Request) : List (List Char) :=
  request.headers.filter (!isDropped ·)

/-- A `Host` line. -/
def hostLine (authority : List Char) : List Char := ['H', 'o', 's', 't', ':', ' '] ++ authority

/-- The line that names the authority of an absolute target, where the client names no
host. -/
def Request.hostLines (request : Request) : List (List Char) :=
  match splitAbsolute request.target with
  | some (authority, _, _) =>
    if request.headers.any isHost then [] else [hostLine authority]
  | none => []

/-- The request target that is written. -/
def Request.originTarget (request : Request) : List Char :=
  match splitAbsolute request.target with
  | some (_, path, _) => path
  | none => request.target

/-- The request line that is written. -/
def Request.originLine (request : Request) : List Char :=
  request.method ++ ' ' :: request.originTarget ++ ' ' :: request.version

/-- The line that closes the head. -/
def closeLine : List Char := "Connection: close".toList

/-- The header lines that are written. -/
def Request.originHeaders (request : Request) : List (List Char) :=
  request.relayed ++ request.hostLines ++ [closeLine]

/-- `decode` relays `leftover` to `target` for a request with this head and this body
behind it. -/
structure Forwards (base64Decode : List Char → Option Bytes) (accounts : List HttpAccount)
    (ctx : Ctx) (reads : List Bytes) (head body : Bytes) (request : Request)
    (target : Destination) (leftover : Bytes) : Prop where
  read : ∃ unread, readHeader maxHead parseHead reads = .ok ((head, body), unread)
  parsed : parseRequest head = .ok request
  plain : eqIgnoreCase request.method "CONNECT" = false
  decoded : ∃ ctx', decode base64Decode accounts ctx reads = .ok ⟨[], target, ctx', some leftover⟩

/-! ## Names of header lines -/

theorem eqIgnoreCase_iff {s : List Char} {name : String} :
    eqIgnoreCase s name = true ↔ toAsciiLowercase s = toAsciiLowercase name.toList :=
  beq_iff_eq

/-- A line named `Host` is relayed. -/
theorem not_isDropped_of_isHost {line : List Char} (h : isHost line = true) :
    isDropped line = false := by
  have hname := eqIgnoreCase_iff.mp h
  simp only [isDropped, eqIgnoreCase, hname]
  decide

theorem headerName_of_colon {name : List Char} (h : ':' ∉ name) (value : List Char) :
    headerName (name ++ ':' :: value) = trim name := by
  rw [headerName, List.splitOn_append_cons_self_of_not_mem h]
  rfl

theorem isHost_hostLine (authority : List Char) : isHost (hostLine authority) = true := by
  have hname : headerName (hostLine authority) = trim ['H', 'o', 's', 't'] :=
    headerName_of_colon (by decide : ':' ∉ ['H', 'o', 's', 't']) (' ' :: authority)
  rw [isHost, hname]
  decide

theorem relayHeaders_eq (out : Bytes) (hostSeen : Bool) (lines : List (List Char)) :
    relayHeaders out hostSeen lines =
      (out ++ ((lines.filter (!isDropped ·)).map textBytes).flatMap (· ++ crlf),
        hostSeen || lines.any isHost) := by
  induction lines generalizing out hostSeen with
  | nil => simp [relayHeaders]
  | cons line lines ih =>
    rw [relayHeaders]
    by_cases hdropped : isDropped line = true
    · have hhost : isHost line = false := by
        by_contra hhost
        rw [Bool.not_eq_false] at hhost
        rw [not_isDropped_of_isHost hhost] at hdropped
        cases hdropped
      rw [if_pos hdropped, ih]
      simp [hdropped, hhost]
    · rw [if_neg hdropped, ih]
      rw [Bool.not_eq_true] at hdropped
      cases hhost : isHost line <;> simp [hdropped, hhost]

/-! ## Absolute targets -/

/-- An absolute target in its parts: the scheme with its slashes, the authority up to the
first delimiter, and the rest; and the default port of the scheme. -/
structure AbsoluteForm (target scheme authority rest : List Char) (port : UInt16) : Prop where
  spelled : target = scheme ++ authority ++ rest
  scheme : eqIgnoreCase scheme "http://" = true ∧ port = 80 ∨
    eqIgnoreCase scheme "https://" = true ∧ port = 443
  authority : ∀ c ∈ authority, c ∉ authorityEnds
  rest : ∀ c ∈ rest.head?, c ∈ authorityEnds

theorem length_of_eqIgnoreCase {s : List Char} {name : String} (h : eqIgnoreCase s name = true) :
    s.length = name.toList.length := by
  have := congrArg List.length (eqIgnoreCase_iff.mp h)
  rwa [toAsciiLowercase, toAsciiLowercase, List.length_map, List.length_map] at this

/-- The first delimiter splits what follows the scheme. -/
theorem split_authority {authority rest : List Char}
    (hauthority : ∀ c ∈ authority, c ∉ authorityEnds)
    (hrest : ∀ c ∈ rest.head?, c ∈ authorityEnds) :
    (authority ++ rest).findIdx (authorityEnds.contains ·) = authority.length := by
  have hnone : authority.findIdx (authorityEnds.contains ·) = authority.length := by
    refine List.findIdx_eq_length_of_false fun c hc => ?_
    rw [← Bool.not_eq_true, List.contains_iff_mem]
    exact hauthority c hc
  rw [List.findIdx_append, hnone, if_neg (Nat.lt_irrefl _)]
  cases rest with
  | nil => exact Nat.zero_add _
  | cons c rest =>
    have hc : authorityEnds.contains c = true := List.contains_iff_mem.mpr (hrest c rfl)
    rw [List.findIdx_cons, hc]
    exact Nat.zero_add _

theorem splitAbsolute_of_form {target scheme authority rest : List Char} {port : UInt16}
    (h : AbsoluteForm target scheme authority rest port) :
    splitAbsolute target = some (authority, if rest ≠ [] then rest else ['/'], port) := by
  obtain ⟨rfl, hscheme, hauthority, hrest⟩ := h
  have hidx := split_authority hauthority hrest
  rw [List.append_assoc]
  rcases hscheme with ⟨hscheme, rfl⟩ | ⟨hscheme, rfl⟩
  · have hlength : scheme.length = 7 := length_of_eqIgnoreCase hscheme
    rw [splitAbsolute, List.take_left' hlength, List.drop_left' hlength, if_pos hscheme]
    simp only [hidx, List.take_left, List.drop_left]
  · have hlength : scheme.length = 8 := length_of_eqIgnoreCase hscheme
    have hother : eqIgnoreCase ((scheme ++ (authority ++ rest)).take 7) "http://" = false := by
      rw [← Bool.not_eq_true, eqIgnoreCase_iff, List.take_append_of_le_length (by omega),
        toAsciiLowercase, List.map_take, ← toAsciiLowercase, eqIgnoreCase_iff.mp hscheme]
      decide
    rw [splitAbsolute, hother, List.take_left' hlength, List.drop_left' hlength, if_pos hscheme]
    simp only [hidx, List.take_left, List.drop_left]
    rfl

/-- What follows a scheme, split at the first delimiter. -/
theorem form_of_scheme {target : List Char} {n : Nat} {port : UInt16}
    (h : eqIgnoreCase (target.take n) "http://" = true ∧ port = 80 ∨
      eqIgnoreCase (target.take n) "https://" = true ∧ port = 443) :
    AbsoluteForm target (target.take n)
      ((target.drop n).take ((target.drop n).findIdx (authorityEnds.contains ·)))
      ((target.drop n).drop ((target.drop n).findIdx (authorityEnds.contains ·))) port where
  spelled := by rw [List.append_assoc, List.take_append_drop, List.take_append_drop]
  scheme := h
  authority c hc := by
    obtain ⟨i, hi, rfl⟩ := List.mem_iff_getElem.mp hc
    rw [List.length_take] at hi
    rw [List.getElem_take, ← List.contains_iff_mem, Bool.not_eq_true]
    exact List.not_of_lt_findIdx (Nat.lt_of_lt_of_le hi (Nat.min_le_left ..))
  rest c hc := by
    rw [List.head?_drop] at hc
    obtain ⟨hlt, rfl⟩ := List.getElem?_eq_some_iff.mp hc
    exact List.contains_iff_mem.mp (List.findIdx_getElem (w := hlt))

theorem form_of_splitAbsolute {target authority path : List Char} {port : UInt16}
    (h : splitAbsolute target = some (authority, path, port)) :
    ∃ scheme rest, AbsoluteForm target scheme authority rest port ∧
      path = if rest ≠ [] then rest else ['/'] := by
  unfold splitAbsolute at h
  simp only at h
  split at h
  · next hscheme =>
    cases h
    exact ⟨_, _, form_of_scheme (.inl ⟨hscheme, rfl⟩), rfl⟩
  · split at h
    · next hscheme =>
      cases h
      exact ⟨_, _, form_of_scheme (.inr ⟨hscheme, rfl⟩), rfl⟩
    · cases h

/-! ## The rewrite -/

section
variable {request : Request} {head body leftover : Bytes} {target : Destination}

theorem mem_hostLines {line : List Char} (h : line ∈ request.hostLines) :
    ∃ authority path port, splitAbsolute request.target = some (authority, path, port) ∧
      line = hostLine authority := by
  unfold Request.hostLines at h
  split at h
  · next authority path port habs =>
    split at h
    · cases h
    · exact ⟨authority, path, port, habs, List.mem_singleton.mp h⟩
  · cases h

/-- What is written for the target is a part of it, or a slash. -/
theorem originTarget_cases (request : Request) :
    request.originTarget = ['/'] ∨ ∃ before, request.target = before ++ request.originTarget := by
  unfold Request.originTarget
  split
  · next authority path port habs =>
    obtain ⟨scheme, rest, hform, rfl⟩ := form_of_splitAbsolute habs
    by_cases hrest : rest = []
    · exact .inl (if_neg (not_not.mpr hrest))
    · rw [if_pos hrest]
      exact .inr ⟨_, hform.spelled⟩
  · exact .inr ⟨[], rfl⟩

/-- The parts of a request line are lines. -/
theorem unbroken_parts (h : request.Spells head) : Unbroken '\r' '\n' request.method ∧
    Unbroken '\r' '\n' request.target ∧ Unbroken '\r' '\n' request.version := by
  obtain ⟨-, -, hline⟩ := splitn_three.mp h.parts
  have hunbroken := unbroken_textBytes.mp (h.unbroken _ (List.mem_cons_self ..))
  rw [hline, List.append_assoc] at hunbroken
  have hrest := hunbroken.right.tail
  exact ⟨hunbroken.left, hrest.left, hrest.right.tail⟩

/-- **Every line that is written is a line.** -/
theorem unbroken_originLines (h : request.Spells head) :
    ∀ line ∈ request.originLine :: request.originHeaders, Unbroken 0x0d 0x0a (textBytes line) := by
  obtain ⟨hmethod, htarget, hversion⟩ := unbroken_parts h
  simp only [Request.originHeaders, List.mem_cons, List.mem_append, List.not_mem_nil, or_false]
  rintro line (rfl | (hline | hline) | rfl)
  · have horigin : Unbroken '\r' '\n' request.originTarget := by
      rcases originTarget_cases request with heq | ⟨before, heq⟩
      · rw [heq]
        trivial
      · rw [heq] at htarget
        exact htarget.right
    rw [unbroken_textBytes, Request.originLine]
    exact (hmethod.append_cons (by decide) (by decide) horigin).append_cons (by decide) (by decide)
      hversion
  · exact h.unbroken line (List.mem_cons_of_mem _ (List.mem_of_mem_filter hline))
  · obtain ⟨authority, path, port, habs, rfl⟩ := mem_hostLines hline
    obtain ⟨scheme, rest, hform, -⟩ := form_of_splitAbsolute habs
    rw [hform.spelled] at htarget
    have hname : Unbroken '\r' '\n' ['H', 'o', 's', 't', ':'] := unbroken_of_not_mem (by decide)
    rw [unbroken_textBytes]
    exact hname.append_cons (a := ' ') (by decide) (by decide) htarget.left.right
  · rw [unbroken_textBytes]
    exact unbroken_of_not_mem (by decide)

theorem originHeaders_ne_nil (h : request.Spells head) :
    ∀ line ∈ request.originHeaders, line ≠ [] := by
  simp only [Request.originHeaders, List.mem_append, List.mem_singleton]
  rintro line ((hline | hline) | rfl)
  · exact h.nonempty line (List.mem_of_mem_filter hline)
  · obtain ⟨authority, -, -, -, rfl⟩ := mem_hostLines hline
    exact List.cons_ne_nil _ _
  · exact List.cons_ne_nil _ _

theorem splitn_originLine (h : request.Spells head) :
    splitn ' ' 3 request.originLine = [request.method, request.originTarget, request.version] := by
  obtain ⟨hmethod, htarget, -⟩ := splitn_three.mp h.parts
  refine splitn_three.mpr ⟨hmethod, ?_, rfl⟩
  rcases originTarget_cases request with heq | ⟨before, heq⟩
  · rw [heq]
    decide
  · rw [heq] at htarget
    exact fun hmem => htarget (List.mem_append_right before hmem)

/-- Where a request goes, the line for the origin, and whether a host is to be named. -/
theorem originRequest_eq_ok (h : request.Spells head) {address : Address} {port : UInt16}
    {newReqLine : List Char} {injectHost : Option (List Char)}
    (horigin : originRequest request = .ok (address, port, newReqLine, injectHost)) :
    newReqLine = request.originLine ∧
      injectHost = (splitAbsolute request.target).map Prod.fst ∧
      ∀ authority path dport, splitAbsolute request.target = some (authority, path, dport) →
        parseAuthority authority dport = .ok (address, port) := by
  unfold originRequest at horigin
  cases habs : splitAbsolute request.target with
  | some parts =>
    obtain ⟨authority, path, dport⟩ := parts
    rw [habs] at horigin
    obtain ⟨⟨address', port'⟩, hparse, hok⟩ := Except.bind_eq_ok horigin
    cases hok
    refine ⟨?_, rfl, ?_⟩
    · simp only [Request.originLine, Request.originTarget, habs]
    · intro authority' path' dport' heq
      cases heq
      exact hparse
  | none =>
    rw [habs] at horigin
    simp only at horigin
    split at horigin
    · cases horigin
    · obtain ⟨⟨address', port'⟩, -, hok⟩ := Except.bind_eq_ok horigin
      cases hok
      refine ⟨?_, rfl, fun _ _ _ heq => nomatch heq⟩
      rw [Request.originLine, Request.originTarget, habs]
      exact (splitn_three.mp h.parts).2.2

theorem textBytes_hostLine (authority : List Char) :
    textBytes (hostLine authority) = asBytes "Host: " ++ textBytes authority := by
  rw [hostLine, textBytes_append]
  rfl

/-- **What is written**: the lines, a blank line and the body. -/
theorem forward_eq_ok (h : request.Spells head)
    (hforward : forward request body = .ok (target, leftover)) :
    leftover = crlf.intercalate ((request.originLine :: request.originHeaders).map textBytes) ++
        crlf ++ crlf ++ body ∧
      ∀ authority path dport, splitAbsolute request.target = some (authority, path, dport) →
        parseAuthority authority dport = .ok (target.address, target.port) := by
  obtain ⟨⟨address, port, newReqLine, injectHost⟩, horigin, hrest⟩ := Except.bind_eq_ok hforward
  obtain ⟨rfl, hinject, hparse⟩ := originRequest_eq_ok h horigin
  have hjoin := intercalate_append_self crlf
    (List.cons_ne_nil (textBytes request.originLine) (request.originHeaders.map textBytes))
  simp only [relayHeaders_eq, Bool.false_or] at hrest
  obtain ⟨rfl, rfl⟩ := Prod.mk.inj (Except.ok.inj hrest)
  refine ⟨?_, hparse⟩
  have hclose : textBytes closeLine = asBytes "Connection: close" :=
    textBytes_toList "Connection: close"
  rw [List.map_cons, hjoin, hinject, Request.originHeaders, Request.relayed, Request.hostLines]
  cases habs : splitAbsolute request.target with
  | none => simp [hclose]
  | some parts =>
    have hhost := textBytes_hostLine parts.1
    cases hany : request.headers.any isHost with
    | true => simp [hclose]
    | false => simp [hclose, hhost]

end

section
variable {base64Decode : List Char → Option Bytes} {accounts : List HttpAccount} {ctx : Ctx}
  {reads : List Bytes} {head body : Bytes} {request : Request} {target : Destination}
  {leftover : Bytes}

/-- The head ends with the first blank line of what the client sent, and the body is what
was read behind it. -/
theorem Forwards.found
    (h : Forwards base64Decode accounts ctx reads head body request target leftover) :
    ∃ buf idx unread, findCrlfCrlf buf = some idx ∧ head = buf.take (idx + 4) ∧
      body = buf.drop (idx + 4) ∧ buf ++ unread = reads.flatten := by
  obtain ⟨unread, hread⟩ := h.read
  obtain ⟨buf, hrun, hstream⟩ := run_of_readHeaderInner incremental_parseHead hread
  rw [run_parseHead] at hrun
  split at hrun
  · next idx hfound =>
    cases hrun
    exact ⟨buf, idx, unread.flatten, hfound, rfl, rfl, hstream⟩
  · cases hrun

theorem Forwards.spells
    (h : Forwards base64Decode accounts ctx reads head body request target leftover) :
    request.Spells head := by
  obtain ⟨buf, idx, unread, hfound, rfl, -, -⟩ := h.found
  exact spells_of_parseRequest hfound h.parsed

theorem Forwards.forwarded
    (h : Forwards base64Decode accounts ctx reads head body request target leftover) :
    forward request body = .ok (target, leftover) := by
  obtain ⟨⟨unread, hread⟩, hparsed, hplain, ctx', hdecoded⟩ := h
  unfold decode at hdecoded
  obtain ⟨⟨⟨head', body'⟩, unread'⟩, hread', hdecoded⟩ := Except.bind_eq_ok hdecoded
  rw [hread] at hread'
  cases hread'
  obtain ⟨request', hparsed', hdecoded⟩ := Except.bind_eq_ok hdecoded
  rw [hparsed] at hparsed'
  cases hparsed'
  split at hdecoded
  · cases hdecoded
  · rw [hplain] at hdecoded
    obtain ⟨⟨target', leftover'⟩, hforward, hok⟩ := Except.bind_eq_ok hdecoded
    cases hok
    exact hforward

theorem Forwards.of_forward {ctx' : Ctx}
    (hread : ∃ unread, readHeader maxHead parseHead reads = .ok ((head, body), unread))
    (hparsed : parseRequest head = .ok request)
    (hauth : authenticate base64Decode accounts ctx request.headers = some ctx')
    (hplain : eqIgnoreCase request.method "CONNECT" = false)
    (hforward : forward request body = .ok (target, leftover)) :
    Forwards base64Decode accounts ctx reads head body request target leftover := by
  refine ⟨hread, hparsed, hplain, ctx', ?_⟩
  obtain ⟨unread, hread⟩ := hread
  rw [decode, hread]
  simp only [bind, Except.bind, pure, Except.pure, hparsed, hauth, hplain, hforward]
  rfl

/-- **The new head, read back**: up to the first blank line it is the lines that were
written, and behind it is the body. -/
theorem Forwards.lines
    (h : Forwards base64Decode accounts ctx reads head body request target leftover) :
    ∃ idx, findCrlfCrlf leftover = some idx ∧
      splitLines 0x0d 0x0a (leftover.take idx) =
        textBytes request.originLine :: request.originHeaders.map textBytes ∧
      leftover.drop (idx + 4) = body := by
  obtain ⟨hleftover, -⟩ := forward_eq_ok h.spells h.forwarded
  have hunbroken := List.forall_mem_map.mpr (unbroken_originLines h.spells)
  have hne : ∀ l ∈ request.originHeaders.map textBytes, l ≠ [] :=
    List.forall_mem_map.mpr fun line hline =>
      mt textBytes_eq_nil.mp (originHeaders_ne_nil h.spells line hline)
  rw [List.map_cons] at hunbroken hleftover
  have hfound := findCrlfCrlf_intercalate hunbroken hne body
  have hlines := splitLines_intercalate (by decide) (List.cons_ne_nil _ _) hunbroken
  rw [List.append_assoc, List.append_assoc] at hleftover
  refine ⟨(crlf.intercalate (textBytes request.originLine ::
    request.originHeaders.map textBytes)).length, ?_, ?_, ?_⟩
  · rw [hleftover]
    exact hfound
  · rw [hleftover, List.take_left]
    exact hlines
  · rw [hleftover, List.drop_length_add_append]
    rfl

/-! ## What is kept -/

/-- **The proxied request keeps everything else.**  The head is the request's lines and a
blank line; what is written is, up to its own first blank line, a request line with the
client's method and version, the client's header lines without those of the proxy, at most
one line that names the host, and the line that closes; and behind it is the body. -/
theorem proxied_request_kept
    (h : Forwards base64Decode accounts ctx reads head body request target leftover) :
    request.Spells head ∧ (∃ unread, head ++ body ++ unread = reads.flatten) ∧
      ∃ idx, findCrlfCrlf leftover = some idx ∧
        splitLines 0x0d 0x0a (leftover.take idx) = textBytes request.originLine ::
          (request.headers.filter (!isDropped ·) ++ request.hostLines ++
            [closeLine]).map textBytes ∧
        splitn ' ' 3 request.originLine =
          [request.method, request.originTarget, request.version] ∧
        (request.headers.filter (!isDropped ·) ++ request.hostLines ++ [closeLine]).filter
          (fun line => eqIgnoreCase (headerName line) "connection") = [closeLine] ∧
        leftover.drop (idx + 4) = body := by
  have hsent : ∃ unread, head ++ body ++ unread = reads.flatten := by
    obtain ⟨buf, idx, unread, -, rfl, rfl, hstream⟩ := h.found
    exact ⟨unread, by rw [List.take_append_drop, hstream]⟩
  obtain ⟨idx, hfound, hlines, hbody⟩ := h.lines
  refine ⟨h.spells, hsent, idx, hfound, hlines, splitn_originLine h.spells, ?_, hbody⟩
  have hkept : ∀ line ∈ request.headers.filter (!isDropped ·) ++ request.hostLines,
      ¬eqIgnoreCase (headerName line) "connection" = true := by
    intro line hline hconnection
    have hdropped : isDropped line = true := by
      rw [isDropped, hconnection, Bool.or_true]
    rcases List.mem_append.mp hline with hline | hline
    · rw [List.mem_filter, hdropped] at hline
      exact Bool.noConfusion hline.2
    · obtain ⟨authority, -, -, -, rfl⟩ := mem_hostLines hline
      rw [not_isDropped_of_isHost (isHost_hostLine authority)] at hdropped
      cases hdropped
  rw [List.filter_append, List.filter_eq_nil_iff.mpr hkept, List.nil_append]
  decide

/-- A request whose header line holds a bare carriage return. -/
theorem forwards_get : Forwards (fun _ => none) [] ⟨none, none, none⟩
    [asBytes "GET http://a/x HTTP/1.1\r\nA:\rb\r\n\r\nc"]
    (asBytes "GET http://a/x HTTP/1.1\r\nA:\rb\r\n\r\n") (asBytes "c")
    ⟨"GET http://a/x HTTP/1.1".toList, "GET".toList, "http://a/x".toList, "HTTP/1.1".toList,
      ["A:\rb".toList]⟩ ⟨.tcp, .domain "a", 80⟩
    (asBytes "GET /x HTTP/1.1\r\nA:\rb\r\nHost: a\r\nConnection: close\r\n\r\nc") :=
  .of_forward ⟨[], by decide⟩ (by decide) rfl (by decide) (by decide)

theorem proxied_request_kept_get : ∃ idx,
    findCrlfCrlf (asBytes "GET /x HTTP/1.1\r\nA:\rb\r\nHost: a\r\nConnection: close\r\n\r\nc") =
      some idx ∧
    (asBytes "GET /x HTTP/1.1\r\nA:\rb\r\nHost: a\r\nConnection: close\r\n\r\nc").drop (idx + 4) =
      asBytes "c" := by
  obtain ⟨-, -, idx, hfound, -, -, -, hbody⟩ := proxied_request_kept forwards_get
  exact ⟨idx, hfound, hbody⟩

end

end XrayRs.Http
