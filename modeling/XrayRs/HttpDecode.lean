import XrayRs.HttpLines
import XrayRs.ServiceTree

/-! # The HTTP proxy

`Http::decode` (`proxy/src/http.rs`): a request head is read, split into its lines,
checked against the accounts, and either opens a tunnel or is rewritten for the origin.
The decoder of base64 is a parameter.

The request of a head spells it: its lines, with their breaks, and a blank line are the
head, and the request line is its three parts (`spells_of_parseRequest`). -/

namespace XrayRs.Http

open ByteWords LineBreaks Text

/-- `user_hash`: FNV-1a. -/
def userHash (bytes : Bytes) : UInt64 :=
  bytes.foldl (fun h b => (h ^^^ b.toUInt64) * 0x100000001b3) 0xcbf29ce484222325

/-- `MAX_HEAD`. -/
def maxHead : Nat := 16384

/-- `HttpAccount`. -/
structure HttpAccount where
  username : String
  password : String
  deriving DecidableEq

/-- `invalid`. -/
def invalid (msg : String) : IoError := ⟨.invalidData, .msg msg⟩

/-- `str::eq_ignore_ascii_case`. -/
def eqIgnoreCase (s : List Char) (name : String) : Bool :=
  toAsciiLowercase s == toAsciiLowercase name.toList

/-- `str::splitn` at a character. -/
def splitn (sep : Char) : Nat → List Char → List (List Char)
  | 0, _ => []
  | 1, s => [s]
  | n + 2, s =>
    match splitOnce sep s with
    | none => [s]
    | some (part, rest) => part :: splitn sep (n + 1) rest

/-- `header_value`. -/
def headerValue (headers : List (List Char)) (name : String) : Option (List Char) :=
  headers.findSome? fun line =>
    (splitOnce ':' line).bind fun (k, v) =>
      if eqIgnoreCase (trim k) name then some (trim v) else none

/-- The delimiters that end an authority. -/
def authorityEnds : List Char := ['/', '?', '#']

/-- `split_absolute`: the authority, the path and the default port. -/
def splitAbsolute (target : List Char) : Option (List Char × List Char × UInt16) :=
  let split (rest : List Char) (defaultPort : UInt16) :=
    let idx := rest.findIdx (authorityEnds.contains ·)
    let path := rest.drop idx
    (rest.take idx, if path ≠ [] then path else ['/'], defaultPort)
  if eqIgnoreCase (target.take 7) "http://" then some (split (target.drop 7) 80)
  else if eqIgnoreCase (target.take 8) "https://" then some (split (target.drop 8) 443)
  else none

/-- `str::parse::<u16>`, or "bad port". -/
def parsePort (p : List Char) : Except IoError UInt16 :=
  match parseUnsigned 65535 p with
  | some port => .ok (UInt16.ofNat port)
  | none => .error (invalid "http: bad port")

/-- `parse_authority`. -/
def parseAuthority (s : List Char) (defaultPort : UInt16) : Except IoError (Address × UInt16) :=
  match trim s with
  | '[' :: rest =>
    match splitOnce ']' rest with
    | none => .error (invalid "http: malformed ipv6 authority")
    | some (host, after) => do
      let port ←
        match after with
        | ':' :: p => if p ≠ [] then parsePort p else .ok defaultPort
        | _ => .ok defaultPort
      return (.parse (.ofList host), port)
  | s =>
    match rsplitOnce ':' s with
    | some (h, p) =>
      if p ≠ [] ∧ p.all (decimalDigit · |>.isSome) then do
        let port ← parsePort p
        return (.parse (.ofList h), port)
      else .ok (.parse (.ofList s), defaultPort)
    | none => .ok (.parse (.ofList s), defaultPort)

/-! ## The request -/

/-- The request line with its three parts, and the header lines. -/
structure Request where
  requestLine : List Char
  method : List Char
  target : List Char
  version : List Char
  headers : List (List Char)
  deriving DecidableEq

/-- The first part of `Http::decode`: the lines of the head. -/
def parseRequest (head : Bytes) : Except IoError Request :=
  match fromUtf8 head with
  | none => .error (invalid "http: non-utf8 head")
  | some text =>
    match splitLines '\r' '\n' text.toList with
    | [] => .error (invalid "http: empty request")
    | requestLine :: lines =>
      match splitn ' ' 3 requestLine with
      | [] => .error (invalid "http: missing method")
      | [_] => .error (invalid "http: missing target")
      | [_, _] => .error (invalid "http: missing version")
      | method :: target :: version :: _ =>
        .ok ⟨requestLine, method, target, version, lines.takeWhile (· ≠ [])⟩

section
variable (base64Decode : List Char → Option Bytes) (accounts : List HttpAccount)

/-- `check_auth`: the account that the `Proxy-Authorization` line names. -/
def checkAuth (headers : List (List Char)) : Option String := do
  let value ← headerValue headers "proxy-authorization"
  if eqIgnoreCase (value.take 6) "Basic " then
    let decoded ← base64Decode (trim (value.drop 6))
    let creds ← fromUtf8 decoded
    let (user, pass) ← splitOnce ':' creds.toList
    let account ← accounts.find? fun a => a.username.toList == user && a.password.toList == pass
    return account.username
  else none

/-- The session of a request; `none` if an account is required and none matches. -/
def authenticate (ctx : Ctx) (headers : List (List Char)) : Option Ctx :=
  if accounts.isEmpty then some ctx
  else (checkAuth base64Decode accounts headers).map fun user =>
    ctx.withUser user (userHash (asBytes user))

end

/-! ## The rewrite -/

/-- The name of a header line. -/
def headerName (line : List Char) : List Char := trim ((line.splitOn ':').head?.getD [])

/-- The lines that are not relayed. -/
def isDropped (line : List Char) : Bool :=
  eqIgnoreCase (headerName line) "proxy-connection" ||
    eqIgnoreCase (headerName line) "proxy-authorization" ||
    eqIgnoreCase (headerName line) "connection"

/-- A line named `Host`. -/
def isHost (line : List Char) : Bool := eqIgnoreCase (headerName line) "host"

/-- The header loop, with the head written so far and `host_seen`. -/
def relayHeaders (out : Bytes) (hostSeen : Bool) : List (List Char) → Bytes × Bool
  | [] => (out, hostSeen)
  | line :: lines =>
    if isDropped line then relayHeaders out hostSeen lines
    else relayHeaders (out ++ textBytes line ++ crlf) (if isHost line then true else hostSeen) lines

/-- Where a request goes: the address and port, the line for the origin, and the
authority of an absolute target. -/
def originRequest (request : Request) :
    Except IoError (Address × UInt16 × List Char × Option (List Char)) :=
  match splitAbsolute request.target with
  | some (authority, path, dport) => do
    let (address, port) ← parseAuthority authority dport
    return (address, port, request.method ++ ' ' :: path ++ ' ' :: request.version, some authority)
  | none =>
    match headerValue request.headers "host" with
    | none => .error (invalid "http: missing host")
    | some host => do
      let (address, port) ← parseAuthority host 80
      return (address, port, request.requestLine, none)

/-- The plain request: the destination, and what is sent there first. -/
def forward (request : Request) (body : Bytes) : Except IoError (Destination × Bytes) := do
  let (address, port, newReqLine, injectHost) ← originRequest request
  let out := textBytes newReqLine ++ crlf
  let (out, hostSeen) := relayHeaders out false request.headers
  let out :=
    match injectHost with
    | some authority =>
      if !hostSeen then out ++ asBytes "Host: " ++ textBytes authority ++ crlf else out
    | none => out
  return (.tcp address port, out ++ asBytes "Connection: close" ++ crlf ++ crlf ++ body)

/-! ## The decoder -/

/-- What `decode` has done: the reply it wrote, the target and the session of its
decision, and what `relay_stream` sends ahead of the client's bytes.  A decision without
a relay is the one of `noop_decision`. -/
structure Decoded where
  reply : Bytes
  target : Destination
  ctx : Ctx
  leftover : Option Bytes
  deriving DecidableEq

/-- The reply to a request without an account. -/
def authRequired : String :=
  "HTTP/1.1 407 Proxy Authentication Required\r\nProxy-Authenticate: Basic realm=\"proxy\"\r\n" ++
    "Connection: close\r\n\r\n"

/-- `Http::decode`. -/
def decode (base64Decode : List Char → Option Bytes) (accounts : List HttpAccount) (ctx : Ctx)
    (reads : List Bytes) : Except IoError Decoded := do
  let ((head, body), _) ← readHeader maxHead parseHead reads
  let request ← parseRequest head
  match authenticate base64Decode accounts ctx request.headers with
  | none => return ⟨asBytes authRequired, noopTarget, ctx, none⟩
  | some ctx =>
    if eqIgnoreCase request.method "CONNECT" then
      let (address, port) ← parseAuthority request.target 443
      return ⟨asBytes "HTTP/1.1 200 Connection Established\r\n\r\n",
        sniffOverride (.tcp address port) body, ctx, some body⟩
    else
      let (target, leftover) ← forward request body
      return ⟨[], target, ctx, some leftover⟩

/-! ## The parts of a request -/

theorem splitn_length (sep : Char) (n : Nat) (s : List Char) : (splitn sep n s).length ≤ n := by
  fun_induction splitn sep n s with
  | case1 | case2 => exact Nat.le_refl _
  | case3 => exact Nat.le_add_left ..
  | case4 n s part rest hsplit ih => exact Nat.succ_le_succ ih

theorem splitn_three {s a b c : List Char} :
    splitn ' ' 3 s = [a, b, c] ↔ ' ' ∉ a ∧ ' ' ∉ b ∧ s = a ++ ' ' :: b ++ ' ' :: c := by
  constructor
  · intro h
    rw [splitn] at h
    split at h
    · cases h
    · next part rest hfirst =>
      rw [splitn] at h
      split at h
      · cases h
      · next part' rest' hsecond =>
        cases h
        obtain ⟨ha, rfl⟩ := splitOnce_eq_some.mp hfirst
        obtain ⟨hb, rfl⟩ := splitOnce_eq_some.mp hsecond
        exact ⟨ha, hb, by simp⟩
  · rintro ⟨ha, hb, rfl⟩
    have hfirst : splitOnce ' ' (a ++ ' ' :: b ++ ' ' :: c) = some (a, b ++ ' ' :: c) :=
      splitOnce_eq_some.mpr ⟨ha, by simp⟩
    rw [splitn, hfirst]
    simp only
    rw [splitn, splitOnce_append hb]
    rfl

/-- A request as its head spells it: the lines, with their breaks, and a blank line. -/
structure Request.Spells (request : Request) (head : Bytes) : Prop where
  lines : head = crlf.intercalate ((request.requestLine :: request.headers).map textBytes) ++
    crlf ++ crlf
  unbroken : ∀ line ∈ request.requestLine :: request.headers, Unbroken 0x0d 0x0a (textBytes line)
  nonempty : ∀ line ∈ request.headers, line ≠ []
  parts : splitn ' ' 3 request.requestLine = [request.method, request.target, request.version]

/-- **The request of a head has its lines.** -/
theorem spells_of_parseRequest {b : Bytes} {idx : Nat} {request : Request}
    (hfound : findCrlfCrlf b = some idx) (h : parseRequest (b.take (idx + 4)) = .ok request) :
    request.Spells (b.take (idx + 4)) := by
  obtain ⟨line, lines, hhead, hsplit, hunbroken, hne⟩ := splitLines_of_findCrlfCrlf hfound
  unfold parseRequest at h
  split at h
  · cases h
  · next text htext =>
    have hbytes : textBytes text.toList = b.take (idx + 4) := by
      rw [textBytes, String.ofList_toList, asBytes_of_fromUtf8 htext]
    rw [← hbytes, splitLines_textBytes] at hsplit
    split at h
    · cases h
    · next requestLine rest htextLines =>
      rw [htextLines, List.map_cons] at hsplit
      obtain ⟨hfirst, hrest⟩ := List.cons_eq_cons.mp hsplit
      have hheaders : (rest.takeWhile (· ≠ [])).map textBytes = lines := by
        have hsame : (fun line : List Char => decide (line ≠ [])) =
            (fun l : Bytes => decide (l ≠ [])) ∘ textBytes := by
          funext line
          simp [textBytes_eq_nil]
        rw [hsame, ← List.takeWhile_map, hrest,
          List.takeWhile_append_of_pos fun l hl => decide_eq_true (hne l hl)]
        simp
      split at h
      · cases h
      · cases h
      · cases h
      · next method target version more hparts =>
        cases h
        have hmore : more = [] := by
          have hlength := splitn_length ' ' 3 requestLine
          rw [hparts] at hlength
          simp only [List.length_cons] at hlength
          exact List.eq_nil_of_length_eq_zero (by omega)
        have hall : (requestLine :: rest.takeWhile (· ≠ [])).map textBytes = line :: lines := by
          rw [List.map_cons, hfirst, hheaders]
        refine ⟨?_, fun l hl => ?_, fun l hl => ?_, hmore ▸ hparts⟩
        · rw [hall, hhead]
        · exact hunbroken _ (hall ▸ List.mem_map_of_mem hl)
        · have hkept : decide (l ≠ []) = true :=
            List.mem_takeWhile_imp (p := fun x => decide (x ≠ [])) hl
          exact of_decide_eq_true hkept

end XrayRs.Http
