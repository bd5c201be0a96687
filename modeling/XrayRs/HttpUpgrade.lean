import XrayRs.CutStream
import XrayRs.HttpDecode

/-! # The HTTP upgrade transport

`transport/src/httpupgrade.rs`.  The handshake reads a request head byte by byte, so that
nothing of the payload behind it is consumed, checks it, and answers `101`; then the stream
is the tunnel.

The head that is read is the one the HTTP proxy's parser would find (`readHead_eq_ok`).
The handshake succeeds on just the streams that begin with a head that asks for the
upgrade, and leaves what is behind the head (`accept_exact`). -/

namespace XrayRs.HttpUpgrade

open ByteWords Delimited Dialogue Http LineBreaks Text

/-- `HttpUpgradeConfig`. -/
structure HttpUpgradeConfig where
  path : String
  host : Option String

/-- `MAX_HEAD`. -/
def maxHead : Nat := 16384

/-- `RESPONSE`. -/
def response : Bytes :=
  asBytes "HTTP/1.1 101 Switching Protocols\r\nConnection: Upgrade\r\nUpgrade: websocket\r\n\r\n"

/-- A blank line, with the break of the line before it. -/
def blank : Bytes := [0x0d, 0x0a, 0x0d, 0x0a]

/-- The end of the stream before the end of the head. -/
def eofInRequest : IoError := ⟨.unexpectedEof, .msg "eof in request"⟩

/-- A head that does not end in time. -/
def headTooLarge : IoError := ⟨.invalidData, .msg "request head too large"⟩

/-- The loop of `read_head`, with `buf` read so far. -/
def readHeadFrom (buf : Bytes) : Prog UInt8 IoError Bytes :=
  .get fun
    | none => Prog.fail eofInRequest
    | some b =>
      if blank <:+ buf ++ [b] then pure (buf ++ [b])
      else if maxHead < buf.length + 1 then Prog.fail headTooLarge
      else readHeadFrom (buf ++ [b])
termination_by maxHead + 1 - buf.length
decreasing_by
  rw [List.length_append, List.length_singleton]
  omega

/-- `read_head`. -/
def readHead : Prog UInt8 IoError Bytes := readHeadFrom []

/-- The header values `accept` collects. -/
structure Fields where
  connection : List Char
  upgrade : List Char
  host : List Char
  deriving DecidableEq

/-- One line of the header loop. -/
def Fields.readLine (f : Fields) (line : List Char) : Fields :=
  match splitOnce ':' line with
  | none => f
  | some (k, v) =>
    let key := toAsciiLowercase (trim k)
    let val := trim v
    if key = "connection".toList then { f with connection := toAsciiLowercase val }
    else if key = "upgrade".toList then { f with upgrade := toAsciiLowercase val }
    else if key = "host".toList then { f with host := val }
    else f

/-- The checks of `accept` on a head. -/
def checkHead (cfg : HttpUpgradeConfig) (head : Bytes) : Except IoError Unit :=
  match fromUtf8 head with
  | none => .error ⟨.invalidData, .msg "non-utf8 request"⟩
  | some text =>
    let lines := splitLines '\r' '\n' text.toList
    let requestLine := lines.head?.getD []
    let path := (requestLine.splitOn ' ')[1]?.getD []
    if cfg.path ≠ "" ∧ path ≠ cfg.path.toList then .error ⟨.invalidData, .msg "bad path"⟩
    else
      let fields := lines.tail.foldl Fields.readLine ⟨[], [], []⟩
      let got := (fields.host.splitOn ':').head?.getD fields.host
      if cfg.host.any (!eqIgnoreCase got ·) then .error ⟨.invalidData, .msg "bad host"⟩
      else if fields.connection ≠ "upgrade".toList ∨ fields.upgrade ≠ "websocket".toList then
        .error ⟨.invalidData, .msg "unrecognized request"⟩
      else .ok ()

/-- `accept`; the stream is handed on. -/
def accept (cfg : HttpUpgradeConfig) : Prog UInt8 IoError Unit := do
  let head ← readHead
  Prog.lift (checkHead cfg head)
  Prog.writeAll response

/-! ## The head -/

/-- **A head**: it ends in a blank line, has none before, and is not too long. -/
def IsHead (head : Bytes) : Prop :=
  head.length ≤ maxHead + 1 ∧ ∃ idx, findCrlfCrlf head = some idx ∧ idx + 4 = head.length

theorem findCrlfCrlf_isSome_iff (b : Bytes) : (findCrlfCrlf b).isSome = true ↔ blank <:+: b := by
  induction b with
  | nil => decide
  | cons c cs ih =>
    rw [findCrlfCrlf, List.infix_cons_iff]
    by_cases h : (c :: cs).take 4 = [0x0d, 0x0a, 0x0d, 0x0a]
    · rw [if_pos h]
      exact ⟨fun _ => .inl (List.prefix_iff_eq_take.mpr h.symm), fun _ => rfl⟩
    · rw [if_neg h, Option.isSome_map, ih]
      refine ⟨.inr, ?_⟩
      rintro (hpre | hin)
      · exact absurd (List.prefix_iff_eq_take.mp hpre).symm h
      · exact hin

/-- Without a blank line so far, the next byte ends a head iff a blank line ends with it. -/
theorem isHead_concat_iff {buf : Bytes} {b : UInt8} (hnone : findCrlfCrlf buf = none)
    (hlen : buf.length ≤ maxHead) : IsHead (buf ++ [b]) ↔ blank <:+ buf ++ [b] := by
  constructor
  · rintro ⟨-, idx, hidx, hend⟩
    have htake := take_of_findCrlfCrlf hidx
    rw [hend, List.take_length, List.append_assoc] at htake
    exact ⟨_, htake.symm⟩
  · intro hsuf
    refine ⟨by simpa using hlen, ?_⟩
    obtain ⟨idx, hidx⟩ := Option.isSome_iff_exists.mp
      ((findCrlfCrlf_isSome_iff _).mpr hsuf.isInfix)
    refine ⟨idx, hidx, ?_⟩
    obtain ⟨hle, hmore⟩ := findCrlfCrlf_take hidx
    -- a blank line found before the end would have been found before
    by_contra hne
    have hshort : idx + 4 ≤ buf.length := by
      rw [List.length_append, List.length_singleton] at hle hne
      omega
    have hfound := hmore (buf.drop (idx + 4))
    rw [List.take_append_of_le_length hshort, List.take_append_drop, hnone] at hfound
    cases hfound

theorem findCrlfCrlf_concat {buf : Bytes} {b : UInt8} (hnone : findCrlfCrlf buf = none)
    (hsuf : ¬ blank <:+ buf ++ [b]) : findCrlfCrlf (buf ++ [b]) = none := by
  rw [← Option.not_isSome_iff_eq_none, findCrlfCrlf_isSome_iff, List.infix_concat_iff]
  rintro (h | h)
  · exact hsuf h
  · rw [← findCrlfCrlf_isSome_iff, hnone] at h
    cases h

/-- A stream begins with one head at most. -/
theorem IsHead.unique {head head' rest rest' : Bytes} (h : IsHead head) (h' : IsHead head')
    (heq : head ++ rest = head' ++ rest') : head = head' ∧ rest = rest' := by
  obtain ⟨-, idx, hidx, hend⟩ := h
  obtain ⟨-, idx', hidx', hend'⟩ := h'
  have hfind := (findCrlfCrlf_take hidx).2 rest
  have hfind' := (findCrlfCrlf_take hidx').2 rest'
  rw [hend, List.take_length] at hfind
  rw [hend', List.take_length, ← heq, hfind] at hfind'
  cases hfind'
  exact List.append_inj heq (hend.symm.trans hend')

theorem readHeadFrom_spec (s : Bytes) : ∀ {buf : Bytes}, findCrlfCrlf buf = none →
    buf.length ≤ maxHead →
    (∃ head rest, buf ++ s = head ++ rest ∧ IsHead head ∧
        (readHeadFrom buf).runOnBytes s = (.ok head, rest)) ∨
      ((∀ head, head <+: buf ++ s → ¬ IsHead head) ∧
        ((buf ++ s).length ≤ maxHead ∧
            (readHeadFrom buf).runOnBytes s = (.error eofInRequest, []) ∨
          maxHead < (buf ++ s).length ∧
            (readHeadFrom buf).runOnBytes s = (.error headTooLarge, (buf ++ s).drop (maxHead + 1)))) := by
  induction s with
  | nil =>
    intro buf hnone hlen
    refine .inr ⟨fun head hpre => ?_, .inl ⟨by simpa using hlen, ?_⟩⟩
    · rintro ⟨-, idx, hidx, -⟩
      rw [List.append_nil] at hpre
      have hin := (findCrlfCrlf_isSome_iff head).mp (by rw [hidx]; rfl)
      have hsome := (findCrlfCrlf_isSome_iff buf).mpr (hin.trans hpre.isInfix)
      rw [hnone] at hsome
      cases hsome
    · rw [readHeadFrom]
      rfl
  | cons b s ih =>
    intro buf hnone hlen
    have hrun : (readHeadFrom buf).runOnBytes (b :: s) =
        (if blank <:+ buf ++ [b] then pure (buf ++ [b])
          else if maxHead < buf.length + 1 then Prog.fail headTooLarge
          else readHeadFrom (buf ++ [b]) : Prog UInt8 IoError Bytes).runOnBytes s := by
      rw [readHeadFrom, Prog.runOnBytes]
    have hnext : buf ++ b :: s = (buf ++ [b]) ++ s := by simp
    rw [hrun, hnext]
    by_cases hsuf : blank <:+ buf ++ [b]
    · rw [if_pos hsuf]
      exact .inl ⟨buf ++ [b], s, rfl, (isHead_concat_iff hnone hlen).mpr hsuf, rfl⟩
    · rw [if_neg hsuf]
      have hnone' := findCrlfCrlf_concat hnone hsuf
      by_cases hmax : maxHead < buf.length + 1
      · rw [if_pos hmax]
        have hfull : (buf ++ [b]).length = maxHead + 1 := by
          rw [List.length_append, List.length_singleton]
          omega
        refine .inr ⟨fun head hpre hhead => ?_, .inr ⟨?_, ?_⟩⟩
        · -- a head is no longer than what has been read
          have hin : head <+: buf ++ [b] :=
            List.prefix_of_prefix_length_le hpre (List.prefix_append _ _) (by rw [hfull]; exact hhead.1)
          obtain ⟨-, idx, hidx, -⟩ := hhead
          have hsome := (findCrlfCrlf_isSome_iff (buf ++ [b])).mpr
            (((findCrlfCrlf_isSome_iff head).mp (by rw [hidx]; rfl)).trans hin.isInfix)
          rw [hnone'] at hsome
          cases hsome
        · rw [List.length_append, hfull]
          omega
        · rw [List.drop_left' hfull]
          rfl
      · rw [if_neg hmax]
        exact ih hnone' (by rw [List.length_append, List.length_singleton]; omega)

/-- **What `read_head` reads** is the head the stream begins with, and no more. -/
theorem readHead_eq_ok {s head rest : Bytes} :
    readHead.runOnBytes s = (.ok head, rest) ↔ s = head ++ rest ∧ IsHead head := by
  have hspec := readHeadFrom_spec s (show findCrlfCrlf [] = none from rfl) (Nat.zero_le maxHead)
  rw [List.nil_append] at hspec
  rcases hspec with ⟨head', rest', hs, hhead', hrun⟩ | ⟨hno, hrun⟩
  · rw [readHead, hrun]
    constructor
    · intro h
      cases h
      exact ⟨hs, hhead'⟩
    · rintro ⟨hs', hhead⟩
      obtain ⟨rfl, rfl⟩ := hhead'.unique hhead (hs.symm.trans hs')
      rfl
  · constructor
    · intro h
      rw [readHead] at h
      rcases hrun with ⟨-, hrun⟩ | ⟨-, hrun⟩ <;> rw [hrun] at h <;> cases h
    · rintro ⟨rfl, hhead⟩
      exact absurd hhead (hno head (List.prefix_append _ _))

/-- Reading a head writes nothing. -/
theorem writtenOn_readHeadFrom (buf : Bytes) (pieces : List Bytes) :
    (readHeadFrom buf).writtenOn pieces = [] := by
  fun_induction readHeadFrom buf generalizing pieces with
  | case1 buf ih =>
    rw [Prog.writtenOn]
    cases (nextByte pieces).1 with
    | none => rfl
    | some b =>
      simp only
      split
      · rfl
      · split
        · rfl
        · next hsuf hmax => exact ih b hmax _

/-! ## The headers -/

/-- The value of the last line with a name: what stands behind the colon, trimmed. -/
def lastValue (lines : List (List Char)) (name : String) : List Char :=
  ((lines.filterMap fun line => (splitOnce ':' line).bind fun (k, v) =>
    if toAsciiLowercase (trim k) = name.toList then some (trim v) else none).getLast?).getD []

theorem lastValue_concat (lines : List (List Char)) (line : List Char) (name : String) :
    lastValue (lines ++ [line]) name =
      match splitOnce ':' line with
      | none => lastValue lines name
      | some (k, v) =>
        if toAsciiLowercase (trim k) = name.toList then trim v else lastValue lines name := by
  unfold lastValue
  rw [List.filterMap_append]
  cases hline : splitOnce ':' line with
  | none => simp [hline]
  | some kv =>
    by_cases hname : toAsciiLowercase (trim kv.1) = name.toList
    · simp [hline, hname]
    · simp [hline, hname]

/-- **The header loop** keeps the last value of each name. -/
theorem foldl_readLine (lines : List (List Char)) :
    lines.foldl Fields.readLine ⟨[], [], []⟩ =
      ⟨toAsciiLowercase (lastValue lines "connection"), toAsciiLowercase (lastValue lines "upgrade"),
        lastValue lines "host"⟩ := by
  induction lines using List.reverseRecOn with
  | nil => rfl
  | append_singleton lines line ih =>
    rw [List.foldl_append, List.foldl_cons, List.foldl_nil, ih, Fields.readLine, lastValue_concat,
      lastValue_concat, lastValue_concat]
    cases splitOnce ':' line with
    | none => rfl
    | some kv =>
      have hcu : "connection".toList ≠ "upgrade".toList := by decide
      have hch : "connection".toList ≠ "host".toList := by decide
      have huh : "upgrade".toList ≠ "host".toList := by decide
      simp only
      by_cases hc : toAsciiLowercase (trim kv.1) = "connection".toList
      · rw [if_pos hc, if_pos hc, if_neg (hc ▸ hcu), if_neg (hc ▸ hch)]
      · by_cases hu : toAsciiLowercase (trim kv.1) = "upgrade".toList
        · rw [if_neg hc, if_neg hc, if_pos hu, if_pos hu, if_neg (hu ▸ huh)]
        · rw [if_neg hc, if_neg hc, if_neg hu, if_neg hu]
          split <;> rfl

/-- **A head that asks for the upgrade**: its target is the configured path, if there is
one; its last `Host` names the configured host, if there is one; and its last `Connection`
and `Upgrade` say so. -/
structure Upgrades (cfg : HttpUpgradeConfig) (requestLine : List Char) (lines : List (List Char)) :
    Prop where
  path : cfg.path ≠ "" → (requestLine.splitOn ' ')[1]?.getD [] = cfg.path.toList
  host : ∀ want ∈ cfg.host,
    eqIgnoreCase (((lastValue lines "host").splitOn ':').head?.getD (lastValue lines "host")) want =
      true
  connection : eqIgnoreCase (lastValue lines "connection") "upgrade" = true
  upgrade : eqIgnoreCase (lastValue lines "upgrade") "websocket" = true

theorem eqIgnoreCase_iff (s : List Char) {name : String}
    (h : toAsciiLowercase name.toList = name.toList) :
    eqIgnoreCase s name = true ↔ toAsciiLowercase s = name.toList := by
  rw [eqIgnoreCase, h, beq_iff_eq]

theorem checkHead_eq_ok {cfg : HttpUpgradeConfig} {head : Bytes} :
    checkHead cfg head = .ok () ↔ ∃ text requestLine lines, fromUtf8 head = some text ∧
      splitLines '\r' '\n' text.toList = requestLine :: lines ∧ Upgrades cfg requestLine lines := by
  unfold checkHead
  cases htext : fromUtf8 head with
  | none => simp
  | some text =>
    obtain ⟨requestLine, lines, hlines⟩ := exists_splitLines '\r' '\n' text.toList
    simp only [hlines, List.head?_cons, Option.getD_some, List.tail_cons, foldl_readLine]
    have hconn := eqIgnoreCase_iff (lastValue lines "connection")
      (show toAsciiLowercase "upgrade".toList = "upgrade".toList by decide)
    have hupgr := eqIgnoreCase_iff (lastValue lines "upgrade")
      (show toAsciiLowercase "websocket".toList = "websocket".toList by decide)
    constructor
    · intro h
      split at h
      · cases h
      · next hpath =>
        split at h
        · cases h
        · next hhost =>
          split at h
          · cases h
          · next hfields =>
            obtain ⟨hc, hu⟩ := not_or.mp hfields
            refine ⟨text, requestLine, lines, rfl, hlines, ?_, ?_, hconn.mpr (not_not.mp hc),
              hupgr.mpr (not_not.mp hu)⟩
            · intro hne
              by_contra hdiff
              exact hpath ⟨hne, hdiff⟩
            · intro want hwant
              obtain hwant : cfg.host = some want := hwant
              simpa [hwant] using hhost
    · rintro ⟨_, _, _, ⟨⟩, hlines', hup⟩
      rw [hlines] at hlines'
      cases hlines'
      have hhost : ¬ cfg.host.any (fun want => !eqIgnoreCase
          (((lastValue lines "host").splitOn ':').head?.getD (lastValue lines "host")) want) = true := by
        cases hcfg : cfg.host with
        | none => simp
        | some want => simp [hup.host want hcfg]
      rw [if_neg (fun h => h.2 (hup.path h.1)), if_neg hhost, if_neg]
      rw [not_or, not_not, not_not]
      exact ⟨hconn.mp hup.connection, hupgr.mp hup.upgrade⟩

/-! ## The handshake -/

/-- A head that asks for the upgrade. -/
def Asks (cfg : HttpUpgradeConfig) (head : Bytes) : Prop :=
  ∃ text requestLine lines, fromUtf8 head = some text ∧
    splitLines '\r' '\n' text.toList = requestLine :: lines ∧ Upgrades cfg requestLine lines

/-- What is done behind a head. -/
theorem runOn_finish (cfg : HttpUpgradeConfig) (head : Bytes) (left : List Bytes) :
    (do Prog.lift (checkHead cfg head); Prog.writeAll response :
        Prog UInt8 IoError Unit).runOn left = (checkHead cfg head, left) ∧
      (do Prog.lift (checkHead cfg head); Prog.writeAll response :
        Prog UInt8 IoError Unit).writtenOn left =
        match checkHead cfg head with
        | .ok () => response
        | .error _ => [] := by
  cases checkHead cfg head with
  | error e => exact ⟨rfl, rfl⟩
  | ok u => exact ⟨runOn_writeAll response left, writtenOn_writeAll response left⟩

/-- **What the handshake does**: it checks the head the stream begins with and leaves what
is behind it, or fails if there is none. -/
theorem accept_cases (cfg : HttpUpgradeConfig) {pieces : List Bytes} (hcut : Cut pieces) :
    (∃ head left, pieces.flatten = head ++ left.flatten ∧ IsHead head ∧
        (accept cfg).runOn pieces = (checkHead cfg head, left) ∧
        (accept cfg).writtenOn pieces =
          match checkHead cfg head with
          | .ok () => response
          | .error _ => []) ∨
      ((∀ head rest, pieces.flatten = head ++ rest → ¬ IsHead head) ∧
        ∃ e left, (accept cfg).runOn pieces = (.error e, left) ∧
          (accept cfg).writtenOn pieces = []) := by
  have hread := runOn_flatten readHead hcut
  have hsilent : readHead.writtenOn pieces = [] := writtenOn_readHeadFrom [] pieces
  unfold accept
  rw [runOn_bind, writtenOn_bind, hsilent]
  revert hread
  generalize readHead.runOn pieces = run
  obtain ⟨r, left⟩ := run
  intro hread
  cases r with
  | error e =>
    refine .inr ⟨fun head rest hs hhead => ?_, e, left, rfl, rfl⟩
    rw [readHead_eq_ok.mpr ⟨hs, hhead⟩] at hread
    cases hread
  | ok head =>
    obtain ⟨hs, hhead⟩ := readHead_eq_ok.mp hread
    obtain ⟨hrun, hwritten⟩ := runOn_finish cfg head left
    exact .inl ⟨head, left, hs, hhead, hrun, hwritten⟩

/-- **The upgrade handshake is exact.**  For every configuration and every stream, however
it is cut: the handshake succeeds iff the stream begins with a head that asks for the
upgrade; if it begins with a head at all, what is left is what is behind the head, byte for
byte; and `101` is written if the handshake succeeds, and nothing otherwise. -/
theorem accept_exact (cfg : HttpUpgradeConfig) {pieces : List Bytes} (hcut : Cut pieces) :
    (((accept cfg).runOn pieces).1 = .ok () ↔
        ∃ head rest, pieces.flatten = head ++ rest ∧ IsHead head ∧ Asks cfg head) ∧
      (∀ head rest, pieces.flatten = head ++ rest → IsHead head →
        ((accept cfg).runOn pieces).2.flatten = rest) ∧
      (accept cfg).writtenOn pieces =
        match ((accept cfg).runOn pieces).1 with
        | .ok () => response
        | .error _ => [] := by
  rcases accept_cases cfg hcut with ⟨head, left, hs, hhead, hrun, hwritten⟩ |
    ⟨hno, e, left, hrun, hwritten⟩
  · have huniq : ∀ head' rest, pieces.flatten = head' ++ rest → IsHead head' →
        head' = head ∧ rest = left.flatten :=
      fun head' rest hs' hhead' => hhead'.unique hhead (hs'.symm.trans hs)
    rw [hrun, hwritten]
    refine ⟨⟨fun hok => ⟨head, left.flatten, hs, hhead, checkHead_eq_ok.mp hok⟩, ?_⟩,
      fun head' rest hs' hhead' => (huniq head' rest hs' hhead').2.symm, rfl⟩
    rintro ⟨head', rest, hs', hhead', hasks⟩
    rw [(huniq head' rest hs' hhead').1] at hasks
    exact checkHead_eq_ok.mpr hasks
  · -- no head is read, so the stream begins with none
    rw [hrun, hwritten]
    refine ⟨⟨nofun, ?_⟩, fun head rest hs hhead => absurd hhead (hno head rest hs), rfl⟩
    rintro ⟨head, rest, hs, hhead, -⟩
    exact absurd hhead (hno head rest hs)

/-- A path and a host that are asked for. -/
def oneConfig : HttpUpgradeConfig := ⟨"/tunnel", some "origin.example"⟩

/-- A request with its payload, in two pieces. -/
def oneRequest : List Bytes :=
  [asBytes "GET /tunnel HTTP/1.1\r\nHost: Origin.example:80\r\nConnection: Upgrade\r\n",
    asBytes "Upgrade: WebSocket\r\n\r\n" ++ [1, 2, 3]]

/-- The header lines of the request. -/
def oneLines : List (List Char) :=
  ["Host: Origin.example:80".toList, "Connection: Upgrade".toList, "Upgrade: WebSocket".toList,
    [], []]

theorem accept_exact_one :
    ((accept oneConfig).runOn oneRequest).1 = .ok () ∧
      ((accept oneConfig).runOn oneRequest).2.flatten = [1, 2, 3] ∧
      (accept oneConfig).writtenOn oneRequest = response := by
  have hcut : Cut oneRequest := by
    intro piece hp
    rcases List.mem_cons.mp hp with rfl | hp
    · decide +kernel
    · rw [List.mem_singleton.mp hp]
      decide +kernel
  let text := "GET /tunnel HTTP/1.1\r\nHost: Origin.example:80\r\nConnection: Upgrade\r\n" ++
    "Upgrade: WebSocket\r\n\r\n"
  have hs : oneRequest.flatten = asBytes text ++ [1, 2, 3] := by decide +kernel
  have hhead : IsHead (asBytes text) := ⟨by decide +kernel, 86, by decide +kernel, by decide +kernel⟩
  obtain ⟨hok, hleft, hwritten⟩ := accept_exact oneConfig hcut
  have hup : Upgrades oneConfig "GET /tunnel HTTP/1.1".toList oneLines := by
    refine ⟨fun _ => by decide +kernel, fun want hwant => ?_, by decide +kernel, by decide +kernel⟩
    obtain rfl : "origin.example" = want := Option.some.inj hwant
    decide +kernel
  have hrun := hok.mpr ⟨asBytes text, [1, 2, 3], hs, hhead, text, _, _, fromUtf8_asBytes text,
    by decide +kernel, hup⟩
  refine ⟨hrun, hleft _ _ hs hhead, ?_⟩
  rw [hwritten, hrun]

/-! ## Requests -/

section
variable {requestLine : List Char} {lines : List (List Char)}

/-- The empty lines at the end have no value. -/
theorem lastValue_append_blank (lines : List (List Char)) (name : String) :
    lastValue (lines ++ [[], []]) name = lastValue lines name := by
  rw [show lines ++ [[], []] = (lines ++ [[]]) ++ [[]] by simp, lastValue_concat, lastValue_concat]
  rfl

theorem upgrades_append_blank (cfg : HttpUpgradeConfig) :
    Upgrades cfg requestLine (lines ++ [[], []]) ↔ Upgrades cfg requestLine lines := by
  constructor
  · rintro ⟨hpath, hhost, hconn, hupgr⟩
    simp only [lastValue_append_blank] at hhost hconn hupgr
    exact ⟨hpath, hhost, hconn, hupgr⟩
  · rintro ⟨hpath, hhost, hconn, hupgr⟩
    refine ⟨hpath, ?_, ?_, ?_⟩ <;> simpa only [lastValue_append_blank]

end

/-- **Which requests are accepted.**  For every configuration, request line, non-empty header
lines and payload, however the stream is cut: the handshake succeeds iff the request fits
and asks for the upgrade, and then what is left is the payload. -/
theorem request_accepted_iff (cfg : HttpUpgradeConfig) {requestLine : List Char}
    {lines : List (List Char)} (hline : Unbroken '\r' '\n' requestLine)
    (hlines : ∀ l ∈ lines, Unbroken '\r' '\n' l ∧ l ≠ []) (payload : Bytes) {pieces : List Bytes}
    (hcut : Cut pieces) (hpieces : pieces.flatten = encodeRequest requestLine lines ++ payload) :
    (((accept cfg).runOn pieces).1 = .ok () ↔
        (encodeRequest requestLine lines).length ≤ maxHead + 1 ∧ Upgrades cfg requestLine lines) ∧
      (((accept cfg).runOn pieces).1 = .ok () →
        ((accept cfg).runOn pieces).2.flatten = payload) := by
  obtain ⟨idx, hidx, hend⟩ := findCrlfCrlf_encodeRequest hline hlines
  have hasks : checkHead cfg (encodeRequest requestLine lines) = .ok () ↔
      Upgrades cfg requestLine lines := by
    rw [checkHead_eq_ok, ← upgrades_append_blank]
    have htext : fromUtf8 (encodeRequest requestLine lines) =
        some (.ofList (['\r', '\n'].intercalate (requestLine :: (lines ++ [[], []])))) :=
      fromUtf8_asBytes _
    rw [htext]
    constructor
    · rintro ⟨_, _, _, ⟨⟩, hsplit, hup⟩
      rw [String.toList_ofList, splitLines_encodeRequest hline hlines] at hsplit
      cases hsplit
      exact hup
    · intro hup
      refine ⟨_, requestLine, lines ++ [[], []], rfl, ?_, hup⟩
      rw [String.toList_ofList, splitLines_encodeRequest hline hlines]
  have hfind := (findCrlfCrlf_take hidx).2 payload
  rw [hend, List.take_length] at hfind
  rcases accept_cases cfg hcut with ⟨head, left, hs, hhead, hrun, -⟩ | ⟨hno, e, left, hrun, -⟩
  · -- the head is the request
    obtain ⟨-, idx', hidx', hend'⟩ := id hhead
    have hfind' := (findCrlfCrlf_take hidx').2 left.flatten
    rw [hend', List.take_length, ← hs, hpieces, hfind] at hfind'
    cases hfind'
    obtain ⟨rfl, hleft⟩ := List.append_inj (hs.symm.trans hpieces) (hend'.symm.trans hend)
    rw [hrun]
    exact ⟨⟨fun hok => ⟨hhead.1, hasks.mp hok⟩, fun h => hasks.mpr h.2⟩, fun _ => hleft⟩
  · rw [hrun]
    refine ⟨⟨nofun, ?_⟩, nofun⟩
    rintro ⟨hlen, -⟩
    exact absurd ⟨hlen, idx, hidx, hend⟩ (hno _ _ hpieces)

theorem request_accepted_iff_one :
    ∃ left, (accept oneConfig).runOn [encodeRequest "GET /tunnel HTTP/1.1".toList
        [" upgrade : websocket".toList, "CONNECTION:UPGRADE".toList, "host: origin.example".toList],
        [7]] = (.ok (), left) ∧ left.flatten = [7] := by
  have hcut : Cut [encodeRequest "GET /tunnel HTTP/1.1".toList
      [" upgrade : websocket".toList, "CONNECTION:UPGRADE".toList, "host: origin.example".toList],
      [7]] := by
    intro piece hp
    rcases List.mem_cons.mp hp with rfl | hp
    · decide +kernel
    · rw [List.mem_singleton.mp hp]
      exact List.cons_ne_nil _ _
  have hup : Upgrades oneConfig "GET /tunnel HTTP/1.1".toList
      [" upgrade : websocket".toList, "CONNECTION:UPGRADE".toList,
        "host: origin.example".toList] := by
    refine ⟨fun _ => by decide +kernel, fun want hwant => ?_, by decide +kernel, by decide +kernel⟩
    obtain rfl : "origin.example" = want := Option.some.inj hwant
    decide +kernel
  have hline : ∀ l ∈ ["GET /tunnel HTTP/1.1".toList, " upgrade : websocket".toList,
      "CONNECTION:UPGRADE".toList, "host: origin.example".toList], '\r' ∉ l ∧ l ≠ [] := by
    decide +kernel
  obtain ⟨hfirst, hrest⟩ := List.forall_mem_cons.mp hline
  obtain ⟨hok, hleft⟩ := request_accepted_iff oneConfig (unbroken_of_not_mem hfirst.1)
    (fun l hl => ⟨unbroken_of_not_mem (hrest l hl).1, (hrest l hl).2⟩) [7] hcut rfl
  have hrun := hok.mpr ⟨by decide +kernel, hup⟩
  exact ⟨_, Prod.ext hrun rfl, hleft hrun⟩

end XrayRs.HttpUpgrade
