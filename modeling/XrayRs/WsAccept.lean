import XrayRs.Base64Url
import XrayRs.Text
import XrayRs.WsTunnel

/-! # Accepting a WebSocket, and writing to it

The callback of `accept` and `decode_early_data` (`transport/src/ws.rs`): which upgrade
requests are answered, and the early data that a client may put into
`Sec-WebSocket-Protocol`.  Then the writing side of `WsStream` and `WsWriteHalf`, where a
write is one binary message.  What the polls of the sink find is arbitrary; that a sink
queues one `Close` and takes nothing behind it is a hypothesis on them
(`WsSink.ClosesOnce`).

The early data are found in any spelling of their base64 text, in either alphabet and with
any padding, and in no other text (`decodeEarlyData_eq_some_iff`).  Between two ends of
the tunnel, the reader gets the early data and then what was written
(`early_then_written`). -/

namespace XrayRs.Ws

open Base64Url PolledReader Text

/-! ## The early data -/

/-- What `URL_SAFE_NO_PAD.decode` documents: the URL alphabet, no padding, and no bits left
over other than zeros. -/
def UrlSafeNoPad (decode : Bytes → Option Bytes) : Prop :=
  ∀ s bs, decode s = some bs ↔ s = encode bs

/-- What `decode_early_data` makes of a character. -/
def normalize (c : UInt8) : Option UInt8 :=
  if c = 0x2b then some 0x2d else if c = 0x2f then some 0x5f else if c = 0x3d then none else some c

section
variable (urlSafeNoPad : Bytes → Option Bytes)

/-- `decode_early_data`.  What is left of a text of ASCII is ASCII. -/
def decodeEarlyData (s : Bytes) : Option Bytes := urlSafeNoPad (s.filterMap normalize)

end

/-- `Spelling t s`: `s` spells the text `t` of the URL alphabet, where `+` may stand for
`-`, `/` for `_`, and a `=` for nothing. -/
inductive Spelling : Bytes → Bytes → Prop
  | nil : Spelling [] []
  | same {t s : Bytes} (c : UInt8) : c ≠ 0x2b → c ≠ 0x2f → c ≠ 0x3d → Spelling t s →
      Spelling (c :: t) (c :: s)
  | plus {t s : Bytes} : Spelling t s → Spelling (0x2d :: t) (0x2b :: s)
  | slash {t s : Bytes} : Spelling t s → Spelling (0x5f :: t) (0x2f :: s)
  | pad {t s : Bytes} : Spelling t s → Spelling t (0x3d :: s)

theorem normalize_same {c : UInt8} (hplus : c ≠ 0x2b) (hslash : c ≠ 0x2f) (hpad : c ≠ 0x3d) :
    normalize c = some c := by
  rw [normalize, if_neg hplus, if_neg hslash, if_neg hpad]

/-- A text normalises to what it spells. -/
theorem filterMap_normalize_eq_iff {s t : Bytes} :
    s.filterMap normalize = t ↔ Spelling t s := by
  constructor
  · rintro rfl
    induction s with
    | nil => exact .nil
    | cons c s ih =>
      by_cases hplus : c = 0x2b
      · subst hplus
        exact .plus ih
      · by_cases hslash : c = 0x2f
        · subst hslash
          exact .slash ih
        · by_cases hpad : c = 0x3d
          · subst hpad
            exact .pad ih
          · rw [List.filterMap_cons_some (normalize_same hplus hslash hpad)]
            exact .same c hplus hslash hpad ih
  · intro h
    induction h with
    | nil => rfl
    | same c hplus hslash hpad _ ih =>
      rw [List.filterMap_cons_some (normalize_same hplus hslash hpad), ih]
    | plus _ ih => exact congrArg (0x2d :: ·) ih
    | slash _ ih => exact congrArg (0x5f :: ·) ih
    | pad _ ih => exact ih

/-- **The texts in which early data are found**: the spellings of their base64 text. -/
theorem decodeEarlyData_eq_some_iff {decode : Bytes → Option Bytes} (hdecode : UrlSafeNoPad decode)
    {s d : Bytes} : decodeEarlyData decode s = some d ↔ Spelling (encode d) s := by
  rw [decodeEarlyData, hdecode, filterMap_normalize_eq_iff]

/-- A text spells one text only. -/
theorem Spelling.unique {s t t' : Bytes} (h : Spelling t s) (h' : Spelling t' s) : t = t' :=
  (filterMap_normalize_eq_iff.mpr h).symm.trans (filterMap_normalize_eq_iff.mpr h')

/-! ## The handshake -/

/-- `WsConfig`. -/
structure WsConfig where
  path : Bytes
  host : Option Bytes

/-- `Request`: what the callback reads of it. -/
structure Request where
  path : Bytes
  host : Option Bytes
  secWebsocketProtocol : Option Bytes

/-- `HeaderValue::to_str`: visible ASCII and tabs. -/
def headerToStr (value : Bytes) : Option Bytes :=
  if value.all fun b => (0x20 ≤ b && b < 0x7f) || b == 0x09 then some value else none

/-- `reject`: the status and the text of the response. -/
structure Reject where
  code : Nat
  msg : String
  deriving DecidableEq

section
variable (urlSafeNoPad : Bytes → Option Bytes)

/-- The early data of a request, and the header that is sent back for them. -/
def earlyOf (req : Request) : Bytes × Option Bytes :=
  match req.secWebsocketProtocol with
  | none => ([], none)
  | some proto =>
    match (headerToStr proto).bind (decodeEarlyData urlSafeNoPad) with
    | none => ([], none)
    | some ed => if ed.isEmpty then ([], none) else (ed, some proto)

/-- `host_ok`, or no host is configured. -/
def hostOk (cfg : WsConfig) (req : Request) : Bool :=
  match cfg.host with
  | none => true
  | some h => ((req.host.bind headerToStr).map fun got =>
      eqIgnoreAsciiCase ((got.splitOn 0x3a).head?.getD got) h).getD false

/-- The callback of `accept`: the early data, and the header of the response. -/
def callback (cfg : WsConfig) (req : Request) : Except Reject (Bytes × Option Bytes) :=
  if cfg.path ≠ [] ∧ req.path ≠ cfg.path then .error ⟨404, "bad path"⟩
  else if !hostOk cfg req then .error ⟨404, "bad host"⟩
  else .ok (earlyOf urlSafeNoPad req)

/-- `accept`, over a stream whose handshake goes through. -/
def accept (cfg : WsConfig) (req : Request) (ws : WebSocketStream) :
    Except Reject (WsStream × Option Bytes) :=
  (callback urlSafeNoPad cfg req).map fun (ed, proto) => (.new ws ed, proto)

end

/-- `EarlyData req d header`: what the request has as early data, and what is sent back. -/
inductive EarlyData (req : Request) : Bytes → Option Bytes → Prop
  | found {proto d : Bytes} : req.secWebsocketProtocol = some proto → d ≠ [] →
      Spelling (encode d) proto → EarlyData req d (some proto)
  | absent : (∀ proto d, req.secWebsocketProtocol = some proto → d ≠ [] →
      ¬ Spelling (encode d) proto) → EarlyData req [] none

/-- The host of a request, up to the first colon, is the configured one. -/
def HostMatches (cfg : WsConfig) (req : Request) : Prop :=
  ∀ h, cfg.host = some h → ∃ got, req.host = some got ∧ headerToStr got = some got ∧
    eqIgnoreAsciiCase ((got.splitOn 0x3a).head?.getD got) h = true

section Accept

variable {decode : Bytes → Option Bytes} {cfg : WsConfig} {req : Request}

theorem headerToStr_eq_some {value s : Bytes} (h : headerToStr value = some s) : s = value := by
  unfold headerToStr at h
  split at h
  · exact (Option.some.inj h).symm
  · cases h

/-- All symbols are visible. -/
theorem visible_symbol : ∀ n : Fin 64, 0x20 ≤ symbol n ∧ symbol n < 0x7f := by decide +kernel

/-- What spells early data is a visible text. -/
theorem Spelling.headerToStr {t s : Bytes} (h : Spelling t s)
    (hvisible : ∀ c ∈ t, 0x20 ≤ c ∧ c < 0x7f) : headerToStr s = some s := by
  have hall : ∀ c ∈ s, 0x20 ≤ c ∧ c < 0x7f := by
    induction h with
    | nil => nofun
    | same c _ _ _ _ ih =>
      obtain ⟨hc, ht⟩ := List.forall_mem_cons.mp hvisible
      exact List.forall_mem_cons.mpr ⟨hc, ih ht⟩
    | plus _ ih | slash _ ih =>
      exact List.forall_mem_cons.mpr ⟨by decide, ih (List.forall_mem_cons.mp hvisible).2⟩
    | pad _ ih => exact List.forall_mem_cons.mpr ⟨by decide, ih hvisible⟩
  rw [Ws.headerToStr, if_pos]
  rw [List.all_eq_true]
  intro c hc
  simp [hall c hc]

theorem hostOk_iff : hostOk cfg req = true ↔ HostMatches cfg req := by
  unfold hostOk HostMatches
  cases cfg.host with
  | none => simp
  | some h =>
    constructor
    · rintro hok h' heq
      obtain rfl := Option.some.inj heq
      cases hgot : req.host.bind headerToStr with
      | none => simp [hgot] at hok
      | some got =>
        obtain ⟨value, hvalue, htext⟩ := Option.bind_eq_some_iff.mp hgot
        obtain rfl := headerToStr_eq_some htext
        exact ⟨got, hvalue, htext, by simpa [hgot] using hok⟩
    · intro hall
      obtain ⟨got, hgot, htext, heq⟩ := hall h rfl
      simp [hgot, htext, heq]

/-- A spelling of early data is found. -/
theorem earlyOf_of_spelling (hdecode : UrlSafeNoPad decode) {proto d : Bytes}
    (hproto : req.secWebsocketProtocol = some proto) (hne : d ≠ [])
    (hspelling : Spelling (encode d) proto) : earlyOf decode req = (d, some proto) := by
  have hvisible := hspelling.headerToStr fun c hc => by
    obtain ⟨n, rfl⟩ := exists_symbol_of_mem hc
    exact visible_symbol n
  have hdecoded := (decodeEarlyData_eq_some_iff hdecode).mpr hspelling
  have hempty : d.isEmpty = false := by simpa using hne
  simp [earlyOf, hproto, hvisible, hdecoded, hempty]

/-- What is found are early data. -/
theorem earlyData_earlyOf (hdecode : UrlSafeNoPad decode) :
    EarlyData req (earlyOf decode req).1 (earlyOf decode req).2 := by
  by_cases hsome : ∃ proto d, req.secWebsocketProtocol = some proto ∧ d ≠ [] ∧
      Spelling (encode d) proto
  · obtain ⟨proto, d, hproto, hne, hspelling⟩ := hsome
    rw [earlyOf_of_spelling hdecode hproto hne hspelling]
    exact .found hproto hne hspelling
  · have hnothing : earlyOf decode req = ([], none) := by
      unfold earlyOf
      cases hproto : req.secWebsocketProtocol with
      | none => rfl
      | some proto =>
        cases htext : (headerToStr proto).bind (decodeEarlyData decode) with
        | none => simp only [htext]
        | some ed =>
          simp only [htext]
          split
          · rfl
          · next hne =>
            obtain ⟨s, hs, hed⟩ := Option.bind_eq_some_iff.mp htext
            obtain rfl := headerToStr_eq_some hs
            exact absurd ⟨s, ed, hproto, by simpa using hne,
              (decodeEarlyData_eq_some_iff hdecode).mp hed⟩ hsome
    rw [hnothing]
    exact .absent fun proto d hproto hne hspelling => hsome ⟨proto, d, hproto, hne, hspelling⟩

/-- Early data are determined by the request. -/
theorem EarlyData.unique (hdecode : UrlSafeNoPad decode) {d : Bytes} {header : Option Bytes}
    (h : EarlyData req d header) : earlyOf decode req = (d, header) := by
  cases h with
  | found hproto hne hspelling => exact earlyOf_of_spelling hdecode hproto hne hspelling
  | absent habsent =>
    have hfound : EarlyData req (earlyOf decode req).1 (earlyOf decode req).2 :=
      earlyData_earlyOf hdecode
    generalize earlyOf decode req = early at hfound ⊢
    obtain ⟨d', header'⟩ := early
    cases hfound with
    | found hproto hne hspelling => exact absurd hspelling (habsent _ _ hproto hne)
    | absent => rfl

/-- An accepted request's stream begins with its early data. -/
theorem stream_of_accept (hdecode : UrlSafeNoPad decode) {ws : WebSocketStream}
    {stream : WsStream} {header : Option Bytes}
    (h : accept decode cfg req ws = .ok (stream, header)) :
    ∃ d, EarlyData req d header ∧ stream = .new ws d := by
  rw [accept, callback] at h
  split at h
  · cases h
  · split at h
    · cases h
    · obtain ⟨rfl, rfl⟩ := Prod.mk.inj (Except.ok.inj h)
      exact ⟨_, earlyData_earlyOf hdecode, rfl⟩

/-- **Which requests are accepted, and with which early data.**  A request is accepted just
where its path is the configured one, if any, and so is its host up to the first colon.
The early data are what the protocol header spells, if it spells any in either alphabet of
base64, and only then the header is sent back. -/
theorem accept_exact_early (hdecode : UrlSafeNoPad decode) (ws : WebSocketStream)
    {stream : WsStream} {header : Option Bytes} :
    accept decode cfg req ws = .ok (stream, header) ↔
      (cfg.path = [] ∨ req.path = cfg.path) ∧ HostMatches cfg req ∧
        ∃ d, EarlyData req d header ∧ stream = .new ws d := by
  rw [← hostOk_iff, accept, callback]
  by_cases hpath : cfg.path ≠ [] ∧ req.path ≠ cfg.path
  · rw [if_pos hpath]
    constructor
    · nofun
    · rintro ⟨hnil | heq, -⟩
      · exact absurd hnil hpath.1
      · exact absurd heq hpath.2
  · rw [if_neg hpath]
    have hpath' : cfg.path = [] ∨ req.path = cfg.path := by
      by_contra hnot
      rw [not_or] at hnot
      exact hpath hnot
    cases hhost : hostOk cfg req with
    | false => simp [Except.map]
    | true =>
      constructor
      · intro h
        obtain ⟨rfl, rfl⟩ := Prod.mk.inj (Except.ok.inj h)
        exact ⟨hpath', rfl, _, earlyData_earlyOf hdecode, rfl⟩
      · rintro ⟨-, -, d, hd, rfl⟩
        have hearly := hd.unique hdecode
        simp [Except.map, hearly]

/-- The host of the request is spelled in capitals and has a port, the two bytes of early
data are spelled in the other alphabet, with padding. -/
theorem accept_exact_early_padded :
    accept Base64Url.decode ⟨asBytes "/ray", some (asBytes "example.org")⟩
      ⟨asBytes "/ray", some (asBytes "EXAMPLE.org:443"), some (asBytes "+/8=")⟩ ⟨[], true⟩ =
      .ok (.new ⟨[], true⟩ [0xfb, 0xff], some (asBytes "+/8=")) := by
  have htext : encode [0xfb, 0xff] = [0x2d, 0x5f, 0x38] := by decide +kernel
  have hspelling : Spelling (encode [0xfb, 0xff]) (asBytes "+/8=") := by
    rw [htext]
    exact .plus (.slash (.same 0x38 (by decide) (by decide) (by decide) (.pad .nil)))
  refine (accept_exact_early (fun _ _ => decode_eq_some_iff) _).mpr ⟨.inr rfl, ?_, _,
    .found rfl (by decide) hspelling, rfl⟩
  rintro h heq
  obtain rfl := Option.some.inj heq
  exact ⟨_, rfl, by decide +kernel, by decide +kernel⟩

end Accept

/-! ## Writing -/

/-- What `poll_ready`, a flush or a close of the sink answers. -/
inductive PollReady
  | pending
  | ok
  | failed
  deriving DecidableEq

/-- What one poll of the sink finds, whether `start_send` then takes the message, and whether
a `poll_close` queues a `Close`. -/
structure Turn where
  ready : PollReady
  accepts : Bool
  closes : Bool
  deriving DecidableEq

/-- The sending side of the WebSocket, whole or as the sink of a write half: what its polls
to come find, the messages it has taken, and whether `poll_close` was called. -/
structure WsSink where
  turns : List Turn
  sent : List Message
  closing : Bool
  deriving DecidableEq

namespace WsSink

def new (turns : List Turn) : WsSink := ⟨turns, [], false⟩

/-- `start_send`. -/
def startSend (s : WsSink) (accepts : Bool) (m : Message) : Option WsSink :=
  if accepts then some { s with sent := s.sent ++ [m] } else none

/-- The wait of `SinkExt::send` for its flush. -/
def flushed (s : WsSink) : Option WsSink :=
  match _h : s.turns with
  | [] => some s
  | turn :: turns =>
    match turn.ready with
    | .pending => flushed { s with turns := turns }
    | .ok => some { s with turns := turns }
    | .failed => none
termination_by s.turns.length
decreasing_by simp [_h]

/-- `WsWriteHalf::send`: the payloads taken, and the sink after it.  A task that still waits
ends the turns. -/
def send (s : WsSink) (buf : Bytes) : Option (List Bytes × WsSink) :=
  match _h : s.turns with
  | [] => some ([], s)
  | turn :: turns =>
    match turn.ready with
    | .pending => send { s with turns := turns } buf
    | .failed => none
    | .ok => do
      let s ← { s with turns := turns }.startSend turn.accepts (.binary buf)
      let s ← s.flushed
      return ([buf], s)
termination_by s.turns.length
decreasing_by simp [_h]

/-- `WsStream::poll_write`. -/
def pollWrite (s : WsSink) (buf : Bytes) : Option (List Bytes × WsSink) :=
  match s.turns with
  | [] => some ([], s)
  | turn :: turns =>
    match turn.ready with
    | .pending => some ([], { s with turns := turns })
    | .failed => none
    | .ok => do
      let s ← { s with turns := turns }.startSend turn.accepts (.binary buf)
      return ([buf], s)

/-- `poll_flush`. -/
def pollFlush (s : WsSink) : Option (List Bytes × WsSink) :=
  match s.turns with
  | [] => some ([], s)
  | turn :: turns =>
    if turn.ready = .failed then none else some ([], { s with turns := turns })

/-- `poll_shutdown`: a `poll_close` of the sink. -/
def pollShutdown (s : WsSink) : Option (List Bytes × WsSink) :=
  match s.turns with
  | [] => some ([], s)
  | turn :: turns =>
    if turn.ready = .failed then none
    else some ([], ⟨turns, if turn.closes then s.sent ++ [.close] else s.sent, true⟩)

end WsSink

/-- What is done to the sending side. -/
inductive WriteOp
  | write (buf : Bytes)
  | send (buf : Bytes)
  | flush
  | shutdown
  deriving DecidableEq

namespace WsSink

/-- One call.  `none` where it fails. -/
def call (s : WsSink) : WriteOp → Option (List Bytes × WsSink)
  | .write buf => s.pollWrite buf
  | .send buf => s.send buf
  | .flush => s.pollFlush
  | .shutdown => s.pollShutdown

/-- Calls one after the other: the payloads taken, and the sink after them. -/
def calls (s : WsSink) : List WriteOp → Option (List Bytes × WsSink)
  | [] => some ([], s)
  | op :: ops => do
    let (taken, s) ← s.call op
    let (more, s) ← s.calls ops
    return (taken ++ more, s)

/-- The first `poll_close` queues a `Close`; behind it no message is taken, and no other
`Close` is queued. -/
def Closes (s : WsSink) (op : WriteOp) : Prop :=
  if s.closing then ∀ turn ∈ s.turns, turn.accepts = false ∧ turn.closes = false
  else op = .shutdown → ∀ turn ∈ s.turns.head?, turn.closes = true

/-- **What `tungstenite` documents of a sink that is closed**, at each of these calls. -/
def ClosesOnce (s : WsSink) : List WriteOp → Prop
  | [] => True
  | op :: ops => s.Closes op ∧ ∀ x ∈ s.call op, x.2.ClosesOnce ops

instance (s : WsSink) (op : WriteOp) : Decidable (s.Closes op) :=
  inferInstanceAs (Decidable (if s.closing then
    ∀ turn ∈ s.turns, turn.accepts = false ∧ turn.closes = false
    else op = .shutdown → ∀ turn ∈ s.turns.head?, turn.closes = true))

instance decidableClosesOnce : (ops : List WriteOp) → (s : WsSink) → Decidable (s.ClosesOnce ops)
  | [], _ => .isTrue trivial
  | op :: ops, s =>
    have (s : WsSink) : Decidable (s.ClosesOnce ops) := decidableClosesOnce ops s
    inferInstanceAs (Decidable (s.Closes op ∧ ∀ x ∈ s.call op, x.2.ClosesOnce ops))

end WsSink

/-- **The invariant of the writing side**: each payload taken is one message, in order, and
a closing sink has queued `Close` after them. -/
def Written (accepted : List Bytes) (s : WsSink) : Prop :=
  s.sent = accepted.map .binary ++ if s.closing then [.close] else []

section Writing

variable {s s' : WsSink} {accepted taken : List Bytes} {buf : Bytes}

/-- No turn of a closing sink takes a message. -/
def WsSink.Refuses (s : WsSink) : Prop := s.closing = true → ∀ turn ∈ s.turns, turn.accepts = false

theorem WsSink.Closes.refuses {op : WriteOp} (h : s.Closes op) : s.Refuses := by
  intro hclosing turn hturn
  rw [WsSink.Closes, if_pos hclosing] at h
  exact (h turn hturn).1

theorem WsSink.Refuses.tail {turn : Turn} {turns : List Turn} (h : s.Refuses)
    (hturns : s.turns = turn :: turns) : WsSink.Refuses { s with turns } :=
  fun hclosing t ht => h hclosing t (hturns ▸ List.mem_cons_of_mem _ ht)

theorem Written.startSend (h : Written accepted s) (hrefuses : s.Refuses) {turn : Turn}
    {turns : List Turn} (hturns : s.turns = turn :: turns)
    (hsend : WsSink.startSend { s with turns } turn.accepts (.binary buf) = some s') :
    Written (accepted ++ [buf]) s' := by
  unfold WsSink.startSend at hsend
  split at hsend
  · next htakes =>
    obtain rfl := Option.some.inj hsend
    have hopen : s.closing = false := by
      cases hclosing : s.closing with
      | false => rfl
      | true =>
        have hnot := hrefuses hclosing turn (hturns ▸ List.mem_cons_self)
        cases htakes.symm.trans hnot
    rw [Written, hopen] at h
    simp [Written, hopen, h]
  · cases hsend

theorem flushed_sent (h : s.flushed = some s') : s'.sent = s.sent ∧ s'.closing = s.closing := by
  fun_induction WsSink.flushed s with
  | case1 s hturns =>
    obtain rfl := Option.some.inj h
    exact ⟨rfl, rfl⟩
  | case2 s turn turns hturns hready ih => exact ih h
  | case3 s turn turns hturns hready =>
    obtain rfl := Option.some.inj h
    exact ⟨rfl, rfl⟩
  | case4 => cases h

theorem Written.send (h : Written accepted s) (hrefuses : s.Refuses)
    (hsend : s.send buf = some (taken, s')) : Written (accepted ++ taken) s' := by
  fun_induction WsSink.send s buf with
  | case1 s hturns =>
    obtain ⟨rfl, rfl⟩ := Prod.mk.inj (Option.some.inj hsend)
    rw [List.append_nil]
    exact h
  | case2 s turn turns hturns hready ih => exact ih h (hrefuses.tail hturns) hsend
  | case3 => cases hsend
  | case4 s turn turns hturns hready =>
    obtain ⟨s₁, hstart, hsend⟩ := Option.bind_eq_some_iff.mp hsend
    obtain ⟨s₂, hflushed, hsend⟩ := Option.bind_eq_some_iff.mp hsend
    obtain ⟨rfl, rfl⟩ := Prod.mk.inj (Option.some.inj hsend)
    have hwritten := h.startSend hrefuses hturns hstart
    obtain ⟨hsent, hclosing⟩ := flushed_sent hflushed
    rw [Written, hsent, hclosing]
    exact hwritten

theorem Written.write (h : Written accepted s) (hrefuses : s.Refuses)
    (hwrite : s.pollWrite buf = some (taken, s')) : Written (accepted ++ taken) s' := by
  rw [WsSink.pollWrite] at hwrite
  cases hturns : s.turns with
  | nil =>
    rw [hturns] at hwrite
    obtain ⟨rfl, rfl⟩ := Prod.mk.inj (Option.some.inj hwrite)
    rw [List.append_nil]
    exact h
  | cons turn turns =>
    simp only [hturns] at hwrite
    cases hready : turn.ready with
    | pending =>
      simp only [hready] at hwrite
      obtain ⟨rfl, rfl⟩ := Prod.mk.inj (Option.some.inj hwrite)
      rw [List.append_nil]
      exact h
    | failed =>
      simp only [hready] at hwrite
      cases hwrite
    | ok =>
      simp only [hready] at hwrite
      obtain ⟨s₁, hstart, hwrite⟩ := Option.bind_eq_some_iff.mp hwrite
      obtain ⟨rfl, rfl⟩ := Prod.mk.inj (Option.some.inj hwrite)
      exact h.startSend hrefuses hturns hstart

theorem Written.flush (h : Written accepted s) (hflush : s.pollFlush = some (taken, s')) :
    Written (accepted ++ taken) s' := by
  unfold WsSink.pollFlush at hflush
  split at hflush
  · obtain ⟨rfl, rfl⟩ := Prod.mk.inj (Option.some.inj hflush)
    rw [List.append_nil]
    exact h
  · split at hflush
    · cases hflush
    · obtain ⟨rfl, rfl⟩ := Prod.mk.inj (Option.some.inj hflush)
      rw [List.append_nil]
      exact h

theorem Written.shutdown (h : Written accepted s) (hcloses : s.Closes .shutdown)
    (hclose : s.pollShutdown = some (taken, s')) : Written (accepted ++ taken) s' := by
  unfold WsSink.pollShutdown at hclose
  split at hclose
  · obtain ⟨rfl, rfl⟩ := Prod.mk.inj (Option.some.inj hclose)
    rw [List.append_nil]
    exact h
  · next turn turns hturns =>
    split at hclose
    · cases hclose
    · obtain ⟨rfl, rfl⟩ := Prod.mk.inj (Option.some.inj hclose)
      rw [WsSink.Closes] at hcloses
      rw [Written] at h
      cases hclosing : s.closing with
      | true =>
        rw [if_pos hclosing] at hcloses
        have hnot := (hcloses turn (hturns ▸ List.mem_cons_self)).2
        simpa [Written, hnot, hclosing] using h
      | false =>
        rw [if_neg (by simp [hclosing])] at hcloses
        have hqueues := hcloses rfl turn (by rw [hturns]; rfl)
        simpa [Written, hqueues, hclosing] using h

theorem Written.call (h : Written accepted s) {op : WriteOp} (hcloses : s.Closes op)
    (hcall : s.call op = some (taken, s')) : Written (accepted ++ taken) s' := by
  cases op with
  | write buf => exact h.write hcloses.refuses hcall
  | send buf => exact h.send hcloses.refuses hcall
  | flush => exact h.flush hcall
  | shutdown => exact h.shutdown hcloses hcall

/-- **Any calls**, up to the first that fails. -/
theorem Written.calls (h : Written accepted s) {ops : List WriteOp} {more : List Bytes}
    (hcloses : s.ClosesOnce ops) (hcalls : s.calls ops = some (more, s')) :
    Written (accepted ++ more) s' := by
  induction ops generalizing s accepted more with
  | nil =>
    obtain ⟨rfl, rfl⟩ := Prod.mk.inj (Option.some.inj hcalls)
    rw [List.append_nil]
    exact h
  | cons op ops ih =>
    obtain ⟨⟨taken, s₁⟩, hcall, hcalls⟩ := Option.bind_eq_some_iff.mp hcalls
    obtain ⟨⟨rest, s₂⟩, hrest, hcalls⟩ := Option.bind_eq_some_iff.mp hcalls
    obtain ⟨rfl, rfl⟩ := Prod.mk.inj (Option.some.inj hcalls)
    rw [← List.append_assoc]
    exact ih (h.call hcloses.1 hcall) (hcloses.2 _ hcall) hrest

end Writing

/-! ## Both ends -/

/-- A message that is not the protocol's own. -/
def Message.IsData : Message → Bool
  | .text _ | .binary _ | .close => true
  | .ping _ | .pong _ | .frame _ => false

/-- The messages that have arrived, without those of the protocol. -/
def arrived (polls : List PollNext) : List Message :=
  polls.filterMap fun
    | .message m => if m.IsData then some m else none
    | .pending | .failed => none

/-- The payloads of messages before the first `Close`. -/
def payloadsOf : List Message → Bytes
  | [] => []
  | .close :: _ => []
  | m :: ms => m.payload ++ payloadsOf ms

theorem payloads_eq_arrived (polls : List PollNext) : payloads polls = payloadsOf (arrived polls) := by
  induction polls with
  | nil => rfl
  | cons next polls ih =>
    cases next with
    | pending | failed => exact ih
    | message m =>
      cases m with
      | close => rfl
      | text t => exact congrArg (asBytes t ++ ·) ih
      | binary d => exact congrArg (d ++ ·) ih
      | ping d | pong d | frame d => exact ih

theorem close_mem_arrived {polls : List PollNext} :
    .close ∈ arrived polls ↔ .message .close ∈ polls := by
  unfold arrived
  rw [List.mem_filterMap]
  constructor
  · rintro ⟨next, hnext, heq⟩
    cases next with
    | pending | failed => cases heq
    | message m =>
      dsimp only at heq
      split at heq
      · obtain rfl := Option.some.inj heq
        exact hnext
      · cases heq
  · intro hmem
    exact ⟨_, hmem, rfl⟩

theorem payloadsOf_binary (accepted : List Bytes) (ms : List Message) :
    payloadsOf (accepted.map .binary ++ ms) = accepted.flatten ++ payloadsOf ms := by
  induction accepted with
  | nil => rfl
  | cons buf accepted ih =>
    rw [List.map_cons, List.cons_append, payloadsOf, ih, List.flatten_cons, List.append_assoc]
    · rfl
    · nofun

theorem payloadsOf_isPrefix {ms ms' : List Message} (h : ms <+: ms') :
    payloadsOf ms <+: payloadsOf ms' := by
  obtain ⟨rest, rfl⟩ := h
  induction ms with
  | nil => exact List.nil_prefix
  | cons m ms ih =>
    cases m with
    | close => exact List.prefix_rfl
    | text | binary | ping | pong | frame => exact (List.prefix_append_right_inj _).mpr ih

/-- A `Close` among the messages of a sink is the last of them. -/
theorem Written.arrived_of_close {accepted : List Bytes} {s : WsSink} (h : Written accepted s)
    {ms : List Message} (hms : ms <+: s.sent) (hclose : .close ∈ ms) : ms = s.sent := by
  obtain ⟨rest, hrest⟩ := hms
  rw [← hrest]
  rw [Written] at h
  cases hclosing : s.closing with
  | false =>
    rw [hclosing, if_neg (by simp), List.append_nil] at h
    have hmem : Message.close ∈ s.sent := hrest ▸ List.mem_append_left _ hclose
    rw [h] at hmem
    obtain ⟨buf, -, heq⟩ := List.mem_map.mp hmem
    cases heq
  | true =>
    rw [hclosing, if_pos rfl, ← hrest] at h
    rcases List.eq_nil_or_concat rest with rfl | ⟨rest', last, rfl⟩
    · exact (List.append_nil _).symm
    · -- the `Close` would be in front of the last message, among the payloads
      rw [List.concat_eq_append, ← List.append_assoc] at h
      obtain ⟨hfront, -⟩ := List.append_inj' h rfl
      have hmem : Message.close ∈ ms ++ rest' := List.mem_append_left _ hclose
      rw [hfront] at hmem
      obtain ⟨buf, -, heq⟩ := List.mem_map.mp hmem
      cases heq

/-- **From end to end.**  An upgrade request is accepted; its client makes any calls that do
not fail, on a sink that queues one `Close` and takes nothing behind it, and of the messages
sent the server's stream has brought some, in order, with
control messages and waits anywhere between them.  For any sizes of the reader's buffers,
and wherever the stream is split: no poll fails, and what is delivered are the early data
and then the payloads written, from the front.  All of it is delivered after enough polls
where all messages have arrived, and by the time that the end is told on a connection that
was not cut. -/
theorem early_then_written {decode : Bytes → Option Bytes} (hdecode : UrlSafeNoPad decode)
    {cfg : WsConfig} {req : Request} {polls : List PollNext} {ended : Bool} {stream : WsStream}
    {header : Option Bytes} (haccept : accept decode cfg req ⟨polls, ended⟩ = .ok (stream, header))
    {turns : List Turn} {writes : List WriteOp} {accepted : List Bytes} {sink : WsSink}
    (hcalls : (WsSink.new turns).calls writes = some (accepted, sink))
    (hcloses : (WsSink.new turns).ClosesOnce writes) (hclean : Clean polls)
    (harrived : arrived polls <+: sink.sent) {ops : List Op} (hroomy : Roomy ops)
    {rs : List (Polled Error)} (hrs : rs = (Tunnel.reader.run (.whole stream) ops).1) :
    ∃ d, EarlyData req d header ∧ (∀ e, .err e ∉ rs) ∧ delivered rs <+: d ++ accepted.flatten ∧
      (arrived polls = sink.sent →
        (d ++ accepted.flatten).length + waits polls < PolledReader.polls ops →
          delivered rs = d ++ accepted.flatten) ∧
      (.ready [] ∈ rs → ended = false → sink.closing = true ∧
        delivered rs = d ++ accepted.flatten) := by
  obtain ⟨d, hearly, rfl⟩ := stream_of_accept hdecode haccept
  have hwritten : Written accepted sink := by
    have hnew : Written [] (WsSink.new turns) := rfl
    have hcalls := hnew.calls hcloses hcalls
    rwa [List.nil_append] at hcalls
  -- the payloads that have come are among those written
  have hall : arrived polls = sink.sent → payloads polls = accepted.flatten := by
    intro heq
    rw [payloads_eq_arrived, heq, hwritten, payloadsOf_binary]
    split <;> simp [payloadsOf]
  have hfront : d ++ payloads polls <+: d ++ accepted.flatten := by
    rw [List.prefix_append_right_inj, payloads_eq_arrived]
    refine (payloadsOf_isPrefix harrived).trans ?_
    rw [hwritten, payloadsOf_binary]
    split <;> simp [payloadsOf]
  have hvalid : Tunnel.view.Valid (.whole (.new ⟨polls, ended⟩ d)) := ⟨nofun, fun _ => hclean⟩
  have hleft : Tunnel.view.left (.whole (.new ⟨polls, ended⟩ d)) = d ++ payloads polls := rfl
  have hsession := Tunnel.delivers.run hvalid hroomy
  have henough := Tunnel.delivers.run_enough hvalid hroomy
  rw [← hrs] at hsession henough
  refine ⟨d, hearly, hsession.no_err, ?_, ?_, ?_⟩
  · exact List.IsPrefix.trans ⟨_, hsession.bytes.symm⟩ hfront
  · intro heq hpolls
    rw [← hall heq] at hpolls ⊢
    exact (henough hpolls).1
  · intro hend hcut
    obtain ⟨before, after, heq⟩ := List.append_of_mem hend
    obtain ⟨hbefore, hover, hafter⟩ := hsession.at_end before after heq
    have hclose : .message .close ∈ polls := by
      rcases hover with heof | hclose | hended
      · cases heof
      · exact hclose
      · exact absurd (hcut.symm.trans hended) (by decide)
    have hsent := hwritten.arrived_of_close harrived (close_mem_arrived.mpr hclose)
    have hclosing : sink.closing = true := by
      have hmem := close_mem_arrived.mpr hclose
      rw [hsent, hwritten] at hmem
      rcases List.mem_append.mp hmem with hmem | hmem
      · obtain ⟨buf, -, heq⟩ := List.mem_map.mp hmem
        cases heq
      · by_contra hopen
        rw [if_neg hopen] at hmem
        cases hmem
    refine ⟨hclosing, ?_⟩
    rw [← hall hsent]
    have hprefix : delivered before <+: delivered rs := by
      rw [heq]
      exact ⟨delivered (.ready [] :: after), by simp [delivered]⟩
    rw [hbefore] at hprefix
    exact (List.IsPrefix.eq_of_length_le hprefix
      (List.IsPrefix.length_le ⟨_, hsession.bytes.symm⟩)).symm

/-- Two bytes of early data and two writes, the second through the write half, before the
client closes. -/
theorem early_then_written_two : ∃ stream header,
    accept Base64Url.decode ⟨[], none⟩ ⟨[], none, some (asBytes "-_8")⟩
      ⟨[.message (.binary [1, 2]), .pending, .message (.ping []), .message (.binary [3]),
        .message .close], false⟩ = .ok (stream, header) ∧
      delivered (Tunnel.reader.run (.whole stream)
        [.poll 1, .poll 9, .turn, .poll 9, .poll 9, .poll 9, .poll 9]).1 =
        [0xfb, 0xff, 1, 2, 3] := by
  have haccept : accept Base64Url.decode ⟨[], none⟩ ⟨[], none, some (asBytes "-_8")⟩
      ⟨[.message (.binary [1, 2]), .pending, .message (.ping []), .message (.binary [3]),
        .message .close], false⟩ = .ok (.new ⟨[.message (.binary [1, 2]), .pending,
        .message (.ping []), .message (.binary [3]), .message .close], false⟩ [0xfb, 0xff],
        some (asBytes "-_8")) := by
    have htext : earlyOf Base64Url.decode ⟨[], none, some (asBytes "-_8")⟩ =
        ([0xfb, 0xff], some (asBytes "-_8")) := by decide +kernel
    simp only [accept, callback, hostOk, htext]
    rfl
  have hcalls : (WsSink.new [⟨.ok, true, true⟩, ⟨.pending, true, true⟩, ⟨.ok, true, true⟩,
      ⟨.ok, true, true⟩, ⟨.pending, true, true⟩, ⟨.ok, false, false⟩]).calls
      [.write [1, 2], .flush, .send [3], .shutdown, .shutdown] =
      some ([[1, 2], [3]], ⟨[], [.binary [1, 2], .binary [3], .close], true⟩) := by
    decide +kernel
  have hcloses : (WsSink.new [⟨.ok, true, true⟩, ⟨.pending, true, true⟩, ⟨.ok, true, true⟩,
      ⟨.ok, true, true⟩, ⟨.pending, true, true⟩, ⟨.ok, false, false⟩]).ClosesOnce
      [.write [1, 2], .flush, .send [3], .shutdown, .shutdown] := by
    decide +kernel
  have hroomy : Roomy [.poll 1, .poll 9, .turn, .poll 9, .poll 9, .poll 9, .poll 9] := by
    simp [Roomy]
  refine ⟨_, _, haccept, ?_⟩
  obtain ⟨d, hearly, -, -, -, hend⟩ := early_then_written (fun _ _ => decode_eq_some_iff) haccept
    hcalls hcloses trivial (by decide) hroomy rfl
  have htext : encode [0xfb, 0xff] = [0x2d, 0x5f, 0x38] := by decide +kernel
  have hspelling : Spelling (encode [0xfb, 0xff]) (asBytes "-_8") := by
    rw [htext]
    exact .same _ (by decide) (by decide) (by decide) (.same _ (by decide) (by decide) (by decide)
      (.same _ (by decide) (by decide) (by decide) .nil))
  have hfound := hearly.unique (fun _ _ => decode_eq_some_iff)
  rw [earlyOf_of_spelling (fun _ _ => decode_eq_some_iff) rfl (by decide) hspelling] at hfound
  obtain ⟨rfl, -⟩ := Prod.mk.inj hfound
  exact (hend (by decide +kernel) rfl).2

end XrayRs.Ws
