import XrayRs.AddressCodec

/-! # Reading a protocol header off a stream

`read_header` of `kernel/src/pipe/translation.rs` re-runs a parser from scratch
on everything received so far, until it answers with something other than
`Truncated`.  The stream is given by the reads it will serve: the bytes of one
`read` call after the other, then end of file.

The main result (`readHeader_outcome`) is that the outcome is a function of the
byte stream alone: an incremental parser run once on the whole stream decides
it, wherever the reads are cut. -/

namespace XrayRs

open ByteWords ByteParser

/-! ## Fields are incremental -/

abbrev Incremental {α : Type} (p : Parser α) : Prop := ByteParser.Incremental Error.IsTruncated p
abbrev Bounded {α : Type} (n : Nat) (p : Parser α) : Prop := ByteParser.Bounded Error.IsTruncated n p

theorem incremental_take (n : Nat) : Incremental (take n) where
  ok_local h := by
    obtain ⟨rfl, hlen⟩ := take_eq_ok h
    exact ⟨_, rfl, take_append hlen⟩
  error_final h hn := by
    obtain ⟨-, rfl⟩ := take_eq_error h
    exact absurd trivial hn

theorem bounded_take (n : Nat) : Bounded n (take n) where
  need h _ := (take_eq_error h).1
  consumed h := by
    obtain ⟨rfl, hlen⟩ := take_eq_ok h
    rw [List.length_append]
    omega

theorem incremental_takeU8 : Incremental takeU8 where
  ok_local {buf a rest} h := by
    obtain rfl := takeU8_eq_ok h
    exact ⟨[a], rfl, fun _ => rfl⟩
  error_final {buf e} h hn := by
    cases buf with
    | nil =>
      cases h
      exact absurd trivial hn
    | cons b t => cases h

theorem bounded_takeU8 : Bounded 1 takeU8 where
  need {buf e} h _ := by
    cases buf with
    | nil => exact Nat.zero_lt_one
    | cons b t => cases h
  consumed h := by
    rw [takeU8_eq_ok h]
    exact Nat.le_refl _

theorem incremental_readPort : Incremental readPort where
  ok_local {buf p rest} h := by
    obtain rfl := readPort_eq_ok h
    exact ⟨u16ToBe p, rfl, readPort_u16ToBe p⟩
  error_final {buf e} h hn := by
    match buf, h with
    | [], h =>
      cases h
      exact absurd trivial hn
    | [_], h =>
      cases h
      exact absurd trivial hn
    | _ :: _ :: _, h => cases h

theorem bounded_readPort : Bounded 2 readPort where
  need {buf e} h _ := by
    match buf, h with
    | [], _ => exact Nat.zero_lt_two
    | [_], _ => exact Nat.one_lt_two
    | _ :: _ :: _, h => cases h
  consumed h := by
    rw [readPort_eq_ok h, List.length_append, u16ToBe_length]
    omega

theorem incremental_readAddress (c : AddrCodec) : Incremental c.readAddress := by
  refine incremental_takeU8.bind fun t => ?_
  simp only
  split
  · exact Incremental.throw _
  · exact (incremental_take 4).bind fun _ => Incremental.lift _
  · exact (incremental_take 16).bind fun _ => Incremental.lift _
  · refine incremental_takeU8.bind fun len => ?_
    split
    · exact Incremental.throw _
    · exact (incremental_take _).bind fun _ => Incremental.lift _

theorem incremental_read (c : AddrCodec) : Incremental c.read := by
  unfold AddrCodec.read
  split
  · exact incremental_readPort.bind fun _ => (incremental_readAddress c).bind fun _ => .pure _
  · exact (incremental_readAddress c).bind fun _ => incremental_readPort.bind fun _ => .pure _

/-- The checks on a complete field never ask for more bytes. -/
theorem fromIpBytes_not_truncated {b : Bytes} {e : Error} (h : Address.fromIpBytes b = .error e) :
    ¬ e.IsTruncated := by
  unfold Address.fromIpBytes at h
  split at h
  · cases h
  · split at h
    · split at h <;> cases h
    · cases h
      exact id

theorem readDomain_not_truncated {b : Bytes} {e : Error} (h : readDomain b = .error e) :
    ¬ e.IsTruncated := by
  unfold readDomain at h
  split at h
  · cases h
    exact id
  · split at h
    · cases h
    · split at h
      · cases h
        exact id
      · cases h

theorem bounded_readAddress (c : AddrCodec) : Bounded 257 c.readAddress := by
  refine bounded_takeU8.bind (n := 256) fun t => ?_
  simp only
  split
  · exact (Bounded.throw id).mono (Nat.zero_le _)
  · exact ((bounded_take 4).bind fun _ => Bounded.lift fun e => fromIpBytes_not_truncated).mono
      (by decide)
  · exact ((bounded_take 16).bind fun _ => Bounded.lift fun e => fromIpBytes_not_truncated).mono
      (by decide)
  · refine bounded_takeU8.bind (n := 255) fun len => ?_
    split
    · exact (Bounded.throw id).mono (Nat.zero_le _)
    · have := len.toNat_lt
      exact ((bounded_take len.toNat).bind fun _ =>
        Bounded.lift fun e => readDomain_not_truncated).mono (by omega)

theorem bounded_read (c : AddrCodec) : Bounded 259 c.read := by
  unfold AddrCodec.read
  split
  · exact bounded_readPort.bind fun _ => (bounded_readAddress c).bind fun _ => .pure _
  · exact (bounded_readAddress c).bind fun _ => bounded_readPort.bind fun _ => .pure _

/-! ## The read loop -/

variable {α : Type}

/-- `read_header_inner`: `acc` is what has been received, `reads` what the
coming `read` calls will serve.  The result keeps the reads that were not asked
for. -/
def readHeaderInner (max : Nat) (parse : Parser α) (acc : Bytes) (reads : List Bytes) :
    Except IoError ((α × Bytes) × List Bytes) :=
  match parse.run acc with
  | .ok (t, view) =>
    let consumed := acc.length - view.length
    .ok ((t, acc.drop consumed), reads)
  | .error (.truncated _ _) =>
    if max ≤ acc.length then
      .error ⟨.invalidData, .msg "header too large"⟩
    else
      match reads with
      | [] => .error ⟨.unexpectedEof, .msg "eof during header"⟩
      | chunk :: reads =>
        if chunk.isEmpty then .error ⟨.unexpectedEof, .msg "eof during header"⟩
        else readHeaderInner max parse (acc ++ chunk) reads
  | .error e => .error ⟨.invalidData, .kernel e⟩
termination_by structural reads

/-- `read_header`, within the handshake deadline. -/
def readHeader (max : Nat) (parse : Parser α) (reads : List Bytes) :
    Except IoError ((α × Bytes) × List Bytes) :=
  readHeaderInner max parse [] reads

/-- `reads` cuts the stream `s` into reads of the 4096-byte chunk buffer. -/
def IsCut (s : Bytes) (reads : List Bytes) : Prop :=
  reads.flatten = s ∧ ∀ r ∈ reads, r ≠ [] ∧ r.length ≤ 4096

/-- The outcome of reading a header: the value with everything that was not
consumed (the leftover and the unread bytes), or the error. -/
def outcome (r : Except IoError ((α × Bytes) × List Bytes)) : Except IoError (α × Bytes) :=
  r.map fun ((t, leftover), unread) => (t, leftover ++ unread.flatten)

/-- The outcome as a function of the whole stream. -/
def streamOutcome (max : Nat) (parse : Parser α) (s : Bytes) : Except IoError (α × Bytes) :=
  match parse.run s with
  | .ok (t, rest) => .ok (t, rest)
  | .error (.truncated _ _) =>
    if max ≤ s.length then .error ⟨.invalidData, .msg "header too large"⟩
    else .error ⟨.unexpectedEof, .msg "eof during header"⟩
  | .error e => .error ⟨.invalidData, .kernel e⟩

theorem streamOutcome_of_ok {max : Nat} {parse : Parser α} {s rest : Bytes} {t : α}
    (h : parse.run s = .ok (t, rest)) : streamOutcome max parse s = .ok (t, rest) := by
  rw [streamOutcome, h]

/-- An error that does not ask for more input is passed on. -/
theorem streamOutcome_of_error {max : Nat} {parse : Parser α} {s : Bytes} {e : Error}
    (h : parse.run s = .error e) (he : ¬ e.IsTruncated) :
    streamOutcome max parse s = .error ⟨.invalidData, .kernel e⟩ := by
  rw [streamOutcome, h]
  cases e with
  | truncated n m => exact absurd trivial he
  | _ => rfl

/-- `max` is no obstacle on `s`: a prefix of it that reaches `max` without an
answer leaves the whole stream without one. -/
def FitsMax (max : Nat) (parse : Parser α) (s : Bytes) : Prop :=
  ∀ p e, p <+: s → parse.run p = .error e → e.IsTruncated → max ≤ p.length →
    ∃ n m, parse.run s = .error (.truncated n m)

section Loop

variable {max : Nat} {parse : Parser α} {acc : Bytes}

/-- A success ends the loop: what the parser left and what was not read stay. -/
theorem readHeaderInner_of_ok (hp : Incremental parse) {view : Bytes} {t : α}
    (h : parse.run acc = .ok (t, view)) (reads : List Bytes) :
    outcome (readHeaderInner max parse acc reads) = .ok (t, view ++ reads.flatten) := by
  obtain ⟨head, rfl, -⟩ := hp.ok_local h
  unfold readHeaderInner
  rw [h]
  simp [outcome, Except.map]

/-- So does an error that does not ask for more input. -/
theorem readHeaderInner_of_error {e : Error} (h : parse.run acc = .error e) (he : ¬ e.IsTruncated)
    (reads : List Bytes) :
    outcome (readHeaderInner max parse acc reads) = .error ⟨.invalidData, .kernel e⟩ := by
  unfold readHeaderInner
  rw [h]
  cases e with
  | truncated n m => exact absurd trivial he
  | _ => rfl

theorem readHeaderInner_of_truncated {n m : Nat} (h : parse.run acc = .error (.truncated n m))
    (reads : List Bytes) :
    readHeaderInner max parse acc reads =
      if max ≤ acc.length then .error ⟨.invalidData, .msg "header too large"⟩
      else
        match reads with
        | [] => .error ⟨.unexpectedEof, .msg "eof during header"⟩
        | chunk :: reads =>
          if chunk.isEmpty then .error ⟨.unexpectedEof, .msg "eof during header"⟩
          else readHeaderInner max parse (acc ++ chunk) reads := by
  rw [readHeaderInner.eq_def, h]

/-- The invariant of the loop: with `acc` received and `reads` to come, the
outcome is that of the whole stream. -/
theorem readHeaderInner_outcome (hp : Incremental parse) :
    ∀ {reads : List Bytes} {acc : Bytes}, (∀ r ∈ reads, r ≠ []) →
      FitsMax max parse (acc ++ reads.flatten) →
      outcome (readHeaderInner max parse acc reads) =
        streamOutcome max parse (acc ++ reads.flatten) := by
  intro reads
  induction reads with
  | nil =>
    intro acc _ _
    rcases h : parse.run acc with e | ⟨t, view⟩
    · rcases e.truncated_or with ⟨n, m, rfl⟩ | he
      · rw [readHeaderInner_of_truncated h, List.flatten_nil, List.append_nil, streamOutcome, h]
        by_cases hle : max ≤ acc.length
        · simp only [if_pos hle]
          rfl
        · simp only [if_neg hle]
          rfl
      · rw [readHeaderInner_of_error h he, streamOutcome_of_error (hp.error_final h he _) he]
    · rw [readHeaderInner_of_ok hp h, streamOutcome_of_ok (hp.ok_append h _)]
  | cons chunk reads ih =>
    intro acc hne hmax
    rcases h : parse.run acc with e | ⟨t, view⟩
    · rcases e.truncated_or with ⟨n, m, rfl⟩ | he
      · rw [readHeaderInner_of_truncated h]
        by_cases hle : max ≤ acc.length
        · -- a truncated answer on `max` bytes: the whole stream is truncated too
          obtain ⟨n', m', hs⟩ := hmax acc _ (List.prefix_append _ _) h trivial hle
          have hle' : max ≤ (acc ++ (chunk :: reads).flatten).length := by
            rw [List.length_append]
            omega
          rw [if_pos hle, streamOutcome, hs]
          simp only [if_pos hle']
          rfl
        · have hchunk : chunk.isEmpty = false := by
            rw [List.isEmpty_eq_false_iff]
            exact hne chunk List.mem_cons_self
          have happ : acc ++ (chunk :: reads).flatten = acc ++ chunk ++ reads.flatten := by simp
          rw [if_neg hle, happ]
          rw [happ] at hmax
          simp only [hchunk]
          exact ih (fun r hr => hne r (List.mem_cons_of_mem _ hr)) hmax
      · rw [readHeaderInner_of_error h he, streamOutcome_of_error (hp.error_final h he _) he]
    · rw [readHeaderInner_of_ok hp h, streamOutcome_of_ok (hp.ok_append h _)]

/-- What a round of a loop that succeeds does: the parser succeeds, or another read is
taken. -/
theorem readHeaderInner_eq_ok (hp : Incremental parse) {reads unread : List Bytes} {t : α}
    {leftover : Bytes} (h : readHeaderInner max parse acc reads = .ok ((t, leftover), unread)) :
    parse.run acc = .ok (t, leftover) ∧ reads = unread ∨
      ∃ chunk more, reads = chunk :: more ∧
        readHeaderInner max parse (acc ++ chunk) more = .ok ((t, leftover), unread) := by
  rcases hrun : parse.run acc with e | ⟨t', view⟩
  · rcases e.truncated_or with ⟨n, m, rfl⟩ | he
    · rw [readHeaderInner_of_truncated hrun] at h
      split at h
      · cases h
      · cases reads with
        | nil => cases h
        | cons chunk more =>
          simp only at h
          split at h
          · cases h
          · exact .inr ⟨chunk, more, rfl, h⟩
    · have hout : outcome (readHeaderInner max parse acc reads) = _ :=
        readHeaderInner_of_error hrun he reads
      rw [h] at hout
      cases hout
  · obtain ⟨head, rfl, -⟩ := hp.ok_local hrun
    unfold readHeaderInner at h
    rw [hrun] at h
    simp only [List.length_append, Nat.add_sub_cancel, List.drop_left, Except.ok.injEq,
      Prod.mk.injEq] at h
    obtain ⟨⟨rfl, rfl⟩, rfl⟩ := h
    exact .inl ⟨rfl, rfl⟩

/-- A success of the loop is the parser's on what was received, and the reads that are
left are the rest of the stream. -/
theorem run_of_readHeaderInner (hp : Incremental parse) {reads unread : List Bytes} {t : α}
    {leftover : Bytes} (h : readHeaderInner max parse acc reads = .ok ((t, leftover), unread)) :
    ∃ buf, parse.run buf = .ok (t, leftover) ∧ buf ++ unread.flatten = acc ++ reads.flatten := by
  induction reads generalizing acc with
  | nil =>
    rcases readHeaderInner_eq_ok hp h with ⟨hrun, rfl⟩ | ⟨chunk, more, hreads, -⟩
    · exact ⟨acc, hrun, rfl⟩
    · cases hreads
  | cons chunk reads ih =>
    rcases readHeaderInner_eq_ok hp h with ⟨hrun, rfl⟩ | ⟨chunk', more, hreads, hmore⟩
    · exact ⟨acc, hrun, rfl⟩
    · cases hreads
      obtain ⟨buf, hbuf, hstream⟩ := ih hmore
      exact ⟨buf, hbuf, by rw [hstream, List.flatten_cons, List.append_assoc]⟩

end Loop

/-- **The outcome of `read_header` is a function of the byte stream.** -/
theorem readHeader_outcome {max : Nat} {parse : Parser α} (hp : Incremental parse)
    {s : Bytes} {reads : List Bytes} (hmax : FitsMax max parse s) (hcut : IsCut s reads) :
    outcome (readHeader max parse reads) = streamOutcome max parse s := by
  obtain ⟨rfl, hr⟩ := hcut
  exact readHeaderInner_outcome hp (fun r h => (hr r h).1) hmax

/-- **Reading is exact** on the stream `s`: every cut gives the same outcome, and
a success takes off exactly a header, on which alone the parser gives the same
value. -/
structure ReadsExactly (max : Nat) (parse : Parser α) (s : Bytes) : Prop where
  same : ∀ reads reads', IsCut s reads → IsCut s reads' →
    outcome (readHeader max parse reads) = outcome (readHeader max parse reads')
  header : ∀ reads t leftover unread, IsCut s reads →
    readHeader max parse reads = .ok ((t, leftover), unread) →
    ∃ header, s = header ++ (leftover ++ unread.flatten) ∧ parse.run header = .ok (t, [])

theorem readsExactly {max : Nat} {parse : Parser α} (hp : Incremental parse) {s : Bytes}
    (hmax : FitsMax max parse s) : ReadsExactly max parse s where
  same reads reads' h h' := by
    rw [readHeader_outcome hp hmax h, readHeader_outcome hp hmax h']
  header reads t leftover unread hcut h := by
    have hout := readHeader_outcome hp hmax hcut
    rw [h] at hout
    change Except.ok (t, leftover ++ unread.flatten) = _ at hout
    cases hs : parse.run s with
    | ok r =>
      obtain ⟨t', rest⟩ := r
      rw [streamOutcome_of_ok hs] at hout
      cases hout
      obtain ⟨head, hhead, hall⟩ := hp.ok_local hs
      exact ⟨head, hhead, by simpa using hall []⟩
    | error e =>
      unfold streamOutcome at hout
      rw [hs] at hout
      cases e with
      | truncated n m =>
        simp only at hout
        split at hout <;> cases hout
      | _ => cases hout

/-- A parser that always answers within `max` bytes fits. -/
theorem fitsMax_of_bounded {max n : Nat} {parse : Parser α} (hb : Bounded n parse) (h : n ≤ max)
    (s : Bytes) : FitsMax max parse s := by
  intro p e _ he ht hle
  have := hb.need he ht
  omega

end XrayRs
