import XrayRs.ByteParser

/-! # Parsing off a stream that arrives in pieces

A source is a buffer and the pieces that the reads still to come give, after which
the stream ends.  `pull` tries a parser on the buffer and, as long as it asks for
more, appends the next piece and tries again from scratch; a read of nothing is the
end of the stream.

What is pulled off a source depends on its bytes alone, not on where the pieces are
cut (`pull_of_attempt`), and so does what repeated pulls give (`pulls_of_drains`). -/

namespace BufferedStream

open ByteParser

variable {ε α : Type}

/-- A buffer, and what the reads to come give. -/
structure Source where
  buf : List UInt8
  reads : List (List UInt8)
  deriving DecidableEq

namespace Source

/-- All bytes of the stream that are not consumed yet. -/
def content (s : Source) : List UInt8 := s.buf ++ s.reads.flatten

/-- The stream goes on until its last piece: no read before gives nothing. -/
def Flows (s : Source) : Prop := ∀ piece ∈ s.reads, piece ≠ []

instance (s : Source) : Decidable s.Flows :=
  inferInstanceAs (Decidable (∀ piece ∈ s.reads, piece ≠ []))

end Source

/-- Why nothing was pulled: the stream has ended, or the parser rejects it. -/
inductive Stop (ε : Type)
  | eof
  | reject (e : ε)
  deriving DecidableEq

section

variable (needMore : ε → Prop) [DecidablePred needMore] (p : Parser ε α)

/-- What a parser says of a buffer; `none` asks for more. -/
def attempt (buf : List UInt8) : Option (Except ε (α × List UInt8)) :=
  match p.run buf with
  | .ok r => some (.ok r)
  | .error e => if needMore e then none else some (.error e)

/-- Try, read, and try again. -/
def pull (buf : List UInt8) (reads : List (List UInt8)) : Except (Stop ε) α × Source :=
  match attempt needMore p buf with
  | some (.ok (a, rest)) => (.ok a, ⟨rest, reads⟩)
  | some (.error e) => (.error (.reject e), ⟨buf, reads⟩)
  | none =>
    match reads with
    | [] => (.error .eof, ⟨buf, []⟩)
    | piece :: reads =>
      if piece = [] then (.error .eof, ⟨buf, reads⟩) else pull (buf ++ piece) reads

/-- Pull `n` times, or until the stream ends or is rejected. -/
def pulls : Nat → Source → List α × Option (Stop ε) × Source
  | 0, src => ([], none, src)
  | n + 1, src =>
    match pull needMore p src.buf src.reads with
    | (.ok a, src) =>
      let (as, stop, src) := pulls n src
      (a :: as, stop, src)
    | (.error stop, src) => ([], some stop, src)

/-- What there is to pull off some bytes: items, each with the bytes it takes, then why
it stops and the bytes that are left. -/
inductive Drains : List UInt8 → List (List UInt8 × α) → Stop ε → List UInt8 → Prop
  | starved {bytes : List UInt8} (h : attempt needMore p bytes = none) : Drains bytes [] .eof bytes
  | rejected {bytes : List UInt8} {e : ε} (h : attempt needMore p bytes = some (.error e)) :
      Drains bytes [] (.reject e) bytes
  | item {piece rest tail : List UInt8} {a : α} {items : List (List UInt8 × α)} {stop : Stop ε}
      (h : ∀ more, attempt needMore p (piece ++ more) = some (.ok (a, more)))
      (hrest : Drains rest items stop tail) :
      Drains (piece ++ rest) ((piece, a) :: items) stop tail

end

variable {needMore : ε → Prop} [DecidablePred needMore] {p : Parser ε α}

theorem attempt_eq_ok {buf : List UInt8} {r : α × List UInt8} :
    attempt needMore p buf = some (.ok r) ↔ p.run buf = .ok r := by
  unfold attempt
  cases p.run buf with
  | ok r' => simp
  | error e =>
    by_cases he : needMore e
    · simp [he]
    · simp [he]

theorem attempt_eq_error {buf : List UInt8} {e : ε} :
    attempt needMore p buf = some (.error e) ↔ p.run buf = .error e ∧ ¬ needMore e := by
  unfold attempt
  cases p.run buf with
  | ok r' => simp
  | error e' =>
    by_cases he : needMore e'
    · simp only [he, if_true]
      constructor
      · intro h
        cases h
      · rintro ⟨h, hn⟩
        cases h
        exact absurd he hn
    · simp only [he, if_false, Option.some.injEq, Except.error.injEq]
      constructor
      · rintro rfl
        exact ⟨rfl, he⟩
      · exact fun h => h.1

theorem attempt_eq_none {buf : List UInt8} {e : ε} (h : p.run buf = .error e) (he : needMore e) :
    attempt needMore p buf = none := by
  simp only [attempt, h, he, if_true]

/-- An answer survives more bytes. -/
theorem attempt_append (hp : Incremental needMore p) {buf : List UInt8} {r : Except ε (α × List UInt8)}
    (h : attempt needMore p buf = some r) (more : List UInt8) :
    attempt needMore p (buf ++ more) = some (r.map fun x => (x.1, x.2 ++ more)) := by
  cases r with
  | ok x =>
    obtain ⟨a, rest⟩ := x
    exact attempt_eq_ok.mpr (hp.ok_append (attempt_eq_ok.mp h) more)
  | error e =>
    obtain ⟨he, hn⟩ := attempt_eq_error.mp h
    exact attempt_eq_error.mpr ⟨hp.error_final he hn more, hn⟩

theorem pull_of_ok {buf rest : List UInt8} {a : α}
    (h : attempt needMore p buf = some (.ok (a, rest))) (reads : List (List UInt8)) :
    pull needMore p buf reads = (.ok a, ⟨rest, reads⟩) := by
  unfold pull
  simp only [h]

theorem pull_of_reject {buf : List UInt8} {e : ε} (h : attempt needMore p buf = some (.error e))
    (reads : List (List UInt8)) : pull needMore p buf reads = (.error (.reject e), ⟨buf, reads⟩) := by
  unfold pull
  simp only [h]

theorem pull_of_starved {buf piece : List UInt8} (h : attempt needMore p buf = none)
    (reads : List (List UInt8)) :
    pull needMore p buf (piece :: reads) =
      if piece = [] then (.error .eof, ⟨buf, reads⟩) else pull needMore p (buf ++ piece) reads := by
  rw [pull.eq_def]
  simp only [h]

theorem pull_of_end {buf : List UInt8} (h : attempt needMore p buf = none) :
    pull needMore p buf [] = (.error .eof, ⟨buf, []⟩) := by
  unfold pull
  simp only [h]

/-- **What is pulled depends on the bytes alone.** -/
theorem pull_of_attempt (hp : Incremental needMore p) (buf : List UInt8) (reads : List (List UInt8))
    (hflows : ∀ piece ∈ reads, piece ≠ []) :
    match attempt needMore p (buf ++ reads.flatten) with
    | some (.ok (a, rest)) => ∃ src, pull needMore p buf reads = (.ok a, src) ∧
        src.content = rest ∧ src.Flows
    | some (.error e) => ∃ src, pull needMore p buf reads = (.error (.reject e), src) ∧
        src.content = buf ++ reads.flatten ∧ src.Flows
    | none => pull needMore p buf reads = (.error .eof, ⟨buf ++ reads.flatten, []⟩) := by
  induction reads generalizing buf with
  | nil =>
    rw [List.flatten_nil, List.append_nil]
    unfold pull
    cases attempt needMore p buf with
    | none => rfl
    | some r =>
      cases r with
      | ok x => exact ⟨_, rfl, List.append_nil _, hflows⟩
      | error e => exact ⟨_, rfl, List.append_nil _, hflows⟩
  | cons piece reads ih =>
    obtain ⟨hpiece, hreads⟩ := List.forall_mem_cons.mp hflows
    have hnext := ih (buf ++ piece) hreads
    rw [List.append_assoc] at hnext
    unfold pull
    cases hbuf : attempt needMore p buf with
    | none =>
      simp only [hpiece, if_false]
      exact hnext
    | some r =>
      -- the parser had its answer before the piece came
      rw [attempt_append hp hbuf]
      cases r with
      | ok x => exact ⟨_, rfl, rfl, hflows⟩
      | error e => exact ⟨_, rfl, rfl, hflows⟩

/-! ## Repeated pulls -/

/-- Every byte belongs to one item or is left. -/
theorem Drains.bytes_eq {bytes tail : List UInt8} {items : List (List UInt8 × α)} {stop : Stop ε}
    (h : Drains needMore p bytes items stop tail) :
    bytes = (items.map Prod.fst).flatten ++ tail := by
  induction h with
  | starved _ => rfl
  | rejected _ => rfl
  | item _ _ ih =>
    rw [List.map_cons, List.flatten_cons, List.append_assoc, ← ih]

/-- Each item is what its own bytes parse to. -/
theorem Drains.item_eq {bytes tail : List UInt8} {items : List (List UInt8 × α)} {stop : Stop ε}
    (h : Drains needMore p bytes items stop tail) : ∀ i ∈ items, p.run i.1 = .ok (i.2, []) := by
  induction h with
  | starved _ => simp
  | rejected _ => simp
  | @item piece _ _ _ _ _ h _ ih =>
    refine List.forall_mem_cons.mpr ⟨?_, ih⟩
    have hrun := attempt_eq_ok.mp (h [])
    rwa [List.append_nil] at hrun

/-- A parser that asks for more of nothing drains every stream: each item takes a byte at
least. -/
theorem exists_drains (hp : Incremental needMore p) (hend : attempt needMore p [] = none)
    (bytes : List UInt8) : ∃ items stop tail, Drains needMore p bytes items stop tail := by
  induction hn : bytes.length using Nat.strongRecOn generalizing bytes with
  | ind n ih =>
    cases hatt : attempt needMore p bytes with
    | none => exact ⟨[], .eof, bytes, .starved hatt⟩
    | some r =>
      cases r with
      | error e => exact ⟨[], .reject e, bytes, .rejected hatt⟩
      | ok x =>
        obtain ⟨a, rest⟩ := x
        obtain ⟨piece, rfl, hpiece⟩ := hp.ok_local (attempt_eq_ok.mp hatt)
        have hlt : rest.length < n := by
          rw [← hn, List.length_append]
          by_contra hge
          have hnil : piece = [] := List.length_eq_zero_iff.mp (by omega)
          have hnone : attempt needMore p (piece ++ []) = _ := attempt_eq_ok.mpr (hpiece [])
          rw [hnil, List.append_nil, hend] at hnone
          cases hnone
        obtain ⟨items, stop, tail, hdrain⟩ := ih rest.length hlt rest rfl
        exact ⟨(piece, a) :: items, stop, tail,
          .item (fun more => attempt_eq_ok.mpr (hpiece more)) hdrain⟩

/-- Items that the parser takes off whole are what there is to pull, if it asks for more at
the end. -/
theorem Drains.of_items (hend : attempt needMore p [] = none) :
    ∀ {items : List (List UInt8 × α)},
      (∀ i ∈ items, ∀ more, p.run (i.1 ++ more) = .ok (i.2, more)) →
        Drains needMore p (items.map Prod.fst).flatten items .eof []
  | [], _ => .starved hend
  | i :: items, h => by
    obtain ⟨hi, hitems⟩ := List.forall_mem_cons.mp h
    rw [List.map_cons, List.flatten_cons]
    exact .item (fun more => attempt_eq_ok.mpr (hi more)) (.of_items hend hitems)

/-- The reason to stop is the parser's answer to the bytes that are left. -/
theorem Drains.stop_eq {bytes tail : List UInt8} {items : List (List UInt8 × α)} {stop : Stop ε}
    (h : Drains needMore p bytes items stop tail) :
    (pull needMore p tail []).1 = .error stop := by
  induction h with
  | starved h => rw [pull_of_end h]
  | rejected h => rw [pull_of_reject h]
  | item _ _ ih => exact ih

/-- **What repeated pulls give depends on the bytes alone**: the first `n` items, and the
reason to stop once there is no item left.  What was pulled is off the stream, and
nothing else is. -/
theorem pulls_of_drains (hp : Incremental needMore p) {bytes tail : List UInt8}
    {items : List (List UInt8 × α)} {stop : Stop ε} (h : Drains needMore p bytes items stop tail)
    {src : Source} (hsrc : src.content = bytes) (hflows : src.Flows) (n : Nat) :
    ∃ src', pulls needMore p n src =
        ((items.take n).map Prod.snd, if n ≤ items.length then none else some stop, src') ∧
      src'.content = ((items.drop n).map Prod.fst).flatten ++ tail := by
  induction n generalizing src bytes items with
  | zero =>
    refine ⟨src, by simp [pulls], ?_⟩
    rw [List.drop_zero, hsrc, h.bytes_eq]
  | succ n ih =>
    have hpull := pull_of_attempt hp src.buf src.reads hflows
    rw [show src.buf ++ src.reads.flatten = _ from hsrc] at hpull
    cases h with
    | starved h =>
      rw [h] at hpull
      exact ⟨⟨tail, []⟩, by simp [pulls, hpull], List.append_nil _⟩
    | rejected h =>
      rw [h] at hpull
      obtain ⟨src', hpull, hcontent, -⟩ := hpull
      exact ⟨src', by simp [pulls, hpull], hcontent⟩
    | @item piece rest _ a items _ h hrest =>
      rw [h rest] at hpull
      obtain ⟨mid, hpull, hcontent, hmid⟩ := hpull
      obtain ⟨src', hpulls, htail⟩ := ih hrest hcontent hmid
      refine ⟨src', ?_, htail⟩
      rw [pulls, hpull]
      simp [hpulls]

end BufferedStream
