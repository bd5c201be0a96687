import Mathlib.Data.List.Basic
import Mathlib.Data.List.Infix
import Mathlib.Tactic.Common
import XrayRs.ByteWords

/-! # Reading a stream of frames

A reader takes one item off a byte source: it gives the item with the reader's
next state and the rest of the source, or nothing at a clean end, or an error.
`readLoop` calls it until it gives nothing or fails.

A stream is written as frames that the reader takes off whole (`Frames`).  A cut
in a frame's head looks to the reader like a clean end, a cut in its body is an
error.  What the loop gives on any prefix of the stream follows from where the
prefix ends (`readLoop_prefix`).  On any other stream, what a reader without
lookahead has read stays read when more arrives (`Local.readLoop_append`). -/

namespace FramedStream

variable {σ α ε : Type}

/-- A reader with state `σ` of items `α`. -/
abbrev Reader (σ α ε : Type) := σ → Bytes → Except ε (Option (α × σ × Bytes))

/-- Read until the clean end or an error, at most `fuel` times.  `none` is out of
fuel. -/
def readLoop (read : Reader σ α ε) : Nat → σ → Bytes → Option (List α × Except ε Unit)
  | 0, _, _ => none
  | fuel + 1, st, src =>
    match read st src with
    | .error e => some ([], .error e)
    | .ok none => some ([], .ok ())
    | .ok (some (x, st', rest)) => (readLoop read fuel st' rest).map fun (xs, r) => (x :: xs, r)

variable {read : Reader σ α ε}

theorem readLoop_of_error {st : σ} {src : Bytes} {e : ε} (h : read st src = .error e) (fuel : Nat) :
    readLoop read (fuel + 1) st src = some ([], .error e) := by
  simp [readLoop, h]

theorem readLoop_of_end {st : σ} {src : Bytes} (h : read st src = .ok none) (fuel : Nat) :
    readLoop read (fuel + 1) st src = some ([], .ok ()) := by
  simp [readLoop, h]

theorem readLoop_of_item {st st' : σ} {src rest : Bytes} {x : α}
    (h : read st src = .ok (some (x, st', rest))) (fuel : Nat) :
    readLoop read (fuel + 1) st src =
      (readLoop read fuel st' rest).map fun (xs, r) => (x :: xs, r) := by
  simp [readLoop, h]

/-! ## Streams of frames -/

variable (read) (head : Nat) (eof : ε)

/-- `Frames read head eof st fs st'`: from state `st`, the reader takes the frames
of `fs` off one by one, giving their items, and ends in `st'`.  A frame cut within
its first `head` bytes is a clean end, a frame cut later is the error `eof`. -/
inductive Frames : σ → List (α × Bytes) → σ → Prop
  | nil (st : σ) : Frames st [] st
  | cons {st st' st'' : σ} {x : α} {frame : Bytes} {fs : List (α × Bytes)} :
      0 < frame.length → (∀ rest, read st (frame ++ rest) = .ok (some (x, st', rest))) →
      (∀ w, w <+: frame → w.length < frame.length →
        read st w = if w.length < head then .ok none else .error eof) →
      Frames st' fs st'' → Frames st ((x, frame) :: fs) st''

/-- The bytes of a list of frames. -/
def wire (fs : List (α × Bytes)) : Bytes := (fs.map Prod.snd).flatten

/-- How many of the frames lie wholly within `w`, and what is left of `w` then. -/
def whole : List (α × Bytes) → Bytes → Nat × Bytes
  | [], w => (0, w)
  | (_, frame) :: fs, w =>
    if frame.length ≤ w.length then ((whole fs (w.drop frame.length)).1 + 1,
      (whole fs (w.drop frame.length)).2)
    else (0, w)

variable {read head eof}

theorem Frames.append {st st' st'' : σ} {fs gs : List (α × Bytes)}
    (h : Frames read head eof st fs st') (h' : Frames read head eof st' gs st'') :
    Frames read head eof st (fs ++ gs) st'' := by
  induction h with
  | nil => exact h'
  | cons hpos hwhole hcut _ ih => exact .cons hpos hwhole hcut (ih h')

theorem wire_append (fs gs : List (α × Bytes)) : wire (fs ++ gs) = wire fs ++ wire gs := by
  simp [wire]

/-- Frames that came whole are passed over. -/
theorem whole_append (fs gs : List (α × Bytes)) (rest : Bytes) :
    whole (fs ++ gs) (wire fs ++ rest) = ((whole gs rest).1 + fs.length, (whole gs rest).2) := by
  induction fs with
  | nil => rfl
  | cons f fs ih =>
    have hdrop : (wire (f :: fs) ++ rest).drop f.2.length = wire fs ++ rest := by
      simp [wire]
    have hlen : f.2.length ≤ (wire (f :: fs) ++ rest).length := by
      simp [wire]
    obtain ⟨x, frame⟩ := f
    rw [List.cons_append, whole, if_pos hlen, hdrop, ih]
    rfl

/-- Every frame lies within the whole stream. -/
theorem whole_wire (fs : List (α × Bytes)) (rest : Bytes) :
    whole fs (wire fs ++ rest) = (fs.length, rest) := by
  have happend := whole_append fs [] rest
  rw [List.append_nil] at happend
  rw [happend, whole, Nat.zero_add]

/-- **Reading a prefix of a stream.**  Let `final` be bytes after the frames on
which, however cut, the reader sees the clean end.  On a prefix of the stream the
loop gives the items of the frames that lie wholly within it; then it sees the
clean end, if the prefix ends in the head of a frame or after all the frames,
and else the error. -/
theorem readLoop_prefix {st st' : σ} {fs : List (α × Bytes)} (h : Frames read head eof st fs st')
    {final : Bytes} (hfinal : ∀ w, w <+: final → read st' w = .ok none) {w : Bytes}
    (hw : w <+: wire fs ++ final) {fuel : Nat} (hfuel : w.length < fuel) :
    readLoop read fuel st w = some ((fs.map Prod.fst).take (whole fs w).1,
      if (whole fs w).2.length < head ∨ (whole fs w).1 = fs.length then .ok () else .error eof) := by
  induction h generalizing fuel w with
  | nil st =>
    obtain ⟨fuel, rfl⟩ : ∃ n, fuel = n + 1 := ⟨fuel - 1, by omega⟩
    rw [readLoop_of_end (hfinal w (by simpa [wire] using hw))]
    simp [whole]
  | @cons st st₁ st' x frame fs hpos hwhole hcut _ ih =>
    obtain ⟨fuel, rfl⟩ : ∃ n, fuel = n + 1 := ⟨fuel - 1, by omega⟩
    have hw' : w <+: frame ++ (wire fs ++ final) := by simpa [wire] using hw
    by_cases hlen : frame.length ≤ w.length
    · -- the frame lies within `w`
      obtain ⟨rest, rfl⟩ : frame <+: w :=
        List.prefix_of_prefix_length_le (List.prefix_append _ _) hw' hlen
      have hrest : rest <+: wire fs ++ final := (List.prefix_append_right_inj frame).mp hw'
      rw [List.length_append] at hfuel
      rw [readLoop_of_item (hwhole rest), ih hfinal hrest (by omega)]
      simp [whole]
    · -- `w` ends inside the frame
      have hpre : w <+: frame :=
        List.prefix_of_prefix_length_le hw' (List.prefix_append _ _) (by omega)
      have hread := hcut w hpre (by omega)
      have hk : whole ((x, frame) :: fs) w = (0, w) := if_neg hlen
      rw [hk]
      by_cases hhead : w.length < head
      · rw [if_pos hhead] at hread
        rw [readLoop_of_end hread]
        simp [hhead]
      · rw [if_neg hhead] at hread
        rw [readLoop_of_error hread]
        simp [hhead]

/-- Read until the clean end or an error. -/
def readAll (read : Reader σ α ε) (st : σ) (src : Bytes) : Option (List α × Except ε Unit) :=
  readLoop read (src.length + 1) st src

/-- **Reading the whole stream** gives all the items and then the clean end. -/
theorem Frames.readAll_wire {st st' : σ} {fs : List (α × Bytes)} (h : Frames read head eof st fs st')
    {final : Bytes} (hfinal : ∀ w, w <+: final → read st' w = .ok none) :
    readAll read st (wire fs ++ final) = some (fs.map Prod.fst, .ok ()) := by
  rw [readAll, readLoop_prefix h hfinal List.prefix_rfl (Nat.lt_succ_self _), whole_wire]
  simp

/-! ## Streams that go on -/

/-- What the reader takes off does not depend on what follows. -/
def Local (read : Reader σ α ε) : Prop :=
  ∀ st src x st' rest more, read st src = .ok (some (x, st', rest)) →
    read st (src ++ more) = .ok (some (x, st', rest ++ more))

/-- **What is read early stays read**: a longer stream begins with the items of a shorter
one. -/
theorem Local.readLoop_append (hlocal : Local read) {fuel : Nat} :
    ∀ {fuel' : Nat} {st : σ} {src more : Bytes} {xs ys : List α} {r r' : Except ε Unit},
      readLoop read fuel st src = some (xs, r) →
        readLoop read fuel' st (src ++ more) = some (ys, r') → xs <+: ys := by
  induction fuel with
  | zero => exact nofun
  | succ fuel ih =>
    intro fuel' st src more xs ys r r' h h'
    cases fuel' with
    | zero => cases h'
    | succ fuel' =>
      cases hread : read st src with
      | error e =>
        rw [readLoop_of_error hread] at h
        cases h
        exact List.nil_prefix
      | ok item =>
        cases item with
        | none =>
          rw [readLoop_of_end hread] at h
          cases h
          exact List.nil_prefix
        | some item =>
          obtain ⟨x, st', rest⟩ := item
          rw [readLoop_of_item hread] at h
          rw [readLoop_of_item (hlocal _ _ _ _ _ more hread)] at h'
          obtain ⟨⟨xs', r₁⟩, hxs, heq⟩ := Option.map_eq_some_iff.mp h
          obtain ⟨⟨ys', r₂⟩, hys, heq'⟩ := Option.map_eq_some_iff.mp h'
          cases heq
          cases heq'
          exact (List.prefix_cons_inj x).mpr (ih hxs hys)

end FramedStream
