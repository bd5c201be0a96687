import XrayRs.Dialogue

/-! # Programs on a stream that comes in pieces

A stream that delivers its bytes in pieces and then ends.  A program takes one byte
after the other (`Prog.runOn`), which is what its reads make of the pieces poll by poll
(`runOn_readExact`), so the result depends on the bytes alone and not on the cuts
(`runOn_flatten`). -/

namespace Dialogue

variable {B ε α β : Type}

/-- The stream delivers something with every piece: a read of nothing is the end. -/
def Cut (pieces : List (List B)) : Prop := ∀ piece ∈ pieces, piece ≠ []

/-- The next byte, and the pieces that are left. -/
def nextByte : List (List B) → Option B × List (List B)
  | [] => (none, [])
  | [] :: pieces => (none, pieces)
  | [b] :: pieces => (some b, pieces)
  | (b :: c :: piece) :: pieces => (some b, (c :: piece) :: pieces)

namespace Prog

/-- The program on a stream of pieces: what it returns, and the pieces it leaves. -/
def runOn : Prog B ε α → List (List B) → Except ε α × List (List B)
  | .done r, pieces => (r, pieces)
  | .put _ next, pieces => next.runOn pieces
  | .get next, pieces => (next (nextByte pieces).1).runOn (nextByte pieces).2

/-- The program on the bytes of a stream. -/
def runOnBytes : Prog B ε α → List B → Except ε α × List B
  | .done r, bytes => (r, bytes)
  | .put _ next, bytes => next.runOnBytes bytes
  | .get next, [] => (next none).runOnBytes []
  | .get next, b :: bytes => (next (some b)).runOnBytes bytes

/-- The bytes the program writes on the way. -/
def writtenOn : Prog B ε α → List (List B) → List B
  | .done _, _ => []
  | .put b next, pieces => b :: next.writtenOn pieces
  | .get next, pieces => (next (nextByte pieces).1).writtenOn (nextByte pieces).2

/-- The polls of `read_exact`: each takes what a piece has, as far as bytes are missing. -/
def readExactPolls (eof : ε) : Nat → List (List B) → Except ε (List B) × List (List B)
  | 0, pieces => (.ok [], pieces)
  | _ + 1, [] => (.error eof, [])
  | n + 1, piece :: pieces =>
    if piece = [] then (.error eof, pieces)
    else if n + 1 < piece.length then (.ok (piece.take (n + 1)), piece.drop (n + 1) :: pieces)
    else
      let (r, left) := readExactPolls eof (n + 1 - piece.length) pieces
      (r.map (piece ++ ·), left)

end Prog

section
variable {pieces : List (List B)}

theorem Cut.next (h : Cut pieces) : Cut (nextByte pieces).2 := by
  match pieces, h with
  | [], h => exact h
  | [] :: _, h => exact (List.forall_mem_cons.mp h).2
  | [_] :: _, h => exact (List.forall_mem_cons.mp h).2
  | (_ :: _ :: _) :: _, h => exact List.forall_mem_cons.mpr ⟨nofun, (List.forall_mem_cons.mp h).2⟩

/-- The next byte is the first of all, and there is none at the end only. -/
theorem Cut.nextByte_eq (h : Cut pieces) :
    (∃ b, (nextByte pieces).1 = some b ∧ pieces.flatten = b :: (nextByte pieces).2.flatten) ∨
      ((nextByte pieces).1 = none ∧ pieces.flatten = [] ∧ (nextByte pieces).2 = []) := by
  match pieces, h with
  | [], _ => exact .inr ⟨rfl, rfl, rfl⟩
  | [] :: _, h => exact absurd rfl (List.forall_mem_cons.mp h).1
  | [b] :: _, _ => exact .inl ⟨b, rfl, rfl⟩
  | (b :: _ :: _) :: _, _ => exact .inl ⟨b, rfl, rfl⟩

/-- What a program leaves of a stream is cut like the stream. -/
theorem Cut.runOn (h : Cut pieces) (p : Prog B ε α) : Cut (p.runOn pieces).2 := by
  induction p generalizing pieces with
  | done r => exact h
  | put b next ih => exact ih h
  | get next ih => exact ih _ h.next

/-- **The cuts do not matter.** -/
theorem runOn_flatten (p : Prog B ε α) (h : Cut pieces) :
    p.runOnBytes pieces.flatten = ((p.runOn pieces).1, (p.runOn pieces).2.flatten) := by
  induction p generalizing pieces with
  | done r => rfl
  | put b next ih => exact ih h
  | get next ih =>
    rcases h.nextByte_eq with ⟨b, hb, hbytes⟩ | ⟨hnone, hbytes, hleft⟩
    · rw [hbytes, Prog.runOnBytes, Prog.runOn, hb]
      exact ih _ h.next
    · rw [hbytes, Prog.runOnBytes, Prog.runOn, hnone, hleft]
      exact ih _ (show Cut ([] : List (List B)) from nofun)

end

/-- The bytes a program leaves on a stream in pieces, from those it leaves on the bytes. -/
theorem runOn_of_runOnBytes {p : Prog B ε α} {pieces : List (List B)} {bytes rest : List B} {a : α}
    (hcut : Cut pieces) (hpieces : pieces.flatten = bytes)
    (h : p.runOnBytes bytes = (.ok a, rest)) :
    ∃ left, p.runOn pieces = (.ok a, left) ∧ Cut left ∧ left.flatten = rest := by
  have hflat := runOn_flatten p hcut
  rw [hpieces, h] at hflat
  obtain ⟨hok, hrest⟩ := Prod.mk.inj hflat
  exact ⟨_, Prod.ext hok.symm rfl, hcut.runOn p, hrest.symm⟩

theorem runOnBytes_of_runOn {p : Prog B ε α} {pieces left : List (List B)} {a : α}
    (hcut : Cut pieces) (h : p.runOn pieces = (.ok a, left)) :
    p.runOnBytes pieces.flatten = (.ok a, left.flatten) ∧ Cut left := by
  have hleft := hcut.runOn p
  rw [h] at hleft
  rw [runOn_flatten p hcut, h]
  exact ⟨rfl, hleft⟩

/-! ## The operations -/

section
variable {eof : ε} {bytes left : List B} {r : Except ε β}

theorem runOnBytes_bind (p : Prog B ε α) (k : α → Prog B ε β) (bytes : List B) :
    (p >>= k).runOnBytes bytes = match p.runOnBytes bytes with
      | (.ok a, left) => (k a).runOnBytes left
      | (.error e, left) => (.error e, left) := by
  induction p generalizing bytes with
  | done r =>
    cases r with
    | error e => rfl
    | ok a => rfl
  | put b next ih => exact ih bytes
  | get next ih =>
    cases bytes with
    | nil => exact ih _ _
    | cons b bytes => exact ih _ _

/-- A byte is read, if there is one. -/
theorem runOnBytes_readU8 {k : B → Prog B ε β} {a : β} :
    (Prog.readU8 eof >>= k).runOnBytes bytes = (.ok a, left) ↔
      ∃ b rest, bytes = b :: rest ∧ (k b).runOnBytes rest = (.ok a, left) := by
  cases bytes with
  | nil =>
    constructor
    · intro h
      cases h
    · rintro ⟨b, rest, h, -⟩
      cases h
  | cons b rest =>
    constructor
    · exact fun h => ⟨b, rest, rfl, h⟩
    · rintro ⟨b', rest', h, hk⟩
      cases h
      exact hk

/-- **`read_exact` takes the first `n` bytes, if there are as many.** -/
theorem runOnBytes_readExact {n : Nat} :
    (Prog.readExact eof n).runOnBytes bytes =
      if n ≤ bytes.length then (.ok (bytes.take n), bytes.drop n) else (.error eof, []) := by
  induction n generalizing bytes with
  | zero => rfl
  | succ n ih =>
    cases bytes with
    | nil => rfl
    | cons b bytes =>
      show (Prog.readExact eof n >>= fun bs => pure (b :: bs)).runOnBytes bytes = _
      rw [runOnBytes_bind, ih]
      by_cases hn : n ≤ bytes.length
      · rw [if_pos hn, if_pos (by simpa using hn)]
        rfl
      · rw [if_neg hn, if_neg (by simpa using hn)]

theorem runOnBytes_writeAll (bs : List B) {k : Unit → Prog B ε β} :
    (Prog.writeAll bs >>= k).runOnBytes bytes = (k ()).runOnBytes bytes := by
  induction bs with
  | nil => rfl
  | cons b bs ih => exact ih

theorem runOnBytes_readExact_bind {n : Nat} {k : List B → Prog B ε β} {a : β} :
    (Prog.readExact eof n >>= k).runOnBytes bytes = (.ok a, left) ↔
      ∃ bs rest, bytes = bs ++ rest ∧ bs.length = n ∧ (k bs).runOnBytes rest = (.ok a, left) := by
  rw [runOnBytes_bind, runOnBytes_readExact]
  by_cases hn : n ≤ bytes.length
  · rw [if_pos hn]
    constructor
    · exact fun h => ⟨_, _, (List.take_append_drop n bytes).symm, List.length_take_of_le hn, h⟩
    · rintro ⟨bs, rest, rfl, rfl, hk⟩
      rw [List.take_left, List.drop_left]
      exact hk
  · rw [if_neg hn]
    constructor
    · intro h
      cases h
    · rintro ⟨bs, rest, rfl, rfl, -⟩
      exact absurd (by simp) hn

theorem runOn_bind (p : Prog B ε α) (k : α → Prog B ε β) (pieces : List (List B)) :
    (p >>= k).runOn pieces = match p.runOn pieces with
      | (.ok a, left) => (k a).runOn left
      | (.error e, left) => (.error e, left) := by
  induction p generalizing pieces with
  | done r =>
    cases r with
    | error e => rfl
    | ok a => rfl
  | put b next ih => exact ih pieces
  | get next ih => exact ih _ _

theorem runOn_writeAll (bs : List B) (pieces : List (List B)) :
    (Prog.writeAll bs : Prog B ε Unit).runOn pieces = (.ok (), pieces) := by
  induction bs with
  | nil => rfl
  | cons b bs ih => exact ih

theorem writtenOn_writeAll (bs : List B) (pieces : List (List B)) :
    (Prog.writeAll bs : Prog B ε Unit).writtenOn pieces = bs := by
  induction bs with
  | nil => rfl
  | cons b bs ih => exact congrArg (b :: ·) ih

theorem writtenOn_bind (p : Prog B ε α) (k : α → Prog B ε β) (pieces : List (List B)) :
    (p >>= k).writtenOn pieces = p.writtenOn pieces ++ match p.runOn pieces with
      | (.ok a, left) => (k a).writtenOn left
      | (.error _, _) => [] := by
  induction p generalizing pieces with
  | done r =>
    cases r with
    | error e => rfl
    | ok a => rfl
  | put b next ih => exact congrArg (b :: ·) (ih pieces)
  | get next ih => exact ih _ _

theorem readExactPolls_succ {piece : List B} (hpiece : piece ≠ []) (n : Nat)
    (pieces : List (List B)) : Prog.readExactPolls eof (n + 1) (piece :: pieces) =
      if n + 1 < piece.length then (.ok (piece.take (n + 1)), piece.drop (n + 1) :: pieces)
      else ((Prog.readExactPolls eof (n + 1 - piece.length) pieces).1.map (piece ++ ·),
        (Prog.readExactPolls eof (n + 1 - piece.length) pieces).2) := by
  rw [Prog.readExactPolls, if_neg hpiece]

/-- A poll that takes more than one byte takes the first and then the others. -/
theorem readExactPolls_cons (n : Nat) (b c : B) (piece : List B) (pieces : List (List B)) :
    Prog.readExactPolls eof (n + 1) ((b :: c :: piece) :: pieces) =
      ((Prog.readExactPolls eof n ((c :: piece) :: pieces)).1.map (b :: ·),
        (Prog.readExactPolls eof n ((c :: piece) :: pieces)).2) := by
  cases n with
  | zero => rfl
  | succ n =>
    rw [readExactPolls_succ (List.cons_ne_nil _ _), readExactPolls_succ (List.cons_ne_nil _ _)]
    simp only [List.length_cons]
    by_cases hn : n + 1 < piece.length + 1
    · rw [if_pos (by omega), if_pos hn]
      rfl
    · rw [if_neg (by omega), if_neg hn, Nat.add_sub_add_right]
      generalize Prog.readExactPolls eof (n + 1 - (piece.length + 1)) pieces = polls
      obtain ⟨r, left⟩ := polls
      cases r with
      | error e => rfl
      | ok bs => rfl

/-- **Byte by byte or poll by poll**: `read_exact` is the same. -/
theorem runOn_readExact {n : Nat} {pieces : List (List B)} (h : Cut pieces) :
    (Prog.readExact eof n).runOn pieces = Prog.readExactPolls eof n pieces := by
  induction n generalizing pieces with
  | zero => cases pieces <;> rfl
  | succ n ih =>
    match pieces, h with
    | [], _ => rfl
    | [] :: _, h => exact absurd rfl (List.forall_mem_cons.mp h).1
    | [b] :: pieces, h =>
      show (Prog.readExact eof n >>= fun bs => pure (b :: bs)).runOn pieces = _
      rw [runOn_bind, ih (List.forall_mem_cons.mp h).2, readExactPolls_succ (List.cons_ne_nil _ _),
        if_neg (by simp), List.length_singleton, Nat.add_sub_cancel]
      generalize Prog.readExactPolls eof n pieces = polls
      obtain ⟨r, left⟩ := polls
      cases r with
      | error e => rfl
      | ok bs => rfl
    | (b :: c :: piece) :: pieces, h =>
      show (Prog.readExact eof n >>= fun bs => pure (b :: bs)).runOn ((c :: piece) :: pieces) = _
      have hnext : Cut ((c :: piece) :: pieces) := h.next
      rw [runOn_bind, ih hnext, readExactPolls_cons]
      generalize Prog.readExactPolls eof n ((c :: piece) :: pieces) = polls
      obtain ⟨r, left⟩ := polls
      cases r with
      | error e => rfl
      | ok bs => rfl

end

/-! ## What a program takes off a stream -/

section Takes

variable {p : Prog B ε α} {input output input' output' : List B} {a : α}

/-- On every stream that begins with `input`, however it is cut, the program returns `a`,
has written `output`, and leaves what is behind. -/
def Takes (p : Prog B ε α) (input output : List B) (a : α) : Prop :=
  ∀ ⦃rest : List B⦄ ⦃pieces : List (List B)⦄, Cut pieces → pieces.flatten = input ++ rest →
    ∃ left, p.runOn pieces = (.ok a, left) ∧ left.flatten = rest ∧ p.writtenOn pieces = output

theorem takes_pure (a : α) : Takes (pure a : Prog B ε α) [] [] a :=
  fun _ _ _ hpieces => ⟨_, rfl, hpieces, rfl⟩

/-- **One program after the other.** -/
theorem Takes.bind {k : α → Prog B ε β} {b : β} (hp : Takes p input output a)
    (hk : Takes (k a) input' output' b) :
    Takes (p >>= k) (input ++ input') (output ++ output') b := by
  intro rest pieces hcut hpieces
  rw [List.append_assoc] at hpieces
  obtain ⟨mid, hrun, hmid, hwritten⟩ := hp hcut hpieces
  have hcut' : Cut mid := by
    have hleft := hcut.runOn p
    rwa [hrun] at hleft
  obtain ⟨left, hrun', hleft, hwritten'⟩ := hk hcut' hmid
  refine ⟨left, ?_, hleft, ?_⟩
  · rw [runOn_bind, hrun]
    exact hrun'
  · rw [writtenOn_bind, hrun, hwritten]
    exact congrArg (output ++ ·) hwritten'

/-- The second program takes nothing off the stream, and is silent. -/
theorem Takes.bind_silent {k : α → Prog B ε β} {b : β} (hp : Takes p input output a)
    (hk : Takes (k a) [] [] b) : Takes (p >>= k) input output b := by
  have hbind := hp.bind hk
  rwa [List.append_nil, List.append_nil] at hbind

theorem takes_writeAll (bs : List B) : Takes (Prog.writeAll bs : Prog B ε Unit) [] bs () :=
  fun _ _ _ hpieces => ⟨_, runOn_writeAll bs _, hpieces, writtenOn_writeAll bs _⟩

theorem takes_readU8 (eof : ε) (b : B) : Takes (Prog.readU8 eof) [b] [] b := by
  intro rest pieces hcut hpieces
  rcases hcut.nextByte_eq with ⟨b', hb, hbytes⟩ | ⟨-, hnil, -⟩
  · rw [hbytes] at hpieces
    obtain ⟨rfl, hrest⟩ := List.cons_eq_cons.mp hpieces
    refine ⟨(nextByte pieces).2, ?_, hrest, ?_⟩
    · rw [Prog.readU8, Prog.runOn, hb]
      rfl
    · rw [Prog.readU8, Prog.writtenOn, hb]
      rfl
  · rw [hnil] at hpieces
    cases hpieces

theorem takes_readExact (eof : ε) (bs : List B) :
    Takes (Prog.readExact eof bs.length) bs [] bs := by
  induction bs with
  | nil => exact takes_pure []
  | cons b bs ih =>
    have hrest : Takes (Prog.readExact eof bs.length >>= fun bs' => pure (b :: bs')) bs []
        (b :: bs) := ih.bind_silent (takes_pure _)
    intro rest pieces hcut hpieces
    rcases hcut.nextByte_eq with ⟨b', hb, hbytes⟩ | ⟨-, hnil, -⟩
    · rw [hbytes] at hpieces
      obtain ⟨rfl, hmore⟩ := List.cons_eq_cons.mp hpieces
      obtain ⟨left, hrun, hleft, hwritten⟩ := hrest hcut.next hmore
      refine ⟨left, ?_, hleft, ?_⟩
      · rw [List.length_cons, Prog.readExact, Prog.runOn, hb]
        exact hrun
      · rw [List.length_cons, Prog.readExact, Prog.writtenOn, hb]
        exact hwritten
    · rw [hnil] at hpieces
      cases hpieces

end Takes

end Dialogue
