import Mathlib.Data.List.Basic
import Mathlib.Data.List.Infix
import Mathlib.Tactic.Common

/-! # Incremental byte parsers

A parser of type `Parser ε α` reads a value off the front of a byte buffer and
leaves the rest, or fails.  Some failures only ask for more bytes; a predicate
`needMore` singles them out.  A parser that is re-run from scratch each time
bytes arrive gives the same answer however the bytes arrive exactly when its
other answers are **final**: they survive any extension of the buffer.

`Incremental` states that, together with the fact that a success looks at the
bytes it consumes and at nothing after them.  `Bounded n` states that `n` bytes
are always enough to leave the `needMore` state.  Both are closed under
sequencing, so a header parser inherits them field by field. -/

namespace ByteParser

/-- A parser over a byte buffer: the value read and the unread rest, or an
error. -/
abbrev Parser (ε α : Type) := StateT (List UInt8) (Except ε) α

variable {ε α β : Type}

/-- A computation that does not touch the buffer. -/
def lift (x : Except ε α) : Parser ε α := fun buf => x.map fun a => (a, buf)

theorem run_lift_eq_ok {x : Except ε α} {buf : List UInt8} {a : α} {rest : List UInt8} :
    (lift x).run buf = .ok (a, rest) ↔ x = .ok a ∧ buf = rest := by
  cases x with
  | error e => exact ⟨fun h => (by cases h), fun h => (by cases h.1)⟩
  | ok b =>
    constructor
    · intro h
      cases h
      exact ⟨rfl, rfl⟩
    · rintro ⟨h, rfl⟩
      cases h
      rfl

theorem run_lift_eq_error {x : Except ε α} {buf : List UInt8} {e : ε} :
    (lift x).run buf = .error e ↔ x = .error e := by
  cases x with
  | error e' =>
    constructor
    · intro h
      cases h
      rfl
    · intro h
      cases h
      rfl
  | ok b => exact ⟨fun h => (by cases h), fun h => (by cases h)⟩

/-- A successful sequence is a success of each part. -/
theorem run_bind_eq_ok {p : Parser ε α} {q : α → Parser ε β} {buf : List UInt8}
    {b : β} {rest : List UInt8} :
    (p >>= q).run buf = .ok (b, rest) ↔
      ∃ a mid, p.run buf = .ok (a, mid) ∧ (q a).run mid = .ok (b, rest) := by
  show (p.run buf >>= fun r => (q r.1).run r.2) = _ ↔ _
  cases hp : p.run buf with
  | error e => exact ⟨fun h => (by cases h), fun ⟨_, _, h, _⟩ => (by cases h)⟩
  | ok r =>
    obtain ⟨a, mid⟩ := r
    constructor
    · exact fun h => ⟨a, mid, rfl, h⟩
    · rintro ⟨a', mid', h, hq⟩
      cases h
      exact hq

/-- A sequence fails in its first part, or in its second after a success of the
first. -/
theorem run_bind_eq_error {p : Parser ε α} {q : α → Parser ε β} {buf : List UInt8} {e : ε} :
    (p >>= q).run buf = .error e ↔
      p.run buf = .error e ∨ ∃ a mid, p.run buf = .ok (a, mid) ∧ (q a).run mid = .error e := by
  show (p.run buf >>= fun r => (q r.1).run r.2) = _ ↔ _
  cases hp : p.run buf with
  | error e' =>
    constructor
    · intro h
      cases h
      exact .inl rfl
    · rintro (h | ⟨_, _, h, _⟩)
      · cases h
        rfl
      · cases h
  | ok r =>
    obtain ⟨a, mid⟩ := r
    constructor
    · exact fun h => .inr ⟨a, mid, rfl, h⟩
    · rintro (h | ⟨a', mid', h, hq⟩)
      · cases h
      · cases h
        exact hq

theorem run_bind_of_ok {p : Parser ε α} {q : α → Parser ε β} {buf : List UInt8}
    {a : α} {mid : List UInt8} (h : p.run buf = .ok (a, mid)) :
    (p >>= q).run buf = (q a).run mid := by
  show (p.run buf >>= fun r => (q r.1).run r.2) = _
  rw [h]
  rfl

theorem run_bind_of_error {p : Parser ε α} {q : α → Parser ε β} {buf : List UInt8} {e : ε}
    (h : p.run buf = .error e) : (p >>= q).run buf = .error e := by
  show (p.run buf >>= fun r => (q r.1).run r.2) = _
  rw [h]
  rfl

/-! ## Answers that survive more input -/

/-- **Incremental parsers.**  A success depends on the consumed bytes alone, and
an error that does not ask for more input is unaffected by more input. -/
structure Incremental (needMore : ε → Prop) (p : Parser ε α) : Prop where
  ok_local : ∀ {buf : List UInt8} {a : α} {rest : List UInt8}, p.run buf = .ok (a, rest) →
    ∃ head, buf = head ++ rest ∧ ∀ more, p.run (head ++ more) = .ok (a, more)
  error_final : ∀ {buf : List UInt8} {e : ε}, p.run buf = .error e → ¬ needMore e →
    ∀ more, p.run (buf ++ more) = .error e

/-- **Bounded parsers.**  `n` bytes are enough to answer, and a success consumes
at most `n` of them. -/
structure Bounded (needMore : ε → Prop) (n : Nat) (p : Parser ε α) : Prop where
  need : ∀ {buf : List UInt8} {e : ε}, p.run buf = .error e → needMore e → buf.length < n
  consumed : ∀ {buf : List UInt8} {a : α} {rest : List UInt8}, p.run buf = .ok (a, rest) →
    buf.length ≤ rest.length + n

variable {needMore : ε → Prop}

/-- A success on a buffer is the same success on any extension of it. -/
theorem Incremental.ok_append {p : Parser ε α} (hp : Incremental needMore p)
    {buf rest : List UInt8} {a : α} (h : p.run buf = .ok (a, rest)) (more : List UInt8) :
    p.run (buf ++ more) = .ok (a, rest ++ more) := by
  obtain ⟨head, rfl, hall⟩ := hp.ok_local h
  rw [List.append_assoc]
  exact hall (rest ++ more)

theorem Incremental.pure (a : α) : Incremental needMore (pure a : Parser ε α) where
  ok_local := by
    intro buf b rest h
    cases h
    exact ⟨[], rfl, fun _ => rfl⟩
  error_final := by
    intro buf e h
    cases h

theorem Incremental.throw (e : ε) : Incremental needMore (throw e : Parser ε α) where
  ok_local := by
    intro buf b rest h
    cases h
  error_final := by
    intro buf e' h _ more
    cases h
    rfl

theorem Incremental.lift (x : Except ε α) : Incremental needMore (lift x : Parser ε α) where
  ok_local := by
    intro buf a rest h
    obtain ⟨rfl, rfl⟩ := run_lift_eq_ok.mp h
    exact ⟨[], rfl, fun _ => rfl⟩
  error_final := by
    intro buf e h _ more
    exact run_lift_eq_error.mpr (run_lift_eq_error.mp h)

theorem Incremental.bind {p : Parser ε α} {q : α → Parser ε β}
    (hp : Incremental needMore p) (hq : ∀ a, Incremental needMore (q a)) :
    Incremental needMore (p >>= q) where
  ok_local := by
    intro buf b rest h
    obtain ⟨a, mid, h1, h2⟩ := run_bind_eq_ok.mp h
    obtain ⟨head, rfl, hhead⟩ := hp.ok_local h1
    obtain ⟨head', rfl, hhead'⟩ := (hq a).ok_local h2
    refine ⟨head ++ head', (List.append_assoc ..).symm, fun more => ?_⟩
    rw [List.append_assoc, run_bind_of_ok (hhead _)]
    exact hhead' more
  error_final := by
    intro buf e h hn more
    rcases run_bind_eq_error.mp h with h1 | ⟨a, mid, h1, h2⟩
    · exact run_bind_of_error (hp.error_final h1 hn more)
    · rw [run_bind_of_ok (hp.ok_append h1 more)]
      exact (hq a).error_final h2 hn more

theorem Bounded.mono {p : Parser ε α} {m n : Nat} (hp : Bounded needMore m p) (h : m ≤ n) :
    Bounded needMore n p where
  need he hn := Nat.lt_of_lt_of_le (hp.need he hn) h
  consumed hk := Nat.le_trans (hp.consumed hk) (Nat.add_le_add_left h _)

theorem Bounded.pure (a : α) : Bounded needMore 0 (pure a : Parser ε α) where
  need := by
    intro buf e h
    cases h
  consumed := by
    intro buf b rest h
    cases h
    exact Nat.le_refl _

theorem Bounded.throw {e : ε} (h : ¬ needMore e) :
    Bounded needMore 0 (throw e : Parser ε α) where
  need := by
    intro buf e' he hn
    cases he
    exact absurd hn h
  consumed := by
    intro buf b rest he
    cases he

theorem Bounded.lift {x : Except ε α} (h : ∀ e, x = .error e → ¬ needMore e) :
    Bounded needMore 0 (lift x : Parser ε α) where
  need := by
    intro buf e he hn
    exact absurd hn (h e (run_lift_eq_error.mp he))
  consumed := by
    intro buf a rest hk
    rw [(run_lift_eq_ok.mp hk).2]
    exact Nat.le_refl _

theorem Bounded.bind {p : Parser ε α} {q : α → Parser ε β} {m n : Nat}
    (hp : Bounded needMore m p) (hq : ∀ a, Bounded needMore n (q a)) :
    Bounded needMore (m + n) (p >>= q) where
  need := by
    intro buf e h hn
    rcases run_bind_eq_error.mp h with h1 | ⟨a, mid, h1, h2⟩
    · exact Nat.lt_of_lt_of_le (hp.need h1 hn) (Nat.le_add_right m n)
    · have := hp.consumed h1
      have := (hq a).need h2 hn
      omega
  consumed := by
    intro buf b rest h
    obtain ⟨a, mid, h1, h2⟩ := run_bind_eq_ok.mp h
    have := hp.consumed h1
    have := (hq a).consumed h2
    omega

end ByteParser
