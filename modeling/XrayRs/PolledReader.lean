import XrayRs.ByteWords

/-! # Readers that are polled

A reader is polled with room for some bytes, and answers with bytes, with none at the
end, with an error, or that it has to wait; between two polls it may be turned into
another form of itself.

`Delivers` says what one poll does, in terms of the bytes that are `left` and of how
often the reader may still have to wait.  From it follows what any number of polls
delivers (`Delivers.run`) and that enough of them reach the end
(`Delivers.run_enough`). -/

namespace PolledReader

variable {σ ε : Type}

/-- What a poll answers, with the bytes it puts into the buffer. -/
inductive Polled (ε : Type)
  | pending
  | ready (bytes : Bytes)
  | err (e : ε)
  deriving DecidableEq

/-- The bytes that an answer brings. -/
def Polled.bytes : Polled ε → Bytes
  | .ready bytes => bytes
  | .pending => []
  | .err _ => []

/-- All bytes that were delivered. -/
def delivered (rs : List (Polled ε)) : Bytes := rs.flatMap Polled.bytes

/-- What is done with a reader. -/
inductive Op
  | poll (room : Nat)
  | turn
  deriving DecidableEq

/-- How many polls there are. -/
def polls (ops : List Op) : Nat := ops.countP (· ≠ .turn)

/-- Every poll has room for a byte. -/
def Roomy (ops : List Op) : Prop := ∀ room, .poll room ∈ ops → 0 < room

/-- A reader: how it answers a poll, and what it is turned into. -/
structure Reader (σ ε : Type) where
  poll : Nat → σ → Polled ε × σ
  turn : σ → σ

/-- The answers to the polls, and the reader after them. -/
def Reader.run (r : Reader σ ε) : σ → List Op → List (Polled ε) × σ
  | s, [] => ([], s)
  | s, .poll room :: ops =>
    ((r.poll room s).1 :: (r.run (r.poll room s).2 ops).1, (r.run (r.poll room s).2 ops).2)
  | s, .turn :: ops => r.run (r.turn s) ops

/-- What the states of a reader mean. -/
structure View (σ : Type) where
  /-- The states that are reached. -/
  Valid : σ → Prop
  /-- The bytes that it is still to deliver. -/
  left : σ → Bytes
  /-- It has told that the end is reached. -/
  Ended : σ → Prop
  /-- There is an end to what it reads. -/
  Over : σ → Prop
  /-- How often it may still have to wait. -/
  waits : σ → Nat

/-- What a poll has to lead to: bytes of those left, and none only at the end, which is
told again and again; or waiting, one time less, or with nothing left and no end. -/
def View.After (v : View σ) (s : σ) : Polled ε × σ → Prop
  | (.pending, s') => v.Valid s' ∧ v.left s' = v.left s ∧ (v.Over s' ↔ v.Over s) ∧ ¬ v.Ended s ∧
      (v.waits s' < v.waits s ∨ v.left s = [] ∧ ¬ v.Over s)
  | (.ready bytes, s') => v.Valid s' ∧ v.left s = bytes ++ v.left s' ∧ (v.Over s' ↔ v.Over s) ∧
      v.waits s' ≤ v.waits s ∧ (bytes = [] → v.left s = [] ∧ v.Over s ∧ v.Ended s')
  | (.err _, _) => False

/-- A poll that first goes over to another state of the same meaning. -/
theorem View.After.of_eq {v : View σ} {s t : σ} {x : Polled ε × σ} (h : v.After t x)
    (hleft : v.left t = v.left s) (hended : v.Ended t ↔ v.Ended s) (hover : v.Over t ↔ v.Over s)
    (hwaits : v.waits t = v.waits s) : v.After s x := by
  obtain ⟨a, s'⟩ := x
  unfold View.After at h ⊢
  rw [hleft, hended, hover, hwaits] at h
  exact h

/-- **A reader that delivers what its states say.** -/
structure Delivers (r : Reader σ ε) (v : View σ) : Prop where
  poll : ∀ {s : σ} {room : Nat}, v.Valid s → 0 < room → v.After s (r.poll room s)
  turn : ∀ {s : σ}, v.Valid s → v.Valid (r.turn s) ∧ v.left (r.turn s) = v.left s ∧
    (v.Ended (r.turn s) ↔ v.Ended s) ∧ (v.Over (r.turn s) ↔ v.Over s) ∧
    v.waits (r.turn s) = v.waits s
  /-- Who has told the end has nothing left. -/
  ended : ∀ {s : σ}, v.Valid s → v.Ended s → v.left s = []

/-! ## Any number of polls -/

section
variable {r : Reader σ ε} {v : View σ} {s s' : σ} {ops : List Op} {rs : List (Polled ε)}

theorem delivered_cons (a : Polled ε) (rs : List (Polled ε)) :
    delivered (a :: rs) = a.bytes ++ delivered rs := rfl

theorem Roomy.tail {op : Op} (h : Roomy (op :: ops)) : Roomy ops :=
  fun room hroom => h room (List.mem_cons_of_mem _ hroom)

theorem Roomy.head {room : Nat} (h : Roomy (.poll room :: ops)) : 0 < room :=
  h room (List.mem_cons_self ..)

/-- **The end is told again and again.** -/
theorem Delivers.run_of_ended (h : Delivers r v) (hvalid : v.Valid s) (hended : v.Ended s)
    (hroomy : Roomy ops) : ∀ a ∈ (r.run s ops).1, a = .ready [] := by
  induction ops generalizing s with
  | nil => nofun
  | cons op ops ih =>
    cases op with
    | turn =>
      obtain ⟨hvalid', -, hended', -⟩ := h.turn hvalid
      exact ih hvalid' (hended'.mpr hended) hroomy.tail
    | poll room =>
      have hafter := h.poll hvalid hroomy.head
      have hleft := h.ended hvalid hended
      rw [Reader.run, List.forall_mem_cons]
      generalize r.poll room s = answer at hafter ⊢
      obtain ⟨a, s'⟩ := answer
      cases a with
      | pending => exact absurd hended hafter.2.2.2.1
      | err e => exact hafter.elim
      | ready bytes =>
        obtain ⟨hvalid', hbytes, -, -, hend⟩ := hafter
        rw [hleft] at hbytes
        obtain ⟨rfl, -⟩ := List.append_eq_nil_iff.mp hbytes.symm
        exact ⟨rfl, ih hvalid' (hend rfl).2.2 hroomy.tail⟩

/-- What some polls have delivered. -/
structure Session (v : View σ) (s : σ) (rs : List (Polled ε)) (s' : σ) : Prop where
  valid : v.Valid s'
  bytes : v.left s = delivered rs ++ v.left s'
  no_err : ∀ e, .err e ∉ rs
  at_end : ∀ before after, rs = before ++ .ready [] :: after →
    delivered before = v.left s ∧ v.Over s ∧ ∀ a ∈ after, a = .ready []

/-- An answer before a session. -/
theorem Session.cons {a : Polled ε} {t : σ} (h : Session v t rs s')
    (hleft : v.left s = a.bytes ++ v.left t) (hover : v.Over t ↔ v.Over s) (herr : ∀ e, a ≠ .err e)
    (hend : a = .ready [] → v.left s = [] ∧ v.Over s ∧ ∀ a ∈ rs, a = .ready []) :
    Session v s (a :: rs) s' := by
  refine ⟨h.valid, ?_, ?_, ?_⟩
  · rw [hleft, h.bytes, delivered_cons, List.append_assoc]
  · intro e he
    rcases List.mem_cons.mp he with he | he
    · exact herr e he.symm
    · exact h.no_err e he
  · intro before after heq
    cases before with
    | nil =>
      obtain ⟨ha, rfl⟩ := List.cons.inj heq
      obtain ⟨hnil, hover, hall⟩ := hend ha
      exact ⟨hnil.symm, hover, hall⟩
    | cons a' before =>
      obtain ⟨rfl, hrs⟩ := List.cons.inj heq
      obtain ⟨hbytes, hover', hall⟩ := h.at_end before after hrs
      exact ⟨by rw [delivered_cons, hbytes, hleft], hover.mp hover', hall⟩

/-- **What any polls deliver**: the bytes in order, without an error, and the end only
after all of them and from then on. -/
theorem Delivers.run (h : Delivers r v) (hvalid : v.Valid s) (hroomy : Roomy ops) :
    Session v s (r.run s ops).1 (r.run s ops).2 := by
  induction ops generalizing s with
  | nil =>
    refine ⟨hvalid, rfl, nofun, ?_⟩
    intro before after heq
    exact absurd heq (by simp [Reader.run])
  | cons op ops ih =>
    cases op with
    | turn =>
      obtain ⟨hvalid', hleft, -, hover, -⟩ := h.turn hvalid
      have hsession := ih hvalid' hroomy.tail
      refine ⟨hsession.valid, hleft ▸ hsession.bytes, hsession.no_err, fun before after heq => ?_⟩
      obtain ⟨hbytes, hover', hall⟩ := hsession.at_end before after heq
      exact ⟨hbytes.trans hleft, hover.mp hover', hall⟩
    | poll room =>
      have hafter := h.poll hvalid hroomy.head
      rw [Reader.run]
      generalize r.poll room s = answer at hafter ⊢
      obtain ⟨a, t⟩ := answer
      cases a with
      | err e => exact hafter.elim
      | pending =>
        obtain ⟨hvalid', hleft, hover, -⟩ := hafter
        exact (ih hvalid' hroomy.tail).cons hleft.symm hover nofun nofun
      | ready bytes =>
        obtain ⟨hvalid', hleft, hover, -, hend⟩ := hafter
        refine (ih hvalid' hroomy.tail).cons hleft hover nofun fun hnil => ?_
        cases hnil
        obtain ⟨hempty, hover, hended⟩ := hend rfl
        exact ⟨hempty, hover, h.run_of_ended hvalid' hended hroomy.tail⟩

/-- **Enough polls deliver everything**, and tell the end if there is one: each of them
delivers a byte, waits or has nothing left to deliver. -/
theorem Delivers.run_enough (h : Delivers r v) (hvalid : v.Valid s) (hroomy : Roomy ops)
    (hpolls : (v.left s).length + v.waits s < polls ops) :
    delivered (r.run s ops).1 = v.left s ∧ (v.Over s → .ready [] ∈ (r.run s ops).1) := by
  induction ops generalizing s with
  | nil => exact absurd hpolls (Nat.not_lt_zero _)
  | cons op ops ih =>
    have hnothing : v.left s = [] → delivered (r.run s (op :: ops)).1 = v.left s := by
      intro hempty
      have hbytes := (h.run hvalid hroomy).bytes
      rw [hempty] at hbytes ⊢
      exact (List.append_eq_nil_iff.mp hbytes.symm).1
    cases op with
    | turn =>
      obtain ⟨hvalid', hleft, -, hover, hwaits⟩ := h.turn hvalid
      rw [← hleft, ← hwaits] at hpolls
      obtain ⟨hall, hend⟩ := ih hvalid' hroomy.tail hpolls
      exact ⟨hall.trans hleft, fun hover' => hend (hover.mpr hover')⟩
    | poll room =>
      have hcount : polls (.poll room :: ops) = polls ops + 1 := by simp [polls]
      have hafter := h.poll hvalid hroomy.head
      rw [hcount] at hpolls
      rw [Reader.run] at hnothing ⊢
      generalize r.poll room s = answer at hafter hnothing ⊢
      obtain ⟨a, t⟩ := answer
      cases a with
      | err e => exact hafter.elim
      | pending =>
        obtain ⟨hvalid', hleft, hover, -, hless | ⟨hempty, hendless⟩⟩ := hafter
        · rw [← hleft] at hpolls
          obtain ⟨hall, hend⟩ := ih hvalid' hroomy.tail (by omega)
          exact ⟨hall.trans hleft, fun hover' => List.mem_cons_of_mem _ (hend (hover.mpr hover'))⟩
        · exact ⟨hnothing hempty, fun hover' => absurd hover' hendless⟩
      | ready bytes =>
        obtain ⟨hvalid', hleft, hover, hwaits, hend⟩ := hafter
        by_cases hbytes : bytes = []
        · subst hbytes
          exact ⟨hnothing (hend rfl).1, fun _ => List.mem_cons_self ..⟩
        · have hpos := List.length_pos_iff.mpr hbytes
          rw [hleft, List.length_append] at hpolls
          obtain ⟨hall, hend⟩ := ih hvalid' hroomy.tail (by omega)
          refine ⟨?_, fun hover' => List.mem_cons_of_mem _ (hend (hover.mpr hover'))⟩
          rw [delivered_cons, hall, hleft]
          rfl

end

end PolledReader
