import Mathlib.Data.List.Basic
import Mathlib.Data.List.Infix
import Mathlib.Tactic.Common

/-! # Bounded channels with one sender and one receiver

A channel holds at most `cap` values in flight.  The sender waits for room, and
fails when the receiver is gone; the receiver waits for a value, and sees the end
when the sender is gone and nothing is left.  The values received so far are kept
beside the queue, so that what was ever sent is `sent`.

Whoever holds an end can move the channel in few ways (`TxMove`, `RxMove`): the
holder of the other end relies on nothing else. -/

namespace BoundedChannel

variable {α : Type}

/-- A channel: its capacity, the values received so far, those in flight, and
which ends are alive. -/
structure Chan (α : Type) where
  cap : Nat
  taken : List α
  queue : List α
  txAlive : Bool
  rxAlive : Bool
  deriving DecidableEq

namespace Chan

variable {c c' : Chan α} {x : α} {q : List α}

/-- A new channel. -/
def new (α : Type) (cap : Nat) : Chan α := ⟨cap, [], [], true, true⟩

/-- Everything put on the channel so far. -/
def sent (c : Chan α) : List α := c.taken ++ c.queue

/-- A send can complete now. -/
def CanSend (c : Chan α) : Prop := c.txAlive = true ∧ c.rxAlive = true ∧ c.queue.length < c.cap

/-- A send fails now. -/
def Refuses (c : Chan α) : Prop := c.rxAlive = false

/-- The receiver can take `x` now, leaving `q` in flight. -/
def CanRecv (c : Chan α) (x : α) (q : List α) : Prop := c.rxAlive = true ∧ c.queue = x :: q

/-- The receiver sees the end. -/
def Ended (c : Chan α) : Prop := c.txAlive = false ∧ c.queue = []

/-- Put a value on the channel. -/
def push (c : Chan α) (x : α) : Chan α := { c with queue := c.queue ++ [x] }

/-- Take the value `x` off the front. -/
def pop (c : Chan α) (x : α) (q : List α) : Chan α := { c with taken := c.taken ++ [x], queue := q }

/-- Drop the sender. -/
def dropTx (c : Chan α) : Chan α := { c with txAlive := false }

/-- Drop the receiver.  What is in flight stays where it is, out of reach. -/
def dropRx (c : Chan α) : Chan α := { c with rxAlive := false }

@[simp] theorem sent_new (cap : Nat) : (new α cap).sent = [] := rfl

@[simp] theorem sent_push (c : Chan α) (x : α) : (c.push x).sent = c.sent ++ [x] :=
  (List.append_assoc ..).symm

theorem sent_pop (h : c.CanRecv x q) : (c.pop x q).sent = c.sent := by
  simp [sent, pop, h.2]

theorem Ended.taken_eq_sent (h : c.Ended) : c.taken = c.sent := by
  rw [sent, h.2, List.append_nil]

end Chan

/-- What the holder of the sender can do to a channel in one step. -/
inductive TxMove (c : Chan α) : Chan α → Prop
  | stay : TxMove c c
  | push (x : α) : c.CanSend → TxMove c (c.push x)
  | drop : TxMove c c.dropTx

/-- What the holder of the receiver can do to a channel in one step. -/
inductive RxMove (c : Chan α) : Chan α → Prop
  | stay : RxMove c c
  | pop {x : α} {q : List α} : c.CanRecv x q → RxMove c (c.pop x q)
  | drop : RxMove c c.dropRx

section Moves

variable {c c' : Chan α}

/-- A receiver does not change what was sent, nor the sender's end. -/
theorem RxMove.sent_eq (h : RxMove c c') : c'.sent = c.sent := by
  cases h with
  | stay => rfl
  | pop h => exact Chan.sent_pop h
  | drop => rfl

theorem RxMove.txAlive_eq (h : RxMove c c') : c'.txAlive = c.txAlive := by
  cases h <;> rfl

/-- A receiver that is gone does not come back. -/
theorem RxMove.rxAlive_of (h : RxMove c c') (hrx : c'.rxAlive = true) : c.rxAlive = true := by
  cases h with
  | stay => exact hrx
  | pop h => exact h.1
  | drop => cases hrx

/-- A sender does not change what was received, nor the receiver's end. -/
theorem TxMove.taken_eq (h : TxMove c c') : c'.taken = c.taken := by
  cases h <;> rfl

theorem TxMove.rxAlive_eq (h : TxMove c c') : c'.rxAlive = c.rxAlive := by
  cases h <;> rfl

theorem TxMove.cap_eq (h : TxMove c c') : c'.cap = c.cap := by
  cases h <;> rfl

theorem RxMove.cap_eq (h : RxMove c c') : c'.cap = c.cap := by
  cases h <;> rfl

/-- The end of a channel is final: nobody sends after it. -/
theorem TxMove.ended (h : TxMove c c') (he : c.Ended) : c'.Ended := by
  cases h with
  | stay => exact he
  | push x hs => exact absurd hs.1 (by rw [he.1]; decide)
  | drop => exact ⟨rfl, he.2⟩

/-- Nothing is sent once the receiver is gone. -/
theorem TxMove.sent_eq_of_dropped (h : TxMove c c') (hrx : c.rxAlive = false) : c'.sent = c.sent := by
  cases h with
  | stay => rfl
  | push x hs => exact absurd hs.2.1 (by rw [hrx]; decide)
  | drop => rfl

end Moves

end BoundedChannel
