import Mathlib.Logic.Relation
import Mathlib.Tactic.Common

/-! # Polled services

A service is polled until it says that it is ready, and is then called.  The
readiness contract (`Service.Honours`) says that such a call is served.

A `Service` is what one instance does, seen from that instance: its state holds all
that the instance can see, and `Drift` is what anyone else makes of this between the
instance's own operations.  Which calls are served may depend on the instance, on its
surroundings and on what was called before; a clone is an instance of its own and
starts without readiness.

A wrapper that keeps an instance, polls it and calls a fresh clone of it never calls
the instance that it has polled.  What it needs of the service is another thing than
the contract: that the clones of a kept instance serve (`Service.ClonesServe`). -/

namespace PolledService

/-- What a poll says. -/
inductive Poll
  | pending
  | ok
  | err
  deriving DecidableEq

/-- What a call comes to: what the service makes of it, or the error that says the
service is not ready. -/
inductive Answer (Resp : Type)
  | served (r : Resp)
  | notReady
  deriving DecidableEq

/-- **A polled service**, as one of its instances sees it. -/
structure Service (Req Resp : Type) where
  /-- An instance and what it can see. -/
  Inst : Type
  /-- The instances that are built, not cloned. -/
  Built : Inst → Prop
  /-- What others do between the instance's own operations. -/
  Drift : Inst → Inst → Prop
  clone : Inst → Inst
  Polls : Inst → Poll → Inst → Prop
  Calls : Inst → Req → Answer Resp → Inst → Prop

namespace Service

variable {Req Resp : Type} (S : Service Req Resp)

/-- The instances that can exist, each with its readiness: whether its last
operation was a poll that said so. -/
inductive Reached : S.Inst → Bool → Prop
  | built {i : S.Inst} : S.Built i → Reached i false
  | drift {i i' : S.Inst} {ready : Bool} : Reached i ready → S.Drift i i' → Reached i' ready
  | clone {i : S.Inst} {ready : Bool} : Reached i ready → Reached (S.clone i) false
  | poll {i i' : S.Inst} {ready : Bool} {p : Poll} :
      Reached i ready → S.Polls i p i' → Reached i' (decide (p = .ok))
  | call {i i' : S.Inst} {ready : Bool} {req : Req} {a : Answer Resp} :
      Reached i ready → S.Calls i req a i' → Reached i' false

/-- **The readiness contract**: a ready instance serves the call that comes next. -/
def Honours : Prop :=
  ∀ {i i' : S.Inst} {req : Req} {a : Answer Resp}, S.Reached i true → S.Calls i req a i' →
    ∃ r, a = .served r

/-- A clone that is polled and never called, with its readiness. -/
inductive Kept : S.Inst → Bool → Prop
  | clone {i : S.Inst} {ready : Bool} : S.Reached i ready → Kept (S.clone i) false
  | drift {i i' : S.Inst} {ready : Bool} : Kept i ready → S.Drift i i' → Kept i' ready
  | poll {i i' : S.Inst} {ready : Bool} {p : Poll} :
      Kept i ready → S.Polls i p i' → Kept i' (decide (p = .ok))

/-- **A clone of a ready instance serves, though nobody has polled it.** -/
def ClonesServe : Prop :=
  ∀ {i j j' : S.Inst} {req : Req} {a : Answer Resp}, S.Kept i true →
    Relation.ReflTransGen S.Drift (S.clone i) j → S.Calls j req a j' → ∃ r, a = .served r

variable {S}

/-- **Invariant rule.** -/
theorem Reached.invariant {Inv : S.Inst → Bool → Prop} {i : S.Inst} {ready : Bool}
    (h : S.Reached i ready) (hbuilt : ∀ i, S.Built i → Inv i false)
    (hdrift : ∀ i i' b, Inv i b → S.Drift i i' → Inv i' b)
    (hclone : ∀ i b, Inv i b → Inv (S.clone i) false)
    (hpoll : ∀ i i' b p, Inv i b → S.Polls i p i' → Inv i' (decide (p = .ok)))
    (hcall : ∀ i i' b req a, Inv i b → S.Calls i req a i' → Inv i' false) : Inv i ready := by
  induction h with
  | built h => exact hbuilt _ h
  | drift _ h ih => exact hdrift _ _ _ ih h
  | clone _ ih => exact hclone _ _ ih
  | poll _ h ih => exact hpoll _ _ _ _ ih h
  | call _ h ih => exact hcall _ _ _ _ _ ih h

/-- A service that serves every call honours the contract, and so do its clones. -/
theorem honours_and_clonesServe
    (h : ∀ {i i' : S.Inst} {req : Req} {a : Answer Resp}, S.Calls i req a i' → ∃ r, a = .served r) :
    S.Honours ∧ S.ClonesServe :=
  ⟨fun _ hcall => h hcall, fun _ _ hcall => h hcall⟩

end Service

end PolledService
