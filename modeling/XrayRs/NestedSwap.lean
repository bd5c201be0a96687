import XrayRs.HotSwap
import XrayRs.PolledService

/-! # A swappable service as a service

`SwappableService` (`kernel/src/runtime/service/mod.rs`) over any service: its own
`poll_ready`, `call` and `clone`, and what `SwapHandle::update` does meanwhile.  The
wrapped service, its instances and what happens around them are arbitrary.

`call` takes a clone of the cached service and calls this clone, which nobody has
polled.  So it passes the readiness contract on exactly where the clones of a ready
instance serve without a poll (`swappable_honours_iff`).  `Adder` in the tests is such
a service; `SwappableService` is none, since its clone has no cached service before its
first poll (`nested_call_notReady`). -/

namespace XrayRs.HotSwap

open PolledService Relation

/-- `SwappableService`, with what its receiver sees: the value in the channel, and
whether the handle is gone.  `changed`: the stream has yet to yield that value. -/
structure SwappableService (I : Type) where
  slot : Slot I
  closed : Bool
  changed : Bool
  ready : Option I
  deriving DecidableEq

namespace SwappableService

variable {I : Type}

/-- `SwappableService::from_receiver`.  A new stream yields the current value first. -/
def fromReceiver (slot : Slot I) (closed : Bool) : SwappableService I := ⟨slot, closed, true, none⟩

/-- `clone`. -/
def clone (c : SwappableService I) : SwappableService I := fromReceiver c.slot c.closed

/-- The stream yields a clone of the value, and `poll_ready` keeps its service. -/
def item (cloneService : I → I) (c : SwappableService I) : SwappableService I :=
  { c with changed := false, ready := c.slot.service.map cloneService }

end SwappableService

section Swappable

variable {Req Resp : Type} (S : Service Req Resp)

/-- What others do to a node that one instance of it can see: the two sends of
`update`, the drop of the handle, and what goes on around the published and around the
cached service.  The sends find a receiver, which is the instance's own. -/
inductive Drift : SwappableService S.Inst → SwappableService S.Inst → Prop
  | begin {c : SwappableService S.Inst} {i : S.Inst} (hslot : c.slot = .ready i)
      (hopen : c.closed = false) : Drift c { c with slot := .updating, changed := true }
  | publish {c : SwappableService S.Inst} {new : S.Inst} {ready : Bool}
      (hnew : S.Reached new ready) (hslot : c.slot = .updating) (hopen : c.closed = false) :
      Drift c { c with slot := .ready new, changed := true }
  | dropHandle {c : SwappableService S.Inst} {i : S.Inst} (hslot : c.slot = .ready i) :
      Drift c { c with closed := true }
  | published {c : SwappableService S.Inst} {i i' : S.Inst} (hslot : c.slot = .ready i)
      (h : S.Drift i i') : Drift c { c with slot := .ready i' }
  | cached {c : SwappableService S.Inst} {i i' : S.Inst} (hready : c.ready = some i)
      (h : S.Drift i i') : Drift c { c with ready := some i' }

/-- The loop of `poll_ready`, until the stream is `Pending` or at its end.  Others may
move between any two turns. -/
inductive Drains : SwappableService S.Inst → SwappableService S.Inst → Prop
  | stop {c : SwappableService S.Inst} (hseen : c.changed = false) : Drains c c
  | item {c d : SwappableService S.Inst} (hchanged : c.changed = true)
      (hrest : Drains (c.item S.clone) d) : Drains c d
  | drift {c c' d : SwappableService S.Inst} (h : Drift S c c') (hrest : Drains c' d) : Drains c d

/-- `poll_ready`. -/
inductive Polls : SwappableService S.Inst → Poll → SwappableService S.Inst → Prop
  | inner {c d e : SwappableService S.Inst} {i i' : S.Inst} {p : Poll} (hdrains : Drains S c d)
      (hdrifts : ReflTransGen (Drift S) d e) (hready : e.ready = some i) (hpoll : S.Polls i p i') :
      Polls c p { e with ready := some i' }
  | unready {c d : SwappableService S.Inst} (hdrains : Drains S c d) (hready : d.ready = none) :
      Polls c .pending d

/-- `call`. -/
inductive Calls : SwappableService S.Inst → Req → Answer Resp → SwappableService S.Inst → Prop
  | inner {c : SwappableService S.Inst} {i j j' : S.Inst} {req : Req} {a : Answer Resp}
      (hready : c.ready = some i) (hdrifts : ReflTransGen S.Drift (S.clone i) j)
      (hcall : S.Calls j req a j') : Calls c req a c
  | unready {c : SwappableService S.Inst} {req : Req} (hready : c.ready = none) :
      Calls c req .notReady c

/-- **`SwappableService<S>`**, as a service.  `SwapHandle::new` builds it around an
instance of the service. -/
def swappable : Service Req Resp where
  Inst := SwappableService S.Inst
  Built c := ∃ initial ready, S.Reached initial ready ∧ c = .fromReceiver (.ready initial) false
  Drift := Drift S
  clone := SwappableService.clone
  Polls := Polls S
  Calls := Calls S

/-! ## What an instance holds -/

/-- What is published is an instance of the service, and what is cached a kept clone
of one, which is ready where the node is. -/
structure Carries (c : SwappableService S.Inst) (ready : Bool) : Prop where
  published : ∀ i, c.slot = .ready i → ∃ b, S.Reached i b
  cached : ∀ i, c.ready = some i → ∃ b, S.Kept i b
  ready : ready = true → ∃ i, c.ready = some i ∧ S.Kept i true

variable {S}

theorem Carries.unready {c : SwappableService S.Inst} {ready : Bool} (h : Carries S c ready) :
    Carries S c false :=
  ⟨h.published, h.cached, nofun⟩

theorem Carries.drift {c d : SwappableService S.Inst} {ready : Bool} (h : Carries S c ready)
    (hdrift : Drift S c d) : Carries S d ready := by
  cases hdrift with
  | begin => exact ⟨nofun, h.cached, h.ready⟩
  | publish hnew =>
    refine ⟨?_, h.cached, h.ready⟩
    rintro i ⟨⟩
    exact ⟨_, hnew⟩
  | dropHandle => exact ⟨h.published, h.cached, h.ready⟩
  | published hslot hinner =>
    refine ⟨?_, h.cached, h.ready⟩
    rintro i ⟨⟩
    obtain ⟨b, hb⟩ := h.published _ hslot
    exact ⟨b, hb.drift hinner⟩
  | @cached i i' hready hinner =>
    refine ⟨h.published, ?_, ?_⟩
    · rintro k ⟨⟩
      obtain ⟨b, hb⟩ := h.cached _ hready
      exact ⟨b, hb.drift hinner⟩
    · intro hr
      obtain ⟨k, hk, hkept⟩ := h.ready hr
      obtain rfl := Option.some.inj (hready.symm.trans hk)
      exact ⟨i', rfl, hkept.drift hinner⟩

theorem Carries.drifts {c d : SwappableService S.Inst} {ready : Bool} (h : Carries S c ready)
    (hdrifts : ReflTransGen (Drift S) c d) : Carries S d ready := by
  induction hdrifts with
  | refl => exact h
  | tail _ hdrift ih => exact ih.drift hdrift

theorem Carries.item {c : SwappableService S.Inst} (h : Carries S c false) :
    Carries S (c.item S.clone) false := by
  refine ⟨h.published, ?_, nofun⟩
  intro i hi
  obtain ⟨k, hk, rfl⟩ := Option.map_eq_some_iff.mp hi
  cases hslot : c.slot with
  | updating => rw [hslot] at hk; cases hk
  | ready s =>
    obtain ⟨b, hb⟩ := h.published s hslot
    rw [hslot] at hk
    obtain rfl := Option.some.inj hk
    exact ⟨false, .clone hb⟩

theorem Carries.drains {c d : SwappableService S.Inst} (h : Carries S c false)
    (hdrains : Drains S c d) : Carries S d false := by
  induction hdrains with
  | stop => exact h
  | item _ _ ih => exact ih h.item
  | drift hdrift _ ih => exact ih (h.drift hdrift)

theorem Carries.polls {c d : SwappableService S.Inst} {ready : Bool} {p : Poll}
    (h : Carries S c ready) (hpolls : Polls S c p d) : Carries S d (decide (p = .ok)) := by
  cases hpolls with
  | @inner d e i i' _ hdrains hdrifts hready hpoll =>
    have he := (h.unready.drains hdrains).drifts hdrifts
    obtain ⟨b, hb⟩ := he.cached i hready
    refine ⟨he.published, ?_, ?_⟩
    · rintro k ⟨⟩
      exact ⟨_, hb.poll hpoll⟩
    · intro hok
      have hkept := hb.poll hpoll
      rw [hok] at hkept
      exact ⟨i', rfl, hkept⟩
  | unready hdrains => exact h.unready.drains hdrains

theorem carries_of_reached {c : SwappableService S.Inst} {ready : Bool}
    (h : (swappable S).Reached c ready) : Carries S c ready := by
  refine h.invariant ?_ (fun _ _ _ hc hdrift => hc.drift hdrift) ?_
    (fun _ _ _ _ hc hpolls => hc.polls hpolls) ?_
  · rintro c ⟨initial, b, hinitial, rfl⟩
    refine ⟨?_, nofun, nofun⟩
    rintro i ⟨⟩
    exact ⟨b, hinitial⟩
  · intro c b hc
    exact ⟨hc.published, nofun, nofun⟩
  · intro c c' b req a hc hcall
    cases hcall with
    | inner => exact hc.unready
    | unready => exact hc.unready

/-! ## What an instance can come to hold -/

/-- A node in its `poll_ready`, past the loop, with `i` as its cached service; where
`i` is ready, so is the node. -/
structure Caches (c : SwappableService S.Inst) (i : S.Inst) (ready : Bool) : Prop where
  polling : ∃ c₀ d b, (swappable S).Reached c₀ b ∧ Drains S c₀ d ∧ ReflTransGen (Drift S) d c
  cached : c.ready = some i
  seen : c.changed = false
  ready : ready = true → (swappable S).Reached c true

/-- **Every kept clone is the cached service of some node.** -/
theorem exists_caches {i : S.Inst} {ready : Bool} (h : S.Kept i ready) :
    ∃ c : SwappableService S.Inst, Caches c i ready := by
  induction h with
  | @clone k b hk =>
    have hbuilt : (swappable S).Reached (.fromReceiver (.ready k) false) false :=
      .built ⟨k, b, hk, rfl⟩
    exact ⟨⟨.ready k, false, false, some (S.clone k)⟩,
      ⟨_, _, _, hbuilt, .item rfl (.stop rfl), .refl⟩, rfl, rfl, nofun⟩
  | @drift k k' b _ hdrift ih =>
    obtain ⟨c, ⟨c₀, d, b₀, hreached, hdrains, hdrifts⟩, hcached, hseen, hready⟩ := ih
    have hmove : Drift S c { c with ready := some k' } := .cached hcached hdrift
    exact ⟨{ c with ready := some k' }, ⟨c₀, d, b₀, hreached, hdrains, hdrifts.tail hmove⟩, rfl,
      hseen, fun hr => (hready hr).drift hmove⟩
  | @poll k k' b p _ hpoll ih =>
    obtain ⟨c, ⟨c₀, d, b₀, hreached, hdrains, hdrifts⟩, hcached, hseen, -⟩ := ih
    have hnode : (swappable S).Reached { c with ready := some k' } (decide (p = .ok)) :=
      hreached.poll (Polls.inner hdrains hdrifts hcached hpoll)
    refine ⟨{ c with ready := some k' }, ⟨_, _, _, hnode, .stop hseen, .refl⟩, rfl, hseen, ?_⟩
    intro hr
    rwa [hr] at hnode

theorem honours_of_clonesServe (h : S.ClonesServe) : (swappable S).Honours := by
  intro c c' req a hreached hcall
  obtain ⟨i, hi, hkept⟩ := (carries_of_reached hreached).ready rfl
  cases hcall with
  | inner hready hdrifts hinner =>
    obtain rfl := Option.some.inj (hi.symm.trans hready)
    exact h hkept hdrifts hinner
  | unready hready => rw [hi] at hready; cases hready

theorem clonesServe_of_honours (h : (swappable S).Honours) : S.ClonesServe := by
  intro i j j' req a hkept hdrifts hcall
  obtain ⟨c, hc⟩ := exists_caches hkept
  exact h (hc.ready rfl) (Calls.inner hc.cached hdrifts hcall)

/-- **When a swappable service passes the readiness contract on**: exactly over a
service whose clones serve without a poll of their own. -/
theorem swappable_honours_iff (S : Service Req Resp) :
    (swappable S).Honours ↔ S.ClonesServe :=
  ⟨clonesServe_of_honours, honours_of_clonesServe⟩

/-! ## A node under a node -/

/-- What happens around an instance does not give it a cached service. -/
theorem ready_eq_none_of_drifts {c d : SwappableService S.Inst} (h : ReflTransGen (Drift S) c d)
    (hc : c.ready = none) : d.ready = none := by
  induction h with
  | refl => exact hc
  | tail _ hdrift ih =>
    cases hdrift with
    | cached hready => rw [ih] at hready; cases hready
    | _ => exact ih

/-- **A node under a node serves no call.** -/
theorem nested_call_notReady {c c' : SwappableService (swappable S).Inst} {req : Req}
    {a : Answer Resp} (h : Calls (swappable S) c req a c') : a = .notReady := by
  cases h with
  | unready => rfl
  | inner _ hdrifts hcall =>
    have hnone := ready_eq_none_of_drifts hdrifts rfl
    have hinner : Calls S _ req a _ := hcall
    cases hinner with
    | unready => rfl
    | inner hready => rw [hnone] at hready; cases hready

/-- `Adder`, a service of the tests. -/
def adder : Service Int Int where
  Inst := Int
  Built _ := True
  Drift _ _ := False
  clone delta := delta
  Polls delta p delta' := p = .ok ∧ delta' = delta
  Calls delta req a delta' := a = .served (req + delta) ∧ delta' = delta

theorem adder_honours_and_clonesServe : adder.Honours ∧ adder.ClonesServe :=
  Service.honours_and_clonesServe fun hcall => ⟨_, hcall.1⟩

/-- A node over an `Adder`. -/
def adderNode : SwappableService Int := .fromReceiver (.ready 1) false

/-- **A node over an `Adder` honours the contract; a node over this node does not.**
It says that it is ready, and then refuses every call. -/
theorem nested_adder_refuses :
    (swappable adder).Honours ∧ ∃ c : SwappableService (SwappableService Int),
      (swappable (swappable adder)).Reached c true ∧
        ∀ req, (swappable (swappable adder)).Calls c req .notReady c := by
  refine ⟨honours_of_clonesServe adder_honours_and_clonesServe.2, ?_⟩
  have hnode : (swappable adder).Reached adderNode false := .built ⟨_, false, .built trivial, rfl⟩
  have houter : (swappable (swappable adder)).Reached (.fromReceiver (.ready adderNode) false) false :=
    .built ⟨_, false, hnode, rfl⟩
  -- both nodes find their service published, and the `Adder` is ready
  have hpoll : Polls adder adderNode .ok ⟨.ready (1 : Int), false, false, some (1 : Int)⟩ :=
    .inner (.item rfl (.stop rfl)) .refl rfl ⟨rfl, rfl⟩
  have hready := houter.poll (Polls.inner (.item rfl (.stop rfl)) .refl rfl hpoll)
  exact ⟨_, hready, fun req => Calls.inner rfl .refl (Calls.unready rfl)⟩

end Swappable

end XrayRs.HotSwap
