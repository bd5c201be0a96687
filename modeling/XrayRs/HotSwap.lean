import XrayRs.StepSystem

/-! # Hot-swapping a service

`SwappableService` and `SwapHandle` (`kernel/src/runtime/service/mod.rs`).  A `watch`
channel is a register with its latest value and a notification of changes; `log` keeps
all values ever sent, of which a receiver sees the last only.  An update is two sends
with the roll of the token between them, and a `poll_ready` is a loop of `poll_next`,
each of them a step: handle and consumers may run on different threads.

A consumer's cached service is the value at its cursor in the log
(`Swap.synced_of_run`), and a poll does not end before the cursor has passed all that
was sent when it began (`seen_of_polled`). -/

namespace XrayRs.HotSwap

open StepSystem

variable {S : Type}

/-! ## The machine -/

/-- `Slot`. -/
inductive Slot (S : Type)
  | updating
  | ready (s : S)
  deriving DecidableEq

/-- The service of a slot. -/
def Slot.service : Slot S → Option S
  | .updating => none
  | .ready s => some s

/-- `UpdatePolicy`. -/
inductive UpdatePolicy
  | abort
  | drain
  deriving DecidableEq

/-- Where `SwapHandle::update` is: not being called, after its first send, before its
second, or gone with the handle. -/
inductive Updater (S : Type)
  | idle
  | rolling (new : S)
  | publishing (new : S)
  | dropped
  deriving DecidableEq

/-- Where `poll_ready` is: not being called, in its loop, or after it. -/
inductive Phase
  | idle
  | draining
  | drained
  deriving DecidableEq

/-- What `poll_ready` returns. -/
inductive PollReady
  | pending
  | ok
  | err
  deriving DecidableEq

/-- `SwappableService`: how much of the log its stream has seen, and the cached
service.  The first item of a new stream is the current value. -/
structure Consumer (S : Type) where
  seen : Nat
  ready : Option S
  phase : Phase
  alive : Bool
  deriving DecidableEq

/-- `SwappableService::from_receiver`. -/
def Consumer.fromReceiver : Consumer S := ⟨0, none, .idle, true⟩

/-- The service of the last of the first `n` values. -/
def valueAt (log : List (Slot S)) (n : Nat) : Option S := (log.take n).getLast?.bind Slot.service

/-- One `poll_next` of the stream, and what the loop of `poll_ready` makes of it. -/
def Consumer.next (c : Consumer S) (log : List (Slot S)) : Consumer S :=
  if c.seen < log.length then { c with seen := log.length, ready := valueAt log log.length }
  else { c with phase := .drained }

/-- A node's `watch` channel, its handle and its consumers. -/
structure Swap (S : Type) where
  log : List (Slot S)
  updater : Updater S
  policy : UpdatePolicy
  token : Nat
  cancelled : List Nat
  consumers : List (Consumer S)
  deriving DecidableEq

namespace Swap

/-- `SwapHandle::new`. -/
def new (initial : S) (policy : UpdatePolicy) : Swap S :=
  ⟨[.ready initial], .idle, policy, 0, [], [.fromReceiver]⟩

/-- The value that the channel holds. -/
def slot (s : Swap S) : Option (Slot S) := s.log.getLast?

/-- A `send` finds a receiver. -/
def HasConsumer (s : Swap S) : Prop := ∃ c ∈ s.consumers, c.alive = true

/-- `self.token.cancel()`, if the policy says so, and a new token. -/
def rollToken (s : Swap S) : Swap S :=
  { s with
    cancelled := if s.policy = .abort then s.token :: s.cancelled else s.cancelled
    token := s.token + 1 }

/-- The consumer at position `i` becomes `c`. -/
def put (s : Swap S) (i : Nat) (c : Consumer S) : Swap S :=
  { s with consumers := s.consumers.set i c }

/-- `watch::Sender::send`, which fails where nobody receives. -/
def send (s : Swap S) (v : Slot S) : Option (Swap S) :=
  if ∃ c ∈ s.consumers, c.alive = true then some { s with log := s.log ++ [v] } else none

/-- `SwapHandle::update`, if no consumer comes or goes meanwhile. -/
def update (s : Swap S) (new : S) : Swap S × Bool :=
  match s.send .updating with
  | none => (s, false)
  | some s =>
    match s.rollToken.send (.ready new) with
    | none => (s.rollToken, false)
    | some s => (s, true)

end Swap

/-- The moves: of the handle, and of the consumer at a position.  A send says whether it
found a receiver; without one `update` returns `false`. -/
inductive Act (S : Type)
  | begin (new : S) (sent : Bool)
  | roll
  | publish (new : S) (sent : Bool)
  | dropHandle
  | clone (i : Nat)
  | discard (i : Nat)
  | poll (i : Nat)
  | next (i : Nat)
  | ret (i : Nat) (r : PollReady)
  | call (i : Nat) (served : Option S)
  deriving DecidableEq

/-- **The steps of a handle and its consumers.** -/
inductive Step (s : Swap S) : Act S → Swap S → Prop
  | begin (new : S) (hidle : s.updater = .idle) (hsent : s.HasConsumer) :
      Step s (.begin new true) { s with log := s.log ++ [.updating], updater := .rolling new }
  | beginFail (new : S) (hidle : s.updater = .idle) (hfail : ¬ s.HasConsumer) :
      Step s (.begin new false) s
  | roll {new : S} (hup : s.updater = .rolling new) :
      Step s .roll { s.rollToken with updater := .publishing new }
  | publish {new : S} (hup : s.updater = .publishing new) (hsent : s.HasConsumer) :
      Step s (.publish new true) { s with log := s.log ++ [.ready new], updater := .idle }
  | publishFail {new : S} (hup : s.updater = .publishing new) (hfail : ¬ s.HasConsumer) :
      Step s (.publish new false) { s with updater := .idle }
  | dropHandle (hidle : s.updater = .idle) : Step s .dropHandle { s with updater := .dropped }
  | clone {i : Nat} {c : Consumer S} (hc : s.consumers[i]? = some c) (halive : c.alive = true)
      (hidle : c.phase = .idle) :
      Step s (.clone i) { s with consumers := s.consumers ++ [.fromReceiver] }
  | discard {i : Nat} {c : Consumer S} (hc : s.consumers[i]? = some c) (halive : c.alive = true)
      (hidle : c.phase = .idle) : Step s (.discard i) (s.put i { c with alive := false })
  | poll {i : Nat} {c : Consumer S} (hc : s.consumers[i]? = some c) (halive : c.alive = true)
      (hidle : c.phase = .idle) : Step s (.poll i) (s.put i { c with phase := .draining })
  | next {i : Nat} {c : Consumer S} (hc : s.consumers[i]? = some c)
      (hdrain : c.phase = .draining) : Step s (.next i) (s.put i (c.next s.log))
  -- without a cached service it is `Pending`, else what the service's own `poll_ready` says
  | ret {i : Nat} {c : Consumer S} (r : PollReady) (hc : s.consumers[i]? = some c)
      (hdrained : c.phase = .drained) (hnone : c.ready = none → r = .pending) :
      Step s (.ret i r) (s.put i { c with phase := .idle })
  | call {i : Nat} {c : Consumer S} {served : Option S} (hc : s.consumers[i]? = some c)
      (halive : c.alive = true) (hidle : c.phase = .idle) (hserved : c.ready = served) :
      Step s (.call i served) s

/-- One `poll_ready` of the consumer at position `i`, from its call in `s` to its return
in `s'`; the others may move meanwhile. -/
inductive Polled (i : Nat) (r : PollReady) (s s' : Swap S) : Prop
  | intro {s₁ s₂ : Swap S} {trace : List (Act S × Swap S)} (hpoll : Step s (.poll i) s₁)
      (hrun : Run Step s₁ trace s₂) (hnoret : ∀ p ∈ trace, ∀ r, p.1 ≠ .ret i r)
      (hret : Step s₂ (.ret i r) s')

/-- A `call` of the consumer at position `i` in a state after `s`, before any other
`poll_ready` of it, and the service that serves it. -/
inductive Called (i : Nat) (served : Option S) (s : Swap S) : Prop
  | intro {s₁ s₂ : Swap S} {trace : List (Act S × Swap S)} (hrun : Run Step s trace s₁)
      (hnopoll : ∀ p ∈ trace, p.1 ≠ .poll i) (hcall : Step s₁ (.call i served) s₂)

/-! ## What a step does -/

/-- What one action makes of the consumer at position `i`. -/
inductive Moves (log : List (Slot S)) (i : Nat) (c : Consumer S) : Act S → Consumer S → Prop
  | stay (a : Act S) : Moves log i c a c
  | discard : Moves log i c (.discard i) { c with alive := false }
  | poll : Moves log i c (.poll i) { c with phase := .draining }
  | next (h : c.phase = .draining) : Moves log i c (.next i) (c.next log)
  | ret (r : PollReady) : Moves log i c (.ret i r) { c with phase := .idle }

section Steps

variable {s t : Swap S} {a : Act S}

/-- **What a step sends.** -/
theorem Step.log (h : Step s a t) :
    t.log = s.log ∨ (∃ new, a = .begin new true ∧ t.log = s.log ++ [.updating]) ∨
      ∃ new, a = .publish new true ∧ s.updater = .publishing new ∧
        t.log = s.log ++ [.ready new] := by
  cases h with
  | begin new => exact .inr (.inl ⟨new, rfl, rfl⟩)
  | publish hup => exact .inr (.inr ⟨_, rfl, hup, rfl⟩)
  | _ => exact .inl rfl

theorem Step.exists_log_eq (h : Step s a t) : ∃ sent, t.log = s.log ++ sent := by
  rcases h.log with h | ⟨_, -, h⟩ | ⟨_, -, -, h⟩
  · exact ⟨[], by rw [h, List.append_nil]⟩
  · exact ⟨_, h⟩
  · exact ⟨_, h⟩

theorem Swap.put_getElem? {i : Nat} {c : Consumer S} (hc : s.consumers[i]? = some c)
    (c' : Consumer S) : (s.put i c').consumers[i]? = some c' := by
  simp [Swap.put, (List.getElem?_eq_some_iff.mp hc).1]

theorem Moves.of_put {i k : Nat} {c d d' : Consumer S} (hc : s.consumers[i]? = some c)
    (hd : s.consumers[k]? = some d) (h : Moves s.log k d a d') :
    ∃ c', (s.put k d').consumers[i]? = some c' ∧ Moves s.log i c a c' := by
  by_cases hki : k = i
  · subst hki
    obtain rfl := Option.some.inj (hd.symm.trans hc)
    exact ⟨d', Swap.put_getElem? hd d', h⟩
  · exact ⟨c, by simp [Swap.put, hki, hc], .stay a⟩

/-- **What a step does to a consumer.** -/
theorem Step.consumer {i : Nat} {c : Consumer S} (h : Step s a t)
    (hc : s.consumers[i]? = some c) :
    ∃ c', t.consumers[i]? = some c' ∧ Moves s.log i c a c' := by
  cases h with
  | clone =>
    refine ⟨c, ?_, .stay _⟩
    rw [List.getElem?_append_left (List.getElem?_eq_some_iff.mp hc).1, hc]
  | discard hd => exact Moves.of_put hc hd .discard
  | poll hd => exact Moves.of_put hc hd .poll
  | next hd hdrain => exact Moves.of_put hc hd (.next hdrain)
  | ret r hd => exact Moves.of_put hc hd (.ret r)
  | _ => exact ⟨c, hc, .stay _⟩

/-- A consumer after a step was there before, or is new. -/
theorem Step.consumer_before {i : Nat} {c' : Consumer S} (h : Step s a t)
    (hc' : t.consumers[i]? = some c') :
    c' = .fromReceiver ∨ ∃ c, s.consumers[i]? = some c ∧ Moves s.log i c a c' := by
  cases hc : s.consumers[i]? with
  | some c =>
    obtain ⟨d, hd, hmoves⟩ := h.consumer hc
    obtain rfl := Option.some.inj (hd.symm.trans hc')
    exact .inr ⟨c, rfl, hmoves⟩
  | none =>
    left
    have hlen := List.getElem?_eq_none_iff.mp hc
    have hlt := (List.getElem?_eq_some_iff.mp hc').1
    cases h with
    | clone =>
      rw [List.getElem?_append_right hlen] at hc'
      exact (List.mem_singleton.mp (List.mem_of_getElem? hc'))
    | _ => exact absurd hlt (by simpa [Swap.put, Swap.rollToken] using hlen)

end Steps

/-- `update` without an interruption is a run of the handle. -/
theorem Swap.exists_run_update {s t : Swap S} {new : S} (hidle : s.updater = .idle)
    (h : s.update new = (t, true)) :
    ∃ before, Run Step s (before ++ [(.publish new true, t)]) t := by
  obtain ⟨log, updater, policy, token, cancelled, consumers⟩ := s
  obtain rfl : updater = .idle := hidle
  by_cases hsome : ∃ c ∈ consumers, c.alive = true
  · simp only [Swap.update, Swap.send, if_pos hsome, rollToken, Prod.mk.injEq, and_true] at h
    subst h
    exact ⟨[_, _], .cons (.begin new rfl hsome) <| .cons (.roll rfl) <|
      .cons (.publish rfl hsome) (.nil _)⟩
  · simp only [Swap.update, Swap.send, if_neg hsome, Prod.mk.injEq, Bool.false_eq_true,
      and_false] at h

/-! ## A consumer's cached service -/

theorem valueAt_append (log sent : List (Slot S)) {n : Nat} (h : n ≤ log.length) :
    valueAt (log ++ sent) n = valueAt log n := by
  rw [valueAt, valueAt, List.take_append_of_le_length h]

/-- The cached service is the one at the consumer's cursor. -/
structure Consumer.Synced (c : Consumer S) (log : List (Slot S)) : Prop where
  seen_le : c.seen ≤ log.length
  ready_eq : c.ready = valueAt log c.seen

theorem Moves.synced {log : List (Slot S)} {i : Nat} {c c' : Consumer S} {a : Act S}
    (h : Moves log i c a c') (hc : c.Synced log) : c'.Synced log := by
  cases h with
  | next hdrain =>
    rw [Consumer.next]
    split
    · exact ⟨Nat.le_refl _, rfl⟩
    · exact ⟨hc.seen_le, hc.ready_eq⟩
  | _ => exact ⟨hc.seen_le, hc.ready_eq⟩

/-- Every consumer's cached service is the one at its cursor. -/
def Swap.Synced (s : Swap S) : Prop :=
  ∀ (i : Nat) (c : Consumer S), s.consumers[i]? = some c → c.Synced s.log

theorem Swap.synced_of_step {s t : Swap S} {a : Act S} (h : Step s a t) (hs : s.Synced) :
    t.Synced := by
  intro i c' hc'
  obtain ⟨sent, hlog⟩ := h.exists_log_eq
  rcases h.consumer_before hc' with rfl | ⟨c, hc, hmoves⟩
  · exact ⟨Nat.zero_le _, by simp [Consumer.fromReceiver, valueAt]⟩
  · have hsynced := hmoves.synced (hs i c hc)
    refine ⟨?_, ?_⟩
    · have := hsynced.seen_le
      simp only [hlog, List.length_append]
      omega
    · rw [hlog, valueAt_append _ _ hsynced.seen_le, hsynced.ready_eq]

theorem Swap.synced_of_run {initial : S} {policy : UpdatePolicy} {s : Swap S}
    {trace : List (Act S × Swap S)} (h : Run Step (.new initial policy) trace s) : s.Synced := by
  apply h.invariant _ (fun _ _ _ hs hstep => Swap.synced_of_step hstep hs)
  intro i c hc
  rw [List.mem_singleton.mp (List.mem_of_getElem? hc)]
  exact ⟨Nat.zero_le _, by simp [Consumer.fromReceiver, valueAt]⟩

/-! ## A poll and the call after it -/

/-- The consumer at position `i` is in `poll_ready`, which it does not leave before it
has seen the first `n` values. -/
def Polling (i n : Nat) (s : Swap S) : Prop :=
  n ≤ s.log.length ∧ ∃ c, s.consumers[i]? = some c ∧
    (c.phase = .draining ∨ c.phase = .drained ∧ n ≤ c.seen)

theorem Polling.step {i n : Nat} {s t : Swap S} {a : Act S} (h : Step s a t)
    (hnoret : ∀ r, a ≠ .ret i r) (hs : Polling i n s) : Polling i n t := by
  obtain ⟨hn, c, hc, hphase⟩ := hs
  obtain ⟨sent, hlog⟩ := h.exists_log_eq
  obtain ⟨c', hc', hmoves⟩ := h.consumer hc
  refine ⟨?_, c', hc', ?_⟩
  · simp only [hlog, List.length_append]
    omega
  · cases hmoves with
    | stay => exact hphase
    | discard => exact hphase
    | poll => exact .inl rfl
    | next hdrain =>
      rw [Consumer.next]
      split
      · exact .inl hdrain
      · exact .inr ⟨rfl, by simp only; omega⟩
    | ret r => exact absurd rfl (hnoret r)

/-- The consumer at position `i` is not in `poll_ready` and has `v` cached. -/
def Holding (i : Nat) (v : Option S) (s : Swap S) : Prop :=
  ∃ c, s.consumers[i]? = some c ∧ c.phase = .idle ∧ c.ready = v

theorem Holding.step {i : Nat} {v : Option S} {s t : Swap S} {a : Act S} (h : Step s a t)
    (hnopoll : a ≠ .poll i) (hs : Holding i v s) : Holding i v t := by
  obtain ⟨c, hc, hidle, hready⟩ := hs
  obtain ⟨c', hc', hmoves⟩ := h.consumer hc
  refine ⟨c', hc', ?_⟩
  cases hmoves with
  | poll => exact absurd rfl hnopoll
  | next hdrain => exact absurd (hidle.symm.trans hdrain) (by decide)
  | ret r => exact ⟨rfl, hready⟩
  | _ => exact ⟨hidle, hready⟩

theorem Called.served_eq {i : Nat} {v served : Option S} {s : Swap S}
    (h : Called i served s) (hs : Holding i v s) : served = v := by
  obtain ⟨hrun, hnopoll, hcall⟩ := h
  obtain ⟨c, hc, -, hready⟩ := hrun.invariant_of_good (· ≠ .poll i) hnopoll hs
    (fun _ _ _ ha hinv hstep => hinv.step hstep ha)
  cases hcall with
  | call hd _ _ hserved =>
    obtain rfl := Option.some.inj (hd.symm.trans hc)
    exact hserved.symm.trans hready

/-- A cursor at or behind the end of `log` sees its last value, or one sent after. -/
theorem ready_of_valueAt {log sent : List (Slot S)} {n : Nat} {svc : S} (hn : log.length ≤ n)
    (h : valueAt (log ++ sent) n = some svc) :
    log.getLast? = some (.ready svc) ∨ .ready svc ∈ sent := by
  obtain ⟨v, hv, hsvc⟩ := Option.bind_eq_some_iff.mp h
  obtain rfl : v = .ready svc := by
    cases v with
    | updating => cases hsvc
    | ready s => exact congrArg Slot.ready (Option.some.inj hsvc)
  rw [List.take_append, List.take_of_length_le hn, List.getLast?_append] at hv
  rcases Option.or_eq_some_iff.mp hv with hv | ⟨-, hv⟩
  · exact .inr (List.mem_of_mem_take (List.mem_of_getLast? hv))
  · exact .inl hv

/-- **What a poll ends with**: `Pending`, or a service that was current when it began
or was sent while it went on. -/
theorem Polled.seen {i : Nat} {r : PollReady} {s s' : Swap S} (h : Polled i r s s')
    (hs : s.Synced) :
    ∃ sent, s'.log = s.log ++ sent ∧ (r = .pending ∨ ∃ svc, Holding i (some svc) s' ∧
      (s.slot = some (.ready svc) ∨ .ready svc ∈ sent)) := by
  obtain @⟨s₁, s₂, _, hpoll, hrun, hnoret, hret⟩ := h
  have hinv : Polling i s.log.length s₂ ∧ s₂.Synced ∧ ∃ sent, s₂.log = s.log ++ sent := by
    apply hrun.invariant_of_good (fun a => ∀ r, a ≠ .ret i r) hnoret
    · refine ⟨?_, Swap.synced_of_step hpoll hs, hpoll.exists_log_eq⟩
      cases hpoll with
      | poll hc =>
        exact ⟨Nat.le_refl _, _, Swap.put_getElem? hc _, .inl rfl⟩
    · rintro x y a ha ⟨hpolling, hsynced, sent, hsent⟩ hstep
      obtain ⟨more, hmore⟩ := hstep.exists_log_eq
      refine ⟨hpolling.step hstep ha, Swap.synced_of_step hstep hsynced, sent ++ more, ?_⟩
      rw [hmore, hsent, List.append_assoc]
  obtain ⟨⟨-, c, hc, hphase⟩, hsynced, sent, hsent⟩ := hinv
  refine ⟨sent, ?_⟩
  cases hret with
  | ret r hd hdrained hnone =>
    refine ⟨hsent, ?_⟩
    obtain rfl := Option.some.inj (hc.symm.trans hd)
    cases hready : c.ready with
    | none => exact .inl (hnone hready)
    | some svc =>
      have hseen : s.log.length ≤ c.seen := by
        rcases hphase with hphase | ⟨-, hseen⟩
        · exact absurd (hphase.symm.trans hdrained) (by decide)
        · exact hseen
      have hvalue := (hsynced i c hc).ready_eq
      rw [hready, hsent] at hvalue
      exact .inr ⟨svc, ⟨_, Swap.put_getElem? hc _, rfl, rfl⟩,
        ready_of_valueAt hseen hvalue.symm⟩

/-! ## Freshness -/

/-- After an update, and before the next one starts, the channel holds its service. -/
theorem slot_of_published {s t u : Swap S} {new : S} {trace : List (Act S × Swap S)}
    (hpub : Step s (.publish new true) t) (hrun : Run Step t trace u)
    (hnone : ∀ p ∈ trace, ∀ new b, p.1 ≠ .begin new b) : u.slot = some (.ready new) := by
  have hinv : u.slot = some (.ready new) ∧ ∀ svc, u.updater ≠ .publishing svc ∧
      u.updater ≠ .rolling svc := by
    apply hrun.invariant_of_good (fun a => ∀ new b, a ≠ .begin new b) hnone
    · cases hpub with
      | publish => exact ⟨List.getLast?_concat, fun _ => ⟨nofun, nofun⟩⟩
    · rintro x y a ha ⟨hslot, hup⟩ hstep
      cases hstep with
      | begin new => exact absurd rfl (ha new true)
      | roll hroll => exact absurd hroll (hup _).2
      | publish hpublish => exact absurd hpublish (hup _).1
      | publishFail hpublish => exact absurd hpublish (hup _).1
      | dropHandle => exact ⟨hslot, fun _ => ⟨nofun, nofun⟩⟩
      | _ => exact ⟨hslot, hup⟩
  exact hinv.1

/-- **Freshness of a hot-swapped service.**  Whatever handle and consumers did before and
do meanwhile: where a `poll_ready` returns `Ready(Ok)`, the next `call` is served by the
service that was current when the poll started or by one sent while it went on; where
the poll starts after `update(new)` returned `true` and before the next update starts, by
`new` or by one sent while it went on.
While the slot is `Updating` the poll returns `Pending`. -/
theorem hot_swap_fresh {initial : S} {policy : UpdatePolicy} {s s' : Swap S} {i : Nat}
    {r : PollReady} {trace : List (Act S × Swap S)} (h : Run Step (.new initial policy) trace s)
    (hpolled : Polled i r s s') :
    ∃ sent, s'.log = s.log ++ sent ∧
      (r = .ok → ∀ served, Called i served s' → ∃ svc, served = some svc ∧
        (s.slot = some (.ready svc) ∨ .ready svc ∈ sent)) ∧
      (∀ before after new t, trace = before ++ (.publish new true, t) :: after →
        (∀ p ∈ after, ∀ next b, p.1 ≠ .begin next b) → r = .ok → ∀ served, Called i served s' →
          served = some new ∨ ∃ svc, .ready svc ∈ sent ∧ served = some svc) ∧
      (s.slot = some .updating → (∀ svc, .ready svc ∉ sent) → r = .pending) := by
  obtain ⟨sent, hsent, hseen⟩ := hpolled.seen (Swap.synced_of_run h)
  have hserved : r = .ok → ∀ served, Called i served s' → ∃ svc, served = some svc ∧
      (s.slot = some (.ready svc) ∨ .ready svc ∈ sent) := by
    rintro rfl served hcalled
    rcases hseen with hpending | ⟨svc, hholding, hfresh⟩
    · exact absurd hpending (by decide)
    · exact ⟨svc, hcalled.served_eq hholding, hfresh⟩
  refine ⟨sent, hsent, hserved, ?_, ?_⟩
  · rintro before after new t rfl hnone hok served hcalled
    obtain ⟨u, -, hrest⟩ := h.exists_of_append
    obtain ⟨svc, rfl, hslot | hmem⟩ := hserved hok served hcalled
    · cases hrest with
      | cons hpub hafter =>
        rw [slot_of_published hpub hafter hnone] at hslot
        cases hslot
        exact .inl rfl
    · exact .inr ⟨svc, hmem, rfl⟩
  · intro hupdating hnosend
    rcases hseen with hpending | ⟨svc, -, hslot | hmem⟩
    · exact hpending
    · rw [hupdating] at hslot
      cases hslot
    · exact absurd hmem (hnosend svc)

/-- After `update(1)` of a handle made with service 0. -/
def updatedOnce : Swap Nat :=
  ⟨[.ready 0, .updating, .ready 1], .idle, .drain, 1, [], [.fromReceiver]⟩

theorem exists_run_updatedOnce :
    ∃ before, Run Step (.new 0 .drain) (before ++ [(.publish 1 true, updatedOnce)]) updatedOnce :=
  Swap.exists_run_update rfl rfl

/-- The consumer polls and calls after `update(1)`. -/
theorem hot_swap_fresh_once :
    ∃ s', Polled 0 .ok updatedOnce s' ∧ Called 0 (some 1) s' ∧
      ∀ served, Called 0 served s' → served = some 1 := by
  obtain ⟨before, hrun⟩ := exists_run_updatedOnce
  have hpoll : ∃ s', Polled 0 .ok updatedOnce s' ∧ Called 0 (some 1) s' ∧
      s'.log = updatedOnce.log ++ [] :=
    ⟨_, .intro (.poll (i := 0) rfl rfl rfl)
      (.cons (.next (i := 0) rfl rfl) <| .cons (.next (i := 0) rfl rfl) (.nil _))
      (by simp) (.ret (i := 0) .ok rfl rfl nofun),
      .intro (.nil _) nofun (.call (i := 0) rfl rfl rfl rfl), rfl⟩
  obtain ⟨s', hpolled, hcalled, hlog⟩ := hpoll
  refine ⟨s', hpolled, hcalled, fun served hcalled => ?_⟩
  obtain ⟨sent, hsent, -, hnew, -⟩ := hot_swap_fresh hrun hpolled
  obtain rfl : sent = [] := List.append_cancel_left (hsent.symm.trans hlog)
  rcases hnew before [] 1 updatedOnce rfl nofun rfl served hcalled with hserved | ⟨svc, hmem, -⟩
  · exact hserved
  · cases hmem

/-- **An update that overtakes a poll.**  `update(1)` has returned and the next update
has not started when the poll starts, but `update(2)` runs while it goes on: the call is
served by 2. -/
theorem hot_swap_overtaken :
    ∃ before s s', Run Step (Swap.new 0 .drain) (before ++ [(.publish 1 true, s)]) s ∧
      Polled 0 .ok s s' ∧ Called 0 (some 2) s' := by
  obtain ⟨before, hrun⟩ := exists_run_updatedOnce
  refine ⟨before, updatedOnce, _, hrun, .intro (.poll (i := 0) rfl rfl rfl)
    (.cons (.next (i := 0) rfl rfl) <| .cons (.begin 2 rfl ⟨_, List.mem_singleton_self _, rfl⟩) <|
      .cons (.roll rfl) <| .cons (.publish rfl ⟨_, List.mem_singleton_self _, rfl⟩) <|
      .cons (.next (i := 0) rfl rfl) <| .cons (.next (i := 0) rfl rfl) (.nil _))
    (by simp) (.ret (i := 0) .ok rfl rfl nofun),
    .intro (.nil _) nofun (.call (i := 0) rfl rfl rfl rfl)⟩

end XrayRs.HotSwap
