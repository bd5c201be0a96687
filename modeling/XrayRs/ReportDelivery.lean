import XrayRs.PanelController
import XrayRs.TrafficStats

/-! # What the panel books

`report_user_traffic` posts what a cycle has taken through `send_with_retry`: an attempt that
gets no response is made again, three in all, also where the panel has booked it and only
the response was lost.  What is not acknowledged is put back into the counters, and reported
again by a later cycle.

So the panel may book bytes twice, but where uploads are enabled and no counter is removed,
none is forgotten: what was counted, and what was booked without being acknowledged, is what
the panel has booked, what is in the counters and what is on its way (`reports_delivered`). -/

namespace XrayRs.Traffic

open StepSystem Saas

/-! ## Attempts -/

/-- What becomes of an attempt to send a report: it does not get to the panel; it does, and
the connection fails before the head of the response; or it is answered.  The panel books
what gets to it, or does not. -/
inductive Attempt
  | unsent
  | lost (books : Bool)
  | answered (books : Bool) (resp : Response Unit)

namespace Attempt

/-- The panel has booked the report. -/
def Books : Attempt → Bool
  | .unsent => false
  | .lost books | .answered books _ => books

/-- The loop of `send_with_retry` and the rest of `post_json`: with no response, the request
is sent again, unless two attempts have failed before; a response decides. -/
def next (failed : Nat) : Attempt → Option Bool
  | .unsent | .lost _ => if failed < 2 then none else some false
  | .answered _ resp =>
    match resp.parse with
    | .ok () => some true
    | .error _ => some false

/-- The panel says that it has booked a report only if it has. -/
def Honest (a : Attempt) : Prop := a.next 0 = some true → a.Books = true

/-- What the panel has booked is acknowledged. -/
def Acknowledged (a : Attempt) : Prop := a.Books = true → a.next 0 = some true

/-- An acknowledgement does not depend on the attempts before. -/
theorem next_eq_some_true {a : Attempt} {failed failed' : Nat} (h : a.next failed = some true) :
    a.next failed' = some true := by
  cases a with
  | unsent | lost =>
    simp only [next] at h
    split at h <;> cases h
  | answered => exact h

end Attempt

/-! ## The system -/

/-- The registry and its workers; for each worker the attempts of its report that have
failed; and by tag and direction what the panel has booked, and what it has booked without
an acknowledgement that got back. -/
structure Delivery (ι : Type) where
  traffic : State ι
  failed : ι → Nat
  booked : String → Dir → Nat
  unacknowledged : String → Dir → Nat

/-- An operation on the counters, or an attempt of a worker to send its report. -/
inductive Turn (ι : Type)
  | counters (i : ι) (a : Act)
  | attempt (i : ι) (a : Attempt)

/-- The panel is honest about the attempt of a turn, if it is one. -/
def Turn.Honest {ι : Type} : Turn ι → Prop
  | .counters _ _ => True
  | .attempt _ a => a.Honest

/-- The attempt of a turn, if it is one, is acknowledged if it is booked. -/
def Turn.Acknowledged {ι : Type} : Turn ι → Prop
  | .counters _ _ => True
  | .attempt _ a => a.Acknowledged

namespace Delivery

variable {ι : Type}

/-- Nothing counted and nothing booked yet. -/
def new (nodeTag : ι → String) : Delivery ι :=
  ⟨.new nodeTag, fun _ => 0, fun _ _ => 0, fun _ _ => 0⟩

variable [DecidableEq ι]

/-- The state after an attempt of worker `i` to report `taken`. -/
def attempted (s : Delivery ι) (i : ι) (taken : List Taken) (a : Attempt) (traffic : State ι)
    (failed : Nat) : Delivery ι where
  traffic := traffic
  failed := Function.update s.failed i failed
  booked tag d := s.booked tag d + if a.Books then reportAmount tag d taken else 0
  unacknowledged tag d :=
    s.unacknowledged tag d +
      if a.Books ∧ a.next (s.failed i) ≠ some true then reportAmount tag d taken else 0

/-- The turns of the workers.  The operations are those of the cycle, but for the report,
which ends with the attempt that decides it. -/
inductive Step (disableUpload : ι → Bool) : Delivery ι → Turn ι → Delivery ι → Prop
  | counters {s : Delivery ι} {i : ι} {a : Act} {traffic : State ι} (hok : a ≠ .reportOk)
      (herr : a ≠ .reportErr) (hstep : State.Step disableUpload s.traffic (i, a) traffic) :
      Step disableUpload s (.counters i a) { s with traffic }
  | again {s : Delivery ι} {i : ι} {a : Attempt} {taken : List Taken}
      (hpc : (s.traffic.worker i).pc = .reporting taken) (hnext : a.next (s.failed i) = none) :
      Step disableUpload s (.attempt i a) (s.attempted i taken a s.traffic (s.failed i + 1))
  | acknowledged {s : Delivery ι} {i : ι} {a : Attempt} {taken : List Taken} {traffic : State ι}
      (hpc : (s.traffic.worker i).pc = .reporting taken) (hnext : a.next (s.failed i) = some true)
      (hstep : State.Step disableUpload s.traffic (i, .reportOk) traffic) :
      Step disableUpload s (.attempt i a) (s.attempted i taken a traffic 0)
  | refused {s : Delivery ι} {i : ι} {a : Attempt} {taken : List Taken} {traffic : State ι}
      (hpc : (s.traffic.worker i).pc = .reporting taken) (hnext : a.next (s.failed i) = some false)
      (hstep : State.Step disableUpload s.traffic (i, .reportErr) traffic) :
      Step disableUpload s (.attempt i a) (s.attempted i taken a traffic 0)

/-- **The books**: what the panel has booked is what was reported, and what it has booked
without an acknowledgement; and only a worker that reports has failed attempts, two at
most. -/
structure Books (s : Delivery ι) : Prop where
  booked : ∀ tag d, s.booked tag d = s.traffic.reported tag d + s.unacknowledged tag d
  failed : ∀ i, s.failed i ≤ 2 ∧
    (s.failed i ≠ 0 → ∃ taken, (s.traffic.worker i).pc = .reporting taken)

omit [DecidableEq ι] in
theorem new_books (nodeTag : ι → String) : Books (new nodeTag) where
  booked _ _ := rfl
  failed _ := ⟨Nat.zero_le _, fun h => absurd rfl h⟩

variable {disableUpload : ι → Bool} {s t : Delivery ι} {turn : Turn ι} {i : ι} {a : Attempt}
  {taken : List Taken} {traffic : State ι}

/-- An operation that is not the end of a report leaves reports as they are. -/
theorem reported_eq {act : Act} (hok : act ≠ .reportOk)
    (h : State.Step disableUpload s.traffic (i, act) traffic) :
    traffic.reported = s.traffic.reported := by
  obtain @⟨_, _, st, w, hop⟩ := h
  funext tag d
  show s.traffic.reported tag d + (s.traffic.worker i).pc.reports tag d act = _
  unfold Pc.reports
  split
  · exact absurd rfl hok
  · rfl

/-- The end of a report that is acknowledged. -/
theorem reported_ok (hpc : (s.traffic.worker i).pc = .reporting taken)
    (h : State.Step disableUpload s.traffic (i, .reportOk) traffic) (tag : String) (d : Dir) :
    traffic.reported tag d = s.traffic.reported tag d + reportAmount tag d taken := by
  obtain @⟨_, _, st, w, hop⟩ := h
  show s.traffic.reported tag d + (s.traffic.worker i).pc.reports tag d .reportOk = _
  rw [hpc]
  rfl

theorem worker_ne {act : Act} (h : State.Step disableUpload s.traffic (i, act) traffic) (j : ι)
    (hj : j ≠ i) : traffic.worker j = s.traffic.worker j := by
  obtain @⟨_, _, st, w, hop⟩ := h
  exact State.after_worker_ne hj

/-- A worker that reports goes on with the end of its report only. -/
theorem pc_of_counters {act : Act} (hok : act ≠ .reportOk) (herr : act ≠ .reportErr)
    (h : State.Step disableUpload s.traffic (i, act) traffic) {j : ι}
    (hpc : (s.traffic.worker j).pc = .reporting taken) :
    (traffic.worker j).pc = .reporting taken := by
  by_cases hj : j = i
  · subst hj
    obtain @⟨_, _, st, w, hop⟩ := h
    cases hop with
    | reportOk => exact absurd rfl hok
    | reportErr => exact absurd rfl herr
    | create h | get h | close h | add h | markFirst h | markAgain h | insert h | fetchAdd h
    | drain h | lookup h | next h | store h | swapUp h | swapDown h | finish h | giveBack h
    | done h => exact nomatch h.symm.trans hpc
  · rw [worker_ne h j hj]
    exact hpc

/-- The failed attempts of the workers, after one that decided or did not. -/
theorem Books.failed_attempted {failed : Nat} (hs : Books s) (hle : failed ≤ 2)
    (hself : failed ≠ 0 → (traffic.worker i).pc = .reporting taken)
    (hothers : ∀ j, j ≠ i → traffic.worker j = s.traffic.worker j) (j : ι) :
    (s.attempted i taken a traffic failed).failed j ≤ 2 ∧
      ((s.attempted i taken a traffic failed).failed j ≠ 0 →
        ∃ taken, (traffic.worker j).pc = .reporting taken) := by
  show Function.update s.failed i failed j ≤ 2 ∧ (Function.update s.failed i failed j ≠ 0 → _)
  by_cases hj : j = i
  · subst hj
    rw [Function.update_self]
    exact ⟨hle, fun hne => ⟨taken, hself hne⟩⟩
  · rw [Function.update_of_ne hj, hothers j hj]
    exact hs.failed j

/-- What an attempt that is not acknowledged books. -/
theorem Books.booked_attempted {failed : Nat} (hs : Books s) (hnext : a.next (s.failed i) ≠ some true)
    (hreported : ∀ tag d, traffic.reported tag d = s.traffic.reported tag d) (tag : String) (d : Dir) :
    (s.attempted i taken a traffic failed).booked tag d =
      (s.attempted i taken a traffic failed).traffic.reported tag d +
        (s.attempted i taken a traffic failed).unacknowledged tag d := by
  have hbooked := hs.booked tag d
  show s.booked tag d + (if a.Books then _ else 0) = traffic.reported tag d +
    (s.unacknowledged tag d + if a.Books ∧ a.next (s.failed i) ≠ some true then _ else 0)
  rw [hreported]
  by_cases hb : a.Books = true
  · rw [if_pos hb, if_pos ⟨hb, hnext⟩]
    omega
  · rw [if_neg hb, if_neg (fun h => hb h.1)]
    omega

theorem Attempt.lt_of_next {failed : Nat} (h : a.next failed = none) : failed < 2 := by
  cases a with
  | unsent | lost =>
    by_contra hge
    simp only [Attempt.next, if_neg hge] at h
    cases h
  | answered books resp =>
    simp only [Attempt.next] at h
    split at h <;> cases h

/-- **Every turn keeps the books**, if the panel is honest. -/
theorem Step.books (h : Step disableUpload s turn t) (hs : Books s) (hhonest : turn.Honest) :
    Books t := by
  cases h with
  | @counters i act traffic hok herr hstep =>
    refine ⟨fun tag d => ?_, fun j => ⟨(hs.failed j).1, fun hne => ?_⟩⟩
    · show s.booked tag d = traffic.reported tag d + s.unacknowledged tag d
      rw [reported_eq hok hstep]
      exact hs.booked tag d
    · obtain ⟨taken, hpc⟩ := (hs.failed j).2 hne
      exact ⟨taken, pc_of_counters hok herr hstep hpc⟩
  | @again i a taken hpc hnext =>
    have hlt := Attempt.lt_of_next hnext
    exact ⟨hs.booked_attempted (by rw [hnext]; nofun) fun _ _ => rfl,
      hs.failed_attempted (by omega) (fun _ => hpc) fun _ _ => rfl⟩
  | @acknowledged i a taken traffic hpc hnext hstep =>
    have hothers : ∀ j, j ≠ i → traffic.worker j = s.traffic.worker j := worker_ne hstep
    refine ⟨fun tag d => ?_, hs.failed_attempted (Nat.zero_le _) (absurd rfl) hothers⟩
    have hbooks : a.Books = true := hhonest (Attempt.next_eq_some_true hnext)
    have hbooked := hs.booked tag d
    show s.booked tag d + (if a.Books then _ else 0) = traffic.reported tag d +
      (s.unacknowledged tag d + if a.Books ∧ a.next (s.failed i) ≠ some true then _ else 0)
    rw [reported_ok hpc hstep, if_pos hbooks, if_neg (fun h => h.2 hnext)]
    omega
  | @refused i a taken traffic hpc hnext hstep =>
    have hothers : ∀ j, j ≠ i → traffic.worker j = s.traffic.worker j := worker_ne hstep
    exact ⟨hs.booked_attempted (by rw [hnext]; nofun) fun tag d =>
        congrFun (congrFun (reported_eq (by simp) hstep) tag) d,
      hs.failed_attempted (Nat.zero_le _) (absurd rfl) hothers⟩

/-- An attempt whose bookings are acknowledged adds nothing without an acknowledgement. -/
theorem Step.unacknowledged (h : Step disableUpload s turn t) (hack : turn.Acknowledged) :
    t.unacknowledged = s.unacknowledged := by
  have hattempt : ∀ {i : ι} {a : Attempt} {taken : List Taken} {traffic : State ι} {failed : Nat},
      a.Acknowledged → (s.attempted i taken a traffic failed).unacknowledged = s.unacknowledged := by
    intro i a taken traffic failed hack
    funext tag d
    show s.unacknowledged tag d +
      (if a.Books ∧ a.next (s.failed i) ≠ some true then _ else 0) = _
    rw [if_neg fun h => h.2 (Attempt.next_eq_some_true (hack h.1))]
    rfl
  cases h with
  | counters => rfl
  | again | acknowledged | refused => exact hattempt hack

theorem unacknowledged_of_run {trace : List (Turn ι × Delivery ι)}
    (h : Run (Step disableUpload) s trace t) (hack : ∀ p ∈ trace, p.1.Acknowledged) :
    t.unacknowledged = s.unacknowledged := by
  induction h with
  | nil => rfl
  | cons hfirst _ ih =>
    obtain ⟨ha, hrest⟩ := List.forall_mem_cons.mp hack
    exact (ih hrest).trans (hfirst.unacknowledged ha)

/-- A turn changes the counters as an operation does, or not at all. -/
theorem Step.simulates (h : Step disableUpload s turn t) :
    t.traffic = s.traffic ∨ ∃ i act, State.Step disableUpload s.traffic (i, act) t.traffic := by
  cases h with
  | counters _ _ hstep => exact .inr ⟨_, _, hstep⟩
  | again => exact .inl rfl
  | acknowledged _ _ hstep | refused _ _ hstep => exact .inr ⟨_, _, hstep⟩

theorem Step.balanced [Fintype ι] {tag : String} {d : Dir} (h : Step (fun _ => false) s turn t)
    (hs : State.Balanced tag d s.traffic) : State.Balanced tag d t.traffic := by
  rcases h.simulates with heq | ⟨i, act, hstep⟩
  · rw [heq]
    exact hs
  · exact hstep.balanced rfl hs

end Delivery

/-- **Reports are delivered at least once.**  For any number of workers on one registry with
uploads enabled, any interleaving of their operations and attempts in which no counter is
removed, whatever becomes of the requests and the responses, as long as the panel
acknowledges only what it books: for every tag and direction whose total is below 2^63, the
bytes counted and the bytes booked without an acknowledgement are at every moment those that
the panel has booked, those in the counter and those a worker has taken; no report is tried
more than three times; and where every booking is acknowledged, no byte is booked twice. -/
theorem reports_delivered {ι : Type} [Fintype ι] [DecidableEq ι] (nodeTag : ι → String)
    {trace : List (Turn ι × Delivery ι)} {s : Delivery ι}
    (h : Run (Delivery.Step fun _ => false) (.new nodeTag) trace s)
    (hhonest : ∀ p ∈ trace, p.1.Honest) (tag : String) (d : Dir)
    (htotal : s.traffic.added tag d < 2 ^ 63) :
    s.traffic.added tag d + s.unacknowledged tag d = s.booked tag d +
        s.traffic.stats.inCounter tag d + ∑ i, (s.traffic.worker i).pc.inFlight tag d ∧
      (∀ i, s.failed i ≤ 2) ∧
      ((∀ p ∈ trace, p.1.Acknowledged) → s.unacknowledged tag d = 0) := by
  have hbooks := h.invariant_of_good Turn.Honest hhonest (Delivery.new_books nodeTag)
    fun _ _ _ hhonest hs hstep => hstep.books hs hhonest
  have hbalanced : State.Balanced tag d s.traffic :=
    h.invariant (State.new_balanced nodeTag tag d) fun _ _ _ hs hstep => hstep.balanced hs
  have hconserved := hbalanced.2 htotal
  have hbooked := hbooks.booked tag d
  refine ⟨?_, fun i => (hbooks.failed i).1, fun hack => ?_⟩
  · unfold State.Conserved at hconserved
    omega
  · rw [Delivery.unacknowledged_of_run h hack]
    rfl

/-- The panel books five bytes, the response is lost, and it books them again. -/
theorem reports_delivered_again : ∃ s : Delivery Unit, s.booked "n|alice|1" .up = 10 ∧
    s.traffic.added "n|alice|1" .up + s.unacknowledged "n|alice|1" .up =
      s.booked "n|alice|1" .up + s.traffic.stats.inCounter "n|alice|1" .up +
        ∑ i, (s.traffic.worker i).pc.inFlight "n|alice|1" .up := by
  have hrun : Run (Delivery.Step fun _ : Unit => false) (.new fun _ => "n")
      [(.counters () (.connect "n|alice|1"), _), (.counters () (.add aliceCounter .up 5), _),
        (.counters () .mark, _), (.counters () .insert, _), (.counters () .fetchAdd, _),
        (.counters () (.drain ["n|alice|1"]), _), (.counters () .lookup, _),
        (.counters () .next, _), (.counters () .store, _), (.counters () .swapUp, _),
        (.counters () .swapDown, _), (.counters () .finish, _), (.attempt () (.lost true), _),
        (.attempt () (.answered true ⟨200, "", .envelope 1 (.ok ())⟩), _)] _ :=
    .cons (.counters nofun nofun (.mk (.create rfl rfl)))
      (.cons (.counters nofun nofun (.mk (.add rfl List.mem_cons_self)))
        (.cons (.counters nofun nofun (.mk (.markFirst rfl rfl)))
          (.cons (.counters nofun nofun (.mk (.insert rfl)))
            (.cons (.counters nofun nofun (.mk (.fetchAdd rfl)))
              (.cons (.counters nofun nofun (.mk (.drain rfl (List.nodup_singleton _) rfl)))
                (.cons (.counters nofun nofun (.mk (.lookup rfl)))
                  (.cons (.counters nofun nofun (.mk (.next rfl)))
                    (.cons (.counters nofun nofun (.mk (.store rfl)))
                      (.cons (.counters nofun nofun (.mk (.swapUp rfl)))
                        (.cons (.counters nofun nofun (.mk (.swapDown rfl)))
                          (.cons (.counters nofun nofun (.mk (.finish rfl)))
                            (.cons (.again rfl rfl)
                              (.cons (.acknowledged rfl rfl (.mk (.reportOk rfl)))
                                (.nil _))))))))))))))
  have hhonest : (Attempt.lost true).Honest ∧
      (Attempt.answered true ⟨200, "", .envelope 1 (.ok ())⟩).Honest := ⟨fun _ => rfl, fun _ => rfl⟩
  have hall := (reports_delivered _ hrun (by simp [Turn.Honest, hhonest]) "n|alice|1" .up
    (by decide)).1
  exact ⟨_, rfl, hall⟩

end XrayRs.Traffic
