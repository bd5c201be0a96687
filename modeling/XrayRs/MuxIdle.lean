import XrayRs.MuxDispatch
import XrayRs.MuxSessions

/-! # A mux carrier that has idled out

`mux::serve` has two cancellation tokens: its own, which its tasks and the
demultiplexer's loop wait for, and that of its `Timer`, which the egresses of all
sub-sessions share.  The timer cancels the second one, for good, and the loop does not
look at it: an idle carrier takes the next frame as any other (`idle_opens`).

So whether it serves nothing more is up to the client (`mux_idle_iff`). -/

namespace XrayRs.Mux

open BoundedChannel StepSystem

namespace Carrier

/-- **Nothing more is served**: from `m` on, no session came into the map and nothing
was put on a link; nor was a sub-session made, whose link would be one more. -/
structure Still (m c : Carrier) : Prop where
  entries : ∀ s k, c.sessions s = some k → m.sessions s = some k
  uplinks : c.subs.map (·.flow.uplink) = m.subs.map (·.flow.uplink)

/-- **The client leaves the carrier alone**: no field completes a `New` frame; data that
wait for their link find its receiver gone, and are not those of a `New` frame. -/
def LeftAlone (c : Carrier) (a : Act) : Prop :=
  c.opens a = none ∧
    (a = .send → ∀ k pkt sub, c.Sending k pkt → c.subs[k]? = some sub → sub.flow.Refuses) ∧
    (a = .sendFail → ∀ k pkt, c.demux ≠ .seeding k pkt)

/-! ## What a frame does to the links -/

variable {m c c' : Carrier} {info : Meta} {data : Option Bytes}

theorem Still.trans {c'' : Carrier} (h : Still m c) (h' : Still c c'') : Still m c'' :=
  ⟨fun s k hk => h.entries s k (h'.entries s k hk), h'.uplinks.trans h.uplinks⟩

/-- Sessions may leave the map. -/
theorem still_of_keeps (hsubs : KeepsAll c.subs c'.subs)
    (hsessions : ∀ s k, c'.sessions s = some k → c.sessions s = some k) : Still c c' :=
  ⟨hsessions, hsubs.uplinks_eq⟩

theorem still_finish (c : Carrier) (result : Except IoError Unit) : Still c (c.finish result) :=
  still_of_keeps (KeepsAll.map_dropWriter _) fun _ _ hk => nomatch hk

/-- A frame that opens nothing. -/
theorem Handles.still (h : Handles c info data c') (hopened : opened info = none) : Still c c' := by
  have hnot : ∀ target, info.status = stNew → info.target = some target → False := by
    intro target hstatus htarget
    rw [opened, if_pos ⟨hstatus, by rw [htarget]; rfl⟩] at hopened
    cases hopened
  cases h with
  | registered hstatus htarget => exact (hnot _ hstatus htarget).elim
  | seeding hstatus htarget => exact (hnot _ hstatus htarget).elim
  | keeping _ _ _ _ _ _ hsubs hsessions | ignored _ _ _ _ hsubs hsessions =>
    refine still_of_keeps ?_ (by rw [hsessions]; exact fun _ _ => id)
    rw [hsubs]
    exact KeepsAll.refl _
  | ended _ _ hsubs hsessions =>
    refine still_of_keeps hsubs fun s k hk => ?_
    rw [hsessions] at hk
    by_cases hs : s = info.sid
    · rw [if_pos hs] at hk
      cases hk
    · rwa [if_neg hs] at hk
  | failed _ hfailed =>
    rw [hfailed]
    exact c.still_finish _

/-- A frame that opens a session makes a sub-session. -/
theorem Handles.length_of_opened (h : Handles c info data c') {sid : UInt16}
    (hopened : opened info = some sid) : c'.subs.length = c.subs.length + 1 := by
  have hnew : info.status = stNew ∧ info.target.isSome := by
    by_contra hnot
    rw [opened, if_neg hnot] at hopened
    cases hopened
  obtain ⟨hstatus, hsome⟩ := hnew
  cases h with
  | registered _ _ _ _ hsubs => rw [← hsubs.length_eq, List.length_append, List.length_singleton]
  | seeding _ _ _ _ hsubs => rw [hsubs, List.length_append, List.length_singleton]
  | keeping _ _ hother | ended hother =>
    rw [hstatus] at hother
    cases hother
  | ignored hnone =>
    rw [hnone hstatus] at hsome
    cases hsome
  | failed hunknown =>
    rw [hstatus] at hunknown
    cases hunknown

/-- A field that completes no `New` frame. -/
theorem still_onField {n : Nat} (hneed : c.demux.need = some n) {field : Bytes}
    (h : c.openedBy field = none) : Still c (c.onField field) := by
  rcases onField_cases hneed field with ⟨-, ⟨result, heq⟩ | ⟨next, heq, -⟩⟩ | ⟨info, data, hopened, heq⟩
  · rw [heq]
    exact c.still_finish result
  · rw [heq]
    exact ⟨fun _ _ => id, rfl⟩
  · rw [heq]
    exact (c.outcome_handle info data).handles.still (hopened.symm.trans h)

theorem length_onField {n : Nat} (hneed : c.demux.need = some n) {field : Bytes} {sid : UInt16}
    (h : c.openedBy field = some sid) : (c.onField field).subs.length = c.subs.length + 1 := by
  rcases onField_cases hneed field with ⟨hnone, -⟩ | ⟨info, data, hopened, heq⟩
  · rw [hnone] at h
    cases h
  · rw [heq]
    exact (c.outcome_handle info data).handles.length_of_opened (hopened.symm.trans h)

/-- **An idle carrier opens the next session**: whatever `New` frame with a target can
be read next, a run of the carrier makes its sub-session. -/
theorem idle_opens {cuts : List Bytes} {src : BufferedStream.Source} {sid : UInt16}
    (hdemux : c.demux = .metalen) (hcuts : Cuts c.conn cuts)
    (hframe : readFrame ⟨c.buf, cuts⟩ = (.ok (some (info, data)), src))
    (hopened : opened info = some sid) : ∃ trace c', Run Step c trace c' ∧ ¬ Still c c' := by
  obtain ⟨trace, conn, demux, hrun, -⟩ := dispatches_of_readFrame hdemux hcuts hframe
  refine ⟨trace, _, hrun, fun hstill => ?_⟩
  have hlength := (outcome_handle
    { c with buf := src.buf, conn := conn, demux := demux } info data).handles.length_of_opened
    hopened
  have hsame := congrArg List.length hstill.uplinks
  rw [List.length_map, List.length_map, hlength] at hsame
  exact Nat.succ_ne_self _ hsame

end Carrier

/-! ## What a step does to them -/

section Step

variable {m c c' : Carrier} {a : Act}

/-- A cancelled token stays so, whatever updates the timer. -/
theorem Step.idle_stays (h : Step c a c') (hidle : c.idle = true) : c'.idle = true := by
  cases hdemuxing : a.ofDemux with
  | false => exact (h.aside hdemuxing).idle hidle
  | true =>
    cases h with
    | eof | readError =>
      obtain ⟨result, heq⟩ := c.readFailed_eq _
      rw [heq]
      exact hidle
    | @field n hneed hlen =>
      rcases Carrier.onField_cases (c := { c with buf := c.buf.drop n }) hneed (c.buf.take n) with
        ⟨-, ⟨result, heq⟩ | ⟨next, heq, -⟩⟩ | ⟨info, data, -, heq⟩
      · rw [heq]
        exact hidle
      · rw [heq]
        exact hidle
      · rw [heq, (Carrier.outcome_handle _ info data).untouched.idle_eq]
        exact hidle
    | seed | seedFail => exact (Carrier.register_untouched _ _ _).idle_eq.trans hidle
    | keep | keepFail | join => exact hidle
    | _ => cases hdemuxing

/-- What a `field` opens. -/
theorem opens_field {n : Nat} (hneed : c.demux.need = some n) :
    c.opens .field = Carrier.openedBy { c with buf := c.buf.drop n } (c.buf.take n) := by
  rw [Carrier.opens, hneed]
  rfl

/-- **A carrier that is left alone serves nothing more.** -/
theorem Step.still (h : Step c a c') (halone : c.LeftAlone a) : c.Still c' := by
  obtain ⟨hopens, hsend, hfail⟩ := halone
  cases hdemuxing : a.ofDemux with
  | false =>
    have ha := h.aside hdemuxing
    exact Carrier.still_of_keeps ha.subs (by rw [ha.sessions_eq]; exact fun _ _ => id)
  | true =>
    cases h with
    | eof | readError =>
      obtain ⟨result, heq⟩ := c.readFailed_eq _
      rw [heq]
      exact c.still_finish result
    | @field n hneed hlen =>
      rw [opens_field hneed] at hopens
      have hstill := Carrier.still_onField (c := { c with buf := c.buf.drop n }) hneed hopens
      exact ⟨hstill.entries, hstill.uplinks⟩
    | @seed k pkt sub hdemux hsub hroom =>
      exact absurd hroom.heard (hsend rfl k pkt sub (.inl hdemux) hsub).not_heard
    | @keep k pkt sub hdemux hsub hroom =>
      exact absurd hroom.heard (hsend rfl k pkt sub (.inr hdemux) hsub).not_heard
    | @seedFail k pkt sub hdemux => exact absurd hdemux (hfail rfl k pkt)
    | keepFail | join => exact ⟨fun _ _ => id, rfl⟩
    | _ => cases hdemuxing

/-- A send puts something on a link. -/
theorem uplinks_push {subs : List Sub} {k : Nat} {sub : Sub} {pkt : UdpPacket}
    (hsub : subs[k]? = some sub) :
    (subs.set k { sub with flow := sub.flow.push pkt }).map (·.flow.uplink) ≠
      subs.map (·.flow.uplink) := by
  intro heq
  have hk := congrArg (·[k]?) heq
  simp only [List.getElem?_map, List.getElem?_set_self (List.getElem?_eq_some_iff.mp hsub).1, hsub,
    Option.map_some, Flow.uplink_push, Option.some.injEq] at hk
  exact List.cons_ne_nil _ _ (List.append_right_eq_self.mp hk)

/-- The sub-session that is being opened is in no map yet. -/
def Carrier.Awaits (m c : Carrier) : Prop :=
  ∀ k pkt, c.demux = .seeding k pkt → ∀ s, m.sessions s ≠ some k

/-- A session that is being opened was so before, or its sub-session is new. -/
theorem Step.seeding (h : Step c a c') {k : Nat} {pkt : UdpPacket} (hk : c'.demux = .seeding k pkt) :
    c'.sessions = c.sessions ∧ (c.demux = .seeding k pkt ∨ k = c.subs.length) := by
  cases hdemuxing : a.ofDemux with
  | false =>
    have ha := h.aside hdemuxing
    rw [ha.demux_eq] at hk
    exact ⟨ha.sessions_eq, .inl hk⟩
  | true =>
    cases h with
    | eof | readError =>
      obtain ⟨result, heq⟩ := c.readFailed_eq _
      rw [heq] at hk
      cases hk
    | @field n hneed hlen =>
      rcases Carrier.onField_cases (c := { c with buf := c.buf.drop n }) hneed (c.buf.take n) with
        ⟨-, ⟨result, heq⟩ | ⟨next, heq, hreads⟩⟩ | ⟨info, data, -, heq⟩
      · rw [heq] at hk
        cases hk
      · rw [heq] at hk
        obtain rfl : next = .seeding k pkt := hk
        cases hreads
      · rw [heq] at hk ⊢
        cases (Carrier.outcome_handle { c with buf := c.buf.drop n } info data).handles with
        | seeding _ _ _ hdemux _ hsessions =>
          rw [hdemux] at hk
          exact ⟨hsessions, .inr (Demux.seeding.inj hk).1.symm⟩
        | registered _ _ _ hdemux | keeping _ _ _ _ _ hdemux | ended _ hdemux
        | ignored _ _ _ hdemux =>
          rw [hdemux] at hk
          cases hk
        | failed _ hfailed =>
          rw [hfailed] at hk
          cases hk
    | seed | seedFail | keep | keepFail | join => cases hk
    | _ => cases hdemuxing

theorem Step.awaits (h : Step c a c') (hmapped : m.Mapped) (hlength : c.subs.length = m.subs.length)
    (hc : m.Awaits c) : m.Awaits c' := by
  intro k pkt hk s hs
  rcases (h.seeding hk).2 with hold | hnew
  · exact hc k pkt hold s hs
  · have hlt := (List.getElem?_eq_some_iff.mp (hmapped s k hs)).1
    rw [List.length_map, ← hlength, hnew] at hlt
    exact Nat.lt_irrefl _ hlt

theorem Step.awaits_self (h : Step c a c') (hmapped : c.Mapped) (hc : c.Awaits c) :
    c'.Awaits c' := by
  intro k pkt hk s hs
  obtain ⟨hsessions, hcase⟩ := h.seeding hk
  rw [hsessions] at hs
  rcases hcase with hold | hnew
  · exact hc k pkt hold s hs
  · have hlt := (List.getElem?_eq_some_iff.mp (hmapped s k hs)).1
    rw [List.length_map, hnew] at hlt
    exact Nat.lt_irrefl _ hlt

theorem Carrier.Still.length_eq (h : m.Still c) : c.subs.length = m.subs.length := by
  have hlength := congrArg List.length h.uplinks
  rwa [List.length_map, List.length_map] at hlength

/-- **It takes the client to leave it alone**: any other step serves something. -/
theorem Step.leftAlone (h : Step c a c') (hc : m.Still c) (hawaits : m.Awaits c) (ht : m.Still c') :
    c.LeftAlone a := by
  have hsame : c'.subs.map (·.flow.uplink) = c.subs.map (·.flow.uplink) :=
    ht.uplinks.trans hc.uplinks.symm
  cases h with
  | @field n hneed hlen =>
    refine ⟨?_, nofun, nofun⟩
    rw [opens_field hneed]
    cases hopened : Carrier.openedBy { c with buf := c.buf.drop n } (c.buf.take n) with
    | none => rfl
    | some sid =>
      have hgrown := Carrier.length_onField (c := { c with buf := c.buf.drop n }) hneed hopened
      have hlength := congrArg List.length hsame
      rw [List.length_map, List.length_map, hgrown] at hlength
      exact absurd hlength (Nat.succ_ne_self _)
  | @seed k pkt sub hdemux hsub =>
    rw [(Carrier.keeps_register _ _ _).uplinks_eq] at hsame
    exact absurd hsame (uplinks_push hsub)
  | keep _ hsub => exact absurd hsame (uplinks_push hsub)
  | @seedFail k pkt sub hdemux =>
    have hentry := (c.register_sessions sub.sid sub.sid k).trans (if_pos rfl)
    exact absurd (ht.entries _ _ hentry) (hawaits k pkt hdemux _)
  | @keepFail k pkt sub hdemux =>
    refine ⟨rfl, nofun, fun _ j pkt' hseeding => ?_⟩
    rw [hdemux] at hseeding
    cases hseeding
  | _ => exact ⟨rfl, nofun, nofun⟩

end Step

/-! ## Runs -/

/-- **Nothing more is served once the carrier is idle**: from each state of the run that
is idle, all later ones are still. -/
def IdleEnds : Carrier → List (Act × Carrier) → Prop
  | _, [] => True
  | c, (a, t) :: trace => (c.idle = true → ∀ p ∈ (a, t) :: trace, c.Still p.2) ∧ IdleEnds t trace

/-- The client leaves an idle carrier alone. -/
def Carrier.IdleLeftAlone (c : Carrier) (a : Act) : Prop := c.idle = true → c.LeftAlone a

section Run

variable {s t : Carrier} {trace : List (Act × Carrier)}

theorem meets_leftAlone (h : Run Step s trace t) (hidle : s.idle = true) :
    Meets Carrier.IdleLeftAlone s trace ↔ Meets Carrier.LeftAlone s trace := by
  induction h with
  | nil => exact .rfl
  | cons hstep _ ih =>
    have hrest := ih (hstep.idle_stays hidle)
    exact and_congr ⟨fun hguard => hguard hidle, fun hguard _ => hguard⟩ hrest

/-- From one state on. -/
theorem still_iff_meets (h : Run Step s trace t) (hmapped : s.Mapped) (hawaits : s.Awaits s) :
    (∀ p ∈ trace, s.Still p.2) ↔ Meets Carrier.LeftAlone s trace := by
  have hstart : s.Still s ∧ s.Awaits s := ⟨⟨fun _ _ => id, rfl⟩, hawaits⟩
  refine @Run.forall_holds_iff_meets _ _ _ (fun c => s.Still c ∧ s.Awaits c) _ _ _ _ _ h hstart
    (fun c hc => hc.1) ?_ ?_
  · intro c c' a hc hstep halone
    exact ⟨hc.1.trans (hstep.still halone), hstep.awaits hmapped hc.1.length_eq hc.2⟩
  · intro c c' a hc hstep ht
    exact hstep.leftAlone hc.1 hc.2 ht

theorem idleEnds_iff (h : Run Step s trace t) (hmapped : s.Mapped) (hawaits : s.Awaits s) :
    IdleEnds s trace ↔ Meets Carrier.IdleLeftAlone s trace := by
  induction h with
  | nil => exact .rfl
  | @cons s s' t a trace hstep hrun ih =>
    have hrest := ih (hstep.mapped hmapped) (hstep.awaits_self hmapped hawaits)
    have hall := still_iff_meets (.cons hstep hrun) hmapped hawaits
    constructor
    · rintro ⟨hstill, hends⟩
      exact ⟨fun hidle => (hall.mp (hstill hidle)).1, hrest.mp hends⟩
    · rintro ⟨hguard, hmeets⟩
      refine ⟨fun hidle => hall.mpr ⟨hguard hidle, ?_⟩, hrest.mpr hmeets⟩
      exact (meets_leftAlone hrun (hstep.idle_stays hidle)).mp hmeets

/-- **When an idle carrier serves nothing more**: in the runs in which the client leaves it
alone, no others. -/
theorem mux_idle_iff {conn : Conn} {leftover : Bytes}
    (h : Run Step (.serve conn leftover) trace t) :
    IdleEnds (.serve conn leftover) trace ↔
      Meets Carrier.IdleLeftAlone (.serve conn leftover) trace :=
  idleEnds_iff h (fun _ _ hk => nomatch hk) fun _ _ hk => nomatch hk

end Run

/-- A `New` frame for session 1 to `10.0.0.1:80`. -/
def lateNew : Bytes := [0, 12, 0, 1, 1, 0, 1, 0, 80, 1, 10, 0, 0, 1]

/-- A carrier on which nothing comes after the timer has cancelled. -/
theorem mux_idle_iff_silent :
    ∃ trace t, Run Step (.serve (.new []) []) trace t ∧ t.idle = true ∧
      (IdleEnds (.serve (.new []) []) trace ↔
        Meets Carrier.IdleLeftAlone (.serve (.new []) []) trace) ∧
      Meets Carrier.IdleLeftAlone (.serve (.new []) []) trace := by
  have hrun : Run Step (.serve (.new []) []) _ _ :=
    .cons .idle <| .cons (.eof (k := 2) rfl (by decide) rfl) (.nil _)
  refine ⟨_, _, hrun, rfl, mux_idle_iff hrun, nofun, fun _ => ⟨rfl, nofun, nofun⟩, trivial⟩

/-- **A session after the timeout.**  The timer has cancelled, and then the client opens a
session: the carrier takes it into its map, with an egress that the cancelled token
awaits. -/
theorem mux_idle_serves :
    ∃ trace t, Run Step (.serve (.new lateNew) []) trace t ∧ t.sessions 1 = some 0 ∧
      ¬ IdleEnds (.serve (.new lateNew) []) trace := by
  have hrun : Run Step (.serve (.new lateNew) []) _ _ :=
    .cons .idle <| .cons (.fill (k := 2) 14 rfl (by decide) (by decide) (by decide) (by decide)) <|
      .cons (.field (k := 2) rfl (by decide)) <| .cons (.field (k := 12) rfl (by decide)) (.nil _)
  refine ⟨_, _, hrun, rfl, fun hends => ?_⟩
  have hstill := hends.2.1 rfl _ (List.mem_cons_of_mem _ (List.mem_cons_of_mem _
    (List.mem_singleton_self _)))
  cases hstill.entries 1 0 rfl

end XrayRs.Mux
