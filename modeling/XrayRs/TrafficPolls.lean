import XrayRs.PanelPolling
import XrayRs.TrafficDelivery

/-! # Polls and unreported traffic

A poll that rebuilds its node or drops users removes their counters from the registry
(`prune_all_stats`, `prune_removed_stats` in `saas/src/controller.rs`), whatever the
counters hold and whoever still counts on them.  Here the controllers of
`PanelPolling` and the workers of `TrafficStats` run together, with `Stats::remove` in
its two steps.

Where no poll removes or orphans a counter in use, bytes are never lost and a later
cycle delivers them (`unreported_traffic_kept`); a node that moves to another port
takes the counts of its users with it (`rebuild_loses_traffic`). -/

namespace XrayRs.Traffic

open StepSystem

/-! ## What a controller does to the registry -/

namespace State

variable {ι : Type}

/-- `Stats::remove`, the first half: the counter leaves the registry. -/
def unregister (s : State ι) (tag : String) : State ι :=
  { s with stats := { s.stats with users := Function.update s.stats.users tag none } }

/-- `Stats::remove`, the second half: the tag leaves the active set. -/
def deactivate (s : State ι) (tag : String) : State ι :=
  { s with stats := { s.stats with active := s.stats.active.erase tag } }

/-- The worker's controller has a new node tag. -/
def retag [DecidableEq ι] (s : State ι) (i : ι) (nodeTag : String) : State ι :=
  { s with worker := Function.update s.worker i { s.worker i with nodeTag } }

section
variable {s : State ι} {tag : String} {c : CounterId}

theorem registered_unregister :
    (s.unregister tag).stats.Registered c ↔ c.tag ≠ tag ∧ s.stats.Registered c := by
  unfold Stats.Registered unregister
  by_cases htag : c.tag = tag
  · simp [htag]
  · simp [htag]

/-- A counter that is not live is not missed. -/
theorem inCounter_unregister (hdead : ∀ c, c.tag = tag → ¬ s.Live c) (tag' : String) (d : Dir) :
    (s.unregister tag).stats.inCounter tag' d = s.stats.inCounter tag' d := by
  by_cases htag : tag' = tag
  · subst htag
    have hnone : (s.unregister tag').stats.inCounter tag' d = 0 := by
      simp [Stats.inCounter, unregister]
    rw [hnone]
    unfold Stats.inCounter
    cases s.stats.users tag' with
    | none => rfl
    | some gen =>
      by_contra hne
      refine hdead ⟨tag', gen⟩ rfl (.inl ⟨d, fun hzero => hne ?_⟩)
      dsimp only
      rw [hzero]
      rfl
  · simp [Stats.inCounter, unregister, htag]

theorem LiveRegistered.unregister (h : LiveRegistered s) (hdead : ∀ c, c.tag = tag → ¬ s.Live c) :
    LiveRegistered (s.unregister tag) := by
  intro c hlive
  refine registered_unregister.mpr ⟨?_, h c hlive⟩
  exact fun htag => hdead c htag hlive

theorem Balanced.unregister [Fintype ι] {tag' : String} {d : Dir} (h : Balanced tag' d s)
    (hdead : ∀ c, c.tag = tag → ¬ s.Live c) : Balanced tag' d (s.unregister tag) := by
  refine ⟨LiveRegistered.unregister h.1 hdead, fun hfits => ?_⟩
  unfold Conserved
  rw [inCounter_unregister hdead]
  exact h.2 hfits

theorem Marked.unregister (h : s.Marked) : (s.unregister tag).Marked where
  flag c hreg := h.flag c (registered_unregister.mp hreg).2
  due := h.due
  sum c d hreg := h.sum c d (registered_unregister.mp hreg).2

/-- The tag of a registered counter is not erased from the active set, if there is none
under the erased tag or that one is not active. -/
theorem Marked.deactivate (h : s.Marked) (hlive : LiveRegistered s)
    (hfree : s.stats.users tag = none ∨ tag ∉ s.stats.active) : (s.deactivate tag).Marked := by
  have hatt : ∀ c part, s.stats.Registered c → s.Attended c part →
      (s.deactivate tag).Attended c part := by
    rintro c part hreg (hactive | hatt)
    · refine .inl (Finset.mem_erase.mpr ⟨?_, hactive⟩)
      rintro rfl
      rcases hfree with hnone | hinactive
      · exact absurd (hnone.symm.trans hreg) nofun
      · exact hinactive hactive
    · exact .inr hatt
  constructor
  · exact fun c hreg hdirty => hatt c _ hreg (h.flag c hreg hdirty)
  · exact fun i c d hdue => hatt c _ (hlive c (.inr ⟨i, .inr hdue.refers⟩)) (h.due i c d hdue)
  · exact fun c d hreg hne => hatt c _ hreg (h.sum c d hreg hne)

end

section
variable [DecidableEq ι] {s : State ι} {i j : ι} {nodeTag : String} {c : CounterId}

theorem retag_pc : ((s.retag i nodeTag).worker j).pc = (s.worker j).pc := by
  by_cases hj : j = i
  · subst hj
    simp [retag]
  · simp [retag, hj]

theorem retag_refers : ((s.retag i nodeTag).worker j).Refers c ↔ (s.worker j).Refers c := by
  by_cases hj : j = i
  · subst hj
    simp [retag, Worker.Refers]
  · simp [retag, hj]

theorem live_retag : (s.retag i nodeTag).Live c ↔ s.Live c :=
  or_congr Iff.rfl (exists_congr fun _ => retag_refers)

theorem Balanced.retag [Fintype ι] {tag : String} {d : Dir} (h : Balanced tag d s) :
    Balanced tag d (s.retag i nodeTag) := by
  refine ⟨fun c hlive => h.1 c (live_retag.mp hlive), fun hfits => ?_⟩
  unfold Conserved
  simp only [retag_pc]
  exact h.2 hfits

theorem attended_retag {part : Part} : (s.retag i nodeTag).Attended c part ↔ s.Attended c part := by
  unfold Attended
  simp only [retag_pc]
  rfl

theorem Marked.retag (h : s.Marked) : (s.retag i nodeTag).Marked where
  flag c hreg hdirty := attended_retag.mpr (h.flag c hreg hdirty)
  due j c d hdue := attended_retag.mpr (h.due j c d (by rwa [retag_pc] at hdue))
  sum c d hreg hne := attended_retag.mpr (h.sum c d hreg hne)

end

/-- **All is reported** under the tag of an empty counter, when nothing is in
progress. -/
theorem Balanced.reported_eq [Fintype ι] {s : State ι} {c : CounterId} {d : Dir}
    (h : Balanced c.tag d s) (hquiet : s.Quiescent) (hreg : s.stats.Registered c)
    (hzero : (s.stats.cells c).get d = 0) (hfits : s.added c.tag d < 2 ^ 63) :
    s.reported c.tag d = s.added c.tag d := by
  have hconserved := h.2 hfits
  have hflight : ∑ i, (s.worker i).pc.inFlight c.tag d = 0 := by
    refine Finset.sum_eq_zero fun i _ => ?_
    rw [hquiet i]
    rfl
  unfold Conserved at hconserved
  rw [Stats.inCounter_of_registered hreg rfl, hzero, hflight] at hconserved
  exact hconserved.symm

end State

end XrayRs.Traffic

namespace XrayRs.Saas

open StepSystem Text
open Traffic (CounterId parseUserTag)

/-! ## Controllers that report -/

theorem toList_buildUserTag (nodeTag : String) (user : UserInfo) :
    (buildUserTag nodeTag user).toList =
      nodeTag.toList ++ '|' :: (user.email.toList ++ '|' :: (toString user.uid.toInt).toList) := by
  simp [buildUserTag, toString]

theorem bar_notMem_uid (i : Int) : '|' ∉ (toString i).toList := by
  rw [toList_toString]
  split
  · simp [notMem_toDigits]
  · exact notMem_toDigits (by decide) _

/-- **A user's tag is read back**, whatever the email. -/
theorem parseUserTag_buildUserTag (nodeTag : String) (user : UserInfo) :
    parseUserTag nodeTag (buildUserTag nodeTag user) = some (user.uid.toInt, user.email) := by
  have htag : (buildUserTag nodeTag user).toList =
      (nodeTag ++ "|").toList ++ (user.email.toList ++ '|' :: (toString user.uid.toInt).toList) := by
    rw [toList_buildUserTag]
    simp
  have hrange : parseSigned (2 ^ 31 - 1) (toString user.uid.toInt).toList = some user.uid.toInt :=
    parseSigned_toString user.uid.le_toInt (Int.le_of_lt_add_one user.uid.toInt_lt)
  unfold parseUserTag
  rw [htag, stripPrefix_append]
  show (rsplitOnce '|' _ >>= _) = _
  rw [rsplitOnce_append (bar_notMem_uid _)]
  show (parseSigned _ _ >>= _) = _
  rw [hrange]
  simp

/-- The tags the users of a handler count under. -/
def Inbound.userTags : Inbound → List String
  | .vless users | .vmess users => users.map (·.2.1)
  | .trojan users | .shadowsocks _ users => users.map (·.2.1)
  | .other => []

theorem Inbound.BuiltFrom.exists_user {sha1 : Bytes → Vector UInt8 20} {users : List UserInfo}
    {nodeTag tag : String} {handler : Inbound} (h : handler.BuiltFrom sha1 users nodeTag)
    (htag : tag ∈ handler.userTags) : ∃ user, tag = buildUserTag nodeTag user := by
  cases handler with
  | other => exact h.elim
  | vless table | vmess table =>
    obtain rfl := h
    obtain ⟨entry, hentry, rfl⟩ := List.mem_map.mp htag
    obtain ⟨user, -, hid⟩ := List.mem_filterMap.mp hentry
    obtain ⟨id, -, rfl⟩ := Option.map_eq_some_iff.mp hid
    exact ⟨user, rfl⟩
  | trojan table | shadowsocks _ table =>
    obtain rfl := h
    obtain ⟨entry, hentry, rfl⟩ := List.mem_map.mp htag
    obtain ⟨user, -, rfl⟩ := List.mem_map.mp hentry
    exact ⟨user, rfl⟩

/-- The controller whose turn it is. -/
def Act.actor {ι : Type} : Act ι → ι
  | .start i _ _ | .poll i _ | .rebuild i _ | .stop i => i

/-- The controller has started and not stopped. -/
def Phase.Running : Phase → Prop
  | .idle | .rebuilding .. => True
  | .created | .stopped => False

namespace Server

variable {ι : Type} {sha1 : Bytes → Vector UInt8 20} {s t : Server ι} {a : Act ι} {i j : ι}
  {tag tag' : String}

/-- Controller `i` is running, and its cycles report counters with this tag. -/
def Reports (s : Server ι) (i : ι) (tag : String) : Prop :=
  (s.phase i).Running ∧ (parseUserTag (s.controller i).nodeTag tag).isSome

/-- The users an inbound of a served node lets in count under tags that its controller
reports. -/
theorem reports_of_serves {handler : Inbound} (h : Serves sha1 i (s.controller i) s.ibm)
    (hrun : (s.phase i).Running) (hruns : s.ibm.Runs i tag' handler) (htag : tag ∈ handler.userTags) :
    s.Reports i tag := by
  obtain ⟨handler', node, hone, -, -, hbuilt⟩ := h
  obtain ⟨-, rfl⟩ := (hone tag' handler).mp hruns
  obtain ⟨user, rfl⟩ := hbuilt.exists_user htag
  refine ⟨hrun, ?_⟩
  rw [parseUserTag_buildUserTag]
  rfl

/-- The tag is reported after the turn as well: a rebuild that succeeds and the end of
a controller leave it to the new node tag or to other controllers. -/
def KeepsReporting (sha1 : Bytes → Vector UInt8 20) (s : Server ι) (tag : String) : Act ι → Prop
  | .rebuild i host => ∀ node users, s.phase i = .rebuilding node users →
      (s.controller i).Rebuilds sha1 host node users s.ibm →
      (parseUserTag (buildNodeTag node (s.controller i).listenIp) tag).isSome ∨
        ∃ j, j ≠ i ∧ s.Reports j tag
  | .stop i => ∃ j, j ≠ i ∧ s.Reports j tag
  | .start .. | .poll .. => True

variable [DecidableEq ι] {c : Controller} {ibm : InboundManager ι} {phase : Phase}

theorem reports_set_ne (hj : j ≠ i) : (s.set i c ibm phase).Reports j tag ↔ s.Reports j tag := by
  show (Function.update s.phase i phase j).Running ∧
    (parseUserTag (Function.update s.controller i c j).nodeTag tag).isSome ↔ _
  rw [Function.update_of_ne hj, Function.update_of_ne hj]
  exact Iff.rfl

theorem reports_set_self : (s.set i c ibm phase).Reports i tag ↔
    phase.Running ∧ (parseUserTag c.nodeTag tag).isSome := by
  show (Function.update s.phase i phase i).Running ∧
    (parseUserTag (Function.update s.controller i c i).nodeTag tag).isSome ↔ _
  rw [Function.update_self, Function.update_self]

/-- **One turn** leaves a tag reported that it is to keep so. -/
theorem Step.reports (h : Step sha1 s a t) (hkeeps : s.KeepsReporting sha1 tag a)
    (hs : ∃ j, s.Reports j tag) : ∃ j, t.Reports j tag := by
  obtain ⟨j, hj⟩ := hs
  by_cases hactor : j = a.actor
  · cases h with
    | start i host replies hphase hstart =>
      obtain rfl : j = i := hactor
      have hrunning := hj.1
      rw [hphase] at hrunning
      exact hrunning.elim
    | @poll i replies begun hphase hbegun =>
      obtain rfl : j = i := hactor
      obtain ⟨etags, ⟨pruned, hcase⟩ | ⟨node, users, pruned, hcase⟩ |
        ⟨users, handler, handler', pruned, -, -, hcase⟩⟩ :=
        Controller.beginMonitor_cases (c := s.controller j)
      all_goals
        rw [hbegun] at hcase
        subst hcase
        exact ⟨j, reports_set_self.mpr ⟨trivial, hj.2⟩⟩
    | @rebuild i host node users c ibm hphase hend =>
      obtain rfl : j = i := hactor
      by_cases hrebuilds : (s.controller j).Rebuilds sha1 host node users s.ibm
      · rcases hkeeps node users hphase hrebuilds with htag | ⟨k, hk, hreports⟩
        · obtain ⟨built, hbuilt, hfree, hbind⟩ := hrebuilds
          rw [Controller.endMonitor_of_rebuilds hbuilt hfree hbind] at hend
          cases hend
          refine ⟨j, reports_set_self.mpr ⟨trivial, ?_⟩⟩
          dsimp only
          rw [(buildInbound_eq_ok hbuilt).1]
          exact htag
        · exact ⟨k, (reports_set_ne hk).mpr hreports⟩
      · rw [Controller.endMonitor_of_not_rebuilds hrebuilds] at hend
        cases hend
        exact ⟨j, reports_set_self.mpr ⟨trivial, hj.2⟩⟩
    | stop i hphase =>
      obtain ⟨k, hk, hreports⟩ := hkeeps
      exact ⟨k, (reports_set_ne hk).mpr hreports⟩
  · cases h with
    | start | poll | rebuild | stop => exact ⟨j, (reports_set_ne hactor).mpr hj⟩

/-- A tag that is reported after a turn was kept so by it. -/
theorem Step.keepsReporting (h : Step sha1 s a t) (ht : ∃ j, t.Reports j tag) :
    s.KeepsReporting sha1 tag a := by
  obtain ⟨j, hj⟩ := ht
  cases h with
  | start | poll => trivial
  | @rebuild i host node users c ibm hphase hend =>
    intro node' users' hphase' hrebuilds
    cases hphase.symm.trans hphase'
    by_cases hji : j = i
    · subst hji
      obtain ⟨built, hbuilt, hfree, hbind⟩ := hrebuilds
      rw [Controller.endMonitor_of_rebuilds hbuilt hfree hbind] at hend
      cases hend
      have htag := (reports_set_self.mp hj).2
      dsimp only at htag
      rw [(buildInbound_eq_ok hbuilt).1] at htag
      exact .inl htag
    · exact .inr ⟨j, hji, (reports_set_ne hji).mp hj⟩
  | stop i hphase =>
    have hji : j ≠ i := by
      rintro rfl
      exact (reports_set_self.mp hj).1
    exact ⟨j, hji, (reports_set_ne hji).mp hj⟩

theorem Step.controller_ne (h : Step sha1 s a t) (hj : j ≠ a.actor) :
    t.controller j = s.controller j := by
  cases h with
  | start | poll | rebuild | stop => exact Function.update_of_ne hj ..

end Server

/-! ## The system -/

/-- The `Stats::remove` calls that a poll has still to make, and the tag whose counter
is out of the registry but not yet out of the active set. -/
structure Pruning where
  todo : List String
  erasing : Option String
  deriving DecidableEq

/-- The controllers, the counters with their workers, and what each controller has
still to prune.  The worker of a controller is its reporting loop; those of other
indices serve connections. -/
structure Metered (ι : Type) where
  server : Server ι
  traffic : Traffic.State ι
  pruning : ι → Pruning

/-- A turn of a controller, an operation of a worker, or half a `Stats::remove`. -/
inductive Turn (ι : Type)
  | control (a : Act ι)
  | traffic (i : ι) (a : Traffic.Act)
  | unregister (i : ι)
  | deactivate (i : ι)

/-- The tags of the counters that a turn is going to remove. -/
def Act.pruned {ι : Type} (sha1 : Bytes → Vector UInt8 20) (s : Server ι) : Act ι → List String
  | .poll i replies => ((s.controller i).beginMonitor sha1 replies s.ibm).pruned
  | .start .. | .rebuild .. | .stop .. => []

namespace Metered

variable {ι : Type}

/-- No controller has started, and nothing is counted. -/
def new (listenIp : ι → String) (cert : ι → CertConfig) : Metered ι :=
  ⟨.new listenIp cert, .new fun _ => "", fun _ => ⟨[], none⟩⟩

/-- The controller's task is not in the middle of a poll. -/
def Free (m : Metered ι) (i : ι) : Prop :=
  m.pruning i = ⟨[], none⟩ ∧ ∀ node users, m.server.phase i ≠ .rebuilding node users

theorem Free.of_created {m : Metered ι} {i : ι} (hpruned : m.pruning i = ⟨[], none⟩)
    (hphase : m.server.phase i = .created) : m.Free i := by
  refine ⟨hpruned, fun node users => ?_⟩
  rw [hphase]
  exact nofun

theorem Free.of_idle {m : Metered ι} {i : ι} (hpruned : m.pruning i = ⟨[], none⟩)
    (hphase : m.server.phase i = .idle) : m.Free i := by
  refine ⟨hpruned, fun node users => ?_⟩
  rw [hphase]
  exact nofun

variable [DecidableEq ι]

/-- The steps.  A controller polls and reports one after the other in one task, and
goes on with a rebuild only after it has pruned; uploads are enabled. -/
inductive Step (sha1 : Bytes → Vector UInt8 20) : Metered ι → Turn ι → Metered ι → Prop
  | control {m : Metered ι} {a : Act ι} {server : Server ι}
      (hidle : (m.traffic.worker a.actor).pc = .idle) (hpruned : m.pruning a.actor = ⟨[], none⟩)
      (hstep : Server.Step sha1 m.server a server) :
      Step sha1 m (.control a)
        ⟨server, m.traffic.retag a.actor (server.controller a.actor).nodeTag,
          Function.update m.pruning a.actor ⟨a.pruned sha1 m.server, none⟩⟩
  | traffic {m : Metered ι} {i : ι} {a : Traffic.Act} {traffic : Traffic.State ι} (hfree : m.Free i)
      (hcycle : ∀ tags, a = .drain tags → m.server.phase i = .idle)
      (hstep : Traffic.State.Step (fun _ => false) m.traffic (i, a) traffic) :
      Step sha1 m (.traffic i a) { m with traffic }
  | unregister {m : Metered ι} {i : ι} {tag : String} {todo : List String}
      (hpruning : m.pruning i = ⟨tag :: todo, none⟩) :
      Step sha1 m (.unregister i)
        ⟨m.server, m.traffic.unregister tag, Function.update m.pruning i ⟨todo, some tag⟩⟩
  | deactivate {m : Metered ι} {i : ι} {tag : String} {todo : List String}
      (hpruning : m.pruning i = ⟨todo, some tag⟩) :
      Step sha1 m (.deactivate i)
        ⟨m.server, m.traffic.deactivate tag, Function.update m.pruning i ⟨todo, none⟩⟩

/-- **The turn leaves the counters in use alone**: no live counter is removed, a new
node tag or the end of a controller leaves the live counters reported, and a connection
counts under a tag that is reported. -/
def KeepsCounters (sha1 : Bytes → Vector UInt8 20) (m : Metered ι) : Turn ι → Prop
  | .unregister i => ∀ tag todo, m.pruning i = ⟨tag :: todo, none⟩ →
      ∀ c : CounterId, c.tag = tag → ¬ m.traffic.Live c
  | .control a => ∀ c, m.traffic.Live c → m.server.KeepsReporting sha1 c.tag a
  | .traffic _ (.connect tag) => ∃ j, m.server.Reports j tag
  | .traffic .. | .deactivate _ => True

/-- **The turn leaves the marks alone**: no cycle empties a direction of a counter while
a marked addition to it is due, and no counter is made and marked again before the tag
of the one removed leaves the active set. -/
def KeepsMarks (m : Metered ι) : Turn ι → Prop
  | .traffic i a => m.traffic.EmptiesNoneDue (i, a)
  | .deactivate i => ∀ tag todo, m.pruning i = ⟨todo, some tag⟩ →
      m.traffic.stats.users tag = none ∨ tag ∉ m.traffic.stats.active
  | .control _ | .unregister _ => True

/-- **Counters in use can be reported**: a counter that holds bytes or may still receive
some is registered, and a controller reports for its tag. -/
def AllReported (m : Metered ι) : Prop :=
  ∀ c, m.traffic.Live c → m.traffic.stats.Registered c ∧ ∃ i, m.server.Reports i c.tag

/-- No call, no cycle and no poll is in progress. -/
def Quiescent (m : Metered ι) : Prop := m.traffic.Quiescent ∧ ∀ i, m.Free i

/-- **Delivery**: whenever nothing is in progress, one successful cycle of some
controller brings the reports up to all that was counted under the tag of a counter
in use. -/
def Delivered (sha1 : Bytes → Vector UInt8 20) (m : Metered ι) : Prop :=
  m.Quiescent → ∀ c, m.traffic.Live c → (∀ d, m.traffic.added c.tag d < 2 ^ 63) →
    ∃ i trace m', Run (Step sha1) m trace m' ∧
      (∀ p ∈ trace, ∃ a, p.1 = .traffic i a ∧ a.Reports) ∧
      ∀ d, m'.traffic.reported c.tag d = m.traffic.added c.tag d

/-- The invariant of guarded runs. -/
structure Accounted [Fintype ι] (m : Metered ι) : Prop where
  reported : m.AllReported
  balanced : ∀ tag d, m.traffic.Balanced tag d
  nodeTag : ∀ i, (m.traffic.worker i).nodeTag = (m.server.controller i).nodeTag

section
variable {sha1 : Bytes → Vector UInt8 20} {m m' : Metered ι} {a : Turn ι}

/-- **Other turns leave a counter in use that cannot be reported.** -/
theorem Step.keepsCounters (h : Step sha1 m a m') (hm' : m'.AllReported) :
    m.KeepsCounters sha1 a := by
  cases h with
  | control hidle hpruned hstep =>
    intro c hlive
    exact hstep.keepsReporting (hm' c (Traffic.State.live_retag.mpr hlive)).2
  | @traffic i a traffic hfree hcycle hstep =>
    cases a with
    | connect tag =>
      obtain ⟨gen, hheld⟩ := hstep.connect
      exact (hm' ⟨tag, gen⟩ (.inr ⟨i, .inl hheld⟩)).2
    | _ => trivial
  | unregister hpruning =>
    intro tag todo hpruning' c htag hlive
    cases hpruning.symm.trans hpruning'
    exact (Traffic.State.registered_unregister.mp (hm' c hlive).1).1 htag
  | deactivate => trivial

variable [Fintype ι]

omit [DecidableEq ι] in
theorem Accounted.liveRegistered (h : m.Accounted) : Traffic.LiveRegistered m.traffic :=
  fun c hlive => (h.reported c hlive).1

omit [DecidableEq ι] in
theorem new_accounted (listenIp : ι → String) (cert : ι → CertConfig) :
    (new listenIp cert).Accounted where
  reported := by
    rintro c (⟨d, hcell⟩ | ⟨i, hheld | hpc⟩)
    · exact absurd (Traffic.Cell.get_new d) hcell
    · cases hheld
    · exact hpc.elim
  balanced tag d := Traffic.State.new_balanced _ tag d
  nodeTag _ := rfl

/-- **Guarded turns keep the counters in use.** -/
theorem Step.accounted (h : Step sha1 m a m') (hm : m.Accounted) (hguard : m.KeepsCounters sha1 a) :
    m'.Accounted := by
  cases h with
  | @control a server hidle hpruned hstep =>
    refine ⟨fun c hlive => ?_, fun tag d => (hm.balanced tag d).retag, fun i => ?_⟩
    · have hlive := Traffic.State.live_retag.mp hlive
      obtain ⟨hreg, hreports⟩ := hm.reported c hlive
      exact ⟨hreg, hstep.reports (hguard c hlive) hreports⟩
    · by_cases hi : i = a.actor
      · subst hi
        simp [Traffic.State.retag]
      · rw [hstep.controller_ne hi, ← hm.nodeTag i]
        simp [Traffic.State.retag, hi]
  | @traffic i a traffic hfree hcycle hstep =>
    refine ⟨fun c hlive => ?_, fun tag d => hstep.balanced rfl (hm.balanced tag d), fun j => ?_⟩
    · refine ⟨hstep.liveRegistered hm.liveRegistered c hlive, ?_⟩
      rcases hstep.live hlive with hlive | ⟨rfl, -⟩
      · exact (hm.reported c hlive).2
      · exact hguard
    · exact (hstep.nodeTag j).trans (hm.nodeTag j)
  | @unregister i tag todo hpruning =>
    have hdead := hguard tag todo hpruning
    refine ⟨fun c hlive => ⟨?_, (hm.reported c hlive).2⟩,
      fun tag' d => (hm.balanced tag' d).unregister hdead, hm.nodeTag⟩
    exact Traffic.State.LiveRegistered.unregister hm.liveRegistered hdead c hlive
  | deactivate hpruning => exact ⟨hm.reported, hm.balanced, hm.nodeTag⟩

/-- **Guarded turns keep the marks** on counters with traffic. -/
theorem Step.marked (h : Step sha1 m a m') (hm : m.Accounted) (hmarked : m.traffic.Marked)
    (hguard : m.KeepsMarks a) : m'.traffic.Marked := by
  cases h with
  | control => exact hmarked.retag
  | traffic hfree hcycle hstep => exact hstep.marked hm.liveRegistered hmarked hguard
  | unregister => exact hmarked.unregister
  | deactivate hpruning => exact hmarked.deactivate hm.liveRegistered (hguard _ _ hpruning)

/-- **Marked bytes are delivered.** -/
theorem Accounted.delivered (hm : m.Accounted) (hmarked : m.traffic.Marked) : m.Delivered sha1 := by
  rintro ⟨hquiet, hfree⟩ c hlive hfits
  obtain ⟨hreg, i, hrunning, htag⟩ := hm.reported c hlive
  by_cases hempty : ∀ d, (m.traffic.stats.cells c).get d = 0
  · refine ⟨i, [], m, .nil m, by simp, fun d => ?_⟩
    exact (hm.balanced c.tag d).reported_eq hquiet hreg (hempty d) (hfits d)
  · obtain ⟨d, hne⟩ := not_forall.mp hempty
    have hphase : m.server.phase i = .idle := by
      cases hphase : m.server.phase i with
      | idle => rfl
      | rebuilding node users => exact absurd hphase ((hfree i).2 node users)
      | created | stopped =>
        rw [hphase] at hrunning
        exact hrunning.elim
    rw [← hm.nodeTag i] at htag
    obtain ⟨trace, t, hrun, hcycle, ht, hdone⟩ := Traffic.State.exists_cycle (fun _ => false) hreg
      (hquiet i) (hmarked.noneStranded hquiet c hreg d hne) htag
    refine ⟨i, _, _, hrun.embed (fun a => a.1 = i ∧ a.2.Reports) (fun traffic => { m with traffic })
      (fun a => .traffic a.1 a.2) hcycle ?_, ?_, fun d => ?_⟩
    · rintro s t ⟨j, a⟩ ⟨rfl, -⟩ hstep
      exact .traffic (hfree j) (fun _ _ => hphase) hstep
    · intro p hp
      obtain ⟨q, hq, rfl⟩ := List.mem_map.mp hp
      obtain ⟨rfl, hreports⟩ := hcycle q hq
      exact ⟨q.1.2, rfl, hreports⟩
    · have hbalanced := hrun.invariant (hm.balanced c.tag d) fun _ _ _ hs hstep =>
        hstep.balanced rfl hs
      have hidle : t.Quiescent := by
        intro j
        by_cases hj : j = i
        · rw [hj, hdone]
        · rw [ht.others j hj, hquiet j]
      have hzero : (t.stats.cells c).get d = 0 := by
        by_contra hne
        have hatt := ht.attended d hne
        rw [hdone] at hatt
        exact hatt
      have hadded := ht.added d
      show t.reported c.tag d = _
      rw [hbalanced.reported_eq hidle ht.registered hzero (by rw [hadded]; exact hfits d), hadded]

end

end Metered

/-- **Polls leave unreported traffic alone exactly while they leave the counters in use
alone.**  For every run, whatever the panel answers: in every state each counter that
holds bytes or may still receive some is registered and reported by a controller,
exactly if every turn keeps the counters in use.  Then the bytes counted are those
reported, those in the counter and those in flight; and if the turns leave the marks
alone too, then, whenever nothing is in progress, one successful cycle delivers all that
was counted. -/
theorem unreported_traffic_kept {ι : Type} [Fintype ι] [DecidableEq ι]
    (sha1 : Bytes → Vector UInt8 20) (listenIp : ι → String) (cert : ι → CertConfig)
    {trace : List (Turn ι × Metered ι)} {m : Metered ι}
    (h : Run (Metered.Step sha1) (.new listenIp cert) trace m) :
    ((∀ p ∈ trace, p.2.AllReported) ↔
      Meets (Metered.KeepsCounters sha1) (.new listenIp cert) trace) ∧
    (Meets (Metered.KeepsCounters sha1) (.new listenIp cert) trace →
      (∀ p ∈ trace, ∀ tag d, p.2.traffic.added tag d < 2 ^ 63 → p.2.traffic.Conserved tag d) ∧
      (Meets Metered.KeepsMarks (.new listenIp cert) trace →
        ∀ p ∈ trace, p.2.Delivered sha1)) := by
  have hinit := Metered.new_accounted listenIp cert
  refine ⟨?_, fun hguard => ⟨?_, fun hmarks => ?_⟩⟩
  · exact h.forall_holds_iff_meets hinit (fun _ hm => hm.reported)
      (fun _ _ _ hm hstep hg => hstep.accounted hm hg)
      (fun _ _ _ _ hstep hm' => hstep.keepsCounters hm')
  · have hstep : ∀ (m m' : Metered ι) a, m.Accounted → Metered.Step sha1 m a m' →
        m.KeepsCounters sha1 a → m'.Accounted ∧ ∀ tag d, m'.traffic.added tag d < 2 ^ 63 →
          m'.traffic.Conserved tag d := by
      intro m m' a hm hstep hg
      have hm' := hstep.accounted hm hg
      exact ⟨hm', fun tag d => (hm'.balanced tag d).2⟩
    exact (h.of_meets hinit hguard hstep).2
  · have hstep : ∀ (m m' : Metered ι) a, m.Accounted ∧ m.traffic.Marked →
        Metered.Step sha1 m a m' → m.KeepsCounters sha1 a ∧ m.KeepsMarks a →
        (m'.Accounted ∧ m'.traffic.Marked) ∧ m'.Delivered sha1 := by
      rintro m m' a ⟨hm, hmarked⟩ hstep ⟨hg, hg'⟩
      have hm' := hstep.accounted hm hg
      have hmarked' := hstep.marked hm hmarked hg'
      exact ⟨⟨hm', hmarked'⟩, hm'.delivered hmarked'⟩
    exact (h.of_meets ⟨hinit, Traffic.State.new_marked _⟩ (hguard.and hmarks) hstep).2

/-- A user. -/
def alice : UserInfo := ⟨1, "alice", "a", "", 0, 0, "", 0, 0⟩

/-- Her counter at the node on port 443. -/
def aliceAt443 : CounterId := ⟨"V2ray_0.0.0.0_443|alice|1", 0⟩

/-- A poll that adds a user, while five bytes wait in a counter and the connection is
open, leaves them to be delivered. -/
theorem added_user_keeps_traffic :
    let sha1 : Bytes → Vector UInt8 20 := fun _ => .replicate 20 0
    ∃ m : Metered Bool, (m.traffic.stats.cells aliceAt443).up = 5 ∧
      (m.server.controller false).userList.length = 2 ∧ m.AllReported ∧ m.Delivered sha1 := by
  intro sha1
  have hrun : Run (Metered.Step sha1) (.new (fun _ : Bool => "0.0.0.0") fun _ => noCert)
      [(.control (.start false openHost ⟨freshReply "n1" (plainNode 443 "tcp"),
          freshReply "u1" [alice]⟩), _), (.traffic true (.connect "V2ray_0.0.0.0_443|alice|1"), _),
        (.traffic true (.add aliceAt443 .up 5), _), (.traffic true .mark, _),
        (.traffic true .insert, _), (.traffic true .fetchAdd, _),
        (.control (.poll false ⟨unmodifiedReply,
          freshReply "u2" [alice, { alice with uid := 2 }]⟩), _)] _ :=
    .cons (.control rfl rfl (.start false openHost _ rfl rfl))
      (.cons (.traffic (.of_created rfl rfl) nofun (.mk (.create rfl rfl)))
        (.cons (.traffic (.of_created rfl rfl) nofun (.mk (.add rfl List.mem_cons_self)))
          (.cons (.traffic (.of_created rfl rfl) nofun (.mk (.markFirst rfl rfl)))
            (.cons (.traffic (.of_created rfl rfl) nofun (.mk (.insert rfl)))
              (.cons (.traffic (.of_created rfl rfl) nofun (.mk (.fetchAdd rfl)))
                (.cons (.control rfl rfl (.poll false _ rfl rfl)) (.nil _)))))))
  obtain ⟨hreported, hrest⟩ := unreported_traffic_kept sha1 (fun _ => "0.0.0.0") (fun _ => noCert)
    hrun
  have hall := hreported.mpr ⟨fun _ _ => trivial, ⟨false, trivial, by decide +kernel⟩, trivial,
    trivial, trivial, trivial, fun _ _ => trivial, trivial⟩
  have hdelivered := (hrest (hreported.mp hall)).2 ⟨trivial, fun _ _ h => h.elim,
    fun _ _ h => h.elim, fun _ _ h => h.elim, fun _ _ h => h.elim, fun _ _ h => h.elim, trivial,
    trivial⟩
  exact ⟨_, by decide +kernel, by decide +kernel, hall _ (List.getLast_mem (List.cons_ne_nil _ _)),
    hdelivered _ (List.getLast_mem (List.cons_ne_nil _ _))⟩

/-- **Lost bytes.**  Five bytes are counted for a user; then the node moves to another
port, and the poll removes the user's counter.  Nothing is in progress any more, the
connection is still open, and the bytes are in a counter that no cycle finds. -/
theorem rebuild_loses_traffic :
    let sha1 : Bytes → Vector UInt8 20 := fun _ => .replicate 20 0
    ∃ (trace : List (Turn Bool × Metered Bool)) (m : Metered Bool),
      trace.map Prod.fst = [.control (.start false openHost
          ⟨freshReply "n1" (plainNode 443 "tcp"), freshReply "u1" [alice]⟩),
        .traffic true (.connect "V2ray_0.0.0.0_443|alice|1"),
        .traffic true (.add aliceAt443 .up 5), .traffic true .mark, .traffic true .insert,
        .traffic true .fetchAdd,
        .control (.poll false ⟨freshReply "n2" (plainNode 8443 "tcp"), unmodifiedReply⟩),
        .unregister false, .deactivate false, .control (.rebuild false openHost)] ∧
      Run (Metered.Step sha1) (.new (fun _ => "0.0.0.0") fun _ => noCert) trace m ∧
      m.Quiescent ∧ m.traffic.added "V2ray_0.0.0.0_443|alice|1" .up = 5 ∧
      m.traffic.reported "V2ray_0.0.0.0_443|alice|1" .up = 0 ∧
      aliceAt443 ∈ (m.traffic.worker true).held ∧ (m.traffic.stats.cells aliceAt443).up = 5 ∧
      ¬ m.traffic.stats.Registered aliceAt443 := by
  intro sha1
  refine ⟨[(.control (.start false openHost ⟨freshReply "n1" (plainNode 443 "tcp"),
      freshReply "u1" [alice]⟩), _), (.traffic true (.connect "V2ray_0.0.0.0_443|alice|1"), _),
    (.traffic true (.add aliceAt443 .up 5), _), (.traffic true .mark, _),
    (.traffic true .insert, _), (.traffic true .fetchAdd, _),
    (.control (.poll false ⟨freshReply "n2" (plainNode 8443 "tcp"), unmodifiedReply⟩), _),
    (.unregister false, _), (.deactivate false, _), (.control (.rebuild false openHost), _)], _, rfl,
    .cons (.control rfl rfl (.start false openHost _ rfl rfl))
      (.cons (.traffic (.of_created rfl rfl) nofun (.mk (.create rfl rfl)))
        (.cons (.traffic (.of_created rfl rfl) nofun (.mk (.add rfl List.mem_cons_self)))
          (.cons (.traffic (.of_created rfl rfl) nofun (.mk (.markFirst rfl rfl)))
            (.cons (.traffic (.of_created rfl rfl) nofun (.mk (.insert rfl)))
              (.cons (.traffic (.of_created rfl rfl) nofun (.mk (.fetchAdd rfl)))
                (.cons (.control rfl rfl (.poll false _ rfl rfl))
                  (.cons (@Metered.Step.unregister _ _ _ _ _ "V2ray_0.0.0.0_443|alice|1" []
                    (by decide +kernel)) (.cons (.deactivate rfl)
                    (.cons (.control rfl rfl (.rebuild false openHost rfl rfl)) (.nil _)))))))))),
    ?_, by decide +kernel, by decide +kernel, List.mem_cons_self, by decide +kernel,
    by decide +kernel⟩
  refine ⟨fun i => ?_, fun i => ?_⟩
  · cases i <;> rfl
  · cases i with
    | false => exact .of_idle rfl rfl
    | true => exact .of_created rfl rfl

end XrayRs.Saas
