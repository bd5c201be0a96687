import XrayRs.PanelController
import XrayRs.StepSystem

/-! # Controllers that poll and share a manager

Every controller of the server starts its node, then polls the panel again and
again; all of them add their inbounds to one manager, and one may act while another
waits in the middle of a rebuild.

A rebuild removes the old inbound before it builds the new one.  So a node keeps its
inbound exactly in the runs where every rebuild succeeds (`node_served_iff`): an
update that `build_inbound` rejects takes the node down
(`rejected_update_stops_node`). -/

namespace XrayRs.Saas

open StepSystem

/-! ## The server -/

/-- Where a controller is: not yet started, between polls, waiting in the middle of
a rebuild, or shut down. -/
inductive Phase
  | created
  | idle
  | rebuilding (node : NodeInfo) (users : List UserInfo)
  | stopped

/-- The controllers and the manager they share. -/
structure Server (ι : Type) where
  ibm : InboundManager ι
  controller : ι → Controller
  phase : ι → Phase

/-- A turn of one controller.  The host answers as it will. -/
inductive Act (ι : Type)
  | start (i : ι) (host : Host) (replies : Replies)
  | poll (i : ι) (replies : Replies)
  | rebuild (i : ι) (host : Host)
  | stop (i : ι)

/-- The phase a poll leaves its controller in. -/
def Controller.Begun.phase {ι : Type} (begun : Controller.Begun ι) : Phase :=
  match begun.pending with
  | none => .idle
  | some (node, users) => .rebuilding node users

namespace Server

variable {ι : Type}

/-- The server before any controller has started. -/
def new (listenIp : ι → String) (cert : ι → CertConfig) : Server ι :=
  ⟨.new, fun i => .new (listenIp i) (cert i), fun _ => .created⟩

variable [DecidableEq ι]

/-- The state after a turn of controller `i`. -/
def set (s : Server ι) (i : ι) (c : Controller) (ibm : InboundManager ι) (phase : Phase) :
    Server ι :=
  ⟨ibm, Function.update s.controller i c, Function.update s.phase i phase⟩

/-- The turns of the controllers: `start`, the two halves of `node_info_monitor`, and
the end of `run`. -/
inductive Step (sha1 : Bytes → Vector UInt8 20) : Server ι → Act ι → Server ι → Prop
  | start {s : Server ι} (i : ι) (host : Host) (replies : Replies) {c : Controller}
      {ibm : InboundManager ι} (hphase : s.phase i = .created)
      (hstart : (s.controller i).start sha1 host i replies s.ibm = some (c, ibm)) :
      Step sha1 s (.start i host replies) (s.set i c ibm .idle)
  | poll {s : Server ι} (i : ι) (replies : Replies) {begun : Controller.Begun ι}
      (hphase : s.phase i = .idle)
      (hbegun : (s.controller i).beginMonitor sha1 replies s.ibm = begun) :
      Step sha1 s (.poll i replies) (s.set i begun.controller begun.ibm begun.phase)
  | rebuild {s : Server ι} (i : ι) (host : Host) {node : NodeInfo} {users : List UserInfo}
      {c : Controller} {ibm : InboundManager ι} (hphase : s.phase i = .rebuilding node users)
      (hend : (s.controller i).endMonitor sha1 host i node users s.ibm = (c, ibm)) :
      Step sha1 s (.rebuild i host) (s.set i c ibm .idle)
  | stop {s : Server ι} (i : ι) (hphase : s.phase i = .idle) :
      Step sha1 s (.stop i)
        (s.set i (s.controller i) (s.ibm.remove (s.controller i).nodeTag) .stopped)

end Server

/-! ## The inbounds of a controller -/

section
variable {ι : Type} {ibm ibm' : InboundManager ι} {i j : ι} {tag tag' : String}
  {handler handler' : Inbound}

/-- The manager runs this handler under this tag for controller `i`. -/
def InboundManager.Runs (ibm : InboundManager ι) (i : ι) (tag : String) (handler : Inbound) :
    Prop :=
  ibm.running tag = some ⟨handler, i⟩

namespace InboundManager

theorem Runs.owner_eq (h : ibm.Runs i tag handler) (h' : ibm.Runs j tag handler') : i = j := by
  have heq := h.symm.trans h'
  exact congrArg Running.owner (Option.some.inj heq)

theorem runs_remove :
    (ibm.remove tag).Runs i tag' handler ↔ tag' ≠ tag ∧ ibm.Runs i tag' handler := by
  unfold Runs remove
  by_cases htag : tag' = tag
  · simp [htag]
  · simp [htag]

theorem runs_update {running : Running ι} :
    Runs ⟨Function.update ibm.running tag (some running)⟩ i tag' handler ↔
      (tag' = tag ∧ running = ⟨handler, i⟩) ∨ (tag' ≠ tag ∧ ibm.Runs i tag' handler) := by
  unfold Runs
  by_cases htag : tag' = tag
  · simp [htag]
  · simp [htag]

theorem Runs.setHandler (h : ibm.Runs i tag handler) :
    ibm.setHandler tag handler' =
      ⟨Function.update ibm.running tag (some ⟨handler', i⟩)⟩ := by
  unfold InboundManager.setHandler
  rw [show ibm.running tag = some ⟨handler, i⟩ from h]
  rfl

/-- Nothing changed for controller `j`. -/
def SameFor (j : ι) (ibm ibm' : InboundManager ι) : Prop :=
  ∀ tag handler, ibm'.Runs j tag handler ↔ ibm.Runs j tag handler

/-- To take away one's own inbound changes nothing for the others. -/
theorem sameFor_remove (h : ibm.Runs i tag handler) (hj : j ≠ i) :
    SameFor j ibm (ibm.remove tag) := by
  intro tag' handler'
  rw [runs_remove]
  constructor
  · exact And.right
  · intro hruns
    refine ⟨?_, hruns⟩
    rintro rfl
    exact hj (hruns.owner_eq h)

/-- Nor does it to put an inbound where none or one's own is running. -/
theorem sameFor_update (hfree : ∀ j handler, ibm.Runs j tag handler → j = i) (hj : j ≠ i) :
    SameFor j ibm ⟨Function.update ibm.running tag (some ⟨handler, i⟩)⟩ := by
  intro tag' handler'
  rw [runs_update]
  constructor
  · rintro (⟨-, hrunning⟩ | ⟨-, hruns⟩)
    · exact absurd (congrArg Running.owner hrunning).symm hj
    · exact hruns
  · intro hruns
    refine .inr ⟨?_, hruns⟩
    rintro rfl
    exact hj (hfree j handler' hruns)

end InboundManager

end

/-! ## A node that is served -/

section
variable {ι : Type} (sha1 : Bytes → Vector UInt8 20)

/-- **The node is up**: the manager runs exactly one inbound for the controller, it
runs under the tag of the controller's node, and its user table was built from the
controller's users. -/
def Serves (i : ι) (c : Controller) (ibm : InboundManager ι) : Prop :=
  ∃ handler node, (∀ tag h, ibm.Runs i tag h ↔ tag = c.nodeTag ∧ h = handler) ∧
    c.nodeInfo = some node ∧ c.nodeTag = buildNodeTag node c.listenIp ∧
    handler.BuiltFrom sha1 c.userList c.nodeTag

/-- The manager runs nothing for the controller. -/
def RunsNone (i : ι) (ibm : InboundManager ι) : Prop := ∀ tag h, ¬ ibm.Runs i tag h

/-- What holds of a controller in each phase. -/
def InPhase (i : ι) (c : Controller) (ibm : InboundManager ι) : Phase → Prop
  | .idle => Serves sha1 i c ibm
  | _ => RunsNone i ibm

variable {sha1} {i j : ι} {c : Controller} {ibm ibm' : InboundManager ι} {phase : Phase}

theorem Serves.runs (h : Serves sha1 i c ibm) : ∃ handler, ibm.Runs i c.nodeTag handler := by
  obtain ⟨handler, -, hone, -⟩ := h
  exact ⟨handler, (hone _ _).mpr ⟨rfl, rfl⟩⟩

theorem InPhase.of_sameFor (h : InPhase sha1 j c ibm phase)
    (hsame : InboundManager.SameFor j ibm ibm') : InPhase sha1 j c ibm' phase := by
  have hnone : RunsNone j ibm → RunsNone j ibm' := fun h tag handler hruns =>
    h tag handler ((hsame tag handler).mp hruns)
  cases phase with
  | idle =>
    obtain ⟨handler, node, hone, hrest⟩ := h
    refine ⟨handler, node, fun tag h => ?_, hrest⟩
    rw [hsame, hone]
  | created | rebuilding | stopped => exact hnone h

/-- A served node whose inbound is removed runs nothing. -/
theorem Serves.remove (h : Serves sha1 i c ibm) : RunsNone i (ibm.remove c.nodeTag) := by
  obtain ⟨handler, node, hone, -⟩ := h
  intro tag h hruns
  obtain ⟨hne, hruns⟩ := InboundManager.runs_remove.mp hruns
  exact hne ((hone tag h).mp hruns).1

/-- To put the inbound of a node in place of what the controller had, if anything,
serves the node. -/
theorem serves_update {handler : Inbound} {node : NodeInfo} (hnode : c.nodeInfo = some node)
    (htag : c.nodeTag = buildNodeTag node c.listenIp)
    (hbuilt : handler.BuiltFrom sha1 c.userList c.nodeTag)
    (hold : ∀ tag h, ibm.Runs i tag h → tag = c.nodeTag) :
    Serves sha1 i c ⟨Function.update ibm.running c.nodeTag (some ⟨handler, i⟩)⟩ := by
  refine ⟨handler, node, fun tag h => ?_, hnode, htag, hbuilt⟩
  rw [InboundManager.runs_update]
  constructor
  · rintro (⟨htag, hrunning⟩ | ⟨hne, hruns⟩)
    · exact ⟨htag, (congrArg Running.handler hrunning).symm⟩
    · exact absurd (hold tag h hruns) hne
  · rintro ⟨rfl, rfl⟩
    exact .inl ⟨rfl, rfl⟩

end

/-! ## Runs of the server -/

namespace Server

section
variable {ι : Type} {sha1 : Bytes → Vector UInt8 20}

/-- Every controller is as its phase says. -/
def InPhases (sha1 : Bytes → Vector UInt8 20) (s : Server ι) : Prop :=
  ∀ i, InPhase sha1 i (s.controller i) s.ibm (s.phase i)

/-- Every controller whose last poll has returned serves its node. -/
def AllServed (sha1 : Bytes → Vector UInt8 20) (s : Server ι) : Prop :=
  ∀ i, s.phase i = .idle → Serves sha1 i (s.controller i) s.ibm

/-- A rebuild that is taken up again succeeds: `build_inbound` accepts the node and
its users, no inbound runs under the new tag, and the listener can be bound. -/
def RebuildSucceeds (sha1 : Bytes → Vector UInt8 20) (s : Server ι) : Act ι → Prop
  | .rebuild i host => ∀ node users, s.phase i = .rebuilding node users →
      (s.controller i).Rebuilds sha1 host node users s.ibm
  | _ => True

variable {s t : Server ι} {a : Act ι} {i : ι} {c : Controller} {ibm : InboundManager ι}
  {phase : Phase}

theorem InPhases.allServed (h : InPhases sha1 s) : AllServed sha1 s := by
  intro i hidle
  have hi := h i
  rw [hidle] at hi
  exact hi

theorem new_inPhases (listenIp : ι → String) (cert : ι → CertConfig) :
    InPhases sha1 (new listenIp cert) := by
  intro i tag h hruns
  cases hruns

variable [DecidableEq ι]

/-- **One turn at a time**: it is enough to look at the controller whose turn it is,
if nothing changed for the others. -/
theorem InPhases.set (h : InPhases sha1 s) (hi : InPhase sha1 i c ibm phase)
    (hothers : ∀ j, j ≠ i → InboundManager.SameFor j s.ibm ibm) :
    InPhases sha1 (s.set i c ibm phase) := by
  intro j
  by_cases hj : j = i
  · subst hj
    show InPhase sha1 j (Function.update s.controller j c j) ibm (Function.update s.phase j phase j)
    rw [Function.update_self, Function.update_self]
    exact hi
  · show InPhase sha1 j (Function.update s.controller i c j) ibm (Function.update s.phase i phase j)
    rw [Function.update_of_ne hj, Function.update_of_ne hj]
    exact (h j).of_sameFor (hothers j hj)

/-- A new inbound for a controller that had none. -/
theorem InPhases.added (h : InPhases sha1 s) {node : NodeInfo} {users : List UserInfo}
    {host : Host} {built : BuiltInbound} (hnone : RunsNone i s.ibm)
    (hnode : c.nodeInfo = some node) (hlist : c.userList = users) (htag : c.nodeTag = built.tag)
    (hbuilt : buildInbound sha1 host node users c.listenIp c.cert = .ok built)
    (hfree : s.ibm.running built.tag = none) :
    InPhases sha1
      (s.set i c ⟨Function.update s.ibm.running built.tag (some ⟨built.handler, i⟩)⟩ .idle) := by
  obtain ⟨hbtag, hhandler⟩ := buildInbound_eq_ok hbuilt
  apply h.set
  · show Serves sha1 i c _
    rw [← htag]
    refine serves_update hnode (htag.trans hbtag) ?_ fun tag h hruns => (hnone tag h hruns).elim
    rw [hlist, htag]
    exact hhandler
  · intro j hj
    refine InboundManager.sameFor_update (fun j handler hruns => ?_) hj
    exact absurd (hfree.symm.trans hruns) nofun

/-- **Guarded turns keep every controller in its phase.** -/
theorem Step.inPhases (h : Step sha1 s a t) (hs : InPhases sha1 s)
    (hguard : RebuildSucceeds sha1 s a) : InPhases sha1 t := by
  cases h with
  | @start i host replies c ibm hphase hstart =>
    have hi := hs i
    rw [hphase] at hi
    obtain ⟨etags, users, built, node, rfl, hbuilt, hadd, -⟩ := Controller.start_eq_some hstart
    obtain ⟨hfree, rfl⟩ := InboundManager.add_eq_some hadd
    exact hs.added hi rfl rfl rfl hbuilt hfree
  | @poll i replies begun hphase hbegun =>
    have hi : InPhase sha1 i (s.controller i) s.ibm .idle := hphase ▸ hs i
    obtain ⟨etags, ⟨pruned, hcase⟩ | ⟨node, users, pruned, hcase⟩ |
      ⟨users, handler, handler', pruned, hhandler, happly, hcase⟩⟩ :=
      Controller.beginMonitor_cases (c := s.controller i)
    all_goals
      rw [hbegun] at hcase
      subst hcase
    · exact hs.set hi fun j _ tag h => Iff.rfl
    · obtain ⟨handler, hruns⟩ := Serves.runs hi
      exact hs.set (Serves.remove hi) fun j hj => InboundManager.sameFor_remove hruns hj
    · obtain ⟨old, node, hone, hnode, htag, hold⟩ := hi
      have hruns : s.ibm.Runs i (s.controller i).nodeTag old := (hone _ _).mpr ⟨rfl, rfl⟩
      have heq : handler = old := by
        unfold InboundManager.handler at hhandler
        rw [show s.ibm.running _ = _ from hruns] at hhandler
        exact (Option.some.inj hhandler).symm
      subst heq
      obtain ⟨new, hnew, hbuilt⟩ := applyUsers_builtFrom sha1 hold users
      obtain rfl : handler' = new := Option.some.inj (happly.symm.trans hnew)
      dsimp only
      rw [hruns.setHandler]
      apply hs.set
      · show Serves sha1 i { s.controller i with etags, userList := users } _
        exact serves_update hnode htag hbuilt fun tag h hruns => ((hone tag h).mp hruns).1
      · exact fun j hj => InboundManager.sameFor_update (fun j h hj => hj.owner_eq hruns) hj
  | @rebuild i host node users c ibm hphase hend =>
    have hi := hs i
    rw [hphase] at hi
    obtain ⟨built, hbuilt, hfree, hbind⟩ := hguard node users hphase
    rw [Controller.endMonitor_of_rebuilds hbuilt hfree hbind] at hend
    cases hend
    exact hs.added hi rfl rfl rfl hbuilt hfree
  | @stop i hphase =>
    have hi : InPhase sha1 i (s.controller i) s.ibm .idle := hphase ▸ hs i
    obtain ⟨handler, hruns⟩ := Serves.runs hi
    exact hs.set (Serves.remove hi) fun j hj => InboundManager.sameFor_remove hruns hj

/-- A node that is served after a turn was not in a rebuild that failed. -/
theorem Step.rebuildSucceeds (h : Step sha1 s a t) (hs : InPhases sha1 s)
    (ht : AllServed sha1 t) : RebuildSucceeds sha1 s a := by
  cases h with
  | @rebuild i host node users c ibm hphase hend =>
    intro node' users' hphase'
    cases hphase.symm.trans hphase'
    by_contra hfails
    rw [Controller.endMonitor_of_not_rebuilds hfails] at hend
    cases hend
    have hnone := hs i
    rw [hphase] at hnone
    obtain ⟨handler, hruns⟩ := (ht i (Function.update_self ..)).runs
    exact hnone _ _ hruns
  | start | poll | stop => trivial

end

end Server

/-- **A node stays up exactly while its rebuilds succeed.**  For all controllers that
share the manager, every interleaving of their turns and whatever the panel and the
host answer: in every state, each controller whose last poll has returned has exactly
one running inbound, under the tag of its node and with a table built from its users,
exactly when every rebuild of the run succeeds. -/
theorem node_served_iff {ι : Type} [DecidableEq ι] (sha1 : Bytes → Vector UInt8 20)
    (listenIp : ι → String) (cert : ι → CertConfig) {trace : List (Act ι × Server ι)}
    {s : Server ι} (h : Run (Server.Step sha1) (.new listenIp cert) trace s) :
    (∀ p ∈ trace, p.2.AllServed sha1) ↔
      Meets (Server.RebuildSucceeds sha1) (.new listenIp cert) trace :=
  h.forall_holds_iff_meets (Server.new_inPhases listenIp cert) (fun _ => Server.InPhases.allServed)
    (fun _ _ _ hs hstep hguard => hstep.inPhases hs hguard)
    (fun _ _ _ hs hstep ht => hstep.rebuildSucceeds hs ht)

/-- A node that moves to another port is served again after the rebuild. -/
theorem moved_node_served :
    let sha1 : Bytes → Vector UInt8 20 := fun _ => .replicate 20 0
    ∃ started polled rebuilt : Server Unit,
      ∀ p ∈ [(Act.start () openHost ⟨freshReply "n1" (plainNode 443 "tcp"), freshReply "u1" []⟩,
          started), (.poll () ⟨freshReply "n2" (plainNode 8443 "ws"), unmodifiedReply⟩, polled),
          (.rebuild () openHost, rebuilt)], p.2.AllServed sha1 := by
  intro sha1
  refine ⟨_, _, _, (node_served_iff sha1 (fun _ => "0.0.0.0") (fun _ => noCert)
    (.cons (.start () openHost _ rfl rfl) (.cons (.poll () _ rfl rfl)
      (.cons (.rebuild () openHost rfl rfl) (.nil _))))).mpr ⟨trivial, trivial, ?_, trivial⟩⟩
  intro node users hphase
  cases hphase
  exact ⟨_, rfl, rfl, rfl⟩

/-- A node whose transport the builder does not know: the poll removes the running
inbound, the rebuild fails, and the controller is left without one. -/
theorem rejected_update_stops_node :
    let sha1 : Bytes → Vector UInt8 20 := fun _ => .replicate 20 0
    ∃ started polled stranded : Server Unit,
      Run (Server.Step sha1) (.new (fun _ => "0.0.0.0") fun _ => noCert)
        [(.start () openHost ⟨freshReply "n1" (plainNode 443 "tcp"), freshReply "u1" []⟩, started),
          (.poll () ⟨freshReply "n2" (plainNode 443 "xhttp"), unmodifiedReply⟩, polled),
          (.rebuild () openHost, stranded)] stranded ∧
      stranded.phase () = .idle ∧ ¬ stranded.AllServed sha1 := by
  refine ⟨_, _, _, .cons (.start () openHost _ rfl rfl) (.cons (.poll () _ rfl rfl)
    (.cons (.rebuild () openHost rfl rfl) (.nil _))), rfl, fun h => ?_⟩
  obtain ⟨handler, hruns⟩ := (h () rfl).runs
  cases hruns

end XrayRs.Saas
