import XrayRs.PanelController
import XrayRs.StepSystem
import Mathlib.Order.Defs.Unbundled

/-! # Updates from the panel

A panel keeps a node and a user list, each under an ETag, and answers a request that
names the current one with 304.  `get_json` caches an ETag as soon as it arrives; the
controller takes the content over much later, or not at all.

So the cache may run ahead of the copy: when the other request of the poll fails, or
the rebuild does, the new ETag stays and the panel will not send that content again
(`failed_poll_loses_update`).  As long as every poll that gets an ETag for something
new also takes it over, the copy is the panel's (`panel_updates_kept`). -/

namespace XrayRs.Saas

open StepSystem

/-! ## The panel -/

/-- The panel's history: the content that goes by an ETag.  No ETag is empty. -/
structure Panel where
  node : String → Option NodeInfo
  users : String → Option (List UserInfo)
  node_empty : node "" = none
  users_empty : users "" = none

/-- How a panel may answer a request that names `cached` while its current ETag is
`now`.  A request may get lost or fail in any way; a response that fails may bear
any ETag. -/
inductive Answers {α : Type} (content : String → Option α) (cached now : String) : Reply α → Prop
  | lost : Answers content cached now none
  | failed {resp : Response α} {failure : Failure} (hstatus : resp.status ≠ 304)
      (hparse : resp.parse = .error failure) : Answers content cached now (some resp)
  | notModified {etag : String} {body : Body α} (hcached : cached = now) :
      Answers content cached now (some ⟨304, etag, body⟩)
  | modified {data : α} (hcached : cached ≠ now) (hnow : content now = some data) :
      Answers content cached now (freshReply now data)

/-- The request was answered without failure. -/
def Reply.Answered {α : Type} (reply : Reply α) : Prop :=
  ∃ resp, reply = some resp ∧ (resp.status = 304 ∨ ∃ data, resp.parse = .ok data)

/-- The data that the reply brings. -/
def Reply.data {α : Type} (reply : Reply α) : Option α :=
  match reply with
  | none => none
  | some resp => if resp.status = 304 then none else resp.parse.toOption

/-- The ETag that is cached after a reply. -/
def Reply.etagAfter {α : Type} (reply : Reply α) (cached : String) : String :=
  match reply with
  | none => cached
  | some resp => if resp.status = 304 ∨ resp.etag = "" then cached else resp.etag

/-- The reply puts this ETag into the cache. -/
def Reply.Stores {α : Type} (reply : Reply α) (etag : String) : Prop :=
  ∃ resp, reply = some resp ∧ resp.status ≠ 304 ∧ resp.etag = etag

section
variable {α : Type} {etags : Etags} {key : Endpoint} {reply : Reply α} {data : α}
  {content : String → Option α} {cached now : String}

theorem getJson_fst : (getJson etags key reply).1 =
    Function.update etags key (reply.etagAfter (etags key)) := by
  unfold getJson Reply.etagAfter
  cases reply with
  | none => exact (Function.update_eq_self _ _).symm
  | some resp =>
    by_cases hstatus : resp.status = 304
    · simp [hstatus]
    · by_cases hetag : resp.etag = ""
      · simp [hstatus, hetag, setEtag]
      · simp [hstatus, hetag, setEtag]

theorem answer_getJson (h : reply.Answered) :
    Controller.answer (getJson etags key reply).2 = some reply.data := by
  obtain ⟨resp, rfl, hresp⟩ := h
  by_cases hstatus : resp.status = 304
  · simp [getJson, hstatus, Controller.answer, Reply.data]
  · obtain ⟨data, hparse⟩ := hresp.resolve_left hstatus
    simp [getJson, hstatus, hparse, Except.mapError, Controller.answer, Reply.data, Except.toOption]

theorem answer_getJson_of_not (h : ¬ reply.Answered) :
    Controller.answer (getJson etags key reply).2 = none := by
  cases reply with
  | none => rfl
  | some resp =>
    have hstatus : resp.status ≠ 304 := fun hstatus => h ⟨resp, rfl, .inl hstatus⟩
    cases hparse : resp.parse with
    | ok data => exact (h ⟨resp, rfl, .inr ⟨data, hparse⟩⟩).elim
    | error failure => simp [getJson, hstatus, hparse, Except.mapError, Controller.answer]

theorem data_of_getJson (h : (getJson etags key reply).2 = .ok data) : reply.data = some data := by
  cases reply with
  | none => cases h
  | some resp =>
    unfold getJson at h
    unfold Reply.data
    by_cases hstatus : resp.status = 304
    · simp [hstatus] at h
    · cases hparse : resp.parse with
      | error failure => simp [hstatus, hparse, Except.mapError] at h
      | ok other =>
        simp only [hstatus, if_false, hparse, Except.mapError] at h ⊢
        exact congrArg some (Except.ok.inj h)

theorem getJson_ne_notModified {resp : Response α} (h : resp.status ≠ 304) :
    (getJson etags key (some resp)).2 ≠ .error .notModified := by
  unfold getJson
  cases hparse : resp.parse with
  | error failure => simp [h, hparse, Except.mapError]
  | ok data => simp [h, hparse, Except.mapError]

/-- A reply of the panel leaves the cache alone and brings nothing, or it stores an
ETag and what it brings is the content of that ETag. -/
theorem Answers.etagAfter_cases (h : Answers content cached now reply) (hempty : content "" = none) :
    (reply.etagAfter cached = cached ∧ reply.data = none) ∨
      (reply.Stores (reply.etagAfter cached) ∧
        ∀ data, reply.data = some data → content (reply.etagAfter cached) = some data) := by
  cases h with
  | lost => exact .inl ⟨rfl, rfl⟩
  | @failed resp failure hstatus hparse =>
    have hdata : Reply.data (some resp) = none := by
      simp [Reply.data, hparse, Except.toOption]
    by_cases hetag : resp.etag = ""
    · exact .inl ⟨by simp [Reply.etagAfter, hetag], hdata⟩
    · refine .inr ⟨⟨resp, rfl, hstatus, by simp [Reply.etagAfter, hstatus, hetag]⟩, ?_⟩
      intro data hsome
      exact absurd (hdata.symm.trans hsome) nofun
  | notModified => exact .inl ⟨by simp [Reply.etagAfter], by simp [Reply.data]⟩
  | @modified data _ hnow =>
    have hne : now ≠ "" := by
      rintro rfl
      exact absurd (hempty.symm.trans hnow) nofun
    have hetag : (freshReply now data).etagAfter cached = now := by
      simp [Reply.etagAfter, freshReply, hne]
    have hdata : (freshReply now data).data = some data := by
      simp [Reply.data, freshReply, Response.parse, Except.toOption]
    rw [hetag, hdata]
    exact .inr ⟨⟨_, rfl, by simp, rfl⟩, fun data' hsome => hnow.trans hsome⟩

/-- After an answer the current ETag is the cached one. -/
theorem Answers.etagAfter_eq (h : Answers content cached now reply) (hreply : reply.Answered)
    (hnow : now ≠ "") : reply.etagAfter cached = now := by
  obtain ⟨resp, hresp, hok⟩ := hreply
  cases h with
  | lost => cases hresp
  | failed hstatus hfails =>
    cases hresp
    obtain ⟨data, hparse⟩ := hok.resolve_left hstatus
    exact absurd (hparse.symm.trans hfails) nofun
  | notModified hcached => simp [Reply.etagAfter, hcached]
  | modified => simp [Reply.etagAfter, freshReply, hnow]

/-- An answer that stores an ETag brings data. -/
theorem Reply.Stores.data_isSome {etag : String} (h : reply.Stores etag) (hreply : reply.Answered) :
    ∃ data, reply.data = some data := by
  obtain ⟨resp, rfl, hstatus, -⟩ := h
  obtain ⟨resp', hresp', hok⟩ := hreply
  cases hresp'
  obtain ⟨data, hparse⟩ := hok.resolve_left hstatus
  exact ⟨data, by simp [Reply.data, hstatus, hparse, Except.toOption]⟩

end

/-! ## Polls -/

/-- A poll, with the panel's ETags at the time of its two requests, and the manager as
this controller finds it and as others leave it. -/
structure Poll (ι : Type) where
  replies : Replies
  nodeNow : String
  usersNow : String
  host : Host
  owner : ι
  ibm : InboundManager ι
  meanwhile : InboundManager ι → InboundManager ι

/-- Both requests are answered without failure. -/
def Poll.Answered {ι : Type} (p : Poll ι) : Prop :=
  p.replies.node.Answered ∧ p.replies.users.Answered

section
variable {ι : Type} (sha1 : Bytes → Vector UInt8 20)

/-- The controller after the poll. -/
def Poll.after (p : Poll ι) (c : Controller) : Controller :=
  (c.nodeInfoMonitor sha1 p.host p.owner p.replies p.meanwhile p.ibm).1

/-- A poll of a controller that the panel answers. -/
inductive Poll.Step (panel : Panel) : Controller → Poll ι → Controller → Prop
  | mk {c : Controller} (p : Poll ι) {node : NodeInfo} {users : List UserInfo}
      (hnodeNow : panel.node p.nodeNow = some node)
      (husersNow : panel.users p.usersNow = some users)
      (hnode : Answers panel.node (c.etags .node) p.nodeNow p.replies.node)
      (husers : Answers panel.users (c.etags .users) p.usersNow p.replies.users) :
      Step panel c p (p.after sha1 c)

/-- The node that the poll brings is another one. -/
def Poll.Changes (c : Controller) (p : Poll ι) (node : NodeInfo) : Prop :=
  p.replies.node.data = some node ∧ some node ≠ c.nodeInfo

/-- The rebuild that a changed node calls for goes through: the port is not 0,
`build_inbound` accepts the node, and the manager takes the inbound. -/
def Poll.RebuildSucceeds (c : Controller) (p : Poll ι) : Prop :=
  ∀ node, p.Changes c node → node.port ≠ 0 ∧
    c.Rebuilds sha1 p.host node (p.replies.users.data.getD c.userList)
      (p.meanwhile (p.ibm.remove c.nodeTag))

/-- A sync goes through: `users_differ` sees a difference, the controller has a node,
and the manager still runs its handler. -/
def Poll.SyncSucceeds (c : Controller) (p : Poll ι) (users : List UserInfo) : Prop :=
  usersDiffer c.userList users = true ∧ c.nodeInfo.isNone = false ∧
    ∃ handler, ((p.ibm.handler c.nodeTag).bind fun h => applyUsers sha1 h users c.nodeTag) =
      some handler

end

/-! ## What a poll does to the copy -/

namespace Controller

variable {c : Controller} {replies : Replies} {newNode : Option NodeInfo}
  {newUsers : Option (List UserInfo)} {node : NodeInfo} {users : List UserInfo}

theorem fetch_of_answered (hnode : replies.node.Answered) (husers : replies.users.Answered) :
    (c.fetch replies).2 = some (replies.node.data, replies.users.data) := by
  unfold fetch
  dsimp only
  rw [answer_getJson hnode]
  dsimp only
  rw [answer_getJson husers]
  rfl

theorem fetch_of_not_answered (h : ¬ (replies.node.Answered ∧ replies.users.Answered)) :
    (c.fetch replies).2 = none := by
  unfold fetch
  dsimp only
  by_cases hnode : replies.node.Answered
  · rw [answer_getJson hnode]
    dsimp only
    rw [answer_getJson_of_not fun husers => h ⟨hnode, husers⟩]
    rfl
  · rw [answer_getJson_of_not hnode]

theorem fetch_etag_node :
    (c.fetch replies).1.etags .node = replies.node.etagAfter (c.etags .node) := by
  unfold fetch
  dsimp only
  cases answer (getJson c.etags .node replies.node).2 with
  | none => simp [getJson_fst]
  | some newNode => simp [getJson_fst]

theorem fetch_etag_users (hnode : replies.node.Answered) :
    (c.fetch replies).1.etags .users = replies.users.etagAfter (c.etags .users) := by
  unfold fetch
  dsimp only
  rw [answer_getJson hnode]
  simp [getJson_fst]

theorem fetch_etag_users_of_not (hnode : ¬ replies.node.Answered) :
    (c.fetch replies).1.etags .users = c.etags .users := by
  unfold fetch
  dsimp only
  rw [answer_getJson_of_not hnode]
  simp [getJson_fst]

theorem plan_of_changed (hnode : newNode = some node) (hne : some node ≠ c.nodeInfo)
    (hport : node.port ≠ 0) : c.plan newNode newUsers = .rebuild node (newUsers.getD c.userList) := by
  subst hnode
  unfold plan
  dsimp only
  rw [if_pos hne, if_neg hport]

theorem plan_of_unchanged (h : ∀ node, newNode = some node → some node = c.nodeInfo) :
    c.plan newNode newUsers = c.planUsers newUsers := by
  unfold plan
  cases newNode with
  | none => rfl
  | some node => exact if_neg (not_not.mpr (h node rfl))

/-- **What a poll may plan.** -/
theorem plan_cases :
    c.plan newNode newUsers = .nothing ∨
    (∃ node, newNode = some node ∧ some node ≠ c.nodeInfo ∧
      c.plan newNode newUsers = .rebuild node (newUsers.getD c.userList)) ∨
    (∃ users, newUsers = some users ∧ c.plan newNode newUsers = .sync users) := by
  have husers : c.planUsers newUsers = .nothing ∨
      ∃ users, newUsers = some users ∧ c.planUsers newUsers = .sync users := by
    cases newUsers with
    | none => exact .inl rfl
    | some users =>
      unfold planUsers
      by_cases hdiffer : usersDiffer c.userList users = true
      · exact .inr ⟨users, rfl, if_pos hdiffer⟩
      · exact .inl (if_neg hdiffer)
  by_cases hchanged : ∃ node, newNode = some node ∧ some node ≠ c.nodeInfo
  · obtain ⟨node, hnode, hne⟩ := hchanged
    by_cases hport : node.port = 0
    · subst hnode
      left
      unfold plan
      dsimp only
      rw [if_pos hne, if_pos hport]
    · exact .inr (.inl ⟨node, hnode, hne, plan_of_changed hnode hne hport⟩)
  · rw [plan_of_unchanged fun node hnode => by_contra fun hne => hchanged ⟨node, hnode, hne⟩]
    rcases husers with hnothing | hsync
    · exact .inl hnothing
    · exact .inr (.inr hsync)

end Controller

namespace Poll

variable {ι : Type} {sha1 : Bytes → Vector UInt8 20} {c : Controller} {p : Poll ι}

/-- The controller after the requests: only its cache has changed. -/
def fetched (p : Poll ι) (c : Controller) : Controller :=
  { c with etags := (c.fetch p.replies).1.etags }

theorem after_of_not_answered (h : ¬ p.Answered) : p.after sha1 c = p.fetched c := by
  have hfetch : c.fetch p.replies = (p.fetched c, none) :=
    Prod.ext (Controller.fetch_fst c p.replies) (Controller.fetch_of_not_answered h)
  unfold after Controller.nodeInfoMonitor Controller.beginMonitor
  rw [hfetch]

/-- What the controller is after a poll, by what the poll planned. -/
theorem after_of_answered (h : p.Answered) :
    p.after sha1 c =
      match c.plan p.replies.node.data p.replies.users.data with
      | .nothing => p.fetched c
      | .rebuild node users => ((p.fetched c).endMonitor sha1 p.host p.owner node users
          (p.meanwhile (p.ibm.remove c.nodeTag))).1
      | .sync users => ((p.fetched c).sync sha1 users p.ibm).controller := by
  have hfetch : c.fetch p.replies =
      (p.fetched c, some (p.replies.node.data, p.replies.users.data)) :=
    Prod.ext (Controller.fetch_fst c p.replies) (Controller.fetch_of_answered h.1 h.2)
  have hplan : (p.fetched c).plan p.replies.node.data p.replies.users.data =
      c.plan p.replies.node.data p.replies.users.data := rfl
  unfold after Controller.nodeInfoMonitor Controller.beginMonitor
  rw [hfetch]
  dsimp only
  rw [hplan]
  cases c.plan p.replies.node.data p.replies.users.data with
  | nothing => rfl
  | rebuild node users => rfl
  | sync users =>
    unfold Controller.act
    dsimp only
    rw [Controller.sync_pending]

/-- **What a poll may do to the copy**: the cache is what the requests left; the node
is the old one or one that the poll brought; so are the users. -/
theorem after_cases (sha1 : Bytes → Vector UInt8 20) (c : Controller) (p : Poll ι) :
    ∃ tag node users,
    p.after sha1 c = { p.fetched c with nodeTag := tag, nodeInfo := node, userList := users } ∧
    (node = c.nodeInfo ∨ ∃ new, p.Changes c new ∧ node = some new) ∧
    (users = c.userList ∨ p.replies.users.data = some users) := by
  have hsame : ∃ tag node users,
      p.fetched c = { p.fetched c with nodeTag := tag, nodeInfo := node, userList := users } ∧
      (node = c.nodeInfo ∨ ∃ new, p.Changes c new ∧ node = some new) ∧
      (users = c.userList ∨ p.replies.users.data = some users) :=
    ⟨_, _, _, rfl, .inl rfl, .inl rfl⟩
  by_cases hanswered : p.Answered
  swap
  · rw [after_of_not_answered hanswered]
    exact hsame
  rw [after_of_answered hanswered]
  rcases Controller.plan_cases (c := c) with hplan | ⟨node, hnode, hne, hplan⟩ | ⟨users, husers, hplan⟩
  · rw [hplan]
    exact hsame
  · rw [hplan]
    dsimp only
    by_cases hbuild : (p.fetched c).Rebuilds sha1 p.host node (p.replies.users.data.getD c.userList)
        (p.meanwhile (p.ibm.remove c.nodeTag))
    · obtain ⟨built, hbuilt, hfree, hbind⟩ := hbuild
      rw [Controller.endMonitor_of_rebuilds hbuilt hfree hbind]
      refine ⟨_, _, _, rfl, .inr ⟨node, ⟨hnode, hne⟩, rfl⟩, ?_⟩
      cases p.replies.users.data with
      | none => exact .inl rfl
      | some users => exact .inr rfl
    · rw [Controller.endMonitor_of_not_rebuilds hbuild]
      exact hsame
  · rw [hplan]
    dsimp only
    rcases Controller.sync_controller_cases with hsync | hsync
    · rw [hsync]
      exact hsame
    · rw [hsync]
      exact ⟨_, _, _, rfl, .inl rfl, .inr husers⟩

theorem after_etags : (p.after sha1 c).etags = (c.fetch p.replies).1.etags := by
  obtain ⟨tag, node, users, hafter, -⟩ := after_cases sha1 c p
  rw [hafter]
  rfl

/-- A changed node is taken over, with the users that came along or the cached ones,
if its rebuild succeeds. -/
theorem after_of_changes {node : NodeInfo} (hanswered : p.Answered) (hchange : p.Changes c node)
    (hbuild : p.RebuildSucceeds sha1 c) :
    (p.after sha1 c).nodeInfo = some node ∧
      (p.after sha1 c).userList = p.replies.users.data.getD c.userList := by
  obtain ⟨hport, built, hbuilt, hfree, hbind⟩ := hbuild node hchange
  rw [after_of_answered hanswered, Controller.plan_of_changed hchange.1 hchange.2 hport]
  dsimp only
  rw [Controller.endMonitor_of_rebuilds (c := p.fetched c) hbuilt hfree hbind]
  exact ⟨rfl, rfl⟩

/-- Without a change of the node, new users are taken over if the sync succeeds. -/
theorem after_of_sync {users : List UserInfo} (hanswered : p.Answered)
    (hnode : ∀ node, ¬ p.Changes c node) (husers : p.replies.users.data = some users)
    (hsync : p.SyncSucceeds sha1 c users) : (p.after sha1 c).userList = users := by
  obtain ⟨hdiffer, hsome, handler, happly⟩ := hsync
  have hplan : c.plan p.replies.node.data p.replies.users.data = .sync users := by
    rw [Controller.plan_of_unchanged fun node hn => by_contra fun hne => hnode node ⟨hn, hne⟩, husers]
    exact if_pos hdiffer
  rw [after_of_answered hanswered, hplan]
  dsimp only
  rw [Controller.sync_controller (c := p.fetched c) hsome happly]

end Poll

/-! ## Runs of polls -/

section
variable {ι : Type} (sha1 : Bytes → Vector UInt8 20) (panel : Panel)
  (Same : List UserInfo → List UserInfo → Prop)

/-- **What goes by the cached ETags is what the controller holds.**  `Same` says when
two user lists count as equal. -/
structure CopyOf (c : Controller) : Prop where
  node : ∀ node, panel.node (c.etags .node) = some node → c.nodeInfo = some node
  users : ∀ users, panel.users (c.etags .users) = some users → Same c.userList users

/-- **No ETag runs ahead**: when a request of the poll stores the ETag of something
that the controller does not hold, then the poll takes it over.  That is, no request
fails, a rebuild that is due succeeds, and without a rebuild the users are synced. -/
structure KeepsUp (c : Controller) (p : Poll ι) : Prop where
  node : ∀ etag node, p.replies.node.Stores etag → panel.node etag = some node →
    some node ≠ c.nodeInfo → p.Answered ∧ p.RebuildSucceeds sha1 c
  users : p.replies.node.Answered → ∀ etag users, p.replies.users.Stores etag →
    panel.users etag = some users → ¬ Same c.userList users →
    p.Answered ∧ p.RebuildSucceeds sha1 c ∧
      ((∀ node, ¬ p.Changes c node) → p.SyncSucceeds sha1 c users)

/-- The controller holds the node and the users that were the panel's when it was
asked for them. -/
def Current (p : Poll ι) (c : Controller) : Prop :=
  c.nodeInfo = panel.node p.nodeNow ∧
    ∃ users, panel.users p.usersNow = some users ∧ Same c.userList users

variable {sha1 panel Same} {c c' : Controller} {p : Poll ι}

/-- The node of the copy. -/
theorem CopyOf.node_after (h : CopyOf panel Same c) (hkeeps : KeepsUp sha1 panel Same c p)
    (hnode : Answers panel.node (c.etags .node) p.nodeNow p.replies.node) {node : NodeInfo}
    (hcached : panel.node ((p.after sha1 c).etags .node) = some node) :
    (p.after sha1 c).nodeInfo = some node := by
  obtain ⟨tag, new, users, hafter, hnew, -⟩ := Poll.after_cases sha1 c p
  rw [Poll.after_etags, Controller.fetch_etag_node] at hcached
  rcases hnode.etagAfter_cases panel.node_empty with ⟨hetag, hdata⟩ | ⟨hstores, hdata⟩
  · -- the reply brought nothing, so the node stays
    rw [hetag] at hcached
    rcases hnew with hnew | ⟨other, hchange, -⟩
    · rw [hafter, ← h.node node hcached]
      exact hnew
    · exact absurd (hdata.symm.trans hchange.1) nofun
  · by_cases hholds : some node = c.nodeInfo
    · rcases hnew with hnew | ⟨other, hchange, -⟩
      · rw [hafter, hholds]
        exact hnew
      · have heq := hcached.symm.trans (hdata other hchange.1)
        exact absurd (heq.symm.trans hholds) hchange.2
    · obtain ⟨hanswered, hbuild⟩ := hkeeps.node _ node hstores hcached hholds
      obtain ⟨data, hsome⟩ := hstores.data_isSome hanswered.1
      obtain rfl : node = data := Option.some.inj (hcached.symm.trans (hdata data hsome))
      exact (Poll.after_of_changes hanswered ⟨hsome, hholds⟩ hbuild).1

variable [Std.Refl Same]

/-- The users of the copy. -/
theorem CopyOf.users_after (h : CopyOf panel Same c) (hkeeps : KeepsUp sha1 panel Same c p)
    (husers : Answers panel.users (c.etags .users) p.usersNow p.replies.users)
    {users : List UserInfo}
    (hcached : panel.users ((p.after sha1 c).etags .users) = some users) :
    Same (p.after sha1 c).userList users := by
  obtain ⟨tag, node, new, hafter, -, hnew⟩ := Poll.after_cases sha1 c p
  rw [Poll.after_etags] at hcached
  by_cases hnode : p.replies.node.Answered
  swap
  · -- the users were not asked for
    rw [Controller.fetch_etag_users_of_not hnode] at hcached
    rw [Poll.after_of_not_answered fun hanswered => hnode hanswered.1]
    exact h.users users hcached
  rw [Controller.fetch_etag_users hnode] at hcached
  rcases husers.etagAfter_cases panel.users_empty with ⟨hetag, hdata⟩ | ⟨hstores, hdata⟩
  · rw [hetag] at hcached
    rcases hnew with hnew | hnew
    · rw [hafter]
      exact hnew ▸ h.users users hcached
    · exact absurd (hdata.symm.trans hnew) nofun
  · by_cases hholds : Same c.userList users
    · rw [hafter]
      rcases hnew with hnew | hnew
      · exact hnew ▸ hholds
      · obtain rfl : users = new := Option.some.inj (hcached.symm.trans (hdata new hnew))
        exact refl_of Same users
    · obtain ⟨hanswered, hbuild, hsync⟩ := hkeeps.users hnode _ users hstores hcached hholds
      obtain ⟨data, hsome⟩ := hstores.data_isSome hanswered.2
      obtain rfl : users = data := Option.some.inj (hcached.symm.trans (hdata data hsome))
      have htaken : (p.after sha1 c).userList = users := by
        by_cases hchange : ∃ node, p.Changes c node
        · obtain ⟨node, hchange⟩ := hchange
          rw [(Poll.after_of_changes hanswered hchange hbuild).2, hsome, Option.getD_some]
        · have hnone : ∀ node, ¬ p.Changes c node := fun node hn => hchange ⟨node, hn⟩
          exact Poll.after_of_sync hanswered hnone hsome (hsync hnone)
      rw [htaken]
      exact refl_of Same users

/-- **One poll** that keeps up leaves a copy, a current one if its requests were
answered. -/
theorem Poll.Step.copyOf (h : Poll.Step sha1 panel c p c') (hc : CopyOf panel Same c)
    (hkeeps : KeepsUp sha1 panel Same c p) :
    CopyOf panel Same c' ∧ (p.Answered → Current panel Same p c') := by
  cases h with
  | @mk node users hnodeNow husersNow hnode husers =>
    have hcopy : CopyOf panel Same (p.after sha1 c) :=
      ⟨fun _ => hc.node_after hkeeps hnode, fun _ => hc.users_after hkeeps husers⟩
    refine ⟨hcopy, fun hanswered => ?_⟩
    have hnodeNe : p.nodeNow ≠ "" := by
      intro hempty
      rw [hempty, panel.node_empty] at hnodeNow
      cases hnodeNow
    have husersNe : p.usersNow ≠ "" := by
      intro hempty
      rw [hempty, panel.users_empty] at husersNow
      cases husersNow
    -- the answers left the panel's own ETags in the cache
    have hnodeEtag : (p.after sha1 c).etags .node = p.nodeNow := by
      rw [Poll.after_etags, Controller.fetch_etag_node, hnode.etagAfter_eq hanswered.1 hnodeNe]
    have husersEtag : (p.after sha1 c).etags .users = p.usersNow := by
      rw [Poll.after_etags, Controller.fetch_etag_users hanswered.1,
        husers.etagAfter_eq hanswered.2 husersNe]
    refine ⟨?_, users, husersNow, hcopy.users users (husersEtag ▸ husersNow)⟩
    rw [hnodeNow]
    exact hcopy.node node (hnodeEtag ▸ hnodeNow)

/-- **A successful start** leaves a copy. -/
theorem copyOf_start {listenIp : String} {cert : CertConfig} {host : Host} {owner : ι}
    {replies : Replies} {ibm ibm' : InboundManager ι} {nodeNow usersNow : String}
    (hstart : (Controller.new listenIp cert).start sha1 host owner replies ibm = some (c, ibm'))
    (hnode : Answers panel.node "" nodeNow replies.node)
    (husers : Answers panel.users "" usersNow replies.users) : CopyOf panel Same c := by
  obtain ⟨etags, users, built, node, rfl, -, -, hgotNode, rfl, hgotUsers⟩ :=
    Controller.start_eq_some hstart
  have hnodeEtag : (getJson (getJson (Controller.new listenIp cert).etags .node replies.node).1
      .users replies.users).1 .node = replies.node.etagAfter "" := by
    simp [getJson_fst, Controller.new]
  have husersEtag : (getJson (getJson (Controller.new listenIp cert).etags .node replies.node).1
      .users replies.users).1 .users = replies.users.etagAfter "" := by
    simp [getJson_fst, Controller.new]
  constructor
  · intro other hother
    dsimp only at hother
    rw [hnodeEtag] at hother
    have hdata : replies.node.data = some node := data_of_getJson hgotNode
    rcases hnode.etagAfter_cases panel.node_empty with ⟨-, hnone⟩ | ⟨-, hcontent⟩
    · exact absurd (hnone.symm.trans hdata) nofun
    · exact (hcontent node hdata).symm.trans hother
  · intro other hother
    dsimp only at hother
    rw [husersEtag] at hother
    rcases husers.etagAfter_cases panel.users_empty with ⟨hetag, -⟩ | ⟨hstores, hcontent⟩
    · rw [hetag, panel.users_empty] at hother
      cases hother
    · rcases hgotUsers with hok | hnot
      · have heq := hother.symm.trans (hcontent users (data_of_getJson hok))
        obtain rfl := Option.some.inj heq
        exact refl_of Same other
      · obtain ⟨resp, hresp, hstatus, -⟩ := hstores
        rw [hresp] at hnot
        exact absurd hnot (getJson_ne_notModified hstatus)

end

/-- **No update is lost while the polls keep up.**  After a successful start and
through any history of the panel, any failures and any doings of other controllers:
if no poll stores the ETag of something new without taking it over, then after every
poll whose requests were answered the controller holds the panel's current node and
users. -/
theorem panel_updates_kept {ι : Type} (sha1 : Bytes → Vector UInt8 20) (panel : Panel)
    (Same : List UserInfo → List UserInfo → Prop) [Std.Refl Same]
    {listenIp : String} {cert : CertConfig} {host : Host} {owner : ι} {replies : Replies}
    {ibm ibm' : InboundManager ι} {nodeNow usersNow : String} {c₀ c : Controller}
    {trace : List (Poll ι × Controller)}
    (hstart : (Controller.new listenIp cert).start sha1 host owner replies ibm = some (c₀, ibm'))
    (hnode : Answers panel.node "" nodeNow replies.node)
    (husers : Answers panel.users "" usersNow replies.users)
    (hrun : Run (Poll.Step sha1 panel) c₀ trace c)
    (hkeeps : Meets (KeepsUp sha1 panel Same) c₀ trace) :
    ∀ q ∈ trace, q.1.Answered → Current panel Same q.1 q.2 :=
  (hrun.of_meets (copyOf_start hstart hnode husers) hkeeps
    fun _ _ _ hc hstep hk => hstep.copyOf hc hk).2

/-! ### A node that moves to another port -/

/-- The panel of a node without users that is moved from port 443 to 8443. -/
def movingPanel : Panel where
  node etag :=
    if etag = "n1" then some (plainNode 443 "tcp")
    else if etag = "n2" then some (plainNode 8443 "tcp") else none
  users etag := if etag = "u1" then some [] else none
  node_empty := rfl
  users_empty := rfl

/-- A poll after the move, with a manager that nobody else uses. -/
def movedPoll (replies : Replies) : Poll Unit := ⟨replies, "n2", "u1", openHost, (), .new, id⟩

/-- The replies to a start before the move. -/
def startReplies : Replies := ⟨freshReply "n1" (plainNode 443 "tcp"), freshReply "u1" []⟩

theorem answers_start : Answers movingPanel.node "" "n1" startReplies.node ∧
    Answers movingPanel.users "" "u1" startReplies.users :=
  ⟨.modified (by decide) rfl, .modified (by decide) rfl⟩

/-- A poll that gets the moved node takes it over. -/
theorem panel_updates_kept_moved :
    ∃ c : Controller,
      (∀ q ∈ [(movedPoll ⟨freshReply "n2" (plainNode 8443 "tcp"), unmodifiedReply⟩, c)],
        q.1.Answered → Current movingPanel Eq q.1 q.2) ∧
      c.nodeInfo = some (plainNode 8443 "tcp") := by
  let sha1 : Bytes → Vector UInt8 20 := fun _ => .replicate 20 0
  have hstart : (Controller.new "0.0.0.0" noCert).start sha1 openHost () startReplies .new =
    some (_, _) := rfl
  refine ⟨_, panel_updates_kept sha1 movingPanel Eq hstart answers_start.1 answers_start.2
    (.cons (.mk _ rfl rfl (.modified (by decide) rfl) (.notModified rfl)) (.nil _))
    ⟨⟨?_, ?_⟩, trivial⟩, rfl⟩
  · intro etag node hstores hcontent hne
    refine ⟨⟨⟨_, rfl, .inr ⟨_, rfl⟩⟩, ⟨_, rfl, .inl rfl⟩⟩, ?_⟩
    rintro node ⟨hnode, -⟩
    cases hnode
    exact ⟨by decide, _, rfl, rfl, rfl⟩
  · rintro - etag users ⟨resp, hresp, hstatus, -⟩
    cases hresp
    exact absurd rfl hstatus

/-- **An update that is never seen.**  The node request of the first poll stores the
new ETag, the users request fails, and the poll ends.  The next one is told twice that
nothing was modified, and leaves the controller with the node at its old port. -/
theorem failed_poll_loses_update :
    let sha1 : Bytes → Vector UInt8 20 := fun _ => .replicate 20 0
    ∃ (c₀ c₁ c₂ : Controller) (ibm : InboundManager Unit),
      (Controller.new "0.0.0.0" noCert).start sha1 openHost () startReplies .new = some (c₀, ibm) ∧
      Answers movingPanel.node "" "n1" startReplies.node ∧
      Answers movingPanel.users "" "u1" startReplies.users ∧
      Run (Poll.Step sha1 movingPanel) c₀
        [(movedPoll ⟨freshReply "n2" (plainNode 8443 "tcp"), none⟩, c₁),
          (movedPoll ⟨unmodifiedReply, unmodifiedReply⟩, c₂)] c₂ ∧
      (movedPoll ⟨unmodifiedReply, unmodifiedReply⟩).Answered ∧
      c₂.nodeInfo = some (plainNode 443 "tcp") ∧
      movingPanel.node "n2" = some (plainNode 8443 "tcp") := by
  refine ⟨_, _, _, _, rfl, answers_start.1, answers_start.2,
    .cons (.mk _ rfl rfl (.modified (by decide) rfl) .lost)
      (.cons (.mk _ rfl rfl (.notModified rfl) (.notModified rfl)) (.nil _)), ?_, rfl, rfl⟩
  exact ⟨⟨_, rfl, .inl rfl⟩, ⟨_, rfl, .inl rfl⟩⟩

end XrayRs.Saas
