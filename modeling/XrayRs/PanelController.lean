import XrayRs.PanelInbound

/-! # The controller of a panel node

The panel client's conditional requests (`saas/src/sspanel/mod.rs`) and the
controller that starts a node and polls the panel for changes
(`saas/src/controller.rs`).

What the panel sends is a `Reply`: JSON and the parsers of its documents are folded
into the `data` of an envelope, so that a reply carries what `get_node_info` and
`get_user_list` would make of it.  `node_info_monitor` is cut at its one point of
suspension after the requests: `beginMonitor` runs up to the pruning of the stats,
`endMonitor` rebuilds the inbound afterwards. -/

namespace XrayRs.Saas

/-! ## The panel client -/

/-- The variants of `ApiError` that are failures. -/
inductive Failure
  | request
  | status (status : UInt16)
  | ret (ret : UInt64)
  | decode
  | parseNode (message : String)
  deriving DecidableEq

/-- `ApiError`: the panel says that nothing was modified, or the request failed. -/
inductive ApiError
  | notModified
  | failed (failure : Failure)
  deriving DecidableEq

/-- What `resp.text()` and the decoder make of a body: the transfer breaks off, the
text is not an envelope, or it is one, with the data decoded and parsed. -/
inductive Body (α : Type)
  | unreadable
  | undecodable
  | envelope (ret : UInt64) (data : Except Failure α)

/-- An HTTP response; the ETag is empty when there is no such header. -/
structure Response (α : Type) where
  status : UInt16
  etag : String
  body : Body α

/-- The outcome of `send_with_retry`: a response, or none of the attempts got
through. -/
abbrev Reply (α : Type) := Option (Response α)

/-- The endpoints with a cached ETag that the controller asks. -/
inductive Endpoint
  | node
  | users
  deriving DecidableEq

/-- `etags`, with the empty text for an endpoint that has none. -/
abbrev Etags := Endpoint → String

/-- `set_etag`. -/
def setEtag (etags : Etags) (key : Endpoint) (value : String) : Etags :=
  if value = "" then etags else Function.update etags key value

/-- `parse_response`. -/
def Response.parse {α : Type} (resp : Response α) : Except Failure α :=
  match resp.body with
  | .unreadable => .error .request
  | .undecodable => if 400 < resp.status then .error (.status resp.status) else .error .decode
  | .envelope ret data =>
    if 400 < resp.status then .error (.status resp.status)
    else if ret ≠ 1 then .error (.ret ret)
    else data

/-- `get_json`: the ETag is cached before the body is looked at. -/
def getJson {α : Type} (etags : Etags) (key : Endpoint) (reply : Reply α) :
    Etags × Except ApiError α :=
  match reply with
  | none => (etags, .error (.failed .request))
  | some resp =>
    if resp.status = 304 then (etags, .error .notModified)
    else (setEtag etags key resp.etag, resp.parse.mapError .failed)

/-! ## The controller -/

/-- `Controller`: the two settings it reads, the client's cache, and its copy of
the panel's node and users. -/
structure Controller where
  listenIp : String
  cert : CertConfig
  etags : Etags
  nodeInfo : Option NodeInfo
  nodeTag : String
  userList : List UserInfo

/-- The replies to the two requests of a poll.  The second is asked for only if the
first did not fail. -/
structure Replies where
  node : Reply NodeInfo
  users : Reply (List UserInfo)

/-- `users_differ`. -/
def usersDiffer (old new : List UserInfo) : Bool :=
  old.length != new.length || new.any fun u => !old.contains u

/-- What a poll does about the answers to its requests. -/
inductive Task
  | nothing
  | rebuild (node : NodeInfo) (users : List UserInfo)
  | sync (users : List UserInfo)
  deriving DecidableEq

namespace Controller

/-- `Controller::new`. -/
def new (listenIp : String) (cert : CertConfig) : Controller :=
  ⟨listenIp, cert, fun _ => "", none, "", []⟩

/-- How the monitor reads a result: the new value, or `none` when nothing was
modified.  Any other error ends the poll. -/
def answer {α : Type} : Except ApiError α → Option (Option α)
  | .ok a => some (some a)
  | .error .notModified => some none
  | .error (.failed _) => none

/-- The requests of `node_info_monitor`. -/
def fetch (c : Controller) (replies : Replies) :
    Controller × Option (Option NodeInfo × Option (List UserInfo)) :=
  let node := getJson c.etags .node replies.node
  match answer node.2 with
  | none => ({ c with etags := node.1 }, none)
  | some newNode =>
    let users := getJson node.1 .users replies.users
    ({ c with etags := users.1 }, (answer users.2).map fun newUsers => (newNode, newUsers))

/-- The part of the plan for a node that did not change. -/
def planUsers (c : Controller) : Option (List UserInfo) → Task
  | none => .nothing
  | some users => if usersDiffer c.userList users then .sync users else .nothing

/-- The decisions of `node_info_monitor`: a changed node is rebuilt, unless its port
is 0; otherwise a changed user list is synced. -/
def plan (c : Controller) (newNode : Option NodeInfo) (newUsers : Option (List UserInfo)) : Task :=
  match newNode with
  | none => c.planUsers newUsers
  | some node =>
    if some node ≠ c.nodeInfo then
      if node.port = 0 then .nothing else .rebuild node (newUsers.getD c.userList)
    else c.planUsers newUsers

/-- `prune_all_stats`: the counters it removes. -/
def pruneAllStats (c : Controller) (tag : String) : List String :=
  c.userList.map (buildUserTag tag)

/-- `prune_removed_stats`: the counters it removes. -/
def pruneRemovedStats (c : Controller) (newUsers : List UserInfo) : List String :=
  let keep := newUsers.map (buildUserTag c.nodeTag)
  (c.userList.map (buildUserTag c.nodeTag)).filter fun tag => !keep.contains tag

section
variable {ι : Type} (sha1 : Bytes → Vector UInt8 20)

/-- `start`. -/
def start (host : Host) (owner : ι) (replies : Replies) (c : Controller)
    (ibm : InboundManager ι) : Option (Controller × InboundManager ι) :=
  let node := getJson c.etags .node replies.node
  let users := getJson node.1 .users replies.users
  match node.2 with
  | .error _ => none
  | .ok node =>
    if node.port = 0 then none
    else
      match users.2 with
      | .ok list => finish users.1 node list
      | .error .notModified => finish users.1 node []
      | .error (.failed _) => none
where
  finish (etags : Etags) (node : NodeInfo) (users : List UserInfo) :
      Option (Controller × InboundManager ι) :=
    match buildInbound sha1 host node users c.listenIp c.cert with
    | .error _ => none
    | .ok built =>
      (ibm.add host owner built).map fun ibm =>
        ({ c with etags, nodeInfo := some node, nodeTag := built.tag, userList := users }, ibm)

/-- The state a poll leaves off in: returned, or about to rebuild. -/
structure Begun (ι : Type) where
  controller : Controller
  ibm : InboundManager ι
  pruned : List String
  pending : Option (NodeInfo × List UserInfo)

/-- The user sync of `node_info_monitor`. -/
def sync (users : List UserInfo) (c : Controller) (ibm : InboundManager ι) : Begun ι :=
  if c.nodeInfo.isNone then ⟨c, ibm, [], none⟩
  else
    match (ibm.handler c.nodeTag).bind fun handler => applyUsers sha1 handler users c.nodeTag with
    | none => ⟨c, ibm, [], none⟩
    | some handler =>
      ⟨{ c with userList := users }, ibm.setHandler c.nodeTag handler, c.pruneRemovedStats users,
        none⟩

/-- What follows the requests, up to the pruning of the stats. -/
def act (c : Controller) (ibm : InboundManager ι) : Task → Begun ι
  | .nothing => ⟨c, ibm, [], none⟩
  | .rebuild node users =>
    ⟨c, ibm.remove c.nodeTag, c.pruneAllStats c.nodeTag, some (node, users)⟩
  | .sync users => c.sync sha1 users ibm

/-- `node_info_monitor`, up to the pruning of the stats. -/
def beginMonitor (replies : Replies) (c : Controller) (ibm : InboundManager ι) : Begun ι :=
  match c.fetch replies with
  | (c, none) => ⟨c, ibm, [], none⟩
  | (c, some (newNode, newUsers)) => c.act sha1 ibm (c.plan newNode newUsers)

/-- `node_info_monitor`, the rebuild after the stats were pruned. -/
def endMonitor (host : Host) (owner : ι) (node : NodeInfo) (users : List UserInfo)
    (c : Controller) (ibm : InboundManager ι) : Controller × InboundManager ι :=
  match buildInbound sha1 host node users c.listenIp c.cert with
  | .error _ => (c, ibm)
  | .ok built =>
    match ibm.add host owner built with
    | none => (c, ibm)
    | some ibm => ({ c with nodeTag := built.tag, nodeInfo := some node, userList := users }, ibm)

/-- `node_info_monitor`.  Other controllers may act on the manager (`meanwhile`) while
this one waits for the stats. -/
def nodeInfoMonitor (host : Host) (owner : ι) (replies : Replies)
    (meanwhile : InboundManager ι → InboundManager ι) (c : Controller) (ibm : InboundManager ι) :
    Controller × InboundManager ι :=
  let begun := c.beginMonitor sha1 replies ibm
  match begun.pending with
  | none => (begun.controller, begun.ibm)
  | some (node, users) =>
    begun.controller.endMonitor sha1 host owner node users (meanwhile begun.ibm)

/-- `build_inbound` takes the node and the manager takes the inbound. -/
def Rebuilds (host : Host) (node : NodeInfo) (users : List UserInfo) (c : Controller)
    (ibm : InboundManager ι) : Prop :=
  ∃ built, buildInbound sha1 host node users c.listenIp c.cert = .ok built ∧
    ibm.running built.tag = none ∧ host.bind built.listen built.port = true

/-! ### What a poll can do -/

variable {sha1} {host : Host} {owner : ι} {replies : Replies} {c : Controller}
  {ibm : InboundManager ι} {node : NodeInfo} {users : List UserInfo}

/-- The requests change nothing but the client's cache. -/
theorem fetch_fst (c : Controller) (replies : Replies) :
    (c.fetch replies).1 = { c with etags := (c.fetch replies).1.etags } := by
  unfold fetch
  dsimp only
  cases answer (getJson c.etags .node replies.node).2 with
  | none => rfl
  | some newNode => rfl

/-- **What `start` can do.** -/
theorem start_eq_some {c' : Controller} {ibm' : InboundManager ι}
    (h : c.start sha1 host owner replies ibm = some (c', ibm')) :
    ∃ etags users' built, ∃ node,
      c' = { c with etags, nodeInfo := some node, nodeTag := built.tag, userList := users' } ∧
      buildInbound sha1 host node users' c.listenIp c.cert = .ok built ∧
      ibm.add host owner built = some ibm' ∧
      (getJson c.etags .node replies.node).2 = .ok node ∧
      etags = (getJson (getJson c.etags .node replies.node).1 .users replies.users).1 ∧
      ((getJson (getJson c.etags .node replies.node).1 .users replies.users).2 = .ok users' ∨
        (getJson (getJson c.etags .node replies.node).1 .users replies.users).2 =
          .error .notModified) := by
  have hfinish : ∀ {etags : Etags} {node : NodeInfo} {users : List UserInfo},
      start.finish sha1 host owner c ibm etags node users = some (c', ibm') → ∃ built,
        c' = { c with etags, nodeInfo := some node, nodeTag := built.tag, userList := users } ∧
        buildInbound sha1 host node users c.listenIp c.cert = .ok built ∧
        ibm.add host owner built = some ibm' := by
    intro etags node users h
    unfold start.finish at h
    split at h
    · cases h
    · rename_i built hbuilt
      obtain ⟨_, hadd, heq⟩ := Option.map_eq_some_iff.mp h
      cases heq
      exact ⟨built, rfl, hbuilt, hadd⟩
  unfold start at h
  dsimp only at h
  split at h
  · cases h
  rename_i node hnode
  by_cases hport : node.port = 0
  · rw [if_pos hport] at h
    cases h
  rw [if_neg hport] at h
  split at h
  · rename_i husers
    obtain ⟨built, hc, hbuilt, hadd⟩ := hfinish h
    exact ⟨_, _, built, node, hc, hbuilt, hadd, hnode, rfl, .inl husers⟩
  · rename_i husers
    obtain ⟨built, hc, hbuilt, hadd⟩ := hfinish h
    exact ⟨_, _, built, node, hc, hbuilt, hadd, hnode, rfl, .inr husers⟩
  · cases h

/-- A sync ends the poll. -/
theorem sync_pending : (c.sync sha1 users ibm).pending = none := by
  unfold sync
  split
  · rfl
  · split
    · rfl
    · rfl

theorem sync_controller_cases : (c.sync sha1 users ibm).controller = c ∨
    (c.sync sha1 users ibm).controller = { c with userList := users } := by
  unfold sync
  split
  · exact .inl rfl
  · split
    · exact .inl rfl
    · exact .inr rfl

theorem sync_controller {handler : Inbound} (hnode : c.nodeInfo.isNone = false)
    (happly : ((ibm.handler c.nodeTag).bind fun h => applyUsers sha1 h users c.nodeTag) =
      some handler) : (c.sync sha1 users ibm).controller = { c with userList := users } := by
  unfold sync
  rw [if_neg (by simp [hnode]), happly]

/-- A rebuild that succeeds. -/
theorem endMonitor_of_rebuilds {built : BuiltInbound}
    (hbuilt : buildInbound sha1 host node users c.listenIp c.cert = .ok built)
    (hfree : ibm.running built.tag = none) (hbind : host.bind built.listen built.port = true) :
    c.endMonitor sha1 host owner node users ibm =
      ({ c with nodeTag := built.tag, nodeInfo := some node, userList := users },
        ⟨Function.update ibm.running built.tag (some ⟨built.handler, owner⟩)⟩) := by
  have hadd : ibm.add host owner built =
      some ⟨Function.update ibm.running built.tag (some ⟨built.handler, owner⟩)⟩ := by
    unfold InboundManager.add
    rw [hfree, if_neg (by simp), if_pos hbind]
  unfold endMonitor
  rw [hbuilt]
  dsimp only
  rw [hadd]

/-- A rebuild that fails leaves everything as it is, the old inbound removed. -/
theorem endMonitor_of_not_rebuilds (h : ¬ c.Rebuilds sha1 host node users ibm) :
    c.endMonitor sha1 host owner node users ibm = (c, ibm) := by
  unfold endMonitor
  cases hbuilt : buildInbound sha1 host node users c.listenIp c.cert with
  | error e => rfl
  | ok built =>
    have hadd : ibm.add host owner built = none := by
      unfold InboundManager.add
      by_cases hrunning : (ibm.running built.tag).isSome = true
      · rw [if_pos hrunning]
      · have hfree := Option.not_isSome_iff_eq_none.mp hrunning
        rw [if_neg hrunning, if_neg]
        exact fun hbind => h ⟨built, hbuilt, hfree, hbind⟩
    dsimp only
    rw [hadd]

/-- **What a poll can do before it waits for the stats**: nothing but update the
client's cache, take the old inbound away for a rebuild, or swap the user table. -/
theorem beginMonitor_cases :
    ∃ etags, (∃ pruned, c.beginMonitor sha1 replies ibm = ⟨{ c with etags }, ibm, pruned, none⟩) ∨
      (∃ node users pruned, c.beginMonitor sha1 replies ibm =
        ⟨{ c with etags }, ibm.remove c.nodeTag, pruned, some (node, users)⟩) ∨
      (∃ users handler handler' pruned, ibm.handler c.nodeTag = some handler ∧
        applyUsers sha1 handler users c.nodeTag = some handler' ∧
        c.beginMonitor sha1 replies ibm =
          ⟨{ c with etags, userList := users }, ibm.setHandler c.nodeTag handler', pruned, none⟩) := by
  have hfst := fetch_fst c replies
  unfold beginMonitor
  generalize hfetch : c.fetch replies = fetched at hfst
  obtain ⟨c', answers⟩ := fetched
  simp only at hfst
  refine ⟨c'.etags, ?_⟩
  rw [hfst]
  cases answers with
  | none => exact .inl ⟨_, rfl⟩
  | some answers =>
    dsimp only
    generalize hplan : plan _ answers.1 answers.2 = task
    cases task with
    | nothing => exact .inl ⟨_, rfl⟩
    | rebuild node users => exact .inr (.inl ⟨node, users, _, rfl⟩)
    | sync users =>
      unfold act sync
      dsimp only
      split
      · exact .inl ⟨_, rfl⟩
      · split
        · exact .inl ⟨_, rfl⟩
        · rename_i handler' happly
          obtain ⟨handler, hhandler, happly⟩ := Option.bind_eq_some_iff.mp happly
          exact .inr (.inr ⟨users, handler, handler', _, hhandler, happly, rfl⟩)

end

end Controller

/-! ### A small node -/

/-- A VMess node. -/
def plainNode (port : UInt32) (transportProtocol : String) : NodeInfo :=
  ⟨.v2ray, 1, port, 0, 0, transportProtocol, "", "", false, false, "", "", "", "", "", none, false,
    false⟩

/-- A host without certificates, on which every address can be bound. -/
def openHost : Host := ⟨fun _ => none, fun _ _ => false, fun _ _ => true⟩

/-- The settings of a node that listens everywhere and uses no TLS. -/
def noCert : CertConfig := ⟨"none", "", ""⟩

/-- A panel's answer with new content. -/
def freshReply {α : Type} (etag : String) (data : α) : Reply α :=
  some ⟨200, etag, .envelope 1 (.ok data)⟩

/-- A panel's answer that nothing was modified. -/
def unmodifiedReply {α : Type} : Reply α := some ⟨304, "", .unreadable⟩

end XrayRs.Saas
