import Mathlib.Logic.Function.Basic
import XrayRs.RouteTable
import XrayRs.Shadowsocks
import XrayRs.StreamRelay

/-! # Routing and egress of a decoded flow

The part of the service tree below a proxy: `ProxyService::call`,
`RouteService::call` and `OutboundDispatch::call` (`kernel/src/runtime/tree.rs`),
the tag-keyed outbounds (`kernel/src/pipe/outbound.rs`) and what each of them does
with a flow (`Outbound::process`, `proxy/src/outbound.rs`).

A flow the proxy has serviced itself still goes through the tree, as the sentinel
of `noop_decision`.  `freedom` drops it; an upstream proxy does not look at the
target before dialling its server.  Whether the sentinel is dropped is therefore
a question about the table: `noop_dropped_iff`. -/

namespace XrayRs

open BoundedChannel

/-- `Ctx`: the client's address and the authenticated user. -/
structure Ctx where
  source : Option (IpAddr × UInt16)
  userEmail : Option String
  userAuthHash : Option UInt64
  deriving DecidableEq

/-- `Ctx::with_user`. -/
def Ctx.withUser (ctx : Ctx) (email : String) (authHash : UInt64) : Ctx :=
  { ctx with userEmail := some email, userAuthHash := some authHash }

/-- `ProxyDecision`. -/
structure ProxyDecision where
  target : Destination
  ctx : Ctx
  link : Link

/-- The route request of `ProxyService::call`. -/
def routeRequest (target : Destination) (ctx : Ctx) : RouteQuery :=
  ⟨target, target.network, ctx.source.map Prod.fst, none, ctx.userAuthHash⟩

/-! ## Outbounds -/

/-- `SocksOutbound`. -/
structure SocksOutbound where
  server : Destination
  username : String
  password : String
  deriving DecidableEq

/-- `Outbound`. -/
inductive Outbound
  | freedom
  | blackhole
  | shadowsocks (ob : Ss.SsOutbound)
  | socks (ob : SocksOutbound)
  deriving DecidableEq

/-- Relays through an upstream proxy server. -/
def Outbound.IsUpstream : Outbound → Prop
  | .freedom | .blackhole => False
  | .shadowsocks _ | .socks _ => True

/-- `Dialer::dial_tcp`. -/
abbrev Dialer := Destination → Except IoError Conn

/-- Where a flow is once its outbound has dialled, or returned without. -/
inductive Egress
  | returned (result : Except IoError Unit) (link : Link)
  | splice (conn : Conn) (link : Link)
  | ssRelay (ob : Ss.SsOutbound) (target : Destination) (conn : Conn) (link : Link)
  | socksRelay (ob : SocksOutbound) (target : Destination) (conn : Conn) (link : Link)

/-- The calls made to the dialer, and where the flow is after them. -/
structure Processed where
  dialed : List Destination
  egress : Egress

/-- Drop the link and return `Ok`. -/
def Processed.drop (link : Link) : Processed := ⟨[], .returned (.ok ()) link.drop⟩

/-- `dialer.dial_tcp(&dest).await?`, then `relay`. -/
def dialThen (dialer : Dialer) (dest : Destination) (link : Link) (relay : Conn → Egress) :
    Processed :=
  match dialer dest with
  | .error e => ⟨[dest], .returned (.error e) link.drop⟩
  | .ok conn => ⟨[dest], relay conn⟩

/-- `Outbound::process`. -/
def Outbound.process (ob : Outbound) (target : Destination) (link : Link) (dialer : Dialer) :
    Processed :=
  match ob with
  | .freedom =>
    if !target.isValid then .drop link else dialThen dialer target link (.splice · link)
  | .blackhole => .drop link
  | .shadowsocks ob => dialThen dialer ob.server link (.ssRelay ob target · link)
  | .socks ob => dialThen dialer ob.server link (.socksRelay ob target · link)

/-- `OutboundMap`: a `HashMap` by tag. -/
abbrev OutboundMap (O : Type) := String → Option O

/-- `OutboundList::build`: collected in order, a later entry replacing an earlier
one of the same tag. -/
def OutboundList.build {O : Type} (items : List (String × O)) : OutboundMap O :=
  items.foldl (fun m item => Function.update m item.1 (some item.2)) fun _ => none

/-- Later entries win: an entry whose tag does not come up again is the one its
tag leads to. -/
theorem OutboundList.build_of_last {O : Type} (before after : List (String × O)) (tag : String)
    (o : O) (h : ∀ item ∈ after, item.1 ≠ tag) :
    OutboundList.build (before ++ (tag, o) :: after) tag = some o := by
  have hkeep : ∀ (after : List (String × O)) (m : OutboundMap O), (∀ item ∈ after, item.1 ≠ tag) →
      after.foldl (fun (m : OutboundMap O) item => Function.update m item.1 (some item.2)) m tag =
        m tag := by
    intro after
    induction after with
    | nil => exact fun m _ => rfl
    | cons item after ih =>
      intro m h
      obtain ⟨hitem, hafter⟩ := List.forall_mem_cons.mp h
      rw [List.foldl_cons, ih _ hafter, Function.update_of_ne (Ne.symm hitem)]
  unfold OutboundList.build
  rw [List.foldl_append, List.foldl_cons, hkeep after _ h, Function.update_self]

/-! ## The tree below a proxy -/

/-- `RouteService` and `OutboundDispatch`, the children of a `ProxyService`. -/
structure ServiceTree where
  table : RouteTable
  geo : GeoMatcher
  outbounds : OutboundMap Outbound
  freedomTag : Option String

/-- The tag a decision stands for. -/
def RouteDecision.tag (freedomTag : Option String) : RouteDecision → Option String
  | .outbound tag => some tag
  | .freedom => freedomTag
  | .blackhole => none

/-- `OutboundDispatch::call`.  An unknown tag drops the link like a blackhole. -/
def ServiceTree.dispatch (tree : ServiceTree) (decision : RouteDecision) (target : Destination)
    (link : Link) (dialer : Dialer) : Processed :=
  match decision.tag tree.freedomTag with
  | none => .drop link
  | some tag =>
    match tree.outbounds tag with
    | none => .drop link
    | some ob => ob.process target link dialer

/-- `RouteService::call` for a flow, with the cursors it has moved. -/
def ServiceTree.route (tree : ServiceTree) (draw : UInt64) (flow : ProxyDecision) :
    RouteDecision × ServiceTree :=
  let (decision, table) := tree.table.route draw (routeRequest flow.target flow.ctx) tree.geo
  (decision, { tree with table := table })

/-- `ProxyService::call`, from the proxy's decision on. -/
def ServiceTree.serve (tree : ServiceTree) (draw : UInt64) (flow : ProxyDecision) (dialer : Dialer) :
    Processed × ServiceTree :=
  let (decision, tree') := tree.route draw flow
  (tree.dispatch decision flow.target flow.link dialer, tree')

/-- The tree after the given flows. -/
def ServiceTree.after (tree : ServiceTree) (flows : List (UInt64 × ProxyDecision)) : ServiceTree :=
  flows.foldl (fun tree flow => (tree.route flow.1 flow.2).2) tree

/-- The target of `noop_decision`: `0.0.0.0:0` of an unknown network. -/
def noopTarget : Destination := ⟨.unknown, .ip (.v4 #v[0, 0, 0, 0]), 0⟩

/-- `noop_decision`, for a flow the proxy has serviced itself: the sentinel target
and one half of a pipe whose other half is gone. -/
def noopDecision (ctx : Ctx) : ProxyDecision :=
  ⟨noopTarget, ctx, ⟨(Chan.new Bytes 1).dropTx, (Chan.new Bytes 1).dropRx⟩⟩

/-! ## The sentinel in the tree -/

/-- The request the sentinel makes.  Conditions look at nothing else of it. -/
def noopQuery : RouteQuery := routeRequest noopTarget ⟨none, none, none⟩

/-- The tags the sentinel may be sent to: those of the first rule that matches
`0.0.0.0:0`, or else the tag of the default branch. -/
def ServiceTree.noopTags (tree : ServiceTree) : List String :=
  match tree.table.rules.find? (·.matchesQuery noopQuery tree.geo) with
  | some rule => rule.outs
  | none => (tree.table.default.tag tree.freedomTag).toList

/-- None of these tags names an upstream proxy. -/
def ServiceTree.DropsNoop (tree : ServiceTree) : Prop :=
  ∀ tag ∈ tree.noopTags, ∀ ob, tree.outbounds tag = some ob → ¬ ob.IsUpstream

section Noop

variable {tree : ServiceTree} {draw : UInt64} {ctx : Ctx} {dialer : Dialer}

theorem ServiceTree.serve_fst (tree : ServiceTree) (flow : ProxyDecision) :
    (tree.serve draw flow dialer).1 =
      tree.dispatch (tree.route draw flow).1 flow.target flow.link dialer := rfl

/-- Who sends the sentinel makes no difference to the rules. -/
theorem noop_matchesQuery (rule : MatchRule) (geo : GeoMatcher) (ctx : Ctx) :
    rule.matchesQuery (routeRequest noopTarget ctx) geo = rule.matchesQuery noopQuery geo := rfl

/-- The sentinel is decided by the first rule that matches it. -/
theorem ServiceTree.route_noop_some {rule : MatchRule}
    (h : tree.table.rules.find? (·.matchesQuery noopQuery tree.geo) = some rule) :
    (tree.route draw (noopDecision ctx)).1 =
      (rule.decide draw (routeRequest noopTarget ctx)).1 := by
  simp only [← noop_matchesQuery _ _ ctx] at h
  refine (RouteTable.route_fst ..).trans ?_
  simp only [noopDecision, h]

/-- If there is none, it takes the default branch. -/
theorem ServiceTree.route_noop_none
    (h : tree.table.rules.find? (·.matchesQuery noopQuery tree.geo) = none) :
    (tree.route draw (noopDecision ctx)).1 = tree.table.default := by
  simp only [← noop_matchesQuery _ _ ctx] at h
  refine (RouteTable.route_fst ..).trans ?_
  simp only [noopDecision, h]

/-- It is sent to one of its tags, or to none. -/
theorem ServiceTree.route_noop_tag {tag : String}
    (h : (tree.route draw (noopDecision ctx)).1.tag tree.freedomTag = some tag) :
    tag ∈ tree.noopTags := by
  unfold ServiceTree.noopTags
  cases hfind : tree.table.rules.find? (·.matchesQuery noopQuery tree.geo) with
  | none =>
    rw [tree.route_noop_none hfind] at h
    exact Option.mem_toList.mpr h
  | some rule =>
    rw [tree.route_noop_some hfind] at h
    rcases rule.decide_cases draw (routeRequest noopTarget ctx) with hb | ⟨t, ht, hd⟩
    · rw [hb] at h
      cases h
    · rw [hd] at h
      obtain rfl := Option.some.inj h
      exact ht

/-- An outbound drops the sentinel unless it is an upstream proxy. -/
theorem Outbound.process_noop (ob : Outbound) (link : Link) (h : ¬ ob.IsUpstream) :
    ob.process noopTarget link dialer = .drop link := by
  cases ob with
  | freedom => rfl
  | blackhole => rfl
  | shadowsocks ob => exact absurd trivial h
  | socks ob => exact absurd trivial h

/-- An upstream proxy dials. -/
theorem Outbound.process_dials {ob : Outbound} (h : ob.IsUpstream) (target : Destination)
    (link : Link) : (ob.process target link dialer).dialed ≠ [] := by
  have hdial : ∀ dest relay, (dialThen dialer dest link relay).dialed ≠ [] := by
    intro dest relay
    unfold dialThen
    split <;> exact List.cons_ne_nil _ _
  cases ob with
  | freedom => exact h.elim
  | blackhole => exact h.elim
  | shadowsocks ob => exact hdial _ _
  | socks ob => exact hdial _ _

theorem ServiceTree.serve_noop (h : tree.DropsNoop) :
    (tree.serve draw (noopDecision ctx) dialer).1 = .drop (noopDecision ctx).link := by
  rw [tree.serve_fst]
  unfold ServiceTree.dispatch
  cases htag : (tree.route draw (noopDecision ctx)).1.tag tree.freedomTag with
  | none => rfl
  | some tag =>
    simp only
    cases hob : tree.outbounds tag with
    | none => rfl
    | some ob => exact ob.process_noop _ (h tag (tree.route_noop_tag htag) ob hob)

/-! ## Flows before it -/

theorem ServiceTree.after_eq (flows : List (UInt64 × ProxyDecision)) :
    ∀ tree : ServiceTree, (tree.after flows).geo = tree.geo ∧
      (tree.after flows).outbounds = tree.outbounds ∧
      (tree.after flows).freedomTag = tree.freedomTag ∧
      (tree.after flows).table.default = tree.table.default ∧
      (tree.after flows).table.rules.map MatchRule.config =
        tree.table.rules.map MatchRule.config := by
  induction flows with
  | nil => exact fun tree => ⟨rfl, rfl, rfl, rfl, rfl⟩
  | cons flow flows ih =>
    intro tree
    obtain ⟨h1, h2, h3, h4, h5⟩ := ih (tree.route flow.1 flow.2).2
    exact ⟨h1, h2, h3, h4, h5.trans (RouteTable.route_config tree.table)⟩

/-- **Earlier flows do not change where the sentinel may go.** -/
theorem ServiceTree.noopTags_after (tree : ServiceTree) (flows : List (UInt64 × ProxyDecision)) :
    (tree.after flows).noopTags = tree.noopTags := by
  obtain ⟨hgeo, -, hfree, hdefault, hconfig⟩ := tree.after_eq flows
  have hfind : ((tree.after flows).table.rules.find? (·.matchesQuery noopQuery tree.geo)).map
      MatchRule.config =
        (tree.table.rules.find? (·.matchesQuery noopQuery tree.geo)).map MatchRule.config :=
    find?_config hconfig
  unfold ServiceTree.noopTags
  rw [hgeo, hfree, hdefault]
  cases h : tree.table.rules.find? (·.matchesQuery noopQuery tree.geo) with
  | none =>
    rw [h] at hfind
    rw [Option.map_eq_none_iff.mp hfind]
  | some rule =>
    rw [h] at hfind
    obtain ⟨rule', hrule, hcfg⟩ := Option.map_eq_some_iff.mp hfind
    rw [hrule]
    exact MatchRule.outs_of_config hcfg

theorem ServiceTree.dropsNoop_after (h : tree.DropsNoop) (flows : List (UInt64 × ProxyDecision)) :
    (tree.after flows).DropsNoop := by
  unfold ServiceTree.DropsNoop
  rw [tree.noopTags_after, (tree.after_eq flows).2.1]
  exact h

/-! ## Every tag of the rule is reached -/

/-- The balancer's cursor after `k` more sentinels. -/
theorem ServiceTree.after_replicate (ctx : Ctx) : ∀ (k : Nat) {tree : ServiceTree} {rule : MatchRule},
    tree.table.rules.find? (·.matchesQuery noopQuery tree.geo) = some rule →
    rule.balancer.mode = .roundRobin → 2 ≤ rule.outs.length →
    ∃ rule', (tree.after (.replicate k (0, noopDecision ctx))).table.rules.find?
        (·.matchesQuery noopQuery tree.geo) = some rule' ∧ rule'.config = rule.config ∧
      rule'.balancer.cursor = rule.balancer.cursor + .ofNat k
  | 0, _, rule, hfind, _, _ => ⟨rule, hfind, rfl, (UInt64.add_zero _).symm⟩
  | k + 1, tree, rule, hfind, hmode, hlen => by
    have hnext : (tree.route 0 (noopDecision ctx)).2.table.rules.find?
        (·.matchesQuery noopQuery (tree.route 0 (noopDecision ctx)).2.geo) =
          some (rule.decide 0 (routeRequest noopTarget ctx)).2 :=
      RouteTable.route_find? (q := routeRequest noopTarget ctx) hfind
    have hcursor : (rule.decide 0 (routeRequest noopTarget ctx)).2.balancer.cursor =
        rule.balancer.cursor + 1 := by
      have hne : rule.outs.length ≠ 0 := by omega
      rw [MatchRule.decide_of_two_le hlen]
      simp only [LoadBalancer.pick, hmode, if_neg hne]
    have hcfg : (rule.decide 0 (routeRequest noopTarget ctx)).2.config = rule.config :=
      rule.decide_config
    have hmode' := (congrArg (fun c => c.2.2) hcfg).trans hmode
    have hlen' := MatchRule.outs_of_config hcfg ▸ hlen
    obtain ⟨rule', hfind', hcfg', hcur'⟩ := after_replicate ctx k hnext hmode' hlen'
    refine ⟨rule', hfind', hcfg'.trans hcfg, ?_⟩
    rw [hcur', hcursor, UInt64.add_assoc, UInt64.ofNat_add, UInt64.add_comm 1]
    rfl

theorem decisionAt_of_getElem? {outs : List String} {i : Nat} {tag : String}
    (h : outs[i]? = some tag) : decisionAt outs (some i) = .outbound tag := by
  simp only [decisionAt, Option.bind_some, h]

/-- Each mode can be brought to pick a given index: by the number drawn, by the
user, or by the flows before. -/
theorem ServiceTree.reaches_index {rule : MatchRule} {i : Nat} {tag : String}
    (hfind : tree.table.rules.find? (·.matchesQuery noopQuery tree.geo) = some rule)
    (hlen : 2 ≤ rule.outs.length) (hget : rule.outs[i]? = some tag) :
    ∃ flows draw ctx, ((tree.after flows).route draw (noopDecision ctx)).1 = .outbound tag := by
  have hi : i < rule.outs.length := (List.getElem?_eq_some_iff.mp hget).1
  have hword : (UInt64.ofNat i).toNat = i :=
    UInt64.toNat_ofNat_of_lt' (Nat.lt_trans (Nat.lt_trans hi rule.outs_fit) (by decide))
  have hne : rule.outs.length ≠ 0 := by omega
  have hmod : (UInt64.ofNat i).toNat % rule.outs.length = i := by
    rw [hword, Nat.mod_eq_of_lt hi]
  cases hmode : rule.balancer.mode with
  | random =>
    refine ⟨[], .ofNat i, ⟨none, none, none⟩, (tree.route_noop_some hfind).trans ?_⟩
    simp only [MatchRule.decide_of_two_le hlen, LoadBalancer.pick, if_neg hne, hmode, hmod]
    exact decisionAt_of_getElem? hget
  | userAuthHash =>
    refine ⟨[], 0, ⟨none, none, some (.ofNat i)⟩, (tree.route_noop_some hfind).trans ?_⟩
    simp only [MatchRule.decide_of_two_le hlen, LoadBalancer.pick, if_neg hne, hmode, routeRequest,
      Option.getD_some, hmod]
    exact decisionAt_of_getElem? hget
  | roundRobin =>
    -- as many sentinels as bring the cursor to `i`
    have hgap : rule.balancer.cursor + .ofNat (UInt64.ofNat i - rule.balancer.cursor).toNat =
        UInt64.ofNat i := by
      rw [UInt64.ofNat_toNat, UInt64.add_comm, UInt64.sub_add_cancel]
    obtain ⟨rule', hfind', hcfg, hcur⟩ := ServiceTree.after_replicate ⟨none, none, none⟩
      (UInt64.ofNat i - rule.balancer.cursor).toNat hfind hmode hlen
    rw [hgap] at hcur
    have houts := MatchRule.outs_of_config hcfg
    have hmode' : rule'.balancer.mode = .roundRobin := (congrArg (fun c => c.2.2) hcfg).trans hmode
    rw [← (tree.after_eq _).1] at hfind'
    refine ⟨_, 0, ⟨none, none, none⟩, (ServiceTree.route_noop_some hfind').trans ?_⟩
    simp only [MatchRule.decide_of_two_le (houts ▸ hlen), LoadBalancer.pick, houts, if_neg hne,
      hmode', hcur, hmod]
    exact decisionAt_of_getElem? hget

/-- **Every tag of the sentinel is reached** by some flow after some others. -/
theorem ServiceTree.reaches {tag : String} (h : tag ∈ tree.noopTags) :
    ∃ flows draw ctx, ((tree.after flows).route draw (noopDecision ctx)).1.tag tree.freedomTag =
      some tag := by
  unfold ServiceTree.noopTags at h
  cases hfind : tree.table.rules.find? (·.matchesQuery noopQuery tree.geo) with
  | none =>
    simp only [hfind] at h
    refine ⟨[], 0, ⟨none, none, none⟩, ?_⟩
    rw [ServiceTree.after, List.foldl_nil, tree.route_noop_none hfind]
    exact Option.mem_toList.mp h
  | some rule =>
    simp only [hfind] at h
    obtain ⟨i, hget⟩ := List.mem_iff_getElem?.mp h
    by_cases hlen : 2 ≤ rule.outs.length
    · obtain ⟨flows, draw, ctx, hroute⟩ := ServiceTree.reaches_index hfind hlen hget
      exact ⟨flows, draw, ctx, by rw [hroute]; rfl⟩
    · -- the only tag of the rule
      have hone : rule.outs.length = 1 := by
        have := List.length_pos_of_mem h
        omega
      obtain ⟨t, ht⟩ := List.length_eq_one_iff.mp hone
      rw [ht, List.mem_singleton] at h
      refine ⟨[], 0, ⟨none, none, none⟩, ?_⟩
      rw [ServiceTree.after, List.foldl_nil, tree.route_noop_some hfind, h,
        MatchRule.decide_of_singleton ht]
      rfl

/-- **When a self-serviced flow is dropped.**  Whatever flows came before, whatever
is drawn and whoever the user is, the tree drops the link of a self-serviced flow
without calling the dialer: exactly when none of the tags the sentinel may be
sent to names an upstream proxy. -/
theorem noop_dropped_iff (tree : ServiceTree) :
    (∀ (earlier : List (UInt64 × ProxyDecision)) (draw : UInt64) (ctx : Ctx) (dialer : Dialer),
      ((tree.after earlier).serve draw (noopDecision ctx) dialer).1 =
        .drop (noopDecision ctx).link) ↔
    tree.DropsNoop := by
  constructor
  · intro h tag htag ob hob hup
    obtain ⟨flows, draw, ctx, hroute⟩ := ServiceTree.reaches htag
    obtain ⟨-, houts, hfree, -, -⟩ := tree.after_eq flows
    have hdrop := congrArg Processed.dialed (h flows draw ctx fun _ => .error earlyEof)
    rw [ServiceTree.serve_fst, ServiceTree.dispatch, hfree, hroute] at hdrop
    simp only [houts, hob] at hdrop
    exact Outbound.process_dials hup _ _ hdrop
  · intro h earlier draw ctx dialer
    exact ServiceTree.serve_noop (tree.dropsNoop_after h earlier)

end Noop

/-- A catch-all rule in front of a SOCKS upstream. -/
def socksCatchAll : ServiceTree where
  table := .new [⟨[.any], ["up"], .new .random, by decide⟩] none
  geo := NoGeo
  outbounds := OutboundList.build
    [("direct", .freedom), ("up", .socks ⟨.tcp (.domain "proxy.example") 1080, "", ""⟩)]
  freedomTag := some "direct"

/-- There a self-serviced flow makes the tree dial the upstream server. -/
theorem noop_dials_upstream :
    (socksCatchAll.serve 0 (noopDecision ⟨none, none, none⟩) fun _ => .error earlyEof).1.dialed =
      [.tcp (.domain "proxy.example") 1080] := by
  decide

end XrayRs
