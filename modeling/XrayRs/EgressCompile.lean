import XrayRs.ServiceTree

/-! # The panel server's egress compiler

`saas/src/egress_compile.rs` over the config of `saas/src/egress_config.rs`: a list of
blocks, each with matchers and an outbound, is compiled to a route table and a set of
outbounds that are tied together by generated tags.  Blocks fall out on the way: those
without an effective matcher before their outbound is looked at, those with matchers
that the router does not know after it.

`interpret` says what a config means without tables and tags; the compiler keeps that
meaning (`compile_preserves`). -/

namespace XrayRs.Egress

open Text

/-! ## The config -/

/-- `OutSpec`. -/
inductive OutSpec
  | direct
  | block
  | shadowsocks (server : String) (port : UInt16) (password cipher : String)
  | socks (server : String) (port : UInt16) (username password : String)
  deriving DecidableEq

/-- `RouteBlock`. -/
structure RouteBlock where
  rules : List String
  outs : List OutSpec
  deriving DecidableEq

/-- `EgressConfig`. -/
structure EgressConfig where
  enable : Bool
  routes : List RouteBlock
  deriving DecidableEq

/-! ## The compiler -/

/-- `RuleExpr`. -/
inductive RuleExpr
  | domainSuffix (s : String)
  | domainFull (s : String)
  | domainKeyword (s : String)
  | geoSite (s : String)
  | geoIp (s : String)
  | catchAll
  deriving DecidableEq

/-- `nonempty`. -/
def nonempty (s : List Char) : Option String :=
  if trim s = [] then none else some (.ofList (trim s))

/-- `parse_rule_expr`. -/
def parseRuleExpr (raw : String) : Option RuleExpr :=
  let s := trim raw.toList
  if s = [] ∨ startsWith ['#'] s then none
  else if s = ['*'] then some .catchAll
  else if let some rest := stripPrefix "domain:".toList s then
    (nonempty rest).map .domainSuffix
  else if let some rest := stripPrefix "suffix:".toList s then
    (nonempty rest).map .domainSuffix
  else if let some rest := stripPrefix "full:".toList s then
    (nonempty rest).map .domainFull
  else if let some rest := stripPrefix "keyword:".toList s then
    (nonempty rest).map .domainKeyword
  else if let some rest := stripPrefix "geosite:".toList s then
    (nonempty rest).map .geoSite
  else if let some rest := stripPrefix "geoip:".toList s then
    (nonempty rest).map .geoIp
  else (nonempty s).map .domainSuffix

/-- `NormalizedRoute`. -/
structure NormalizedRoute where
  tag : String
  rules : List RuleExpr
  deriving DecidableEq

/-- `NamedOutbound`. -/
structure NamedOutbound where
  tag : String
  spec : OutSpec
  deriving DecidableEq

/-- `NormalizedEgress`. -/
structure NormalizedEgress where
  defaultTag : String
  routes : List NormalizedRoute
  outbounds : List NamedOutbound
  deriving DecidableEq

/-- `{idx:03}`: at least three digits. -/
def padded (idx : Nat) : List Char :=
  List.replicate (3 - (Nat.toDigits 10 idx).length) '0' ++ Nat.toDigits 10 idx

/-- `format!("route-{idx:03}")`. -/
def routeTag (idx : Nat) : String := .ofList ("route-".toList ++ padded idx)

/-- The tag of the outbound for the default branch. -/
def directTag : String := "default-direct"

/-- The loop of `normalize`, from the block with number `idx` on. -/
def normalizeFrom (idx : Nat) :
    List RouteBlock → Except String (List NormalizedRoute × List NamedOutbound)
  | [] => .ok ([], [])
  | route :: blocks =>
    let tag := routeTag idx
    let rules := route.rules.filterMap parseRuleExpr
    if rules = [] then normalizeFrom (idx + 1) blocks
    else
      match route.outs with
      | [spec] => do
        let (routes, outbounds) ← normalizeFrom (idx + 1) blocks
        return (⟨tag, rules⟩ :: routes, ⟨tag, spec⟩ :: outbounds)
      | outs =>
        let count := outs.length
        .error s!"egress route {tag} must have exactly one [[routes.Outs]] entry; got {count}"

/-- `normalize`. -/
def normalize (cfg : EgressConfig) : Except String NormalizedEgress := do
  let (routes, outbounds) ← normalizeFrom 0 cfg.routes
  return ⟨directTag, routes, outbounds ++ [⟨directTag, .direct⟩]⟩

/-- What the loop of `rule_conditions` makes of a matcher.  The router has no exact match
of domains and none by keyword. -/
def RuleExpr.condition : RuleExpr → Option Condition
  | .domainSuffix s => some (.domainSuffix (lowercase s))
  | .domainFull s => some (.domainSuffix (lowercase s))
  | .domainKeyword _ => none
  | .geoSite name => some (.geoSite name)
  | .geoIp name => some (.geoIp name)
  | .catchAll => some .any

/-- `rule_conditions`. -/
def ruleConditions (exprs : List RuleExpr) : List Condition := exprs.filterMap RuleExpr.condition

/-- `CompiledEgress`. -/
structure CompiledEgress where
  freedomTag : Option String
  routeTable : RouteTable
  outbounds : List (String × Outbound)
  deriving DecidableEq

/-- The rule of a route, if the router knows one of its matchers. -/
def NormalizedRoute.rule (route : NormalizedRoute) : Option MatchRule :=
  let conds := ruleConditions route.rules
  if conds = [] then none
  else some ⟨conds, [route.tag], .new .random, Nat.lt_of_le_of_lt (Nat.le_refl 1) (by decide)⟩

section Compile

variable (P : Primitives)

/-- `compile_outbound`. -/
def compileOutbound : OutSpec → Except String Outbound
  | .direct => .ok .freedom
  | .block => .ok .blackhole
  | .shadowsocks server port password cipher =>
    match Ss.SsOutbound.new P (.parse server) port password cipher with
    | .ok ob => .ok (.shadowsocks ob)
    | .error e => .error s!"shadowsocks outbound: {e}"
  | .socks server port username password =>
    .ok (.socks ⟨.tcp (.parse server) port, username, password⟩)

/-- The loop of `compile_normalized` over the outbounds. -/
def compileOutbounds : List NamedOutbound → Except String (List (String × Outbound))
  | [] => .ok []
  | named :: rest => do
    let ob ← compileOutbound P named.spec
    let obs ← compileOutbounds rest
    return (named.tag, ob) :: obs

/-- `compile_normalized`. -/
def compileNormalized (normalized : NormalizedEgress) : Except String CompiledEgress := do
  let outbounds ← compileOutbounds P normalized.outbounds
  return ⟨some normalized.defaultTag,
    .new (normalized.routes.filterMap NormalizedRoute.rule) none, outbounds⟩

/-- `compile`. -/
def compile (cfg : EgressConfig) : Except String CompiledEgress :=
  if !cfg.enable then .ok ⟨some directTag, .new [] none, [(directTag, .freedom)]⟩
  else do compileNormalized P (← normalize cfg)

end Compile

/-- The outbound that a flow is sent to: the decision of the table, looked up by its tag. -/
def CompiledEgress.outboundFor (c : CompiledEgress) (draw : UInt64) (q : RouteQuery)
    (geo : GeoMatcher) : Option Outbound :=
  ((c.routeTable.route draw q geo).1.tag c.freedomTag).bind (OutboundList.build c.outbounds)

/-! ## What a config means -/

instance (d x : String) : Decidable (IsWithin d x) :=
  decidable_of_iff _ (domainSuffixMatch_iff d x)

/-- The flow's domain is `x` or a subdomain of it, for an `x` that is not empty. -/
def hitsDomain (q : RouteQuery) (x : List Char) : Bool :=
  x ≠ [] && q.domain.any fun d => decide (IsWithin d (.ofList x))

/-- The geosite category `x` has the flow's domain. -/
def hitsSite (geo : GeoMatcher) (q : RouteQuery) (x : List Char) : Bool :=
  x ≠ [] && q.domain.any (geo.siteContains (.ofList x))

/-- The geoip country `x` has the flow's address. -/
def hitsIp (geo : GeoMatcher) (q : RouteQuery) (x : List Char) : Bool :=
  x ≠ [] && match q.target.address with
    | .ip addr => geo.ipContains (.ofList x) addr
    | .domain _ => false

/-- **When a matcher hits a flow**, by its text. -/
def ruleHits (geo : GeoMatcher) (q : RouteQuery) (raw : String) : Bool :=
  let s := trim raw.toList
  if s = [] ∨ s.head? = some '#' then false
  else if s = ['*'] then true
  else if let some x := ["domain:", "suffix:", "full:"].findSome? (stripPrefix ·.toList s) then
    hitsDomain q (trim x)
  else if startsWith "keyword:".toList s then false
  else if let some x := stripPrefix "geosite:".toList s then hitsSite geo q (trim x)
  else if let some x := stripPrefix "geoip:".toList s then hitsIp geo q (trim x)
  else hitsDomain q s

/-- One of the block's matchers hits. -/
def RouteBlock.hits (geo : GeoMatcher) (q : RouteQuery) (block : RouteBlock) : Bool :=
  block.rules.any (ruleHits geo q)

/-- **The reference interpreter**: the outbound of the first block with a matcher that
hits, else direct. -/
def interpret (cfg : EgressConfig) (geo : GeoMatcher) (q : RouteQuery) : Option OutSpec :=
  if cfg.enable then
    match cfg.routes.find? (·.hits geo q) with
    | some block => block.outs.head?
    | none => some .direct
  else some .direct

/-! ## Matchers -/

section Matchers

variable (geo : GeoMatcher) (q : RouteQuery)

/-- A matcher of a domain becomes a condition on it. -/
theorem domain_hit {f : String → RuleExpr}
    (hf : ∀ s, (f s).condition = some (.domainSuffix (lowercase s))) (rest : List Char) :
    (((nonempty rest).map f).bind RuleExpr.condition).any (·.matchesQuery q geo) =
      hitsDomain q (trim rest) := by
  unfold nonempty
  by_cases hnil : trim rest = []
  · simp [hnil, hitsDomain]
  · have hwithin : ∀ d, domainSuffixMatch d (lowercase (.ofList (trim rest))) =
        decide (IsWithin d (.ofList (trim rest))) := by
      intro d
      rw [Bool.eq_iff_iff, domainSuffixMatch_iff, decide_eq_true_iff, IsWithin, IsWithin,
        lowerBytes_lowercase]
    simp [hnil, hf, hitsDomain, Condition.matchesQuery, hwithin]

theorem site_hit (rest : List Char) :
    (((nonempty rest).map RuleExpr.geoSite).bind RuleExpr.condition).any (·.matchesQuery q geo) =
      hitsSite geo q (trim rest) := by
  unfold nonempty
  by_cases hnil : trim rest = []
  · simp [hnil, hitsSite]
  · simp [hnil, hitsSite, RuleExpr.condition, Condition.matchesQuery]

theorem ip_hit (rest : List Char) :
    (((nonempty rest).map RuleExpr.geoIp).bind RuleExpr.condition).any (·.matchesQuery q geo) =
      hitsIp geo q (trim rest) := by
  unfold nonempty
  by_cases hnil : trim rest = []
  · simp [hnil, hitsIp]
  · cases htarget : q.target.address with
    | ip addr => simp [hnil, hitsIp, RuleExpr.condition, Condition.matchesQuery, htarget]
    | domain name => simp [hnil, hitsIp, RuleExpr.condition, Condition.matchesQuery, htarget]

theorem keyword_hit (rest : List Char) :
    (((nonempty rest).map RuleExpr.domainKeyword).bind RuleExpr.condition).any
      (·.matchesQuery q geo) = false := by
  unfold nonempty
  by_cases hnil : trim rest = []
  · simp [hnil]
  · simp [hnil, RuleExpr.condition]

theorem startsWith_comment (s : List Char) : startsWith ['#'] s = true ↔ s.head? = some '#' := by
  rw [startsWith_iff, List.head?_eq_some_iff]
  rfl

/-- **A matcher's condition matches where its text says so.** -/
theorem ruleHits_eq (raw : String) :
    ruleHits geo q raw =
      ((parseRuleExpr raw).bind RuleExpr.condition).any (·.matchesQuery q geo) := by
  unfold ruleHits parseRuleExpr
  simp only
  have htrim : trim (trim raw.toList) = trim raw.toList := trim_trim _
  generalize trim raw.toList = s at htrim ⊢
  by_cases hskip : s = [] ∨ s.head? = some '#'
  · have hskip' : s = [] ∨ startsWith ['#'] s = true := by rwa [startsWith_comment]
    simp only [hskip, hskip', if_true, Option.bind_none, Option.any_none]
  have hskip' : ¬ (s = [] ∨ startsWith ['#'] s = true) := by rwa [startsWith_comment]
  by_cases hstar : s = ['*']
  · subst hstar
    rfl
  simp only [hskip, hskip', hstar, if_false, List.findSome?]
  cases stripPrefix "domain:".toList s with
  | some rest => exact (domain_hit geo q (fun _ => rfl) rest).symm
  | none =>
  cases stripPrefix "suffix:".toList s with
  | some rest => exact (domain_hit geo q (fun _ => rfl) rest).symm
  | none =>
  cases stripPrefix "full:".toList s with
  | some rest => exact (domain_hit geo q (fun _ => rfl) rest).symm
  | none =>
  by_cases hkeyword : startsWith "keyword:".toList s = true
  · obtain ⟨rest, rfl⟩ := startsWith_iff.mp hkeyword
    simp only [hkeyword, if_true, stripPrefix_append]
    exact (keyword_hit geo q rest).symm
  simp only [hkeyword, Bool.false_eq_true, if_false, stripPrefix_of_not hkeyword]
  cases stripPrefix "geosite:".toList s with
  | some rest => exact (site_hit geo q rest).symm
  | none =>
  cases stripPrefix "geoip:".toList s with
  | some rest => exact (ip_hit geo q rest).symm
  | none =>
    have hbare := (domain_hit (f := .domainSuffix) geo q (fun _ => rfl) s).symm
    rwa [htrim] at hbare

/-- A block's conditions match where one of its matchers hits. -/
theorem conditions_hit (block : RouteBlock) :
    (ruleConditions (block.rules.filterMap parseRuleExpr)).any (·.matchesQuery q geo) =
      block.hits geo q := by
  unfold ruleConditions RouteBlock.hits
  induction block.rules with
  | nil => rfl
  | cons raw rules ih =>
    rw [List.any_cons, ruleHits_eq, ← ih]
    cases hexpr : parseRuleExpr raw with
    | none => rw [List.filterMap_cons_none hexpr]; rfl
    | some expr =>
      rw [List.filterMap_cons_some hexpr]
      cases hcond : expr.condition with
      | none => rw [List.filterMap_cons_none hcond, Option.bind_some, hcond]; rfl
      | some cond => rw [List.filterMap_cons_some hcond, Option.bind_some, hcond]; rfl

/-- The rule of a route matches where the block hits, and leads to the route's tag. -/
theorem rule_hit (tag : String) (block : RouteBlock) :
    match NormalizedRoute.rule ⟨tag, block.rules.filterMap parseRuleExpr⟩ with
    | some rule => rule.outs = [tag] ∧ rule.matchesQuery q geo = block.hits geo q
    | none => block.hits geo q = false := by
  have hhit := conditions_hit geo q block
  unfold NormalizedRoute.rule
  simp only
  by_cases hnil : ruleConditions (block.rules.filterMap parseRuleExpr) = []
  · rw [if_pos hnil]
    rw [hnil] at hhit
    exact hhit.symm
  · rw [if_neg hnil]
    exact ⟨rfl, hhit⟩

end Matchers

/-! ## Tags -/

theorem parseDigits_padded (idx : Nat) : parseDigits 0 (padded idx) = some idx := by
  have hzeros : ∀ n : Nat, parseDigits 0 (List.replicate n '0') = some 0 := by
    intro n
    induction n with
    | zero => rfl
    | succ n ih => exact ih
  rw [padded, parseDigits_append, hzeros]
  exact parseDigits_toDigits idx

theorem routeTag_toList (idx : Nat) : (routeTag idx).toList = "route-".toList ++ padded idx :=
  String.toList_ofList

/-- Different blocks have different tags. -/
theorem routeTag_injective : Function.Injective routeTag := by
  intro i j h
  have htext := congrArg String.toList h
  rw [routeTag_toList, routeTag_toList] at htext
  have hparse := congrArg (parseDigits 0) (List.append_cancel_left htext)
  rw [parseDigits_padded, parseDigits_padded] at hparse
  exact Option.some.inj hparse

theorem routeTag_ne_directTag (idx : Nat) : routeTag idx ≠ directTag := by
  intro h
  have hhead := congrArg (fun s : String => s.toList.head?) h
  simp only [routeTag_toList] at hhead
  exact absurd hhead (by simp [directTag])

/-! ## The passes -/

/-- What the loop of `normalize` does with a block. -/
theorem normalizeFrom_cons {idx : Nat} {block : RouteBlock} {blocks : List RouteBlock}
    {routes : List NormalizedRoute} {named : List NamedOutbound}
    (h : normalizeFrom idx (block :: blocks) = .ok (routes, named)) :
    (block.rules.filterMap parseRuleExpr = [] ∧
        normalizeFrom (idx + 1) blocks = .ok (routes, named)) ∨
      ∃ spec routes' named', block.outs = [spec] ∧
        normalizeFrom (idx + 1) blocks = .ok (routes', named') ∧
        routes = ⟨routeTag idx, block.rules.filterMap parseRuleExpr⟩ :: routes' ∧
        named = ⟨routeTag idx, spec⟩ :: named' := by
  unfold normalizeFrom at h
  simp only at h
  by_cases hnil : block.rules.filterMap parseRuleExpr = []
  · rw [if_pos hnil] at h
    exact .inl ⟨hnil, h⟩
  · rw [if_neg hnil] at h
    split at h
    · next spec hspec =>
      obtain ⟨⟨routes', named'⟩, hrest, h⟩ := Except.bind_eq_ok h
      obtain ⟨rfl, rfl⟩ := Prod.mk.inj (Except.ok.inj h)
      exact .inr ⟨spec, routes', named', hspec, hrest, rfl, rfl⟩
    · cases h

/-- The tags of the loop are those of the blocks from its number on. -/
theorem normalizeFrom_tags : ∀ {blocks : List RouteBlock} {idx : Nat}
    {routes : List NormalizedRoute} {named : List NamedOutbound},
    normalizeFrom idx blocks = .ok (routes, named) →
      (∀ tag ∈ named.map NamedOutbound.tag, ∃ k, idx ≤ k ∧ tag = routeTag k) ∧
        (named.map NamedOutbound.tag).Nodup
  | [], idx, routes, named, h => by
    obtain ⟨rfl, rfl⟩ := Prod.mk.inj (Except.ok.inj h)
    exact ⟨nofun, List.nodup_nil⟩
  | block :: blocks, idx, routes, named, h => by
    rcases normalizeFrom_cons h with ⟨-, hrest⟩ | ⟨spec, routes', named', -, hrest, -, rfl⟩
    · obtain ⟨htags, hnodup⟩ := normalizeFrom_tags hrest
      refine ⟨fun tag htag => ?_, hnodup⟩
      obtain ⟨k, hk, rfl⟩ := htags tag htag
      exact ⟨k, by omega, rfl⟩
    · obtain ⟨htags, hnodup⟩ := normalizeFrom_tags hrest
      rw [List.map_cons]
      refine ⟨List.forall_mem_cons.mpr ⟨⟨idx, le_refl idx, rfl⟩, fun tag htag => ?_⟩,
        List.nodup_cons.mpr ⟨fun hmem => ?_, hnodup⟩⟩
      · obtain ⟨k, hk, rfl⟩ := htags tag htag
        exact ⟨k, by omega, rfl⟩
      · obtain ⟨k, hk, heq⟩ := htags _ hmem
        have := routeTag_injective heq
        omega

/-- What a flow finds in the config and in the table: a block and a rule that leads to the
block's outbound, or nothing. -/
def SameFind (named : List NamedOutbound) : Option RouteBlock → Option MatchRule → Prop
  | some block, some rule => ∃ spec tag, block.outs = [spec] ∧ rule.outs = [tag] ∧ ⟨tag, spec⟩ ∈ named
  | none, none => True
  | _, _ => False

theorem SameFind.mono {named named' : List NamedOutbound} (hsub : named ⊆ named')
    {block : Option RouteBlock} {rule : Option MatchRule} (h : SameFind named block rule) :
    SameFind named' block rule := by
  match block, rule, h with
  | some _, some _, ⟨spec, tag, hspec, htag, hmem⟩ => exact ⟨spec, tag, hspec, htag, hsub hmem⟩
  | none, none, _ => trivial

/-- **The first rule is that of the first block**, whatever blocks have fallen out before
it. -/
theorem normalizeFrom_find (geo : GeoMatcher) (q : RouteQuery) :
    ∀ {blocks : List RouteBlock} {idx : Nat} {routes : List NormalizedRoute}
      {named : List NamedOutbound}, normalizeFrom idx blocks = .ok (routes, named) →
      SameFind named (blocks.find? (·.hits geo q))
        ((routes.filterMap NormalizedRoute.rule).find? (·.matchesQuery q geo))
  | [], idx, routes, named, h => by
    obtain ⟨rfl, rfl⟩ := Prod.mk.inj (Except.ok.inj h)
    trivial
  | block :: blocks, idx, routes, named, h => by
    rw [List.find?_cons]
    rcases normalizeFrom_cons h with ⟨hnil, hrest⟩ | ⟨spec, routes', named', hspec, hrest, rfl, rfl⟩
    · -- without an effective matcher the block hits nothing
      have hmiss := conditions_hit geo q block
      rw [hnil] at hmiss
      simp only [← hmiss]
      exact normalizeFrom_find geo q hrest
    · have ih := (normalizeFrom_find geo q hrest).mono (List.subset_cons_self ⟨routeTag idx, spec⟩ _)
      have hrule := rule_hit geo q (routeTag idx) block
      rw [List.filterMap_cons]
      cases hr : NormalizedRoute.rule ⟨routeTag idx, block.rules.filterMap parseRuleExpr⟩ with
      | none =>
        rw [hr] at hrule
        simp only at hrule
        simp only [hrule]
        exact ih
      | some rule =>
        rw [hr] at hrule
        obtain ⟨houts, hmatch⟩ := hrule
        simp only [List.find?_cons, hmatch]
        cases block.hits geo q with
        | true => exact ⟨spec, routeTag idx, hspec, houts, List.mem_cons_self⟩
        | false => exact ih

section Compile

variable {P : Primitives}

/-- The compiled outbounds keep their tags. -/
theorem compileOutbounds_tags : ∀ {named : List NamedOutbound} {obs : List (String × Outbound)},
    compileOutbounds P named = .ok obs → obs.map Prod.fst = named.map NamedOutbound.tag
  | [], obs, h => by
    obtain rfl := Except.ok.inj h
    rfl
  | _ :: _, obs, h => by
    obtain ⟨ob, -, h⟩ := Except.bind_eq_ok h
    obtain ⟨obs', hobs, h⟩ := Except.bind_eq_ok h
    obtain rfl := Except.ok.inj h
    rw [List.map_cons, List.map_cons, compileOutbounds_tags hobs]

theorem compileOutbounds_mem {tag : String} {spec : OutSpec} :
    ∀ {named : List NamedOutbound} {obs : List (String × Outbound)},
      compileOutbounds P named = .ok obs → ⟨tag, spec⟩ ∈ named →
        ∃ ob, compileOutbound P spec = .ok ob ∧ (tag, ob) ∈ obs
  | n :: named, obs, h, hmem => by
    obtain ⟨ob, hob, h⟩ := Except.bind_eq_ok h
    obtain ⟨obs', hobs, h⟩ := Except.bind_eq_ok h
    obtain rfl := Except.ok.inj h
    rcases List.mem_cons.mp hmem with rfl | hmem
    · exact ⟨ob, hob, List.mem_cons_self⟩
    · obtain ⟨ob', hob', hmem'⟩ := compileOutbounds_mem hobs hmem
      exact ⟨ob', hob', List.mem_cons_of_mem _ hmem'⟩

/-- Where the tags differ, every entry is the one its tag leads to. -/
theorem build_of_mem {obs : List (String × Outbound)} (hnodup : (obs.map Prod.fst).Nodup)
    {tag : String} {ob : Outbound} (hmem : (tag, ob) ∈ obs) :
    OutboundList.build obs tag = some ob := by
  obtain ⟨before, after, rfl⟩ := List.append_of_mem hmem
  apply OutboundList.build_of_last
  rw [List.map_append, List.map_cons] at hnodup
  intro item hitem heq
  have hafter := (List.nodup_cons.mp (List.nodup_append.mp hnodup).2.1).1
  have hlater : item.1 ∈ after.map Prod.fst := List.mem_map_of_mem hitem
  rw [heq] at hlater
  exact hafter hlater

/-- What a compiled config consists of, when it is enabled. -/
theorem compile_eq_ok {cfg : EgressConfig} {c : CompiledEgress} (henable : cfg.enable = true)
    (h : compile P cfg = .ok c) :
    ∃ routes named obs, normalizeFrom 0 cfg.routes = .ok (routes, named) ∧
      compileOutbounds P (named ++ [⟨directTag, .direct⟩]) = .ok obs ∧
      c = ⟨some directTag, .new (routes.filterMap NormalizedRoute.rule) none, obs⟩ := by
  unfold compile at h
  rw [henable] at h
  obtain ⟨normalized, hnorm, h⟩ := Except.bind_eq_ok h
  obtain ⟨⟨routes, named⟩, hloop, hnorm⟩ := Except.bind_eq_ok hnorm
  obtain rfl := Except.ok.inj hnorm
  obtain ⟨obs, hobs, h⟩ := Except.bind_eq_ok h
  exact ⟨routes, named, obs, hloop, hobs, (Except.ok.inj h).symm⟩

/-- The tags of the outbounds, the default one among them, are distinct. -/
theorem compile_nodup {cfg : EgressConfig} {c : CompiledEgress} (h : compile P cfg = .ok c) :
    (c.outbounds.map Prod.fst).Nodup := by
  cases henable : cfg.enable with
  | false =>
    rw [compile, henable] at h
    obtain rfl := Except.ok.inj h
    exact List.pairwise_singleton ..
  | true =>
    obtain ⟨routes, named, obs, hloop, hobs, rfl⟩ := compile_eq_ok henable h
    obtain ⟨htags, hnodup⟩ := normalizeFrom_tags hloop
    show (obs.map Prod.fst).Nodup
    rw [compileOutbounds_tags hobs, List.map_append, List.nodup_append]
    refine ⟨hnodup, List.pairwise_singleton .., ?_⟩
    intro tag htag tag' htag' heq
    obtain ⟨k, -, rfl⟩ := htags tag htag
    exact routeTag_ne_directTag k (heq.trans (List.mem_singleton.mp htag'))

/-- **The compiler keeps the meaning of a config.**  For every flow, whatever the geo oracle
says and whatever a balancer would draw, the table's decision leads to the compiled form
of the outbound that the config names for the flow; and no two outbounds bear the same
tag, the default one included. -/
theorem compile_preserves {cfg : EgressConfig} {c : CompiledEgress} (h : compile P cfg = .ok c) :
    (∀ (geo : GeoMatcher) (q : RouteQuery) (draw : UInt64), ∃ spec ob,
      interpret cfg geo q = some spec ∧ compileOutbound P spec = .ok ob ∧
        c.outboundFor draw q geo = some ob) ∧
      (c.outbounds.map Prod.fst).Nodup := by
  have hnodup := compile_nodup h
  refine ⟨fun geo q draw => ?_, hnodup⟩
  unfold interpret
  cases henable : cfg.enable with
  | false =>
    rw [compile, henable] at h
    obtain rfl := Except.ok.inj h
    exact ⟨.direct, .freedom, rfl, rfl, build_of_mem hnodup List.mem_cons_self⟩
  | true =>
    obtain ⟨routes, named, obs, hloop, hobs, rfl⟩ := compile_eq_ok henable h
    have hfind := normalizeFrom_find geo q hloop
    unfold CompiledEgress.outboundFor
    rw [RouteTable.route_fst]
    simp only [RouteTable.new, if_true]
    cases hblock : cfg.routes.find? (·.hits geo q) with
    | none =>
      cases hrule : (routes.filterMap NormalizedRoute.rule).find? (·.matchesQuery q geo) with
      | none =>
        obtain ⟨ob, hob, hmem⟩ := compileOutbounds_mem hobs
          (List.mem_append_right named List.mem_cons_self)
        exact ⟨.direct, ob, rfl, hob, build_of_mem hnodup hmem⟩
      | some rule => rw [hblock, hrule] at hfind; exact hfind.elim
    | some block =>
      cases hrule : (routes.filterMap NormalizedRoute.rule).find? (·.matchesQuery q geo) with
      | none => rw [hblock, hrule] at hfind; exact hfind.elim
      | some rule =>
        rw [hblock, hrule] at hfind
        obtain ⟨spec, tag, hspec, htag, hnamed⟩ := hfind
        obtain ⟨ob, hob, hmem⟩ := compileOutbounds_mem hobs (List.mem_append_left _ hnamed)
        refine ⟨spec, ob, by simp only [hspec, List.head?_cons], hob, ?_⟩
        simp only [MatchRule.decide_of_singleton htag]
        exact build_of_mem hnodup hmem

/-- A comment, a block that the router cannot match, and one that it can, with a matcher
in mixed case. -/
def sample : EgressConfig :=
  ⟨true, [⟨["#Only a label"], [.direct]⟩, ⟨["keyword:openai"], [.socks "10.0.0.1" 1080 "" ""]⟩,
    ⟨["geoip:cn", " Domain.example", "suffix: Netflix.COM "], [.block]⟩]⟩

theorem compile_preserves_sample :
    ∃ c, compile chachaPrimitives sample = .ok c ∧
      (∀ (geo : GeoMatcher) (q : RouteQuery) (draw : UInt64), ∃ spec ob,
        interpret sample geo q = some spec ∧ compileOutbound chachaPrimitives spec = .ok ob ∧
          c.outboundFor draw q geo = some ob) ∧
      (c.outbounds.map Prod.fst).Nodup := by
  have hcompile : compile chachaPrimitives sample = .ok ⟨some directTag,
      .new [⟨[.geoIp "cn", .domainSuffix "domain.example", .domainSuffix "netflix.com"],
        ["route-002"], .new .random, by decide⟩] none,
      [("route-001", .socks ⟨.tcp (.parse "10.0.0.1") 1080, "", ""⟩), ("route-002", .blackhole),
        (directTag, .freedom)]⟩ := by decide +kernel
  exact ⟨_, hcompile, compile_preserves hcompile⟩

end Compile

end XrayRs.Egress
