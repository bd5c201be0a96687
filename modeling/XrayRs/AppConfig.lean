import XrayRs.ServiceTree

/-! # The standalone server's routes and outbounds

`Config::build` (`app/src/config.rs`): the `[[outbound]]` and `[[route]]` entries
of a configuration file become the service tree every inbound shares.

A route entry becomes one rule, the *or* of its items: a domain item stands for a
name and its subdomains whether it is written `full:`, `suffix:`, `domain:` or
bare, and a `keyword:` item is dropped (`build_routes`).  The default branch goes
to the first `freedom` entry, or to the first entry if there is none
(`build_default`). -/

namespace XrayRs

open Text

/-! ## The schema -/

/-- `OutboundProtocolCfg`. -/
inductive OutboundProtocolCfg
  | freedom
  | blackhole
  deriving DecidableEq

/-- `OutboundProtocolCfg::default_tag`. -/
def OutboundProtocolCfg.defaultTag : OutboundProtocolCfg → String
  | .freedom => "freedom"
  | .blackhole => "blackhole"

/-- `OutboundCfg`. -/
structure OutboundCfg where
  tag : Option String
  protocol : OutboundProtocolCfg
  deriving DecidableEq

/-- `RouteCfg`: the selectors that the kernel router can express. -/
structure RouteCfg where
  outbound : String
  domain : List String
  ip : List String
  port : List String
  deriving DecidableEq

/-! ## Outbounds -/

/-- The tag an entry goes by. -/
def OutboundCfg.tagOf (ob : OutboundCfg) : String := ob.tag.getD ob.protocol.defaultTag

/-- The outbound an entry stands for. -/
def OutboundCfg.outbound (ob : OutboundCfg) : Outbound :=
  match ob.protocol with
  | .freedom => .freedom
  | .blackhole => .blackhole

/-- One turn of the outbound loop of `Config::build`. -/
def pushOutbound (acc : List (String × Outbound) × Option String) (ob : OutboundCfg) :
    List (String × Outbound) × Option String :=
  let (items, freedomTag) := acc
  let tag := ob.tagOf
  let freedomTag := match ob.protocol with
    | .freedom => if freedomTag.isNone then some tag else freedomTag
    | .blackhole => freedomTag
  (items ++ [(tag, ob.outbound)], freedomTag)

/-- The outbounds of `Config::build`, and the tag that services the default
branch. -/
def buildOutbounds (outbounds : List OutboundCfg) : List (String × Outbound) × Option String :=
  let (items, freedomTag) := outbounds.foldl pushOutbound ([], none)
  if items.isEmpty then ([("freedom", .freedom)], some "freedom")
  else (items, freedomTag.or (items.head?.map Prod.fst))

/-! ## Routes -/

/-- `domain_condition`. -/
def domainCondition (d : String) : Option Condition :=
  let d := d.toList
  match stripPrefix "full:".toList d with
  | some x => Condition.parse ("domain:".toList ++ x)
  | none =>
    match stripPrefix "suffix:".toList d with
    | some x => Condition.parse ("domain:".toList ++ x)
    | none =>
      if startsWith "domain:".toList d || startsWith "geosite:".toList d then Condition.parse d
      else if (stripPrefix "keyword:".toList d).isSome then none
      else Condition.parse ("domain:".toList ++ d)

/-- `Condition::parse(..).ok_or_else(..)?`. -/
def parseOr (token : List Char) (err : String) : Except String Condition :=
  match Condition.parse token with
  | some c => .ok c
  | none => .error err

/-- `build_match_rule`: no rule when there is no condition. -/
def buildMatchRule (r : RouteCfg) : Except String (Option MatchRule) := do
  let domains := r.domain.filterMap domainCondition
  let ips ← r.ip.mapM fun ip => parseOr ("ip:".toList ++ ip.toList) s!"bad ip cidr: {ip}"
  let ports ← r.port.mapM fun p => parseOr ("port:".toList ++ p.toList) s!"bad port: {p}"
  let conds := domains ++ ips ++ ports
  if conds.isEmpty then return none
  else return some ⟨conds, [r.outbound], .new .random, Nat.one_lt_two_pow (by decide)⟩

/-- The route loop of `Config::build`. -/
def buildRules : List RouteCfg → Except String (List MatchRule)
  | [] => .ok []
  | r :: routes => do
    let rule ← buildMatchRule r
    let rules ← buildRules routes
    return rule.toList ++ rules

/-- `Config::build`, the children shared by every inbound. -/
def buildTree (outbounds : List OutboundCfg) (routes : List RouteCfg) : Except String ServiceTree := do
  let (items, freedomTag) := buildOutbounds outbounds
  let rules ← buildRules routes
  return ⟨.new rules none, NoGeo, OutboundList.build items, freedomTag⟩

/-! ## What a route entry matches -/

/-- The name a domain item stands for, if it stands for one: what follows `full:`,
`suffix:` or `domain:`, or the item itself.  `keyword:` and `geosite:` items stand
for none, the server having no geodata. -/
def domainName (item : String) : Option (List Char) :=
  let d := item.toList
  match stripPrefix "full:".toList d with
  | some x => some x
  | none =>
    match stripPrefix "suffix:".toList d with
    | some x => some x
    | none =>
      match stripPrefix "domain:".toList d with
      | some x => some x
      | none =>
        if startsWith "geosite:".toList d || startsWith "keyword:".toList d then none else some d

/-- A domain item matches a domain target that is the item's name or one of its
subdomains. -/
def DomainItemMatches (dest : Destination) (item : String) : Prop :=
  ∃ host x, dest.address = .domain host ∧ domainName item = some x ∧ trim x ≠ [] ∧
    IsWithin host (.ofList (trim x))

/-- An IP item matches an IP target in its block. -/
def IpItemMatches (dest : Destination) (item : String) : Prop :=
  ∃ addr cidr, dest.address = .ip addr ∧ Cidr.parse (trim item.toList) = some cidr ∧
    cidr.contains addr = true

/-- A port item matches a port in its range. -/
def PortItemMatches (dest : Destination) (item : String) : Prop :=
  ∃ lo hi, parsePortRange (trim item.toList) = some (lo, hi) ∧ lo ≤ dest.port ∧ dest.port ≤ hi

/-- **An entry matches a target when one of its items does.** -/
def RouteCfg.Picks (r : RouteCfg) (dest : Destination) : Prop :=
  (∃ d ∈ r.domain, DomainItemMatches dest d) ∨ (∃ i ∈ r.ip, IpItemMatches dest i) ∨
    ∃ p ∈ r.port, PortItemMatches dest p

section Items

variable (dest : Destination) (ctx : Ctx)

theorem parse_domain (x : List Char) : Condition.parse ("domain:".toList ++ x) =
    if trim x = [] then none else some (.domainSuffix (.ofList (toAsciiLowercase (trim x)))) :=
  Condition.parse_word (w := "domain".toList) (by decide) (by decide) (by decide) x

theorem parse_geosite (x : List Char) : Condition.parse ("geosite:".toList ++ x) =
    if trim x = [] then none else some (.geoSite (.ofList (trim x))) :=
  Condition.parse_word (w := "geosite".toList) (by decide) (by decide) (by decide) x

theorem parse_ip (x : List Char) :
    Condition.parse ("ip:".toList ++ x) = (Cidr.parse (trim x)).map .ip :=
  Condition.parse_word (w := "ip".toList) (by decide) (by decide) (by decide) x

theorem parse_port (x : List Char) : Condition.parse ("port:".toList ++ x) =
    (parsePortRange (trim x)).map fun (lo, hi) => .port lo hi :=
  Condition.parse_word (w := "port".toList) (by decide) (by decide) (by decide) x

/-- A `domain:` token matches the domains at or below its name. -/
theorem domainToken_matches (x : List Char) :
    (∃ c, Condition.parse ("domain:".toList ++ x) = some c ∧
      c.matchesQuery (routeRequest dest ctx) NoGeo = true) ↔
    ∃ host, dest.address = .domain host ∧ trim x ≠ [] ∧ IsWithin host (.ofList (trim x)) := by
  rw [parse_domain]
  by_cases hx : trim x = []
  · simp [hx]
  · have hwithin : ∀ host, domainSuffixMatch (lowercase host)
        (.ofList (toAsciiLowercase (trim x))) = true ↔ IsWithin host (.ofList (trim x)) := by
      intro host
      have hlower : String.ofList (toAsciiLowercase (trim x)) = lowercase (.ofList (trim x)) := by
        rw [lowercase, String.toList_ofList]
      rw [domainSuffixMatch_iff, hlower]
      unfold IsWithin
      rw [lowerBytes_lowercase, lowerBytes_lowercase]
    cases hdest : dest.address with
    | ip addr =>
      have hdomain : (routeRequest dest ctx).domain = none := RouteQuery.domain_of_ip hdest rfl
      simp [hx, Condition.matchesQuery, hdomain]
    | domain host =>
      have hdomain : (routeRequest dest ctx).domain = some (lowercase host) :=
        RouteQuery.domain_of_domain hdest
      simp [hx, Condition.matchesQuery, hdomain, hwithin]

/-- An item stands for a name, and becomes its `domain:` token; or it stands for
none, and becomes nothing or a `geosite:` token. -/
theorem domainItem_cases (item : String) :
    (∃ x, domainName item = some x ∧
      domainCondition item = Condition.parse ("domain:".toList ++ x)) ∨
    (domainName item = none ∧ (domainCondition item = none ∨
      ∃ x, domainCondition item = Condition.parse ("geosite:".toList ++ x))) := by
  unfold domainName domainCondition
  generalize item.toList = d
  simp only
  by_cases hfull : startsWith "full:".toList d = true
  · obtain ⟨x, rfl⟩ := startsWith_iff.mp hfull
    rw [stripPrefix_append]
    exact .inl ⟨x, rfl, rfl⟩
  rw [stripPrefix_of_not hfull]
  by_cases hsuffix : startsWith "suffix:".toList d = true
  · obtain ⟨x, rfl⟩ := startsWith_iff.mp hsuffix
    rw [stripPrefix_append]
    exact .inl ⟨x, rfl, rfl⟩
  rw [stripPrefix_of_not hsuffix]
  by_cases hdomain : startsWith "domain:".toList d = true
  · obtain ⟨x, rfl⟩ := startsWith_iff.mp hdomain
    rw [hdomain, stripPrefix_append]
    exact .inl ⟨x, rfl, rfl⟩
  rw [stripPrefix_of_not hdomain, Bool.eq_false_of_not_eq_true hdomain]
  by_cases hsite : startsWith "geosite:".toList d = true
  · obtain ⟨x, rfl⟩ := startsWith_iff.mp hsite
    rw [hsite]
    exact .inr ⟨rfl, .inr ⟨x, rfl⟩⟩
  rw [Bool.eq_false_of_not_eq_true hsite]
  by_cases hkey : startsWith "keyword:".toList d = true
  · obtain ⟨x, rfl⟩ := startsWith_iff.mp hkey
    rw [hkey, stripPrefix_append]
    exact .inr ⟨rfl, .inl rfl⟩
  · rw [stripPrefix_of_not hkey, Bool.eq_false_of_not_eq_true hkey]
    exact .inl ⟨d, rfl, rfl⟩

/-- Without geodata a `geosite:` token matches nothing. -/
theorem geositeToken_matches (x : List Char) {c : Condition}
    (h : Condition.parse ("geosite:".toList ++ x) = some c) :
    c.matchesQuery (routeRequest dest ctx) NoGeo = false := by
  rw [parse_geosite] at h
  by_cases hx : trim x = []
  · rw [if_pos hx] at h
    cases h
  · rw [if_neg hx] at h
    obtain rfl := Option.some.inj h
    simp [Condition.matchesQuery, NoGeo]

/-- **A domain item**: the condition it becomes matches exactly what the item
does. -/
theorem domainCondition_matches (item : String) :
    (∃ c, domainCondition item = some c ∧ c.matchesQuery (routeRequest dest ctx) NoGeo = true) ↔
      DomainItemMatches dest item := by
  rcases domainItem_cases item with ⟨x, hname, hcond⟩ | ⟨hname, hcond⟩
  · rw [hcond, domainToken_matches]
    unfold DomainItemMatches
    rw [hname]
    simp
  · constructor
    · rintro ⟨c, hc, hmatch⟩
      rcases hcond with hcond | ⟨x, hcond⟩
      · rw [hcond] at hc
        cases hc
      · rw [geositeToken_matches dest ctx x (hcond ▸ hc)] at hmatch
        cases hmatch
    · rintro ⟨host, x, -, hsome, -⟩
      rw [hname] at hsome
      cases hsome

/-- **An IP item.** -/
theorem ipToken_matches (item : String) {err : String} {c : Condition}
    (h : parseOr ("ip:".toList ++ item.toList) err = .ok c) :
    c.matchesQuery (routeRequest dest ctx) NoGeo = true ↔ IpItemMatches dest item := by
  unfold parseOr at h
  rw [parse_ip] at h
  unfold IpItemMatches
  cases hcidr : Cidr.parse (trim item.toList) with
  | none =>
    rw [hcidr] at h
    cases h
  | some cidr =>
    rw [hcidr] at h
    obtain rfl := Except.ok.inj h
    cases hdest : dest.address <;> simp [Condition.matchesQuery, routeRequest, hdest]

/-- **A port item.** -/
theorem portToken_matches (item : String) {err : String} {c : Condition}
    (h : parseOr ("port:".toList ++ item.toList) err = .ok c) :
    c.matchesQuery (routeRequest dest ctx) NoGeo = true ↔ PortItemMatches dest item := by
  unfold parseOr at h
  rw [parse_port] at h
  unfold PortItemMatches
  cases hrange : parsePortRange (trim item.toList) with
  | none =>
    rw [hrange] at h
    cases h
  | some range =>
    obtain ⟨lo, hi⟩ := range
    rw [hrange] at h
    obtain rfl := Except.ok.inj h
    show (decide (lo ≤ dest.port) && decide (dest.port ≤ hi)) = true ↔ _
    simp

/-! ## What a table of entries picks -/

/-- Where each image has a property exactly when its source has another, the list
of images has it somewhere exactly when the list of sources does. -/
theorem mapM_exists {α β ε : Type} {f : α → Except ε β} {P : β → Prop} {Q : α → Prop}
    (hiff : ∀ a b, f a = .ok b → (P b ↔ Q a)) :
    ∀ {l : List α} {out : List β}, l.mapM f = .ok out → ((∃ b ∈ out, P b) ↔ ∃ a ∈ l, Q a)
  | [], out, h => by
    obtain rfl := Except.ok.inj h
    simp
  | a :: l, out, h => by
    rw [List.mapM_cons] at h
    obtain ⟨b, hb, h⟩ := Except.bind_eq_ok h
    obtain ⟨bs, hbs, h⟩ := Except.bind_eq_ok h
    obtain rfl := Except.ok.inj h
    rw [List.exists_mem_cons_iff, List.exists_mem_cons_iff, hiff a b hb, mapM_exists hiff hbs]

/-- **One entry.**  It becomes a rule that leads to its outbound and matches what
the entry does, or none when nothing matches it. -/
theorem buildMatchRule_picks {r : RouteCfg} {rule? : Option MatchRule}
    (h : buildMatchRule r = .ok rule?) :
    (∀ rule ∈ rule?, rule.outs = [r.outbound]) ∧
      ((∃ rule ∈ rule?, rule.matchesQuery (routeRequest dest ctx) NoGeo = true) ↔ r.Picks dest) := by
  unfold buildMatchRule at h
  obtain ⟨ips, hips, h⟩ := Except.bind_eq_ok h
  obtain ⟨ports, hports, h⟩ := Except.bind_eq_ok h
  simp only at h
  have hip := mapM_exists (fun i _ hc => ipToken_matches dest ctx i hc) hips
  have hport := mapM_exists (fun p _ hc => portToken_matches dest ctx p hc) hports
  have hdomain : (∃ c ∈ r.domain.filterMap domainCondition,
      c.matchesQuery (routeRequest dest ctx) NoGeo = true) ↔
        ∃ d ∈ r.domain, DomainItemMatches dest d := by
    simp only [List.mem_filterMap, ← domainCondition_matches dest ctx]
    constructor
    · rintro ⟨c, ⟨d, hd, hc⟩, hmatch⟩
      exact ⟨d, hd, c, hc, hmatch⟩
    · rintro ⟨d, hd, c, hc, hmatch⟩
      exact ⟨c, ⟨d, hd, hc⟩, hmatch⟩
  have hall : (∃ c ∈ r.domain.filterMap domainCondition ++ ips ++ ports,
      c.matchesQuery (routeRequest dest ctx) NoGeo = true) ↔ r.Picks dest := by
    unfold RouteCfg.Picks
    rw [← hdomain, ← hip, ← hport]
    simp only [List.mem_append, or_and_right, exists_or, or_assoc]
  by_cases hempty : (r.domain.filterMap domainCondition ++ ips ++ ports).isEmpty = true
  · rw [if_pos hempty] at h
    obtain rfl := Except.ok.inj h
    rw [← hall, List.isEmpty_iff.mp hempty]
    simp
  · rw [if_neg hempty] at h
    obtain rfl := Except.ok.inj h
    refine ⟨fun rule hrule => Option.mem_some.mp hrule ▸ rfl, ?_⟩
    rw [← hall]
    simp [MatchRule.matchesQuery]

/-- **The first entry that matches decides**, and the default branch when none
does.  `decision` is that of the table the entries become. -/
def FirstPick (routes : List RouteCfg) (decision : RouteDecision) : Prop :=
  (∃ before r after, routes = before ++ r :: after ∧ (∀ x ∈ before, ¬ x.Picks dest) ∧ r.Picks dest ∧
    decision = .outbound r.outbound) ∨
  (∀ r ∈ routes, ¬ r.Picks dest) ∧ decision = .freedom

variable {dest} in
theorem FirstPick.cons_of_picks {r : RouteCfg} (h : r.Picks dest) (routes : List RouteCfg) :
    FirstPick dest (r :: routes) (.outbound r.outbound) :=
  .inl ⟨[], r, routes, rfl, nofun, h, rfl⟩

variable {dest} in
theorem FirstPick.cons_of_not {r : RouteCfg} {routes : List RouteCfg} {decision : RouteDecision}
    (h : ¬ r.Picks dest) (hrest : FirstPick dest routes decision) :
    FirstPick dest (r :: routes) decision := by
  rcases hrest with ⟨before, x, after, rfl, hbefore, hx, hd⟩ | ⟨hnone, hd⟩
  · exact .inl ⟨r :: before, x, after, rfl, List.forall_mem_cons.mpr ⟨h, hbefore⟩, hx, hd⟩
  · exact .inr ⟨List.forall_mem_cons.mpr ⟨h, hnone⟩, hd⟩

theorem buildRules_firstPick (draw : UInt64) : ∀ {routes : List RouteCfg} {rules : List MatchRule},
    buildRules routes = .ok rules →
      FirstPick dest routes ((RouteTable.new rules none).route draw (routeRequest dest ctx) NoGeo).1
  | [], rules, h => by
    obtain rfl := Except.ok.inj h
    exact .inr ⟨nofun, rfl⟩
  | r :: routes, rules, h => by
    obtain ⟨rule?, hrule, h⟩ := Except.bind_eq_ok h
    obtain ⟨rest, hrest, h⟩ := Except.bind_eq_ok h
    obtain rfl := Except.ok.inj h
    obtain ⟨houts, hpicks⟩ := buildMatchRule_picks dest ctx hrule
    have ih := buildRules_firstPick draw hrest
    rw [RouteTable.route_fst] at ih ⊢
    cases rule? with
    | none => exact .cons_of_not (fun h => by simpa using hpicks.mpr h) ih
    | some rule =>
      by_cases hmatch : rule.matchesQuery (routeRequest dest ctx) NoGeo = true
      · simp only [RouteTable.new, Option.toList_some, List.singleton_append, List.find?_cons,
          hmatch, MatchRule.decide_of_singleton (houts rule rfl)]
        exact .cons_of_picks (hpicks.mp ⟨rule, rfl, hmatch⟩) routes
      · simp only [RouteTable.new, Option.toList_some, List.singleton_append, List.find?_cons,
          Bool.eq_false_of_not_eq_true hmatch]
        refine .cons_of_not (fun h => ?_) ih
        obtain ⟨rule', hrule', hmatch'⟩ := hpicks.mpr h
        exact hmatch (Option.mem_some.mp hrule' ▸ hmatch')

end Items

theorem buildTree_eq_ok {outbounds : List OutboundCfg} {routes : List RouteCfg} {tree : ServiceTree}
    (h : buildTree outbounds routes = .ok tree) :
    ∃ rules, buildRules routes = .ok rules ∧
      tree = ⟨.new rules none, NoGeo, OutboundList.build (buildOutbounds outbounds).1,
        (buildOutbounds outbounds).2⟩ := by
  obtain ⟨rules, hrules, h⟩ := Except.bind_eq_ok h
  exact ⟨rules, hrules, (Except.ok.inj h).symm⟩

/-- **The routes of a configuration.**  For every list of entries that `build`
accepts and every target, the table decides for the outbound of the first entry
that has a matching item in any of its lists. -/
theorem build_routes {outbounds : List OutboundCfg} {routes : List RouteCfg} {tree : ServiceTree}
    (h : buildTree outbounds routes = .ok tree) (dest : Destination) (ctx : Ctx) (draw : UInt64) :
    FirstPick dest routes (tree.table.route draw (routeRequest dest ctx) tree.geo).1 := by
  obtain ⟨rules, hrules, rfl⟩ := buildTree_eq_ok h
  exact buildRules_firstPick dest ctx draw hrules

/-! ## The documented meaning of an entry -/

/-- What `config.example.toml` says of a domain item: `full:` matches the name
alone, `keyword:` any domain that contains it. -/
def DocDomainItemMatches (dest : Destination) (item : String) : Prop :=
  ∃ host, dest.address = .domain host ∧
    match stripPrefix "full:".toList item.toList with
    | some x => lowerBytes host = lowerBytes (.ofList x)
    | none =>
      match stripPrefix "keyword:".toList item.toList with
      | some x => lowerBytes (.ofList x) <:+: lowerBytes host
      | none => DomainItemMatches dest item

/-- What it says of an entry: every list that is not empty has a matching item. -/
def RouteCfg.DocPicks (r : RouteCfg) (dest : Destination) : Prop :=
  ¬ (r.domain = [] ∧ r.ip = [] ∧ r.port = []) ∧
    (r.domain ≠ [] → ∃ d ∈ r.domain, DocDomainItemMatches dest d) ∧
    (r.ip ≠ [] → ∃ i ∈ r.ip, IpItemMatches dest i) ∧
    (r.port ≠ [] → ∃ p ∈ r.port, PortItemMatches dest p)

/-- Block one site on one port. -/
def blockSite : RouteCfg := ⟨"block", ["example.com"], [], ["443"]⟩

/-- What this entry becomes. -/
def blockSiteTree : ServiceTree where
  table := .new [⟨[.domainSuffix "example.com", .port 443 443], ["block"], .new .random, by decide⟩] none
  geo := NoGeo
  outbounds := OutboundList.build [("freedom", .freedom)]
  freedomTag := some "freedom"

theorem buildTree_blockSite : buildTree [⟨none, .freedom⟩] [blockSite] = .ok blockSiteTree := by
  have hrules : buildRules [blockSite] = .ok blockSiteTree.table.rules := by decide
  unfold buildTree
  rewrite [hrules]
  rfl

/-- The entry as `build_routes` describes it. -/
theorem build_routes_blockSite :
    FirstPick (.tcp (.domain "www.Example.com") 80) [blockSite]
      (blockSiteTree.table.route 0
        (routeRequest (.tcp (.domain "www.Example.com") 80) ⟨none, none, none⟩) NoGeo).1 :=
  build_routes buildTree_blockSite _ _ _

/-- An entry for a domain and a port also takes flows to other hosts on that port:
the documented meaning is not that of the table. -/
theorem blockSite_picks_other_hosts :
    buildTree [⟨none, .freedom⟩] [blockSite] = .ok blockSiteTree ∧
    ¬ blockSite.DocPicks (.tcp (.ip (.v4 #v[1, 2, 3, 4])) 443) ∧
    (blockSiteTree.table.route 0
      (routeRequest (.tcp (.ip (.v4 #v[1, 2, 3, 4])) 443) ⟨none, none, none⟩) NoGeo).1 =
        .outbound "block" := by
  refine ⟨buildTree_blockSite, ?_, by decide⟩
  rintro ⟨-, hdomain, -⟩
  obtain ⟨d, -, host, hhost, -⟩ := hdomain (List.cons_ne_nil _ _)
  cases hhost

/-! ## The default outbound -/

section Default

/-- The tag that services the default branch: that of the first `freedom` entry,
else that of the first entry. -/
def defaultTag (outbounds : List OutboundCfg) : Option String :=
  ((outbounds.find? (·.protocol == .freedom)).or outbounds.head?).map OutboundCfg.tagOf

/-- The outbound loop, from any point on. -/
theorem foldl_pushOutbound : ∀ (outbounds : List OutboundCfg) (items : List (String × Outbound))
    (freedomTag : Option String), outbounds.foldl pushOutbound (items, freedomTag) =
      (items ++ outbounds.map fun ob => (ob.tagOf, ob.outbound),
        freedomTag.or ((outbounds.find? (·.protocol == .freedom)).map OutboundCfg.tagOf))
  | [], items, freedomTag => by simp
  | ob :: outbounds, items, freedomTag => by
    rw [List.foldl_cons, pushOutbound, foldl_pushOutbound outbounds]
    cases hprotocol : ob.protocol with
    | freedom => cases freedomTag <;> simp [hprotocol]
    | blackhole => cases freedomTag <;> simp [hprotocol]

theorem buildOutbounds_eq {outbounds : List OutboundCfg} (h : outbounds ≠ []) :
    buildOutbounds outbounds =
      (outbounds.map fun ob => (ob.tagOf, ob.outbound), defaultTag outbounds) := by
  obtain ⟨ob, rest, rfl⟩ := List.exists_cons_of_ne_nil h
  unfold buildOutbounds defaultTag
  rw [foldl_pushOutbound]
  simp only [List.nil_append, List.map_cons, List.isEmpty_cons, Bool.false_eq_true, if_false,
    Option.none_or, List.head?_cons, Option.map_some]
  cases (ob :: rest).find? (·.protocol == .freedom) <;> rfl

/-- The last element with a property. -/
theorem exists_last {α : Type} {p : α → Prop} : ∀ {l : List α}, (∃ x ∈ l, p x) →
    ∃ before x after, l = before ++ x :: after ∧ p x ∧ ∀ y ∈ after, ¬ p y
  | [], h => by simp at h
  | a :: l, h => by
    by_cases hl : ∃ x ∈ l, p x
    · obtain ⟨before, x, after, rfl, hx, hafter⟩ := exists_last hl
      exact ⟨a :: before, x, after, rfl, hx, hafter⟩
    · have ha : p a := by
        obtain ⟨x, hx, hp⟩ := h
        rcases List.mem_cons.mp hx with rfl | hx
        · exact hp
        · exact absurd ⟨x, hx, hp⟩ hl
      exact ⟨[], a, l, rfl, ha, fun y hy hp => hl ⟨y, hy, hp⟩⟩

theorem defaultTag_mem {outbounds : List OutboundCfg} (h : outbounds ≠ []) :
    ∃ tag, defaultTag outbounds = some tag ∧ ∃ ob ∈ outbounds, ob.tagOf = tag := by
  unfold defaultTag
  cases hfind : outbounds.find? (·.protocol == .freedom) with
  | some ob => exact ⟨ob.tagOf, rfl, ob, List.mem_of_find?_eq_some hfind, rfl⟩
  | none =>
    obtain ⟨ob, rest, rfl⟩ := List.exists_cons_of_ne_nil h
    exact ⟨ob.tagOf, rfl, ob, List.mem_cons_self, rfl⟩

/-- **The default outbound.**  A flow that matches no rule is processed by the
entry that the default tag leads to, the last one to bear it: the tag of the first
`freedom` entry, or of the first entry when there is no `freedom`. -/
theorem build_default {outbounds : List OutboundCfg} {routes : List RouteCfg} {tree : ServiceTree}
    (h : buildTree outbounds routes = .ok tree) (hne : outbounds ≠ []) (draw : UInt64)
    (flow : ProxyDecision) (dialer : Dialer)
    (hnone : ∀ rule ∈ tree.table.rules,
      rule.matchesQuery (routeRequest flow.target flow.ctx) tree.geo = false) :
    ∃ before ob after, outbounds = before ++ ob :: after ∧
      (∀ later ∈ after, later.tagOf ≠ ob.tagOf) ∧ defaultTag outbounds = some ob.tagOf ∧
      (tree.serve draw flow dialer).1 = ob.outbound.process flow.target flow.link dialer := by
  obtain ⟨tag, htag, hmem⟩ := defaultTag_mem hne
  obtain ⟨before, ob, after, hsplit, hob, hafter⟩ := exists_last hmem
  obtain ⟨rules, -, rfl⟩ := buildTree_eq_ok h
  rw [buildOutbounds_eq hne] at hnone ⊢
  refine ⟨before, ob, after, hsplit, fun later hl => hob ▸ hafter later hl, hob ▸ htag, ?_⟩
  have hfind : rules.find? (·.matchesQuery (routeRequest flow.target flow.ctx) NoGeo) = none := by
    apply List.find?_eq_none.mpr
    intro rule hrule
    exact Bool.not_eq_true _ ▸ hnone rule hrule
  have hlookup : OutboundList.build (outbounds.map fun ob => (ob.tagOf, ob.outbound)) tag =
      some ob.outbound := by
    rw [hsplit, List.map_append, List.map_cons, hob]
    apply OutboundList.build_of_last
    simpa using hafter
  rw [ServiceTree.serve_fst]
  unfold ServiceTree.route
  rw [RouteTable.route_fst]
  simp only [RouteTable.new, hfind, Option.getD_none, ServiceTree.dispatch, RouteDecision.tag, htag,
    hlookup]

end Default

/-- `blackhole` first, `freedom` second. -/
def denyFirst : List OutboundCfg := [⟨some "block", .blackhole⟩, ⟨some "direct", .freedom⟩]

/-- What these entries become, without routes. -/
def denyFirstTree : ServiceTree where
  table := .new [] none
  geo := NoGeo
  outbounds := OutboundList.build [("block", .blackhole), ("direct", .freedom)]
  freedomTag := some "direct"

theorem buildTree_denyFirst : buildTree denyFirst [] = .ok denyFirstTree := rfl

/-- A flow to `a.b:80`. -/
def flowToSite : ProxyDecision :=
  ⟨.tcp (.domain "a.b") 80, ⟨none, none, none⟩, ⟨.new _ 1, .new _ 1⟩⟩

/-- There `build_default` names the second entry. -/
theorem build_default_denyFirst :
    ∃ before ob after, denyFirst = before ++ ob :: after ∧
      (∀ later ∈ after, later.tagOf ≠ ob.tagOf) ∧ defaultTag denyFirst = some ob.tagOf ∧
      (denyFirstTree.serve 0 flowToSite fun _ => .error earlyEof).1 =
        ob.outbound.process flowToSite.target flowToSite.link fun _ => .error earlyEof :=
  build_default buildTree_denyFirst (by decide) 0 flowToSite _ nofun

/-- There a flow that matches no rule is dialled, which the first entry would not
do. -/
theorem denyFirst_dials :
    buildTree denyFirst [] = .ok denyFirstTree ∧
    (denyFirstTree.serve 0 flowToSite fun _ => .error earlyEof).1.dialed =
      [.tcp (.domain "a.b") 80] ∧
    (denyFirst.head?.map fun first => (first.outbound.process flowToSite.target flowToSite.link
      fun _ => .error earlyEof).dialed) = some [] := by
  refine ⟨buildTree_denyFirst, ?_, ?_⟩ <;> decide

end XrayRs
