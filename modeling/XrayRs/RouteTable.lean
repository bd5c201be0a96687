import XrayRs.Delimited
import XrayRs.Net
import XrayRs.Text

/-! # The routing table

`kernel/src/route/rule.rs` and `kernel/src/route/balance.rs`: an ordered list of
rules, each the *or* of its conditions, of which the first that matches decides;
a rule with several outbound tags spreads flows over them with its balancer.

The balancer is the only state: `route` returns the table with the cursors it has
moved.  The random number a flow may draw is an argument. -/

namespace XrayRs

open Text

/-- `GeoMatcher`: membership in a geosite category and in a geoip country. -/
structure GeoMatcher where
  siteContains : String → String → Bool
  ipContains : String → IpAddr → Bool

/-- `NoGeo`: every lookup misses. -/
def NoGeo : GeoMatcher := ⟨fun _ _ => false, fun _ _ => false⟩

/-- `str::to_ascii_lowercase`. -/
def lowercase (s : String) : String := .ofList (toAsciiLowercase s.toList)

/-! ## CIDR blocks -/

/-- `IpAddr::is_ipv4`. -/
def IpAddr.isIpv4 : IpAddr → Bool
  | .v4 _ => true
  | .v6 _ => false

/-- `Cidr`: a block of IPv4 or IPv6 addresses. -/
structure Cidr where
  addr : IpAddr
  prefixLen : UInt8
  deriving DecidableEq

/-- `prefix_match`, with `bits` left to compare. -/
def prefixMatch : Bytes → Bytes → Nat → Bool
  | a :: net, b :: ip, bits =>
    if bits = 0 then true
    else if 8 ≤ bits then a == b && prefixMatch net ip (bits - 8)
    else
      let mask : UInt8 := 0xff <<< UInt8.ofNat (8 - bits)
      a &&& mask == b &&& mask
  | _, _, _ => true

/-- `Cidr::contains`. -/
def Cidr.contains (c : Cidr) : IpAddr → Bool
  | .v4 ip => match c.addr with
    | .v4 net => prefixMatch net.toList ip.toList c.prefixLen.toNat
    | .v6 _ => false
  | .v6 ip => match c.addr with
    | .v4 _ => false
    | .v6 net => prefixMatch net.toList ip.toList c.prefixLen.toNat

/-- `Cidr::parse`: `a.b.c.d/n`, or a bare address. -/
def Cidr.parse (s : List Char) : Option Cidr :=
  let (ipStr, pfxStr) := match splitOnce '/' s with
    | some (a, b) => (a, some b)
    | none => (s, none)
  (IpLiteral.parseIpAddr (asBytes (.ofList (trim ipStr)))).bind fun addr =>
    let max := if addr.isIpv4 then 32 else 128
    match pfxStr with
    | some p => ((parseUnsigned 255 (trim p)).filter (· ≤ max)).map fun n => ⟨addr, .ofNat n⟩
    | none => some ⟨addr, .ofNat max⟩

/-! ## Conditions -/

/-- `Condition`. -/
inductive Condition
  | geoSite (tag : String)
  | domainSuffix (suffix : String)
  | geoIp (tag : String)
  | ip (cidr : Cidr)
  | port (lo hi : UInt16)
  | any
  deriving DecidableEq

/-- `parse_port_range`. -/
def parsePortRange (s : List Char) : Option (UInt16 × UInt16) :=
  match splitOnce '-' s with
  | some (lo, hi) =>
    (parseUnsigned 65535 (trim lo)).bind fun lo => (parseUnsigned 65535 (trim hi)).bind fun hi =>
      if lo ≤ hi then some (.ofNat lo, .ofNat hi) else none
  | none => (parseUnsigned 65535 (trim s)).map fun p => (.ofNat p, .ofNat p)

/-- The `match` of `Condition::parse` on the kind of a token. -/
def Condition.parseKind (kind value : List Char) : Option Condition :=
  if kind = "geosite".toList then
    if value = [] then none else some (.geoSite (.ofList value))
  else if kind = "domain".toList then
    if value = [] then none else some (.domainSuffix (.ofList (toAsciiLowercase value)))
  else if kind = "geoip".toList then
    if value = [] then none else some (.geoIp (.ofList value))
  else if kind = "ip".toList then (Cidr.parse value).map .ip
  else if kind = "port".toList then (parsePortRange value).map fun (lo, hi) => .port lo hi
  else none

/-- `Condition::parse`: one `type:value` token, or the bare `*`. -/
def Condition.parse (token : List Char) : Option Condition :=
  let token := trim token
  if token = ['*'] then some .any
  else
    (splitOnce ':' token).bind fun (kind, value) =>
      Condition.parseKind (toAsciiLowercase (trim kind)) (trim value)

/-- `domain_suffix_match`.  The byte before the tail being a dot, the tail starts
at a character. -/
def domainSuffixMatch (d suffix : String) : Bool :=
  let d := asBytes d
  let suffix := asBytes suffix
  if eqIgnoreAsciiCase d suffix then true
  else if suffix.length < d.length then
    let i := d.length - suffix.length
    d[i - 1]? == some 0x2e && eqIgnoreAsciiCase (d.drop i) suffix
  else false

/-- `RouteQuery`, and its owned form `RouteRequest`: the flow being routed. -/
structure RouteQuery where
  target : Destination
  network : Network
  source : Option IpAddr
  sniffedDomain : Option String
  authHash : Option UInt64
  deriving DecidableEq

/-- `RouteQuery::domain`. -/
def RouteQuery.domain (q : RouteQuery) : Option String :=
  match q.target.address with
  | .domain d => some (lowercase d)
  | .ip _ => q.sniffedDomain.map lowercase

/-- `Condition::matches`. -/
def Condition.matchesQuery (q : RouteQuery) (geo : GeoMatcher) : Condition → Bool
  | .any => true
  | .port lo hi => lo ≤ q.target.port && q.target.port ≤ hi
  | .domainSuffix suffix => q.domain.any (domainSuffixMatch · suffix)
  | .geoSite tag => q.domain.any (geo.siteContains tag)
  | .ip cidr => match q.target.address with
    | .ip addr => cidr.contains addr
    | .domain _ => false
  | .geoIp tag => match q.target.address with
    | .ip addr => geo.ipContains tag addr
    | .domain _ => false

/-! ## Balancing -/

/-- `BalanceMode`. -/
inductive BalanceMode
  | random
  | roundRobin
  | userAuthHash
  deriving DecidableEq

/-- `LoadBalancer`. -/
structure LoadBalancer where
  mode : BalanceMode
  cursor : UInt64
  deriving DecidableEq

/-- `LoadBalancer::new`. -/
def LoadBalancer.new (mode : BalanceMode) : LoadBalancer := ⟨mode, 0⟩

/-- `LoadBalancer::pick`, with `draw` for `rand::random`. -/
def LoadBalancer.pick (lb : LoadBalancer) (draw : UInt64) (count : Nat) (authHash : Option UInt64) :
    Option Nat × LoadBalancer :=
  if count = 0 then (none, lb)
  else
    match lb.mode with
    | .random => (some (draw.toNat % count), lb)
    | .roundRobin => (some (lb.cursor.toNat % count), { lb with cursor := lb.cursor + 1 })
    | .userAuthHash => (some ((authHash.getD 0).toNat % count), lb)

/-! ## Rules and tables -/

/-- `RouteDecision`. -/
inductive RouteDecision
  | outbound (tag : String)
  | freedom
  | blackhole
  deriving DecidableEq

/-- `MatchRule`.  A `Vec` holds fewer than `isize::MAX` elements. -/
structure MatchRule where
  conditions : List Condition
  outs : List String
  balancer : LoadBalancer
  outs_fit : outs.length < 2 ^ 63 := by decide
  deriving DecidableEq

/-- `MatchRule::matches`. -/
def MatchRule.matchesQuery (r : MatchRule) (q : RouteQuery) (geo : GeoMatcher) : Bool :=
  r.conditions.any (·.matchesQuery q geo)

/-- The tag at a picked index, or the blackhole. -/
def decisionAt (outs : List String) (i : Option Nat) : RouteDecision :=
  match i.bind (outs[·]?) with
  | some tag => .outbound tag
  | none => .blackhole

/-- `MatchRule::decide`. -/
def MatchRule.decide (r : MatchRule) (draw : UInt64) (q : RouteQuery) : RouteDecision × MatchRule :=
  match r.outs with
  | [] => (.blackhole, r)
  | [tag] => (.outbound tag, r)
  | _ :: _ :: _ =>
    let picked := r.balancer.pick draw r.outs.length q.authHash
    (decisionAt r.outs picked.1, { r with balancer := picked.2 })

/-- `RouteTable`. -/
structure RouteTable where
  rules : List MatchRule
  default : RouteDecision
  deriving DecidableEq

/-- `RouteTable::new`. -/
def RouteTable.new (rules : List MatchRule) (default : Option RouteDecision) : RouteTable :=
  ⟨rules, default.getD .freedom⟩

/-- The loop of `RouteTable::route`. -/
def routeRules (draw : UInt64) (q : RouteQuery) (geo : GeoMatcher) (default : RouteDecision) :
    List MatchRule → RouteDecision × List MatchRule
  | [] => (default, [])
  | rule :: rules =>
    if rule.matchesQuery q geo then
      let (decision, rule) := rule.decide draw q
      (decision, rule :: rules)
    else
      let (decision, rules) := routeRules draw q geo default rules
      (decision, rule :: rules)

/-- `RouteTable::route`: the first matching rule, else the default branch. -/
def RouteTable.route (t : RouteTable) (draw : UInt64) (q : RouteQuery) (geo : GeoMatcher) :
    RouteDecision × RouteTable :=
  let (decision, rules) := routeRules draw q geo t.default t.rules
  (decision, { t with rules := rules })

/-! ## Tokens -/

/-- **A token of a known type**: the type up to the colon, the value trimmed. -/
theorem Condition.parse_word {w : List Char} (hw : Solid w) (hcolon : ':' ∉ w)
    (hlower : toAsciiLowercase w = w) (x : List Char) :
    Condition.parse (w ++ ':' :: x) = Condition.parseKind w (trim x) := by
  have hsolid : Solid (w ++ [':']) := by
    obtain ⟨c, t, rfl, hc⟩ := hw.head
    refine ⟨?_, ?_⟩
    · simp [hc]
    · rw [List.getLast?_concat]
      decide
  have htrim : trim (w ++ ':' :: x) = w ++ ':' :: trimEnd x := by
    have h := trim_append hsolid x
    rwa [List.append_assoc, List.append_assoc] at h
  have hword : trim w = w := by
    have h := trim_append hw []
    rwa [List.append_nil, show trimEnd [] = [] from rfl, List.append_nil] at h
  have hstar : w ++ ':' :: trimEnd x ≠ ['*'] := by
    obtain ⟨c, t, rfl, -⟩ := hw.head
    simp
  unfold Condition.parse
  simp only
  rw [htrim, if_neg hstar, splitOnce_append hcolon, Option.bind_some, hword, hlower, trim_trimEnd]

/-! ## What routing looks at -/

section Route

variable {t : RouteTable} {draw : UInt64} {q : RouteQuery} {geo : GeoMatcher}

theorem routeRules_fst (default : RouteDecision) : ∀ rules : List MatchRule,
    (routeRules draw q geo default rules).1 =
      match rules.find? (·.matchesQuery q geo) with
      | some rule => (rule.decide draw q).1
      | none => default
  | [] => rfl
  | rule :: rules => by
    unfold routeRules
    by_cases h : rule.matchesQuery q geo = true
    · rw [if_pos h, List.find?_cons_of_pos (p := fun r : MatchRule => r.matchesQuery q geo) h]
    · rw [if_neg h, List.find?_cons_of_neg (p := fun r : MatchRule => r.matchesQuery q geo) h]
      exact routeRules_fst default rules

/-- **The decision of a table**: that of the first rule that matches, else the
default. -/
theorem RouteTable.route_fst (t : RouteTable) (draw : UInt64) (q : RouteQuery) (geo : GeoMatcher) :
    (t.route draw q geo).1 =
      match t.rules.find? (·.matchesQuery q geo) with
      | some rule => (rule.decide draw q).1
      | none => t.default :=
  routeRules_fst t.default t.rules

/-- The domain to match against is the target's, when it has one. -/
theorem RouteQuery.domain_of_domain {d : String} (h : q.target.address = .domain d) :
    q.domain = some (lowercase d) := by
  rw [RouteQuery.domain, h]

theorem RouteQuery.domain_of_ip {a : IpAddr} (h : q.target.address = .ip a)
    (hsniffed : q.sniffedDomain = none) : q.domain = none := by
  rw [RouteQuery.domain, h, hsniffed]
  rfl

/-! ## What routing changes -/

/-- What a rule was built from: all but the cursor. -/
def MatchRule.config (r : MatchRule) : List Condition × List String × BalanceMode :=
  (r.conditions, r.outs, r.balancer.mode)

theorem LoadBalancer.pick_mode (lb : LoadBalancer) (count : Nat) (hash : Option UInt64) :
    (lb.pick draw count hash).2.mode = lb.mode := by
  unfold LoadBalancer.pick
  by_cases h : count = 0
  · rw [if_pos h]
  · rw [if_neg h]
    split <;> rfl

theorem MatchRule.decide_config (r : MatchRule) : (r.decide draw q).2.config = r.config := by
  unfold MatchRule.decide
  split
  · rfl
  · rfl
  · simp only [MatchRule.config, LoadBalancer.pick_mode]

theorem MatchRule.matchesQuery_of_config {r r' : MatchRule} (h : r.config = r'.config) :
    r.matchesQuery q geo = r'.matchesQuery q geo := by
  have hconds : r.conditions = r'.conditions := congrArg Prod.fst h
  rw [MatchRule.matchesQuery, MatchRule.matchesQuery, hconds]

theorem MatchRule.outs_of_config {r r' : MatchRule} (h : r.config = r'.config) :
    r.outs = r'.outs :=
  congrArg (fun c => c.2.1) h

theorem routeRules_config (default : RouteDecision) : ∀ rules : List MatchRule,
    (routeRules draw q geo default rules).2.map MatchRule.config = rules.map MatchRule.config
  | [] => rfl
  | rule :: rules => by
    unfold routeRules
    by_cases h : rule.matchesQuery q geo = true
    · rw [if_pos h]
      show (rule.decide draw q).2.config :: _ = _
      rw [MatchRule.decide_config, List.map_cons]
    · rw [if_neg h]
      show rule.config :: (routeRules draw q geo default rules).2.map MatchRule.config = _
      rw [routeRules_config default rules, List.map_cons]

/-- **Routing only moves cursors.** -/
theorem RouteTable.route_config (t : RouteTable) :
    (t.route draw q geo).2.rules.map MatchRule.config = t.rules.map MatchRule.config :=
  routeRules_config t.default t.rules

/-- Tables built alike select rules built alike. -/
theorem find?_config : ∀ {rules rules' : List MatchRule},
    rules.map MatchRule.config = rules'.map MatchRule.config →
    (rules.find? (·.matchesQuery q geo)).map MatchRule.config =
      (rules'.find? (·.matchesQuery q geo)).map MatchRule.config
  | [], [], _ => rfl
  | [], _ :: _, h => by cases h
  | _ :: _, [], h => by cases h
  | r :: rules, r' :: rules', h => by
    obtain ⟨hr, hrest⟩ := List.cons.inj h
    have hmatch : r.matchesQuery q geo = r'.matchesQuery q geo := MatchRule.matchesQuery_of_config hr
    simp only [List.find?_cons, hmatch]
    by_cases hm : r'.matchesQuery q geo = true
    · simp only [hm, Option.map_some, hr]
    · have hm' : r'.matchesQuery q geo = false := by simpa using hm
      simp only [hm']
      exact find?_config hrest

theorem routeRules_find? (default : RouteDecision) {rule : MatchRule} :
    ∀ {rules : List MatchRule}, rules.find? (·.matchesQuery q geo) = some rule →
      (routeRules draw q geo default rules).2.find? (·.matchesQuery q geo) =
        some (rule.decide draw q).2
  | [], h => by cases h
  | r :: rules, h => by
    unfold routeRules
    by_cases hm : r.matchesQuery q geo = true
    · rw [List.find?_cons_of_pos (p := fun r : MatchRule => r.matchesQuery q geo) hm] at h
      obtain rfl := Option.some.inj h
      rw [if_pos hm]
      apply List.find?_cons_of_pos (p := fun r : MatchRule => r.matchesQuery q geo)
      exact (MatchRule.matchesQuery_of_config (MatchRule.decide_config r)).trans hm
    · rw [List.find?_cons_of_neg (p := fun r : MatchRule => r.matchesQuery q geo) hm] at h
      rw [if_neg hm]
      exact (List.find?_cons_of_neg (p := fun r : MatchRule => r.matchesQuery q geo) hm).trans
        (routeRules_find? default h)

/-- The rule that decided a flow decides the next like it, with its balancer
moved on. -/
theorem RouteTable.route_find? {rule : MatchRule}
    (h : t.rules.find? (·.matchesQuery q geo) = some rule) :
    (t.route draw q geo).2.rules.find? (·.matchesQuery q geo) = some (rule.decide draw q).2 :=
  routeRules_find? t.default h

/-- A rule with one tag decides for it. -/
theorem MatchRule.decide_of_singleton {r : MatchRule} {tag : String} (h : r.outs = [tag]) :
    r.decide draw q = (.outbound tag, r) := by
  unfold MatchRule.decide
  split
  · next houts => cases h.symm.trans houts
  · next houts =>
    cases h.symm.trans houts
    rfl
  · next houts => cases h.symm.trans houts

/-- A rule with several tags asks its balancer. -/
theorem MatchRule.decide_of_two_le {r : MatchRule} (h : 2 ≤ r.outs.length) :
    r.decide draw q =
      (decisionAt r.outs (r.balancer.pick draw r.outs.length q.authHash).1,
        { r with balancer := (r.balancer.pick draw r.outs.length q.authHash).2 }) := by
  unfold MatchRule.decide
  split
  · next houts => simp [houts] at h
  · next houts => simp [houts] at h
  · rfl

/-- A rule decides for one of its tags, or for the blackhole. -/
theorem MatchRule.decide_cases (r : MatchRule) (draw : UInt64) (q : RouteQuery) :
    (r.decide draw q).1 = .blackhole ∨ ∃ tag ∈ r.outs, (r.decide draw q).1 = .outbound tag := by
  unfold MatchRule.decide
  split
  · exact .inl rfl
  · next tag houts => exact .inr ⟨tag, by simp [houts], rfl⟩
  · simp only [decisionAt]
    split
    · next tag hpick =>
      obtain ⟨i, -, hget⟩ := Option.bind_eq_some_iff.mp hpick
      exact .inr ⟨tag, List.mem_of_getElem? hget, rfl⟩
    · exact .inl rfl

end Route

/-! ## Domain suffixes -/

/-- Lowering a text lowers its bytes. -/
theorem asBytes_lowercase (s : String) : asBytes (lowercase s) = (asBytes s).map lowerByte := by
  rw [lowercase, asBytes_ofList, toAsciiLowercase, List.flatMap_map]
  conv_rhs => rw [← String.ofList_toList (s := s), asBytes_ofList, List.map_flatMap]
  simp only [utf8EncodeChar_toLower]

/-- The bytes of a text, in lower case: two texts agree up to ASCII case when
these are equal. -/
def lowerBytes (s : String) : Bytes := (asBytes s).map lowerByte

@[simp] theorem lowerBytes_lowercase (s : String) : lowerBytes (lowercase s) = lowerBytes s := by
  rw [lowerBytes, asBytes_lowercase, List.map_map, lowerBytes]
  congr 1
  funext b
  exact lowerByte_lowerByte b

theorem lowerByte_eq_dot_iff {b : UInt8} : lowerByte b = 0x2e ↔ b = 0x2e := by
  constructor
  · exact eq_of_lowerByte_eq (by decide)
  · rintro rfl
    rfl

/-- `d` is `x` or a subdomain of `x`, up to ASCII case. -/
def IsWithin (d x : String) : Prop :=
  lowerBytes d = lowerBytes x ∨ ∃ sub, lowerBytes d = sub ++ 0x2e :: lowerBytes x

/-- **Suffix matching**: the name itself and its subdomains, whatever the case. -/
theorem domainSuffixMatch_iff (d x : String) : domainSuffixMatch d x = true ↔ IsWithin d x := by
  have hlen : (lowerBytes d).length = (asBytes d).length := List.length_map ..
  have hlenx : (lowerBytes x).length = (asBytes x).length := List.length_map ..
  have hignore : ∀ a, eqIgnoreAsciiCase a (asBytes x) = true ↔ a.map lowerByte = lowerBytes x :=
    fun a => beq_iff_eq
  have hdot : ∀ i : Nat, (lowerBytes d)[i]? = some 0x2e ↔ (asBytes d)[i]? = some 0x2e := by
    intro i
    simp [lowerBytes, lowerByte_eq_dot_iff]
  have hdrop : ∀ i, (lowerBytes d).drop i = ((asBytes d).drop i).map lowerByte := by
    intro i
    rw [List.map_drop, lowerBytes]
  unfold domainSuffixMatch IsWithin
  rw [Delimited.exists_append_cons_iff, hlen, hlenx, hdot, hdrop]
  simp only
  by_cases heq : lowerBytes d = lowerBytes x
  · rw [if_pos ((hignore _).mpr heq)]
    simp [heq]
  · rw [if_neg (mt (hignore _).mp heq)]
    by_cases hlt : (asBytes x).length < (asBytes d).length
    · rw [if_pos hlt, Bool.and_eq_true, beq_iff_eq, hignore]
      simp [heq, hlt]
    · rw [if_neg hlt]
      simp [heq, hlt]

end XrayRs
