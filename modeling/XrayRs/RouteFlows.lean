import Mathlib.Data.Int.CardIntervalMod
import XrayRs.RouteTable
import XrayRs.StepSystem

/-! # Flows routed side by side

`RouteTable::route` takes the table by a shared reference.  A flow tries one rule after
the other; the rule that matches decides, and only then is there something to write: the
cursor of that rule, by one `fetch_add`.  So any number of flows may be on their way
through the table, and their order is that in which they are decided.

A rule that rotates through its outs gives them out in turn, whatever the other flows do
meanwhile (`round_robin_fair`). -/

namespace XrayRs

open StepSystem

/-- A flow on its way through `route`, with the number it may draw: the loop is at the
rule `pos`. -/
structure Flight where
  query : RouteQuery
  draw : UInt64
  pos : Nat
  deriving DecidableEq

/-- A flow that is routed: the rule that matched, the out of that rule, the decision. -/
structure Routed where
  query : RouteQuery
  rule : Option Nat
  out : Option Nat
  decision : RouteDecision
  deriving DecidableEq

/-- The number of the out that `decide` takes. -/
def MatchRule.out (r : MatchRule) (draw : UInt64) (q : RouteQuery) : Option Nat :=
  match r.outs with
  | [] => none
  | [_] => some 0
  | _ :: _ :: _ => (r.balancer.pick draw r.outs.length q.authHash).1

/-- The table, the flows that are being routed, and those that are. -/
structure Router where
  table : RouteTable
  flights : List Flight
  routed : List Routed
  deriving DecidableEq

/-- The moves of the flows; all but the first name the position of the flow. -/
inductive RouteAct
  | arrive
  | skip (i : Nat)
  | decide (i : Nat)
  | fallBack (i : Nat)
  deriving DecidableEq

/-- A call of `route` begins. -/
def RouteAct.isCall : RouteAct → Bool
  | .arrive => true
  | _ => false

/-- **The steps of `RouteTable::route`**, for all flows that are in it. -/
inductive RouteStep (geo : GeoMatcher) (s : Router) : RouteAct → Router → Prop
  | arrive (q : RouteQuery) (draw : UInt64) :
      RouteStep geo s .arrive { s with flights := s.flights ++ [⟨q, draw, 0⟩] }
  | skip {i : Nat} {f : Flight} {rule : MatchRule} (hflight : s.flights[i]? = some f)
      (hrule : s.table.rules[f.pos]? = some rule) (hno : rule.matchesQuery f.query geo = false) :
      RouteStep geo s (.skip i) { s with flights := s.flights.set i { f with pos := f.pos + 1 } }
  | decide {i : Nat} {f : Flight} {rule : MatchRule} (hflight : s.flights[i]? = some f)
      (hrule : s.table.rules[f.pos]? = some rule) (hyes : rule.matchesQuery f.query geo = true) :
      RouteStep geo s (.decide i)
        { table := { s.table with
            rules := s.table.rules.set f.pos (rule.decide f.draw f.query).2 }
          flights := s.flights.eraseIdx i
          routed := s.routed ++ [⟨f.query, some f.pos, rule.out f.draw f.query,
            (rule.decide f.draw f.query).1⟩] }
  | fallBack {i : Nat} {f : Flight} (hflight : s.flights[i]? = some f)
      (hend : s.table.rules[f.pos]? = none) :
      RouteStep geo s (.fallBack i) { s with
        flights := s.flights.eraseIdx i
        routed := s.routed ++ [⟨f.query, none, none, s.table.default⟩] }

namespace Router

/-- No flow yet. -/
def start (t : RouteTable) : Router := ⟨t, [], []⟩

/-- The flows that selected the rule `p`, in the order in which they were decided. -/
def flowsOf (s : Router) (p : Nat) : List Routed := s.routed.filter (·.rule = some p)

/-- How many flows the rule `p` has given to its out `i`. -/
def given (s : Router) (p i : Nat) : Nat := (s.flowsOf p).countP (·.out = some i)

end Router

/-- The calls of `route` in a run. -/
def calls (trace : List (RouteAct × Router)) : Nat := trace.countP (·.1.isCall)

/-- A table as it is built: the cursors are at 0. -/
def RouteTable.Fresh (t : RouteTable) : Prop :=
  ∀ rule ∈ t.rules, rule.balancer = .new rule.balancer.mode

/-! ## One flow alone -/

/-- The decision is that of the out. -/
theorem MatchRule.decide_fst (r : MatchRule) (draw : UInt64) (q : RouteQuery) :
    (r.decide draw q).1 = decisionAt r.outs (r.out draw q) := by
  unfold MatchRule.decide MatchRule.out
  split
  · next houts => rw [houts]; rfl
  · next houts => rw [houts]; rfl
  · next houts =>
    simp only [houts]

/-- A rule with outs takes one of them. -/
theorem MatchRule.out_lt {r : MatchRule} (h : r.outs ≠ []) (draw : UInt64) (q : RouteQuery) :
    ∃ i < r.outs.length, r.out draw q = some i := by
  have hpos : 0 < r.outs.length := List.length_pos_iff.mpr h
  unfold MatchRule.out
  cases houts : r.outs with
  | nil => exact absurd houts h
  | cons tag outs =>
    cases outs with
    | nil => exact ⟨0, by simp, rfl⟩
    | cons tag' outs =>
      rw [houts] at hpos
      simp only [LoadBalancer.pick, if_neg hpos.ne']
      cases r.balancer.mode with
      | random | roundRobin | userAuthHash => exact ⟨_, Nat.mod_lt _ hpos, rfl⟩

theorem MatchRule.out_of_two_le {r : MatchRule} (h : 2 ≤ r.outs.length) {draw : UInt64}
    {q : RouteQuery} : r.out draw q = (r.balancer.pick draw r.outs.length q.authHash).1 := by
  unfold MatchRule.out
  split
  · next houts => simp [houts] at h
  · next houts => simp [houts] at h
  · rfl

/-- The loop from the rule `pos` on. -/
theorem exists_run_of_rules (geo : GeoMatcher) (q : RouteQuery) (draw : UInt64)
    (default : RouteDecision) (after before : List MatchRule) :
    ∃ trace r,
      Run (RouteStep geo) ⟨⟨before ++ after, default⟩, [⟨q, draw, before.length⟩], []⟩ trace
      ⟨⟨before ++ (routeRules draw q geo default after).2, default⟩, [], [r]⟩ ∧
      r.decision = (routeRules draw q geo default after).1 := by
  induction after generalizing before with
  | nil =>
    refine ⟨_, _, .cons (.fallBack (i := 0) rfl ?_) (.nil _), rfl⟩
    simp
  | cons rule after ih =>
    have hrule : (before ++ rule :: after)[before.length]? = some rule := by simp
    unfold routeRules
    by_cases hmatch : rule.matchesQuery q geo = true
    · -- the rule decides, and its cursor is written back
      rw [if_pos hmatch]
      let r : Routed := ⟨q, some before.length, rule.out draw q, (rule.decide draw q).1⟩
      have hdecide := @RouteStep.decide geo
        ⟨⟨before ++ rule :: after, default⟩, [⟨q, draw, before.length⟩], []⟩ 0 _ _ rfl hrule hmatch
      simp only [List.set_append_right _ _ (Nat.le_refl before.length), Nat.sub_self,
        List.set_cons_zero] at hdecide
      exact ⟨_, r, .cons hdecide (.nil _), rfl⟩
    · rw [if_neg hmatch]
      obtain ⟨trace, r, hrun, hr⟩ := ih (before ++ [rule])
      rw [List.append_assoc, List.append_assoc, List.length_append] at hrun
      exact ⟨_, r, .cons (.skip (i := 0) rfl hrule (by simpa using hmatch)) hrun, hr⟩

/-- **A flow alone** is routed as by `route`. -/
theorem exists_run_of_route (geo : GeoMatcher) (t : RouteTable) (draw : UInt64) (q : RouteQuery) :
    ∃ trace r, Run (RouteStep geo) (.start t) trace ⟨(t.route draw q geo).2, [], [r]⟩ ∧
      r.decision = (t.route draw q geo).1 := by
  obtain ⟨trace, r, hrun, hr⟩ := exists_run_of_rules geo q draw t.default t.rules []
  exact ⟨_, r, .cons (.arrive q draw) hrun, hr⟩

/-! ## Many flows -/

section Flows

variable {geo : GeoMatcher} {t : RouteTable} {s s' : Router} {a : RouteAct} {p : Nat}
  {rule : MatchRule}

theorem flowsOf_append (s : Router) (r : Routed) (p : Nat) :
    (s.routed ++ [r]).filter (·.rule = some p) =
      s.flowsOf p ++ if r.rule = some p then [r] else [] := by
  rw [List.filter_append, Router.flowsOf]
  congr 1
  by_cases h : r.rule = some p <;> simp [h]

/-- The first matching rule of a table as it was built, and the out it gave. -/
structure Routed.Sound (geo : GeoMatcher) (t : RouteTable) (r : Routed) : Prop where
  rule_eq : r.rule = t.rules.findIdx? (·.matchesQuery r.query geo)
  out : ∀ p rule, r.rule = some p → t.rules[p]? = some rule → rule.outs ≠ [] →
    ∃ i < rule.outs.length, r.out = some i
  decision : ∀ p rule, r.rule = some p → t.rules[p]? = some rule →
    r.decision = decisionAt rule.outs r.out

/-- **Routing side by side**: no rule has changed but for its cursor, no flow has passed a
rule that matches, and the routed ones are routed by the first that does. -/
structure Router.Sound (geo : GeoMatcher) (t : RouteTable) (s : Router) : Prop where
  config : s.table.rules.map MatchRule.config = t.rules.map MatchRule.config
  flights : ∀ f ∈ s.flights, ∀ rule ∈ t.rules.take f.pos, rule.matchesQuery f.query geo = false
  routed : ∀ r ∈ s.routed, r.Sound geo t

theorem Router.Sound.built (h : s.Sound geo t) (hrule : s.table.rules[p]? = some rule) :
    ∃ built, t.rules[p]? = some built ∧ rule.config = built.config := by
  have hget := congrArg (·[p]?) h.config
  simp only [List.getElem?_map, hrule, Option.map_some] at hget
  obtain ⟨built, hbuilt, hconfig⟩ := Option.map_eq_some_iff.mp hget.symm
  exact ⟨built, hbuilt, hconfig.symm⟩

theorem sound_start (t : RouteTable) : (Router.start t).Sound geo t :=
  ⟨rfl, fun _ h => absurd h List.not_mem_nil, fun _ h => absurd h List.not_mem_nil⟩

/-- A flow is routed by the rule it is at. -/
theorem Router.Sound.decided {i : Nat} {f : Flight} (h : s.Sound geo t)
    (hflight : s.flights[i]? = some f) (hrule : s.table.rules[f.pos]? = some rule)
    (hyes : rule.matchesQuery f.query geo = true) :
    Routed.Sound geo t ⟨f.query, some f.pos, rule.out f.draw f.query,
      (rule.decide f.draw f.query).1⟩ := by
  obtain ⟨built, hbuilt, hconfig⟩ := h.built hrule
  have houts := MatchRule.outs_of_config hconfig
  have hsame : ∀ p rule', some f.pos = some p → t.rules[p]? = some rule' → rule' = built := by
    intro p rule' hp hrule'
    rw [← Option.some.inj hp, hbuilt] at hrule'
    exact (Option.some.inj hrule').symm
  refine ⟨?_, ?_, ?_⟩
  · obtain ⟨hlt, hget⟩ := List.getElem?_eq_some_iff.mp hbuilt
    refine (List.findIdx?_eq_some_iff_getElem.mpr ⟨hlt, ?_, fun j hj => ?_⟩).symm
    · rw [hget, ← MatchRule.matchesQuery_of_config hconfig]
      exact hyes
    · have hmem : t.rules[j] ∈ t.rules.take f.pos :=
        List.mem_take_iff_getElem.mpr ⟨j, by omega, rfl⟩
      rw [h.flights f (List.mem_of_getElem? hflight) _ hmem]
      decide
  · intro p rule' hp hrule' hne
    rw [hsame p rule' hp hrule', ← houts] at hne ⊢
    exact MatchRule.out_lt hne _ _
  · intro p rule' hp hrule'
    rw [hsame p rule' hp hrule', ← houts]
    exact MatchRule.decide_fst _ _ _

/-- **A step.** -/
theorem RouteStep.sound (hstep : RouteStep geo s a s') (h : s.Sound geo t) : s'.Sound geo t := by
  have hroutes : ∀ r, r.Sound geo t → ∀ r' ∈ s.routed ++ [r], r'.Sound geo t := by
    intro r hr r' hmem
    rcases List.mem_append.mp hmem with hold | hnew
    · exact h.routed r' hold
    · rw [List.mem_singleton.mp hnew]
      exact hr
  cases hstep with
  | arrive q draw =>
    refine ⟨h.config, fun f hf => ?_, h.routed⟩
    rcases List.mem_append.mp hf with hold | hnew
    · exact h.flights f hold
    · rw [List.mem_singleton.mp hnew]
      exact fun _ hmem => absurd hmem List.not_mem_nil
  | @skip i f rule hflight hrule hno =>
    refine ⟨h.config, fun f' hf' => ?_, h.routed⟩
    rcases List.mem_or_eq_of_mem_set hf' with hold | rfl
    · exact h.flights f' hold
    · -- the flow is behind one rule more
      obtain ⟨built, hbuilt, hconfig⟩ := h.built hrule
      intro rule' hmem
      rw [List.take_add_one, hbuilt] at hmem
      rcases List.mem_append.mp hmem with hbefore | hat
      · exact h.flights f (List.mem_of_getElem? hflight) rule' hbefore
      · rw [List.mem_singleton.mp hat, ← MatchRule.matchesQuery_of_config hconfig]
        exact hno
  | @decide i f rule hflight hrule hyes =>
    refine ⟨?_, fun f' hf' => h.flights f' (List.mem_of_mem_eraseIdx hf'),
      hroutes _ (h.decided hflight hrule hyes)⟩
    obtain ⟨hlt, hget⟩ := List.getElem?_eq_some_iff.mp hrule
    have hlt' : f.pos < (s.table.rules.map MatchRule.config).length := by rwa [List.length_map]
    have hself := List.set_getElem_self hlt'
    rw [List.getElem_map, hget] at hself
    rw [List.map_set, MatchRule.decide_config, hself]
    exact h.config
  | @fallBack i f hflight hend =>
    refine ⟨h.config, fun f' hf' => h.flights f' (List.mem_of_mem_eraseIdx hf'),
      hroutes _ ⟨?_, (fun _ _ hp => nomatch hp), (fun _ _ hp => nomatch hp)⟩⟩
    have hlen : t.rules.length ≤ f.pos := by
      have hlength := congrArg List.length h.config
      rw [List.length_map, List.length_map] at hlength
      rw [← hlength]
      exact List.getElem?_eq_none_iff.mp hend
    refine (List.findIdx?_eq_none_iff.mpr fun rule hmem => ?_).symm
    refine h.flights f (List.mem_of_getElem? hflight) rule ?_
    rwa [List.take_of_length_le hlen]

/-- **A rule in turn**: its cursor counts the flows that it has decided, and these got its
outs in turn.  The cursor wraps at `2 ^ 64`. -/
structure Router.Rotates (s : Router) (p : Nat) (rule : MatchRule) : Prop where
  current : ∃ r, s.table.rules[p]? = some r ∧ r.config = rule.config ∧
    r.balancer.cursor = .ofNat (s.flowsOf p).length
  outs : (s.flowsOf p).map Routed.out =
    (List.range (s.flowsOf p).length).map fun k => some (k % 2 ^ 64 % rule.outs.length)

theorem rotates_start (hfresh : t.Fresh) (hrule : t.rules[p]? = some rule) :
    (Router.start t).Rotates p rule := by
  refine ⟨⟨rule, hrule, rfl, ?_⟩, rfl⟩
  rw [hfresh rule (List.mem_of_getElem? hrule)]
  rfl

/-- A flow that the rule does not decide. -/
theorem Router.Rotates.other (h : s.Rotates p rule) (hrule : s'.table.rules[p]? = s.table.rules[p]?)
    (hflows : s'.flowsOf p = s.flowsOf p) : s'.Rotates p rule := by
  obtain ⟨hcurrent, houts⟩ := h
  refine ⟨?_, ?_⟩
  · rw [hrule, hflows]
    exact hcurrent
  · rw [hflows]
    exact houts

/-- The balancer of a rule in turn. -/
theorem LoadBalancer.pick_roundRobin {lb : LoadBalancer} (h : lb.mode = .roundRobin) {count : Nat}
    (hcount : count ≠ 0) (draw : UInt64) (hash : Option UInt64) :
    lb.pick draw count hash =
      (some (lb.cursor.toNat % count), { lb with cursor := lb.cursor + 1 }) := by
  unfold LoadBalancer.pick
  rw [if_neg hcount, h]

theorem RouteStep.rotates (hstep : RouteStep geo s a s') (hmode : rule.balancer.mode = .roundRobin)
    (houts : 2 ≤ rule.outs.length) (h : s.Rotates p rule) : s'.Rotates p rule := by
  cases hstep with
  | arrive | skip => exact h.other rfl rfl
  | fallBack =>
    refine h.other rfl ?_
    rw [Router.flowsOf, flowsOf_append, if_neg (fun hp => nomatch hp), List.append_nil]
  | @decide i f r hflight hrule hyes =>
    -- no other rule touches the cursor
    by_cases hp : f.pos = p
    · subst hp
      obtain ⟨⟨r', hr', hconfig, hcursor⟩, hturns⟩ := h
      obtain rfl := Option.some.inj (hrule.symm.trans hr')
      have hr : r.outs = rule.outs := MatchRule.outs_of_config hconfig
      have hrmode : r.balancer.mode = .roundRobin := (congrArg (fun c => c.2.2) hconfig).trans hmode
      have hle : 2 ≤ r.outs.length := by rwa [hr]
      have hne : r.outs.length ≠ 0 := by omega
      have hpick := LoadBalancer.pick_roundRobin hrmode hne f.draw f.query.authHash
      have hout : r.out f.draw f.query =
          some ((s.flowsOf f.pos).length % 2 ^ 64 % rule.outs.length) := by
        rw [MatchRule.out_of_two_le hle, hpick, hcursor, hr]
        rfl
      refine Router.Rotates.mk (s := { s with
        table := { s.table with rules := s.table.rules.set f.pos (r.decide f.draw f.query).2 }
        flights := s.flights.eraseIdx i
        routed := s.routed ++ [⟨f.query, some f.pos, r.out f.draw f.query,
          (r.decide f.draw f.query).1⟩] }) ⟨(r.decide f.draw f.query).2, ?_, ?_, ?_⟩ ?_
      · exact List.getElem?_set_self (List.getElem?_eq_some_iff.mp hrule).1
      · exact (MatchRule.decide_config r).trans hconfig
      · rw [MatchRule.decide_of_two_le hle, hpick, Router.flowsOf, flowsOf_append, if_pos rfl,
          List.length_append, List.length_singleton, hcursor]
        exact (UInt64.ofNat_add ..).symm
      · rw [Router.flowsOf, flowsOf_append, if_pos rfl, List.length_append, List.length_singleton,
          List.range_succ, List.map_append, List.map_append, hturns, hout]
        rfl
    · refine h.other ?_ ?_
      · exact List.getElem?_set_ne hp
      · rw [Router.flowsOf, flowsOf_append, if_neg (fun heq => hp (Option.some.inj heq)),
          List.append_nil]

/-! ## Fairness -/

/-- A call is one flow more on its way, and the other steps leave or finish one. -/
theorem RouteStep.length {a : RouteAct} {t : Router} (h : RouteStep geo s a t) :
    t.routed.length + t.flights.length =
      s.routed.length + s.flights.length + if a.isCall then 1 else 0 := by
  have hpos : ∀ {i : Nat} {f : Flight}, s.flights[i]? = some f →
      (s.flights.eraseIdx i).length + 1 = s.flights.length := by
    intro i f hf
    have hlt := (List.getElem?_eq_some_iff.mp hf).1
    rw [List.length_eraseIdx_of_lt hlt]
    omega
  cases h with
  | arrive =>
    simp only [RouteAct.isCall, List.length_append, List.length_singleton, if_true]
    omega
  | skip =>
    simp [RouteAct.isCall]
  | decide hf | fallBack hf =>
    have := hpos hf
    simp only [RouteAct.isCall, List.length_append, List.length_singleton,
      Bool.false_eq_true, if_false]
    omega

/-- Every call is a flow on its way, or a routed one. -/
theorem length_of_run {trace : List (RouteAct × Router)} (h : Run (RouteStep geo) s trace s') :
    s'.routed.length + s'.flights.length = s.routed.length + s.flights.length + calls trace := by
  induction h with
  | nil => rfl
  | cons hstep _ ih =>
    rw [ih, hstep.length, calls, calls, List.countP_cons]
    dsimp only
    omega

theorem countP_range (q : Nat → Bool) (m : Nat) :
    (List.range m).countP q = Nat.count (fun k => q k = true) m := by
  induction m with
  | zero => rfl
  | succ m ih =>
    rw [List.range_succ, List.countP_append, ih, Nat.count_succ, List.countP_singleton]

/-- Outs in turn are given out evenly. -/
theorem count_mod_le {n m i j : Nat} (hi : i < n) (hj : j < n) :
    Nat.count (fun k => k % n = i) m ≤ Nat.count (fun k => k % n = j) m + 1 := by
  have hcount : ∀ i < n, Nat.count (fun k => k % n = i) m = m / n + if i < m % n then 1 else 0 := by
    intro i hi
    have h := Nat.count_modEq_card (r := n) m (by omega) i
    simpa only [Nat.ModEq, Nat.mod_eq_of_lt hi] using h
  rw [hcount i hi, hcount j hj]
  split <;> omega

/-- The flows of a rule in turn, as long as its cursor has not wrapped. -/
theorem Router.Rotates.outs_eq (h : s.Rotates p rule) (hfew : (s.flowsOf p).length ≤ 2 ^ 64) :
    (s.flowsOf p).map Routed.out =
      (List.range (s.flowsOf p).length).map fun k => some (k % rule.outs.length) := by
  rw [h.outs]
  refine List.map_congr_left fun k hk => ?_
  rw [Nat.mod_eq_of_lt (Nat.lt_of_lt_of_le (List.mem_range.mp hk) hfew)]

theorem Router.Rotates.given_eq (h : s.Rotates p rule) (hfew : (s.flowsOf p).length ≤ 2 ^ 64)
    (i : Nat) :
    s.given p i = Nat.count (fun k => k % rule.outs.length = i) (s.flowsOf p).length := by
  have hmap : s.given p i = ((s.flowsOf p).map Routed.out).countP (· = some i) := by
    rw [List.countP_map]
    rfl
  rw [hmap, h.outs_eq hfew, List.countP_map, countP_range]
  simp

/-- **Round robin is fair, whatever else is routed.**  Take a table as it is built, fewer
than `2 ^ 64` calls of `route`, and any order in which their flows go through the table.
The `k`-th flow that a rule in turn decides gets the out `k mod n`, so no two of its outs
differ by more than one.  In every balance mode the first matching rule decides, for one
of its own tags if it has any. -/
theorem round_robin_fair (hfresh : t.Fresh) {trace : List (RouteAct × Router)}
    (hrun : Run (RouteStep geo) (.start t) trace s) (hcalls : calls trace < 2 ^ 64) :
    (∀ p rule, t.rules[p]? = some rule → rule.balancer.mode = .roundRobin → 2 ≤ rule.outs.length →
      (∀ k r, (s.flowsOf p)[k]? = some r → r.out = some (k % rule.outs.length) ∧
        ∃ tag, rule.outs[k % rule.outs.length]? = some tag ∧ r.decision = .outbound tag) ∧
      ∀ i j, i < rule.outs.length → j < rule.outs.length → s.given p i ≤ s.given p j + 1) ∧
    ∀ r ∈ s.routed, r.rule = t.rules.findIdx? (·.matchesQuery r.query geo) ∧
      ∀ p rule, r.rule = some p → t.rules[p]? = some rule → rule.outs ≠ [] →
        ∃ tag ∈ rule.outs, r.decision = .outbound tag := by
  have hsound : s.Sound geo t := hrun.invariant (sound_start t) fun _ _ _ h hstep => hstep.sound h
  have hlength : s.routed.length ≤ calls trace := by
    have h := length_of_run hrun
    simp only [Router.start, List.length_nil] at h
    omega
  refine ⟨fun p rule hrule hmode houts => ?_, fun r hr => ⟨(hsound.routed r hr).rule_eq, ?_⟩⟩
  · have hrotates : s.Rotates p rule :=
      hrun.invariant (rotates_start hfresh hrule) fun _ _ _ h hstep => hstep.rotates hmode houts h
    have hfew : (s.flowsOf p).length ≤ 2 ^ 64 := by
      have hle := List.length_filter_le (·.rule = some p : Routed → Bool) s.routed
      unfold Router.flowsOf
      omega
    refine ⟨fun k r hk => ?_, fun i j hi hj => ?_⟩
    · obtain ⟨hmem, hrule_eq⟩ := List.mem_filter.mp (List.mem_of_getElem? hk)
      have hout : r.out = some (k % rule.outs.length) := by
        have hget := congrArg (·[k]?) (hrotates.outs_eq hfew)
        have hlt := (List.getElem?_eq_some_iff.mp hk).1
        simp only [List.getElem?_map, hk, Option.map_some, List.getElem?_range hlt] at hget
        exact Option.some.inj hget
      have hlt : k % rule.outs.length < rule.outs.length := Nat.mod_lt _ (by omega)
      refine ⟨hout, rule.outs[k % rule.outs.length], List.getElem?_eq_getElem hlt, ?_⟩
      rw [(hsound.routed r hmem).decision p rule
        (of_decide_eq_true hrule_eq) hrule, hout, decisionAt,
        Option.bind_some, List.getElem?_eq_getElem hlt]
    · rw [hrotates.given_eq hfew, hrotates.given_eq hfew]
      exact count_mod_le hi hj
  · intro p rule hp hrule hne
    obtain ⟨i, hi, hout⟩ := (hsound.routed r hr).out p rule hp hrule hne
    refine ⟨rule.outs[i], List.getElem_mem hi, ?_⟩
    rw [(hsound.routed r hr).decision p rule hp hrule, hout, decisionAt, Option.bind_some,
      List.getElem?_eq_getElem hi]

end Flows

/-- All flows go to two outs in turn. -/
def twoOuts : RouteTable := .new [⟨[.any], ["a", "b"], .new .roundRobin, by decide⟩] none

/-- Two flows arrive; the second is decided first. -/
theorem round_robin_fair_overtaking :
    ∃ trace s, Run (RouteStep NoGeo) (.start twoOuts) trace s ∧ calls trace = 2 ∧
      s.routed.map Routed.decision = [.outbound "a", .outbound "b"] ∧
      s.given 0 0 ≤ s.given 0 1 + 1 := by
  let q : RouteQuery := ⟨.tcp (.domain "a.b") 80, .tcp, none, none, none⟩
  have hrun : ∃ trace s, Run (RouteStep NoGeo) (.start twoOuts) trace s ∧ calls trace = 2 ∧
      s.routed.map Routed.decision = [.outbound "a", .outbound "b"] :=
    ⟨_, _, .cons (.arrive q 0) <| .cons (.arrive q 1) <|
      .cons (.decide (i := 1) rfl rfl rfl) <| .cons (.decide (i := 0) rfl rfl rfl) (.nil _),
      rfl, by decide⟩
  obtain ⟨trace, s, h, hcalls, hdecisions⟩ := hrun
  refine ⟨trace, s, h, hcalls, hdecisions, ?_⟩
  exact ((round_robin_fair (by unfold RouteTable.Fresh; decide) h
    (by rw [hcalls]; decide)).1 0 _ rfl rfl
    (by decide)).2 0 1 (by decide) (by decide)


end XrayRs
