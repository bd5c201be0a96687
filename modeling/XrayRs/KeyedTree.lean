import XrayRs.HotSwap
import Mathlib.Data.List.AList

/-! # Reconciling a keyed set of services

`Node` and `KeyedTree` (`kernel/src/runtime/service/mod.rs`).  The channels of all nodes
ever made are numbered; a node's handle and the tree's own consumer of it refer to their
channel by its number, so that the two maps of the tree could disagree.  `built` lists
the calls of the builder.

Between two reconciliations the clones of the tree's services may be polled, called,
cloned and dropped in any way (`Step.use`). -/

namespace XrayRs.KeyedTree

open StepSystem HotSwap

variable {C S : Type}

/-! ## The tree -/

/-- `Node`, with the number of its handle's channel. -/
structure Node (C : Type) where
  config : C
  handle : Nat
  deriving DecidableEq

/-- `Reconcile`. -/
structure Reconcile where
  added : List String
  updated : List String
  removed : List String
  unchanged : List String
  deriving DecidableEq

/-- `Reconcile::default`. -/
abbrev Reconcile.default : Reconcile := ⟨[], [], [], []⟩

/-- `KeyedTree`.  The service of a key is the consumer at position 0 of its channel. -/
structure Tree (C S : Type) where
  nodes : AList fun _ : String => Node C
  services : AList fun _ : String => Nat
  policy : UpdatePolicy
  swaps : List (Swap S)
  built : List (String × C)

namespace Tree

/-- `KeyedTree::new`. -/
def new (policy : UpdatePolicy) : Tree C S := ⟨∅, ∅, policy, [], []⟩

/-- The config of a key's node. -/
def config (t : Tree C S) (key : String) : Option C := (t.nodes.lookup key).map Node.config

/-- What the channel of a key's service holds. -/
def live (t : Tree C S) (key : String) : Option (Slot S) :=
  (t.services.lookup key).bind fun h => t.swaps[h]?.bind Swap.slot

/-- `SwapHandle::update` on a channel. -/
def update (t : Tree C S) (h : Nat) (service : S) : Tree C S × Bool :=
  match t.swaps[h]? with
  | some s => ({ t with swaps := t.swaps.set h (s.update service).1 }, (s.update service).2)
  | none => (t, false)

/-- The handle of a channel is dropped. -/
def dropHandle (t : Tree C S) (h : Nat) : Tree C S :=
  { t with swaps := t.swaps.modify h fun s => { s with updater := .dropped } }

/-- The tree's consumer of a channel is dropped. -/
def dropService (t : Tree C S) (h : Nat) : Tree C S :=
  { t with swaps := t.swaps.modify h fun s =>
      { s with consumers := s.consumers.modify 0 fun c => { c with alive := false } } }

/-- `self.nodes.remove` and `self.services.remove`. -/
def remove (t : Tree C S) (key : String) : Tree C S :=
  let t := match t.nodes.lookup key with
    | some node => { t.dropHandle node.handle with nodes := t.nodes.erase key }
    | none => t
  match t.services.lookup key with
  | some h => { t.dropService h with services := t.services.erase key }
  | none => t

/-- `self.services.insert`, which drops the service it replaces. -/
def insertService (t : Tree C S) (key : String) (h : Nat) : Tree C S :=
  let t := match t.services.lookup key with
    | some old => t.dropService old
    | none => t
  { t with services := t.services.insert key h }

variable [DecidableEq C] (build : String → C → S)

/-- `Node::reconfigure`. -/
def reconfigure (t : Tree C S) (key : String) (node : Node C) (new : C) : Tree C S × Bool :=
  if node.config = new then (t, false)
  else
    { t with
      built := t.built ++ [(key, new)]
      nodes := t.nodes.insert key { node with config := new } }.update node.handle (build key new)

/-- `Node::new`, with its insertion into both maps. -/
def add (t : Tree C S) (key : String) (cfg : C) : Tree C S :=
  let t' : Tree C S :=
    { t with
      built := t.built ++ [(key, cfg)]
      swaps := t.swaps ++ [Swap.new (build key cfg) t.policy]
      nodes := t.nodes.insert key ⟨cfg, t.swaps.length⟩ }
  t'.insertService key t.swaps.length

/-- The loop of `reconcile` over the new configs. -/
def visit : Tree C S × Reconcile → String × C → Tree C S × Reconcile
  | (t, report), (key, cfg) =>
    match t.nodes.lookup key with
    | some node =>
      match t.reconfigure build key node cfg with
      | (t, true) => (t, { report with updated := report.updated ++ [key] })
      | (t, false) => (t, { report with unchanged := report.unchanged ++ [key] })
    | none => (t.add build key cfg, { report with added := report.added ++ [key] })

/-- The loop of `reconcile` over the stale keys. -/
def prune : Tree C S × Reconcile → String → Tree C S × Reconcile
  | (t, report), key => (t.remove key, { report with removed := report.removed ++ [key] })

/-- The tree and the report after the new configs. -/
def visitAll (t : Tree C S) (newConfigs : List (String × C)) : Tree C S × Reconcile :=
  newConfigs.foldl (visit build) (t, .default)

/-- `KeyedTree::reconcile`, where `order` are the keys of the nodes as their hash map
lists them. -/
def reconcile (t : Tree C S) (newConfigs : List (String × C)) (order : List String) :
    Tree C S × Reconcile :=
  (order.filter (· ∉ newConfigs.map Prod.fst)).foldl prune (t.visitAll build newConfigs)

end Tree

/-- What the users of the tree's services do: all that consumers do, save dropping the
tree's own. -/
def ofUser : HotSwap.Act S → Prop
  | .clone _ => True
  | .discard i => i ≠ 0
  | .poll _ => True
  | .next _ => True
  | .ret _ _ => True
  | .call _ _ => True
  | .begin _ _ => False
  | .roll => False
  | .publish _ _ => False
  | .dropHandle => False

/-- A reconciliation with its report, or a move of a user of a channel. -/
inductive Act (C S : Type)
  | reconcile (newConfigs : List (String × C)) (report : Reconcile)
  | use (h : Nat) (a : HotSwap.Act S)

/-- **The life of a tree.** -/
inductive Step [DecidableEq C] (build : String → C → S) (t : Tree C S) :
    Act C S → Tree C S → Prop
  | reconcile (newConfigs : List (String × C)) (order : List String)
      (hdistinct : (newConfigs.map Prod.fst).Nodup)
      (horder : order.Perm (t.visitAll build newConfigs).1.nodes.keys) :
      Step build t (.reconcile newConfigs (t.reconcile build newConfigs order).2)
        (t.reconcile build newConfigs order).1
  | use {h : Nat} {s s' : Swap S} {a : HotSwap.Act S} (hs : t.swaps[h]? = some s)
      (hstep : HotSwap.Step s a s') (huser : ofUser a) :
      Step build t (.use h a) { t with swaps := t.swaps.set h s' }

/-! ## What a channel serves -/

/-- The channel holds `svc`, and the tree has its consumer of it. -/
def Serves (s : Swap S) (svc : S) : Prop :=
  s.slot = some (.ready svc) ∧ ∃ c, s.consumers[0]? = some c ∧ c.alive = true

theorem serves_new (svc : S) (policy : UpdatePolicy) : Serves (.new svc policy) svc :=
  ⟨rfl, _, rfl, rfl⟩

/-- An update with the tree's consumer there finds a receiver. -/
theorem Serves.update {s : Swap S} {svc : S} (h : Serves s svc) (new : S) :
    (s.update new).2 = true ∧ Serves (s.update new).1 new := by
  obtain ⟨-, c, hc, halive⟩ := h
  have hsome : ∃ c ∈ s.consumers, c.alive = true := ⟨c, List.mem_of_getElem? hc, halive⟩
  simp only [Swap.update, Swap.send, Swap.rollToken, if_pos hsome, true_and]
  exact ⟨List.getLast?_concat, c, hc, halive⟩

theorem Serves.use {s s' : Swap S} {a : HotSwap.Act S} {svc : S} (h : Serves s svc)
    (hstep : HotSwap.Step s a s') (huser : ofUser a) : Serves s' svc := by
  obtain ⟨hslot, c, hc, halive⟩ := h
  refine ⟨?_, ?_⟩
  · rcases hstep.log with hlog | ⟨_, rfl, -⟩ | ⟨_, rfl, -⟩
    · rw [Swap.slot, hlog]
      exact hslot
    · exact absurd huser id
    · exact absurd huser id
  · obtain ⟨c', hc', hmoves⟩ := hstep.consumer hc
    refine ⟨c', hc', ?_⟩
    cases hmoves with
    | discard => exact absurd rfl huser
    | next hdrain =>
      rw [Consumer.next]
      split
      · exact halive
      · exact halive
    | _ => exact halive

/-! ## The two maps agree -/

theorem lookup_insert_eq {V : Type} (m : AList fun _ : String => V) (key k : String) (v : V) :
    (m.insert key v).lookup k = if k = key then some v else m.lookup k := by
  by_cases hk : k = key
  · rw [if_pos hk, hk, AList.lookup_insert]
  · rw [if_neg hk, AList.lookup_insert_ne hk]

theorem lookup_erase_eq {V : Type} (m : AList fun _ : String => V) (key k : String) :
    (m.erase key).lookup k = if k = key then none else m.lookup k := by
  by_cases hk : k = key
  · rw [if_pos hk, hk, AList.lookup_erase]
  · rw [if_neg hk, AList.lookup_erase_ne hk]

/-- **The invariant of a tree**: both maps name the same channel for a key, no two keys
share one, and it holds what the builder makes of the key and its config. -/
structure Tree.WellFormed (build : String → C → S) (t : Tree C S) : Prop where
  service_eq : ∀ key, t.services.lookup key = (t.nodes.lookup key).map Node.handle
  serves : ∀ key node, t.nodes.lookup key = some node →
    ∃ s, t.swaps[node.handle]? = some s ∧ Serves s (build key node.config)
  apart : ∀ key key' node node', t.nodes.lookup key = some node →
    t.nodes.lookup key' = some node' → node.handle = node'.handle → key = key'

namespace Tree

variable {build : String → C → S} {t : Tree C S} {key : String}

theorem config_eq_none : t.config key = none ↔ key ∉ t.nodes := by
  rw [config, Option.map_eq_none_iff, AList.lookup_eq_none]

theorem config_eq_some {cfg : C} :
    t.config key = some cfg ↔ ∃ node, t.nodes.lookup key = some node ∧ node.config = cfg :=
  Option.map_eq_some_iff

theorem built_remove : (t.remove key).built = t.built := by
  unfold remove
  cases t.nodes.lookup key with
  | none => cases hs : t.services.lookup key <;> simp [hs, dropService]
  | some node => cases hs : t.services.lookup key <;> simp [hs, dropService, dropHandle]

theorem wellFormed_new (policy : UpdatePolicy) : (new policy : Tree C S).WellFormed build :=
  ⟨fun _ => rfl, nofun, nofun⟩

namespace WellFormed

theorem live_eq (h : t.WellFormed build) {cfg : C} (hcfg : t.config key = some cfg) :
    t.live key = some (.ready (build key cfg)) := by
  obtain ⟨node, hnode, rfl⟩ := config_eq_some.mp hcfg
  obtain ⟨s, hs, hslot, -⟩ := h.serves key node hnode
  rw [live, h.service_eq, hnode, Option.map_some, Option.bind_some, hs, Option.bind_some, hslot]

theorem mem_services (h : t.WellFormed build) : key ∈ t.services ↔ key ∈ t.nodes := by
  rw [← AList.lookup_isSome, ← AList.lookup_isSome, h.service_eq, Option.isSome_map]

theorem handle_lt (h : t.WellFormed build) {node : Node C}
    (hnode : t.nodes.lookup key = some node) : node.handle < t.swaps.length := by
  obtain ⟨s, hs, -⟩ := h.serves key node hnode
  exact (List.getElem?_eq_some_iff.mp hs).1

/-- A user's move keeps the channel's service. -/
theorem use (h : t.WellFormed build) {k : Nat} {s s' : Swap S} {a : HotSwap.Act S}
    (hs : t.swaps[k]? = some s) (hstep : HotSwap.Step s a s') (huser : ofUser a) :
    WellFormed build { t with swaps := t.swaps.set k s' } := by
  refine ⟨h.service_eq, ?_, h.apart⟩
  intro key node hnode
  obtain ⟨s₀, hs₀, hserves⟩ := h.serves key node hnode
  by_cases hk : k = node.handle
  · subst hk
    obtain rfl := Option.some.inj (hs₀.symm.trans hs)
    exact ⟨s', List.getElem?_set_self (h.handle_lt hnode), hserves.use hstep huser⟩
  · exact ⟨s₀, by rw [List.getElem?_set_ne hk, hs₀], hserves⟩

/-- **One key of the tree changes**: its node becomes `v`, and the channels of the other
keys are left alone. -/
theorem put (h : t.WellFormed build) {t' : Tree C S} {v : Option (Node C)}
    (hnodes : ∀ k, t'.nodes.lookup k = if k = key then v else t.nodes.lookup k)
    (hservices : ∀ k, t'.services.lookup k =
      if k = key then v.map Node.handle else t.services.lookup k)
    (hframe : ∀ k node, k ≠ key → t.nodes.lookup k = some node →
      t'.swaps[node.handle]? = t.swaps[node.handle]? ∧ ∀ n, v = some n → n.handle ≠ node.handle)
    (hserves : ∀ n, v = some n →
      ∃ s, t'.swaps[n.handle]? = some s ∧ Serves s (build key n.config)) :
    t'.WellFormed build ∧ t'.config = Function.update t.config key (v.map Node.config) := by
  have hself : ∀ k node, k = key → t'.nodes.lookup k = some node → v = some node := by
    intro k node hk hnode
    rw [hnodes, if_pos hk] at hnode
    exact hnode
  have hother : ∀ k node, k ≠ key → t'.nodes.lookup k = some node →
      t.nodes.lookup k = some node := by
    intro k node hk hnode
    rw [hnodes, if_neg hk] at hnode
    exact hnode
  refine ⟨⟨?_, ?_, ?_⟩, ?_⟩
  · intro k
    rw [hnodes, hservices]
    split
    · rfl
    · exact h.service_eq k
  · intro k node hnode
    by_cases hk : k = key
    · obtain ⟨s, hs⟩ := hserves node (hself k node hk hnode)
      exact ⟨s, hk ▸ hs⟩
    · have hold := hother k node hk hnode
      rw [(hframe k node hk hold).1]
      exact h.serves k node hold
  · intro k k' node node' hnode hnode' heq
    by_cases hk : k = key
    · by_cases hk' : k' = key
      · rw [hk, hk']
      · exact absurd heq
          ((hframe k' node' hk' (hother k' node' hk' hnode')).2 node (hself k node hk hnode))
    · by_cases hk' : k' = key
      · exact absurd heq.symm
          ((hframe k node hk (hother k node hk hnode)).2 node' (hself k' node' hk' hnode'))
      · exact h.apart k k' node node' (hother k node hk hnode) (hother k' node' hk' hnode') heq
  · funext k
    rw [Function.update_apply, config, config, hnodes]
    split
    · rfl
    · rfl

/-- **A new key**: its channel is a new one. -/
theorem add (h : t.WellFormed build) (hnone : t.nodes.lookup key = none) (cfg : C) :
    (t.add build key cfg).built = t.built ++ [(key, cfg)] ∧
      (t.add build key cfg).WellFormed build ∧
      (t.add build key cfg).config = Function.update t.config key (some cfg) := by
  have hservice : t.services.lookup key = none := by
    rw [h.service_eq, hnone]
    rfl
  have hadd : t.add build key cfg =
      ⟨t.nodes.insert key ⟨cfg, t.swaps.length⟩, t.services.insert key t.swaps.length, t.policy,
        t.swaps ++ [Swap.new (build key cfg) t.policy], t.built ++ [(key, cfg)]⟩ := by
    simp only [Tree.add, insertService, hservice]
  rw [hadd]
  refine ⟨rfl, h.put (v := some ⟨cfg, t.swaps.length⟩) (fun k => lookup_insert_eq ..)
    (fun k => lookup_insert_eq ..) ?_ ?_⟩
  · intro k node hk hnode
    have hlt := h.handle_lt hnode
    refine ⟨List.getElem?_append_left hlt, ?_⟩
    rintro n ⟨⟩
    exact (Nat.ne_of_lt hlt).symm
  · rintro n ⟨⟩
    exact ⟨_, List.getElem?_concat_length, serves_new _ _⟩

/-- **A stale key**: nobody else's channel is dropped with it. -/
theorem remove (h : t.WellFormed build) (key : String) :
    (t.remove key).WellFormed build ∧
      (t.remove key).config = Function.update t.config key none := by
  cases hnode : t.nodes.lookup key with
  | none =>
    have hremove : t.remove key = t := by
      simp only [Tree.remove, hnode, h.service_eq, Option.map_none]
    rw [hremove]
    have hconfig : t.config key = none := by rw [config, hnode]; rfl
    exact ⟨h, by rw [← hconfig, Function.update_eq_self]⟩
  | some node =>
    have hremove : t.remove key =
        { (t.dropHandle node.handle).dropService node.handle with
          nodes := t.nodes.erase key, services := t.services.erase key } := by
      simp only [Tree.remove, hnode, dropHandle, h.service_eq, Option.map_some, dropService]
    rw [hremove]
    refine h.put (v := none) (fun k => lookup_erase_eq ..) (fun k => lookup_erase_eq ..) ?_ nofun
    intro k node' hk hnode'
    have hne : node.handle ≠ node'.handle := fun heq => hk (h.apart _ _ _ _ hnode' hnode heq.symm)
    refine ⟨?_, nofun⟩
    simp only [dropHandle, dropService, List.getElem?_modify_ne _ _ hne]

variable [DecidableEq C]

/-- **A changed config**: the node's channel has the new service. -/
theorem reconfigure (h : t.WellFormed build) {node : Node C} {cfg : C}
    (hnode : t.nodes.lookup key = some node) (hne : node.config ≠ cfg) :
    ∃ t', t.reconfigure build key node cfg = (t', true) ∧ t'.built = t.built ++ [(key, cfg)] ∧
      t'.WellFormed build ∧ t'.config = Function.update t.config key (some cfg) := by
  obtain ⟨s, hs, hserves⟩ := h.serves key node hnode
  obtain ⟨hok, hnew⟩ := hserves.update (build key cfg)
  refine ⟨{ t with
    built := t.built ++ [(key, cfg)]
    nodes := t.nodes.insert key { node with config := cfg }
    swaps := t.swaps.set node.handle (s.update (build key cfg)).1 }, ?_, rfl, ?_⟩
  · simp only [Tree.reconfigure, if_neg hne, Tree.update, hs, hok]
  · refine h.put (v := some { node with config := cfg }) (fun k => lookup_insert_eq ..) ?_ ?_ ?_
    · intro k
      split
      · next hk => rw [hk, h.service_eq, hnode]; rfl
      · rfl
    · intro k node' hk hnode'
      have hne : node.handle ≠ node'.handle := fun heq => hk (h.apart _ _ _ _ hnode' hnode heq.symm)
      refine ⟨List.getElem?_set_ne hne, ?_⟩
      rintro n ⟨⟩
      exact hne
    · rintro n ⟨⟩
      exact ⟨_, List.getElem?_set_self (h.handle_lt hnode), hnew⟩

end WellFormed

end Tree

/-! ## The loops -/

/-- Where the report notes a key, by the config it had. -/
def Reconcile.note [DecidableEq C] (r : Reconcile) (old : Option C) (key : String) (cfg : C) :
    Reconcile :=
  match old with
  | none => { r with added := r.added ++ [key] }
  | some c =>
    if c = cfg then { r with unchanged := r.unchanged ++ [key] }
    else { r with updated := r.updated ++ [key] }

section Loops

variable [DecidableEq C] {build : String → C → S}

section Note

variable (r : Reconcile) (old : Option C) (key : String) (cfg : C)

theorem Reconcile.note_added :
    (r.note old key cfg).added = r.added ++ if decide (old = none) then [key] else [] := by
  cases old with
  | none => simp [note]
  | some c => by_cases hc : c = cfg <;> simp [note, hc]

theorem Reconcile.note_updated :
    (r.note old key cfg).updated =
      r.updated ++ if decide (old ≠ none ∧ old ≠ some cfg) then [key] else [] := by
  cases old with
  | none => simp [note]
  | some c => by_cases hc : c = cfg <;> simp [note, hc]

theorem Reconcile.note_unchanged :
    (r.note old key cfg).unchanged =
      r.unchanged ++ if decide (old = some cfg) then [key] else [] := by
  cases old with
  | none => simp [note]
  | some c => by_cases hc : c = cfg <;> simp [note, hc]

theorem Reconcile.note_removed : (r.note old key cfg).removed = r.removed := by
  cases old with
  | none => rfl
  | some c => by_cases hc : c = cfg <;> simp [note, hc]

end Note

/-- **One new config.** -/
theorem visit_spec {t : Tree C S} (h : t.WellFormed build) (r : Reconcile) (key : String)
    (cfg : C) :
    ∃ t', Tree.visit build (t, r) (key, cfg) = (t', r.note (t.config key) key cfg) ∧
      t'.built = t.built ++ [(key, cfg)].filter (fun p => t.config p.1 ≠ some p.2) ∧
      t'.WellFormed build ∧ t'.config = Function.update t.config key (some cfg) := by
  cases hnode : t.nodes.lookup key with
  | none =>
    have hconfig : t.config key = none := by rw [Tree.config, hnode]; rfl
    obtain ⟨hbuilt, hspec⟩ := h.add hnode cfg
    refine ⟨t.add build key cfg, ?_, ?_, hspec⟩
    · simp only [Tree.visit, hnode, hconfig, Reconcile.note]
    · simp [hbuilt, hconfig]
  | some node =>
    have hconfig : t.config key = some node.config := by rw [Tree.config, hnode]; rfl
    by_cases heq : node.config = cfg
    · subst heq
      refine ⟨t, ?_, ?_, h, ?_⟩
      · simp only [Tree.visit, hnode, Tree.reconfigure, hconfig, Reconcile.note, if_true]
      · simp [hconfig]
      · rw [← hconfig, Function.update_eq_self]
    · obtain ⟨t', ht', hbuilt, hspec⟩ := h.reconfigure hnode heq
      refine ⟨t', ?_, ?_, hspec⟩
      · simp only [Tree.visit, hnode, ht', hconfig, Reconcile.note, if_neg heq]
      · simp [hbuilt, hconfig, heq]

/-- What the new configs `l` make of a tree and its report. -/
structure Visited (build : String → C → S) (l : List (String × C)) (t t' : Tree C S)
    (r r' : Reconcile) : Prop where
  wellFormed : t'.WellFormed build
  config_mem : ∀ p ∈ l, t'.config p.1 = some p.2
  config_other : ∀ key ∉ l.map Prod.fst, t'.config key = t.config key
  built : t'.built = t.built ++ l.filter fun p => t.config p.1 ≠ some p.2
  added : r'.added = r.added ++ (l.filter fun p => t.config p.1 = none).map Prod.fst
  updated : r'.updated = r.updated ++
    (l.filter fun p => t.config p.1 ≠ none ∧ t.config p.1 ≠ some p.2).map Prod.fst
  unchanged : r'.unchanged = r.unchanged ++
    (l.filter fun p => t.config p.1 = some p.2).map Prod.fst
  removed : r'.removed = r.removed

theorem visited_nil {t : Tree C S} (h : t.WellFormed build) (r : Reconcile) :
    Visited build [] t t r r :=
  ⟨h, nofun, fun _ _ => rfl, by simp, by simp, by simp, by simp, rfl⟩

/-- The configs that come later have other keys. -/
theorem Visited.cons {t t₁ t' : Tree C S} {r r' : Reconcile} {key : String} {cfg : C}
    {l : List (String × C)} (hkey : key ∉ l.map Prod.fst)
    (hbuilt : t₁.built = t.built ++ [(key, cfg)].filter (fun p => t.config p.1 ≠ some p.2))
    (hconfig : t₁.config = Function.update t.config key (some cfg))
    (h : Visited build l t₁ t' (r.note (t.config key) key cfg) r') :
    Visited build ((key, cfg) :: l) t t' r r' := by
  have hsame : ∀ p ∈ l, t₁.config p.1 = t.config p.1 := by
    intro p hp
    rw [hconfig, Function.update_of_ne]
    rintro rfl
    exact hkey (List.mem_map_of_mem hp)
  have hfilter : ∀ f : Option C → C → Bool,
      ((key, cfg) :: l).filter (fun p => f (t.config p.1) p.2) =
        [(key, cfg)].filter (fun p => f (t.config p.1) p.2) ++
          l.filter fun p => f (t₁.config p.1) p.2 := by
    intro f
    rw [← List.singleton_append, List.filter_append]
    exact congrArg _ (List.filter_congr fun p hp => by rw [hsame p hp])
  have hkeys : ∀ f : Option C → C → Bool,
      (((key, cfg) :: l).filter (fun p => f (t.config p.1) p.2)).map Prod.fst =
        (if f (t.config key) cfg then [key] else []) ++
          (l.filter fun p => f (t₁.config p.1) p.2).map Prod.fst := by
    intro f
    rw [hfilter, List.map_append]
    cases hf : f (t.config key) cfg <;> simp [hf]
  refine ⟨h.wellFormed, ?_, ?_, ?_, ?_, ?_, ?_, ?_⟩
  · rintro p (_ | ⟨_, hp⟩)
    · rw [h.config_other key hkey, hconfig, Function.update_self]
    · exact h.config_mem p hp
  · intro k hk
    rw [List.map_cons, List.mem_cons, not_or] at hk
    rw [h.config_other k hk.2, hconfig, Function.update_of_ne hk.1]
  · rw [h.built, hbuilt, hfilter fun old c => old ≠ some c, List.append_assoc]
  · rw [h.added, Reconcile.note_added, hkeys fun old _ => old = none, List.append_assoc]
  · rw [h.updated, Reconcile.note_updated, hkeys fun old c => old ≠ none ∧ old ≠ some c,
      List.append_assoc]
  · rw [h.unchanged, Reconcile.note_unchanged, hkeys fun old c => old = some c, List.append_assoc]
  · rw [h.removed, Reconcile.note_removed]

theorem visited_foldl {t : Tree C S} (h : t.WellFormed build) (r : Reconcile)
    (l : List (String × C)) (hl : (l.map Prod.fst).Nodup) :
    ∃ t' r', l.foldl (Tree.visit build) (t, r) = (t', r') ∧ Visited build l t t' r r' := by
  induction l generalizing t r with
  | nil => exact ⟨t, r, rfl, visited_nil h r⟩
  | cons p l ih =>
    obtain ⟨key, cfg⟩ := p
    rw [List.map_cons, List.nodup_cons] at hl
    obtain ⟨t₁, hvisit, hbuilt, hwf, hconfig⟩ := visit_spec h r key cfg
    obtain ⟨t', r', hfold, hvisited⟩ := ih hwf (r.note (t.config key) key cfg) hl.2
    refine ⟨t', r', ?_, hvisited.cons hl.1 hbuilt hconfig⟩
    rw [List.foldl_cons, hvisit, hfold]

omit [DecidableEq C] in
/-- **The stale keys.** -/
theorem foldl_prune {t : Tree C S} (h : t.WellFormed build) (r : Reconcile) (stale : List String) :
    ∃ t', stale.foldl Tree.prune (t, r) = (t', { r with removed := r.removed ++ stale }) ∧
      t'.WellFormed build ∧ t'.built = t.built ∧
      ∀ key, t'.config key = if key ∈ stale then none else t.config key := by
  induction stale generalizing t r with
  | nil => exact ⟨t, by simp, h, rfl, by simp⟩
  | cons k stale ih =>
    obtain ⟨hwf, hconfig⟩ := h.remove k
    obtain ⟨t', hfold, hwf', hbuilt, hkeys⟩ := ih hwf { r with removed := r.removed ++ [k] }
    refine ⟨t', ?_, hwf', ?_, ?_⟩
    · rw [List.foldl_cons, Tree.prune, hfold, List.append_assoc]
      rfl
    · rw [hbuilt, Tree.built_remove]
    · intro key
      rw [hkeys, hconfig, Function.update_apply]
      by_cases hk : key = k
      · simp [hk]
      · simp [hk]

end Loops

/-! ## The exact diff -/

/-- What a reconciliation of `t` with `newConfigs` has to lead to: the new keys in both
maps with their configs and services, a report that splits the old and the new keys in
four, and one call of the builder for each key added or updated. -/
structure ExactDiff (build : String → C → S) (t t' : Tree C S) (newConfigs : List (String × C))
    (report : Reconcile) : Prop where
  nodes : ∀ key, key ∈ t'.nodes ↔ key ∈ newConfigs.map Prod.fst
  services : ∀ key, key ∈ t'.services ↔ key ∈ newConfigs.map Prod.fst
  config : ∀ p ∈ newConfigs, t'.config p.1 = some p.2
  live : ∀ p ∈ newConfigs, t'.live p.1 = some (.ready (build p.1 p.2))
  added : ∀ key, key ∈ report.added ↔ key ∈ newConfigs.map Prod.fst ∧ key ∉ t.nodes
  removed : ∀ key, key ∈ report.removed ↔ key ∈ t.nodes ∧ key ∉ newConfigs.map Prod.fst
  updated : ∀ key, key ∈ report.updated ↔
    ∃ old new, t.config key = some old ∧ (key, new) ∈ newConfigs ∧ old ≠ new
  unchanged : ∀ key, key ∈ report.unchanged ↔
    ∃ cfg, t.config key = some cfg ∧ (key, cfg) ∈ newConfigs
  nodup : (report.added ++ report.updated ++ report.removed ++ report.unchanged).Nodup
  built : ∃ calls, t'.built = t.built ++ calls ∧ (calls.map Prod.fst).Nodup ∧
    ∀ p, p ∈ calls ↔ p ∈ newConfigs ∧ (p.1 ∈ report.added ∨ p.1 ∈ report.updated)

section Diff

variable {build : String → C → S} {t t₁ : Tree C S} {l : List (String × C)} {r : Reconcile}
  {key : String}

/-- A key with two configs would be there twice. -/
theorem eq_of_mem_of_nodup (hl : (l.map Prod.fst).Nodup) {c c' : C} (h : (key, c) ∈ l)
    (h' : (key, c') ∈ l) : c = c' :=
  congrArg Prod.snd (List.inj_on_of_nodup_map hl h h' rfl)

variable [DecidableEq C]

theorem Visited.mem_added (h : Visited build l t t₁ .default r) :
    key ∈ r.added ↔ key ∈ l.map Prod.fst ∧ key ∉ t.nodes := by
  rw [h.added, ← Tree.config_eq_none]
  simp only [List.nil_append, List.mem_map, List.mem_filter, decide_eq_true_eq]
  constructor
  · rintro ⟨p, ⟨hp, hnone⟩, rfl⟩
    exact ⟨⟨p, hp, rfl⟩, hnone⟩
  · rintro ⟨⟨p, hp, rfl⟩, hnone⟩
    exact ⟨p, ⟨hp, hnone⟩, rfl⟩

theorem Visited.mem_updated (h : Visited build l t t₁ .default r) :
    key ∈ r.updated ↔ ∃ old new, t.config key = some old ∧ (key, new) ∈ l ∧ old ≠ new := by
  rw [h.updated]
  simp only [List.nil_append, List.mem_map, List.mem_filter, decide_eq_true_eq]
  constructor
  · rintro ⟨⟨k, new⟩, ⟨hp, hsome, hne⟩, rfl⟩
    obtain ⟨old, hold⟩ := Option.ne_none_iff_exists'.mp hsome
    exact ⟨old, new, hold, hp, fun heq => hne (heq ▸ hold)⟩
  · rintro ⟨old, new, hold, hp, hne⟩
    refine ⟨(key, new), ⟨hp, ?_, ?_⟩, rfl⟩
    · rw [hold]
      exact Option.some_ne_none old
    · rw [hold]
      exact fun heq => hne (Option.some.inj heq)

theorem Visited.mem_unchanged (h : Visited build l t t₁ .default r) :
    key ∈ r.unchanged ↔ ∃ cfg, t.config key = some cfg ∧ (key, cfg) ∈ l := by
  rw [h.unchanged]
  simp only [List.nil_append, List.mem_map, List.mem_filter, decide_eq_true_eq]
  constructor
  · rintro ⟨⟨k, cfg⟩, ⟨hp, hcfg⟩, rfl⟩
    exact ⟨cfg, hcfg, hp⟩
  · rintro ⟨cfg, hcfg, hp⟩
    exact ⟨(key, cfg), ⟨hp, hcfg⟩, rfl⟩

theorem Visited.nodup (h : Visited build l t t₁ .default r) (hl : (l.map Prod.fst).Nodup) :
    r.added.Nodup ∧ r.updated.Nodup ∧ r.unchanged.Nodup := by
  have hsub : ∀ f : String × C → Bool, ((l.filter f).map Prod.fst).Nodup :=
    fun f => hl.sublist (List.filter_sublist.map _)
  rw [h.added, h.updated, h.unchanged]
  exact ⟨hsub _, hsub _, hsub _⟩

/-- The builder is called for the keys that the report notes as added or updated. -/
theorem Visited.mem_built (h : Visited build l t t₁ .default r) (hl : (l.map Prod.fst).Nodup)
    (p : String × C) :
    p ∈ l.filter (fun p => t.config p.1 ≠ some p.2) ↔
      p ∈ l ∧ (p.1 ∈ r.added ∨ p.1 ∈ r.updated) := by
  obtain ⟨key, cfg⟩ := p
  rw [List.mem_filter, h.mem_added, h.mem_updated, decide_eq_true_eq, ← Tree.config_eq_none]
  constructor
  · rintro ⟨hp, hne⟩
    refine ⟨hp, ?_⟩
    cases hold : t.config key with
    | none => exact .inl ⟨List.mem_map_of_mem hp, rfl⟩
    | some old => exact .inr ⟨old, cfg, rfl, hp, fun heq => hne (heq ▸ hold)⟩
  · rintro ⟨hp, ⟨-, hnone⟩ | ⟨old, new, hold, hnew, hne⟩⟩
    · exact ⟨hp, by simp [hnone]⟩
    · obtain rfl := eq_of_mem_of_nodup hl hp hnew
      exact ⟨hp, by simpa [hold] using hne⟩

/-- The keys that are left to remove. -/
theorem Visited.mem_stale (h : Visited build l t t₁ .default r) {order : List String}
    (horder : order.Perm t₁.nodes.keys) :
    key ∈ order.filter (· ∉ l.map Prod.fst) ↔ key ∈ t.nodes ∧ key ∉ l.map Prod.fst := by
  rw [List.mem_filter, horder.mem_iff, ← AList.mem_keys, decide_eq_true_eq]
  refine and_congr_left fun hkey => not_iff_not.mp ?_
  rw [← Tree.config_eq_none, ← Tree.config_eq_none, h.config_other key hkey]

omit [DecidableEq C] in
/-- No key is in two lists of the report. -/
theorem nodup_report {report : Reconcile} (hl : (l.map Prod.fst).Nodup)
    (hadded : ∀ key, key ∈ report.added ↔ key ∈ l.map Prod.fst ∧ key ∉ t.nodes)
    (hremoved : ∀ key, key ∈ report.removed ↔ key ∈ t.nodes ∧ key ∉ l.map Prod.fst)
    (hupdated : ∀ key, key ∈ report.updated ↔
      ∃ old new, t.config key = some old ∧ (key, new) ∈ l ∧ old ≠ new)
    (hunchanged : ∀ key, key ∈ report.unchanged ↔ ∃ cfg, t.config key = some cfg ∧ (key, cfg) ∈ l)
    (hnodup : report.added.Nodup ∧ report.updated.Nodup ∧ report.unchanged.Nodup)
    (hremoved_nodup : report.removed.Nodup) :
    (report.added ++ report.updated ++ report.removed ++ report.unchanged).Nodup := by
  have hadded_config : ∀ key ∈ report.added, t.config key = none :=
    fun key hkey => Tree.config_eq_none.mpr ((hadded key).mp hkey).2
  have hin : ∀ key ∈ report.added ++ report.updated, key ∈ l.map Prod.fst := by
    intro key hkey
    rcases List.mem_append.mp hkey with hkey | hkey
    · exact ((hadded key).mp hkey).1
    · obtain ⟨_, _, -, hmem, -⟩ := (hupdated key).mp hkey
      exact List.mem_map_of_mem hmem
  rw [List.nodup_append, List.nodup_append, List.nodup_append]
  refine ⟨⟨⟨hnodup.1, hnodup.2.1, ?_⟩, hremoved_nodup, ?_⟩, hnodup.2.2, ?_⟩
  · rintro key hkey _ hkey' rfl
    obtain ⟨old, _, hold, -⟩ := (hupdated key).mp hkey'
    exact absurd ((hadded_config key hkey).symm.trans hold) nofun
  · rintro key hkey _ hkey' rfl
    exact ((hremoved key).mp hkey').2 (hin key hkey)
  · rintro key hkey _ hkey' rfl
    obtain ⟨cfg, hcfg, hmem⟩ := (hunchanged key).mp hkey'
    rcases List.mem_append.mp hkey with hkey | hkey
    · rcases List.mem_append.mp hkey with hkey | hkey
      · exact absurd ((hadded_config key hkey).symm.trans hcfg) nofun
      · obtain ⟨old, new, hold, hmem', hne⟩ := (hupdated key).mp hkey
        obtain rfl := eq_of_mem_of_nodup hl hmem hmem'
        exact hne (Option.some.inj (hold.symm.trans hcfg))
    · exact ((hremoved key).mp hkey).2 (List.mem_map_of_mem hmem)

theorem reconcile_spec (h : t.WellFormed build) {order : List String}
    (hl : (l.map Prod.fst).Nodup) (horder : order.Perm (t.visitAll build l).1.nodes.keys) :
    (t.reconcile build l order).1.WellFormed build ∧
      ExactDiff build t (t.reconcile build l order).1 l (t.reconcile build l order).2 := by
  obtain ⟨t₁, r₁, hvisit, hv⟩ := visited_foldl h .default l hl
  rw [Tree.visitAll, hvisit] at horder
  obtain ⟨t', hprune, hwf, hbuilt, hconfig⟩ :=
    foldl_prune hv.wellFormed r₁ (order.filter (· ∉ l.map Prod.fst))
  have hreconcile : t.reconcile build l order =
      (t', { r₁ with removed := r₁.removed ++ order.filter (· ∉ l.map Prod.fst) }) := by
    rw [Tree.reconcile, Tree.visitAll, hvisit, hprune]
  have hstale : ∀ key, key ∈ r₁.removed ++ order.filter (· ∉ l.map Prod.fst) ↔
      key ∈ t.nodes ∧ key ∉ l.map Prod.fst := by
    intro key
    rw [hv.removed, List.nil_append, hv.mem_stale horder]
  have hnew : ∀ p ∈ l, t'.config p.1 = some p.2 := by
    intro p hp
    rw [hconfig, if_neg, hv.config_mem p hp]
    rw [hv.mem_stale horder]
    exact fun hkey => hkey.2 (List.mem_map_of_mem hp)
  have hnodes : ∀ key, key ∈ t'.nodes ↔ key ∈ l.map Prod.fst := by
    intro key
    rw [← not_iff_not, ← Tree.config_eq_none]
    constructor
    · intro hnone hmem
      obtain ⟨p, hp, rfl⟩ := List.mem_map.mp hmem
      rw [hnew p hp] at hnone
      cases hnone
    · intro hmem
      rw [hconfig, hv.config_other key hmem]
      split
      · rfl
      · next hkeep =>
        rw [hv.mem_stale horder] at hkeep
        exact Tree.config_eq_none.mpr fun hkey => hkeep ⟨hkey, hmem⟩
  rw [hreconcile]
  refine ⟨hwf, hnodes, fun key => hwf.mem_services.trans (hnodes key), hnew,
    fun p hp => hwf.live_eq (hnew p hp), fun _ => hv.mem_added, hstale, fun _ => hv.mem_updated,
    fun _ => hv.mem_unchanged, ?_, _, by rw [hbuilt, hv.built], ?_, hv.mem_built hl⟩
  · refine nodup_report hl (fun _ => hv.mem_added) hstale (fun _ => hv.mem_updated)
      (fun _ => hv.mem_unchanged) (hv.nodup hl) ?_
    rw [hv.removed, List.nil_append]
    exact (horder.nodup_iff.mpr t₁.nodes.keys_nodup).filter _
  · exact hl.sublist (List.filter_sublist.map _)

theorem wellFormed_of_run {policy : UpdatePolicy} {trace : List (Act C S × Tree C S)}
    (h : Run (Step build) (.new policy) trace t) : t.WellFormed build := by
  apply h.invariant (Tree.wellFormed_new policy)
  intro s s' a hs hstep
  cases hstep with
  | reconcile l order hl horder => exact (reconcile_spec hs hl horder).1
  | use hswap hstep huser => exact hs.use hswap hstep huser

/-- **Reconciliation is an exact diff**, after any reconciliations before and whatever
the users of the services did. -/
theorem reconcile_exact_diff {policy : UpdatePolicy} {trace : List (Act C S × Tree C S)}
    {t' : Tree C S} {report : Reconcile} (h : Run (Step build) (.new policy) trace t)
    (hstep : Step build t (.reconcile l report) t') : ExactDiff build t t' l report := by
  have hwf := wellFormed_of_run h
  cases hstep with
  | reconcile _ order hl horder => exact (reconcile_spec hwf hl horder).2

/-- Of `a` and `b`, `a` goes, `b` changes, and `c` comes. -/
theorem reconcile_exact_diff_twice :
    ∃ trace t t', Run (Step fun _ (c : Nat) => c) (.new .drain) trace t ∧
      trace.length = 1 ∧
      Step (fun _ c => c) t (.reconcile [("b", 3), ("c", 4)] ⟨["c"], ["b"], ["a"], []⟩) t' ∧
      ExactDiff (fun _ c => c) t t' [("b", 3), ("c", 4)] ⟨["c"], ["b"], ["a"], []⟩ := by
  have hrun : Run (Step fun _ (c : Nat) => c) (.new .drain) _ _ :=
    .cons (.reconcile [("a", 1), ("b", 2)] ["b", "a"] (by decide) (by decide +kernel)) (.nil _)
  have hstep : Step (fun _ c => c)
      (Tree.reconcile (fun _ c => c) (.new .drain) [("a", 1), ("b", 2)] ["b", "a"]).1 _ _ :=
    .reconcile [("b", 3), ("c", 4)] ["c", "b", "a"] (by decide) (by decide +kernel)
  exact ⟨_, _, _, hrun, rfl, hstep, reconcile_exact_diff hrun hstep⟩

end Diff

end XrayRs.KeyedTree
