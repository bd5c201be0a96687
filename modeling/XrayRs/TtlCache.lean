import Mathlib.Data.Set.Basic
import Mathlib.Tactic.Common

/-! # Caches whose entries expire

A cache with a time to live, as its users see it: what it finds for a key, what it is once a
value is put there, and what it does with its entries by itself.  How it is built is left
open.  Two hypotheses say what users may rely on: what is found was put there less than the
time to live ago (`FindsFresh`), and what is put there is found until then, unless it is
evicted (`Retains`).

For a cache in use the two become invariants: `Holds`, that all it will find satisfies some
property, and `Keeps`, that it will find something for a key up to some time. -/

namespace TtlCache

/-- A cache.  What `Settles` relates to a state is what the cache may be, at that time, once
it has evicted the entries of these keys. -/
structure Cache (κ ν : Type) where
  State : Type
  new : State
  get : State → Nat → κ → Option ν
  insert : State → Nat → κ → ν → State
  Settles : State → Nat → Set κ → State → Prop

variable {κ ν : Type} {c : Cache κ ν} {ttl : Nat}

/-- **What is found was put there** for that key, less than the time to live ago: a new cache
finds nothing, a value that is put there expires, and nothing comes up by itself. -/
structure Cache.FindsFresh (c : Cache κ ν) (ttl : Nat) : Prop where
  new : ∀ now key, c.get c.new now key = none
  insert : ∀ s since now key value key' value',
    c.get (c.insert s since key value) now key' = some value' →
      (key' = key ∧ value' = value ∧ now < since + ttl) ∨ c.get s now key' = some value'
  settles : ∀ s since evicted s', c.Settles s since evicted s' →
    ∀ now key value, since ≤ now → c.get s' now key = some value → c.get s now key = some value

/-- **What is put there is found** until it expires, unless it is evicted. -/
structure Cache.Retains (c : Cache κ ν) (ttl : Nat) : Prop where
  insert : ∀ s since now key value, since ≤ now → now < since + ttl →
    c.get (c.insert s since key value) now key = some value
  insert_ne : ∀ s since now key value key' value', key' ≠ key → since ≤ now →
    c.get s now key' = some value' → c.get (c.insert s since key value) now key' = some value'
  settles : ∀ s since evicted s', c.Settles s since evicted s' → ∀ now key value, key ∉ evicted →
    since ≤ now → c.get s now key = some value → c.get s' now key = some value

/-! ## What is found -/

/-- All that will be found satisfies this, as what was put there at some time. -/
def Cache.Holds (c : Cache κ ν) (ttl : Nat) (P : κ → ν → Nat → Prop) (s : c.State) (now : Nat) :
    Prop :=
  ∀ later key value, now ≤ later → c.get s later key = some value →
    ∃ since, P key value since ∧ later < since + ttl

section

variable {P Q : κ → ν → Nat → Prop} {s s' : c.State} {now : Nat}

theorem Cache.Holds.mono (h : c.Holds ttl P s now)
    (hPQ : ∀ key value since, P key value since → Q key value since) : c.Holds ttl Q s now := by
  intro later key value hlater hget
  obtain ⟨since, hP, hfresh⟩ := h later key value hlater hget
  exact ⟨since, hPQ _ _ _ hP, hfresh⟩

theorem Cache.Holds.later (h : c.Holds ttl P s now) {now' : Nat} (hle : now ≤ now') :
    c.Holds ttl P s now' :=
  fun later key value hlater => h later key value (Nat.le_trans hle hlater)

namespace Cache.FindsFresh

variable (hc : c.FindsFresh ttl)
include hc

theorem holds_new : c.Holds ttl P c.new now := by
  intro later key value _ hget
  rw [hc.new] at hget
  cases hget

theorem holds_insert (h : c.Holds ttl P s now) {key : κ} {value : ν} (hnew : P key value now) :
    c.Holds ttl P (c.insert s now key value) now := by
  intro later key' value' hlater hget
  rcases hc.insert _ _ _ _ _ _ _ hget with ⟨rfl, rfl, hfresh⟩ | hold
  · exact ⟨now, hnew, hfresh⟩
  · exact h later key' value' hlater hold

theorem holds_settles (h : c.Holds ttl P s now) {evicted : Set κ}
    (hsettles : c.Settles s now evicted s') : c.Holds ttl P s' now := by
  intro later key value hlater hget
  exact h later key value hlater (hc.settles _ _ _ _ hsettles _ _ _ hlater hget)

end Cache.FindsFresh

end

/-! ## What is retained -/

/-- Something will be found for the key, before this time. -/
def Cache.Keeps (c : Cache κ ν) (s : c.State) (now : Nat) (key : κ) (expiry : Nat) : Prop :=
  ∀ later, now ≤ later → later < expiry → ∃ value, c.get s later key = some value

section

variable {s s' : c.State} {now expiry : Nat} {key : κ}

theorem Cache.Keeps.later (h : c.Keeps s now key expiry) {now' : Nat} (hle : now ≤ now') :
    c.Keeps s now' key expiry :=
  fun later hlater => h later (Nat.le_trans hle hlater)

/-- What finds nothing has expired. -/
theorem Cache.Keeps.expired (h : c.Keeps s now key expiry) (hget : c.get s now key = none) :
    expiry ≤ now := by
  apply Nat.le_of_not_lt
  intro hlt
  obtain ⟨value, hsome⟩ := h now (Nat.le_refl _) hlt
  rw [hget] at hsome
  cases hsome

namespace Cache.Retains

variable (hc : c.Retains ttl)
include hc

theorem keeps_insert {value : ν} (hexpiry : expiry ≤ now + ttl) :
    c.Keeps (c.insert s now key value) now key expiry := by
  intro later hlater hlt
  exact ⟨value, hc.insert _ _ _ _ _ hlater (Nat.lt_of_lt_of_le hlt hexpiry)⟩

theorem keeps_insert_ne (h : c.Keeps s now key expiry) {key' : κ} {value : ν} (hne : key ≠ key') :
    c.Keeps (c.insert s now key' value) now key expiry := by
  intro later hlater hlt
  obtain ⟨found, hget⟩ := h later hlater hlt
  exact ⟨found, hc.insert_ne _ _ _ _ _ _ _ hne hlater hget⟩

theorem keeps_settles (h : c.Keeps s now key expiry) {evicted : Set κ}
    (hsettles : c.Settles s now evicted s') (hkept : key ∉ evicted) :
    c.Keeps s' now key expiry := by
  intro later hlater hlt
  obtain ⟨found, hget⟩ := h later hlater hlt
  exact ⟨found, hc.settles _ _ _ _ hsettles _ _ _ hkept hlater hget⟩

end Cache.Retains

end

/-! ## A map as a cache -/

/-- A map that keeps for each key the value that was put there last, and when. -/
abbrev Entries (κ ν : Type) := κ → Option (ν × Nat)

/-- The value of a key, unless it has expired. -/
def Entries.find (entries : Entries κ ν) (ttl now : Nat) (key : κ) : Option ν :=
  (entries key).bind fun e => if now < e.2 + ttl then some e.1 else none

theorem Entries.find_of_eq {entries entries' : Entries κ ν} {now : Nat} {key : κ}
    (h : entries' key = entries key) : entries'.find ttl now key = entries.find ttl now key := by
  rw [find, find, h]

theorem Entries.find_of_none {entries : Entries κ ν} {now : Nat} {key : κ}
    (h : entries key = none) : entries.find ttl now key = none := by
  rw [find, h, Option.bind_none]

variable [DecidableEq κ]

theorem Entries.find_update_self (entries : Entries κ ν) (since now : Nat) (key : κ) (value : ν) :
    Entries.find (Function.update entries key (some (value, since))) ttl now key =
      if now < since + ttl then some value else none := by
  rw [find, Function.update_self, Option.bind_some]

/-- A map as a cache, which may drop the entries that it evicts. -/
def mapCache (κ ν : Type) [DecidableEq κ] (ttl : Nat) : Cache κ ν where
  State := Entries κ ν
  new _ := none
  get entries now key := entries.find ttl now key
  insert entries now key value := Function.update entries key (some (value, now))
  Settles entries _ evicted entries' :=
    ∀ key, entries' key = entries key ∨ key ∈ evicted ∧ entries' key = none

theorem mapCache_findsFresh : (mapCache κ ν ttl).FindsFresh ttl where
  new _ _ := rfl
  insert entries since now key value key' value' := by
    intro hget
    by_cases hkey : key' = key
    · subst hkey
      have hfound := (Entries.find_update_self entries since now key' value).symm.trans hget
      rw [Option.ite_none_right_eq_some] at hfound
      exact .inl ⟨rfl, (Option.some.inj hfound.2).symm, hfound.1⟩
    · exact .inr ((Entries.find_of_eq (Function.update_of_ne hkey ..)).symm.trans hget)
  settles entries since evicted entries' := by
    intro hsettles now key value _ hget
    rcases hsettles key with hsame | ⟨-, hgone⟩
    · exact (Entries.find_of_eq hsame).symm.trans hget
    · cases (Entries.find_of_none hgone).symm.trans hget

theorem mapCache_retains : (mapCache κ ν ttl).Retains ttl where
  insert entries since now key value := by
    intro _ hfresh
    exact (Entries.find_update_self entries since now key value).trans (if_pos hfresh)
  insert_ne entries since now key value key' value' := by
    intro hne _ hget
    exact (Entries.find_of_eq (Function.update_of_ne hne ..)).trans hget
  settles entries since evicted entries' := by
    intro hsettles now key value hkept _ hget
    rcases hsettles key with hsame | ⟨hgone, -⟩
    · exact (Entries.find_of_eq hsame).trans hget
    · exact absurd hgone hkept

end TtlCache
