import Mathlib.Data.List.Basic
import Mathlib.Data.List.Nodup
import Mathlib.Tactic.Common

/-! # Lists of keys and values

A list of key and value pairs with distinct keys stands for a partial function, whatever
its order (`lookup_perm`).  A loop that takes one pair after the other and writes the
value under some key to a place of its state ends with what the list has under that key
(`foldl_eq_lookup`). -/

namespace AssocList

variable {κ ν σ : Type} [BEq κ] [LawfulBEq κ] {kvs kvs' : List (κ × ν)} {key : κ} {value : ν}

theorem lookup_eq_some_iff_mem (hnodup : (kvs.map Prod.fst).Nodup) :
    kvs.lookup key = some value ↔ (key, value) ∈ kvs := by
  induction kvs with
  | nil => simp
  | cons kv kvs ih =>
    obtain ⟨k, v⟩ := kv
    rw [List.map_cons, List.nodup_cons] at hnodup
    rw [List.lookup_cons, List.mem_cons]
    by_cases hk : key = k
    · subst hk
      have hnone : ∀ v', (key, v') ∉ kvs := fun v' hmem =>
        hnodup.1 (List.mem_map.mpr ⟨_, hmem, rfl⟩)
      simp [hnone, eq_comm]
    · rw [beq_eq_false_iff_ne.mpr hk]
      simp [ih hnodup.2, hk]

/-- **The order does not matter.** -/
theorem lookup_perm (hperm : kvs.Perm kvs') (hnodup : (kvs.map Prod.fst).Nodup) (key : κ) :
    kvs.lookup key = kvs'.lookup key := by
  apply Option.ext
  intro value
  rw [lookup_eq_some_iff_mem hnodup,
    lookup_eq_some_iff_mem ((hperm.map Prod.fst).nodup_iff.mp hnodup)]
  exact hperm.mem_iff

/-- **What a loop leaves in a place** that one key writes to. -/
theorem foldl_eq_lookup (step : σ → κ × ν → σ) (place : σ → ν) (key : κ)
    (hstep : ∀ kv ∈ kvs, ∀ s, place (step s kv) = if kv.1 == key then kv.2 else place s)
    (hnodup : (kvs.map Prod.fst).Nodup) (s : σ) :
    place (kvs.foldl step s) = (kvs.lookup key).getD (place s) := by
  induction kvs generalizing s with
  | nil => rfl
  | cons kv kvs ih =>
    obtain ⟨k, v⟩ := kv
    obtain ⟨hfirst, hstep⟩ := List.forall_mem_cons.mp hstep
    rw [List.map_cons, List.nodup_cons] at hnodup
    rw [List.foldl_cons, ih hstep hnodup.2, hfirst, List.lookup_cons]
    by_cases hk : k = key
    · subst hk
      have hnone : kvs.lookup k = none := by
        rw [List.lookup_eq_none_iff]
        intro kv hmem
        rw [bne_iff_ne]
        rintro rfl
        exact hnodup.1 (List.mem_map.mpr ⟨kv, hmem, rfl⟩)
      simp [hnone]
    · rw [beq_eq_false_iff_ne.mpr hk, beq_eq_false_iff_ne.mpr (Ne.symm hk)]
      rfl

/-! ## Tables that a loop fills

A later entry takes the place of an earlier one. -/

section Table

variable {α : Type} {f : α → κ × ν} {xs : List α}

theorem exists_of_lookup_foldl (h : (xs.foldl (fun kvs x => f x :: kvs) []).lookup key = some value) :
    ∃ x ∈ xs, f x = (key, value) := by
  obtain ⟨front, back, hsplit, -⟩ := List.lookup_eq_some_iff.mp h
  rw [List.foldl_flip_cons_eq_append, List.append_nil] at hsplit
  have hmem : (key, value) ∈ (xs.map f).reverse := hsplit ▸ by simp
  obtain ⟨x, hx, hf⟩ := List.mem_map.mp (List.mem_reverse.mp hmem)
  exact ⟨x, hx, hf⟩

/-- An entry is found, if the others with its key have its value. -/
theorem lookup_foldl_of_mem {x : α} (hx : x ∈ xs) (hkey : (f x).1 = key)
    (hone : ∀ y ∈ xs, (f y).1 = key → (f y).2 = (f x).2) :
    (xs.foldl (fun kvs x => f x :: kvs) []).lookup key = some (f x).2 := by
  cases h : (xs.foldl (fun kvs x => f x :: kvs) []).lookup key with
  | none =>
    rw [List.lookup_eq_none_iff] at h
    have hmem : f x ∈ xs.foldl (fun kvs x => f x :: kvs) [] := by
      rw [List.foldl_flip_cons_eq_append, List.append_nil]
      exact List.mem_reverse.mpr (List.mem_map_of_mem hx)
    have hne := h _ hmem
    rw [hkey, bne_self_eq_false] at hne
    cases hne
  | some value =>
    obtain ⟨y, hy, hf⟩ := exists_of_lookup_foldl h
    have hsame := hone y hy (congrArg Prod.fst hf)
    rw [hf] at hsame
    exact congrArg some hsame

end Table

end AssocList
