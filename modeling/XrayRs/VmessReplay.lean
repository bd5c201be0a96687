import Mathlib.Data.Finset.Lattice.Fold
import XrayRs.VmessAuth

/-! # The VMess replay filter and the handler around it

`ReplayFilter` and the authentication part of `Vmess::read_header`
(`proxy/src/vmess.rs`).  The filter keeps the admitted authIDs twice: as a set,
for the lookup, and in order of admission, each with its expiry, for pruning
from the front.

A filter that `Tracks` a log of admissions answers as the abstract gate of
`ReplayWindow` does, and pruning, inserting and authenticating keep it tracking;
so the accepted attempts of a whole run are the admissions of that gate. -/

namespace XrayRs.Vmess

open ByteWords ReplayWindow

/-! ## The filter -/

/-- `VMESS_AUTH_REPLAY_WINDOW_SECS`. -/
def authReplayWindowSecs : Nat := 120

/-- `VMESS_AUTH_REPLAY_MAX`. -/
def authReplayMax : Nat := 65536

/-- `ReplayEntry`. -/
structure ReplayEntry where
  authid : Block
  expiresAt : Nat
  deriving DecidableEq

/-- `ReplayFilter`. -/
structure ReplayFilter where
  seen : Finset Block
  order : List ReplayEntry
  deriving DecidableEq

/-- `ReplayFilter::default`. -/
def ReplayFilter.empty : ReplayFilter := ⟨∅, []⟩

/-- The loop of `ReplayFilter::prune`. -/
def pruneLoop (now : Nat) : List ReplayEntry → Finset Block → ReplayFilter
  | [], seen => ⟨seen, []⟩
  | entry :: order, seen =>
    if now < entry.expiresAt then ⟨seen, entry :: order⟩
    else pruneLoop now order (seen.erase entry.authid)

/-- `ReplayFilter::prune`. -/
def ReplayFilter.prune (f : ReplayFilter) (now : Nat) : ReplayFilter := pruneLoop now f.order f.seen

/-- `now.saturating_add(VMESS_AUTH_REPLAY_WINDOW_SECS)`, on `u64`. -/
def expiresAt (now : Nat) : Nat := min (now + authReplayWindowSecs) (2 ^ 64 - 1)

/-- `ReplayFilter::check_insert`. -/
def ReplayFilter.checkInsert (f : ReplayFilter) (authid : Block) (now : Nat) :
    Bool × ReplayFilter :=
  let f := f.prune now
  if authid ∈ f.seen ∨ authReplayMax ≤ f.seen.card then (false, f)
  else (true, ⟨insert authid f.seen, f.order ++ [⟨authid, expiresAt now⟩]⟩)

/-! ## The handler -/

/-- `VMESS_ACTIVE_AUTH_MAX`. -/
def activeAuthMax : Nat := 1024

/-- `Vmess`: the user table, the hotset, the filter and the statistics. -/
structure Handler where
  users : VmessUsers
  activeUsers : List Nat
  replayFilter : ReplayFilter
  authActiveHits : UInt64
  authFallbackHits : UInt64
  authFailures : UInt64

/-- `Vmess::new`. -/
def Handler.new (users : VmessUsers) : Handler := ⟨users, [], .empty, 0, 0, 0⟩

/-- `Vmess::remember_active_user`, on the hotset. -/
def rememberActiveUser (active : List Nat) (index : Nat) : List Nat :=
  let active := index :: active.erase index
  if activeAuthMax < active.length then active.dropLast else active

/-- `Vmess::record_auth_hit`. -/
def Handler.recordAuthHit (h : Handler) : VmessAuthKind → Handler
  | .active => { h with authActiveHits := h.authActiveHits + 1 }
  | .fallback => { h with authFallbackHits := h.authFallbackHits + 1 }

/-- The authentication part of `Vmess::read_header`, on an authID presented at
clock time `now`. -/
def Handler.authenticate (crc32 : Bytes → UInt32) (h : Handler) (authid : Block) (now : Nat) :
    Except IoError VmessAuth × Handler :=
  match h.users.matchUser crc32 authid h.activeUsers now with
  | none =>
    (.error ⟨.invalidData, .msg "vmess auth"⟩, { h with authFailures := h.authFailures + 1 })
  | some matched =>
    let (fresh, filter) := h.replayFilter.checkInsert authid now
    let h := { h with replayFilter := filter }
    if !fresh then
      (.error ⟨.invalidData, .msg "vmess replay"⟩, { h with authFailures := h.authFailures + 1 })
    else
      let h := h.recordAuthHit matched.kind
      (.ok matched, { h with activeUsers := rememberActiveUser h.activeUsers matched.index })

/-- A connection attempt: the authID and the clock time it is presented at. -/
abbrev Attempt := Token Block

/-- The attempts of a run that are accepted, in order. -/
def Handler.accepts (crc32 : Bytes → UInt32) : Handler → List Attempt → List Attempt
  | _, [] => []
  | h, a :: attempts =>
    match h.authenticate crc32 a.id a.now with
    | (.ok _, h') => a :: h'.accepts crc32 attempts
    | (.error _, h') => h'.accepts crc32 attempts

/-- At every attempt of the run fewer than `VMESS_AUTH_REPLAY_MAX` entries are
unexpired. -/
def Handler.Roomy (crc32 : Bytes → UInt32) : Handler → List Attempt → Prop
  | _, [] => True
  | h, a :: attempts =>
    (h.replayFilter.prune a.now).seen.card < authReplayMax ∧
      (h.authenticate crc32 a.id a.now).2.Roomy crc32 attempts

/-! ## What the filter remembers -/

theorem expiresAt_mono : Monotone expiresAt := by
  intro a b h
  unfold expiresAt
  exact min_le_min (Nat.add_le_add_right h _) (Nat.le_refl _)

/-- The entry the filter keeps for an admission. -/
def entryOf (x : Attempt) : ReplayEntry := ⟨x.id, expiresAt x.now⟩

/-- **The filter tracks a log of admissions** `forgotten ++ kept` at time `τ`: it
holds exactly the kept ones, in order and without repetition, and the others
have expired. -/
structure Tracks (f : ReplayFilter) (forgotten kept : List Attempt) (τ : Nat) : Prop where
  order_eq : f.order = kept.map entryOf
  seen_eq : f.seen = (kept.map Token.id).toFinset
  nodup : (kept.map Token.id).Nodup
  sorted : kept.Pairwise fun x y => x.now ≤ y.now
  expired : ∀ x ∈ forgotten, expiresAt x.now ≤ τ

theorem tracks_empty : Tracks .empty [] [] 0 :=
  ⟨rfl, rfl, List.nodup_nil, List.Pairwise.nil, by simp⟩

section Tracks

variable {f : ReplayFilter} {forgotten kept : List Attempt} {x : Attempt} {τ now : Nat}

theorem Tracks.expired_mono (h : Tracks f forgotten kept τ) (hle : τ ≤ now) :
    Tracks f forgotten kept now :=
  ⟨h.order_eq, h.seen_eq, h.nodup, h.sorted, fun x hx => Nat.le_trans (h.expired x hx) hle⟩

theorem Tracks.prune_nil (h : Tracks f forgotten [] τ) : f.prune now = f := by
  obtain ⟨seen, order⟩ := f
  obtain rfl : order = [] := h.order_eq
  rfl

/-- Pruning stops at an entry that is alive. -/
theorem Tracks.prune_of_alive (h : Tracks f forgotten (x :: kept) τ)
    (halive : now < expiresAt x.now) : f.prune now = f := by
  obtain ⟨seen, order⟩ := f
  obtain rfl : order = (x :: kept).map entryOf := h.order_eq
  exact if_pos halive

/-- Pruning takes off an expired entry, and goes on with a filter that tracks the
rest. -/
theorem Tracks.prune_of_expired (h : Tracks f forgotten (x :: kept) τ) (hle : τ ≤ now)
    (hexpired : expiresAt x.now ≤ now) :
    ∃ f', f.prune now = f'.prune now ∧ Tracks f' (forgotten ++ [x]) kept now := by
  obtain ⟨seen, order⟩ := f
  obtain rfl : order = (x :: kept).map entryOf := h.order_eq
  obtain ⟨hfresh, hnodup⟩ := List.nodup_cons.mp h.nodup
  refine ⟨⟨seen.erase x.id, kept.map entryOf⟩, if_neg (Nat.not_lt.mpr hexpired), rfl, ?_, hnodup,
    (List.pairwise_cons.mp h.sorted).2, ?_⟩
  · have hseen : seen = ((x :: kept).map Token.id).toFinset := h.seen_eq
    rw [hseen, List.map_cons, List.toFinset_cons, Finset.erase_insert]
    rwa [List.mem_toFinset]
  · intro y hy
    rcases List.mem_append.mp hy with hy | hy
    · exact Nat.le_trans (h.expired y hy) hle
    · rw [List.mem_singleton.mp hy]
      exact hexpired

end Tracks

/-- Pruning drops a front part of the kept admissions, and what it leaves is
unexpired. -/
theorem Tracks.prune :
    ∀ {kept : List Attempt} {f : ReplayFilter} {forgotten : List Attempt} {τ now : Nat},
      Tracks f forgotten kept τ → τ ≤ now →
      ∃ dropped kept', kept = dropped ++ kept' ∧
        Tracks (f.prune now) (forgotten ++ dropped) kept' now ∧
        ∀ x ∈ kept', now < expiresAt x.now := by
  intro kept
  induction kept with
  | nil =>
    intro f forgotten τ now h hle
    refine ⟨[], [], rfl, ?_, by simp⟩
    rw [h.prune_nil, List.append_nil]
    exact h.expired_mono hle
  | cons x kept ih =>
    intro f forgotten τ now h hle
    by_cases halive : now < expiresAt x.now
    · refine ⟨[], x :: kept, rfl, ?_, ?_⟩
      · rw [h.prune_of_alive halive, List.append_nil]
        exact h.expired_mono hle
      · -- the later entries expire no earlier than the front one
        intro y hy
        rcases List.mem_cons.mp hy with rfl | hy
        · exact halive
        · have hxy := (List.pairwise_cons.mp h.sorted).1 y hy
          exact Nat.lt_of_lt_of_le halive (expiresAt_mono hxy)
    · obtain ⟨f', hprune, htail⟩ := h.prune_of_expired hle (Nat.not_lt.mp halive)
      obtain ⟨dropped, kept', hkept, htracks, hleft⟩ := ih htail (Nat.le_refl now)
      refine ⟨x :: dropped, kept', by rw [hkept]; rfl, ?_, hleft⟩
      rw [hprune]
      simpa using htracks

/-- After pruning, an authID is in the set iff some admission of it has not
expired. -/
theorem Tracks.mem_seen {f : ReplayFilter} {forgotten kept : List Attempt} {now : Nat}
    (h : Tracks f forgotten kept now) (halive : ∀ x ∈ kept, now < expiresAt x.now) (authid : Block) :
    authid ∈ f.seen ↔ ∃ x ∈ forgotten ++ kept, x.id = authid ∧ now < expiresAt x.now := by
  rw [h.seen_eq, List.mem_toFinset, List.mem_map]
  constructor
  · rintro ⟨x, hx, rfl⟩
    exact ⟨x, List.mem_append_right _ hx, rfl, halive x hx⟩
  · rintro ⟨x, hx, rfl, hlt⟩
    rcases List.mem_append.mp hx with hx | hx
    · exact absurd (h.expired x hx) (Nat.not_le.mpr hlt)
    · exact ⟨x, hx, rfl⟩

/-- Inserting an admission that is not in the set keeps the filter tracking. -/
theorem Tracks.insert {f : ReplayFilter} {forgotten kept : List Attempt} {now : Nat}
    (h : Tracks f forgotten kept now) (hbefore : ∀ x ∈ kept, x.now ≤ now) {authid : Block}
    (hfresh : authid ∉ f.seen) :
    Tracks ⟨insert authid f.seen, f.order ++ [⟨authid, expiresAt now⟩]⟩ forgotten
      (kept ++ [⟨authid, now⟩]) now := by
  have hnot : authid ∉ kept.map Token.id := by
    rwa [h.seen_eq, List.mem_toFinset] at hfresh
  constructor
  · rw [h.order_eq, List.map_append]
    rfl
  · rw [h.seen_eq, List.map_append, List.toFinset_append]
    ext b
    simp
  · rw [List.map_append]
    exact List.nodup_append.mpr ⟨h.nodup, List.nodup_singleton _, by
      intro a ha b hb he
      rw [List.map_singleton, List.mem_singleton] at hb
      subst he hb
      exact hnot ha⟩
  · exact List.pairwise_append.mpr ⟨h.sorted, List.pairwise_singleton _ _, by
      intro a ha b hb
      rw [List.mem_singleton.mp hb]
      exact hbefore a ha⟩
  · exact h.expired

/-! ## Runs -/

variable {crc32 : Bytes → UInt32}

/-- The table's answer to an attempt. -/
abbrev TimelyAttempt (crc32 : Bytes → UInt32) (users : VmessUsers) (a : Attempt) : Prop :=
  users.Timely crc32 a.id a.now

/-- The filter refuses an authID it holds. -/
theorem checkInsert_of_mem {f : ReplayFilter} {authid : Block} {now : Nat}
    (h : authid ∈ (f.prune now).seen) : f.checkInsert authid now = (false, f.prune now) :=
  if_pos (.inl h)

/-- With room, the filter takes an authID it does not hold. -/
theorem checkInsert_of_notMem {f : ReplayFilter} {authid : Block} {now : Nat}
    (h : authid ∉ (f.prune now).seen) (hroom : (f.prune now).seen.card < authReplayMax) :
    f.checkInsert authid now = (true, ⟨insert authid (f.prune now).seen,
      (f.prune now).order ++ [⟨authid, expiresAt now⟩]⟩) :=
  if_neg (not_or.mpr ⟨h, Nat.not_le.mpr hroom⟩)

/-- What an attempt does to the handler, told by whether the abstract gate admits
it: the attempt is accepted and the filter tracks it too, or it is refused and
the filter tracks what it did. -/
def Follows (forgotten kept : List Attempt) (a : Attempt) (admits : Prop)
    (result : Except IoError VmessAuth) (f : ReplayFilter) : Prop :=
  (∃ matched, result = .ok matched) ∧ admits ∧
      (∃ forgotten' kept', forgotten' ++ kept' = forgotten ++ kept ++ [a] ∧
        Tracks f forgotten' kept' a.now) ∨
    (∃ e, result = .error e) ∧ ¬ admits ∧
      (∃ forgotten' kept', forgotten' ++ kept' = forgotten ++ kept ∧
        Tracks f forgotten' kept' a.now)

/-- **One attempt.**  With room in the filter, an attempt is accepted iff the
abstract gate admits it, and the filter goes on tracking the log.  The table does
not change. -/
theorem authenticate_follows (crc32 : Bytes → UInt32) {h : Handler}
    {forgotten kept : List Attempt} {τ : Nat} {a : Attempt}
    (ht : Tracks h.replayFilter forgotten kept τ) (hbefore : ∀ x ∈ forgotten ++ kept, x.now ≤ a.now)
    (hτ : τ ≤ a.now) (hroom : (h.replayFilter.prune a.now).seen.card < authReplayMax) :
    (h.authenticate crc32 a.id a.now).2.users = h.users ∧
      Follows forgotten kept a
        (Admits expiresAt (TimelyAttempt crc32 h.users) (forgotten ++ kept) a)
        (h.authenticate crc32 a.id a.now).1 (h.authenticate crc32 a.id a.now).2.replayFilter := by
  have hmatch := matchUser_isSome_iff crc32 h.users a.id h.activeUsers a.now
  obtain ⟨dropped, kept', rfl, hprune, halive⟩ := ht.prune hτ
  have hseen := hprune.mem_seen halive a.id
  rw [List.append_assoc] at hseen
  unfold Handler.authenticate
  cases hm : h.users.matchUser crc32 a.id h.activeUsers a.now with
  | none =>
    rw [hm] at hmatch
    refine ⟨rfl, .inr ⟨⟨_, rfl⟩, fun hadm => ?_, ⟨_, _, rfl, ht.expired_mono hτ⟩⟩⟩
    exact Bool.noConfusion (hmatch.mpr hadm.1)
  | some m =>
    rw [hm] at hmatch
    have htimely : TimelyAttempt crc32 h.users a := hmatch.mp rfl
    by_cases hin : a.id ∈ (h.replayFilter.prune a.now).seen
    · simp only [checkInsert_of_mem hin]
      refine ⟨rfl, .inr ⟨⟨_, rfl⟩, fun hadm => ?_, ⟨_, _, (List.append_assoc ..), hprune⟩⟩⟩
      obtain ⟨x, hx, hid, hlt⟩ := hseen.mp hin
      exact absurd (hadm.2 x hx hid) (Nat.not_le.mpr hlt)
    · simp only [checkInsert_of_notMem hin hroom]
      have hadm : Admits expiresAt (TimelyAttempt crc32 h.users) (forgotten ++ (dropped ++ kept'))
          a :=
        ⟨htimely, fun x hx hid => Nat.not_lt.mp fun hlt => hin (hseen.mpr ⟨x, hx, hid, hlt⟩)⟩
      have hins := hprune.insert (fun x hx => hbefore x
        (List.mem_append_right _ (List.mem_append_right _ hx))) hin
      refine ⟨?_, .inl ⟨⟨m, rfl⟩, hadm, ⟨forgotten ++ dropped, kept' ++ [a], by simp, ?_⟩⟩⟩
      · cases m.kind <;> rfl
      · cases m.kind <;> exact hins

/-- **A run refines the abstract gate**: with room at every attempt and a clock
that does not go back, the accepted attempts are the admissions of the replay
window. -/
theorem accepts_eq_admitted : ∀ {attempts : List Attempt} {h : Handler}
    {forgotten kept : List Attempt} {τ : Nat}, Tracks h.replayFilter forgotten kept τ →
      (∀ x ∈ forgotten ++ kept, ∀ a ∈ attempts, x.now ≤ a.now) → (∀ a ∈ attempts, τ ≤ a.now) →
      attempts.Pairwise (fun x y => x.now ≤ y.now) → h.Roomy crc32 attempts →
      h.accepts crc32 attempts =
        admitted expiresAt (TimelyAttempt crc32 h.users) (forgotten ++ kept) attempts := by
  intro attempts
  induction attempts with
  | nil => intro h forgotten kept τ _ _ _ _ _; rfl
  | cons a attempts ih =>
    intro h forgotten kept τ ht hbefore hτ hsorted hroomy
    obtain ⟨ha, hsorted'⟩ := List.pairwise_cons.mp hsorted
    obtain ⟨hroom, hroomy'⟩ := hroomy
    have hbefore' : ∀ x ∈ forgotten ++ kept, ∀ b ∈ attempts, x.now ≤ b.now :=
      fun x hx b hb => hbefore x hx b (List.mem_cons_of_mem _ hb)
    obtain ⟨husers, hfollows⟩ := authenticate_follows crc32 ht
      (fun x hx => hbefore x hx a List.mem_cons_self) (hτ a List.mem_cons_self) hroom
    unfold Handler.accepts
    cases hauth : h.authenticate crc32 a.id a.now with
    | mk result h' =>
      rw [hauth] at husers hfollows hroomy'
      rcases hfollows with ⟨⟨m, hok⟩, hadm, forgotten', kept', happ, htracks⟩ |
        ⟨⟨e, herr⟩, hadm, forgotten', kept', happ, htracks⟩
      · simp only at hok
        subst hok
        have hlog : ∀ x ∈ forgotten' ++ kept', ∀ b ∈ attempts, x.now ≤ b.now := by
          intro x hx b hb
          rw [happ] at hx
          rcases List.mem_append.mp hx with hx | hx
          · exact hbefore' x hx b hb
          · rw [List.mem_singleton.mp hx]
            exact ha b hb
        rw [admitted_cons_of_admits hadm]
        show a :: h'.accepts crc32 attempts = _
        rw [ih htracks hlog ha hsorted' hroomy', happ, husers]
      · simp only at herr
        subst herr
        rw [admitted_cons_of_not_admits hadm]
        show h'.accepts crc32 attempts = _
        rw [ih htracks (happ ▸ hbefore') ha hsorted' hroomy', happ, husers]

/-- **No authID is accepted twice iff the filter outlives the timestamps.**  From
an empty filter, any user table and any hotset, over attempts on a clock that does
not go back: the accepted authIDs are pairwise distinct exactly when no authID
is presented within its timestamp window at some attempt and again, still within
the window, once the filter's entry for that attempt would have expired. -/
theorem authid_accepted_once_iff (crc32 : Bytes → UInt32) (users : VmessUsers) (hotset : List Nat)
    (attempts : List Attempt) (hclock : attempts.Pairwise fun x y => x.now ≤ y.now)
    (hroom : { Handler.new users with activeUsers := hotset }.Roomy crc32 attempts) :
    (({ Handler.new users with activeUsers := hotset }.accepts crc32 attempts).map Token.id).Nodup ↔
      attempts.Pairwise fun x y => x.id = y.id → users.Timely crc32 x.id x.now →
        users.Timely crc32 y.id y.now → y.now < expiresAt x.now := by
  have hrun := accepts_eq_admitted (h := { Handler.new users with activeUsers := hotset })
    tracks_empty (by simp) (fun _ _ => Nat.zero_le _) hclock hroom
  rw [hrun, List.append_nil]
  refine (admitted_nodup_iff expiresAt_mono hclock).trans ?_
  refine List.Pairwise.iff ?_
  intro x y
  exact ⟨fun h hid hx hy => h hx hid hy, fun h hx hid hy => h hid hx hy⟩

/-! ## The filter's answers -/

/-- The filter after some calls. -/
def ReplayFilter.after (f : ReplayFilter) (calls : List Attempt) : ReplayFilter :=
  calls.foldl (fun f x => (f.checkInsert x.id x.now).2) f

/-- The calls that return `true`, in order. -/
def ReplayFilter.taken (f : ReplayFilter) : List Attempt → List Attempt
  | [] => []
  | x :: calls =>
    if (f.checkInsert x.id x.now).1 then x :: (f.checkInsert x.id x.now).2.taken calls
    else (f.checkInsert x.id x.now).2.taken calls

/-- **What a call is to answer**, given the earlier calls that returned `true`: none of them
with the same authID is unexpired, and fewer than `VMESS_AUTH_REPLAY_MAX` of them are. -/
def Takes (log : List Attempt) (x : Attempt) : Prop :=
  (¬ ∃ y ∈ log, y.id = x.id ∧ x.now < expiresAt y.now) ∧
    (log.filter fun y => decide (x.now < expiresAt y.now)).length < authReplayMax

/-- **The set and the queue agree**: they hold the same authIDs, the queue each of them
once, sorted by expiry, and no more than `VMESS_AUTH_REPLAY_MAX`. -/
structure ReplayFilter.Consistent (f : ReplayFilter) : Prop where
  seen : f.seen = (f.order.map ReplayEntry.authid).toFinset
  nodup : (f.order.map ReplayEntry.authid).Nodup
  sorted : f.order.Pairwise fun x y => x.expiresAt ≤ y.expiresAt
  length_le : f.order.length ≤ authReplayMax

section Answers

variable {f : ReplayFilter} {forgotten kept : List Attempt} {τ : Nat} {x : Attempt}

theorem Tracks.card_seen (h : Tracks f forgotten kept τ) : f.seen.card = kept.length := by
  rw [h.seen_eq, List.toFinset_card_of_nodup h.nodup, List.length_map]

theorem Tracks.consistent (h : Tracks f forgotten kept τ) (hlen : kept.length ≤ authReplayMax) :
    f.Consistent where
  seen := by
    rw [h.seen_eq, h.order_eq, List.map_map]
    rfl
  nodup := by
    rw [h.order_eq, List.map_map]
    exact h.nodup
  sorted := by
    rw [h.order_eq, List.pairwise_map]
    exact h.sorted.imp fun hle => expiresAt_mono hle
  length_le := by
    rw [h.order_eq, List.length_map]
    exact hlen

/-- After pruning, the admissions that have not expired are the kept ones. -/
theorem Tracks.filter_alive {now : Nat} (h : Tracks f forgotten kept now)
    (halive : ∀ y ∈ kept, now < expiresAt y.now) :
    (forgotten ++ kept).filter (fun y => decide (now < expiresAt y.now)) = kept := by
  have hdead : forgotten.filter (fun y => decide (now < expiresAt y.now)) = [] := by
    rw [List.filter_eq_nil_iff]
    intro y hy
    have hle := h.expired y hy
    simp only [decide_eq_true_eq]
    omega
  have hkept : kept.filter (fun y => decide (now < expiresAt y.now)) = kept := by
    rw [List.filter_eq_self]
    intro y hy
    exact decide_eq_true (halive y hy)
  rw [List.filter_append, hdead, hkept, List.nil_append]

/-- **One call** answers as it is to, and the filter goes on tracking the calls that
return `true`. -/
theorem Tracks.checkInsert (h : Tracks f forgotten kept τ) (hτ : τ ≤ x.now)
    (hbefore : ∀ y ∈ kept, y.now ≤ x.now) (hlen : kept.length ≤ authReplayMax) :
    ((f.checkInsert x.id x.now).1 = true ↔ Takes (forgotten ++ kept) x) ∧
      ∃ forgotten' kept',
        forgotten' ++ kept' =
          forgotten ++ kept ++ (if (f.checkInsert x.id x.now).1 then [x] else []) ∧
        Tracks (f.checkInsert x.id x.now).2 forgotten' kept' x.now ∧
        kept'.length ≤ authReplayMax := by
  obtain ⟨dropped, kept', rfl, hprune, halive⟩ := h.prune hτ
  have hseen := hprune.mem_seen halive x.id
  have hroom := hprune.filter_alive halive
  have hcard := hprune.card_seen
  rw [List.append_assoc] at hseen hroom
  have hlen' : kept'.length ≤ authReplayMax := by
    rw [List.length_append] at hlen
    omega
  by_cases hin : x.id ∈ (f.prune x.now).seen
  · rw [checkInsert_of_mem hin]
    refine ⟨⟨fun h => Bool.noConfusion h, fun ht => ?_⟩, forgotten ++ dropped, kept', by simp, hprune,
      hlen'⟩
    exact absurd (hseen.mp hin) ht.1
  · by_cases hfull : authReplayMax ≤ (f.prune x.now).seen.card
    · rw [show f.checkInsert x.id x.now = (false, f.prune x.now) from if_pos (.inr hfull)]
      refine ⟨⟨fun h => Bool.noConfusion h, fun ht => ?_⟩, forgotten ++ dropped, kept', by simp,
        hprune, hlen'⟩
      have hlt := ht.2
      rw [hroom, ← hcard] at hlt
      omega
    · rw [checkInsert_of_notMem hin (Nat.not_le.mp hfull)]
      have hins := hprune.insert (fun y hy => hbefore y (List.mem_append_right _ hy)) hin
      refine ⟨⟨fun _ => ⟨fun hex => hin (hseen.mpr hex), ?_⟩, fun _ => rfl⟩, forgotten ++ dropped,
        kept' ++ [x], by simp, hins, ?_⟩
      · rw [hroom, ← hcard]
        exact Nat.not_le.mp hfull
      · rw [List.length_append, List.length_singleton]
        omega

theorem ReplayFilter.after_append_singleton (f : ReplayFilter) (calls : List Attempt) (x : Attempt) :
    f.after (calls ++ [x]) = ((f.after calls).checkInsert x.id x.now).2 := by
  rw [ReplayFilter.after, List.foldl_append]
  rfl

theorem ReplayFilter.taken_append_singleton (f : ReplayFilter) (calls : List Attempt) (x : Attempt) :
    f.taken (calls ++ [x]) =
      f.taken calls ++ if ((f.after calls).checkInsert x.id x.now).1 then [x] else [] := by
  induction calls generalizing f with
  | nil => rfl
  | cons y calls ih =>
    rw [List.cons_append, ReplayFilter.taken, ReplayFilter.taken, ih]
    by_cases hy : (f.checkInsert y.id y.now).1 = true
    · rw [if_pos hy, if_pos hy]
      rfl
    · rw [if_neg hy, if_neg hy]
      rfl

theorem ReplayFilter.taken_subset (f : ReplayFilter) (calls : List Attempt) : f.taken calls ⊆ calls := by
  induction calls generalizing f with
  | nil => exact List.Subset.refl _
  | cons y calls ih =>
    rw [ReplayFilter.taken]
    split
    · exact List.cons_subset_cons y (ih _)
    · exact List.subset_cons_of_subset y (ih _)

/-- Over calls on a clock that does not go back, the filter tracks those that return
`true`. -/
theorem tracks_after (calls : List Attempt) (hclock : calls.Pairwise fun x y => x.now ≤ y.now)
    (hτ : ∀ y ∈ calls, y.now ≤ τ) :
    ∃ forgotten kept, forgotten ++ kept = ReplayFilter.empty.taken calls ∧
      Tracks (ReplayFilter.empty.after calls) forgotten kept τ ∧ kept.length ≤ authReplayMax := by
  induction calls using List.reverseRecOn generalizing τ with
  | nil => exact ⟨[], [], rfl, tracks_empty.expired_mono (Nat.zero_le τ), Nat.zero_le _⟩
  | append_singleton calls x ih =>
    obtain ⟨hclock, -, hlast⟩ := List.pairwise_append.mp hclock
    have hbefore : ∀ y ∈ calls, y.now ≤ x.now := fun y hy => hlast y hy x List.mem_cons_self
    obtain ⟨forgotten, kept, htaken, htracks, hlen⟩ := ih hclock hbefore
    have hkept : ∀ y ∈ kept, y.now ≤ x.now := by
      intro y hy
      have hmem : y ∈ ReplayFilter.empty.taken calls := htaken ▸ List.mem_append_right _ hy
      exact hbefore y (ReplayFilter.taken_subset _ calls hmem)
    obtain ⟨-, forgotten', kept', happ, htracks', hlen'⟩ :=
      htracks.checkInsert (Nat.le_refl x.now) hkept hlen
    refine ⟨forgotten', kept', ?_, ?_, hlen'⟩
    · rw [happ, htaken, ReplayFilter.taken_append_singleton]
    · rw [ReplayFilter.after_append_singleton]
      exact htracks'.expired_mono (hτ x (List.mem_append_right _ List.mem_cons_self))

end Answers

/-- **The replay filter.**  Over calls on a clock that does not go back, from the empty
filter, each call answers as it is to, given the earlier calls that returned `true`;
and the set and the queue agree after them. -/
theorem replay_filter_answers (calls : List Attempt)
    (hclock : calls.Pairwise fun x y => x.now ≤ y.now) :
    (∀ earlier x later, calls = earlier ++ x :: later →
      (((ReplayFilter.empty.after earlier).checkInsert x.id x.now).1 = true ↔
        Takes (ReplayFilter.empty.taken earlier) x)) ∧
      (ReplayFilter.empty.after calls).Consistent := by
  refine ⟨fun earlier x later hcalls => ?_, ?_⟩
  · subst hcalls
    obtain ⟨hclock, -, hlast⟩ := List.pairwise_append.mp hclock
    have hbefore : ∀ y ∈ earlier, y.now ≤ x.now := fun y hy => hlast y hy x List.mem_cons_self
    obtain ⟨forgotten, kept, htaken, htracks, hlen⟩ := tracks_after earlier hclock hbefore
    have hkept : ∀ y ∈ kept, y.now ≤ x.now := by
      intro y hy
      have hmem : y ∈ ReplayFilter.empty.taken earlier := htaken ▸ List.mem_append_right _ hy
      exact hbefore y (ReplayFilter.taken_subset _ earlier hmem)
    rw [← htaken]
    exact (htracks.checkInsert (Nat.le_refl x.now) hkept hlen).1
  · obtain ⟨τ, hτ⟩ : ∃ τ, ∀ y ∈ calls, y.now ≤ τ :=
      ⟨calls.toFinset.sup Token.now, fun y hy => Finset.le_sup (List.mem_toFinset.mpr hy)⟩
    obtain ⟨forgotten, kept, -, htracks, hlen⟩ := tracks_after calls hclock hτ
    exact htracks.consistent hlen

/-! ## A run that accepts an authID twice -/

/-- One byte of CRC-32, reflected polynomial. -/
def crc32Byte (crc : UInt32) (b : UInt8) : UInt32 :=
  (List.range 8).foldl
    (fun c _ => if c &&& 1 = 1 then (c >>> 1) ^^^ 0xEDB88320 else c >>> 1) (crc ^^^ b.toUInt32)

/-- The CRC-32 that `crc32fast::hash` computes. -/
def crc32Ieee (bs : Bytes) : UInt32 := bs.foldl crc32Byte 0xFFFFFFFF ^^^ 0xFFFFFFFF

example : crc32Ieee (asBytes "123456789") = 0xCBF43926 := by decide +kernel

/-- A table of one user whose cipher leaves blocks as they are. -/
def plainTable : VmessUsers := ⟨[⟨.replicate 16 0, Equiv.refl _, "user@example"⟩]⟩

/-- An authID of that user for the time 1060, sixty seconds ahead of the clock. -/
def aheadAuthid : Block := #v[0, 0, 0, 0, 0, 0, 4, 36, 1, 2, 3, 4, 67, 125, 41, 108]

theorem authid_accepted_once_iff_ahead :
    (((Handler.new plainTable).accepts crc32Ieee [⟨aheadAuthid, 1000⟩, ⟨aheadAuthid, 1119⟩]).map
        Token.id).Nodup ↔
      [(⟨aheadAuthid, 1000⟩ : Attempt), ⟨aheadAuthid, 1119⟩].Pairwise fun x y =>
        x.id = y.id → plainTable.Timely crc32Ieee x.id x.now →
          plainTable.Timely crc32Ieee y.id y.now → y.now < expiresAt x.now :=
  authid_accepted_once_iff crc32Ieee plainTable [] [⟨aheadAuthid, 1000⟩, ⟨aheadAuthid, 1119⟩]
    (by decide) ⟨by decide +kernel, by decide +kernel, trivial⟩

theorem replay_filter_answers_ahead :
    (∀ earlier x later, [(⟨aheadAuthid, 1000⟩ : Attempt), ⟨aheadAuthid, 1119⟩] =
        earlier ++ x :: later →
      (((ReplayFilter.empty.after earlier).checkInsert x.id x.now).1 = true ↔
        Takes (ReplayFilter.empty.taken earlier) x)) ∧
      (ReplayFilter.empty.after [⟨aheadAuthid, 1000⟩, ⟨aheadAuthid, 1119⟩]).Consistent :=
  replay_filter_answers [⟨aheadAuthid, 1000⟩, ⟨aheadAuthid, 1119⟩] (by decide)

/-- The authID is accepted at 1000, its entry expires at 1120, and at 1130 its
timestamp is still good: it is accepted again. -/
theorem authid_accepted_twice :
    let attempts : List Attempt := [⟨aheadAuthid, 1000⟩, ⟨aheadAuthid, 1130⟩]
    attempts.Pairwise (fun x y => x.now ≤ y.now) ∧
      (Handler.new plainTable).Roomy crc32Ieee attempts ∧
      ¬ (((Handler.new plainTable).accepts crc32Ieee attempts).map Token.id).Nodup :=
  ⟨by decide, ⟨by decide +kernel, by decide +kernel, trivial⟩, by decide +kernel⟩

end XrayRs.Vmess
