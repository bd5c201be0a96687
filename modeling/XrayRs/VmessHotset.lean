import XrayRs.RecentList
import XrayRs.VmessReplay

/-! # The VMess hotset

The indices of the users that were matched last (`proxy/src/vmess.rs`), and the fast
path that tries them first (`proxy/src/vmess/user.rs`).

The two passes of `match_user` are one search along one order of the table: the users
of the hotset, each at its first appearance, then all others by position
(`matchUserLog_eq`).  Every user of the table is in that order once, so the hotset
decides which user is found first but not whether one is, and no user is tried twice
(`matchUser_agrees`).  The hotset itself is the list of recently remembered indices
(`hotset_is_recent`). -/

namespace XrayRs.Vmess

open ByteWords ReplayWindow RecentList

/-! ## Searching a list -/

section FirstHit

variable {α β : Type}

/-- The first answer that `f` gives along a list, and the elements it was asked for. -/
def firstHit (f : α → Option β) : List α → Option β × List α
  | [] => (none, [])
  | a :: l =>
    match f a with
    | some b => (some b, [a])
    | none => ((firstHit f l).1, a :: (firstHit f l).2)

variable (f : α → Option β)

theorem firstHit_fst (l : List α) : (firstHit f l).1 = l.findSome? f := by
  induction l with
  | nil => rfl
  | cons a l ih =>
    rw [firstHit, List.findSome?_cons]
    cases f a with
    | some b => rfl
    | none => exact ih

/-- The elements asked for are the first ones. -/
theorem firstHit_snd_prefix (l : List α) : (firstHit f l).2 <+: l := by
  induction l with
  | nil => exact List.prefix_rfl
  | cons a l ih =>
    rw [firstHit]
    cases f a with
    | some b => exact ⟨l, rfl⟩
    | none => exact (List.cons_prefix_cons).mpr ⟨rfl, ih⟩

theorem firstHit_append (l m : List α) :
    firstHit f (l ++ m) =
      if (firstHit f l).1.isSome then firstHit f l
      else ((firstHit f m).1, (firstHit f l).2 ++ (firstHit f m).2) := by
  induction l with
  | nil => rfl
  | cons a l ih =>
    rw [List.cons_append, firstHit, firstHit, ih]
    cases f a with
    | some b => rfl
    | none => cases h : (firstHit f l).1 <;> simp [h]

theorem firstHit_map {γ : Type} (g : γ → α) (l : List γ) :
    firstHit f (l.map g) =
      ((firstHit (fun c => f (g c)) l).1, (firstHit (fun c => f (g c)) l).2.map g) := by
  induction l with
  | nil => rfl
  | cons c l ih =>
    rw [List.map_cons, firstHit, firstHit, ih]
    cases f (g c) <;> rfl

end FirstHit

/-! ## The users tried -/

section Log

variable (crc32 : Bytes → UInt32)

/-- The hotset pass, with the indices of the users that it calls `match_one` for. -/
def activePassLog (users : List VmessUser) (authid : Block) (now : Int) :
    List Nat → TriedSet → (Option VmessAuth × TriedSet) × List Nat
  | [], tried => ((none, tried), [])
  | index :: active, tried =>
    if tried.contains index then activePassLog users authid now active tried
    else
      match users[index]? with
      | none => activePassLog users authid now active tried
      | some user =>
        match matchOne crc32 index user authid now .active with
        | some matched => ((some matched, tried.mark index), [index])
        | none =>
          let (result, log) := activePassLog users authid now active (tried.mark index)
          (result, index :: log)

/-- The full scan, with the indices of the users that it calls `match_one` for. -/
def fallbackPassLog (authid : Block) (now : Int) (tried : TriedSet) :
    Nat → List VmessUser → Option VmessAuth × List Nat
  | _, [] => (none, [])
  | index, user :: users =>
    if tried.contains index then fallbackPassLog authid now tried (index + 1) users
    else
      match matchOne crc32 index user authid now .fallback with
      | some matched => (some matched, [index])
      | none =>
        let (result, log) := fallbackPassLog authid now tried (index + 1) users
        (result, index :: log)

/-- `VmessUsers::match_user`, with the indices of the users that it calls `match_one` for. -/
def VmessUsers.matchUserLog (table : VmessUsers) (authid : Block) (active : List Nat) (secs : Nat) :
    Option VmessAuth × List Nat :=
  let now := clockI64 secs
  let tried := TriedSet.new (!active.isEmpty) table.users.length
  match activePassLog crc32 table.users authid now active tried with
  | ((some matched, _), log) => (some matched, log)
  | ((none, tried), log) =>
    let (result, log') := fallbackPassLog crc32 authid now tried 0 table.users
    (result, log ++ log')

theorem activePassLog_fst (users : List VmessUser) (authid : Block) (now : Int) (active : List Nat)
    (tried : TriedSet) :
    (activePassLog crc32 users authid now active tried).1 =
      activePass crc32 users authid now active tried := by
  induction active generalizing tried with
  | nil => rfl
  | cons index active ih =>
    rw [activePassLog, activePass]
    by_cases hskip : tried.contains index = true
    · rw [if_pos hskip, if_pos hskip, ih]
    · rw [if_neg hskip, if_neg hskip]
      cases users[index]? with
      | none => exact ih _
      | some user =>
        dsimp only
        cases matchOne crc32 index user authid now .active with
        | none => exact ih _
        | some matched => rfl

theorem fallbackPassLog_fst (authid : Block) (now : Int) (tried : TriedSet) (index : Nat)
    (users : List VmessUser) :
    (fallbackPassLog crc32 authid now tried index users).1 =
      fallbackPass crc32 authid now tried index users := by
  induction users generalizing index with
  | nil => rfl
  | cons user users ih =>
    rw [fallbackPassLog, fallbackPass]
    by_cases hskip : tried.contains index = true
    · rw [if_pos hskip, if_pos hskip, ih]
    · rw [if_neg hskip, if_neg hskip]
      cases matchOne crc32 index user authid now .fallback with
      | none => exact ih _
      | some matched => rfl

/-- The log changes nothing. -/
theorem matchUserLog_fst (table : VmessUsers) (authid : Block) (active : List Nat) (secs : Nat) :
    (table.matchUserLog crc32 authid active secs).1 = table.matchUser crc32 authid active secs := by
  have hactive := activePassLog_fst crc32 table.users authid (clockI64 secs) active
    (TriedSet.new (!active.isEmpty) table.users.length)
  rw [VmessUsers.matchUserLog, VmessUsers.matchUser, ← hactive]
  rcases activePassLog crc32 table.users authid (clockI64 secs) active
    (TriedSet.new (!active.isEmpty) table.users.length) with ⟨⟨found, tried⟩, log⟩
  cases found with
  | some matched => rfl
  | none => exact fallbackPassLog_fst crc32 authid (clockI64 secs) tried 0 table.users

end Log

/-! ## One search -/

/-- The positions of a table of `n` users that a hotset names, each at its first
appearance. -/
def hotOrder (n : Nat) (active : List Nat) : List Nat :=
  (active.filter fun i => decide (i < n)).eraseDups

/-- The order in which a table of `n` users is tried: the hotset, then the others. -/
def scanOrder (n : Nat) (active : List Nat) : List (Nat × VmessAuthKind) :=
  (hotOrder n active).map (·, .active) ++
    ((List.range n).filter fun i => decide (i ∉ hotOrder n active)).map (·, .fallback)

/-- Dropping later duplicates leaves none. -/
theorem nodup_eraseDups (l : List Nat) : l.eraseDups.Nodup := by
  induction hn : l.length using Nat.strongRecOn generalizing l with
  | ind n ih =>
    cases l with
    | nil => exact List.nodup_nil
    | cons i l =>
      have hshort : (l.filter fun j => !j == i).length < n := by
        rw [← hn]
        exact Nat.lt_succ_of_le (List.length_filter_le ..)
      rw [List.eraseDups_cons, List.nodup_cons]
      exact ⟨by simp, ih _ hshort _ rfl⟩

theorem mem_hotOrder {n : Nat} {active : List Nat} {i : Nat} :
    i ∈ hotOrder n active ↔ i ∈ active ∧ i < n := by
  simp [hotOrder]

/-- Every position of the table comes once. -/
theorem nodup_scanOrder (n : Nat) (active : List Nat) :
    ((scanOrder n active).map Prod.fst).Nodup := by
  have hfst : (scanOrder n active).map Prod.fst =
      hotOrder n active ++ (List.range n).filter fun i => decide (i ∉ hotOrder n active) := by
    simp [scanOrder, Function.comp_def]
  rw [hfst, List.nodup_append]
  refine ⟨nodup_eraseDups _, List.nodup_range.filter _, fun i hi j hj hij => ?_⟩
  subst hij
  simp only [List.mem_filter, decide_eq_true_eq] at hj
  exact hj.2 hi

theorem mem_scanOrder {n : Nat} {active : List Nat} {i : Nat} {kind : VmessAuthKind} :
    (i, kind) ∈ scanOrder n active ↔ i < n ∧ (kind = .active ↔ i ∈ active) := by
  simp only [scanOrder, List.mem_append, List.mem_map, Prod.mk.injEq, List.mem_filter,
    List.mem_range, decide_eq_true_eq]
  constructor
  · rintro (⟨j, hj, rfl, rfl⟩ | ⟨j, ⟨hlt, hj⟩, rfl, rfl⟩)
    · obtain ⟨hmem, hlt⟩ := mem_hotOrder.mp hj
      exact ⟨hlt, ⟨fun _ => hmem, fun _ => rfl⟩⟩
    · refine ⟨hlt, ⟨fun h => (by cases h), fun hmem => ?_⟩⟩
      exact absurd (mem_hotOrder.mpr ⟨hmem, hlt⟩) hj
  · rintro ⟨hlt, hkind⟩
    cases kind with
    | active => exact .inl ⟨i, mem_hotOrder.mpr ⟨hkind.mp rfl, hlt⟩, rfl, rfl⟩
    | fallback =>
      refine .inr ⟨i, ⟨hlt, fun h => ?_⟩, rfl, rfl⟩
      exact absurd (hkind.mpr (mem_hotOrder.mp h).1) (by decide)

section Order

variable {crc32 : Bytes → UInt32} {users : List VmessUser} {authid : Block} {now : Int}

/-- The user at a position, tried; nothing past the end of the table. -/
def tryAt (crc32 : Bytes → UInt32) (users : List VmessUser) (authid : Block) (now : Int)
    (i : Nat) (kind : VmessAuthKind) : Option VmessAuth :=
  users[i]?.bind fun user => matchOne crc32 i user authid now kind

theorem contains_mark {slots : List Bool} {i : Nat} (h : i < slots.length) (j : Nat) :
    (TriedSet.mark (some slots) i).contains j =
      (decide (j = i) || TriedSet.contains (some slots) j) := by
  simp only [TriedSet.mark, TriedSet.contains, Option.map_some, List.getD_eq_getElem?_getD,
    List.getElem?_set]
  by_cases hji : j = i
  · subst hji
    simp [h]
  · simp [hji, Ne.symm hji]

/-- **The hotset pass** asks for the users named by the hotset that are not marked, each at
its first appearance; where none of them is taken, they are marked at the end. -/
theorem activePassLog_eq (active : List Nat) {slots : List Bool}
    (hlen : slots.length = users.length) {hot : List Nat}
    (hhot : hot = (active.filter fun i =>
      decide (i < users.length) && !TriedSet.contains (some slots) i).eraseDups) :
    ∃ slots', activePassLog crc32 users authid now active (some slots) =
        (((firstHit (tryAt crc32 users authid now · .active) hot).1, some slots'),
          (firstHit (tryAt crc32 users authid now · .active) hot).2) ∧
      ((firstHit (tryAt crc32 users authid now · .active) hot).1 = none → ∀ j,
        TriedSet.contains (some slots') j = (decide (j ∈ hot) || TriedSet.contains (some slots) j)) := by
  induction active generalizing slots hot with
  | nil =>
    subst hhot
    exact ⟨slots, rfl, fun _ j => by simp⟩
  | cons index active ih =>
    rw [activePassLog]
    by_cases hskip : TriedSet.contains (some slots) index = true
    · rw [if_pos hskip]
      exact ih hlen (by rw [hhot, List.filter_cons_of_neg (by simp [hskip])])
    · rw [if_neg hskip]
      by_cases hin : index < users.length
      · -- the user is tried, and marked for the rest of the pass
        have hmarked : (TriedSet.mark (some slots) index) = some (slots.set index true) := rfl
        have hrest : hot = index :: (active.filter fun i => decide (i < users.length) &&
            !TriedSet.contains (some (slots.set index true)) i).eraseDups := by
          rw [hhot, List.filter_cons_of_pos (by simp [hskip, hin]), List.eraseDups_cons,
            List.filter_filter]
          refine congrArg (fun l => index :: List.eraseDups l) (List.filter_congr fun i _ => ?_)
          rw [← hmarked, contains_mark (hlen ▸ hin)]
          by_cases hi : i = index <;> simp [hi, Bool.and_comm]
        have hlen' : (slots.set index true).length = users.length := by rw [List.length_set, hlen]
        obtain ⟨slots', hpass, hmark⟩ := ih hlen' rfl
        rw [List.getElem?_eq_getElem hin, hrest, firstHit, tryAt, List.getElem?_eq_getElem hin]
        dsimp only [Option.bind_some]
        cases hm : matchOne crc32 index users[index] authid now .active with
        | some matched => exact ⟨_, rfl, fun h => (by cases h)⟩
        | none =>
          rw [hmarked, hpass]
          refine ⟨slots', rfl, fun hnone j => ?_⟩
          rw [hmark hnone j, ← hmarked, contains_mark (hlen ▸ hin)]
          by_cases hj : j = index <;> simp [hj]
      · rw [List.getElem?_eq_none (Nat.not_lt.mp hin)]
        exact ih hlen (by rw [hhot, List.filter_cons_of_neg (by simp [hin])])

/-- **The full scan** asks for the users from `index` on that are not marked. -/
theorem fallbackPassLog_eq {tried : TriedSet} (rest : List VmessUser) {index : Nat}
    (hrest : rest = users.drop index) :
    fallbackPassLog crc32 authid now tried index rest =
      firstHit (tryAt crc32 users authid now · .fallback)
        ((List.range' index rest.length).filter fun i => !tried.contains i) := by
  induction rest generalizing index with
  | nil => rfl
  | cons user rest ih =>
    have huser : users[index]? = some user := by
      rw [← List.head?_drop, ← hrest]
      rfl
    have htail : rest = users.drop (index + 1) := by
      rw [← List.tail_drop, ← hrest]
      rfl
    rw [fallbackPassLog, List.length_cons, List.range'_succ]
    by_cases hskip : tried.contains index = true
    · rw [if_pos hskip, ih htail, List.filter_cons_of_neg (by simp [hskip])]
    · rw [if_neg hskip, ih htail, List.filter_cons_of_pos (by simp [hskip]), firstHit, tryAt, huser]
      dsimp only [Option.bind_some]
      cases matchOne crc32 index user authid now .fallback <;> rfl

theorem contains_new (track : Bool) (n j : Nat) : (TriedSet.new track n).contains j = false := by
  unfold TriedSet.new
  cases track with
  | false => rfl
  | true =>
    by_cases hj : j < n <;>
      simp [TriedSet.contains, List.getD_eq_getElem?_getD, hj]

/-- The hotset pass of a call, which starts with no user marked. -/
theorem activePassLog_new (active : List Nat) {hot : List Nat}
    (hhot : hot = hotOrder users.length active) :
    ∃ tried, activePassLog crc32 users authid now active
          (TriedSet.new (!active.isEmpty) users.length) =
        (((firstHit (tryAt crc32 users authid now · .active) hot).1, tried),
          (firstHit (tryAt crc32 users authid now · .active) hot).2) ∧
      ((firstHit (tryAt crc32 users authid now · .active) hot).1 = none →
        ∀ j, tried.contains j = decide (j ∈ hot)) := by
  by_cases hempty : active = []
  · subst hempty hhot
    exact ⟨none, rfl, fun _ j => rfl⟩
  · have htrack : TriedSet.new (!active.isEmpty) users.length =
        some (List.replicate users.length false) := by
      simp [TriedSet.new, hempty]
    have hfresh := contains_new (!active.isEmpty) users.length
    rw [htrack] at hfresh ⊢
    have horder : hot = (active.filter fun i => decide (i < users.length) &&
        !TriedSet.contains (some (List.replicate users.length false)) i).eraseDups := by
      rw [hhot, hotOrder]
      exact congrArg List.eraseDups (List.filter_congr fun i _ => by rw [hfresh]; simp)
    obtain ⟨slots, hpass, hmark⟩ := activePassLog_eq active (List.length_replicate ..) horder
    exact ⟨_, hpass, fun hnone j => by rw [hmark hnone j, hfresh, Bool.or_false]⟩

/-- **`match_user` is one search** along the order of the table that the hotset gives. -/
theorem matchUserLog_eq (crc32 : Bytes → UInt32) (table : VmessUsers) (authid : Block)
    (active : List Nat) (secs : Nat) {hit : Option VmessAuth × List (Nat × VmessAuthKind)}
    (hhit : hit = firstHit (fun t => tryAt crc32 table.users authid (clockI64 secs) t.1 t.2)
      (scanOrder table.users.length active)) :
    table.matchUserLog crc32 authid active secs = (hit.1, hit.2.map Prod.fst) := by
  obtain ⟨tried, hpass, hmark⟩ :=
    @activePassLog_new crc32 table.users authid (clockI64 secs) active _ rfl
  rw [hhit, scanOrder, firstHit_append, firstHit_map, firstHit_map, VmessUsers.matchUserLog, hpass]
  cases hhot : (firstHit (tryAt crc32 table.users authid (clockI64 secs) · .active)
      (hotOrder table.users.length active)).1 with
  | some matched => simp [Function.comp_def]
  | none =>
    have hcold : ((List.range' 0 table.users.length).filter fun i => !tried.contains i) =
        (List.range table.users.length).filter
          fun i => decide (i ∉ hotOrder table.users.length active) := by
      rw [List.range_eq_range']
      exact List.filter_congr fun i _ => by rw [hmark hhot i]; simp
    dsimp only
    rw [fallbackPassLog_eq table.users rfl, hcold]
    simp [Function.comp_def]

end Order

/-! ## The fast path and the plain scan -/

section Agree

variable (crc32 : Bytes → UInt32) (table : VmessUsers) (authid : Block) (secs : Nat)

/-- The user at a position passes `match_one`. -/
def VmessUsers.Passes (i : Nat) : Prop :=
  ∃ user kind, table.users[i]? = some user ∧
    (matchOne crc32 i user authid (clockI64 secs) kind).isSome = true

/-- What `match_user` has found, up to the kind. -/
def VmessAuth.found (matched : VmessAuth) : Nat × Block × String :=
  (matched.index, matched.cmdKey, matched.email)

variable {crc32 table authid secs}

/-- The kind of a trial is only handed on. -/
theorem matchOne_kind (index : Nat) (user : VmessUser) (now : Int) (kind kind' : VmessAuthKind) :
    matchOne crc32 index user authid now kind' =
      (matchOne crc32 index user authid now kind).map fun matched => { matched with kind := kind' } := by
  simp only [matchOne]
  split
  · rfl
  · split <;> rfl

/-- What a trial returns is of the user tried. -/
theorem matchOne_fields {index : Nat} {user : VmessUser} {now : Int} {kind : VmessAuthKind}
    {matched : VmessAuth} (h : matchOne crc32 index user authid now kind = some matched) :
    matched = ⟨index, user.cmdKey, user.email, kind⟩ := by
  simp only [matchOne] at h
  split at h
  · cases h
  · split at h
    · cases h
    · exact (Option.some.inj h).symm

theorem tryAt_isSome_iff {i : Nat} {kind : VmessAuthKind} :
    (tryAt crc32 table.users authid (clockI64 secs) i kind).isSome = true ↔
      table.Passes crc32 authid secs i := by
  constructor
  · intro h
    obtain ⟨matched, hm⟩ := Option.isSome_iff_exists.mp h
    obtain ⟨user, huser, hone⟩ := Option.bind_eq_some_iff.mp hm
    exact ⟨user, kind, huser, by rw [hone]; rfl⟩
  · rintro ⟨user, kind', huser, hone⟩
    rw [tryAt, huser, Option.bind_some, matchOne_kind i user _ kind' kind, Option.isSome_map]
    exact hone

theorem VmessUsers.Passes.lt {i : Nat} (h : table.Passes crc32 authid secs i) :
    i < table.users.length := by
  obtain ⟨user, kind, huser, -⟩ := h
  exact (List.getElem?_eq_some_iff.mp huser).1

/-- The result of `match_user`, as the first hit along the order. -/
theorem matchUser_eq_findSome (active : List Nat) :
    table.matchUser crc32 authid active secs =
      (scanOrder table.users.length active).findSome?
        fun t => tryAt crc32 table.users authid (clockI64 secs) t.1 t.2 := by
  rw [← matchUserLog_fst, matchUserLog_eq crc32 table authid active secs rfl, firstHit_fst]

theorem matchUser_isSome_iff_passes (active : List Nat) :
    (table.matchUser crc32 authid active secs).isSome = true ↔
      ∃ i, table.Passes crc32 authid secs i := by
  rw [matchUser_eq_findSome, List.findSome?_isSome_iff]
  constructor
  · rintro ⟨t, -, ht⟩
    exact ⟨t.1, tryAt_isSome_iff.mp ht⟩
  · rintro ⟨i, hi⟩
    by_cases hmem : i ∈ active
    · exact ⟨(i, .active), mem_scanOrder.mpr ⟨hi.lt, by simp [hmem]⟩, tryAt_isSome_iff.mpr hi⟩
    · exact ⟨(i, .fallback), mem_scanOrder.mpr ⟨hi.lt, by simp [hmem]⟩, tryAt_isSome_iff.mpr hi⟩

/-- What is found is a user of the table that passes, told apart by the hotset. -/
theorem matchUser_eq_some {active : List Nat} {matched : VmessAuth}
    (h : table.matchUser crc32 authid active secs = some matched) :
    ∃ user, table.users[matched.index]? = some user ∧
      matchOne crc32 matched.index user authid (clockI64 secs) matched.kind = some matched ∧
      matched.cmdKey = user.cmdKey ∧ matched.email = user.email ∧
      (matched.kind = .active ↔ matched.index ∈ active) := by
  rw [matchUser_eq_findSome] at h
  obtain ⟨⟨i, kind⟩, hmem, ht⟩ := List.exists_of_findSome?_eq_some h
  obtain ⟨user, huser, hone⟩ := Option.bind_eq_some_iff.mp ht
  obtain rfl := matchOne_fields hone
  exact ⟨user, huser, hone, rfl, rfl, (mem_scanOrder.mp hmem).2⟩

/-- Where one user passes, that one is found. -/
theorem matchUser_found_of_unique {active active' : List Nat}
    (hone : ∃! i, table.Passes crc32 authid secs i) :
    (table.matchUser crc32 authid active secs).map VmessAuth.found =
      (table.matchUser crc32 authid active' secs).map VmessAuth.found := by
  obtain ⟨i, hi, huniq⟩ := hone
  have hfound : ∀ hotset, ∃ user, table.users[i]? = some user ∧
      (table.matchUser crc32 authid hotset secs).map VmessAuth.found =
        some (i, user.cmdKey, user.email) := by
    intro hotset
    obtain ⟨matched, hm⟩ :=
      Option.isSome_iff_exists.mp ((matchUser_isSome_iff_passes hotset).mpr ⟨i, hi⟩)
    obtain ⟨user, huser, hpass, hkey, hemail, -⟩ := matchUser_eq_some hm
    have hindex : matched.index = i := huniq _ ⟨user, matched.kind, huser, by rw [hpass]; rfl⟩
    refine ⟨user, hindex ▸ huser, ?_⟩
    rw [hm, Option.map_some, VmessAuth.found, hindex, hkey, hemail]
  obtain ⟨user, huser, h⟩ := hfound active
  obtain ⟨user', huser', h'⟩ := hfound active'
  rw [huser] at huser'
  obtain rfl := Option.some.inj huser'
  rw [h, h']

/-- **The hotset is only a fast path.**  For any table, authID, clock and hotset, stale or
not: a user is found iff some user of the table passes, so iff the plain scan finds one;
what is found is of one user of the table, who passes; where exactly one passes, any
hotset gives the same user; the kind tells whether the hotset has named this user; and
`match_one` is called at most once for a user. -/
theorem matchUser_agrees (crc32 : Bytes → UInt32) (table : VmessUsers) (authid : Block)
    (active : List Nat) (secs : Nat) :
    ((table.matchUser crc32 authid active secs).isSome = true ↔
        ∃ i, table.Passes crc32 authid secs i) ∧
      ((table.matchUser crc32 authid active secs).isSome = true ↔
        (table.matchUser crc32 authid [] secs).isSome = true) ∧
      (∀ matched, table.matchUser crc32 authid active secs = some matched →
        ∃ user, table.users[matched.index]? = some user ∧
          matchOne crc32 matched.index user authid (clockI64 secs) matched.kind = some matched ∧
          matched.cmdKey = user.cmdKey ∧ matched.email = user.email ∧
          (matched.kind = .active ↔ matched.index ∈ active)) ∧
      ((∃! i, table.Passes crc32 authid secs i) → ∀ active',
        (table.matchUser crc32 authid active secs).map VmessAuth.found =
          (table.matchUser crc32 authid active' secs).map VmessAuth.found) ∧
      (table.matchUserLog crc32 authid active secs).1 = table.matchUser crc32 authid active secs ∧
      (table.matchUserLog crc32 authid active secs).2.Nodup := by
  have hsome := @matchUser_isSome_iff_passes crc32 table authid secs
  refine ⟨hsome active, (hsome active).trans (hsome []).symm, fun _ h => matchUser_eq_some h,
    fun hone _ => matchUser_found_of_unique hone, matchUserLog_fst crc32 table authid active secs,
    ?_⟩
  rw [matchUserLog_eq crc32 table authid active secs rfl]
  have hfront := firstHit_snd_prefix
    (fun t => tryAt crc32 table.users authid (clockI64 secs) t.1 t.2)
    (scanOrder table.users.length active)
  exact (nodup_scanOrder table.users.length active).sublist (hfront.sublist.map Prod.fst)

end Agree

/-! ## The hotset -/

/-- What is done to a handler's hotset. -/
inductive HotsetOp
  | remember (index : Nat)
  | setUsers (users : VmessUsers)

/-- `Vmess::set_users`. -/
def Handler.setUsers (h : Handler) (users : VmessUsers) : Handler :=
  { h with users, activeUsers := [] }

/-- `Vmess::remember_active_user`. -/
def Handler.remember (h : Handler) (index : Nat) : Handler :=
  { h with activeUsers := rememberActiveUser h.activeUsers index }

def Handler.apply (h : Handler) : HotsetOp → Handler
  | .remember index => h.remember index
  | .setUsers users => h.setUsers users

/-- The indices remembered since the users were last set, in order. -/
def rememberedSince (ops : List HotsetOp) : List Nat :=
  ops.foldl (fun indices op => match op with
    | .remember index => indices ++ [index]
    | .setUsers _ => []) []

theorem rememberActiveUser_eq_touch (active : List Nat) (index : Nat) :
    rememberActiveUser active index = touch activeAuthMax active index := rfl

/-- The hotset is what the remembered indices leave when they are touched. -/
theorem activeUsers_eq_foldl (users : VmessUsers) (ops : List HotsetOp) :
    (ops.foldl Handler.apply (.new users)).activeUsers =
      (rememberedSince ops).foldl (touch activeAuthMax) [] := by
  induction ops using List.reverseRecOn with
  | nil => rfl
  | append_singleton ops op ih =>
    rw [rememberedSince, List.foldl_append, List.foldl_append, ← rememberedSince]
    cases op with
    | remember index =>
      show rememberActiveUser _ index = List.foldl _ [] (rememberedSince ops ++ [index])
      rw [ih, List.foldl_append, rememberActiveUser_eq_touch]
      rfl
    | setUsers users => rfl

/-- **The hotset is a list of recent users**: after any operations it has no duplicates and
at most 1024 elements, and it is the list of the distinct indices remembered since the
users were last set, the latest first, truncated. -/
theorem hotset_is_recent (users : VmessUsers) (ops : List HotsetOp) :
    let active := (ops.foldl Handler.apply (.new users)).activeUsers
    active.Nodup ∧ active.length ≤ activeAuthMax ∧
      active = (recent (rememberedSince ops)).take activeAuthMax := by
  intro active
  have hactive : active = (recent (rememberedSince ops)).take activeAuthMax :=
    (activeUsers_eq_foldl users ops).trans (foldl_touch activeAuthMax (rememberedSince ops))
  refine ⟨?_, ?_, hactive⟩
  · rw [hactive]
    exact (nodup_recent _).sublist (List.take_sublist ..)
  · rw [hactive]
    exact List.length_take_le ..

end XrayRs.Vmess
