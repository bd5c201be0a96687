import XrayRs.PanelPolling
import XrayRs.PanelUpdates
import Mathlib.Data.Finset.Card

/-! # Changes of the user list

`users_differ` (`saas/src/controller.rs`) and what a poll of the panel makes of it.
The comparison looks at the lengths and at one inclusion only, so a user who was
removed is missed where the new list repeats another one in the same place: the lists
then have one length, and differ in the number of their distinct users
(`users_differ_exact`). -/

namespace XrayRs.Saas

/-! ## The comparison -/

section
variable {old new : List UserInfo}

/-- The two lists are seen to differ if somebody is in one of them only, and are not if
one is the other in another order. -/
def ComparesUsers (old new : List UserInfo) : Prop :=
  (((∃ u ∈ old, u ∉ new) ∨ ∃ u ∈ new, u ∉ old) → usersDiffer old new = true) ∧
    (new.Perm old → usersDiffer old new = false)

/-- A list of the old length that has only users of the old one has as many distinct
users as it. -/
def RepeatsNoMore (old new : List UserInfo) : Prop :=
  old.length = new.length → new ⊆ old → new.toFinset.card = old.toFinset.card

theorem toFinset_subset (h : new ⊆ old) : new.toFinset ⊆ old.toFinset := by
  intro u hu
  rw [List.mem_toFinset] at hu ⊢
  exact h hu

theorem usersDiffer_eq_false_iff :
    usersDiffer old new = false ↔ old.length = new.length ∧ new ⊆ old := by
  simp [usersDiffer, List.subset_def]

/-- With as many distinct users, one inclusion gives the other. -/
theorem RepeatsNoMore.subset (h : RepeatsNoMore old new) (hlength : old.length = new.length)
    (hsubset : new ⊆ old) : old ⊆ new := by
  have hfinset : new.toFinset ⊆ old.toFinset := toFinset_subset hsubset
  have heq : new.toFinset = old.toFinset :=
    Finset.eq_of_subset_of_card_le hfinset (h hlength hsubset).ge
  intro u hu
  rw [← List.mem_toFinset, heq]
  exact List.mem_toFinset.mpr hu

/-- A list that repeats nobody is compared rightly. -/
theorem repeatsNoMore_of_nodup (h : new.Nodup) : RepeatsNoMore old new := by
  intro hlength hsubset
  have hle : new.toFinset.card ≤ old.toFinset.card :=
    Finset.card_le_card (toFinset_subset hsubset)
  have hnew : new.toFinset.card = new.length := List.toFinset_card_of_nodup h
  have hold : old.toFinset.card ≤ old.length := old.toFinset_card_le
  omega

/-- A user of the old list is missed exactly where `RepeatsNoMore` fails. -/
theorem repeatsNoMore_iff :
    RepeatsNoMore old new ↔ (usersDiffer old new = false → old ⊆ new) := by
  rw [usersDiffer_eq_false_iff]
  constructor
  · rintro h ⟨hlength, hsubset⟩
    exact h.subset hlength hsubset
  · intro h hlength hsubset
    have hfinset : new.toFinset = old.toFinset :=
      Finset.Subset.antisymm (toFinset_subset hsubset)
        (toFinset_subset (h ⟨hlength, hsubset⟩))
    rw [hfinset]

theorem comparesUsers_iff : ComparesUsers old new ↔ RepeatsNoMore old new := by
  rw [repeatsNoMore_iff]
  constructor
  · rintro ⟨hdiffers, -⟩ hfalse u hu
    by_contra hmissing
    rw [hdiffers (.inl ⟨u, hu, hmissing⟩)] at hfalse
    cases hfalse
  · intro h
    refine ⟨fun hone => ?_, fun hperm => ?_⟩
    · by_contra hdiffer
      rw [Bool.not_eq_true] at hdiffer
      rcases hone with ⟨u, hu, hmissing⟩ | ⟨u, hu, hmissing⟩
      · exact hmissing (h hdiffer hu)
      · exact hmissing ((usersDiffer_eq_false_iff.mp hdiffer).2 hu)
    · rw [usersDiffer_eq_false_iff]
      exact ⟨hperm.length_eq.symm, hperm.subset⟩

end

/-! ## The poll -/

section
variable {ι : Type}

/-- The users whose table is live when a poll waits or has returned: nobody's while the
inbound is rebuilt. -/
def Controller.Begun.live (begun : Controller.Begun ι) : List UserInfo :=
  match begun.pending with
  | none => begun.controller.userList
  | some _ => []

/-- What a poll with these answers needs to take every missing user's access away: a new
node is not ignored for its port 0, and with the old one the comparison is right. -/
def Controller.SeesRemovals (c : Controller) (newNode : Option NodeInfo) (new : List UserInfo) :
    Prop :=
  match newNode with
  | none => RepeatsNoMore c.userList new
  | some node =>
    if some node ≠ c.nodeInfo then node.port = 0 → c.userList ⊆ new
    else RepeatsNoMore c.userList new

variable {sha1 : Bytes → Vector UInt8 20} {i : ι} {c : Controller} {ibm : InboundManager ι}

/-- A served node takes any new users over. -/
theorem Serves.sync (h : Serves sha1 i c ibm) (users : List UserInfo) :
    (c.sync sha1 users ibm).controller = { c with userList := users } ∧
      Serves sha1 i { c with userList := users } (c.sync sha1 users ibm).ibm := by
  obtain ⟨old, node, hone, hnode, htag, hold⟩ := h
  have hruns : ibm.Runs i c.nodeTag old := (hone _ _).mpr ⟨rfl, rfl⟩
  obtain ⟨handler, happly, hbuilt⟩ := applyUsers_builtFrom sha1 hold users
  have hhandler : ibm.handler c.nodeTag = some old := by
    unfold InboundManager.handler
    rw [show ibm.running _ = _ from hruns]
    rfl
  have hbind : ((ibm.handler c.nodeTag).bind fun h => applyUsers sha1 h users c.nodeTag) =
      some handler := by
    rw [hhandler]
    exact happly
  unfold Controller.sync
  rw [if_neg (by simp [hnode]), hbind]
  refine ⟨rfl, ?_⟩
  dsimp only
  rw [hruns.setHandler]
  exact serves_update hnode htag hbuilt fun tag h hruns => ((hone tag h).mp hruns).1

/-- Where the table is left as it is, nobody in it may be missing. -/
theorem left_alone_iff {p : Prop} (hp : p) {old new : List UserInfo} :
    (∀ u ∈ old, u ∉ new → u ∉ old) ↔ (p → old ⊆ new) := by
  constructor
  · intro hlive _ u hu
    by_contra hmissing
    exact hlive u hu hmissing hu
  · intro hsubset u hu hmissing
    exact absurd (hsubset hp hu) hmissing

/-- With the old node, a poll leaves a missing user in the live table exactly where the
comparison misses one. -/
theorem Serves.planUsers (h : Serves sha1 i c ibm) {etags : Etags} {new : List UserInfo}
    {begun : Controller.Begun ι}
    (hbegun : { c with etags }.act sha1 ibm (c.planUsers (some new)) = begun) :
    (begun.pending = none ∧ Serves sha1 i begun.controller begun.ibm) ∧
      ((∀ u ∈ c.userList, u ∉ new → u ∉ begun.live) ↔ RepeatsNoMore c.userList new) := by
  rw [repeatsNoMore_iff]
  unfold Controller.planUsers at hbegun
  dsimp only at hbegun
  by_cases hdiffer : usersDiffer c.userList new = true
  · rw [if_pos hdiffer] at hbegun
    obtain ⟨hcontroller, hserves⟩ := Serves.sync (c := { c with etags }) h new
    have hpending : (Controller.sync sha1 new { c with etags } ibm).pending = none :=
      Controller.sync_pending
    replace hbegun : Controller.sync sha1 new { c with etags } ibm = begun := hbegun
    rw [hbegun] at hcontroller hserves hpending
    refine ⟨⟨hpending, hcontroller ▸ hserves⟩, iff_of_true ?_ ?_⟩
    · intro u _ hmissing
      unfold Controller.Begun.live
      rw [hpending, hcontroller]
      exact hmissing
    · intro hfalse
      rw [hdiffer] at hfalse
      cases hfalse
  · rw [if_neg hdiffer] at hbegun
    rw [Bool.not_eq_true] at hdiffer
    subst hbegun
    exact ⟨⟨rfl, h⟩, left_alone_iff hdiffer⟩

/-- A changed node is ignored for its port 0, or its inbound is taken down. -/
theorem Serves.planChanged (h : Serves sha1 i c ibm) {etags : Etags} {node : NodeInfo}
    {new : List UserInfo} (hchanged : some node ≠ c.nodeInfo) {begun : Controller.Begun ι}
    (hbegun : { c with etags }.act sha1 ibm
      (({ c with etags } : Controller).plan (some node) (some new)) = begun) :
    ((begun.pending = none ∧ Serves sha1 i begun.controller begun.ibm) ∨
        ∃ node, begun.pending = some (node, new) ∧ RunsNone i begun.ibm) ∧
      ((∀ u ∈ c.userList, u ∉ new → u ∉ begun.live) ↔ (node.port = 0 → c.userList ⊆ new)) := by
  by_cases hport : node.port = 0
  · have hplan : ({ c with etags } : Controller).plan (some node) (some new) = .nothing := by
      unfold Controller.plan
      dsimp only
      rw [if_pos hchanged, if_pos hport]
    rw [hplan] at hbegun
    subst hbegun
    exact ⟨.inl ⟨rfl, h⟩, left_alone_iff hport⟩
  · have hplan : ({ c with etags } : Controller).plan (some node) (some new) =
        .rebuild node new := Controller.plan_of_changed rfl hchanged hport
    rw [hplan] at hbegun
    subst hbegun
    refine ⟨.inr ⟨node, rfl, h.remove⟩, iff_of_true ?_ fun hzero => absurd hzero hport⟩
    intro u _ _
    exact List.not_mem_nil

/-- **What a poll does about the users that are missing**: the table of a served node is
the one of its controller's users again or is gone, and in the second case the rebuild
goes on with the new users. -/
theorem beginMonitor_live (h : Serves sha1 i c ibm) {replies : Replies}
    {newNode : Option NodeInfo} {new : List UserInfo}
    (hfetch : (c.fetch replies).2 = some (newNode, some new)) {begun : Controller.Begun ι}
    (hbegun : c.beginMonitor sha1 replies ibm = begun) :
    ((begun.pending = none ∧ Serves sha1 i begun.controller begun.ibm) ∨
        ∃ node, begun.pending = some (node, new) ∧ RunsNone i begun.ibm) ∧
      ((∀ u ∈ c.userList, u ∉ new → u ∉ begun.live) ↔ c.SeesRemovals newNode new) := by
  have hfst := Controller.fetch_fst c replies
  unfold Controller.beginMonitor at hbegun
  generalize c.fetch replies = fetched at hfetch hfst hbegun
  obtain ⟨c', answers⟩ := fetched
  dsimp only at hfetch hfst hbegun
  subst hfetch
  generalize c'.etags = etags at hfst
  subst hfst
  dsimp only at hbegun
  unfold Controller.SeesRemovals
  cases newNode with
  | none =>
    obtain ⟨hkept, hiff⟩ := Serves.planUsers h hbegun
    exact ⟨.inl hkept, hiff⟩
  | some node =>
    dsimp only
    by_cases hchanged : some node ≠ c.nodeInfo
    · rw [if_pos hchanged]
      exact Serves.planChanged h hchanged hbegun
    · rw [if_neg hchanged]
      have hplan : ({ c with etags } : Controller).plan (some node) (some new) =
          c.planUsers (some new) := by
        refine Controller.plan_of_unchanged fun node' heq => ?_
        cases heq
        exact not_not.mp hchanged
      rw [hplan] at hbegun
      obtain ⟨hkept, hiff⟩ := Serves.planUsers h hbegun
      exact ⟨.inl hkept, hiff⟩

end

/-- **Changes of the user list are seen exactly where the new list repeats no more users
than the old one.**  For all lists, and for every poll of a served node that fetches a
list: a user who is missing from it loses access in this poll exactly if moreover a
changed node is not ignored for its port 0. -/
theorem users_differ_exact (old new : List UserInfo) :
    (ComparesUsers old new ↔ RepeatsNoMore old new) ∧
      ∀ {ι : Type} {sha1 : Bytes → Vector UInt8 20} {i : ι} {c : Controller}
        {ibm : InboundManager ι} {replies : Replies} {newNode : Option NodeInfo}
        {begun : Controller.Begun ι}, Serves sha1 i c ibm → c.userList = old →
        (c.fetch replies).2 = some (newNode, some new) →
        c.beginMonitor sha1 replies ibm = begun →
        ((begun.pending = none ∧ Serves sha1 i begun.controller begun.ibm) ∨
            ∃ node, begun.pending = some (node, new) ∧ RunsNone i begun.ibm) ∧
          ((∀ u ∈ old, u ∉ new → u ∉ begun.live) ↔ c.SeesRemovals newNode new) := by
  refine ⟨comparesUsers_iff, ?_⟩
  intro ι sha1 i c ibm replies newNode begun hserves hold hfetch hbegun
  subst hold
  exact beginMonitor_live hserves hfetch hbegun

/-! ### A user who is removed -/

/-- A Trojan user with this password. -/
def trojanUser (uid : Int32) (uuid : String) : UserInfo := ⟨uid, "", uuid, "", 0, 0, "", 0, 0⟩

/-- The replies to a start of a Trojan node with two users. -/
def twoUsers : Replies :=
  ⟨freshReply "n1" { plainNode 443 "tcp" with nodeType := .trojan },
    freshReply "u1" [trojanUser 1 "x", trojanUser 2 "y"]⟩

/-- The second user is removed, and loses access. -/
theorem users_differ_exact_removed :
    let sha1 : Bytes → Vector UInt8 20 := fun _ => .replicate 20 0
    ∃ (c : Controller) (ibm : InboundManager Unit) (begun : Controller.Begun Unit),
      (Controller.new "0.0.0.0" noCert).start sha1 openHost () twoUsers .new = some (c, ibm) ∧
      c.beginMonitor sha1 ⟨unmodifiedReply, freshReply "u2" [trojanUser 1 "x"]⟩ ibm = begun ∧
      trojanUser 2 "y" ∉ begun.live := by
  intro sha1
  have hstart : (Controller.new "0.0.0.0" noCert).start sha1 openHost () twoUsers .new =
    some (_, _) := rfl
  refine ⟨_, _, _, hstart, rfl, ?_⟩
  set replies : Replies := ⟨unmodifiedReply, freshReply "u2" [trojanUser 1 "x"]⟩
  have hstep := Server.Step.start (s := Server.new (fun _ => "0.0.0.0") fun _ => noCert) ()
    openHost twoUsers rfl hstart
  have hserves := (hstep.inPhases (Server.new_inPhases _ _) trivial).allServed () rfl
  have hexact := (users_differ_exact [trojanUser 1 "x", trojanUser 2 "y"] [trojanUser 1 "x"]).2
    hserves rfl (show (Controller.fetch _ replies).2 = some (none, some _) from rfl) rfl
  refine hexact.2.mpr ?_ (trojanUser 2 "y") (by decide) (by decide)
  exact repeatsNoMore_of_nodup (by decide)

/-- **A revoked user who keeps access**: the new list repeats the first user in the place
of the second. -/
theorem revoked_user_kept :
    let sha1 : Bytes → Vector UInt8 20 := fun _ => .replicate 20 0
    ¬ ComparesUsers [trojanUser 1 "x", trojanUser 2 "y"] [trojanUser 1 "x", trojanUser 1 "x"] ∧
    ∃ (c : Controller) (ibm : InboundManager Unit) (begun : Controller.Begun Unit),
      (Controller.new "0.0.0.0" noCert).start sha1 openHost () twoUsers .new = some (c, ibm) ∧
      c.beginMonitor sha1 ⟨unmodifiedReply, freshReply "u2" [trojanUser 1 "x", trojanUser 1 "x"]⟩
        ibm = begun ∧
      begun.pending = none ∧
      begun.ibm.handler c.nodeTag = some (.trojan [("x", "Trojan_0.0.0.0_443||1", 0),
        ("y", "Trojan_0.0.0.0_443||2", 0)]) := by
  refine ⟨?_, _, _, _, rfl, rfl, rfl, rfl⟩
  rintro ⟨h, -⟩
  exact absurd (h (.inl ⟨trojanUser 2 "y", by decide, by decide⟩)) (by decide)

end XrayRs.Saas
