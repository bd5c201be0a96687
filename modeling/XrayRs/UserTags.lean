import XrayRs.TrafficPolls

/-! # Traffic tags

The tag of a user's counter (`build_user_tag` in `saas/src/builder.rs`) is the node tag,
the email and the id, joined with bars, and `parse_user_tag` (`saas/src/controller.rs`)
takes it apart from both ends.  The email may have bars; a node tag has none unless the
listen address has one (`bar_mem_buildNodeTag`).

The controllers of a process share one registry, and a cycle comes by the counters of
every node.  What it reports are the users of its own node (`user_tags_unambiguous`). -/

namespace XrayRs.Traffic

/-! ## What a cycle takes -/

/-- The entries that the caller of a call has taken. -/
def After.entries : After → List Taken
  | .idle => []
  | .looping cycle => cycle.taken
  | .failing taken => taken

/-- The entries that a worker has taken for a report. -/
def Pc.entries : Pc → List Taken
  | .idle | .drained _ => []
  | .marking call | .inserting call | .adding call => call.after.entries
  | .looping cycle | .storing _ cycle | .swapUp _ cycle | .swapDown _ _ cycle => cycle.taken
  | .reporting taken | .failing taken => taken

/-- **The entries are the node's**: their tags are read with its node tag. -/
def Worker.OwnEntries (w : Worker) : Prop :=
  ∀ t ∈ w.pc.entries, (parseUserTag w.nodeTag t.counter.tag).isSome

section
variable {st st' : Stats} {w w' : Worker} {a : Act} {b : Bool}

theorem After.entries_pc (after : After) : after.pc.entries = after.entries := by
  cases after <;> rfl

theorem Call.entries_start (call : Call) : call.start.entries = call.after.entries := by
  unfold Call.start
  split <;> rfl

theorem Call.entries_next (call : Call) : call.next.entries = call.after.entries := by
  unfold Call.next
  split
  · exact After.entries_pc _
  · rfl

/-- A cycle takes an entry if its tag is read. -/
theorem Cycle.entries_took {cycle : Cycle} {nodeTag : String} {taken t : Taken}
    (h : t ∈ (cycle.took nodeTag taken).entries) :
    t ∈ cycle.taken ∨ (parseUserTag nodeTag t.counter.tag).isSome := by
  unfold Cycle.took at h
  by_cases hzero : taken.up = 0 ∧ taken.down = 0
  · rw [if_pos hzero] at h
    exact .inl h
  · rw [if_neg hzero] at h
    cases hparse : parseUserTag nodeTag taken.counter.tag with
    | none =>
      rw [hparse] at h
      dsimp only at h
      rw [Call.entries_start] at h
      exact .inl h
    | some user =>
      rw [hparse] at h
      rcases List.mem_append.mp h with h | h
      · exact .inl h
      · obtain rfl := List.mem_singleton.mp h
        exact .inr (by rw [hparse]; rfl)

/-- **Where entries come from**: they were there, or their tag has just been read. -/
theorem Op.entries (h : Op b st w a st' w') {t : Taken} (ht : t ∈ w'.pc.entries) :
    t ∈ w.pc.entries ∨ (parseUserTag w.nodeTag t.counter.tag).isSome := by
  cases h with
  | create | get | close => exact .inl ht
  | add =>
    rw [Call.entries_start] at ht
    exact absurd ht List.not_mem_nil
  | giveBack hpc =>
    rw [Call.entries_start] at ht
    exact .inl (by rw [hpc]; exact List.mem_cons_of_mem _ ht)
  | fetchAdd hpc =>
    rw [Call.entries_next] at ht
    exact .inl (by rw [hpc]; exact ht)
  | drain | lookup | reportOk | done => exact absurd ht List.not_mem_nil
  | swapDown hpc =>
    rw [hpc]
    exact Cycle.entries_took ht
  | finish hpc =>
    left
    unfold Cycle.finish at ht
    split at ht
    · exact absurd ht List.not_mem_nil
    · rw [hpc]
      exact ht
  | markFirst hpc | markAgain hpc | insert hpc | next hpc | store hpc | swapUp hpc
  | reportErr hpc => exact .inl (by rw [hpc]; exact ht)

theorem Op.ownEntries (h : Op b st w a st' w') (hw : w.OwnEntries) : w'.OwnEntries := by
  intro t ht
  rw [h.nodeTag]
  rcases h.entries ht with hold | hread
  · exact hw t hold
  · exact hread

end

end XrayRs.Traffic

namespace XrayRs.Saas

open StepSystem Text
open Traffic (parseUserTag)

/-! ## Tags -/

/-- A node tag ends at the first bar, if it has none itself. -/
theorem nodeTag_of_buildUserTag {n m rest rest' : List Char} (hn : '|' ∉ n) (hm : '|' ∉ m)
    (h : n ++ '|' :: rest = m ++ '|' :: rest') : n = m ∧ rest = rest' := by
  have hsplit := splitOnce_append hn rest
  rw [h, splitOnce_append hm] at hsplit
  obtain ⟨hnm, hrest⟩ := Prod.mk.inj (Option.some.inj hsplit)
  exact ⟨hnm.symm, hrest.symm⟩

/-- **Tags of another node are not taken**, also where one node tag begins the other. -/
theorem parseUserTag_of_ne {n m : String} (hn : '|' ∉ n.toList) (hm : '|' ∉ m.toList)
    (hne : n ≠ m) (user : UserInfo) : parseUserTag n (buildUserTag m user) = none := by
  have hstarts : startsWith (n ++ "|").toList (buildUserTag m user).toList ≠ true := by
    intro hstarts
    obtain ⟨rest, hrest⟩ := startsWith_iff.mp hstarts
    have hbar : ("|" : String).toList = ['|'] := rfl
    rw [toList_buildUserTag, String.toList_append, hbar, List.append_assoc,
      List.singleton_append] at hrest
    exact hne (String.toList_inj.mp (nodeTag_of_buildUserTag hm hn hrest).1).symm
  unfold parseUserTag
  rw [stripPrefix_of_not hstarts]
  rfl

/-- **No two users share a tag.** -/
theorem buildUserTag_inj {n m : String} (hn : '|' ∉ n.toList) (hm : '|' ∉ m.toList)
    {user user' : UserInfo} (h : buildUserTag n user = buildUserTag m user') :
    n = m ∧ user.email = user'.email ∧ user.uid = user'.uid := by
  by_cases hne : n = m
  · subst hne
    have hparse := parseUserTag_buildUserTag n user
    rw [h, parseUserTag_buildUserTag] at hparse
    obtain ⟨huid, hemail⟩ := Prod.mk.inj (Option.some.inj hparse)
    exact ⟨rfl, hemail.symm, (Int32.toInt_inj.mp huid).symm⟩
  · have hparse := parseUserTag_of_ne hn hm hne user'
    rw [← h, parseUserTag_buildUserTag] at hparse
    cases hparse

theorem bar_mem_buildNodeTag (node : NodeInfo) (listenIp : String) :
    '|' ∈ (buildNodeTag node listenIp).toList ↔ '|' ∈ listenIp.toList := by
  have hport : '|' ∉ (toString node.port).toList := by
    show '|' ∉ (Nat.repr node.port.toNat).toList
    rw [Nat.toList_repr]
    exact notMem_toDigits (by decide) _
  have htype : '|' ∉ node.nodeType.asStr.toList := by
    cases node.nodeType <;> decide
  have hparts : (buildNodeTag node listenIp).toList = node.nodeType.asStr.toList ++
      '_' :: (listenIp.toList ++ '_' :: (toString node.port).toList) := by
    simp [buildNodeTag, toString]
  rw [hparts]
  simp [hport, htype]

/-! ## Controllers -/

/-- The listen address and the node tag of a controller have no bar. -/
def Controller.NoBar (c : Controller) : Prop :=
  '|' ∉ c.listenIp.toList ∧ '|' ∉ c.nodeTag.toList

section
variable {ι : Type} [DecidableEq ι] {sha1 : Bytes → Vector UInt8 20}

theorem Server.set_controller (s : Server ι) (i : ι) (c : Controller) (ibm : InboundManager ι)
    (phase : Phase) : (s.set i c ibm phase).controller i = c :=
  Function.update_self ..

/-- A step keeps the listen addresses, and a node tag that it changes is built from its
controller's. -/
theorem Server.Step.nodeTag_cases {s t : Server ι} {a : Act ι} (h : Step sha1 s a t) (i : ι) :
    (t.controller i).listenIp = (s.controller i).listenIp ∧
      ((t.controller i).nodeTag = (s.controller i).nodeTag ∨
        ∃ node, (t.controller i).nodeTag = buildNodeTag node (s.controller i).listenIp) := by
  by_cases hi : i = a.actor
  · cases h with
    | start j host replies hphase hstart =>
      obtain rfl : i = j := hi
      obtain ⟨etags, users, built, node, rfl, hok, -⟩ := Controller.start_eq_some hstart
      rw [Server.set_controller]
      exact ⟨rfl, .inr ⟨_, (buildInbound_eq_ok hok).1⟩⟩
    | poll j replies hphase hbegun =>
      obtain rfl : i = j := hi
      rw [Server.set_controller]
      obtain ⟨etags, ⟨_, hcase⟩ | ⟨_, _, _, hcase⟩ | ⟨_, _, _, _, -, -, hcase⟩⟩ :=
        Controller.beginMonitor_cases (c := s.controller i)
      all_goals
        rw [hbegun] at hcase
        subst hcase
        exact ⟨rfl, .inl rfl⟩
    | rebuild j host hphase hend =>
      obtain rfl : i = j := hi
      rw [Server.set_controller]
      unfold Controller.endMonitor at hend
      split at hend
      · cases hend
        exact ⟨rfl, .inl rfl⟩
      · rename_i built hok
        split at hend
        · cases hend
          exact ⟨rfl, .inl rfl⟩
        · cases hend
          exact ⟨rfl, .inr ⟨_, (buildInbound_eq_ok hok).1⟩⟩
    | stop j hphase =>
      obtain rfl : i = j := hi
      rw [Server.set_controller]
      exact ⟨rfl, .inl rfl⟩
  · rw [h.controller_ne hi]
    exact ⟨rfl, .inl rfl⟩

theorem Server.Step.noBar {s t : Server ι} {a : Act ι} (h : Step sha1 s a t)
    (hs : ∀ i, (s.controller i).NoBar) (i : ι) : (t.controller i).NoBar := by
  obtain ⟨hip, htag⟩ := hs i
  obtain ⟨hlisten, hkept | ⟨node, hbuilt⟩⟩ := h.nodeTag_cases i
  · exact ⟨by rwa [hlisten], by rwa [hkept]⟩
  · refine ⟨by rwa [hlisten], ?_⟩
    rw [hbuilt]
    exact mt (bar_mem_buildNodeTag node _).mp hip

namespace Metered

/-- The invariant of the tags: no node tag has a bar, and every worker has taken entries of
its own node only. -/
structure Tagged (m : Metered ι) : Prop where
  controller : ∀ i, (m.server.controller i).NoBar
  nodeTag : ∀ i, '|' ∉ (m.traffic.worker i).nodeTag.toList
  entries : ∀ i, (m.traffic.worker i).OwnEntries

theorem Step.tagged {m m' : Metered ι} {a : Turn ι} (h : Step sha1 m a m') (hm : m.Tagged) :
    m'.Tagged := by
  cases h with
  | @control a server hidle hpruned hstep =>
    have hcontroller := hstep.noBar hm.controller
    refine ⟨hcontroller, fun i => ?_, fun i => ?_⟩
    · by_cases hi : i = a.actor
      · subst hi
        simpa [Traffic.State.retag] using (hcontroller a.actor).2
      · simpa [Traffic.State.retag, hi] using hm.nodeTag i
    · by_cases hi : i = a.actor
      · subst hi
        intro t ht
        rw [Traffic.State.retag_pc, hidle] at ht
        exact absurd ht List.not_mem_nil
      · simpa [Traffic.State.retag, hi] using hm.entries i
  | @traffic i a traffic hfree hcycle hstep =>
    refine ⟨hm.controller, fun j => by rw [hstep.nodeTag j]; exact hm.nodeTag j, fun j => ?_⟩
    obtain @⟨_, _, st, w, hop⟩ := hstep
    by_cases hj : j = i
    · subst hj
      rw [Traffic.State.after_worker_self]
      exact hop.ownEntries (hm.entries j)
    · rw [Traffic.State.after_worker_ne hj]
      exact hm.entries j
  | unregister | deactivate => exact ⟨hm.controller, hm.nodeTag, hm.entries⟩

/-- **What is about to be reported** under the tag of a user is that user's, of the node
that the worker reports for, and is reported as theirs. -/
def ReportsOwn (m : Metered ι) : Prop :=
  ∀ i taken, (m.traffic.worker i).pc = .reporting taken → ∀ t ∈ taken, ∀ nodeTag user,
    '|' ∉ nodeTag.toList → t.counter.tag = buildUserTag nodeTag user →
      nodeTag = (m.traffic.worker i).nodeTag ∧
        parseUserTag (m.traffic.worker i).nodeTag t.counter.tag =
          some (user.uid.toInt, user.email)

omit [DecidableEq ι] in
theorem Tagged.reportsOwn {m : Metered ι} (h : m.Tagged) : m.ReportsOwn := by
  intro i taken hpc t ht nodeTag user hbar htag
  have hread := h.entries i t (by rw [hpc]; exact ht)
  rw [htag] at hread ⊢
  have heq : nodeTag = (m.traffic.worker i).nodeTag := by
    by_contra hne
    rw [parseUserTag_of_ne (h.nodeTag i) hbar (Ne.symm hne)] at hread
    cases hread
  subst heq
  exact ⟨rfl, parseUserTag_buildUserTag _ user⟩

/-- Every run keeps the tags apart. -/
theorem tagged_of_run {listenIp : ι → String} {cert : ι → CertConfig}
    {trace : List (Turn ι × Metered ι)} {m : Metered ι}
    (h : Run (Step sha1) (.new listenIp cert) trace m) (hip : ∀ i, '|' ∉ (listenIp i).toList) :
    m.Tagged := by
  refine h.invariant ⟨fun i => ⟨hip i, List.not_mem_nil⟩, fun i => List.not_mem_nil, fun i => ?_⟩
    fun _ _ _ hm hstep => hstep.tagged hm
  intro t ht
  exact absurd ht List.not_mem_nil

end Metered

end

/-- **User tags are an unambiguous codec**, and so the controllers that share a registry
report neither each other's users nor the wrong ones. -/
theorem user_tags_unambiguous (sha1 : Bytes → Vector UInt8 20) :
    (∀ nodeTag user,
      parseUserTag nodeTag (buildUserTag nodeTag user) = some (user.uid.toInt, user.email)) ∧
    (∀ n m : String, '|' ∉ n.toList → '|' ∉ m.toList → n ≠ m → ∀ user,
      parseUserTag n (buildUserTag m user) = none) ∧
    (∀ n m : String, '|' ∉ n.toList → '|' ∉ m.toList → ∀ user user' : UserInfo,
      buildUserTag n user = buildUserTag m user' →
        n = m ∧ user.email = user'.email ∧ user.uid = user'.uid) ∧
    (∀ node listenIp,
      '|' ∈ (buildNodeTag node listenIp).toList ↔ '|' ∈ listenIp.toList) ∧
    ∀ (ι : Type) [DecidableEq ι] (listenIp : ι → String) (cert : ι → CertConfig)
      (trace : List (Turn ι × Metered ι)) (m : Metered ι),
      Run (Metered.Step sha1) (.new listenIp cert) trace m →
        (∀ i, '|' ∉ (listenIp i).toList) → m.ReportsOwn :=
  ⟨parseUserTag_buildUserTag, fun _ _ hn hm hne user => parseUserTag_of_ne hn hm hne user,
    fun _ _ hn hm _ _ h => buildUserTag_inj hn hm h, bar_mem_buildNodeTag,
    fun _ _ _ _ _ _ h hip => (Metered.tagged_of_run h hip).reportsOwn⟩

end XrayRs.Saas
