import XrayRs.MuxDispatch

/-! # What a mux session delivers

The link of one session, and the frames of a client that feed it.  What the
demultiplexer puts on the link are the data of the handled frames of this session, in
order and no others, as long as someone receives there (`mux_uplink_exact`).

Each move of the demultiplexer is followed for the one session that the client opens
under an id (`Carrier.Serves`): a frame of it, a frame beside it, a send, the end. -/

namespace XrayRs.Mux

open BoundedChannel StepSystem ClientFrame

/-! ## One session -/

namespace ClientFrame

/-- The frame opens a session under the id. -/
def Opens (f : ClientFrame) (sid : UInt16) : Prop := f.info.status = stNew ∧ f.info.sid = sid

/-- The frame ends the session of the id. -/
def ends (sid : UInt16) (f : ClientFrame) : Bool := f.info.status = stEnd ∧ f.info.sid = sid

/-- The data of a `Keep` frame for the id. -/
def kept (sid : UInt16) (f : ClientFrame) : Bytes :=
  if f.info.status = stKeep ∧ f.info.sid = sid then f.data.getD [] else []

end ClientFrame

/-- **What a client sends on a session**: the data of the `New` frame, and those of the
later `Keep` frames for the id, up to the first `End` for it. -/
def sessionData (sid : UInt16) (opening : ClientFrame) (later : List ClientFrame) : Bytes :=
  opening.data.getD [] ++ (later.takeWhile fun f => !f.ends sid).flatMap (·.kept sid)

theorem kept_of_ends {sid : UInt16} {f : ClientFrame} (h : f.ends sid = true) : f.kept sid = [] := by
  have hend : f.info.status = stEnd := (of_decide_eq_true h).1
  refine if_neg ?_
  rintro ⟨hkeep, -⟩
  rw [hend] at hkeep
  exact absurd hkeep (by decide)

/-- One frame more. -/
theorem sessionData_snoc (sid : UInt16) (opening f : ClientFrame) (later : List ClientFrame) :
    sessionData sid opening (later ++ [f]) = sessionData sid opening later ++
      if later.any (·.ends sid) then [] else f.kept sid := by
  unfold sessionData
  rw [List.append_assoc]
  congr 1
  induction later with
  | nil =>
    by_cases hend : f.ends sid = true
    · simp [hend, kept_of_ends hend]
    · simp [hend]
  | cons g later ih =>
    by_cases hend : g.ends sid = true
    · simp [hend]
    · simp only [List.cons_append, List.takeWhile_cons, hend, Bool.not_false, if_true,
        List.flatMap_cons, List.any_cons, Bool.false_or, List.append_assoc, ih]

/-- The link of a TCP session: what is on it, with what is about to be put there, are
the `bytes`, while someone receives. -/
structure Sub.Fed (sub : Sub) (pending bytes : Bytes) : Prop where
  network_eq : sub.flow.network = .tcp
  heard : sub.flow.Heard → sub.flow.uplink.flatten ++ pending = bytes
  le : sub.flow.uplink.flatten <+: bytes

namespace Sub.Fed

variable {sub sub' : Sub} {pending bytes : Bytes}

theorem keeps (h : Fed sub pending bytes) (hkeeps : Sub.Keeps sub sub') : Fed sub' pending bytes := by
  refine ⟨hkeeps.network_eq.trans h.network_eq, fun hh => ?_, ?_⟩
  · rw [hkeeps.uplink_eq]
    exact h.heard (hkeeps.heard hh)
  · rw [hkeeps.uplink_eq]
    exact h.le

/-- The data that were pending are put on the link. -/
theorem push {pkt : UdpPacket} (h : Fed sub pkt.data bytes) (hroom : sub.flow.CanSend) :
    Fed { sub with flow := sub.flow.push pkt } [] bytes := by
  have hbytes := h.heard hroom.heard
  have huplink : (sub.flow.push pkt).uplink.flatten = bytes := by
    rw [Flow.uplink_push, List.flatten_append, List.flatten_singleton, hbytes]
  refine ⟨(Flow.network_push _ _).trans h.network_eq, fun _ => ?_, ?_⟩
  · rw [huplink, List.append_nil]
  · rw [huplink]

/-- The data that were pending are lost with their receiver. -/
theorem refused (h : Fed sub pending bytes) (hgone : sub.flow.Refuses) : Fed sub [] bytes :=
  ⟨h.network_eq, fun hh => absurd hh hgone.not_heard, h.le⟩

/-- More data are pending. -/
theorem next (h : Fed sub [] bytes) (more : Bytes) : Fed sub more (bytes ++ more) := by
  refine ⟨h.network_eq, fun hh => ?_, h.le.trans (List.prefix_append _ _)⟩
  rw [← h.heard hh, List.append_nil]

end Sub.Fed

namespace Carrier

/-- **One session of a carrier**: of the id `sid` and no other one of it, at `k`, with the
`bytes` that the client has sent on it.  It is the one that the id stands for, until it
is `ended`. -/
structure Serves (c : Carrier) (sid : UInt16) (k : Nat) (bytes : Bytes) (ended : Bool) : Prop where
  link : ∃ sub, c.subs[k]? = some sub ∧ sub.sid = sid ∧ sub.Fed (c.pending k) bytes
  only : ∀ j, (c.subs.map Sub.sid)[j]? = some sid → j = k
  entry : ended = false →
    c.sessions sid = some k ∨ (∃ pkt, c.demux = .seeding k pkt) ∨ c.demux.Stopped
  ended : ended = true →
    c.sessions sid = none ∧ ∀ pkt, c.demux ≠ .seeding k pkt ∧ c.demux ≠ .keeping k pkt

variable {c c' : Carrier} {sid : UInt16} {k : Nat} {bytes : Bytes} {ended : Bool}

theorem Serves.link_of_keeps (h : c.Serves sid k bytes ended) (more : List Sub)
    (hsubs : KeepsAll (c.subs ++ more) c'.subs) :
    ∃ sub, c'.subs[k]? = some sub ∧ sub.sid = sid ∧ sub.Fed (c.pending k) bytes := by
  obtain ⟨sub, hsub, hsid, hfed⟩ := h.link
  have hleft : (c.subs ++ more)[k]? = some sub := by
    rw [List.getElem?_append_left (List.getElem?_eq_some_iff.mp hsub).1, hsub]
  obtain ⟨sub', hsub', hkeeps⟩ := hsubs.get hleft
  exact ⟨sub', hsub', hkeeps.sid_eq.trans hsid, hfed.keeps hkeeps⟩

/-- What goes on beside the demultiplexer does not touch a session. -/
theorem Serves.aside (h : c.Serves sid k bytes ended) (ha : Aside c c') :
    c'.Serves sid k bytes ended := by
  have hpending : c'.pending k = c.pending k := by
    unfold pending
    rw [ha.demux_eq]
  refine ⟨?_, ?_, ?_, ?_⟩
  · rw [hpending]
    exact h.link_of_keeps [] (by rw [List.append_nil]; exact ha.subs)
  · rw [ha.subs.sids_eq]
    exact h.only
  · rw [ha.sessions_eq, ha.demux_eq]
    exact h.entry
  · rw [ha.sessions_eq, ha.demux_eq]
    exact h.ended

/-- The carrier ends. -/
theorem Serves.finish (h : c.Serves sid k bytes ended) {n : Nat} (hneed : c.demux.need = some n)
    (result : Except IoError Unit) : (c.finish result).Serves sid k bytes ended := by
  have hsubs : KeepsAll c.subs (c.finish result).subs := KeepsAll.map_dropWriter _
  have hsame : KeepsAll (c.subs ++ []) (c.finish result).subs := by rwa [List.append_nil]
  obtain ⟨sub, hsub, hsid, hfed⟩ := h.link_of_keeps [] hsame
  rw [pending_of_need hneed] at hfed
  refine ⟨⟨sub, hsub, hsid, hfed⟩, ?_, fun _ => .inr (.inr trivial),
    fun _ => ⟨rfl, fun _ => ⟨nofun, nofun⟩⟩⟩
  rw [hsubs.sids_eq]
  exact h.only

/-- A field is taken off the buffer. -/
theorem Serves.buffered (h : c.Serves sid k bytes ended) (buf : Bytes) :
    Serves { c with buf := buf } sid k bytes ended :=
  ⟨h.link, h.only, h.entry, h.ended⟩

/-- A new session is at a position of its own. -/
theorem Handles.sid_before {info : Meta} {data : Option Bytes} (h : Handles c info data c')
    (hnot : ¬ (info.status = stNew ∧ info.sid = sid)) {j : Nat}
    (hj : (c'.subs.map Sub.sid)[j]? = some sid) : (c.subs.map Sub.sid)[j]? = some sid := by
  rcases h.sids with hsids | ⟨hnew, hsids⟩
  · rwa [hsids] at hj
  · rw [hsids] at hj
    rcases Nat.lt_or_ge j (c.subs.map Sub.sid).length with hlt | hge
    · rwa [List.getElem?_append_left hlt] at hj
    · rw [List.getElem?_append_right hge] at hj
      exact absurd ⟨hnew, List.mem_singleton.mp (List.mem_of_getElem? hj) |>.symm⟩ hnot

theorem pending_eq_nil (h : ∀ pkt, c.demux ≠ .seeding k pkt ∧ c.demux ≠ .keeping k pkt) :
    c.pending k = [] := by
  unfold pending
  split
  · next j pkt hdemux =>
    refine if_neg fun hj => (h pkt).1 ?_
    rw [hdemux, hj]
  · next j pkt hdemux =>
    refine if_neg fun hj => (h pkt).2 ?_
    rw [hdemux, hj]
  · rfl

theorem idle_of_metalen (h : c.demux = .metalen) (k : Nat) :
    ∀ pkt, c.demux ≠ .seeding k pkt ∧ c.demux ≠ .keeping k pkt := by
  rw [h]
  exact fun _ => ⟨nofun, nofun⟩

/-- Between frames the session is in the map, unless it has ended. -/
theorem Serves.entry_of_need (h : c.Serves sid k bytes ended) {n : Nat}
    (hneed : c.demux.need = some n) (hlive : ended = false) : c.sessions sid = some k := by
  rcases h.entry hlive with hentry | ⟨pkt, hdemux⟩ | hstop
  · exact hentry
  · rw [hdemux] at hneed
    cases hneed
  · exact absurd hstop (not_stopped_of_need hneed)

/-- A frame that is not for the session. -/
theorem Serves.beside (h : c.Serves sid k bytes ended) {n : Nat} (hneed : c.demux.need = some n)
    (more : List Sub) (hsubs : KeepsAll (c.subs ++ more) c'.subs)
    (honly : ∀ j, (c'.subs.map Sub.sid)[j]? = some sid → j = k)
    (hsessions : c'.sessions sid = c.sessions sid)
    (hdemux : ∀ pkt, c'.demux ≠ .seeding k pkt ∧ c'.demux ≠ .keeping k pkt) :
    c'.Serves sid k bytes ended := by
  have hlink := h.link_of_keeps more hsubs
  rw [pending_of_need hneed, ← pending_eq_nil hdemux] at hlink
  refine ⟨hlink, honly, fun hlive => .inl (hsessions.trans (h.entry_of_need hneed hlive)), ?_⟩
  intro hended
  exact ⟨hsessions.trans (h.ended hended).1, hdemux⟩

theorem ends_of_status {f : ClientFrame} {status : UInt8} (h : f.info.status = status)
    (hne : status ≠ stEnd) : f.ends sid = false :=
  decide_eq_false fun hend => hne (h.symm.trans hend.1)

theorem kept_of_status {f : ClientFrame} {status : UInt8} (h : f.info.status = status)
    (hne : status ≠ stKeep) : f.kept sid = [] :=
  if_neg fun hkeep => hne (h.symm.trans hkeep.1)

/-- **A `Keep` frame for the id**, with data: they are for the session, which has not
ended. -/
theorem Serves.keeps_own (h : c.Serves sid k bytes ended) {n : Nat}
    (hneed : c.demux.need = some n) {more : List Sub} (hsubs : KeepsAll (c.subs ++ more) c'.subs)
    (honly : ∀ j, (c'.subs.map Sub.sid)[j]? = some sid → j = k) {j : Nat} {pkt : UdpPacket}
    (hentry : c.sessions sid = some j) (hdemux : c'.demux = .keeping j pkt)
    (hsessions : c'.sessions = c.sessions) :
    ended = false ∧ c'.Serves sid k (bytes ++ pkt.data) false := by
  have hlive : ended = false := by
    cases hended : ended with
    | false => rfl
    | true =>
      rw [(h.ended hended).1] at hentry
      cases hentry
  have hmap := h.entry_of_need hneed hlive
  obtain rfl := Option.some.inj (hentry.symm.trans hmap)
  obtain ⟨sub, hsub, hsid, hfed⟩ := h.link_of_keeps more hsubs
  rw [pending_of_need hneed] at hfed
  have hpending : c'.pending j = pkt.data := by
    unfold pending
    rw [hdemux]
    exact if_pos rfl
  refine ⟨hlive, ⟨sub, hsub, hsid, ?_⟩, honly, fun _ => .inl (by rw [hsessions, hmap]), nofun⟩
  rw [hpending]
  exact hfed.next _

/-- **An `End` frame for the id.** -/
theorem Serves.ends_own (h : c.Serves sid k bytes ended) {n : Nat}
    (hneed : c.demux.need = some n) {more : List Sub} (hsubs : KeepsAll (c.subs ++ more) c'.subs)
    (honly : ∀ j, (c'.subs.map Sub.sid)[j]? = some sid → j = k) (hdemux : c'.demux = .metalen)
    (hsessions : c'.sessions sid = none) : c'.Serves sid k bytes true := by
  have hidle := idle_of_metalen hdemux k
  have hlink := h.link_of_keeps more hsubs
  rw [pending_of_need hneed, ← pending_eq_nil hidle] at hlink
  exact ⟨hlink, honly, nofun, fun _ => ⟨hsessions, hidle⟩⟩

/-- A `Keep` frame that is ignored has nothing for the session. -/
theorem Serves.kept_of_ignored (h : c.Serves sid k bytes ended) {n : Nat}
    (hneed : c.demux.need = some n) {f : ClientFrame} (hlive : ended = false)
    (hkeep : f.info.status = stKeep → ∀ d j sub, f.data = some d → c.sessions f.info.sid = some j →
      c.subs[j]? = some sub → sub.flow.network = .udp) : f.kept sid = [] := by
  unfold ClientFrame.kept
  by_cases hours : f.info.status = stKeep ∧ f.info.sid = sid
  · rw [if_pos hours]
    cases hdata : f.data with
    | none => rfl
    | some d =>
      have hmap := h.entry_of_need hneed hlive
      rw [← hours.2] at hmap
      obtain ⟨sub, hsub, -, hfed⟩ := h.link
      have hudp := hkeep hours.1 d k sub hdata hmap hsub
      rw [hfed.network_eq] at hudp
      cases hudp
  · rw [if_neg hours]

/-- **A session over a frame**: it gets the data of a `Keep` for its id, unless it has
ended, and no other data. -/
theorem Serves.handles (h : c.Serves sid k bytes ended) (hmapped : c.Mapped) {n : Nat}
    (hneed : c.demux.need = some n) {f : ClientFrame} (hnot : ¬ f.Opens sid)
    (hh : Handles c f.info f.data c') :
    c'.Serves sid k (bytes ++ if ended then [] else f.kept sid) (ended || f.ends sid) := by
  obtain ⟨more, hsubs⟩ := hh.keeps
  have honly : ∀ j, (c'.subs.map Sub.sid)[j]? = some sid → j = k :=
    fun j hj => h.only j (hh.sid_before hnot hj)
  obtain ⟨old, hold, holdsid, -⟩ := h.link
  -- the frame gives the session nothing, and does not end it
  have hother : (ended = false → f.kept sid = []) → f.ends sid = false →
      c'.sessions sid = c.sessions sid →
      (∀ pkt, c'.demux ≠ .seeding k pkt ∧ c'.demux ≠ .keeping k pkt) →
      c'.Serves sid k (bytes ++ if ended then [] else f.kept sid) (ended || f.ends sid) := by
    intro hkept hends hsessions hdemux
    have hnone : (if ended then [] else f.kept sid) = [] := by
      cases hlive : ended with
      | true => rfl
      | false => exact hkept hlive
    rw [hnone, hends, List.append_nil, Bool.or_false]
    exact h.beside hneed more hsubs honly hsessions hdemux
  cases hh with
  | @registered target hstatus _ _ hdemux _ hsessions =>
    have hne : sid ≠ f.info.sid := fun heq => hnot ⟨hstatus, heq.symm⟩
    refine hother (fun _ => kept_of_status hstatus (by decide)) (ends_of_status hstatus (by decide)) ?_
      (idle_of_metalen hdemux k)
    rw [hsessions, if_neg hne]
  | @seeding target d hstatus _ _ hdemux _ hsessions =>
    refine hother (fun _ => kept_of_status hstatus (by decide)) (ends_of_status hstatus (by decide))
      (by rw [hsessions]) ?_
    rw [hdemux]
    refine fun _ => ⟨fun heq => ?_, nofun⟩
    have hlt := (List.getElem?_eq_some_iff.mp hold).1
    rw [(Demux.seeding.inj heq).1] at hlt
    exact Nat.lt_irrefl k hlt
  | keeping j pkt hstatus hdata hentry hdemux _ hsessions =>
    have hends : f.ends sid = false := ends_of_status hstatus (by decide)
    by_cases hsid : f.info.sid = sid
    · have hkept : f.kept sid = pkt.data := by
        rw [show f.kept sid = f.data.getD [] from if_pos ⟨hstatus, hsid⟩, hdata]
        rfl
      rw [hsid] at hentry
      obtain ⟨rfl, hserves⟩ := h.keeps_own hneed hsubs honly hentry hdemux hsessions
      rw [hends, hkept]
      exact hserves
    · refine hother (fun _ => if_neg fun hkeep => hsid hkeep.2) hends (by rw [hsessions]) ?_
      rw [hdemux]
      refine fun _ => ⟨nofun, fun heq => hsid ?_⟩
      have hj := hmapped _ _ hentry
      rw [(Demux.keeping.inj heq).1, List.getElem?_map, hold, Option.map_some, holdsid] at hj
      exact (Option.some.inj hj).symm
  | ended hstatus hdemux _ hsessions =>
    have hkept : f.kept sid = [] := kept_of_status hstatus (by decide)
    by_cases hsid : f.info.sid = sid
    · have hends : f.ends sid = true := decide_eq_true ⟨hstatus, hsid⟩
      rw [hkept, hends, ite_self, List.append_nil, Bool.or_true]
      exact h.ends_own hneed hsubs honly hdemux (by rw [hsessions, if_pos hsid.symm])
    · refine hother (fun _ => hkept) (decide_eq_false fun hend => hsid hend.2) ?_
        (idle_of_metalen hdemux k)
      rw [hsessions, if_neg (Ne.symm hsid)]
  | ignored hnew hkeep hend hdemux _ hsessions =>
    exact hother (fun hlive => h.kept_of_ignored hneed hlive hkeep) (ends_of_status rfl hend)
      (by rw [hsessions]) (idle_of_metalen hdemux k)
  | failed hunknown hfailed =>
    have hstatus : f.info.status ≠ stKeep ∧ f.info.status ≠ stEnd := by
      constructor <;> intro heq <;> rw [heq] at hunknown <;> cases hunknown
    rw [kept_of_status rfl hstatus.1, ends_of_status rfl hstatus.2, ite_self, List.append_nil,
      Bool.or_false, hfailed]
    exact h.finish hneed _

/-- **The opening of a session.** -/
theorem Handles.serves {f : ClientFrame} {target : Destination} (hh : Handles c f.info f.data c')
    (hopens : f.Opens sid) (htarget : f.info.target = some target) (htcp : target.network = .tcp)
    (hfree : sid ∉ c.subs.map Sub.sid) :
    c'.Serves sid c.subs.length (f.data.getD []) false := by
  obtain ⟨hstatus, rfl⟩ := hopens
  have hsub : newSub f.info.sid target =
      ⟨f.info.sid, target, .tcp (.new _ linkCapacity) (.new _ linkCapacity) .dialing, .unborn⟩ := by
    unfold newSub
    rw [if_neg (by rw [htcp]; decide)]
  have hnew : (c.subs ++ [newSub f.info.sid target])[c.subs.length]? = some (newSub f.info.sid target) :=
    List.getElem?_concat_length
  have hfed : (newSub f.info.sid target).Fed (f.data.getD []) (f.data.getD []) := by
    rw [hsub]
    exact ⟨rfl, fun _ => rfl, List.nil_prefix⟩
  have honly : ∀ j, (c'.subs.map Sub.sid)[j]? = some f.info.sid → j = c.subs.length := by
    intro j hj
    rcases hh.sids with hsids | ⟨-, hsids⟩
    · rw [hsids] at hj
      exact absurd (List.mem_of_getElem? hj) hfree
    · rw [hsids] at hj
      rcases Nat.lt_trichotomy j c.subs.length with hlt | heq | hgt
      · rw [List.getElem?_append_left (by rwa [List.length_map])] at hj
        exact absurd (List.mem_of_getElem? hj) hfree
      · exact heq
      · rw [List.getElem?_eq_none (by simp; omega)] at hj
        cases hj
  cases hh with
  | @registered target' _ htarget' hdata hdemux hsubs hsessions =>
    obtain rfl := Option.some.inj (htarget.symm.trans htarget')
    obtain ⟨sub, hget, hkeeps⟩ := hsubs.get hnew
    have hpending : c'.pending c.subs.length = f.data.getD [] := by
      unfold pending
      rw [hdemux, hdata]
    refine ⟨⟨sub, hget, hkeeps.sid_eq.trans (by rw [hsub]), ?_⟩, honly, fun _ => .inl ?_,
      fun hended => absurd hended Bool.false_ne_true⟩
    · rw [hpending]
      exact hfed.keeps hkeeps
    · rw [hsessions, if_pos rfl]
  | @seeding target' d _ htarget' hdata hdemux hsubs hsessions =>
    obtain rfl := Option.some.inj (htarget.symm.trans htarget')
    have hpending : c'.pending c.subs.length = f.data.getD [] := by
      unfold pending
      rw [hdemux, hdata]
      exact if_pos rfl
    refine ⟨⟨_, hsubs ▸ hnew, by rw [hsub], ?_⟩, honly, fun _ => .inr (.inl ⟨_, hdemux⟩),
      fun hended => absurd hended Bool.false_ne_true⟩
    rw [hpending]
    exact hfed
  | keeping _ _ hother | ended hother =>
    rw [hstatus] at hother
    cases hother
  | ignored hnone =>
    rw [hnone hstatus] at htarget
    cases htarget
  | failed hunknown =>
    rw [hstatus] at hunknown
    cases hunknown

/-! ## A send -/

section Send

variable {j : Nat} {pkt : UdpPacket} {sub : Sub}

/-- The data are put on the link. -/
theorem Serves.link_of_send (h : c.Serves sid k bytes ended) (hsending : c.Sending j pkt)
    (hsub : c.subs[j]? = some sub) (hroom : sub.flow.CanSend)
    (hsubs : KeepsAll (c.subs.set j { sub with flow := sub.flow.push pkt }) c'.subs) :
    ∃ sub, c'.subs[k]? = some sub ∧ sub.sid = sid ∧ sub.Fed [] bytes := by
  obtain ⟨old, hold, hsid, hfed⟩ := h.link
  rw [hsending.pending_eq] at hfed
  by_cases hj : j = k
  · subst hj
    obtain rfl := Option.some.inj (hsub.symm.trans hold)
    rw [if_pos rfl] at hfed
    have hset : (c.subs.set j { sub with flow := sub.flow.push pkt })[j]? =
        some { sub with flow := sub.flow.push pkt } :=
      List.getElem?_set_self (List.getElem?_eq_some_iff.mp hsub).1
    obtain ⟨sub', hsub', hkeeps⟩ := hsubs.get hset
    exact ⟨sub', hsub', hkeeps.sid_eq.trans hsid, (hfed.push hroom).keeps hkeeps⟩
  · rw [if_neg hj] at hfed
    obtain ⟨sub', hsub', hkeeps⟩ := hsubs.get ((List.getElem?_set_ne hj).trans hold)
    exact ⟨sub', hsub', hkeeps.sid_eq.trans hsid, hfed.keeps hkeeps⟩

/-- The data are lost: their link has no receiver any more. -/
theorem Serves.link_of_refused (h : c.Serves sid k bytes ended) (hsending : c.Sending j pkt)
    (hsub : c.subs[j]? = some sub) (hgone : sub.flow.Refuses) (hsubs : KeepsAll c.subs c'.subs) :
    ∃ sub, c'.subs[k]? = some sub ∧ sub.sid = sid ∧ sub.Fed [] bytes := by
  obtain ⟨old, hold, hsid, hfed⟩ := h.link
  rw [hsending.pending_eq] at hfed
  obtain ⟨sub', hsub', hkeeps⟩ := hsubs.get hold
  refine ⟨sub', hsub', hkeeps.sid_eq.trans hsid, ?_⟩
  by_cases hj : j = k
  · subst hj
    obtain rfl := Option.some.inj (hsub.symm.trans hold)
    exact (hfed.refused hgone).keeps hkeeps
  · rw [if_neg hj] at hfed
    exact hfed.keeps hkeeps

/-- The end of `handle_new`. -/
theorem Serves.registered (h : c.Serves sid k bytes ended) (hdemux : c.demux = .seeding j pkt)
    (hsub : c.subs[j]? = some sub)
    (hlink : ∃ sub, c'.subs[k]? = some sub ∧ sub.sid = sid ∧ sub.Fed [] bytes)
    (hsids : c'.subs.map Sub.sid = c.subs.map Sub.sid) (hdemux' : c'.demux = .metalen)
    (hsessions : ∀ s, c'.sessions s = if s = sub.sid then some j else c.sessions s) :
    c'.Serves sid k bytes ended := by
  have hidle := idle_of_metalen hdemux' k
  rw [← pending_eq_nil hidle] at hlink
  by_cases hj : j = k
  · subst hj
    obtain ⟨old, hold, hsid, -⟩ := h.link
    obtain rfl := Option.some.inj (hsub.symm.trans hold)
    refine ⟨hlink, by rw [hsids]; exact h.only, fun _ => .inl ?_, fun hended => ?_⟩
    · rw [hsessions, if_pos hsid.symm]
    · exact absurd hdemux ((h.ended hended).2 pkt).1
  · have hne : sid ≠ sub.sid := by
      intro heq
      refine hj (h.only j ?_)
      rw [List.getElem?_map, hsub, Option.map_some, ← heq]
    have hsame : c'.sessions sid = c.sessions sid := by rw [hsessions, if_neg hne]
    refine ⟨hlink, by rw [hsids]; exact h.only, fun hlive => .inl ?_, fun hended => ?_⟩
    · rw [hsame]
      rcases h.entry hlive with hentry | ⟨other, hother⟩ | hstop
      · exact hentry
      · rw [hdemux] at hother
        exact absurd (Demux.seeding.inj hother).1 hj
      · rw [hdemux] at hstop
        cases hstop
    · exact ⟨hsame.trans (h.ended hended).1, hidle⟩

/-- The end of `handle_keep`. -/
theorem Serves.kept (h : c.Serves sid k bytes ended) (hdemux : c.demux = .keeping j pkt)
    (hlink : ∃ sub, c'.subs[k]? = some sub ∧ sub.sid = sid ∧ sub.Fed [] bytes)
    (hsids : c'.subs.map Sub.sid = c.subs.map Sub.sid) (hdemux' : c'.demux = .metalen)
    (hsessions : c'.sessions = c.sessions) : c'.Serves sid k bytes ended := by
  have hidle := idle_of_metalen hdemux' k
  rw [← pending_eq_nil hidle] at hlink
  refine ⟨hlink, by rw [hsids]; exact h.only, fun hlive => .inl ?_, fun hended => ?_⟩
  · rw [hsessions]
    rcases h.entry hlive with hentry | ⟨other, hother⟩ | hstop
    · exact hentry
    · rw [hdemux] at hother
      cases hother
    · rw [hdemux] at hstop
      cases hstop
  · rw [hsessions]
    exact ⟨(h.ended hended).1, hidle⟩

end Send

theorem Serves.returned (h : c.Serves sid k bytes ended) {result : Except IoError Unit}
    (hdemux : c.demux = .draining result) :
    Serves { c with demux := .returned result } sid k bytes ended := by
  obtain ⟨sub, hsub, hsid, hfed⟩ := h.link
  have hpending : c.pending k = [] := by
    unfold pending
    rw [hdemux]
  rw [hpending] at hfed
  exact ⟨⟨sub, hsub, hsid, hfed⟩, h.only, fun _ => .inr (.inr trivial),
    fun hended => ⟨(h.ended hended).1, fun _ => ⟨nofun, nofun⟩⟩⟩

/-! ## The run -/

/-- **The demultiplexer follows the client**: the frames `done` are handled, those `todo`
are to come.  The session of the id `sid` is open once the frame `opening` is handled,
which comes after those `before`. -/
structure Follows (c : Carrier) (sid : UInt16) (before : List ClientFrame) (opening : ClientFrame)
    (done todo : List ClientFrame) : Prop where
  holds : c.Holds todo
  mapped : c.Mapped
  session : done <+: before ∧ sid ∉ c.subs.map Sub.sid ∨
    ∃ later k, done = before ++ opening :: later ∧
      c.Serves sid k (sessionData sid opening later) (later.any (·.ends sid))

/-- Some of the client's frames are handled, the others are to come. -/
def InStep (c : Carrier) (sid : UInt16) (before : List ClientFrame) (opening : ClientFrame)
    (after : List ClientFrame) : Prop :=
  ∃ done todo, before ++ opening :: after = done ++ todo ∧ c.Follows sid before opening done todo

variable {before after done todo : List ClientFrame} {opening : ClientFrame}

/-- A step that handles no frame. -/
theorem Follows.of_same (h : c.Follows sid before opening done todo) (hholds : c'.Holds todo)
    (hmapped : c'.Mapped) (hsids : c'.subs.map Sub.sid = c.subs.map Sub.sid)
    (hserves : ∀ k bytes ended, c.Serves sid k bytes ended → c'.Serves sid k bytes ended) :
    c'.Follows sid before opening done todo := by
  refine ⟨hholds, hmapped, ?_⟩
  rcases h.session with ⟨hfront, hfree⟩ | ⟨later, k, hdone, hserving⟩
  · exact .inl ⟨hfront, by rwa [hsids]⟩
  · exact .inr ⟨later, k, hdone, hserves _ _ _ hserving⟩

/-- The frame after `done`: one of those `before`, or the opening, or a later one. -/
theorem next_frame {f : ClientFrame} {rest : List ClientFrame} (hfront : done <+: before)
    (hframes : before ++ opening :: after = done ++ f :: rest) :
    (f ∈ before ∧ done ++ [f] <+: before) ∨ f = opening ∧ done = before := by
  obtain ⟨tail, rfl⟩ := hfront
  rw [List.append_assoc] at hframes
  have hrest := List.append_cancel_left hframes
  cases tail with
  | nil => exact .inr ⟨(List.cons.inj hrest).1.symm, (List.append_nil _).symm⟩
  | cons g tail =>
    obtain rfl : g = f := (List.cons.inj hrest).1
    exact .inl ⟨by simp, tail, by simp⟩

/-- **A frame is handled.** -/
theorem Follows.handles (h : c.Follows sid before opening done todo) {n : Nat}
    (hneed : c.demux.need = some n) (hopens : opening.Opens sid) {target : Destination}
    (htarget : opening.info.target = some target) (htcp : target.network = .tcp)
    (honly : ∀ f ∈ before ++ after, ¬ f.Opens sid) {f : ClientFrame} {rest : List ClientFrame}
    (hframes : before ++ opening :: after = done ++ f :: rest) {buf : Bytes}
    (hh : Handles { c with buf := buf } f.info f.data c') (hholds : c'.Holds rest) :
    c'.Follows sid before opening (done ++ [f]) rest := by
  have hmapped : Mapped { c with buf := buf } := h.mapped
  refine ⟨hholds, hmapped.handles hh, ?_⟩
  rcases h.session with ⟨hfront, hfree⟩ | ⟨later, k, rfl, hserving⟩
  · rcases next_frame hfront hframes with ⟨hmem, hnext⟩ | ⟨rfl, rfl⟩
    · refine .inl ⟨hnext, fun hsid => ?_⟩
      obtain ⟨j, hj⟩ := List.mem_iff_getElem?.mp hsid
      have hnot := honly f (List.mem_append_left _ hmem)
      exact hfree (List.mem_of_getElem? (hh.sid_before hnot hj))
    · exact .inr ⟨[], _, rfl, by simpa [sessionData] using hh.serves hopens htarget htcp hfree⟩
  · rw [List.append_assoc, List.cons_append] at hframes
    have hafter := (List.cons.inj (List.append_cancel_left hframes)).2
    have hnot : ¬ f.Opens sid := honly f (by simp [hafter])
    have hserves := (hserving.buffered buf).handles hmapped hneed hnot hh
    rw [← sessionData_snoc] at hserves
    refine .inr ⟨later ++ [f], k, by simp, ?_⟩
    rw [List.any_append]
    simpa using hserves

end Carrier

open Carrier in
/-- **A session over a step** that handles no frame. -/
theorem Step.serves {c c' : Carrier} {a : Act} {sid : UInt16} {k : Nat} {bytes : Bytes} {ended : Bool}
    (hstep : Step c a c') (hc : c.Serves sid k bytes ended) (hwithin : c.Within c' a) :
    c'.Serves sid k bytes ended := by
  cases hdemuxing : a.ofDemux with
  | false => exact hc.aside (hstep.aside hdemuxing)
  | true =>
    cases hstep with
    | eof hneed | readError _ hneed =>
      obtain ⟨result, heq⟩ := c.readFailed_eq _
      rw [heq]
      exact hc.finish hneed result
    | field =>
      obtain ⟨n, buf, next, hneed, hnext, heq⟩ := hwithin rfl
      rw [heq]
      refine hc.beside hneed [] (by rw [List.append_nil]; exact KeepsAll.refl _) hc.only rfl ?_
      refine fun pkt => ⟨?_, ?_⟩ <;> rintro rfl <;> exact hnext rfl
    | @seed j pkt sub hdemux hsub hroom =>
      have hkeeps :=
        keeps_register { c with subs := c.subs.set j { sub with flow := sub.flow.push pkt } }
        sub.sid j
      exact hc.registered hdemux hsub (hc.link_of_send (.inl hdemux) hsub hroom hkeeps)
        (hkeeps.sids_eq.trans (sids_set _ hsub)) rfl fun s => register_sessions _ sub.sid s j
    | @seedFail j pkt sub hdemux hsub hgone =>
      have hkeeps := c.keeps_register sub.sid j
      exact hc.registered hdemux hsub (hc.link_of_refused (.inl hdemux) hsub hgone hkeeps)
        hkeeps.sids_eq rfl fun s => register_sessions _ sub.sid s j
    | @keep j pkt sub hdemux hsub hroom =>
      exact hc.kept hdemux (hc.link_of_send (.inr hdemux) hsub hroom (KeepsAll.refl _))
        (sids_set _ hsub) rfl rfl
    | @keepFail j pkt sub hdemux hsub hgone =>
      exact hc.kept hdemux (hc.link_of_refused (.inr hdemux) hsub hgone (KeepsAll.refl _)) rfl rfl rfl
    | join hdemux => exact hc.returned hdemux
    | _ => cases hdemuxing

open Carrier in
/-- **A step follows the client.** -/
theorem Step.follows {c c' : Carrier} {a : Act} {sid : UInt16} {target : Destination}
    {before after : List ClientFrame} {opening : ClientFrame} (hstep : Step c a c')
    (hopens : opening.Opens sid) (htarget : opening.info.target = some target)
    (htcp : target.network = .tcp) (honly : ∀ f ∈ before ++ after, ¬ f.Opens sid)
    (hc : c.InStep sid before opening after) : c'.InStep sid before opening after := by
  obtain ⟨done, todo, hframes, h⟩ := hc
  cases hstep.progress h.holds with
  | within hholds hwithin =>
    exact ⟨done, todo, hframes, h.of_same hholds (hstep.mapped h.mapped) (hstep.sids_eq hwithin)
      fun _ _ _ hserving => hstep.serves hserving hwithin⟩
  | frame f rest n buf htodo hneed houtcome hholds =>
    subst htodo
    exact ⟨done ++ [f], rest, by rw [hframes, List.append_assoc]; rfl,
      h.handles hneed hopens htarget htcp honly hframes houtcome.handles hholds⟩

/-- **Delivery on a TCP session**: there is one session of the id, and what is on its link
are the `bytes`, but for those about to be put there; where the receiver is gone, what
is on the link is the front of them. -/
def Carrier.Delivers (c : Carrier) (sid : UInt16) (bytes : Bytes) : Prop :=
  ∃ (k : Nat) (sub : Sub) (up down : Chan Bytes) (egress : TcpEgress),
    c.subs[k]? = some sub ∧ sub.sid = sid ∧ sub.flow = .tcp up down egress ∧
    (∀ j other, c.subs[j]? = some other → other.sid = sid → j = k) ∧
    (up.rxAlive = true → up.sent.flatten ++ c.pending k = bytes) ∧ up.sent.flatten <+: bytes

theorem Carrier.Serves.delivers {c : Carrier} {sid : UInt16} {k : Nat} {bytes : Bytes} {ended : Bool}
    (h : c.Serves sid k bytes ended) : c.Delivers sid bytes := by
  obtain ⟨sub, hsub, hsid, hnetwork, hheard, hle⟩ := h.link
  cases hflow : sub.flow with
  | udp up down egress =>
    rw [hflow] at hnetwork
    cases hnetwork
  | tcp up down egress =>
    rw [hflow] at hheard hle
    refine ⟨k, sub, up, down, egress, hsub, hsid, hflow, fun j other hother hsid' => ?_, hheard, hle⟩
    exact h.only j (by rw [List.getElem?_map, hother, Option.map_some, hsid'])

/-- **Delivery to a TCP session.**  Let a client send frames of which exactly one, the
`opening`, is a `New` for the id `sid`, with a TCP target.  However the bytes are cut into
reads and whatever else goes on: some frames are handled and the others are to come; if
the opening is among the former, the link of the session has the data that the client
has sent on it by then, in order, nothing else, and nothing after the session's end. -/
theorem mux_uplink_exact {sid : UInt16} {before after : List ClientFrame} {opening : ClientFrame}
    {target : Destination} (hopens : opening.Opens sid) (htarget : opening.info.target = some target)
    (htcp : target.network = .tcp) (honly : ∀ f ∈ before ++ after, ¬ f.Opens sid) {conn : Conn}
    {leftover : Bytes} (hbytes : leftover ++ conn.unread = wires (before ++ opening :: after))
    {trace : List (Act × Carrier)} {c : Carrier} (h : Run Step (.serve conn leftover) trace c) :
    ∃ done todo, before ++ opening :: after = done ++ todo ∧ c.Holds todo ∧
      (done <+: before ∧ (∀ sub ∈ c.subs, sub.sid ≠ sid) ∨
        ∃ later, done = before ++ opening :: later ∧
          c.Delivers sid (sessionData sid opening later)) := by
  have hstart : (Carrier.serve conn leftover).InStep sid before opening after :=
    ⟨[], _, rfl, hbytes, (fun _ _ hk => nomatch hk), .inl ⟨List.nil_prefix, List.not_mem_nil⟩⟩
  have hfollows : c.InStep sid before opening after :=
    h.invariant hstart fun s t a hs hstep => hstep.follows hopens htarget htcp honly hs
  obtain ⟨done, todo, hframes, hc⟩ := hfollows
  refine ⟨done, todo, hframes, hc.holds, ?_⟩
  rcases hc.session with ⟨hfront, hfree⟩ | ⟨later, k, hdone, hserving⟩
  · exact .inl ⟨hfront, fun sub hsub hsid => hfree (List.mem_map.mpr ⟨sub, hsub, hsid⟩)⟩
  · exact .inr ⟨later, hdone, hserving.delivers⟩

/-- A `New` for session 1 to `192.0.2.7:80` with one byte. -/
def newFrame : ClientFrame where
  metaBytes := [0, 1, 1, 1, 1, 0, 80, 1, 192, 0, 2, 7]
  info := ⟨1, stNew, optData, some ⟨.tcp, .ip (.v4 #v[192, 0, 2, 7]), 80⟩⟩
  data := some [7]
  length_le := by decide
  parse := rfl
  option := by decide
  data_le := by decide

/-- A `Keep` for session 1 with one byte. -/
def keepFrame : ClientFrame where
  metaBytes := [0, 1, 2, 1]
  info := ⟨1, stKeep, optData, none⟩
  data := some [8]
  length_le := by decide
  parse := rfl
  option := by decide
  data_le := by decide

/-- The session is opened and its first byte sent; of the second frame only the length
has been taken. -/
theorem mux_uplink_exact_first :
    ∃ trace c, Run Step (.serve (.new []) (wires [newFrame, keepFrame])) trace c ∧
      c.Holds [keepFrame] ∧ c.Delivers 1 [7] ∧
      ∃ done todo, [newFrame, keepFrame] = done ++ todo ∧ c.Holds todo ∧
        (done <+: [] ∧ (∀ sub ∈ c.subs, sub.sid ≠ 1) ∨
          ∃ later, done = newFrame :: later ∧ c.Delivers 1 (sessionData 1 newFrame later)) := by
  have hrun : ∃ trace c, Run Step (.serve (.new []) (wires [newFrame, keepFrame])) trace c ∧
      c.Holds [keepFrame] ∧ c.Delivers 1 [7] := by
    refine ⟨_, _, .cons (.field (k := 2) rfl (by decide)) <|
      .cons (.field (k := 12) rfl (by decide)) <| .cons (.field (k := 2) rfl (by decide)) <|
      .cons (.field (k := 1) rfl (by decide)) <|
      .cons (.seed rfl rfl ⟨rfl, rfl, by decide⟩) <|
      .cons (.field (k := 2) rfl (by decide)) (.nil _), ?_, ?_⟩
    · exact ⟨keepFrame, [], rfl, rfl, rfl⟩
    · refine ⟨0, _, _, _, _, rfl, rfl, rfl, ?_, fun _ => rfl, List.prefix_rfl⟩
      intro j other hother _
      have hlt := (List.getElem?_eq_some_iff.mp hother).1
      exact Nat.lt_one_iff.mp hlt
  obtain ⟨trace, c, h, hholds, hdelivers⟩ := hrun
  have honly : ∀ f ∈ [] ++ [keepFrame], ¬ f.Opens 1 := by
    intro f hf hopens
    rw [List.mem_singleton.mp hf] at hopens
    exact absurd hopens.1 (by decide)
  exact ⟨trace, c, h, hholds, hdelivers,
    @mux_uplink_exact 1 [] [keepFrame] newFrame _ ⟨rfl, rfl⟩ rfl rfl honly _ _ (List.append_nil _) _ _ h⟩

end XrayRs.Mux
