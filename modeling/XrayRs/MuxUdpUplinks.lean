import Mathlib.Data.List.Flatten
import XrayRs.MuxUplinks

/-! # What a mux client's datagrams come to

A `Keep` frame of a UDP session may name the target of its datagram, as XUDP clients do it,
and may leave it out, as those of plain mux.cool do: there all datagrams of a session go to
the target of its `New` frame.  The session map keeps the link of the session and not that
target, so a datagram without one is dropped.

As for the streams of TCP sessions, every move of the demultiplexer is followed for one
session (`Carrier.Deals`), here as long as the client neither ends it nor opens another one
under its id.  What is on its link are the datagrams that come with a target
(`Carrier.Deals.handles`), and so all of them exactly if each one does
(`mux_datagrams_iff`). -/

namespace XrayRs.Mux

open BoundedChannel ByteWords StepSystem ClientFrame

/-! ## The datagrams of a session -/

namespace ClientFrame

/-- The frame ends the session of the id, or opens another one in its place. -/
def Closes (f : ClientFrame) (sid : UInt16) : Prop :=
  f.info.sid = sid ∧ (f.info.status = stEnd ∨ f.info.status = stNew)

/-- A `Keep` frame with data for the id. -/
def Keeps (f : ClientFrame) (sid : UInt16) : Prop :=
  f.info.status = stKeep ∧ f.info.sid = sid ∧ f.data.isSome

instance (f : ClientFrame) (sid : UInt16) : Decidable (f.Keeps sid) :=
  inferInstanceAs (Decidable (_ ∧ _))

/-- Its datagram, for the target it names, or else for that of the session. -/
def datagram (sid : UInt16) (target : Destination) (f : ClientFrame) : List UdpPacket :=
  if f.Keeps sid then [⟨f.data.getD [], f.info.target.getD target⟩] else []

/-- A target is named. -/
def named (f : ClientFrame) : Bool := f.info.target.isSome

end ClientFrame

/-- **The datagrams that a client sends on a session**: that of the `New` frame, if it has
one, and those of the later `Keep` frames for the id. -/
def sessionDatagrams (sid : UInt16) (target : Destination) (opening : ClientFrame)
    (later : List ClientFrame) : List UdpPacket :=
  opening.data.toList.map (⟨·, target⟩) ++ later.flatMap (·.datagram sid target)

theorem datagram_of_not {sid : UInt16} {target : Destination} {f : ClientFrame}
    (h : ¬ f.Keeps sid) :
    f.datagram sid target = [] := if_neg h

/-- A frame that is not for the session, or names no target. -/
theorem named_datagrams_of_not {sid : UInt16} {target : Destination} {f : ClientFrame}
    (h : f.Keeps sid → f.named = false) :
      ([f].filter named).flatMap (·.datagram sid target) = [] := by
  by_cases hkeeps : f.Keeps sid
  · rw [List.filter_cons_of_neg (by simp [h hkeeps])]
    rfl
  · by_cases hname : f.named = true
    · simp [List.filter_cons_of_pos hname, datagram_of_not hkeeps]
    · rw [List.filter_cons_of_neg hname]
      rfl

/-- One for the session that names its target. -/
theorem named_datagrams_of_keeps {sid : UInt16} {target named' : Destination} {f : ClientFrame}
    {d : Bytes} (h : f.Keeps sid) (hdata : f.data = some d) (hname : f.info.target = some named') :
    ([f].filter named).flatMap (·.datagram sid target) = [⟨d, named'⟩] := by
  rw [List.filter_cons_of_pos (by simp [named, hname])]
  simp [datagram, h, hdata, hname]

/-- A list that is filtered gives less, unless what goes gave nothing. -/
theorem flatMap_filter_eq_iff {α β : Type} (p : α → Bool) (g : α → List β) (l : List α) :
    (l.filter p).flatMap g = l.flatMap g ↔ ∀ a ∈ l, g a ≠ [] → p a = true := by
  induction l with
  | nil => simp
  | cons a l ih =>
    rw [List.flatMap_cons, List.forall_mem_cons, ← ih]
    by_cases ha : p a = true
    · rw [List.filter_cons_of_pos ha, List.flatMap_cons, List.append_right_inj]
      exact (and_iff_right fun _ => ha).symm
    · rw [List.filter_cons_of_neg ha]
      have hle : ((l.filter p).flatMap g).length ≤ (l.flatMap g).length :=
        (List.filter_sublist.flatMap g).length_le
      constructor
      · intro heq
        have hlen := congrArg List.length heq
        rw [List.length_append] at hlen
        have hnil : g a = [] := List.length_eq_zero_iff.mp (by omega)
        rw [hnil] at heq
        exact ⟨fun hne => absurd hnil hne, heq⟩
      · rintro ⟨hnot, heq⟩
        have hnil : g a = [] := by
          by_contra hne
          exact ha (hnot hne)
        rw [heq, hnil, List.nil_append]

/-- **Nothing is left out** where each datagram names its target. -/
theorem sessionDatagrams_named_iff {sid : UInt16} {target : Destination} {opening : ClientFrame}
    {later : List ClientFrame} :
    sessionDatagrams sid target opening (later.filter named) =
        sessionDatagrams sid target opening later ↔
      ∀ f ∈ later, f.Keeps sid → f.named = true := by
  unfold sessionDatagrams
  rw [List.append_right_inj, flatMap_filter_eq_iff]
  refine forall₂_congr fun f _ => ?_
  unfold datagram
  by_cases hkeeps : f.Keeps sid <;> simp [hkeeps]

/-! ## The link of one session -/

/-- The packets put on the uplink of a UDP session. -/
def Flow.packets : Flow → List UdpPacket
  | .tcp .. => []
  | .udp up _ _ => up.sent

/-- The link of a UDP session: what is on it, with what is about to be put there, are the
packets `pkts`, while someone receives. -/
structure Sub.Dealt (sub : Sub) (pending pkts : List UdpPacket) : Prop where
  network_eq : sub.flow.network = .udp
  heard : sub.flow.Heard → sub.flow.packets ++ pending = pkts

namespace Sub.Dealt

variable {sub sub' : Sub} {pending pkts : List UdpPacket}

theorem keeps (h : Dealt sub pending pkts) (hkeeps : Sub.Keeps sub sub')
    (hpackets : sub'.flow.packets = sub.flow.packets) : Dealt sub' pending pkts := by
  refine ⟨hkeeps.network_eq.trans h.network_eq, fun hh => ?_⟩
  rw [hpackets]
  exact h.heard (hkeeps.heard hh)

/-- The packet that was pending is put on the link. -/
theorem push {pkt : UdpPacket} (h : Dealt sub [pkt] pkts) (hroom : sub.flow.CanSend) :
    Dealt { sub with flow := sub.flow.push pkt } [] pkts := by
  refine ⟨(Flow.network_push _ _).trans h.network_eq, fun _ => ?_⟩
  have hpkts := h.heard hroom.heard
  have hnetwork := h.network_eq
  cases hflow : sub.flow with
  | tcp up down egress =>
    rw [hflow] at hnetwork
    cases hnetwork
  | udp up down egress =>
    rw [hflow] at hpkts
    rw [← hpkts]
    simp [Flow.push, Flow.packets]

/-- Over UDP a `Keep` frame that is not dropped names its target. -/
theorem target_of (h : Dealt sub pending pkts) {named : Option Destination} {target : Destination}
    (hnamed : ∀ up down egress, sub.flow = .udp up down egress → named = some target) :
    named = some target := by
  cases hflow : sub.flow with
  | tcp up down egress =>
    have hnetwork := h.network_eq
    rw [hflow] at hnetwork
    cases hnetwork
  | udp up down egress => exact hnamed up down egress hflow

/-- The packet that was pending is lost with its receiver. -/
theorem refused (h : Dealt sub pending pkts) (hgone : sub.flow.Refuses) : Dealt sub [] pkts :=
  ⟨h.network_eq, fun hh => absurd hh hgone.not_heard⟩

/-- More is pending. -/
theorem next (h : Dealt sub [] pkts) (more : List UdpPacket) : Dealt sub more (pkts ++ more) := by
  refine ⟨h.network_eq, fun hh => ?_⟩
  rw [← h.heard hh, List.append_nil]

end Sub.Dealt

/-- Every sub-session is where it was, with the same packets on its uplink. -/
structure SameLinks (subs subs' : List Sub) : Prop where
  keeps : KeepsAll subs subs'
  packets_eq : subs'.map (·.flow.packets) = subs.map (·.flow.packets)

namespace SameLinks

variable {subs subs' subs'' : List Sub} {k : Nat} {sub sub' : Sub}

theorem refl (subs : List Sub) : SameLinks subs subs := ⟨.refl subs, rfl⟩

theorem trans (h : SameLinks subs subs') (h' : SameLinks subs' subs'') : SameLinks subs subs'' :=
  ⟨h.keeps.trans h'.keeps, h'.packets_eq.trans h.packets_eq⟩

theorem get (h : SameLinks subs subs') (hsub : subs[k]? = some sub) :
    ∃ sub', subs'[k]? = some sub' ∧ Sub.Keeps sub sub' ∧ sub'.flow.packets = sub.flow.packets := by
  obtain ⟨sub', hsub', hkeeps⟩ := h.keeps.get hsub
  refine ⟨sub', hsub', hkeeps, ?_⟩
  have hpackets := congrArg (·[k]?) h.packets_eq
  simpa [hsub, hsub'] using hpackets

/-- A session whose packets stay. -/
theorem set (hsub : subs[k]? = some sub) (h : Sub.Keeps sub sub')
    (hpackets : sub'.flow.packets = sub.flow.packets) : SameLinks subs (subs.set k sub') :=
  ⟨.set hsub h, map_set_eq hsub hpackets⟩

/-- A session whose entry is dropped, or whose task is spawned. -/
theorem modify {f : Sub → Sub} (h : ∀ sub, Sub.Keeps sub (f sub))
    (hpackets : ∀ sub, (f sub).flow.packets = sub.flow.packets) (subs : List Sub) (k : Nat) :
    SameLinks subs (subs.modify k f) :=
  ⟨.modify h subs k, map_modify_eq hpackets subs k⟩

end SameLinks

theorem packets_dropWriter (sub : Sub) : sub.dropWriter.flow.packets = sub.flow.packets := by
  cases sub with
  | mk sid target flow downlink => cases flow <;> rfl

theorem packets_finish (sub : Sub) : sub.finish.flow.packets = sub.flow.packets := by
  cases sub with
  | mk sid target flow downlink => cases flow <;> rfl

theorem SameLinks.map_dropWriter (subs : List Sub) : SameLinks subs (subs.map Sub.dropWriter) := by
  refine ⟨.map_dropWriter subs, ?_⟩
  rw [List.map_map]
  exact List.map_congr_left fun sub _ => packets_dropWriter sub

namespace Carrier

variable {c c' : Carrier}

theorem sameLinks_remove (c : Carrier) (sid : UInt16) : SameLinks c.subs (c.remove sid).subs := by
  unfold remove
  split
  · exact .refl _
  · exact .modify Sub.Keeps.dropWriter packets_dropWriter _ _

theorem sameLinks_register (c : Carrier) (sid : UInt16) (k : Nat) :
    SameLinks c.subs (c.register sid k).subs :=
  (c.sameLinks_remove sid).trans
    (.modify (f := Sub.spawn) (fun _ => ⟨rfl, rfl, rfl, id⟩) (fun _ => rfl) _ _)

/-- A frame puts nothing on a link, but perhaps makes a session. -/
theorem Outcome.sameLinks {info : Meta} {data : Option Bytes} (h : Outcome c info data c') :
    ∃ more, SameLinks (c.subs ++ more) c'.subs := by
  cases h with
  | skip | keep => exact ⟨[], by rw [List.append_nil]; exact .refl _⟩
  | @register target =>
    exact ⟨_, sameLinks_register { c with subs := c.subs ++ [newSub info.sid target] } info.sid
      c.subs.length⟩
  | seed => exact ⟨_, .refl _⟩
  | close => exact ⟨[], by rw [List.append_nil]; exact c.sameLinks_remove info.sid⟩
  | fail => exact ⟨[], by rw [List.append_nil]; exact .map_dropWriter _⟩

end Carrier

/-- **Only the demultiplexer puts packets on the links.** -/
theorem Step.sameLinks {c c' : Carrier} {a : Act} (h : Step c a c') (ha : a.ofDemux = false) :
    SameLinks c.subs c'.subs := by
  refine ⟨(h.aside ha).subs, ?_⟩
  cases h with
  | eof | readError | field | seed | seedFail | keep | keepFail | join => cases ha
  | dial _ hsub hflow | dialError hsub hflow =>
    refine map_set_eq hsub ?_
    rw [hflow]
    rfl
  | relay hsub hflow =>
    refine map_set_eq hsub ?_
    rw [hflow]
    rfl
  | egress hsub hflow _ hstep =>
    refine map_set_eq hsub ?_
    rw [hflow]
    exact hstep.moves.2.sent_eq
  | recvTcp hsub hflow | recvUdp hsub hflow =>
    refine map_set_eq hsub ?_
    rw [hflow]
    rfl
  | recvEnd hsub | push hsub => exact map_set_eq hsub rfl
  | pushEnd hsub | pushFail hsub => exact map_set_eq hsub (packets_finish _)
  | fill | write | wrote | take | writeError | outEnd | flush | idle => rfl

namespace Carrier

/-- The packet that the demultiplexer is about to put on the link of the session `k`. -/
def pendingPackets (c : Carrier) (k : Nat) : List UdpPacket :=
  match c.demux with
  | .seeding j pkt | .keeping j pkt => if j = k then [pkt] else []
  | _ => []

/-- **A live UDP session of a carrier**: of the id `sid`, at `k`, with the packets that the
client has sent on it.  It is the one that the id stands for, and none is made in its
place. -/
structure Deals (c : Carrier) (sid : UInt16) (k : Nat) (pkts : List UdpPacket) : Prop where
  link : ∃ sub, c.subs[k]? = some sub ∧ sub.sid = sid ∧ sub.Dealt (c.pendingPackets k) pkts
  entry : c.sessions sid = some k ∨ (∃ pkt, c.demux = .seeding k pkt) ∨ c.demux.Stopped
  alone : ∀ j pkt, c.demux = .seeding j pkt → (c.subs.map Sub.sid)[j]? = some sid → j = k

variable {c c' : Carrier} {sid : UInt16} {k : Nat} {pkts : List UdpPacket}

theorem Sending.pendingPackets_eq {j : Nat} {pkt : UdpPacket} (h : c.Sending j pkt) (k : Nat) :
    c.pendingPackets k = if j = k then [pkt] else [] := by
  unfold pendingPackets
  rcases h with h | h <;> rw [h]

theorem pendingPackets_of_need {n : Nat} (h : c.demux.need = some n) (k : Nat) :
    c.pendingPackets k = [] := by
  unfold pendingPackets
  split
  · next hdemux => rw [hdemux] at h; cases h
  · next hdemux => rw [hdemux] at h; cases h
  · rfl

/-- The sessions go on, and there may be a new one. -/
theorem Deals.link_of_same (h : c.Deals sid k pkts) (more : List Sub)
    (hsubs : SameLinks (c.subs ++ more) c'.subs) :
    ∃ sub, c'.subs[k]? = some sub ∧ sub.sid = sid ∧ sub.Dealt (c.pendingPackets k) pkts := by
  obtain ⟨sub, hsub, hsid, hdealt⟩ := h.link
  have hleft : (c.subs ++ more)[k]? = some sub := by
    rw [List.getElem?_append_left (List.getElem?_eq_some_iff.mp hsub).1, hsub]
  obtain ⟨sub', hsub', hkeeps, hpackets⟩ := hsubs.get hleft
  exact ⟨sub', hsub', hkeeps.sid_eq.trans hsid, hdealt.keeps hkeeps hpackets⟩

/-- Between frames the session is in the map. -/
theorem Deals.entry_of_need (h : c.Deals sid k pkts) {n : Nat} (hneed : c.demux.need = some n) :
    c.sessions sid = some k := by
  rcases h.entry with hentry | ⟨pkt, hdemux⟩ | hstop
  · exact hentry
  · rw [hdemux] at hneed
    cases hneed
  · exact absurd hstop (not_stopped_of_need hneed)

/-- What goes on beside the demultiplexer does not touch a session. -/
theorem Deals.aside (h : c.Deals sid k pkts) (ha : Aside c c') (hsame : SameLinks c.subs c'.subs) :
    c'.Deals sid k pkts := by
  have hpending : c'.pendingPackets k = c.pendingPackets k := by
    unfold pendingPackets
    rw [ha.demux_eq]
  refine ⟨?_, ?_, ?_⟩
  · rw [hpending]
    exact h.link_of_same [] (by rw [List.append_nil]; exact hsame)
  · rw [ha.sessions_eq, ha.demux_eq]
    exact h.entry
  · rw [ha.demux_eq, ha.subs.sids_eq]
    exact h.alone

/-- A move that is not for the session. -/
theorem Deals.beside (h : c.Deals sid k pkts) {n : Nat} (hneed : c.demux.need = some n)
    (more : List Sub) (hsubs : SameLinks (c.subs ++ more) c'.subs)
    (hdemux : ∀ pkt, c'.demux ≠ .seeding k pkt ∧ c'.demux ≠ .keeping k pkt)
    (hsessions : c'.sessions sid = c.sessions sid ∨ c'.demux.Stopped)
    (halone : ∀ j pkt, c'.demux = .seeding j pkt → (c'.subs.map Sub.sid)[j]? ≠ some sid) :
    c'.Deals sid k pkts := by
  have hpending : c'.pendingPackets k = [] := by
    unfold pendingPackets
    split
    · next j pkt hseeding =>
      refine if_neg fun hj => (hdemux pkt).1 ?_
      rw [hseeding, hj]
    · next j pkt hkeeping =>
      refine if_neg fun hj => (hdemux pkt).2 ?_
      rw [hkeeping, hj]
    · rfl
  have hlink := h.link_of_same more hsubs
  rw [pendingPackets_of_need hneed, ← hpending] at hlink
  refine ⟨hlink, ?_, fun j pkt hseeding hsid => absurd hsid (halone j pkt hseeding)⟩
  rcases hsessions with hsame | hstop
  · exact .inl (hsame.trans (h.entry_of_need hneed))
  · exact .inr (.inr hstop)

/-- The carrier ends. -/
theorem Deals.finish (h : c.Deals sid k pkts) {n : Nat} (hneed : c.demux.need = some n)
    (result : Except IoError Unit) : (c.finish result).Deals sid k pkts := by
  refine h.beside hneed [] ?_ (fun _ => ⟨nofun, nofun⟩) (.inr trivial) nofun
  rw [List.append_nil]
  exact .map_dropWriter c.subs

/-- **A datagram for the session** is taken. -/
theorem Deals.keeps_own (h : c.Deals sid k pkts) {n : Nat} (hneed : c.demux.need = some n)
    (pkt : UdpPacket) : Deals { c with demux := .keeping k pkt } sid k (pkts ++ [pkt]) := by
  obtain ⟨sub, hsub, hsid, hdealt⟩ := h.link
  rw [pendingPackets_of_need hneed] at hdealt
  refine ⟨⟨sub, hsub, hsid, ?_⟩, .inl (h.entry_of_need hneed), nofun⟩
  rw [Sending.pendingPackets_eq (.inr rfl), if_pos rfl]
  exact hdealt.next _

/-- **A session over a frame** that neither ends it nor opens another one: it gets the
datagram of a `Keep` for its id that names a target, and no other. -/
theorem Deals.handles (h : c.Deals sid k pkts) (hmapped : c.Mapped) {n : Nat}
    (hneed : c.demux.need = some n) {f : ClientFrame} (hnot : ¬ f.Closes sid)
    (hh : Outcome c f.info f.data c') (target : Destination) :
    c'.Deals sid k (pkts ++ ([f].filter named).flatMap (·.datagram sid target)) := by
  obtain ⟨more, hsubs⟩ := hh.sameLinks
  obtain ⟨old, hold, holdsid, holddealt⟩ := h.link
  have hlt := (List.getElem?_eq_some_iff.mp hold).1
  -- a frame that gives the session nothing
  have hnone : (f.Keeps sid → f.named = false) → c'.Deals sid k pkts →
      c'.Deals sid k (pkts ++ ([f].filter named).flatMap (·.datagram sid target)) := by
    intro hkeeps hdeals
    rwa [named_datagrams_of_not hkeeps, List.append_nil]
  have hother : ∀ {status : UInt8}, f.info.status = status → status ≠ stKeep → f.Keeps sid →
      f.named = false := fun heq hne hkeeps => absurd (heq.symm.trans hkeeps.1) hne
  cases hh with
  | skip hnew hkeep =>
    refine hnone (fun hkeeps => ?_) ?_
    · obtain ⟨hstatus, rfl, hsome⟩ := hkeeps
      obtain ⟨d, hdata⟩ := Option.isSome_iff_exists.mp hsome
      have htarget := (hkeep hstatus d k old hdata (h.entry_of_need hneed) hold).1
      simp [named, htarget]
    · exact h.beside hneed more hsubs (fun _ => ⟨nofun, nofun⟩) (.inl rfl) nofun
  | @register target' hstatus =>
    refine hnone (hother hstatus (by decide)) ?_
    refine h.beside hneed more hsubs (fun _ => ⟨nofun, nofun⟩) (.inl ?_) nofun
    rw [register_sessions, if_neg fun hsid => hnot ⟨hsid.symm, .inr hstatus⟩]
  | @seed target' d hstatus =>
    refine hnone (hother hstatus (by decide)) ?_
    refine h.beside hneed more hsubs (fun pkt => ⟨fun heq => ?_, nofun⟩)
      (.inl rfl) fun j pkt heq => ?_
    · -- the new session stands behind all others
      rw [(Demux.seeding.inj heq).1] at hlt
      exact Nat.lt_irrefl k hlt
    · rw [← (Demux.seeding.inj heq).1, List.getElem?_map, List.getElem?_concat_length]
      intro hsid
      exact hnot ⟨(newSub_sid _ _).symm.trans (Option.some.inj hsid), .inr hstatus⟩
  | @keep j sub d target' hstatus hdata hentry hsub htarget =>
    by_cases hsid : f.info.sid = sid
    · subst hsid
      obtain rfl := Option.some.inj (hentry.symm.trans (h.entry_of_need hneed))
      obtain rfl := Option.some.inj (hsub.symm.trans hold)
      have hname : f.info.target = some target' := holddealt.target_of htarget
      have hkeeps : f.Keeps f.info.sid := ⟨hstatus, rfl, by rw [hdata]; rfl⟩
      rw [named_datagrams_of_keeps hkeeps hdata hname]
      exact h.keeps_own hneed _
    · refine hnone (fun hkeeps => absurd hkeeps.2.1 hsid) ?_
      refine h.beside hneed more hsubs (fun pkt => ⟨nofun, fun heq => hsid ?_⟩) (.inl rfl) nofun
      -- the entry of another id is not at `k`
      have hj := hmapped _ _ hentry
      rw [(Demux.keeping.inj heq).1, List.getElem?_map, hold, Option.map_some, holdsid] at hj
      exact (Option.some.inj hj).symm
  | close hstatus =>
    refine hnone (hother hstatus (by decide)) ?_
    refine h.beside hneed more hsubs (fun _ => ⟨nofun, nofun⟩) (.inl ?_) nofun
    rw [remove_sessions, if_neg fun hsid => hnot ⟨hsid.symm, .inl hstatus⟩]
  | fail hunknown =>
    refine hnone (fun hkeeps => ?_) (h.finish hneed _)
    rw [hkeeps.1] at hunknown
    exact absurd (by decide) hunknown

/-- **The opening of a session**, in whatever place of an older one. -/
theorem Outcome.deals {f : ClientFrame} {target : Destination} (hh : Outcome c f.info f.data c')
    (hopens : f.Opens sid) (htarget : f.info.target = some target) (hudp : target.network = .udp) :
    c'.Deals sid c.subs.length (f.data.toList.map (⟨·, target⟩)) := by
  obtain ⟨hstatus, rfl⟩ := hopens
  have hsub : newSub f.info.sid target =
      ⟨f.info.sid, target, .udp (.new _ linkCapacity) (.new _ linkCapacity) .start, .unborn⟩ :=
    if_pos hudp
  have hnew :
    (c.subs ++ [newSub f.info.sid target])[c.subs.length]? = some (newSub f.info.sid target) :=
    List.getElem?_concat_length
  have hdealt : ∀ pkts, (newSub f.info.sid target).Dealt pkts pkts := by
    intro pkts
    rw [hsub]
    exact ⟨rfl, fun _ => rfl⟩
  cases hh with
  | @register target' _ htarget' hdata =>
    obtain rfl := Option.some.inj (htarget.symm.trans htarget')
    obtain ⟨sub, hget, hkeeps, hpackets⟩ := (sameLinks_register
      { c with subs := c.subs ++ [newSub f.info.sid target] } f.info.sid c.subs.length).get hnew
    have hnone : f.data = none := hdata.resolve_right fun hempty => hempty.2 hudp
    rw [hnone]
    refine ⟨⟨sub, hget, hkeeps.sid_eq.trans (newSub_sid _ _),
      (hdealt []).keeps hkeeps hpackets⟩, .inl ?_,
      nofun⟩
    rw [register_sessions, if_pos rfl]
  | @seed target' d _ htarget' hdata =>
    obtain rfl := Option.some.inj (htarget.symm.trans htarget')
    refine ⟨⟨_, hnew, newSub_sid _ _, ?_⟩, .inr (.inl ⟨_, rfl⟩), fun j pkt heq _ => ?_⟩
    · rw [Sending.pendingPackets_eq (.inl rfl), if_pos rfl, hdata]
      exact hdealt _
    · exact (Demux.seeding.inj heq).1.symm
  | skip hnone =>
    rw [hnone hstatus] at htarget
    cases htarget
  | keep hother | close hother =>
    rw [hstatus] at hother
    cases hother
  | fail hunknown =>
    rw [hstatus] at hunknown
    exact absurd (by decide) hunknown

/-! ## A send -/

section Send

variable {j : Nat} {pkt : UdpPacket} {sub : Sub}

/-- The packet is put on the link. -/
theorem Deals.link_of_send (h : c.Deals sid k pkts) (hsending : c.Sending j pkt)
    (hsub : c.subs[j]? = some sub) (hroom : sub.flow.CanSend)
    (hsubs : SameLinks (c.subs.set j { sub with flow := sub.flow.push pkt }) c'.subs) :
    ∃ sub, c'.subs[k]? = some sub ∧ sub.sid = sid ∧ sub.Dealt [] pkts := by
  obtain ⟨old, hold, hsid, hdealt⟩ := h.link
  rw [hsending.pendingPackets_eq] at hdealt
  by_cases hj : j = k
  · subst hj
    obtain rfl := Option.some.inj (hsub.symm.trans hold)
    rw [if_pos rfl] at hdealt
    have hset : (c.subs.set j { sub with flow := sub.flow.push pkt })[j]? =
        some { sub with flow := sub.flow.push pkt } :=
      List.getElem?_set_self (List.getElem?_eq_some_iff.mp hsub).1
    obtain ⟨sub', hsub', hkeeps, hpackets⟩ := hsubs.get hset
    exact ⟨sub', hsub', hkeeps.sid_eq.trans hsid, (hdealt.push hroom).keeps hkeeps hpackets⟩
  · rw [if_neg hj] at hdealt
    obtain ⟨sub', hsub', hkeeps, hpackets⟩ := hsubs.get ((List.getElem?_set_ne hj).trans hold)
    exact ⟨sub', hsub', hkeeps.sid_eq.trans hsid, hdealt.keeps hkeeps hpackets⟩

/-- The packet is lost: its link has no receiver any more. -/
theorem Deals.link_of_refused (h : c.Deals sid k pkts) (hsending : c.Sending j pkt)
    (hsub : c.subs[j]? = some sub) (hgone : sub.flow.Refuses) (hsubs : SameLinks c.subs c'.subs) :
    ∃ sub, c'.subs[k]? = some sub ∧ sub.sid = sid ∧ sub.Dealt [] pkts := by
  obtain ⟨old, hold, hsid, hdealt⟩ := h.link
  rw [hsending.pendingPackets_eq] at hdealt
  obtain ⟨sub', hsub', hkeeps, hpackets⟩ := hsubs.get hold
  refine ⟨sub', hsub', hkeeps.sid_eq.trans hsid, ?_⟩
  by_cases hj : j = k
  · subst hj
    obtain rfl := Option.some.inj (hsub.symm.trans hold)
    exact (hdealt.refused hgone).keeps hkeeps hpackets
  · rw [if_neg hj] at hdealt
    exact hdealt.keeps hkeeps hpackets

/-- The demultiplexer goes on to the next frame. -/
theorem Deals.sent (hlink : ∃ sub, c'.subs[k]? = some sub ∧ sub.sid = sid ∧ sub.Dealt [] pkts)
    (hdemux : c'.demux = .metalen) (hentry : c'.sessions sid = some k) : c'.Deals sid k pkts := by
  rw [← pendingPackets_of_need (n := 2) (by rw [hdemux]; rfl) k] at hlink
  refine ⟨hlink, .inl hentry, fun j pkt heq => ?_⟩
  rw [hdemux] at heq
  cases heq

/-- After the end of `handle_new`. -/
theorem Deals.entry_of_register (h : c.Deals sid k pkts) (hdemux : c.demux = .seeding j pkt)
    (hsub : c.subs[j]? = some sub) (hentry' : ∀ s, c'.sessions s =
      if s = sub.sid then some j else c.sessions s) : c'.sessions sid = some k := by
  rw [hentry']
  by_cases hsid : sid = sub.sid
  · rw [if_pos hsid, h.alone j pkt hdemux (by rw [List.getElem?_map, hsub, hsid]; rfl)]
  · rw [if_neg hsid]
    rcases h.entry with hentry | ⟨other, hother⟩ | hstop
    · exact hentry
    · obtain ⟨old, hold, holdsid, -⟩ := h.link
      rw [hdemux] at hother
      rw [← (Demux.seeding.inj hother).1] at hold
      obtain rfl := Option.some.inj (hsub.symm.trans hold)
      exact absurd holdsid.symm hsid
    · rw [hdemux] at hstop
      cases hstop

/-- After the end of `handle_keep`. -/
theorem Deals.entry_of_keep (h : c.Deals sid k pkts) (hdemux : c.demux = .keeping j pkt) :
    c.sessions sid = some k := by
  rcases h.entry with hentry | ⟨other, hother⟩ | hstop
  · exact hentry
  · rw [hdemux] at hother
    cases hother
  · rw [hdemux] at hstop
    cases hstop

end Send

theorem Deals.returned (h : c.Deals sid k pkts) {result : Except IoError Unit}
    (hdemux : c.demux = .draining result) :
    Deals { c with demux := .returned result } sid k pkts := by
  obtain ⟨sub, hsub, hsid, hdealt⟩ := h.link
  have hpending : c.pendingPackets k = [] := by
    unfold pendingPackets
    rw [hdemux]
  rw [hpending] at hdealt
  exact ⟨⟨sub, hsub, hsid, hdealt⟩, .inr (.inr trivial), nofun⟩

end Carrier

/-! ## The frames to come -/

theorem length_wires_le_of_suffix {frames frames' : List ClientFrame} (h : frames <:+ frames') :
    (wires frames).length ≤ (wires frames').length := by
  obtain ⟨front, rfl⟩ := h
  rw [wires, wires, List.flatMap_append, List.length_append]
  exact Nat.le_add_left _ _

theorem length_wire (f : ClientFrame) :
    f.wire.length = 2 + (bodyBytes f.metaBytes f.data).length := by
  rw [wire, List.length_append]
  rfl

theorem length_wires_cons (f : ClientFrame) (rest : List ClientFrame) :
    (wires (f :: rest)).length =
      2 + (bodyBytes f.metaBytes f.data).length + (wires rest).length := by
  rw [wires, List.flatMap_cons, List.length_append, length_wire]
  rfl

/-- Some fields of a frame have been taken. -/
def Demux.begun : Demux → Bool
  | .metadata _ | .datalen _ | .data .. => true
  | _ => false

/-- **How much of the frames is there**: all of it, or, when the first one is begun, less,
but all of the others. -/
theorem Carrier.Holds.length_content {c : Carrier} {todo : List ClientFrame} (h : c.Holds todo)
    (hrunning : ¬ c.demux.Stopped) :
    if c.demux.begun then
      c.content.length < (wires todo).length ∧ (wires todo.tail).length ≤ c.content.length
    else c.content.length = (wires todo).length := by
  unfold Holds at h
  cases hdemux : c.demux with
  | metalen | seeding | keeping =>
    rw [hdemux] at h
    exact congrArg List.length h
  | metadata len =>
    rw [hdemux] at h
    obtain ⟨f, rest, rfl, -, hcontent⟩ := h
    rw [hcontent, length_wires_cons, List.length_append, List.tail_cons]
    exact ⟨by omega, by omega⟩
  | datalen info =>
    rw [hdemux] at h
    obtain ⟨f, rest, d, rfl, -, hdata, hcontent⟩ := h
    rw [hcontent, length_wires_cons, hdata, bodyBytes]
    simp only [List.length_append, List.tail_cons]
    exact ⟨by omega, by omega⟩
  | data info len =>
    rw [hdemux] at h
    obtain ⟨f, rest, d, rfl, -, hdata, -, hcontent⟩ := h
    rw [hcontent, length_wires_cons, hdata, bodyBytes]
    simp only [List.length_append, List.tail_cons]
    exact ⟨by omega, by omega⟩
  | draining | returned =>
    rw [hdemux] at hrunning
    exact absurd trivial hrunning

/-- **The frames to come are known** from the state, while the demultiplexer runs. -/
theorem Carrier.Holds.unique {c : Carrier} {todo todo' : List ClientFrame} (h : c.Holds todo)
    (h' : c.Holds todo') (hrunning : ¬ c.demux.Stopped)
      (hsuffix : todo <:+ todo') : todo = todo' := by
  obtain ⟨front, rfl⟩ := hsuffix
  cases front with
  | nil => rfl
  | cons f front =>
    have hlen := h.length_content hrunning
    have hlen' := h'.length_content hrunning
    have htail := length_wires_le_of_suffix (List.suffix_append front todo)
    rw [List.cons_append, length_wires_cons, List.tail_cons] at hlen'
    split at hlen
    · next hbegun =>
      rw [if_pos hbegun] at hlen'
      omega
    · next hbegun =>
      rw [if_neg hbegun] at hlen'
      omega

/-! ## The run -/

open Carrier in
/-- **A live session over a step** that handles no frame. -/
theorem Step.deals {c c' : Carrier} {a : Act} {sid : UInt16} {k : Nat} {pkts : List UdpPacket}
    (hstep : Step c a c') (hc : c.Deals sid k pkts) (hwithin : c.Within c' a) :
    c'.Deals sid k pkts := by
  cases hdemuxing : a.ofDemux with
  | false => exact hc.aside (hstep.aside hdemuxing) (hstep.sameLinks hdemuxing)
  | true =>
    cases hstep with
    | eof hneed | readError _ hneed =>
      obtain ⟨result, heq⟩ := c.readFailed_eq _
      rw [heq]
      exact hc.finish hneed result
    | field =>
      obtain ⟨n, buf, next, hneed, hnext, heq⟩ := hwithin rfl
      rw [heq]
      refine hc.beside hneed [] (by rw [List.append_nil]; exact .refl _) ?_ (.inl rfl) ?_
      · refine fun pkt => ⟨?_, ?_⟩ <;> rintro rfl <;> exact absurd rfl hnext
      · rintro j pkt rfl
        exact absurd rfl hnext
    | @seed j pkt sub hdemux hsub hroom =>
      have hsubs :=
        sameLinks_register { c with subs := c.subs.set j { sub with flow := sub.flow.push pkt } }
        sub.sid j
      have hlink := hc.link_of_send (.inl hdemux) hsub hroom hsubs
      exact .sent hlink rfl (hc.entry_of_register hdemux hsub fun s =>
        register_sessions _ sub.sid s j)
    | @seedFail j pkt sub hdemux hsub hgone =>
      have hlink := hc.link_of_refused (.inl hdemux) hsub hgone (c.sameLinks_register sub.sid j)
      exact .sent hlink rfl (hc.entry_of_register hdemux hsub fun s =>
        register_sessions _ sub.sid s j)
    | @keep j pkt sub hdemux hsub hroom =>
      exact .sent (hc.link_of_send (.inr hdemux) hsub hroom (.refl _)) rfl (hc.entry_of_keep hdemux)
    | @keepFail j pkt sub hdemux hsub hgone =>
      exact .sent (hc.link_of_refused (.inr hdemux) hsub hgone (.refl _)) rfl
        (hc.entry_of_keep hdemux)
    | join hdemux => exact hc.returned hdemux
    | _ => cases hdemuxing

/-- **The demultiplexer follows the client**: the frames `done` are handled, those `todo`
are to come.  Once the frame `opening` is handled, its session gets the datagrams that
come with a target, until the client closes it. -/
structure Carrier.FollowsUdp (c : Carrier) (sid : UInt16) (target : Destination)
    (before : List ClientFrame) (opening : ClientFrame) (done todo : List ClientFrame) : Prop where
  holds : c.Holds todo
  mapped : c.Mapped
  session : done <+: before ∨ ∃ later, done = before ++ opening :: later ∧
    ((∃ f ∈ later, f.Closes sid) ∨
      ∃ k, c.Deals sid k (sessionDatagrams sid target opening (later.filter named)))

/-- Some of the client's frames are handled, the others are to come. -/
def Carrier.InStepUdp (c : Carrier) (sid : UInt16) (target : Destination)
    (before : List ClientFrame) (opening : ClientFrame) (after : List ClientFrame) : Prop :=
  ∃ done todo, before ++ opening :: after = done ++ todo ∧
    c.FollowsUdp sid target before opening done todo

section Run

variable {c c' : Carrier} {a : Act} {sid : UInt16} {target : Destination}
  {before after done todo : List ClientFrame} {opening : ClientFrame}

/-- One frame more. -/
theorem sessionDatagrams_snoc (f : ClientFrame) (later : List ClientFrame) :
    sessionDatagrams sid target opening ((later ++ [f]).filter named) =
      sessionDatagrams sid target opening (later.filter named) ++
        ([f].filter named).flatMap (·.datagram sid target) := by
  unfold sessionDatagrams
  rw [List.filter_append, List.flatMap_append, List.append_assoc]

/-- **A frame is handled.** -/
theorem Carrier.FollowsUdp.handles (h : c.FollowsUdp sid target before opening done todo) {n : Nat}
    (hneed : c.demux.need = some n) (hopens : opening.Opens sid)
    (htarget : opening.info.target = some target) (hudp : target.network = .udp) {f : ClientFrame}
    {rest : List ClientFrame} (hframes : before ++ opening :: after = done ++ f :: rest)
    {buf : Bytes} (hh : Carrier.Outcome { c with buf := buf } f.info f.data c')
    (hholds : c'.Holds rest) : c'.FollowsUdp sid target before opening (done ++ [f]) rest := by
  have hmapped : Carrier.Mapped { c with buf := buf } := h.mapped
  refine ⟨hholds, hmapped.handles hh.handles, ?_⟩
  rcases h.session with hfront | ⟨later, rfl, hsession⟩
  · rcases Carrier.next_frame hfront hframes with ⟨-, hnext⟩ | ⟨rfl, rfl⟩
    · exact .inl hnext
    · refine .inr ⟨[], rfl, .inr ⟨c.subs.length, ?_⟩⟩
      simpa [sessionDatagrams] using hh.deals hopens htarget hudp
  · refine .inr ⟨later ++ [f], by simp, ?_⟩
    rcases hsession with ⟨g, hg, hcloses⟩ | ⟨k, hdeals⟩
    · exact .inl ⟨g, List.mem_append_left _ hg, hcloses⟩
    · by_cases hcloses : f.Closes sid
      · exact .inl ⟨f, by simp, hcloses⟩
      · have hbuf : Carrier.Deals { c with buf := buf } sid k _ :=
          ⟨hdeals.link, hdeals.entry, hdeals.alone⟩
        rw [sessionDatagrams_snoc]
        exact .inr ⟨k, hbuf.handles hmapped hneed hcloses hh target⟩

/-- **A step follows the client.** -/
theorem Step.followsUdp (hstep : Step c a c') (hopens : opening.Opens sid)
    (htarget : opening.info.target = some target) (hudp : target.network = .udp)
    (hc : c.InStepUdp sid target before opening after) :
    c'.InStepUdp sid target before opening after := by
  obtain ⟨done, todo, hframes, h⟩ := hc
  cases hstep.progress h.holds with
  | within hholds hwithin =>
    refine ⟨done, todo, hframes, hholds, hstep.mapped h.mapped, ?_⟩
    rcases h.session with hfront | ⟨later, hdone, hclosed | ⟨k, hdeals⟩⟩
    · exact .inl hfront
    · exact .inr ⟨later, hdone, .inl hclosed⟩
    · exact .inr ⟨later, hdone, .inr ⟨k, hstep.deals hdeals hwithin⟩⟩
  | frame f rest n buf htodo hneed houtcome hholds =>
    subst htodo
    exact ⟨done ++ [f], rest, by rw [hframes, List.append_assoc]; rfl,
      h.handles hneed hopens htarget hudp hframes houtcome hholds⟩

end Run

/-- Where the frames up to `later` are handled, and the session is not closed. -/
theorem Carrier.FollowsUdp.live {c : Carrier} {sid : UInt16} {target : Destination}
    {before done todo later rest : List ClientFrame} {opening : ClientFrame}
    (h : c.FollowsUdp sid target before opening done rest) (hrunning : ¬ c.demux.Stopped)
    (htodo : c.Holds todo) (hframes : before ++ opening :: (later ++ todo) = done ++ rest)
    (hlive : ∀ f ∈ later, ¬ f.Closes sid) :
    ∃ k, c.Deals sid k (sessionDatagrams sid target opening (later.filter named)) := by
  have htodo' : todo <:+ before ++ opening :: (later ++ todo) :=
    ⟨before ++ opening :: later, by simp⟩
  have hrest : rest <:+ before ++ opening :: (later ++ todo) := ⟨done, hframes.symm⟩
  have hsame : todo = rest := by
    rcases List.suffix_or_suffix_of_suffix htodo' hrest with hle | hle
    · exact htodo.unique h.holds hrunning hle
    · exact (h.holds.unique htodo hrunning hle).symm
  subst hsame
  rw [← List.cons_append, ← List.append_assoc] at hframes
  obtain rfl := List.append_cancel_right hframes
  rcases h.session with hfront | ⟨later', hdone, hsession⟩
  · have hlen := hfront.length_le
    rw [List.length_append, List.length_cons] at hlen
    omega
  · obtain rfl := (List.cons.inj (List.append_cancel_left hdone)).2
    exact hsession.resolve_left fun ⟨f, hf, hcloses⟩ => hlive f hf hcloses

/-- The link `up` of the UDP session at `k`, for which the id `sid` stands, but for the start
of the session and the end of the carrier. -/
def Carrier.HasLink (c : Carrier) (sid : UInt16) (k : Nat) (up : Chan UdpPacket) : Prop :=
  (∃ (sub : Sub) (down : Chan UdpPacket) (egress : FreedomUdp),
    c.subs[k]? = some sub ∧ sub.sid = sid ∧ sub.flow = .udp up down egress) ∧
  (c.sessions sid = some k ∨ (∃ pkt, c.demux = .seeding k pkt) ∨ c.demux.Stopped)

theorem Carrier.Deals.hasLink {c : Carrier} {sid : UInt16} {k : Nat} {pkts : List UdpPacket}
    (h : c.Deals sid k pkts) :
    ∃ up, c.HasLink sid k up ∧ (up.rxAlive = true → up.sent ++ c.pendingPackets k = pkts) := by
  obtain ⟨sub, hsub, hsid, hnetwork, hheard⟩ := h.link
  cases hflow : sub.flow with
  | tcp up down egress =>
    rw [hflow] at hnetwork
    cases hnetwork
  | udp up down egress =>
    rw [hflow] at hheard
    exact ⟨up, ⟨⟨sub, down, egress, hsub, hsid, hflow⟩, h.entry⟩, hheard⟩

/-- **The datagrams of a UDP session.**  Let a client send frames, among them the `opening`, a
`New` for the id `sid` with a UDP target, and let those up to `later` be handled, however
the bytes are cut into reads and whatever else goes on.  If the client has neither ended the
session nor opened another one under its id, and someone receives on its link, then there
are put on the link the datagrams that come with a target, in order and no others.  These
are all that the client has sent if and only if each `Keep` frame with data names its
target. -/
theorem mux_datagrams_iff {sid : UInt16} {before later todo : List ClientFrame}
    {opening : ClientFrame}
    {target : Destination} (hopens : opening.Opens sid)
      (htarget : opening.info.target = some target)
    (hudp : target.network = .udp) (hlive : ∀ f ∈ later, ¬ f.Closes sid) {conn : Conn}
    {leftover : Bytes}
      (hbytes : leftover ++ conn.unread = wires (before ++ opening :: (later ++ todo)))
    {trace : List (Act × Carrier)} {c : Carrier} (h : Run Step (.serve conn leftover) trace c)
    (hrunning : ¬ c.demux.Stopped) (htodo : c.Holds todo) :
    ∃ k up, c.HasLink sid k up ∧ (up.rxAlive = true →
      up.sent ++ c.pendingPackets k = sessionDatagrams sid target opening (later.filter named) ∧
        (up.sent ++ c.pendingPackets k = sessionDatagrams sid target opening later ↔
          ∀ f ∈ later, f.Keeps sid → f.named = true)) := by
  have hstart : (Carrier.serve conn leftover).InStepUdp sid target before opening (later ++ todo) :=
    ⟨[], _, rfl, hbytes, (fun _ _ hk => nomatch hk), .inl List.nil_prefix⟩
  have hfollows : c.InStepUdp sid target before opening (later ++ todo) :=
    h.invariant hstart fun s t a hs hstep => hstep.followsUdp hopens htarget hudp hs
  obtain ⟨done, todo', hframes, hc⟩ := hfollows
  have hsession := hc.live hrunning htodo hframes hlive
  obtain ⟨k, hdeals⟩ := hsession
  obtain ⟨up, hlink, hheard⟩ := hdeals.hasLink
  refine ⟨k, up, hlink, fun halive => ⟨hheard halive, ?_⟩⟩
  rw [hheard halive]
  exact sessionDatagrams_named_iff

/-- A `New` for session 1 to `10.0.0.3:53`, over UDP, with one byte. -/
def newUdpFrame : ClientFrame where
  metaBytes := [0, 1, 1, 1, 2, 0, 53, 1, 10, 0, 0, 3]
  info := ⟨1, stNew, optData, some (.udp (.ip (.v4 #v[10, 0, 0, 3])) 53)⟩
  data := some [5]
  length_le := by decide
  parse := rfl
  option := by decide
  data_le := by decide

/-- A `Keep` for session 1 with one byte for `10.0.0.2:53`. -/
def keepUdpFrame : ClientFrame where
  metaBytes := [0, 1, 2, 1, 2, 0, 53, 1, 10, 0, 0, 2]
  info := ⟨1, stKeep, optData, some (.udp (.ip (.v4 #v[10, 0, 0, 2])) 53)⟩
  data := some [6]
  length_le := by decide
  parse := rfl
  option := by decide
  data_le := by decide

/-- A datagram with a target follows the first one. -/
theorem mux_datagrams_iff_named :
    ∃ trace c, Run Step (.serve (.new []) (wires [newUdpFrame, keepUdpFrame])) trace c ∧
      ∃ k up, c.HasLink 1 k up ∧ (up.rxAlive = true → up.sent ++ c.pendingPackets k =
        [⟨[5], .udp (.ip (.v4 #v[10, 0, 0, 3])) 53⟩,
          ⟨[6], .udp (.ip (.v4 #v[10, 0, 0, 2])) 53⟩]) := by
  have hrun : ∃ trace c, Run Step (.serve (.new []) (wires [newUdpFrame, keepUdpFrame])) trace c ∧
      ¬ c.demux.Stopped ∧ c.Holds [] := by
    exact ⟨_, _, .cons (.field (k := 2) rfl (by decide)) <|
      .cons (.field (k := 12) rfl (by decide)) <| .cons (.field (k := 2) rfl (by decide)) <|
      .cons (.field (k := 1) rfl (by decide)) <|
      .cons (.seed rfl rfl ⟨rfl, rfl, by decide⟩) <| .cons (.field (k := 2) rfl (by decide)) <|
      .cons (.field (k := 12) rfl (by decide)) <| .cons (.field (k := 2) rfl (by decide)) <|
      .cons (.field (k := 1) rfl (by decide)) (.nil _), id, rfl⟩
  obtain ⟨trace, c, h, hrunning, hholds⟩ := hrun
  have hlive : ∀ f ∈ [keepUdpFrame], ¬ f.Closes 1 := by
    intro f hf hcloses
    rw [List.mem_singleton.mp hf] at hcloses
    exact absurd hcloses.2 (by decide)
  obtain ⟨k, up, hlink, hsent⟩ :=
    @mux_datagrams_iff 1 [] [keepUdpFrame] [] newUdpFrame _ ⟨rfl, rfl⟩ rfl rfl hlive (.new []) _
      (List.append_nil _) _ _ h hrunning hholds
  exact ⟨trace, c, h, k, up, hlink, fun halive => (hsent halive).1⟩

/-- **A datagram without a target**, as a client of plain mux.cool sends it: the frame is
handled, the session lives and its link has a receiver, but the datagram is not there. -/
theorem mux_datagram_dropped :
    ∃ trace c, Run Step (.serve (.new []) (wires [newUdpFrame, keepFrame])) trace c ∧
      ¬ c.demux.Stopped ∧ c.Holds [] ∧ ∃ up, c.HasLink 1 0 up ∧ up.rxAlive = true ∧
        up.sent ++ c.pendingPackets 0 ≠
          sessionDatagrams 1 (.udp (.ip (.v4 #v[10, 0, 0, 3])) 53) newUdpFrame [keepFrame] := by
  refine ⟨_, _, .cons (.field (k := 2) rfl (by decide)) <|
    .cons (.field (k := 12) rfl (by decide)) <| .cons (.field (k := 2) rfl (by decide)) <|
    .cons (.field (k := 1) rfl (by decide)) <|
    .cons (.seed rfl rfl ⟨rfl, rfl, by decide⟩) <| .cons (.field (k := 2) rfl (by decide)) <|
    .cons (.field (k := 4) rfl (by decide)) <| .cons (.field (k := 2) rfl (by decide)) <|
    .cons (.field (k := 1) rfl (by decide)) (.nil _), id, rfl, _,
    ⟨⟨_, _, _, rfl, rfl, rfl⟩, .inl rfl⟩, rfl, ?_⟩
  decide

end XrayRs.Mux
