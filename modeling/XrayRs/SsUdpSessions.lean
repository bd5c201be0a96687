import XrayRs.SsUdp

/-! # The sessions of the Shadowsocks datagram server

A flow of `serve_udp` (`proxy/src/shadowsocks.rs`) is entered in the session table when it
is opened.  Its entry is removed by a message that names the address only, sent by the
task for the flow's answers when it ends, and received at any later time.

A flow holds its address until then: while the task has not ended, or the message is
still in the channel.  In every state of a run each address is held by one flow at most,
the one that the table has for it (`Seated`).  So a message that is received removes the
entry of the flow that has sent it (`reap_removes_own_entry`). -/

namespace XrayRs.SsUdp

open StepSystem Ss

namespace UdpServer

/-- The flows whose message is in the channel, after one more step. -/
def nextPending (pending : List Nat) : UdpAct × UdpServer → List Nat
  | (.reap k, t) =>
    match t.serve with
    | .failed _ => pending
    | _ => pending ++ [k]
  | (.reaped, _) => pending.tail
  -- the receiver is dropped with the loop
  | (.recvError, _) => []
  | _ => pending

/-- The flow holds the address: its task for the answers has not ended, or has ended and
the message that it has sent is in the channel. -/
def Holds (s : UdpServer) (pending : List Nat) (k : Nat) (client : SocketAddr) : Prop :=
  ∃ f, s.flows[k]? = some f ∧ f.owner.client = client ∧ (f.down ≠ .over ∨ k ∈ pending)

/-- The loop has not returned. -/
def Running (s : UdpServer) : Prop := ∀ e, s.serve ≠ .failed e

/-- The address of each flow, with whether its task for the answers has ended. -/
def seats (s : UdpServer) : List (SocketAddr × Bool) :=
  s.flows.map fun f => (f.owner.client, decide (f.down = .over))

variable {s t : UdpServer} {pending : List Nat} {k : Nat} {client : SocketAddr} {f : Flow}

theorem seats_getElem? (hflow : s.flows[k]? = some f) :
    s.seats[k]? = some (f.owner.client, decide (f.down = .over)) := by
  rw [seats, List.getElem?_map, hflow]
  rfl

theorem holds_iff_seats :
    s.Holds pending k client ↔
      ∃ gone, s.seats[k]? = some (client, gone) ∧ (gone = false ∨ k ∈ pending) := by
  constructor
  · rintro ⟨f, hflow, rfl, hend⟩
    exact ⟨_, seats_getElem? hflow, hend.imp_left (by simp)⟩
  · rintro ⟨gone, hseat, hend⟩
    rw [seats, List.getElem?_map] at hseat
    obtain ⟨f, hflow, hf⟩ := Option.map_eq_some_iff.mp hseat
    obtain ⟨rfl, rfl⟩ := Prod.mk.inj hf
    exact ⟨f, hflow, rfl, hend.imp_left (by simp)⟩

theorem seats_setFlow (f' : Flow) :
    (s.setFlow k f').seats = s.seats.set k (f'.owner.client, decide (f'.down = .over)) :=
  List.map_set ..

/-- A flow whose task does not end keeps its seat. -/
theorem seats_setFlow_of_down {f' : Flow} (hflow : s.flows[k]? = some f)
    (howner : f'.owner = f.owner) (hdown : f'.down = .over ↔ f.down = .over) :
    (s.setFlow k f').seats = s.seats := by
  obtain ⟨hlt, hget⟩ := List.getElem?_eq_some_iff.mp (seats_getElem? hflow)
  rw [seats_setFlow, howner, decide_eq_decide.mpr hdown, ← hget]
  exact List.set_getElem_self hlt

theorem seats_modify (flows : List Flow) (k : Nat) :
    (flows.modify k Flow.dropSender).map (fun f => (f.owner.client, decide (f.down = .over))) =
      flows.map fun f => (f.owner.client, decide (f.down = .over)) := by
  apply List.ext_getElem?
  intro i
  rw [List.getElem?_map, List.getElem?_map, List.getElem?_modify]
  cases flows[i]? with
  | none => rfl
  | some f => by_cases hk : k = i <;> simp [hk, Flow.dropSender]

end UdpServer

open UdpServer

/-- **One flow for an address.**  An address is held by one flow at most.  While the loop
runs, that is the flow of its entry, and the channel has the addresses of the flows whose
message is in it; and the address that a flow is being opened for has no entry. -/
structure Seated (s : UdpServer) (pending : List Nat) : Prop where
  ended : ∀ k ∈ pending, ∃ client, s.seats[k]? = some (client, true)
  nodup : pending.Nodup
  unique : ∀ k k' client, s.Holds pending k client → s.Holds pending k' client → k = k'
  entry : s.Running → ∀ k client,
    s.Holds pending k client ↔ ∃ counter, s.sessions client = some (k, counter)
  reap : s.Running → s.reap.map some = pending.map fun k => s.seats[k]?.map Prod.fst
  opening : ∀ client user pkt, s.serve = .opening client user pkt → s.sessions client = none

section Steps

variable {P : Primitives} {kind : AeadKind} {stats : Bool} {s t : UdpServer} {pending : List Nat}

theorem seated_start (users : List SsUser) (before : String → Counter) :
    Seated (.start users before) [] where
  ended := fun _ hk => absurd hk List.not_mem_nil
  nodup := .nil
  unique := by
    rintro k k' client ⟨f, hflow, -⟩
    cases hflow
  entry _ k client := by
    constructor
    · rintro ⟨f, hflow, -⟩
      cases hflow
    · rintro ⟨counter, h⟩
      cases h
  reap _ := rfl
  opening := fun _ _ _ hopen => by cases hopen

/-- A step that moves no seat, no entry and no message. -/
theorem Seated.frame (h : Seated s pending) (hseats : t.seats = s.seats)
    (hsessions : t.sessions = s.sessions) (hreap : t.reap = s.reap) (hrun : t.Running → s.Running)
    (hopen : ∀ client user pkt, t.serve = .opening client user pkt → s.sessions client = none) :
    Seated t pending where
  ended := by
    rw [hseats]
    exact h.ended
  nodup := h.nodup
  unique := by
    simp only [holds_iff_seats, hseats]
    simpa only [holds_iff_seats] using h.unique
  entry ht := by
    simp only [holds_iff_seats, hseats, hsessions]
    simpa only [holds_iff_seats] using h.entry (hrun ht)
  reap ht := by
    rw [hseats, hreap]
    exact h.reap (hrun ht)
  opening := by
    rw [hsessions]
    exact hopen

theorem seats_openFlow (client : SocketAddr) (user : SsKey) :
    (s.openFlow stats client user).seats = s.seats ++ [(client, false)] := by
  simp [UdpServer.openFlow, UdpServer.seats]

/-- The flow opened last holds its address, and the others hold theirs as before. -/
theorem holds_openFlow (client : SocketAddr) (user : SsKey) (k : Nat) (c : SocketAddr) :
    (s.openFlow stats client user).Holds pending k c ↔
      s.Holds pending k c ∨ k = s.flows.length ∧ c = client := by
  have hlen : s.seats.length = s.flows.length := List.length_map ..
  rw [holds_iff_seats, holds_iff_seats, seats_openFlow]
  by_cases hk : k < s.seats.length
  · rw [List.getElem?_append_left hk]
    exact ⟨.inl, fun h => h.resolve_right fun he => by omega⟩
  · have hnone : s.seats[k]? = none := List.getElem?_eq_none (Nat.not_lt.mp hk)
    rw [List.getElem?_append_right (Nat.not_lt.mp hk), hnone]
    constructor
    · rintro ⟨gone, hseat, -⟩
      obtain ⟨hlt, hget⟩ := List.getElem?_eq_some_iff.mp hseat
      have hzero : k - s.seats.length = 0 := by simpa using hlt
      simp only [hzero, List.getElem_cons_zero, Prod.mk.injEq] at hget
      exact .inr ⟨by omega, hget.1.symm⟩
    · rintro (⟨gone, hseat, -⟩ | ⟨rfl, rfl⟩)
      · cases hseat
      · exact ⟨false, by simp [hlen], .inl rfl⟩

/-- A flow opened for an address without an entry holds it. -/
theorem Seated.openFlow (h : Seated s pending) (hrun : s.Running) {client : SocketAddr}
    (hentry : s.sessions client = none) (user : SsKey) (pkt : UdpPacket) :
    Seated ((s.openFlow stats client user).pass s.flows.length user
      (userCounter stats user.email) pkt) pending := by
  have hseats : (s.openFlow stats client user).seats = s.seats ++ [(client, false)] :=
    seats_openFlow client user
  have hended : ∀ k ∈ pending, k < s.seats.length := by
    intro k hk
    obtain ⟨c, hseat⟩ := h.ended k hk
    exact (List.getElem?_eq_some_iff.mp hseat).1
  have hholds : ∀ k c, (s.openFlow stats client user).Holds pending k c ↔
      s.Holds pending k c ∨ k = s.flows.length ∧ c = client := holds_openFlow client user
  have hfree : ∀ k, ¬ s.Holds pending k client := by
    intro k hk
    obtain ⟨counter, hsome⟩ := (h.entry hrun k client).mp hk
    rw [hentry] at hsome
    cases hsome
  exact {
    ended := fun k hk => by
      obtain ⟨c, hseat⟩ := h.ended k hk
      refine ⟨c, ?_⟩
      show (s.openFlow stats client user).seats[k]? = _
      rw [hseats, List.getElem?_append_left (hended k hk), hseat]
    nodup := h.nodup
    unique := fun k k' c hk hk' => by
      rcases (hholds k c).mp hk with hk | ⟨rfl, rfl⟩ <;> rcases (hholds k' c).mp hk' with hk' | ⟨rfl, hc⟩
      · exact h.unique k k' c hk hk'
      · exact absurd (hc ▸ hk) (hfree k)
      · exact absurd hk' (hfree k')
      · rfl
    entry := fun _ k c => by
      refine (hholds k c).trans ?_
      show _ ↔ ∃ counter, Function.update s.sessions client _ c = _
      by_cases hc : c = client
      · subst hc
        rw [Function.update_self]
        constructor
        · rintro (hk | ⟨rfl, -⟩)
          · exact absurd hk (hfree k)
          · exact ⟨_, rfl⟩
        · rintro ⟨counter, he⟩
          exact .inr ⟨((Prod.mk.inj (Option.some.inj he)).1).symm, rfl⟩
      · rw [Function.update_of_ne hc, ← h.entry hrun k c]
        exact ⟨fun h => h.resolve_right fun he => hc he.2, .inl⟩
    reap := fun _ => by
      show s.reap.map some = pending.map fun k => (s.openFlow stats client user).seats[k]?.map _
      rw [hseats, h.reap hrun]
      exact List.map_congr_left fun k hk => by rw [List.getElem?_append_left (hended k hk)]
    opening := fun _ _ _ hserve => by cases hserve }

/-- A flow whose task has ended is not holding its address, unless its message is in the
channel. -/
theorem holds_set_over {k : Nat} {f : Flow} (hflow : s.flows[k]? = some f) (hdown : f.down ≠ .over)
    (hseats : t.seats = s.seats.set k (f.owner.client, true)) {pending' : List Nat}
    (hpending : ∀ j, j ≠ k → (j ∈ pending' ↔ j ∈ pending)) (j : Nat) (client : SocketAddr) :
    t.Holds pending' j client ↔ s.Holds pending j client ∧ (j = k → k ∈ pending') := by
  have hseat := seats_getElem? hflow
  rw [decide_eq_false hdown] at hseat
  have hlt := (List.getElem?_eq_some_iff.mp hseat).1
  rw [holds_iff_seats, holds_iff_seats, hseats]
  by_cases hj : j = k
  · subst hj
    rw [List.getElem?_set_self hlt, hseat]
    constructor
    · rintro ⟨gone, he, hend⟩
      obtain ⟨rfl, rfl⟩ := Prod.mk.inj (Option.some.inj he)
      exact ⟨⟨false, rfl, .inl rfl⟩, fun _ => hend.resolve_left (by decide)⟩
    · rintro ⟨⟨gone, he, -⟩, hmem⟩
      obtain ⟨rfl, rfl⟩ := Prod.mk.inj (Option.some.inj he)
      exact ⟨true, rfl, .inr (hmem rfl)⟩
  · rw [List.getElem?_set_ne (Ne.symm hj)]
    simp only [hpending j hj, hj, false_implies, and_true]

/-- A task that ends has no message in the channel yet. -/
theorem Seated.notMem (h : Seated s pending) {k : Nat} {f : Flow} (hflow : s.flows[k]? = some f)
    (hdown : f.down ≠ .over) : k ∉ pending := by
  intro hk
  obtain ⟨client, hseat⟩ := h.ended k hk
  rw [seats_getElem? hflow, decide_eq_false hdown] at hseat
  exact absurd (Prod.mk.inj (Option.some.inj hseat)).2 (by decide)

/-- The seats of flows whose task had ended before are left alone. -/
theorem Seated.seats_set (h : Seated s pending) {k : Nat} {f : Flow} (hflow : s.flows[k]? = some f)
    (hdown : f.down ≠ .over) (seat : SocketAddr × Bool) {j : Nat} (hj : j ∈ pending) :
    (s.seats.set k seat)[j]? = s.seats[j]? := by
  have hne : k ≠ j := by
    rintro rfl
    exact h.notMem hflow hdown hj
  exact List.getElem?_set_ne hne

/-- The task ends, and sends the address. -/
theorem Seated.reapSent (h : Seated s pending) {k : Nat} {f : Flow} (hflow : s.flows[k]? = some f)
    (hdown : f.down ≠ .over) (hseats : t.seats = s.seats.set k (f.owner.client, true))
    (hsessions : t.sessions = s.sessions) (hreap : t.reap = s.reap ++ [f.owner.client])
    (hserve : t.serve = s.serve) : Seated t (pending ++ [k]) := by
  have hnot := h.notMem hflow hdown
  have hkeep : ∀ j, j ≠ k → (j ∈ pending ++ [k] ↔ j ∈ pending) := fun j hj => by simp [hj]
  have hholds := holds_set_over hflow hdown hseats hkeep
  have hself : t.seats[k]? = some (f.owner.client, true) := by
    rw [hseats, List.getElem?_set_self (List.getElem?_eq_some_iff.mp (seats_getElem? hflow)).1]
  have hsame : ∀ j c, t.Holds (pending ++ [k]) j c ↔ s.Holds pending j c := by
    intro j c
    rw [hholds]
    exact ⟨And.left, fun hj => ⟨hj, fun _ => by simp⟩⟩
  exact {
    ended := fun j hj => by
      rcases List.mem_append.mp hj with hj | hj
      · rw [hseats, h.seats_set hflow hdown _ hj]
        exact h.ended j hj
      · obtain rfl := List.mem_singleton.mp hj
        exact ⟨_, hself⟩
    nodup := by
      refine List.nodup_append.mpr ⟨h.nodup, List.pairwise_singleton .., fun i hi j hj he => ?_⟩
      rw [List.mem_singleton] at hj
      subst he hj
      exact hnot hi
    unique := by
      simp only [hsame]
      exact h.unique
    entry := fun ht => by
      simp only [hsame, hsessions]
      exact h.entry (by rwa [UdpServer.Running, ← hserve])
    reap := fun ht => by
      rw [hreap, List.map_append, List.map_append, h.reap (by rwa [UdpServer.Running, ← hserve]),
        List.map_singleton, List.map_singleton, hself]
      refine congrArg (· ++ _) (List.map_congr_left fun j hj => ?_)
      rw [hseats, h.seats_set hflow hdown _ hj]
    opening := by
      rw [hserve, hsessions]
      exact h.opening }

/-- The task ends after the loop has returned. -/
theorem Seated.reapGone (h : Seated s pending) {k : Nat} {f : Flow} {e : IoError}
    (hflow : s.flows[k]? = some f) (hdown : f.down ≠ .over) (hgone : t.serve = .failed e)
    (hseats : t.seats = s.seats.set k (f.owner.client, true)) : Seated t pending := by
  have hkeep : ∀ j, j ≠ k → (j ∈ pending ↔ j ∈ pending) := fun _ _ => Iff.rfl
  have hholds := holds_set_over hflow hdown hseats hkeep
  exact {
    ended := fun j hj => by
      rw [hseats, h.seats_set hflow hdown _ hj]
      exact h.ended j hj
    nodup := h.nodup
    unique := fun j j' c hj hj' =>
      h.unique j j' c ((hholds j c).mp hj).1 ((hholds j' c).mp hj').1
    entry := fun ht => absurd hgone (ht e)
    reap := fun ht => absurd hgone (ht e)
    opening := fun _ _ _ hopen => by cases hgone.symm.trans hopen }

/-- The flow whose message is received is the one of the entry. -/
theorem Seated.head (h : Seated s pending) (hrun : s.Running) {dead : SocketAddr}
    {rest : List SocketAddr} (hreap : s.reap = dead :: rest) :
    ∃ k pending', pending = k :: pending' ∧ s.seats[k]? = some (dead, true) ∧
      ∃ counter, s.sessions dead = some (k, counter) := by
  have hmap := h.reap hrun
  rw [hreap] at hmap
  cases pending with
  | nil => cases hmap
  | cons k pending' =>
    obtain ⟨client, hseat⟩ := h.ended k List.mem_cons_self
    rw [List.map_cons, List.map_cons, hseat] at hmap
    obtain rfl : dead = client := by simpa using (List.cons.inj hmap).1
    refine ⟨k, pending', rfl, hseat, (h.entry hrun k dead).mp ?_⟩
    exact holds_iff_seats.mpr ⟨true, hseat, .inr List.mem_cons_self⟩

/-- The message of the first flow is received, and the entry is removed. -/
theorem Seated.reaped (h : Seated s pending) (hrun : s.Running) {dead : SocketAddr}
    {rest : List SocketAddr} (hreap : s.reap = dead :: rest) (hseats : t.seats = s.seats)
    (hsessions : t.sessions = Function.update s.sessions dead none) (hrest : t.reap = rest)
    (hserve : ∀ client user pkt, t.serve ≠ .opening client user pkt) : Seated t pending.tail := by
  obtain ⟨k, pending', rfl, hseat, counter, hentry⟩ := h.head hrun hreap
  obtain ⟨hnot, hnodup⟩ := List.nodup_cons.mp h.nodup
  have hholds : ∀ j c, t.Holds pending' j c ↔ s.Holds (k :: pending') j c ∧ j ≠ k := by
    intro j c
    rw [holds_iff_seats, holds_iff_seats, hseats]
    by_cases hj : j = k
    · subst hj
      rw [hseat]
      constructor
      · rintro ⟨gone, he, hend⟩
        obtain ⟨rfl, rfl⟩ := Prod.mk.inj (Option.some.inj he)
        exact absurd (hend.resolve_left (by decide)) hnot
      · exact fun h => absurd rfl h.2
    · simp [hj]
  have hunique : ∀ j c, t.Holds pending' j c → c ≠ dead := by
    rintro j c hj rfl
    obtain ⟨hj, hne⟩ := (hholds j c).mp hj
    have hk : s.Holds (k :: pending') k c :=
      holds_iff_seats.mpr ⟨true, hseat, .inr List.mem_cons_self⟩
    exact hne (h.unique j k c hj hk)
  exact {
    ended := fun j hj => by
      rw [hseats]
      exact h.ended j (List.mem_cons_of_mem _ hj)
    nodup := hnodup
    unique := fun j j' c hj hj' =>
      h.unique j j' c ((hholds j c).mp hj).1 ((hholds j' c).mp hj').1
    entry := fun _ j c => by
      rw [hsessions]
      constructor
      · intro hj
        rw [Function.update_of_ne (hunique j c hj)]
        exact (h.entry hrun j c).mp ((hholds j c).mp hj).1
      · rintro ⟨counter', hsome⟩
        by_cases hc : c = dead
        · subst hc
          rw [Function.update_self] at hsome
          cases hsome
        · rw [Function.update_of_ne hc] at hsome
          refine (hholds j c).mpr ⟨(h.entry hrun j c).mpr ⟨_, hsome⟩, ?_⟩
          rintro rfl
          obtain ⟨gone, hseat', -⟩ := holds_iff_seats.mp ((h.entry hrun j c).mpr ⟨_, hsome⟩)
          rw [hseat] at hseat'
          exact hc (Prod.mk.inj (Option.some.inj hseat')).1.symm
    reap := fun _ => by
      have hmap := h.reap hrun
      rw [hreap, List.map_cons, List.map_cons] at hmap
      rw [hrest, hseats]
      exact (List.cons.inj hmap).2
    opening := fun client user pkt hopen => absurd hopen (hserve client user pkt) }

/-- The loop returns on an error of the socket, and its sessions are dropped. -/
theorem Seated.recvError (h : Seated s pending) {e : IoError} (hseats : t.seats = s.seats)
    (hserve : t.serve = .failed e) : Seated t [] := by
  have hholds : ∀ j c, t.Holds [] j c → s.Holds pending j c := by
    intro j c hj
    rw [holds_iff_seats, hseats] at hj
    obtain ⟨gone, hseat, hend⟩ := hj
    exact holds_iff_seats.mpr ⟨gone, hseat, .inl (hend.resolve_right (by simp))⟩
  exact {
    ended := fun _ hk => absurd hk List.not_mem_nil
    nodup := .nil
    unique := fun j j' c hj hj' => h.unique j j' c (hholds j c hj) (hholds j' c hj')
    entry := fun ht => absurd hserve (ht e)
    reap := fun ht => absurd hserve (ht e)
    opening := fun _ _ _ hopen => by cases hserve.symm.trans hopen }

/-- **Every step** leaves one flow for an address. -/
theorem UdpStep.seated {a : UdpAct} (h : UdpStep P kind stats s a t) (hs : Seated s pending) :
    Seated t (nextPending pending (a, t)) := by
  have hrunning : ∀ {serve : Serve}, s.serve = serve → (∀ e, serve ≠ .failed e) → s.Running :=
    fun hserve hne e he => hne e (hserve ▸ he)
  cases h with
  | setUsers users => exact hs.frame rfl rfl rfl id hs.opening
  | ignored => exact hs
  | known client hserve hbuf hdec hentry =>
    exact hs.frame rfl rfl rfl (fun _ => hrunning hserve nofun) fun _ _ _ hopen => by cases hopen
  | fresh client hserve hbuf hdec hentry =>
    refine hs.frame rfl rfl rfl (fun _ => hrunning hserve nofun) fun c u p hopen => ?_
    cases hopen
    exact hentry
  | opened hserve =>
    exact hs.openFlow (hrunning hserve nofun) (hs.opening _ _ _ hserve) _ _
  | forwarded hserve hflow hroom =>
    refine hs.frame ?_ rfl rfl (fun _ => hrunning hserve nofun) fun _ _ _ hopen => by cases hopen
    exact seats_setFlow_of_down (s := { s with serve := .receiving }) hflow rfl Iff.rfl
  | refused hserve hflow hgone =>
      exact hs.frame rfl rfl rfl (fun _ => hrunning hserve nofun) fun _ _ _ hopen => by cases hopen
  | recvError e hserve =>
    refine hs.recvError (e := e) ?_ rfl
    show (s.flows.map Flow.dropSender).map _ = s.flows.map _
    rw [List.map_map]
    rfl
  | @reaped dead rest hserve hreap =>
    refine hs.reaped (hrunning hserve nofun) hreap ?_ rfl rfl ?_
    · cases hentry : s.sessions dead with
      | none => rfl
      | some x => exact seats_modify s.flows x.1
    · intro client user pkt hopen
      rw [hserve] at hopen
      cases hopen
  | egress hflow hstep =>
    exact hs.frame (seats_setFlow_of_down hflow rfl Iff.rfl) rfl rfl id hs.opening
  | take hflow hdown hpkt =>
    refine hs.frame ?_ rfl rfl id hs.opening
    exact seats_setFlow_of_down (s := s.took _ _ _) hflow rfl (by simp [hdown])
  | answer salt hflow hdown hsalt =>
    refine hs.frame ?_ rfl rfl id hs.opening
    exact seats_setFlow_of_down (s := s.answered _ _ _) hflow rfl (by simp [hdown])
  | downEnd hflow hdown hend =>
    exact hs.frame (seats_setFlow_of_down hflow rfl (by simp [hdown])) rfl rfl id hs.opening
  | @reap k f hflow hdown hroom hrun =>
    have hnext : ∀ f', nextPending pending
        (.reap k, { s with reap := s.reap ++ [f.owner.client] }.setFlow k f') = pending ++ [k] := by
      intro f'
      cases hserve : s.serve with
      | failed e => exact absurd hserve (hrun e)
      | receiving | opening | sending => simp only [nextPending, UdpServer.setFlow]
    rw [hnext]
    exact hs.reapSent hflow (by simp [hdown]) (seats_setFlow _) rfl rfl rfl
  | @reapGone k f e hflow hdown hgone =>
    have hnext : ∀ f', nextPending pending (.reap k, s.setFlow k f') = pending := by
      intro f'
      simp only [nextPending, UdpServer.setFlow, hgone]
    rw [hnext]
    exact hs.reapGone hflow (by simp [hdown]) hgone (seats_setFlow _)

/-- Along a run. -/
theorem seated_of_run {trace : List (UdpAct × UdpServer)} (h : Run (UdpStep P kind stats) s trace t)
    (hs : Seated s pending) : Seated t (trace.foldl nextPending pending) := by
  induction h generalizing pending with
  | nil => exact hs
  | cons hfirst _ ih => exact ih (hfirst.seated hs)

end Steps

/-- **One session for an address.**  In every state of every run of the server, whatever
arrives and whenever the tasks end and their messages are received: an address is held
by one flow at most, and where the loop receives a message, it was sent by a flow whose
task has ended, which is the flow of the entry that is removed. -/
theorem reap_removes_own_entry (P : Primitives) (kind : AeadKind) (stats : Bool)
    (users : List SsUser) (before : String → Counter) (s : UdpServer)
    (trace : List (UdpAct × UdpServer))
    (hrun : Run (UdpStep P kind stats) (.start users before) trace s) :
    (∀ k k' client, s.Holds (trace.foldl nextPending []) k client →
        s.Holds (trace.foldl nextPending []) k' client → k = k') ∧
      ∀ t, UdpStep P kind stats s .reaped t →
        ∃ k pending' f counter, trace.foldl nextPending [] = k :: pending' ∧
          s.flows[k]? = some f ∧ f.down = .over ∧ s.reap.head? = some f.owner.client ∧
          s.sessions f.owner.client = some (k, counter) ∧
          t.sessions = Function.update s.sessions f.owner.client none := by
  have hs := seated_of_run hrun (seated_start users before)
  refine ⟨hs.unique, fun t hstep => ?_⟩
  cases hstep with
  | @reaped dead rest hserve hreap =>
    have hrunning : s.Running := by
      intro e he
      rw [hserve] at he
      cases he
    obtain ⟨k, pending', hpending, hseat, counter, hentry⟩ := hs.head hrunning hreap
    rw [UdpServer.seats, List.getElem?_map] at hseat
    obtain ⟨f, hflow, hf⟩ := Option.map_eq_some_iff.mp hseat
    obtain ⟨rfl, hdown⟩ := Prod.mk.inj hf
    refine ⟨k, pending', f, counter, hpending, hflow, of_decide_eq_true hdown, ?_, hentry, rfl⟩
    rw [hreap]
    rfl

/-- The flow of a first datagram ends for want of a socket, and its entry is removed. -/
theorem reap_removes_own_entry_unbound :
    ∃ trace s t, Run (UdpStep chachaPrimitives .chaCha20Poly1305 true)
        (.start [beta] fun _ => ⟨0, 0⟩) trace s ∧
      UdpStep chachaPrimitives .chaCha20Poly1305 true s .reaped t ∧
      ∃ k pending' f counter, trace.foldl nextPending [] = k :: pending' ∧
        s.flows[k]? = some f ∧ f.down = .over ∧ s.reap.head? = some f.owner.client ∧
        s.sessions f.owner.client = some (k, counter) ∧
        t.sessions = Function.update s.sessions f.owner.client none := by
  obtain ⟨first, hfirst, hdecFirst⟩ := exists_first
  obtain ⟨trace, s, t, hrun, hstep⟩ : ∃ trace s t,
      Run (UdpStep chachaPrimitives .chaCha20Poly1305 true) (.start [beta] fun _ => ⟨0, 0⟩) trace s ∧
        UdpStep chachaPrimitives .chaCha20Poly1305 true s .reaped t :=
    ⟨_, _, _,
      .cons (.fresh nat rfl hfirst hdecFirst rfl)
      (.cons (.opened rfl)
      (.cons (.forwarded rfl rfl ⟨rfl, rfl, by decide⟩)
      (.cons (.egress (k := 0) rfl (.bindError ⟨.other, .msg "bind"⟩ rfl rfl))
      (.cons (.downEnd (k := 0) rfl rfl ⟨rfl, rfl⟩)
      (.cons (.reap (k := 0) rfl rfl (by decide) nofun)
      (.nil _)))))), .reaped rfl rfl⟩
  exact ⟨trace, s, t, hrun, hstep, (reap_removes_own_entry _ _ _ _ _ _ _ hrun).2 t hstep⟩

end XrayRs.SsUdp
