import XrayRs.ByteConservation
import XrayRs.Mux
import XrayRs.StreamInbounds

/-! # A tunnel from the client to its target

The flow of a stream that `decode` has left to `relay_stream`: the relay runs on one half of
the link while `ProxyService::call` routes the other half, hands it to an outbound, and the
outbound dials.  A flow whose outbound is `freedom` is from then on the `World` of
`ByteConservation`, and it was so all along, with a `splice` that has not moved: `FlowStep`
simulates `WorldStep` (`FlowStep.simulates`).

So no payload byte is lost, made up or sent astray in any run, whatever becomes of the
routing (`flow_confined`); and a tunnel that is asked for, routed to `freedom` and let run
without failures is carried through to both ends (`tunnel_delivered`). -/

namespace XrayRs

open BoundedChannel StepSystem

/-- `user_counter`. -/
def userCounter (stats : Option (String → Counter)) (ctx : Ctx) : Option Counter := do
  let email ← ctx.userEmail
  let stats ← stats
  return stats email

/-! ## Flows -/

/-- Who holds the outbound half of a flow's link: the decision that is still to be routed,
the `splice` of `freedom`, the relay to an upstream proxy, or nobody. -/
inductive Outlet
  | pending
  | direct (relay : Relay)
  | upstream
  | gone

/-- A flow: `relay_stream`, the outlet, the channels of the link, and what was dialled. -/
structure Flow where
  inbound : Relay
  outlet : Outlet
  up : Chan Bytes
  down : Chan Bytes
  dialed : List Destination

namespace Flow

/-- `decode` has spawned the relay and returned its decision. -/
def start (counter : Option Counter) (h : Handover) : Flow :=
  ⟨.relayStream (.new h.unread.flatten) counter h.leftover, .pending, .new _ Mux.linkCapacity,
    .new _ Mux.linkCapacity, []⟩

/-- The outbound has dialled, or returned without. -/
def dispatched (f : Flow) (p : Processed) : Flow :=
  match p.egress with
  | .returned _ l =>
    { f with outlet := .gone, up := l.reader, down := l.writer, dialed := p.dialed }
  | .splice conn l =>
    { f with outlet := .direct (.splice conn), up := l.reader, down := l.writer, dialed := p.dialed }
  | .ssRelay _ _ _ l | .socksRelay _ _ _ l =>
    { f with outlet := .upstream, up := l.reader, down := l.writer, dialed := p.dialed }

section

variable {f : Flow} {dialed : List Destination} {conn : Conn} {l : Link} {target : Destination}

theorem dispatched_returned {result : Except IoError Unit} :
    f.dispatched ⟨dialed, .returned result l⟩ =
      { f with outlet := .gone, up := l.reader, down := l.writer, dialed := dialed } := rfl

theorem dispatched_splice : f.dispatched ⟨dialed, .splice conn l⟩ =
    { f with outlet := .direct (.splice conn), up := l.reader, down := l.writer, dialed := dialed } :=
  rfl

theorem dispatched_ssRelay {ob : Ss.SsOutbound} : f.dispatched ⟨dialed, .ssRelay ob target conn l⟩ =
    { f with outlet := .upstream, up := l.reader, down := l.writer, dialed := dialed } := rfl

theorem dispatched_socksRelay {ob : SocksOutbound} :
    f.dispatched ⟨dialed, .socksRelay ob target conn l⟩ =
      { f with outlet := .upstream, up := l.reader, down := l.writer, dialed := dialed } := rfl

end

end Flow

/-- The moves of a flow. -/
inductive FlowAct
  | inbound (a : Act)
  | dispatch (draw : UInt64)
  | outbound (a : Act)
  | upstream
  deriving DecidableEq

/-- Neither an error, nor a timeout, nor a failed send, nor left to an upstream proxy. -/
def FlowAct.Clean : FlowAct → Prop
  | .inbound a | .outbound a => a.Clean
  | .dispatch _ => True
  | .upstream => False

/-- What the destinations send when they are dialled, or why they cannot be. -/
abbrev Peers := Destination → Except IoError Bytes

/-- The dialer of these peers. -/
def Peers.dialer (peers : Peers) : Dialer := fun dest => (peers dest).map Conn.new

/-- One step of a flow with this decision. -/
inductive FlowStep (tree : ServiceTree) (peers : Peers) (target : Destination) (ctx : Ctx) :
    Flow → FlowAct → Flow → Prop
  | inbound {f : Flow} {a : Act} {r : Relay} {l : Link} :
      RelayStep f.inbound ⟨f.down, f.up⟩ a r l →
      FlowStep tree peers target ctx f (.inbound a)
        { f with inbound := r, up := l.writer, down := l.reader }
  | dispatch {f : Flow} (draw : UInt64) (hpending : f.outlet = .pending) :
      FlowStep tree peers target ctx f (.dispatch draw)
        (f.dispatched (tree.serve draw ⟨target, ctx, ⟨f.up, f.down⟩⟩ peers.dialer).1)
  | outbound {f : Flow} {a : Act} {r r' : Relay} {l : Link} (hdirect : f.outlet = .direct r) :
      RelayStep r ⟨f.up, f.down⟩ a r' l →
      FlowStep tree peers target ctx f (.outbound a)
        { f with outlet := .direct r', up := l.reader, down := l.writer }
  | upstream {f : Flow} {up down : Chan Bytes} (hupstream : f.outlet = .upstream) :
      RxMove f.up up → TxMove f.down down →
      FlowStep tree peers target ctx f .upstream { f with up := up, down := down }

/-! ## What the outbound does -/

/-- The destination that an outbound dials for a target. -/
def Outbound.dials (target : Destination) : Outbound → Option Destination
  | .freedom => if target.isValid then some target else none
  | .blackhole => none
  | .shadowsocks ob => some ob.server
  | .socks ob => some ob.server

/-- The outbound that the tree chooses for a flow, if there is one of the decision's tag. -/
def ServiceTree.chosen (tree : ServiceTree) (draw : UInt64) (target : Destination) (ctx : Ctx) :
    Option Outbound :=
  ((tree.table.route draw (routeRequest target ctx) tree.geo).1.tag tree.freedomTag).bind
    tree.outbounds

section Dispatch

variable {tree : ServiceTree} {peers : Peers} {target : Destination} {ctx : Ctx} {draw : UInt64}

theorem ServiceTree.serve_eq (l : Link) (dialer : Dialer) :
    (tree.serve draw ⟨target, ctx, l⟩ dialer).1 =
      match tree.chosen draw target ctx with
      | none => .drop l
      | some ob => ob.process target l dialer := by
  rw [tree.serve_fst]
  unfold ServiceTree.dispatch ServiceTree.chosen ServiceTree.route
  dsimp only
  cases (tree.table.route draw (routeRequest target ctx) tree.geo).1.tag tree.freedomTag with
  | none => rfl
  | some tag =>
    cases hob : tree.outbounds tag with
    | none => simp only [Option.bind_some, hob]
    | some ob => simp only [Option.bind_some, hob]

/-- What the outbound of a flow has done: it was blocked, it was not dialled, it was spliced
with the target, or it is relayed by an upstream proxy. -/
inductive Dispatched (tree : ServiceTree) (peers : Peers) (target : Destination) (ctx : Ctx)
    (draw : UInt64) (l : Link) : Processed → Prop
  | blocked : Dispatched tree peers target ctx draw l (.drop l)
  | failed {ob : Outbound} {dest : Destination} {e : IoError}
      (hchosen : tree.chosen draw target ctx = some ob) (hdials : ob.dials target = some dest) :
      Dispatched tree peers target ctx draw l ⟨[dest], .returned (.error e) l.drop⟩
  | direct {bytes : Bytes} (hchosen : tree.chosen draw target ctx = some .freedom)
      (hdials : Outbound.freedom.dials target = some target) (hpeer : peers target = .ok bytes) :
      Dispatched tree peers target ctx draw l ⟨[target], .splice (.new bytes) l⟩
  | shadowsocks {ob : Ss.SsOutbound} {conn : Conn}
      (hchosen : tree.chosen draw target ctx = some (.shadowsocks ob)) :
      Dispatched tree peers target ctx draw l ⟨[ob.server], .ssRelay ob target conn l⟩
  | socks {ob : SocksOutbound} {conn : Conn}
      (hchosen : tree.chosen draw target ctx = some (.socks ob)) :
      Dispatched tree peers target ctx draw l ⟨[ob.server], .socksRelay ob target conn l⟩

theorem dispatched_serve (l : Link) : Dispatched tree peers target ctx draw l
    (tree.serve draw ⟨target, ctx, l⟩ peers.dialer).1 := by
  rw [ServiceTree.serve_eq]
  cases hchosen : tree.chosen draw target ctx with
  | none => exact .blocked
  | some ob =>
    cases ob with
    | freedom =>
      simp only [Outbound.process]
      by_cases hvalid : target.isValid = true
      · rw [if_neg (by simp [hvalid])]
        have hdials : Outbound.freedom.dials target = some target := if_pos hvalid
        unfold dialThen Peers.dialer
        cases hpeer : peers target with
        | error e => exact .failed hchosen hdials
        | ok bytes => exact .direct hchosen hdials hpeer
      · rw [if_pos (by simp [hvalid])]
        exact .blocked
    | blackhole => exact .blocked
    | shadowsocks ob =>
      simp only [Outbound.process, dialThen, Peers.dialer]
      cases peers ob.server with
      | error e => exact .failed hchosen rfl
      | ok bytes => exact .shadowsocks hchosen
    | socks ob =>
      simp only [Outbound.process, dialThen, Peers.dialer]
      cases peers ob.server with
      | error e => exact .failed hchosen rfl
      | ok bytes => exact .socks hchosen

end Dispatch

/-! ## A flow is a world -/

section Worlds

variable {tree : ServiceTree} {peers : Peers} {target : Destination} {ctx : Ctx}
  {f f' : Flow} {a : FlowAct} {w w' : World} {bytes : Bytes}

/-- The outbound's relay, if it is or may become a `splice` with a target that sends
`bytes`. -/
def Outlet.relay (bytes : Bytes) : Outlet → Option Relay
  | .pending => some (.splice (.new bytes))
  | .direct r => some r
  | .upstream | .gone => none

/-- The world of a flow. -/
def Flow.world (bytes : Bytes) (f : Flow) : Option World :=
  (f.outlet.relay bytes).map fun r => ⟨f.inbound, r, f.up, f.down⟩

/-- The half of the link that `relay_stream` has. -/
def Flow.inboundSide (f : Flow) : Side := ⟨f.inbound, ⟨f.down, f.up⟩⟩

theorem Flow.world_start (counter : Option Counter) (h : Handover) (bytes : Bytes) :
    (Flow.start counter h).world bytes =
      some (.start Mux.linkCapacity h.unread.flatten h.leftover counter bytes) := rfl

/-- A flow's step is a step of `relay_stream`, or of its peer. -/
theorem FlowStep.inboundSide (h : FlowStep tree peers target ctx f a f') :
    ∃ b, OpenStep f.inboundSide b f'.inboundSide := by
  cases h with
  | inbound hstep => exact ⟨_, .relay hstep⟩
  | dispatch draw hpending =>
    have hserve := @dispatched_serve tree peers target ctx draw ⟨f.up, f.down⟩
    generalize (tree.serve draw ⟨target, ctx, ⟨f.up, f.down⟩⟩ peers.dialer).1 = p at hserve
    cases hserve with
    | blocked | failed => exact ⟨_, .peer .drop .drop⟩
    | direct | shadowsocks | socks => exact ⟨_, .peer .stay .stay⟩
  | outbound hdirect hstep => exact ⟨_, .peer hstep.moves.1 hstep.moves.2⟩
  | upstream hupstream hrx htx => exact ⟨_, .peer htx hrx⟩

/-- **A flow simulates a world**, as long as it may come to its target. -/
theorem FlowStep.simulates (h : FlowStep tree peers target ctx f a f')
    (hpeer : ∀ bs, peers target = .ok bs → bs = bytes) (hw : f.world bytes = some w)
    (hw' : f'.world bytes = some w') :
    w' = w ∨ ∃ b, WorldStep w b w' ∧ (a.Clean → b.Clean) := by
  cases h with
  | inbound hstep =>
    obtain ⟨r, hr, rfl⟩ := Option.map_eq_some_iff.mp hw
    obtain ⟨r', hr', rfl⟩ := Option.map_eq_some_iff.mp hw'
    obtain rfl := Option.some.inj (hr.symm.trans hr')
    exact .inr ⟨_, .inbound hstep, id⟩
  | dispatch draw hpending =>
    have hserve := @dispatched_serve tree peers target ctx draw ⟨f.up, f.down⟩
    generalize (tree.serve draw ⟨target, ctx, ⟨f.up, f.down⟩⟩ peers.dialer).1 = p at hserve hw'
    cases hserve with
    | blocked | failed | shadowsocks | socks => cases hw'
    | direct hchosen hdials hpeers =>
      obtain rfl := hpeer _ hpeers
      rw [Flow.world, hpending] at hw
      obtain rfl := Option.some.inj hw
      exact .inl (Option.some.inj hw').symm
  | outbound hdirect hstep =>
    rw [Flow.world, hdirect] at hw
    obtain rfl := Option.some.inj hw
    obtain rfl := Option.some.inj hw'
    exact .inr ⟨_, .outbound hstep, id⟩
  | upstream hupstream =>
    rw [Flow.world, hupstream] at hw
    cases hw

/-- Where the world of a flow comes from. -/
theorem FlowStep.world_of_some (h : FlowStep tree peers target ctx f a f')
    (hw' : f'.world bytes = some w') : ∃ w, f.world bytes = some w := by
  cases h with
  | inbound =>
    obtain ⟨r, hr, -⟩ := Option.map_eq_some_iff.mp hw'
    exact ⟨_, Option.map_eq_some_iff.mpr ⟨r, hr, rfl⟩⟩
  | dispatch draw hpending => exact ⟨_, by rw [Flow.world, hpending]; rfl⟩
  | outbound hdirect => exact ⟨_, by rw [Flow.world, hdirect]; rfl⟩
  | upstream hupstream =>
    rw [Flow.world, hupstream] at hw'
    cases hw'

/-! ## Every run -/

/-- The bytes of the target, if it is ever reached. -/
def Peers.sends (peers : Peers) (target : Destination) : Bytes :=
  match peers target with
  | .ok bytes => bytes
  | .error _ => []

theorem Peers.sends_of_ok (h : peers target = .ok bytes) : bytes = peers.sends target := by
  rw [Peers.sends, h]

/-- Who has been dialled, and that the client gets nothing before that, or from a flow that
was dropped. -/
structure Flow.Placed (tree : ServiceTree) (peers : Peers) (target : Destination) (ctx : Ctx)
    (f : Flow) : Prop where
  pending : f.outlet = .pending → f.dialed = [] ∧ f.down.sent = []
  direct : ∀ r, f.outlet = .direct r → f.dialed = [target] ∧
    peers target = .ok (peers.sends target)
  gone : f.outlet = .gone → f.down.sent = []
  dialed : f.dialed = [] ∨ ∃ draw ob dest, tree.chosen draw target ctx = some ob ∧
    ob.dials target = some dest ∧ f.dialed = [dest]

theorem Flow.Placed.dispatched {draw : UInt64} {p : Processed}
    (hp : Dispatched tree peers target ctx draw ⟨f.up, f.down⟩ p) (hsent : f.down.sent = []) :
    Flow.Placed tree peers target ctx (f.dispatched p) := by
  cases hp with
  | blocked =>
    rw [Processed.drop, Flow.dispatched_returned]
    exact ⟨nofun, fun _ => nofun, fun _ => hsent, .inl rfl⟩
  | failed hchosen hdials =>
    rw [Flow.dispatched_returned]
    exact ⟨nofun, fun _ => nofun, fun _ => hsent, .inr ⟨_, _, _, hchosen, hdials, rfl⟩⟩
  | direct hchosen hdials hpeer =>
    have hsends := Peers.sends_of_ok hpeer
    rw [Flow.dispatched_splice]
    exact ⟨nofun, fun _ _ => ⟨rfl, hsends ▸ hpeer⟩, nofun, .inr ⟨_, _, _, hchosen, hdials, rfl⟩⟩
  | shadowsocks hchosen =>
    rw [Flow.dispatched_ssRelay]
    exact ⟨nofun, fun _ => nofun, nofun, .inr ⟨_, _, _, hchosen, rfl, rfl⟩⟩
  | socks hchosen =>
    rw [Flow.dispatched_socksRelay]
    exact ⟨nofun, fun _ => nofun, nofun, .inr ⟨_, _, _, hchosen, rfl, rfl⟩⟩

theorem FlowStep.placed (hf : Flow.Placed tree peers target ctx f)
    (h : FlowStep tree peers target ctx f a f') : Flow.Placed tree peers target ctx f' := by
  cases h with
  | inbound hrelay =>
    have hsent := hrelay.moves.2.sent_eq
    exact ⟨fun hp => ⟨(hf.pending hp).1, hsent.trans (hf.pending hp).2⟩, hf.direct,
      fun hg => hsent.trans (hf.gone hg), hf.dialed⟩
  | dispatch draw hpending =>
    exact Flow.Placed.dispatched (dispatched_serve ⟨f.up, f.down⟩) (hf.pending hpending).2
  | outbound hdirect => exact ⟨nofun, fun _ _ => hf.direct _ hdirect, nofun, hf.dialed⟩
  | upstream hupstream =>
    refine ⟨?_, ?_, ?_, hf.dialed⟩
    · exact fun hp => nomatch hupstream.symm.trans hp
    · exact fun r hd => nomatch hupstream.symm.trans hd
    · exact fun hg => nomatch hupstream.symm.trans hg

/-- **The invariant of a flow**: `relay_stream` keeps its account, and the world of the flow
keeps its own. -/
structure Flow.Inv (tree : ServiceTree) (peers : Peers) (counter : Option Counter) (h : Handover)
    (f : Flow) : Prop extends Flow.Placed tree peers h.target h.ctx f where
  accounts : Accounts h.leftover h.unread.flatten counter f.inboundSide
  world : ∀ w, f.world (peers.sends h.target) = some w →
    World.Inv h.unread.flatten h.leftover counter (peers.sends h.target) w

theorem Flow.inv_start (counter : Option Counter) (h : Handover) :
    Flow.Inv tree peers counter h (.start counter h) where
  accounts := relayStream_accounts ..
  world w hw := by
    obtain rfl := Option.some.inj ((Flow.world_start counter h _).symm.trans hw)
    exact World.inv_start
  pending _ := ⟨rfl, rfl⟩
  direct _ hdirect := nomatch hdirect
  gone hgone := nomatch hgone
  dialed := .inl rfl

theorem FlowStep.inv {counter : Option Counter} {h : Handover}
    (hf : Flow.Inv tree peers counter h f)
    (hstep : FlowStep tree peers h.target h.ctx f a f') : Flow.Inv tree peers counter h f' := by
  obtain ⟨_, hside⟩ := hstep.inboundSide
  have haccounts := hside.accounts hf.accounts
  have hworld : ∀ w, f'.world (peers.sends h.target) = some w →
      World.Inv h.unread.flatten h.leftover counter (peers.sends h.target) w := by
    intro w' hw'
    obtain ⟨w, hw⟩ := hstep.world_of_some hw'
    rcases hstep.simulates (fun _ => Peers.sends_of_ok) hw hw' with rfl | ⟨b, hworld, -⟩
    · exact hf.world _ hw
    · exact WorldStep.inv (hf.world w hw) hworld
  exact ⟨hstep.placed hf.toPlaced, haccounts, hworld⟩

theorem Flow.Inv.written_nil {counter : Option Counter} {h : Handover}
    (hf : Flow.Inv tree peers counter h f) (hsent : f.down.sent = []) :
    f.inbound.conn.written = [] := by
  have hprefix := hf.accounts.written_prefix
  rw [Flow.inboundSide, hsent] at hprefix
  exact List.prefix_nil.mp hprefix

/-- **A flow is confined to its link.**  In every run of a flow that was handed over,
whatever the order of the steps, the routing and the failures: what has left for the outbound
is a prefix of the payload; at most one destination is dialled, the one that the chosen
outbound dials for the target; a target that is reached directly has got a prefix of the
payload and the client a prefix of what the target sends; and a client whose flow is not
dispatched yet, or was dropped, has got nothing. -/
theorem flow_confined (tree : ServiceTree) (peers : Peers) (counter : Option Counter)
    (h : Handover) {trace : List (FlowAct × Flow)} {f : Flow}
    (hrun : Run (FlowStep tree peers h.target h.ctx) (.start counter h) trace f) :
    f.up.sent.flatten <+: h.payload ∧ f.inbound.conn.written <+: f.down.sent.flatten ∧
      (f.dialed = [] ∨ ∃ draw ob dest, tree.chosen draw h.target h.ctx = some ob ∧
        ob.dials h.target = some dest ∧ f.dialed = [dest]) ∧
      (∀ r, f.outlet = .direct r → f.dialed = [h.target] ∧ r.conn.written <+: h.payload ∧
        ∃ bytes, peers h.target = .ok bytes ∧ f.inbound.conn.written <+: bytes) ∧
      (f.outlet = .pending ∨ f.outlet = .gone → f.inbound.conn.written = []) := by
  have hf := hrun.invariant (Flow.inv_start counter h) fun _ _ _ => FlowStep.inv
  refine ⟨hf.accounts.sent_prefix, hf.accounts.written_prefix, hf.dialed, fun r hr => ?_, ?_⟩
  · obtain ⟨hdialed, hpeer⟩ := hf.direct r hr
    have hw := hf.world ⟨f.inbound, r, f.up, f.down⟩ (by rw [Flow.world, hr]; rfl)
    exact ⟨hdialed, hw.outbound.written_prefix.trans hw.inbound.sent_prefix, _, hpeer,
      hw.inbound.written_prefix.trans hw.outbound.sent_prefix⟩
  · rintro (hp | hg)
    · exact hf.written_nil (hf.pending hp).2
    · exact hf.written_nil (hf.gone hg)

/-- Everything goes to `freedom`. -/
def directTree : ServiceTree :=
  ⟨.new [] none, NoGeo, OutboundList.build [("direct", .freedom)], some "direct"⟩

/-- The first payload of a flow that is spliced with its target. -/
theorem flow_confined_direct : ∃ f : Flow, f.dialed = [.tcp (.domain "a.b") 80] ∧
    f.up.sent.flatten <+: [71] ∧ f.inbound.conn.written <+: [1] := by
  let h : Handover := ⟨[], .tcp (.domain "a.b") 80, ⟨none, none, none⟩, [71], []⟩
  have hdispatch := @FlowStep.dispatch directTree (fun _ => .ok [1]) h.target h.ctx
    (.start none h) 0 rfl
  have hrun := Run.cons hdispatch
    (.cons (.inbound (.seed rfl rfl ⟨rfl, rfl, by decide⟩)) (.nil _))
  obtain ⟨hup, -, -, hdirect, -⟩ := flow_confined directTree (fun _ => .ok [1]) none h hrun
  obtain ⟨hdialed, -, bytes, hbytes, hclient⟩ := hdirect _ rfl
  obtain rfl := Except.ok.inj hbytes
  exact ⟨_, hdialed, hup, hclient⟩

/-! ## Clean runs of a direct flow -/

/-- The tree sends the flow to `freedom`, whatever is drawn, and the target sends `bytes`. -/
structure Reaches (tree : ServiceTree) (peers : Peers) (target : Destination) (ctx : Ctx)
    (bytes : Bytes) : Prop where
  chosen : ∀ draw, tree.chosen draw target ctx = some .freedom
  valid : target.isValid = true
  peer : peers target = .ok bytes

/-- Both relays have returned `Ok`. -/
def Flow.Returned (f : Flow) : Prop :=
  f.inbound.result = some (.ok ()) ∧ ∃ r, f.outlet = .direct r ∧ r.result = some (.ok ())

/-- The invariant of the clean runs of a flow that is sent to its target. -/
def Flow.CleanInv (counter : Option Counter) (h : Handover) (bytes : Bytes) (f : Flow) : Prop :=
  ∃ w, f.world bytes = some w ∧ World.CleanInv h.unread.flatten h.leftover counter bytes w

/-- What is left to do on the outbound half: the dispatch, and the work of the relay. -/
def Outlet.weight (bytes : Bytes) : Outlet → Nat
  | .pending => (Relay.splice (.new bytes)).weight + 1
  | .direct r => r.weight
  | .upstream | .gone => 0

def Flow.weight (bytes : Bytes) (f : Flow) : Nat :=
  f.inbound.weight + f.outlet.weight bytes + chanWeight f.up + chanWeight f.down

variable {counter : Option Counter} {h : Handover}

/-- A dispatch that reaches the target changes nothing in the world. -/
theorem Reaches.dispatched (hreach : Reaches tree peers target ctx bytes) (f : Flow)
    (draw : UInt64) : f.dispatched (tree.serve draw ⟨target, ctx, ⟨f.up, f.down⟩⟩ peers.dialer).1 =
      { f with outlet := .direct (.splice (.new bytes)), dialed := [target] } := by
  have hserve : (tree.serve draw ⟨target, ctx, ⟨f.up, f.down⟩⟩ peers.dialer).1 =
      ⟨[target], .splice (.new bytes) ⟨f.up, f.down⟩⟩ := by
    rw [ServiceTree.serve_eq, hreach.chosen draw]
    simp [Outbound.process, hreach.valid, dialThen, Peers.dialer, hreach.peer, Except.map]
  rw [hserve, Flow.dispatched_splice]

theorem FlowStep.cleanInv (hreach : Reaches tree peers h.target h.ctx bytes) (ha : a.Clean)
    (hf : Flow.CleanInv counter h bytes f) (hstep : FlowStep tree peers h.target h.ctx f a f') :
    Flow.CleanInv counter h bytes f' := by
  obtain ⟨w, hw, hclean⟩ := hf
  have hsome : ∃ w', f'.world bytes = some w' := by
    cases hstep with
    | inbound =>
      obtain ⟨r, hr, -⟩ := Option.map_eq_some_iff.mp hw
      exact ⟨_, Option.map_eq_some_iff.mpr ⟨r, hr, rfl⟩⟩
    | dispatch draw =>
      rw [hreach.dispatched f draw]
      exact ⟨_, rfl⟩
    | outbound => exact ⟨_, rfl⟩
    | upstream => exact ha.elim
  obtain ⟨w', hw'⟩ := hsome
  have hpeer : ∀ bs, peers h.target = .ok bs → bs = bytes :=
    fun bs hbs => Except.ok.inj (hbs.symm.trans hreach.peer)
  rcases hstep.simulates hpeer hw hw' with rfl | ⟨b, hworld, hb⟩
  · exact ⟨_, hw', hclean⟩
  · exact ⟨_, hw', hworld.cleanInv (hb ha) hclean⟩

theorem FlowStep.weight_lt (hreach : Reaches tree peers target ctx bytes) (ha : a.Clean)
    (hstep : FlowStep tree peers target ctx f a f') : f'.weight bytes < f.weight bytes := by
  cases hstep with
  | inbound hrelay =>
    have hlt := RelayStep.weight_lt ha hrelay
    simp only [Flow.weight] at *
    omega
  | dispatch draw hpending =>
    rw [hreach.dispatched f draw]
    simp only [Flow.weight, hpending, Outlet.weight]
    omega
  | outbound hdirect hrelay =>
    have hlt := RelayStep.weight_lt ha hrelay
    simp only [Flow.weight, hdirect, Outlet.weight] at *
    omega
  | upstream => exact ha.elim

/-- A flow on its way is never stuck. -/
theorem Flow.CleanInv.moves (hf : Flow.CleanInv counter h bytes f) :
    f.Returned ∨ ∃ a f', a.Clean ∧ FlowStep tree peers h.target h.ctx f a f' := by
  obtain ⟨w, hw, hclean⟩ := hf
  cases houtlet : f.outlet with
  | pending => exact .inr ⟨.dispatch 0, _, trivial, .dispatch 0 houtlet⟩
  | upstream | gone =>
    rw [Flow.world, houtlet] at hw
    cases hw
  | direct r =>
    rw [Flow.world, houtlet] at hw
    obtain rfl := Option.some.inj hw
    rcases hclean.moves with ⟨hin, hout⟩ | ⟨b, w', hb, hworld⟩
    · exact .inl ⟨hin, r, houtlet, hout⟩
    · cases hworld with
      | inbound hrelay => exact .inr ⟨.inbound _, _, hb, .inbound hrelay⟩
      | outbound hrelay => exact .inr ⟨.outbound _, _, hb, .outbound houtlet hrelay⟩

end Worlds

/-! ## From end to end -/

/-- **A tunnel delivers.**  A client asks a stream inbound for a tunnel, its request and
payload cut on the stream in any way.  It is answered, and where the tree sends the flow to
`freedom` and the target can be dialled: of all runs in which nothing fails, none is longer
than a bound, each can be carried on to the end, and at the end the target that was asked for
(or named by the payload, for an IP) has been dialled and has the payload, the client has the
answer and then what the target sent, and the user's counter has grown by both. -/
theorem tunnel_delivered {base64Decode : List Char → Option Bytes}
    (bindUdp : Except IoError UInt16) {inbound : StreamInbound} {ctx ctx' : Ctx}
    {dest : Destination} {wire reply : Bytes}
    (hasks : inbound.Asks base64Decode ctx wire dest ctx' reply) (payload : Bytes)
    {reads : List Bytes} (hcut : IsCut (wire ++ payload) reads) (tree : ServiceTree)
    (peers : Peers) (stats : Option (String → Counter)) :
    ∃ h, inbound.decode base64Decode bindUdp ctx reads = .ok (.relays h) ∧ h.written = reply ∧
      h.target = sniffOverride dest h.leftover ∧ h.ctx = ctx' ∧
      ∀ bytes, (∀ draw, tree.chosen draw h.target ctx' = some .freedom) →
        peers h.target = .ok bytes → ∃ bound, ∀ (trace : List (FlowAct × Flow)) (f : Flow),
          Run (FlowStep tree peers h.target ctx') (.start (userCounter stats ctx') h) trace f →
          (∀ p ∈ trace, p.1.Clean) →
            trace.length ≤ bound ∧
            (∃ rest f', Run (FlowStep tree peers h.target ctx') f rest f' ∧
              (∀ p ∈ rest, p.1.Clean) ∧ f'.Returned) ∧
            (f.Returned → f.dialed = [h.target] ∧
              (∃ r, f.outlet = .direct r ∧ r.conn.written = payload) ∧
              f.inbound.conn.written = bytes ∧
              f.inbound.counter = (userCounter stats ctx').map
                (·.grown payload.length bytes.length)) := by
  obtain ⟨h, hdecode, hwritten, htarget, rfl, rfl⟩ :=
    StreamInbound.decode_of_asks bindUdp hasks hcut
  refine ⟨h, hdecode, hwritten, htarget, rfl, fun bytes hchosen hpeer =>
    ⟨(Flow.start (userCounter stats h.ctx) h).weight bytes, fun trace f hrun hclean => ?_⟩⟩
  have hvalid : h.target.isValid = true := by
    rw [Destination.isValid, htarget, sniffOverride_network, hasks.network]
    rfl
  have hreach : Reaches tree peers h.target h.ctx bytes := ⟨hchosen, hvalid, hpeer⟩
  have hstart : Flow.CleanInv (userCounter stats h.ctx) h bytes
      (.start (userCounter stats h.ctx) h) :=
    ⟨_, Flow.world_start .., World.cleanInv_start (by decide)⟩
  have hf := hrun.invariant_of_good _ hclean hstart fun _ _ _ => FlowStep.cleanInv hreach
  have hlen := hrun.length_le hclean fun _ _ _ => FlowStep.weight_lt hreach
  refine ⟨by omega, ?_, ?_⟩
  · exact exists_run_to (Flow.CleanInv (userCounter stats h.ctx) h bytes) Flow.Returned
      FlowAct.Clean (Flow.weight bytes) (fun _ _ _ => FlowStep.cleanInv hreach)
      (fun _ _ _ => FlowStep.weight_lt hreach) (fun _ => Flow.CleanInv.moves) hf
  · rintro ⟨hin, r, houtlet, hout⟩
    have hinv := hrun.invariant (Flow.inv_start _ h) fun _ _ _ => FlowStep.inv
    obtain ⟨w, hw, hworld⟩ := hf
    rw [Flow.world, houtlet] at hw
    obtain rfl := Option.some.inj hw
    obtain ⟨-, -, htarget', hclient, hcount⟩ := hworld.all_of_returned ⟨hin, hout⟩
    exact ⟨(hinv.direct r houtlet).1, ⟨r, houtlet, htarget'⟩, hclient, hcount⟩

/-- A SOCKS client with an account asks for a domain; its request comes in four pieces. -/
theorem tunnel_delivered_account : ∃ (h : Handover) (trace : List (FlowAct × Flow)) (f : Flow),
    StreamInbound.decode (fun _ => none) (.ok 0) (.socks ⟨[⟨"u", "p"⟩]⟩) ⟨none, none, none⟩
        [[5, 2, 0, 2], [1, 1, 117, 1, 112, 5, 1], [0, 3, 3, 97, 46, 98, 0, 80, 71], [69]] =
      .ok (.relays h) ∧ h.written = [5, 2, 1, 0, 5, 0, 0, 1, 0, 0, 0, 0, 0, 0] ∧
    Run (FlowStep directTree (fun _ => .ok [1]) h.target ⟨none, none, none⟩) (.start none h)
      trace f ∧
    f.dialed = [.tcp (.domain "a.b") 80] ∧ (∃ r, f.outlet = .direct r ∧ r.conn.written = [71, 69]) ∧
    f.inbound.conn.written = [1] := by
  have hmethods : (⟨[⟨"u", "p"⟩]⟩ : Socks).expected ∈ ([0, 2] : Bytes) := by decide
  have hadmits : (⟨[⟨"u", "p"⟩]⟩ : Socks).Admits [1, 1, 117, 1, 112] [1, 0] :=
    .account (List.mem_singleton.mpr rfl) (by decide) (by decide)
  have hcanon : (Address.domain "a.b").Canonical :=
    ⟨by decide, by decide, by decide, by decide⟩
  have hasks : (StreamInbound.socks ⟨[⟨"u", "p"⟩]⟩).Asks (fun _ => none) ⟨none, none, none⟩
      [5, 2, 0, 2, 1, 1, 117, 1, 112, 5, 1, 0, 3, 3, 97, 46, 98, 0, 80]
      (.tcp (.domain "a.b") 80) ⟨none, none, none⟩ [5, 2, 1, 0, 5, 0, 0, 1, 0, 0, 0, 0, 0, 0] :=
    @StreamInbound.Asks.socks _ _ _ _ _ _ _ 0 _ _ hmethods (by decide) hadmits hcanon rfl
  have hcut : IsCut ([5, 2, 0, 2, 1, 1, 117, 1, 112, 5, 1, 0, 3, 3, 97, 46, 98, 0, 80] ++ [71, 69])
      [[5, 2, 0, 2], [1, 1, 117, 1, 112, 5, 1], [0, 3, 3, 97, 46, 98, 0, 80, 71], [69]] :=
    ⟨rfl, by decide⟩
  obtain ⟨h, hdecode, hwritten, htarget, -, hall⟩ := tunnel_delivered (.ok 0) hasks [71, 69] hcut
    directTree (fun _ => .ok [1]) none
  obtain ⟨bound, hbound⟩ := hall [1] (fun _ => rfl) rfl
  obtain ⟨-, ⟨trace, f, hrun, hclean, hret⟩, -⟩ := hbound [] _ (.nil _) (by simp)
  obtain ⟨-, -, hend⟩ := hbound trace f hrun hclean
  obtain ⟨hdialed, hup, hdown, -⟩ := hend hret
  have hdomain : h.target = .tcp (.domain "a.b") 80 := htarget
  exact ⟨h, trace, f, hdecode, hwritten, hrun, hdomain ▸ hdialed, hup, hdown⟩

end XrayRs
