import XrayRs.Net
import XrayRs.StepSystem
import XrayRs.TtlCache

/-! # Names and addresses

`CachedResolver` and `SystemDialer`: the calls of `dial_tcp` and `resolve_first` that share a
resolver, with its cache and the name servers behind it, in any interleaving and with calls
that are dropped on the way.  The cache is any cache (`TtlCache.Cache`), and each result names
what it relies on of it.

No connection goes astray: if the cache finds only what was put there less than thirty seconds
ago, what is dialled is the IP that was asked for, or what the name servers gave for the name,
stored less than that before the call if it comes from the cache; the addresses are tried in
order, up to the first that takes the connection (`dialed_was_resolved`).  And if the cache
retains what it does not evict, no call that begins after an answer was stored asks for it
again while it lasts (`looked_up_once`). -/

namespace XrayRs.Dialing

open ByteWords StepSystem TtlCache

/-- `SocketAddr`. -/
abbrev SocketAddr := IpAddr × UInt16

/-- Why a call fails: the lookup has, or was empty (`no DNS records`), or no address was
left to try (`no addresses for domain`). -/
inductive DialError
  | lookup
  | noRecords
  | noAddresses
  deriving DecidableEq

/-- `dial_tcp`, and `resolve_first` of the UDP relays. -/
inductive Kind
  | dialTcp
  | resolveFirst

/-- Where a call is. -/
inductive Phase
  | start
  | lookup (host : String)
  | storing (host : String) (ips : List IpAddr) (answered : Nat)
  | connecting (left : List SocketAddr)
  | done (result : Except DialError SocketAddr)
  | dropped

/-- A call, the time it began, and the addresses that have refused its connection. -/
structure Call where
  kind : Kind
  dest : Destination
  phase : Phase
  begun : Nat
  refused : List SocketAddr

/-- An answer in the cache: the name, the addresses, when they were given, and since when
they are stored. -/
structure Stored where
  host : String
  ips : List IpAddr
  answered : Nat
  since : Nat

/-- The cache of a resolver: the addresses of a name. -/
abbrev DnsCache := Cache String (List IpAddr)

/-- The clock in nanoseconds, the cache, the answers stored so far, and the calls. -/
structure State (ι : Type) (cache : DnsCache) where
  now : Nat
  entries : cache.State
  stored : List Stored
  call : ι → Call

/-- `time_to_live` of the cache. -/
def timeToLive : Nat := 30 * 10 ^ 9

/-! ## Calls -/

/-- The loop of `dial_tcp`, up to its next connection. -/
def connect : List SocketAddr → Phase
  | [] => .done (.error .noAddresses)
  | addr :: left => .connecting (addr :: left)

theorem connect_ne_lookup {host : String} (addrs : List SocketAddr) :
    connect addrs ≠ .lookup host := by
  cases addrs <;> nofun

/-- What a call does with the addresses. -/
def Kind.arrive : Kind → List SocketAddr → Phase
  | .dialTcp, addrs => connect addrs
  | .resolveFirst, [] => .done (.error .noAddresses)
  | .resolveFirst, addr :: _ => .done (.ok addr)

theorem arrive_ne_lookup {host : String} (kind : Kind) (addrs : List SocketAddr) :
    kind.arrive addrs ≠ .lookup host := by
  cases kind with
  | dialTcp => exact connect_ne_lookup addrs
  | resolveFirst => cases addrs <;> nofun

/-- `resolve_addr` and `CachedResolver::resolve`, up to the lookup. -/
def Call.begin (c : Call) (cache : DnsCache) (entries : cache.State) (now : Nat) : Phase :=
  match c.dest.address with
  | .ip ip => c.kind.arrive [(ip, c.dest.port)]
  | .domain host =>
    match IpLiteral.parseIpAddr (asBytes host) with
    | some ip => c.kind.arrive [(ip, c.dest.port)]
    | none =>
      match cache.get entries now host with
      | some ips => c.kind.arrive (ips.map (·, c.dest.port))
      | none => .lookup host

/-- `CachedResolver::resolve`, behind the lookup. -/
def answered (host : String) (now : Nat) : Option (List IpAddr) → Phase
  | none => .done (.error .lookup)
  | some [] => .done (.error .noRecords)
  | some ips => .storing host ips now

theorem answered_ne_lookup {host name : String} {now : Nat} (a : Option (List IpAddr)) :
    answered name now a ≠ .lookup host := by
  match a with
  | none => nofun
  | some [] => nofun
  | some (_ :: _) => nofun

/-- The moves: time passes, the cache evicts the entries of some names, a call begins, its
lookup is answered, it stores the answer, an address takes or refuses its connection, or it
is dropped. -/
inductive Act (ι : Type)
  | tick (elapsed : Nat)
  | settle (evicted : Set String)
  | begin (i : ι)
  | answer (i : ι) (answer : Option (List IpAddr))
  | store (i : ι)
  | accept (i : ι)
  | refuse (i : ι)
  | drop (i : ι)

section System

variable {ι : Type} {cache : DnsCache}

section Moves

variable [DecidableEq ι]

/-- The state with this call. -/
def State.set (s : State ι cache) (i : ι) (c : Call) : State ι cache :=
  { s with call := Function.update s.call i c }

/-- One move.  The name servers give for a name at a time what `dns` says they may. -/
inductive Step (dns : String → Nat → Option (List IpAddr) → Prop) :
    State ι cache → Act ι → State ι cache → Prop
  | tick {s : State ι cache} (elapsed : Nat) :
      Step dns s (.tick elapsed) { s with now := s.now + elapsed }
  | settle {s : State ι cache} {evicted : Set String} {entries : cache.State}
      (hsettles : cache.Settles s.entries s.now evicted entries) :
      Step dns s (.settle evicted) { s with entries }
  | begin {s : State ι cache} {i : ι} (hphase : (s.call i).phase = .start) :
      Step dns s (.begin i)
        (s.set i { s.call i with phase := (s.call i).begin cache s.entries s.now, begun := s.now })
  | answer {s : State ι cache} {i : ι} {host : String} {a : Option (List IpAddr)}
      (hphase : (s.call i).phase = .lookup host) (hdns : dns host s.now a) :
      Step dns s (.answer i a) (s.set i { s.call i with phase := answered host s.now a })
  | store {s : State ι cache} {i : ι} {host : String} {ips : List IpAddr} {t : Nat}
      (hphase : (s.call i).phase = .storing host ips t) :
      Step dns s (.store i)
        { s.set i { s.call i with
            phase := (s.call i).kind.arrive (ips.map (·, (s.call i).dest.port)) } with
          entries := cache.insert s.entries s.now host ips,
          stored := ⟨host, ips, t, s.now⟩ :: s.stored }
  | accept {s : State ι cache} {i : ι} {addr : SocketAddr} {left : List SocketAddr}
      (hphase : (s.call i).phase = .connecting (addr :: left)) :
      Step dns s (.accept i) (s.set i { s.call i with phase := .done (.ok addr) })
  | refuse {s : State ι cache} {i : ι} {addr : SocketAddr} {left : List SocketAddr}
      (hphase : (s.call i).phase = .connecting (addr :: left)) :
      Step dns s (.refuse i)
        (s.set i { s.call i with phase := connect left, refused := (s.call i).refused ++ [addr] })
  | drop {s : State ι cache} (i : ι) :
      Step dns s (.drop i) (s.set i { s.call i with phase := .dropped })

end Moves

/-- Nothing is cached, and no call has begun. -/
def State.new (calls : ι → Kind × Destination) : State ι cache :=
  ⟨0, cache.new, [], fun i => ⟨(calls i).1, (calls i).2, .start, 0, []⟩⟩

/-! ## What a call may dial -/

/-- The addresses of a call: the IP that is asked for, or those stored for the name, not
longer ago than the time to live when the call began. -/
inductive Resolved (s : State ι cache) (c : Call) : List SocketAddr → Prop
  | ip {ip : IpAddr} (hdest : c.dest.address = .ip ip) : Resolved s c [(ip, c.dest.port)]
  | literal {host : String} {ip : IpAddr} (hdest : c.dest.address = .domain host)
      (hip : IpLiteral.parseIpAddr (asBytes host) = some ip) : Resolved s c [(ip, c.dest.port)]
  | answer {e : Stored} (hdest : c.dest.address = .domain e.host)
      (hname : IpLiteral.parseIpAddr (asBytes e.host) = none) (he : e ∈ s.stored)
      (hfresh : c.begun < e.since + timeToLive) : Resolved s c (e.ips.map (·, c.dest.port))

/-- The call asks for the name, which is no IP, and has not dialled. -/
structure Call.Asks (s : State ι cache) (c : Call) (host : String) : Prop where
  dest : c.dest.address = .domain host
  name : IpLiteral.parseIpAddr (asBytes host) = none
  begun : c.begun ≤ s.now
  refused : c.refused = []

variable (dns : String → Nat → Option (List IpAddr) → Prop)

/-- The name servers gave these addresses, at that time. -/
structure Stored.Given (s : State ι cache) (e : Stored) : Prop where
  dns : dns e.host e.answered (some e.ips)
  ips : e.ips ≠ []
  answered : e.answered ≤ e.since
  since : e.since ≤ s.now

/-- **What a call has done is right**: `dial_tcp` has tried the addresses in order, up to the
first that took the connection, and `resolve_first` gives the first of them; or the name was
looked up in vain. -/
def Call.Sound (s : State ι cache) (c : Call) : Prop :=
  match c.phase with
  | .start => c.refused = []
  | .lookup host => c.Asks s host
  | .storing host ips t =>
    c.Asks s host ∧ dns host t (some ips) ∧ ips ≠ [] ∧ c.begun ≤ t ∧ t ≤ s.now
  | .connecting left => c.kind = .dialTcp ∧ left ≠ [] ∧ Resolved s c (c.refused ++ left)
  | .done (.ok addr) =>
    (c.kind = .resolveFirst → c.refused = []) ∧ ∃ left, Resolved s c (c.refused ++ addr :: left)
  | .done (.error .noAddresses) => c.refused ≠ [] ∧ Resolved s c c.refused
  | .done (.error .noRecords) =>
    ∃ host t, c.Asks s host ∧ c.begun ≤ t ∧ t ≤ s.now ∧ dns host t (some [])
  | .done (.error .lookup) =>
    ∃ host t, c.Asks s host ∧ c.begun ≤ t ∧ t ≤ s.now ∧ dns host t none
  | .dropped => True

/-- The invariant of the resolver and its calls. -/
structure Inv (s : State ι cache) : Prop where
  stored : ∀ e ∈ s.stored, e.Given dns s
  found : cache.Holds timeToLive (fun host ips since =>
    ∃ e ∈ s.stored, e.host = host ∧ e.ips = ips ∧ e.since = since) s.entries s.now
  call : ∀ i, (s.call i).Sound dns s

variable {dns} {s t : State ι cache} {c : Call} {i : ι} {a : Act ι}

theorem Resolved.mono {addrs : List SocketAddr} (h : Resolved s c addrs)
    (hmono : s.stored ⊆ t.stored) : Resolved t c addrs := by
  cases h with
  | ip hdest => exact .ip hdest
  | literal hdest hip => exact .literal hdest hip
  | answer hdest hname he hfresh => exact .answer hdest hname (hmono he) hfresh

/-- Where a call's addresses come from is not changed by what it does with them. -/
theorem Resolved.of_dest {c' : Call} {addrs : List SocketAddr} (h : Resolved s c addrs)
    (hdest : c'.dest = c.dest) (hbegun : c'.begun = c.begun) : Resolved s c' addrs := by
  cases h with
  | ip h =>
    rw [← hdest] at h ⊢
    exact .ip h
  | literal h hip =>
    rw [← hdest] at h ⊢
    exact .literal h hip
  | answer h hname he hfresh =>
    rw [← hdest] at h ⊢
    exact .answer h hname he (hbegun ▸ hfresh)

theorem Call.Asks.mono {host : String} (h : c.Asks s host) (hnow : s.now ≤ t.now) : c.Asks t host :=
  ⟨h.dest, h.name, Nat.le_trans h.begun hnow, h.refused⟩

theorem Call.Asks.inPhase {host : String} (h : c.Asks s host) (phase : Phase) :
    Call.Asks s { c with phase } host :=
  ⟨h.dest, h.name, h.begun, h.refused⟩

theorem Call.Sound.mono (h : c.Sound dns s) (hnow : s.now ≤ t.now) (hmono : s.stored ⊆ t.stored) :
    c.Sound dns t := by
  unfold Sound at h ⊢
  cases hphase : c.phase with
  | start => simpa only [hphase] using h
  | lookup host =>
    simp only [hphase] at h ⊢
    exact h.mono hnow
  | storing host ips t =>
    simp only [hphase] at h ⊢
    obtain ⟨hasks, hdns, hips, hbegun, ht⟩ := h
    exact ⟨hasks.mono hnow, hdns, hips, hbegun, Nat.le_trans ht hnow⟩
  | connecting left =>
    simp only [hphase] at h ⊢
    exact ⟨h.1, h.2.1, h.2.2.mono hmono⟩
  | dropped => trivial
  | done result =>
    cases result with
    | ok addr =>
      simp only [hphase] at h ⊢
      obtain ⟨hfirst, left, hresolved⟩ := h
      exact ⟨hfirst, left, hresolved.mono hmono⟩
    | error e =>
      cases e with
      | noAddresses =>
        simp only [hphase] at h ⊢
        exact ⟨h.1, h.2.mono hmono⟩
      | noRecords | lookup =>
        simp only [hphase] at h ⊢
        obtain ⟨host, t, hasks, hbegun, ht, hdns⟩ := h
        exact ⟨host, t, hasks.mono hnow, hbegun, Nat.le_trans ht hnow, hdns⟩

/-- A call that arrives at its addresses. -/
theorem sound_arrive {addrs : List SocketAddr} (hne : addrs ≠ []) (hrefused : c.refused = [])
    (h : Resolved s c addrs) (hphase : c.phase = c.kind.arrive addrs) : c.Sound dns s := by
  unfold Call.Sound
  rw [hphase]
  cases addrs with
  | nil => exact absurd rfl hne
  | cons addr left =>
    cases c.kind with
    | dialTcp => exact ⟨rfl, hne, by rwa [hrefused]⟩
    | resolveFirst => exact ⟨fun _ => hrefused, left, by rwa [hrefused]⟩

theorem answer_ne_nil (hs : Inv dns s) {e : Stored} (he : e ∈ s.stored) (port : UInt16) :
    e.ips.map (·, port) ≠ ([] : List SocketAddr) := by
  simp [(hs.stored e he).ips]

theorem Inv.asks (hs : Inv dns s) {host : String} (hphase : (s.call i).phase = .lookup host) :
    (s.call i).Asks s host := by
  have hsound := hs.call i
  rwa [Call.Sound, hphase] at hsound

/-- A call that begins: it has its addresses at once, or asks the name servers. -/
theorem Inv.sound_begin (hs : Inv dns s) (hphase : (s.call i).phase = .start) :
    Call.Sound dns s
      { s.call i with phase := (s.call i).begin cache s.entries s.now, begun := s.now } := by
  have hrefused : (s.call i).refused = [] := by
    have hsound := hs.call i
    rwa [Call.Sound, hphase] at hsound
  generalize s.call i = c at hrefused
  cases hdest : c.dest.address with
  | ip ip =>
    refine sound_arrive (List.cons_ne_nil _ _) hrefused (.ip hdest) ?_
    simp only [Call.begin, hdest]
  | domain host =>
    cases hip : IpLiteral.parseIpAddr (asBytes host) with
    | some ip =>
      refine sound_arrive (List.cons_ne_nil _ _) hrefused (.literal hdest hip) ?_
      simp only [Call.begin, hdest, hip]
    | none =>
      cases hget : cache.get s.entries s.now host with
      | some ips =>
        obtain ⟨since, ⟨e, he, rfl, rfl, rfl⟩, hfresh⟩ := hs.found _ _ _ (Nat.le_refl _) hget
        refine sound_arrive (answer_ne_nil hs he _) hrefused (.answer hdest hip he hfresh) ?_
        simp only [Call.begin, hdest, hip, hget]
      | none =>
        simp only [Call.Sound, Call.begin, hdest, hip, hget]
        exact ⟨hdest, hip, Nat.le_refl _, hrefused⟩

/-- The lookup of a call is answered. -/
theorem Inv.sound_answer (hs : Inv dns s) {host : String} {a : Option (List IpAddr)}
    (hphase : (s.call i).phase = .lookup host) (hdns : dns host s.now a) :
    Call.Sound dns s { s.call i with phase := answered host s.now a } := by
  have hasks := hs.asks hphase
  match a with
  | none => exact ⟨host, s.now, hasks.inPhase _, hasks.begun, Nat.le_refl _, hdns⟩
  | some [] => exact ⟨host, s.now, hasks.inPhase _, hasks.begun, Nat.le_refl _, hdns⟩
  | some (ip :: ips) =>
    exact ⟨hasks.inPhase _, hdns, List.cons_ne_nil _ _, hasks.begun, Nat.le_refl _⟩

/-- A call whose address has refused the connection. -/
theorem Inv.sound_refuse (hs : Inv dns s) {addr : SocketAddr} {left : List SocketAddr}
    (hphase : (s.call i).phase = .connecting (addr :: left)) :
    Call.Sound dns s
      { s.call i with phase := connect left, refused := (s.call i).refused ++ [addr] } := by
  have hsound := hs.call i
  rw [Call.Sound, hphase] at hsound
  obtain ⟨hkind, -, hresolved⟩ := hsound
  rw [List.append_cons] at hresolved
  cases left with
  | nil =>
    rw [List.append_nil] at hresolved
    exact ⟨by simp, hresolved.of_dest rfl rfl⟩
  | cons next left => exact ⟨hkind, List.cons_ne_nil _ _, hresolved.of_dest rfl rfl⟩

theorem Stored.Given.mono {e : Stored} (h : e.Given dns s) (hnow : s.now ≤ t.now) : e.Given dns t :=
  ⟨h.dns, h.ips, h.answered, Nat.le_trans h.since hnow⟩

section

variable [DecidableEq ι]

/-- One call changes. -/
theorem Inv.set (hs : Inv dns s) {c : Call} (hc : c.Sound dns s) : Inv dns (s.set i c) where
  stored e he := (hs.stored e he).mono (Nat.le_refl _)
  found := hs.found
  call j := by
    have hsub : s.stored ⊆ (s.set i c).stored := fun _ he => he
    by_cases hj : j = i
    · subst hj
      rw [show (s.set j c).call j = c from Function.update_self ..]
      exact hc.mono (Nat.le_refl _) hsub
    · rw [show (s.set i c).call j = s.call j from Function.update_of_ne hj ..]
      exact (hs.call j).mono (Nat.le_refl _) hsub

end

section

variable (hcache : cache.FindsFresh timeToLive)
include hcache

theorem inv_new (calls : ι → Kind × Destination) : Inv dns (.new calls : State ι cache) where
  stored := nofun
  found := hcache.holds_new
  call _ := rfl

/-- An answer is stored. -/
theorem Inv.insert (hs : Inv dns s) {e : Stored} (he : e.Given dns s) (hsince : e.since = s.now) :
    Inv dns
      { s with
        entries := cache.insert s.entries s.now e.host e.ips, stored := e :: s.stored } where
  stored := List.forall_mem_cons.mpr
    ⟨he.mono (Nat.le_refl _), fun e' he' => (hs.stored e' he').mono (Nat.le_refl _)⟩
  found := by
    refine hcache.holds_insert ?_ ⟨e, List.mem_cons_self, rfl, rfl, hsince⟩
    exact hs.found.mono fun _ _ _ ⟨e', he', h⟩ => ⟨e', List.mem_cons_of_mem _ he', h⟩
  call j := (hs.call j).mono (Nat.le_refl _) fun _ he' => List.mem_cons_of_mem _ he'

/-- **Every move keeps the invariant.** -/
theorem Step.inv [DecidableEq ι] (h : Step dns s a t) (hs : Inv dns s) : Inv dns t := by
  cases h with
  | tick =>
    exact ⟨fun e he => (hs.stored e he).mono (Nat.le_add_right ..),
      hs.found.later (Nat.le_add_right ..),
      fun j => (hs.call j).mono (Nat.le_add_right ..) fun _ he => he⟩
  | settle hsettles =>
    exact ⟨fun e he => (hs.stored e he).mono (Nat.le_refl _), hcache.holds_settles hs.found hsettles,
      fun j => (hs.call j).mono (Nat.le_refl _) fun _ he => he⟩
  | begin hphase => exact hs.set (hs.sound_begin hphase)
  | answer hphase hdns => exact hs.set (hs.sound_answer hphase hdns)
  | @store i host ips t hphase =>
    have hsound := hs.call i
    rw [Call.Sound, hphase] at hsound
    obtain ⟨hasks, hdns, hips, hbegun, ht⟩ := hsound
    have hstored := hs.insert hcache (e := ⟨host, ips, t, s.now⟩) ⟨hdns, hips, ht, Nat.le_refl _⟩ rfl
    have hfresh : (s.call i).begun < s.now + timeToLive := by
      have hbegan := hasks.begun
      have hpos : 0 < timeToLive := by decide
      omega
    refine hstored.set (sound_arrive (by simp [hips]) hasks.refused ?_ rfl)
    exact .answer (e := ⟨host, ips, t, s.now⟩) hasks.dest hasks.name List.mem_cons_self hfresh
  | @accept i addr left hphase =>
    have hsound := hs.call i
    rw [Call.Sound, hphase] at hsound
    obtain ⟨hkind, -, hresolved⟩ := hsound
    refine hs.set ⟨?_, left, hresolved.of_dest rfl rfl⟩
    intro hfirst
    cases hkind.symm.trans hfirst
  | refuse hphase => exact hs.set (hs.sound_refuse hphase)
  | drop => exact hs.set trivial

end

/-! ## What the cache is for -/

/-- It does not evict the answers for this name. -/
def Act.Keeps (host : String) : Act ι → Prop
  | .settle evicted => host ∉ evicted
  | _ => True

/-- Each answer for this name, or a later one, will be found until it expires; and who asks
for the name found none when it began. -/
structure Kept (host : String) (s : State ι cache) : Prop where
  since : ∀ e ∈ s.stored, e.since ≤ s.now
  begun : ∀ i, (s.call i).begun ≤ s.now
  found : ∀ e ∈ s.stored, e.host = host →
    cache.Keeps s.entries s.now host (e.since + timeToLive)
  lookup : ∀ i, (s.call i).phase = .lookup host → ∀ e ∈ s.stored, e.host = host →
    e.since < (s.call i).begun → e.since + timeToLive ≤ (s.call i).begun

variable {host : String}

theorem kept_new (calls : ι → Kind × Destination) : Kept host (.new calls : State ι cache) :=
  ⟨nofun, fun _ => Nat.le_refl _, nofun, nofun⟩

/-- A call that begins asks for the name only if the cache has no answer for it. -/
theorem get_eq_none_of_begin {entries : cache.State} {now : Nat}
    (h : c.begin cache entries now = .lookup host) : cache.get entries now host = none := by
  unfold Call.begin at h
  split at h
  · exact absurd h (arrive_ne_lookup _ _)
  · split at h
    · exact absurd h (arrive_ne_lookup _ _)
    · split at h
      · exact absurd h (arrive_ne_lookup _ _)
      · next hget =>
        cases h
        exact hget

section

variable [DecidableEq ι]

/-- One call changes: what it asks for had expired when it began. -/
theorem Kept.set (hs : Kept host s) {c : Call} (hbegun : c.begun ≤ s.now)
    (hc : c.phase = .lookup host → ∀ e ∈ s.stored, e.host = host → e.since < c.begun →
      e.since + timeToLive ≤ c.begun) : Kept host (s.set i c) where
  since := hs.since
  begun j := by
    by_cases hj : j = i
    · subst hj
      rwa [show (s.set j c).call j = c from Function.update_self ..]
    · rw [show (s.set i c).call j = s.call j from Function.update_of_ne hj ..]
      exact hs.begun j
  found := hs.found
  lookup j hphase := by
    by_cases hj : j = i
    · subst hj
      rw [show (s.set j c).call j = c from Function.update_self ..] at hphase ⊢
      exact hc hphase
    · rw [show (s.set i c).call j = s.call j from Function.update_of_ne hj ..] at hphase ⊢
      exact hs.lookup j hphase

end

section

variable (hcache : cache.Retains timeToLive)
include hcache

/-- An answer is stored, later than all calls have begun. -/
theorem Kept.insert (hs : Kept host s) {e : Stored} (he : e.since = s.now) :
    Kept host
      { s with
        entries := cache.insert s.entries s.now e.host e.ips, stored := e :: s.stored } where
  since := List.forall_mem_cons.mpr ⟨Nat.le_of_eq he, hs.since⟩
  begun := hs.begun
  found e' he' hhost := by
    have hle : e'.since ≤ s.now := by
      rcases List.mem_cons.mp he' with rfl | hold
      · omega
      · exact hs.since e' hold
    by_cases hname : host = e.host
    · subst hname
      exact hcache.keeps_insert (by omega)
    · rcases List.mem_cons.mp he' with rfl | hold
      · exact absurd hhost.symm hname
      · exact hcache.keeps_insert_ne (hs.found e' hold hhost) hname
  lookup i hphase := by
    intro e' he' hhost hlt
    rcases List.mem_cons.mp he' with rfl | hold
    · have hle := hs.begun i
      have hlater : e'.since < (s.call i).begun := hlt
      omega
    · exact hs.lookup i hphase e' hold hhost hlt

/-- **Every move but the eviction keeps it.** -/
theorem Step.kept [DecidableEq ι] (h : Step dns s a t) (hkeeps : a.Keeps host)
    (hs : Kept host s) : Kept host t := by
  cases h with
  | tick =>
    exact ⟨fun e he => Nat.le_trans (hs.since e he) (Nat.le_add_right ..),
      fun i => Nat.le_trans (hs.begun i) (Nat.le_add_right ..),
      fun e he hhost => (hs.found e he hhost).later (Nat.le_add_right ..), hs.lookup⟩
  | settle hsettles =>
    exact ⟨hs.since, hs.begun,
      fun e he hhost => hcache.keeps_settles (hs.found e he hhost) hsettles hkeeps, hs.lookup⟩
  | begin hphase =>
    apply hs.set
    · exact Nat.le_refl _
    · intro hlookup e he hhost _
      exact (hs.found e he hhost).expired (get_eq_none_of_begin hlookup)
  | @answer i name a hphase =>
    apply hs.set
    · exact hs.begun i
    · intro hlookup
      exact absurd hlookup (answered_ne_lookup a)
  | @store i name ips t hphase =>
    have hstored := hs.insert hcache (e := ⟨name, ips, t, s.now⟩) rfl
    apply hstored.set
    · exact hs.begun i
    · intro hlookup
      exact absurd hlookup (arrive_ne_lookup _ _)
  | @accept i =>
    apply hs.set
    · exact hs.begun i
    · nofun
  | @refuse i addr left =>
    apply hs.set
    · exact hs.begun i
    · intro hlookup
      exact absurd hlookup (connect_ne_lookup left)
  | drop i =>
    apply hs.set
    · exact hs.begun i
    · nofun

end

/-! ## Every run -/

variable [DecidableEq ι] {calls : ι → Kind × Destination} {trace : List (Act ι × State ι cache)}

theorem inv_of_run (hcache : cache.FindsFresh timeToLive)
    (h : Run (Step dns) (.new calls) trace s) : Inv dns s :=
  h.invariant (inv_new hcache calls) fun _ _ _ hs hstep => hstep.inv hcache hs

theorem kept_of_run (hcache : cache.Retains timeToLive)
    (h : Run (Step dns) (.new calls) trace s) (hkeeps : ∀ p ∈ trace, p.1.Keeps host) :
    Kept host s :=
  h.invariant_of_good (Act.Keeps host) hkeeps (kept_new calls)
    fun _ _ _ hkeeps hs hstep => hstep.kept hcache hkeeps hs

end System

/-- **What is dialled was resolved.**  Let the cache find only what was put there, less than
thirty seconds ago.  Then for any number of calls of `dial_tcp` and `resolve_first` that share
a resolver, in any interleaving and with calls dropped on the way, whatever the name servers
answer and the cache evicts: each stored answer was given by the name servers for its name
before it was stored, and is not empty.  The addresses of a call are those of its target and
no others: the IP, or what was stored for the name since thirty seconds before it began.
`dial_tcp` tries them in order and ends with the first that takes the connection;
`resolve_first` gives the first; and a call fails only where its lookup failed or was empty,
or all addresses have refused. -/
theorem dialed_was_resolved {ι : Type} [DecidableEq ι] {cache : DnsCache}
    (hcache : cache.FindsFresh timeToLive) {dns : String → Nat → Option (List IpAddr) → Prop}
    {calls : ι → Kind × Destination} {trace : List (Act ι × State ι cache)} {s : State ι cache}
    (h : Run (Step dns) (.new calls) trace s) :
    (∀ e ∈ s.stored, e.Given dns s) ∧ ∀ i, (s.call i).Sound dns s :=
  ⟨(inv_of_run hcache h).stored, (inv_of_run hcache h).call⟩

/-- The cache of the runs below. -/
abbrev dnsMap : DnsCache := mapCache String (List IpAddr) timeToLive

/-- The first address of a name refuses, the second takes the connection. -/
theorem dialed_was_resolved_second : ∃ s : State Unit dnsMap,
    (s.call ()).phase = .done (.ok (.v4 #v[1, 0, 0, 1], 80)) ∧
      (s.call ()).Sound (fun _ _ _ => True) s := by
  have hrun : Run (Step fun _ _ _ => True)
      (.new fun _ : Unit => (.dialTcp, .tcp (.domain "a.b") 80) : State Unit dnsMap)
      [(.begin (), _), (.answer () (some [.v4 #v[1, 0, 0, 0], .v4 #v[1, 0, 0, 1]]), _),
        (.store (), _), (.refuse (), _), (.accept (), _)] _ :=
    .cons (.begin rfl)
      (.cons (.answer rfl trivial)
        (.cons (.store rfl)
          (.cons (.refuse rfl)
            (.cons (.accept rfl) (.nil _)))))
  exact ⟨_, rfl, (dialed_was_resolved mapCache_findsFresh hrun).2 ()⟩

/-- **An answer is not asked for again while it lasts.**  Let the cache retain what it does not
evict, for thirty seconds.  Then in every run in which it does not evict the answers for a
name, a call asks the name servers for that name only if all answers that were stored for it
before the call began had expired by then. -/
theorem looked_up_once {ι : Type} [DecidableEq ι] {cache : DnsCache}
    (hcache : cache.Retains timeToLive) {dns : String → Nat → Option (List IpAddr) → Prop}
    {calls : ι → Kind × Destination} {trace : List (Act ι × State ι cache)} {s : State ι cache}
    {host : String} (h : Run (Step dns) (.new calls) trace s)
    (hkeeps : ∀ p ∈ trace, p.1.Keeps host) {i : ι}
    (hlookup : (s.call i).phase = .lookup host) {e : Stored} (he : e ∈ s.stored)
    (hhost : e.host = host) (hbefore : e.since < (s.call i).begun) :
    e.since + timeToLive ≤ (s.call i).begun :=
  (kept_of_run hcache h hkeeps).lookup i hlookup e he hhost hbefore

/-- A name is looked up again after thirty seconds. -/
theorem looked_up_once_again : ∃ (s : State Bool dnsMap) (e : Stored), e ∈ s.stored ∧
    (s.call true).phase = .lookup "a.b" ∧ e.since + timeToLive ≤ (s.call true).begun := by
  have hrun : Run (Step fun _ _ _ => True)
      (.new fun _ : Bool => (.resolveFirst, .udp (.domain "a.b") 80) : State Bool dnsMap)
      [(.begin false, _), (.answer false (some [.v4 #v[1, 0, 0, 0]]), _), (.store false, _),
        (.tick timeToLive, _), (.begin true, _)] _ :=
    .cons (.begin rfl)
      (.cons (.answer rfl trivial)
        (.cons (.store rfl)
          (.cons (.tick _)
            (.cons (.begin rfl) (.nil _)))))
  refine ⟨_, ⟨"a.b", [.v4 #v[1, 0, 0, 0]], 0, 0⟩, List.mem_singleton.mpr rfl, rfl,
    looked_up_once mapCache_retains hrun ?_ rfl (List.mem_singleton.mpr rfl) rfl (by decide)⟩
  simp [Act.Keeps]

end XrayRs.Dialing
