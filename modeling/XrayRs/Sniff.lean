import XrayRs.ServiceTree

/-! # Sniffing

`kernel/src/route/sniff.rs` reads the domain a client asks for out of the first
bytes it sends: the server name of a TLS `ClientHello`, or the `Host` of an HTTP
request.  `sniff_override` (`proxy/src/io.rs`) puts that domain in the place of an
IP target before the flow is routed.

Conditions on IP addresses never match a domain, so from then on the flow is
routed as a request for the domain: `route_sniffOverride`. -/

namespace XrayRs

open ByteWords Text

/-- `SniffedProtocol`. -/
inductive SniffedProtocol
  | tls
  | http
  deriving DecidableEq

/-! ## TLS -/

/-- The loop of `read_server_name` over the entries of the name list.  A name with
a control byte or a blank, or a trailing dot, ends the search. -/
def readNames : Bytes → Option String
  | [] => none
  | nameType :: l1 :: l0 :: d =>
    let nameLen := (u16OfBe l1 l0).toNat
    if nameLen ≤ d.length then
      if nameType = 0 then
        let name := d.take nameLen
        if name.any (· ≤ 0x20) || name.getLast? == some 0x2e then none else fromUtf8 name
      else readNames (d.drop nameLen)
    else none
  | _ => none
termination_by d => d.length
decreasing_by
  rw [List.length_drop, List.length_cons, List.length_cons, List.length_cons]
  omega

/-- `read_server_name`. -/
def readServerName : Bytes → Option String
  | l1 :: l0 :: d => if d.length = (u16OfBe l1 l0).toNat then readNames d else none
  | _ => none

/-- The loop of `read_client_hello` over the extensions. -/
def readExtensions : Bytes → Option String
  | [] => none
  | e1 :: e0 :: l1 :: l0 :: data =>
    let length := (u16OfBe l1 l0).toNat
    if length ≤ data.length then
      match if u16OfBe e1 e0 = 0 then readServerName (data.take length) else none with
      | some name => some name
      | none => readExtensions (data.drop length)
    else none
  | _ => none
termination_by data => data.length
decreasing_by
  rw [List.length_drop, List.length_cons, List.length_cons, List.length_cons, List.length_cons]
  omega

/-- `slice::get(n..)`. -/
def getFrom (n : Nat) (s : Bytes) : Option Bytes := if n ≤ s.length then some (s.drop n) else none

/-- `read_u16`. -/
def readU16 : Bytes → Option UInt16
  | hi :: lo :: _ => some (u16OfBe hi lo)
  | _ => none

/-- `read_client_hello`. -/
def readClientHello (data : Bytes) : Option String := do
  if data.length < 42 then none
  let sessionIdLen := (← data[38]?).toNat
  if 32 < sessionIdLen then none
  let data ← getFrom (39 + sessionIdLen) data
  let cipherSuiteLen := (← readU16 data).toNat
  if cipherSuiteLen % 2 = 1 then none
  let data ← getFrom (2 + cipherSuiteLen) data
  let compressionLen := (← data[0]?).toNat
  let data ← getFrom (1 + compressionLen) data
  let extensionsLen := (← readU16 data).toNat
  let data ← getFrom 2 data
  if extensionsLen ≠ data.length then none
  readExtensions data

/-- `sniff_tls`. -/
def sniffTls : Bytes → Option String
  | t :: v :: _ :: l1 :: l0 :: payload =>
    if t ≠ 0x16 then none
    else if v ≠ 3 then none
    else
      let recordLen := (u16OfBe l1 l0).toNat
      if payload.length < recordLen then none else readClientHello (payload.take recordLen)
  | _ => none

/-! ## HTTP -/

/-- `HTTP_METHODS`. -/
def httpMethods : List String := ["get", "post", "head", "put", "delete", "options", "connect"]

/-- The loop of `begins_with_http_method`: a buffer shorter than the method under
test gives no clue. -/
def beginsWithMethod (b : Bytes) : List String → Bool
  | [] => false
  | m :: ms =>
    let m := asBytes m
    if m.length ≤ b.length && eqIgnoreAsciiCase (b.take m.length) m then true
    else if b.length < m.length then false
    else beginsWithMethod b ms

/-- `begins_with_http_method`. -/
def beginsWithHttpMethod (b : Bytes) : Bool := beginsWithMethod b httpMethods

/-- `u8::is_ascii_whitespace`. -/
def isAsciiWhitespace (b : UInt8) : Bool :=
  b == 0x20 || b == 0x09 || b == 0x0a || b == 0x0c || b == 0x0d

/-- `[u8]::trim_ascii`. -/
def trimAscii (b : Bytes) : Bytes := (b.rdropWhile isAsciiWhitespace).dropWhile isAsciiWhitespace

/-- `strip_port`: a bracketed literal without its brackets, or a host with at most
one colon without what follows it. -/
def stripPort (host : String) : Option String :=
  match host.toList with
  | '[' :: rest =>
    (splitOnce ']' rest).bind fun (addr, after) =>
      if after = [] ∨ after.head? = some ':' then some (.ofList addr) else none
  | cs =>
    match cs.count ':' with
    | 0 => some host
    | 1 => (rsplitOnce ':' cs).map fun (h, _) => .ofList h
    | _ => none

/-- The header loop of `sniff_http`, with the host found so far.  A `Host` that is
not UTF-8 gives up. -/
def readHost (host : Option String) : List Bytes → Option (Option String)
  | [] => some host
  | line :: lines =>
    if line = [] then some host
    else
      match line.idxOf? 0x3a with
      | none => readHost host lines
      | some colon =>
        if eqIgnoreAsciiCase (line.take colon) (asBytes "host") then
          match fromUtf8 (trimAscii (line.drop (colon + 1))) with
          | none => none
          | some raw => readHost (stripPort (lowercase raw)) lines
        else readHost host lines

/-- `sniff_http`. -/
def sniffHttp (payload : Bytes) : Option String :=
  if !beginsWithHttpMethod payload then none
  else
    match readHost none (payload.splitOn 0x0a).tail with
    | some (some host) => if host.isEmpty then none else some host
    | _ => none

/-! ## The override -/

/-- `sniff`: TLS first, then HTTP. -/
def sniff (payload : Bytes) : Option (SniffedProtocol × String) :=
  match sniffTls payload with
  | some domain => some (.tls, domain)
  | none =>
    match sniffHttp payload with
    | some domain => some (.http, domain)
    | none => none

/-- `sniff_override`: an IP target gives way to the domain its payload names. -/
def sniffOverride (target : Destination) (leftover : Bytes) : Destination :=
  if target.address.isIp && !leftover.isEmpty then
    match sniff leftover with
    | some (_, domain) => { target with address := .domain domain }
    | none => target
  else target

example : sniff (asBytes "GET / HTTP/1.1\nHost: Example.com:80\n\n") =
    some (.http, "example.com") := by decide

/-! ## How an overridden flow is routed -/

section Override

variable {dest : Destination} {payload : Bytes}

theorem sniff_nil : sniff [] = none := by decide

/-- A payload that names no domain leaves the target alone. -/
theorem sniffOverride_of_none (h : sniff payload = none) : sniffOverride dest payload = dest := by
  unfold sniffOverride
  by_cases hip : (dest.address.isIp && !payload.isEmpty) = true
  · rw [if_pos hip, h]
  · rw [if_neg hip]

/-- A payload that names a domain puts it in the place of an IP target. -/
theorem sniffOverride_of_some {protocol : SniffedProtocol} {domain : String}
    (hip : dest.address.isIp = true) (h : sniff payload = some (protocol, domain)) :
    sniffOverride dest payload = { dest with address := .domain domain } := by
  unfold sniffOverride
  have hne : payload.isEmpty = false := by
    cases payload with
    | nil => cases sniff_nil.symm.trans h
    | cons => rfl
  rw [hip, hne, h]
  rfl

/-- A rule of `ip:` conditions does not match a domain. -/
theorem not_matchesQuery_of_ip {rule : MatchRule} {q : RouteQuery} {domain : String}
    (hrule : ∀ c ∈ rule.conditions, ∃ cidr, c = .ip cidr) (h : q.target.address = .domain domain)
    (geo : GeoMatcher) : rule.matchesQuery q geo = false := by
  apply List.any_eq_false.mpr
  intro c hc
  obtain ⟨cidr, rfl⟩ := hrule c hc
  simp [Condition.matchesQuery, h]

/-- **A sniffed flow is routed by the domain it names.**  Take a table whose first
rule consists of `ip:` conditions, one of which contains the requested address.
A payload that names no domain gets the decision of the destination itself, that
of the first rule; a payload that names one gets the decision of the other rules
for that domain. -/
theorem route_sniffOverride {table : RouteTable} {first : MatchRule} {rest : List MatchRule}
    {addr : IpAddr} {cidr : Cidr} (geo : GeoMatcher) (ctx : Ctx) (draw : UInt64)
    (htable : table.rules = first :: rest) (hfirst : ∀ c ∈ first.conditions, ∃ cidr, c = .ip cidr)
    (hdest : dest.address = .ip addr) (hcidr : .ip cidr ∈ first.conditions)
    (hmem : cidr.contains addr = true) (payload : Bytes) :
    (sniff payload = none →
      (table.route draw (routeRequest (sniffOverride dest payload) ctx) geo).1 =
        (table.route draw (routeRequest dest ctx) geo).1) ∧
    (table.route draw (routeRequest dest ctx) geo).1 = (first.decide draw (routeRequest dest ctx)).1 ∧
    ∀ protocol domain, sniff payload = some (protocol, domain) →
      (table.route draw (routeRequest (sniffOverride dest payload) ctx) geo).1 =
        ((RouteTable.mk rest table.default).route draw
          (routeRequest { dest with address := .domain domain } ctx) geo).1 := by
  refine ⟨fun h => ?_, ?_, fun protocol domain h => ?_⟩
  · rw [sniffOverride_of_none h]
  · have hmatch : first.matchesQuery (routeRequest dest ctx) geo = true := by
      refine List.any_eq_true.mpr ⟨_, hcidr, ?_⟩
      simp [Condition.matchesQuery, routeRequest, hdest, hmem]
    rw [RouteTable.route_fst, htable]
    simp only [List.find?_cons, hmatch]
  · have hnot : first.matchesQuery
        (routeRequest { dest with address := .domain domain } ctx) geo = false :=
      not_matchesQuery_of_ip hfirst rfl geo
    rw [sniffOverride_of_some (by rw [hdest]; rfl) h, RouteTable.route_fst, RouteTable.route_fst,
      htable]
    simp only [List.find?_cons, hnot]

end Override

/-- Everything in `10.0.0.0/8` is blocked. -/
def blockPrivate : RouteTable :=
  .new [⟨[.ip ⟨.v4 #v[10, 0, 0, 0], 8⟩], [], .new .random, by decide⟩] none

/-- There a request for `10.0.0.1` that names `a.b` is routed like one for `a.b`. -/
theorem route_sniffOverride_blockPrivate :
    (blockPrivate.route 0 (routeRequest (sniffOverride (.tcp (.ip (.v4 #v[10, 0, 0, 1])) 80)
      (asBytes "GET / HTTP/1.1\nHost: a.b\n\n")) ⟨none, none, none⟩) NoGeo).1 =
        ((RouteTable.mk [] .freedom).route 0
          (routeRequest (.tcp (.domain "a.b") 80) ⟨none, none, none⟩) NoGeo).1 :=
  (route_sniffOverride NoGeo ⟨none, none, none⟩ 0 rfl (by simp) rfl (List.mem_singleton_self _)
    (by decide) _).2.2 .http "a.b" (by decide)

/-- A blocked address is let through when the payload names a domain. -/
theorem sniffOverride_unblocks :
    (blockPrivate.route 0 (routeRequest (.tcp (.ip (.v4 #v[10, 0, 0, 1])) 80)
      ⟨none, none, none⟩) NoGeo).1 = .blackhole ∧
    (blockPrivate.route 0 (routeRequest (sniffOverride (.tcp (.ip (.v4 #v[10, 0, 0, 1])) 80)
      (asBytes "GET / HTTP/1.1\nHost: a.b\n\n")) ⟨none, none, none⟩) NoGeo).1 = .freedom := by
  decide

end XrayRs
