import XrayRs.HttpDecode
import XrayRs.SocksAddr

/-! # What the stream inbounds hand over

`decode` of the inbounds that leave the client's stream to `relay_stream` as it is:
Trojan, VLESS, SOCKS, HTTP and dokodemo-door, as `Inbound` (`proxy/src/lib.rs`) sums them.
What is read with the request and belongs to the payload is the relay's leftover; the rest
is still to be read.

A client asks for a tunnel in the inbound's own format.  It gets it, and nothing of the
payload behind the request is lost, however the stream is cut (`StreamInbound.decode_of_asks`).  Only what
is read with the request is sniffed, so which name takes the place of an IP target does
depend on the cut. -/

namespace XrayRs

open ByteWords ByteParser Dialogue LineBreaks

/-- What `decode` has made of a stream that it leaves to `relay_stream`: what it has
written, the target and the session of its decision, and the payload, as far as it was read
with the request and as it is to be read. -/
structure Handover where
  written : Bytes
  target : Destination
  ctx : Ctx
  leftover : Bytes
  unread : List Bytes

/-- All that the client sends behind its request. -/
def Handover.payload (h : Handover) : Bytes := h.leftover ++ h.unread.flatten

/-- The flows that `decode` serves itself, up to its `noop_decision`. -/
inductive Service
  | datagrams (dest : Destination)
  | carrier
  | associate
  | refused
  deriving DecidableEq

/-- How `decode` goes on once it knows the request. -/
inductive Decoding
  | relays (h : Handover)
  | serves (service : Service) (written : Bytes) (ctx : Ctx) (leftover : Bytes)
      (unread : List Bytes)

/-- `Inbound`, but for Shadowsocks and VMess, whose streams are framed. -/
inductive StreamInbound
  | trojan (users : Trojan.TrojanUsers)
  | vless (users : Vless.VlessUsers)
  | socks (s : Socks)
  | http (accounts : List Http.HttpAccount)
  | dokodemo (address : Address) (port : UInt16)

/-- The session of the user with this email. -/
def Ctx.ofUser (ctx : Ctx) (email : String) : Ctx := ctx.withUser email (Http.userHash (asBytes email))

namespace StreamInbound

/-- `Trojan::decode`. -/
def trojanDecode (users : Trojan.TrojanUsers) (ctx : Ctx) (reads : List Bytes) :
    Except IoError Decoding := do
  let (((dest, email), leftover), unread) ← readHeader maxHeader (Trojan.parse users) reads
  let ctx := ctx.ofUser email
  if dest.network = .udp then
    return .serves (.datagrams dest) [] ctx leftover unread
  else
    return .relays ⟨[], sniffOverride dest leftover, ctx, leftover, unread⟩

/-- `Vless::decode`. -/
def vlessDecode (users : Vless.VlessUsers) (ctx : Ctx) (reads : List Bytes) :
    Except IoError Decoding := do
  let (((req, email), leftover), unread) ← readHeader maxHeader (Vless.parse users) reads
  let response : Bytes := [0, 0]
  let ctx := ctx.ofUser email
  match req with
  | .tcp dest => return .relays ⟨response, sniffOverride dest leftover, ctx, leftover, unread⟩
  | .udp dest => return .serves (.datagrams dest) response ctx leftover unread
  | .mux => return .serves .carrier response ctx leftover unread

/-- `Socks::decode`.  It reads no byte of the payload. -/
def socksDecode (bindUdp : Except IoError UInt16) (s : Socks) (ctx : Ctx) (reads : List Bytes) :
    Except IoError Decoding :=
  let written := (s.decode bindUdp).writtenOn reads
  match (s.decode bindUdp).runOn reads with
  | (.error e, _) => .error e
  | (.ok (cmd, address, port), unread) =>
    if cmd = CMD_CONNECT then
      .ok (.relays ⟨written, sniffOverride (.tcp address port) [], ctx, [], unread⟩)
    else .ok (.serves .associate written ctx [] unread)

/-- `Http::decode`, with the reads that it leaves. -/
def httpDecode (base64Decode : List Char → Option Bytes) (accounts : List Http.HttpAccount)
    (ctx : Ctx) (reads : List Bytes) : Except IoError Decoding := do
  let (_, unread) ← readHeader Http.maxHead Http.parseHead reads
  let decoded ← Http.decode base64Decode accounts ctx reads
  match decoded.leftover with
  | some leftover => return .relays ⟨decoded.reply, decoded.target, decoded.ctx, leftover, unread⟩
  | none => return .serves .refused decoded.reply decoded.ctx [] unread

/-- `Dokodemo::decode`. -/
def dokodemoDecode (address : Address) (port : UInt16) (ctx : Ctx) (reads : List Bytes) :
    Decoding :=
  .relays ⟨[], .tcp address port, ctx, [], reads⟩

/-- `Inbound::decode`. -/
def decode (base64Decode : List Char → Option Bytes) (bindUdp : Except IoError UInt16) :
    StreamInbound → Ctx → List Bytes → Except IoError Decoding
  | .trojan users, ctx, reads => trojanDecode users ctx reads
  | .vless users, ctx, reads => vlessDecode users ctx reads
  | .socks s, ctx, reads => socksDecode bindUdp s ctx reads
  | .http accounts, ctx, reads => httpDecode base64Decode accounts ctx reads
  | .dokodemo address port, ctx, reads => .ok (dokodemoDecode address port ctx reads)

end StreamInbound

/-! ## What a client sends -/

/-- The credentials a SOCKS inbound asks for, and its answer to them. -/
inductive Socks.Admits (s : Socks) : Bytes → Bytes → Prop
  | open (h : s.accounts = []) : s.Admits [] []
  | account {a : SocksAccount} (h : a ∈ s.accounts) (huser : (asBytes a.username).length ≤ 255)
      (hpass : (asBytes a.password).length ≤ 255) :
      s.Admits ([AUTH_VERSION, UInt8.ofNat (asBytes a.username).length] ++ asBytes a.username ++
        [UInt8.ofNat (asBytes a.password).length] ++ asBytes a.password) [AUTH_VERSION, 0x00]

/-- The reply of the HTTP inbound to `CONNECT`. -/
def connectEstablished : Bytes := asBytes "HTTP/1.1 200 Connection Established\r\n\r\n"

/-- A client that sends `wire` asks for a tunnel to the destination; it is served in the
second session, and is answered `reply`. -/
inductive StreamInbound.Asks (base64Decode : List Char → Option Bytes) (ctx : Ctx) :
    StreamInbound → Bytes → Destination → Ctx → Bytes → Prop
  | trojan {users : Trojan.TrojanUsers} {key : Vector UInt8 56} {user : Trojan.TrojanUser}
      {dest : Destination} {wire : Bytes} (huser : users.get key.toList = some user)
      (hnet : dest.network = .tcp) (hcanon : dest.address.Canonical)
      (hwire : Trojan.encode key dest = .ok wire) :
      Asks base64Decode ctx (.trojan users) wire dest (ctx.ofUser user.email) []
  | vless {users : Vless.VlessUsers} {id : Vector UInt8 16} {user : Vless.VlessUser}
      {addons wire : Bytes} {dest : Destination} (huser : users.get id.toList = some user)
      (haddons : addons.length ≤ 255) (hnet : dest.network = .tcp)
      (hcanon : dest.address.Canonical) (hwire : Vless.encode id addons (.tcp dest) = .ok wire) :
      Asks base64Decode ctx (.vless users) wire dest (ctx.ofUser user.email) [0, 0]
  | socks {s : Socks} {methods credentials verdict w : Bytes} {rsv : UInt8} {address : Address}
      {port : UInt16} (hmethods : s.expected ∈ methods) (hlen : methods.length ≤ 255)
      (hadmits : s.Admits credentials verdict) (hcanon : address.Canonical)
      (hw : AddrCodec.SOCKS.write address port = .ok w) :
      Asks base64Decode ctx (.socks s)
        ([VERSION5, UInt8.ofNat methods.length] ++ methods ++ credentials ++
          ([VERSION5, CMD_CONNECT, rsv] ++ w))
        (.tcp address port) ctx
        ([VERSION5, s.expected] ++ verdict ++
          [VERSION5, REP_SUCCESS, 0x00, ATYP_IPV4, 0, 0, 0, 0, 0, 0])
  | http {accounts : List Http.HttpAccount} {method target version : List Char}
      {lines : List (List Char)} {ctx' : Ctx} {address : Address} {port : UInt16}
      (hline : Unbroken '\r' '\n' (method ++ ' ' :: target ++ ' ' :: version))
      (hlines : ∀ l ∈ lines, Unbroken '\r' '\n' l ∧ l ≠ []) (hmethod : ' ' ∉ method)
      (htarget : ' ' ∉ target) (hconnect : Http.eqIgnoreCase method "CONNECT" = true)
      (hauth : Http.authenticate base64Decode accounts ctx lines = some ctx')
      (hauthority : Http.parseAuthority target 443 = .ok (address, port))
      (hfits : (Http.encodeRequest (method ++ ' ' :: target ++ ' ' :: version) lines).length ≤
        Http.maxHead) :
      Asks base64Decode ctx (.http accounts)
        (Http.encodeRequest (method ++ ' ' :: target ++ ' ' :: version) lines)
        (.tcp address port) ctx' connectEstablished
  | dokodemo {address : Address} {port : UInt16} :
      Asks base64Decode ctx (.dokodemo address port) [] (.tcp address port) ctx []

theorem sniffOverride_network (dest : Destination) (payload : Bytes) :
    (sniffOverride dest payload).network = dest.network := by
  unfold sniffOverride
  split
  · split <;> rfl
  · rfl

theorem StreamInbound.Asks.network {base64Decode : List Char → Option Bytes}
    {inbound : StreamInbound} {ctx ctx' : Ctx} {dest : Destination} {wire reply : Bytes}
    (h : inbound.Asks base64Decode ctx wire dest ctx' reply) : dest.network = .tcp := by
  cases h with
  | trojan _ hnet => exact hnet
  | vless _ _ hnet => exact hnet
  | socks | http | dokodemo => rfl

/-! ## Headers that are read through `read_header` -/

/-- What `read_header` gives, if the whole stream is a header and what is behind it. -/
theorem readHeader_of_run {α : Type} {max : Nat} {parse : Parser α} (hp : Incremental parse)
    {wire payload : Bytes} {t : α} (hmax : FitsMax max parse (wire ++ payload))
    (hrun : parse.run (wire ++ payload) = .ok (t, payload)) {reads : List Bytes}
    (hcut : IsCut (wire ++ payload) reads) :
    ∃ leftover unread, readHeader max parse reads = .ok ((t, leftover), unread) ∧
      leftover ++ unread.flatten = payload := by
  have hout := readHeader_outcome hp hmax hcut
  rw [streamOutcome_of_ok hrun] at hout
  cases hread : readHeader max parse reads with
  | error e =>
    rw [hread] at hout
    cases hout
  | ok r =>
    obtain ⟨⟨t', leftover⟩, unread⟩ := r
    rw [hread] at hout
    obtain ⟨rfl, hpayload⟩ := Prod.mk.inj (Except.ok.inj hout)
    exact ⟨leftover, unread, rfl, hpayload⟩

section

variable {base64Decode : List Char → Option Bytes} {bindUdp : Except IoError UInt16} {ctx : Ctx}
  {payload : Bytes} {reads : List Bytes}

theorem StreamInbound.trojanDecode_encode {users : Trojan.TrojanUsers} {key : Vector UInt8 56}
    {user : Trojan.TrojanUser} {dest : Destination} {wire : Bytes}
    (huser : users.get key.toList = some user) (hnet : dest.network = .tcp)
    (hcanon : dest.address.Canonical) (hwire : Trojan.encode key dest = .ok wire)
    (hcut : IsCut (wire ++ payload) reads) :
    ∃ leftover unread, leftover ++ unread.flatten = payload ∧ trojanDecode users ctx reads =
      .ok (.relays ⟨[], sniffOverride dest leftover, ctx.ofUser user.email, leftover, unread⟩) := by
  obtain ⟨w, hw, hrun⟩ := Trojan.parse_encode huser (.inl hnet) hcanon payload
  obtain rfl := Except.ok.inj (hwire.symm.trans hw)
  have hmax : FitsMax maxHeader (Trojan.parse users) (wire ++ payload) :=
    fitsMax_of_bounded (Trojan.bounded_parse users) (by decide) _
  obtain ⟨leftover, unread, hread, hpayload⟩ :=
    readHeader_of_run (Trojan.incremental_parse users) hmax hrun hcut
  refine ⟨leftover, unread, hpayload, ?_⟩
  simp [trojanDecode, hread, bind, Except.bind, pure, Except.pure, hnet]

theorem StreamInbound.vlessDecode_encode {users : Vless.VlessUsers} {id : Vector UInt8 16}
    {user : Vless.VlessUser} {addons wire : Bytes} {dest : Destination}
    (huser : users.get id.toList = some user) (haddons : addons.length ≤ 255)
    (hnet : dest.network = .tcp) (hcanon : dest.address.Canonical)
    (hwire : Vless.encode id addons (.tcp dest) = .ok wire)
    (hcut : IsCut (wire ++ payload) reads) :
    ∃ leftover unread, leftover ++ unread.flatten = payload ∧ vlessDecode users ctx reads =
      .ok (.relays
        ⟨[0, 0], sniffOverride dest leftover, ctx.ofUser user.email, leftover, unread⟩) := by
  obtain ⟨w, hw, hrun⟩ := Vless.parse_encode huser haddons
    (show (Vless.VlessReq.tcp dest).Encodable from ⟨hnet, hcanon⟩) payload
  obtain rfl := Except.ok.inj (hwire.symm.trans hw)
  have hmax : FitsMax maxHeader (Vless.parse users) (wire ++ payload) :=
    fitsMax_of_bounded (Vless.bounded_parse users) (by decide) _
  obtain ⟨leftover, unread, hread, hpayload⟩ :=
    readHeader_of_run (Vless.incremental_parse users) hmax hrun hcut
  refine ⟨leftover, unread, hpayload, ?_⟩
  simp [vlessDecode, hread, bind, Except.bind, pure, Except.pure]

theorem parseRequest_encodeRequest {method target version : List Char} {lines : List (List Char)}
    (hline : Unbroken '\r' '\n' (method ++ ' ' :: target ++ ' ' :: version))
    (hlines : ∀ l ∈ lines, Unbroken '\r' '\n' l ∧ l ≠ []) (hmethod : ' ' ∉ method)
    (htarget : ' ' ∉ target) :
    Http.parseRequest (Http.encodeRequest (method ++ ' ' :: target ++ ' ' :: version) lines) =
      .ok ⟨method ++ ' ' :: target ++ ' ' :: version, method, target, version, lines⟩ := by
  have hsplit := Http.splitLines_encodeRequest hline hlines
  have hparts : Http.splitn ' ' 3 (method ++ ' ' :: target ++ ' ' :: version) =
      [method, target, version] := Http.splitn_three.mpr ⟨hmethod, htarget, rfl⟩
  have hheaders : (lines ++ [[], []]).takeWhile (· ≠ []) = lines := by
    rw [List.takeWhile_append_of_pos fun l hl => decide_eq_true (hlines l hl).2]
    simp
  unfold Http.parseRequest Http.encodeRequest Http.textBytes
  rw [fromUtf8_asBytes]
  simp only [String.toList_ofList]
  rw [hsplit]
  simp only
  rw [hparts, hheaders]

/-- `CONNECT`. -/
theorem StreamInbound.httpDecode_connect {accounts : List Http.HttpAccount}
    {method target version : List Char} {lines : List (List Char)} {ctx' : Ctx}
    {address : Address} {port : UInt16}
    (hline : Unbroken '\r' '\n' (method ++ ' ' :: target ++ ' ' :: version))
    (hlines : ∀ l ∈ lines, Unbroken '\r' '\n' l ∧ l ≠ []) (hmethod : ' ' ∉ method)
    (htarget : ' ' ∉ target) (hconnect : Http.eqIgnoreCase method "CONNECT" = true)
    (hauth : Http.authenticate base64Decode accounts ctx lines = some ctx')
    (hauthority : Http.parseAuthority target 443 = .ok (address, port))
    (hfits : (Http.encodeRequest (method ++ ' ' :: target ++ ' ' :: version) lines).length ≤
      Http.maxHead)
    (hcut : IsCut (Http.encodeRequest (method ++ ' ' :: target ++ ' ' :: version) lines ++ payload)
      reads) :
    ∃ leftover unread, leftover ++ unread.flatten = payload ∧
      httpDecode base64Decode accounts ctx reads = .ok (.relays
        ⟨connectEstablished, sniffOverride (.tcp address port) leftover, ctx', leftover,
          unread⟩) := by
  obtain ⟨idx, hidx, hend⟩ := Http.findCrlfCrlf_encodeRequest hline hlines
  have hrequest := parseRequest_encodeRequest hline hlines hmethod htarget
  generalize Http.encodeRequest (method ++ ' ' :: target ++ ' ' :: version) lines = head at *
  obtain ⟨-, hfind⟩ := Http.findCrlfCrlf_take hidx
  rw [hend, List.take_length] at hfind
  have hrun : Http.parseHead.run (head ++ payload) = .ok (head, payload) := by
    rw [Http.run_parseHead, hfind]
    simp only
    rw [hend, List.take_left, List.drop_left]
  have hmax : FitsMax Http.maxHead Http.parseHead (head ++ payload) := by
    refine Http.fitsMax_parseHead fun idx' hidx' => ?_
    obtain rfl := Option.some.inj ((hfind payload).symm.trans hidx')
    exact hend ▸ hfits
  obtain ⟨leftover, unread, hread, hpayload⟩ :=
    readHeader_of_run Http.incremental_parseHead hmax hrun hcut
  refine ⟨leftover, unread, hpayload, ?_⟩
  simp [httpDecode, Http.decode, hread, hrequest, hauth, hconnect, hauthority, bind, Except.bind,
    pure, Except.pure, connectEstablished]

/-! ## SOCKS -/

/-- A field of as many bytes as the length byte in front of it says. -/
theorem takes_counted {bs : Bytes} (h : bs.length ≤ 255) :
    Takes (Io.readExact (UInt8.ofNat bs.length).toNat) bs [] bs := by
  rw [UInt8.toNat_ofNat', Nat.mod_eq_of_lt (by omega)]
  exact takes_readExact _ bs

theorem takes_readAddr {address : Address} {port : UInt16} {w : Bytes} (hcanon : address.Canonical)
    (hw : AddrCodec.SOCKS.write address port = .ok w) : Takes readAddr w [] (address, port) := by
  have hdecode : decodeAddr w = pure (address, port) := by
    have hread := read_write AddrCodec.SOCKS hw []
    rw [List.append_nil, reread_canonical hcanon] at hread
    rw [decodeAddr, hread]
    rfl
  have hcollect : ∀ b : Bytes, ∀ front, w = front ++ b →
      Takes (Io.readExact b.length >>= fun b => decodeAddr (front ++ b)) b [] (address, port) := by
    rintro b front rfl
    exact (takes_readExact earlyEof b).bind_silent (hdecode ▸ takes_pure _)
  unfold readAddr
  rcases socks_write_forms hw with ⟨b, rfl, hlen⟩ | ⟨b, rfl, hlen⟩ | ⟨len, b, rfl, hlen⟩
  · refine (takes_readU8 _ ATYP_IPV4).bind ?_
    rw [if_pos rfl, ← hlen]
    exact hcollect b [ATYP_IPV4] rfl
  · refine (takes_readU8 _ ATYP_IPV6).bind ?_
    rw [if_neg (by decide), if_pos rfl, ← hlen]
    exact hcollect b [ATYP_IPV6] rfl
  · refine (takes_readU8 _ ATYP_DOMAIN).bind ?_
    rw [if_neg (by decide), if_neg (by decide), if_pos rfl]
    refine (takes_readU8 _ len).bind ?_
    rw [← hlen]
    exact hcollect b [ATYP_DOMAIN, len] rfl

theorem takes_readRequest {address : Address} {port : UInt16} {rsv : UInt8} {w : Bytes}
    (hcanon : address.Canonical) (hw : AddrCodec.SOCKS.write address port = .ok w) :
    Takes readRequest ([VERSION5, CMD_CONNECT, rsv] ++ w) [] (CMD_CONNECT, address, port) := by
  have haddr : Takes (readAddr >>= fun addr => pure (CMD_CONNECT, addr.1, addr.2)) w []
      (CMD_CONNECT, address, port) := (takes_readAddr hcanon hw).bind_silent (takes_pure _)
  unfold readRequest
  refine (takes_readU8 _ VERSION5).bind ?_
  rw [if_neg (by decide)]
  exact (takes_readU8 _ CMD_CONNECT).bind ((takes_readU8 _ rsv).bind haddr)

theorem Socks.takes_authenticate {s : Socks} {a : SocksAccount} (h : a ∈ s.accounts)
    (huser : (asBytes a.username).length ≤ 255) (hpass : (asBytes a.password).length ≤ 255) :
    Takes s.authenticate ([AUTH_VERSION, UInt8.ofNat (asBytes a.username).length] ++
      asBytes a.username ++ [UInt8.ofNat (asBytes a.password).length] ++ asBytes a.password)
      [AUTH_VERSION, 0x00] () := by
  have hcheck : Takes (s.checkAccount (asBytes a.username) (asBytes a.password)) []
      [AUTH_VERSION, 0x00] () := by
    unfold Socks.checkAccount
    rw [if_neg fun hnone => accountFor_isNone.mp hnone h]
    exact takes_writeAll _
  simp only [List.append_assoc, List.cons_append, List.nil_append]
  unfold Socks.authenticate
  refine (takes_readU8 _ AUTH_VERSION).bind ?_
  rw [if_neg (by decide)]
  refine (takes_readU8 _ _).bind ((takes_counted huser).bind ((takes_readU8 _ _).bind ?_))
  have hlast := (takes_counted hpass).bind (k := s.checkAccount (asBytes a.username)) hcheck
  rwa [List.append_nil] at hlast

theorem Socks.takes_handshake {s : Socks} {methods credentials verdict w : Bytes}
    {address : Address} {port : UInt16} (hmethods : s.expected ∈ methods)
    (hlen : methods.length ≤ 255) (hadmits : s.Admits credentials verdict)
    (hcanon : address.Canonical) (hw : AddrCodec.SOCKS.write address port = .ok w) (rsv : UInt8) :
    Takes s.handshake ([VERSION5, UInt8.ofNat methods.length] ++ methods ++ credentials ++
      ([VERSION5, CMD_CONNECT, rsv] ++ w)) ([VERSION5, s.expected] ++ verdict)
      (CMD_CONNECT, address, port) := by
  have hrequest : Takes readRequest ([VERSION5, CMD_CONNECT, rsv] ++ w) [] _ :=
    takes_readRequest hcanon hw
  have hnegotiate : Takes (s.negotiate methods) (credentials ++ ([VERSION5, CMD_CONNECT, rsv] ++ w))
      ([VERSION5, s.expected] ++ verdict) (CMD_CONNECT, address, port) := by
    unfold Socks.negotiate
    rw [if_neg (by simpa using hmethods)]
    refine (takes_writeAll [VERSION5, s.expected]).bind ?_
    cases hadmits with
    | «open» hnone =>
      rw [expected_eq, if_pos hnone, if_neg (by decide)]
      exact hrequest
    | account h huser hpass =>
      rw [expected_eq, if_neg (List.ne_nil_of_mem h), if_pos rfl]
      exact (Socks.takes_authenticate h huser hpass).bind hrequest
  simp only [List.append_assoc, List.cons_append, List.nil_append]
  unfold Socks.handshake
  refine (takes_readU8 _ VERSION5).bind ?_
  rw [if_neg (by decide)]
  exact (takes_readU8 _ _).bind ((takes_counted hlen).bind hnegotiate)

theorem StreamInbound.socksDecode_connect {s : Socks} {methods credentials verdict w : Bytes}
    {rsv : UInt8} {address : Address} {port : UInt16} (hmethods : s.expected ∈ methods)
    (hlen : methods.length ≤ 255) (hadmits : s.Admits credentials verdict)
    (hcanon : address.Canonical) (hw : AddrCodec.SOCKS.write address port = .ok w)
    (hcut : Cut reads) (hreads : reads.flatten = [VERSION5, UInt8.ofNat methods.length] ++
      methods ++ credentials ++ ([VERSION5, CMD_CONNECT, rsv] ++ w) ++ payload) :
    ∃ unread, unread.flatten = payload ∧ socksDecode bindUdp s ctx reads = .ok (.relays
      ⟨[VERSION5, s.expected] ++ verdict ++
        [VERSION5, REP_SUCCESS, 0x00, ATYP_IPV4, 0, 0, 0, 0, 0, 0],
        sniffOverride (.tcp address port) [], ctx, [], unread⟩) := by
  have hreply : Takes (Socks.reply bindUdp (CMD_CONNECT, address, port)) []
      [VERSION5, REP_SUCCESS, 0x00, ATYP_IPV4, 0, 0, 0, 0, 0, 0] (CMD_CONNECT, address, port) := by
    unfold Socks.reply
    rw [if_pos rfl]
    exact (takes_writeAll _).bind (takes_pure _)
  have hdecode := (Socks.takes_handshake hmethods hlen hadmits hcanon hw rsv).bind hreply
  rw [List.append_nil] at hdecode
  obtain ⟨unread, hrun, hunread, hwritten⟩ := hdecode hcut hreads
  refine ⟨unread, hunread, ?_⟩
  have hrun' : (s.decode bindUdp).runOn reads = (.ok (CMD_CONNECT, address, port), unread) := hrun
  have hwritten' : (s.decode bindUdp).writtenOn reads = _ := hwritten
  unfold socksDecode
  rw [hrun', hwritten']
  simp only
  rw [if_pos trivial]

end

/-! ## Tunnels -/

/-- **A tunnel is had by asking.**  A client asks a stream inbound for a tunnel in the
inbound's own format, and sends any payload behind it.  However the stream is cut, `decode`
answers as it should and leaves the stream to `relay_stream`, with the payload whole, for
the user and the target that was asked for, or the domain that the payload read so far puts
in the place of its IP. -/
theorem StreamInbound.decode_of_asks {base64Decode : List Char → Option Bytes}
    (bindUdp : Except IoError UInt16) {inbound : StreamInbound} {ctx ctx' : Ctx}
    {dest : Destination} {wire reply payload : Bytes} {reads : List Bytes}
    (hasks : inbound.Asks base64Decode ctx wire dest ctx' reply)
    (hcut : IsCut (wire ++ payload) reads) :
    ∃ h, inbound.decode base64Decode bindUdp ctx reads = .ok (.relays h) ∧ h.written = reply ∧
      h.target = sniffOverride dest h.leftover ∧ h.ctx = ctx' ∧ h.payload = payload := by
  have hpieces : Cut reads := fun r hr => (hcut.2 r hr).1
  cases hasks with
  | trojan huser hnet hcanon hwire =>
    obtain ⟨leftover, unread, hpayload, hdecode⟩ :=
      StreamInbound.trojanDecode_encode huser hnet hcanon hwire hcut
    exact ⟨_, hdecode, rfl, rfl, rfl, hpayload⟩
  | vless huser haddons hnet hcanon hwire =>
    obtain ⟨leftover, unread, hpayload, hdecode⟩ :=
      StreamInbound.vlessDecode_encode huser haddons hnet hcanon hwire hcut
    exact ⟨_, hdecode, rfl, rfl, rfl, hpayload⟩
  | socks hmethods hlen hadmits hcanon hw =>
    obtain ⟨unread, hpayload, hdecode⟩ :=
      StreamInbound.socksDecode_connect hmethods hlen hadmits hcanon hw hpieces hcut.1
    exact ⟨_, hdecode, rfl, rfl, rfl, hpayload⟩
  | http hline hlines hmethod htarget hconnect hauth hauthority hfits =>
    obtain ⟨leftover, unread, hpayload, hdecode⟩ := StreamInbound.httpDecode_connect hline hlines
      hmethod htarget hconnect hauth hauthority hfits hcut
    exact ⟨_, hdecode, rfl, rfl, rfl, hpayload⟩
  | dokodemo =>
    refine ⟨_, rfl, rfl, ?_, rfl, hcut.1⟩
    exact (sniffOverride_of_none sniff_nil).symm

end XrayRs
