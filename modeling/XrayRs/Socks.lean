import XrayRs.AddressCodec
import XrayRs.Dialogue
import XrayRs.ServiceTree

/-! # SOCKS5: the outbound against the inbound

`proxy/src/socks.rs` and the SOCKS part of `proxy/src/outbound.rs`.  The
negotiation is written twice, once for each side of it, with different ways of
reading; each is a `Prog` over the byte stream of its connection.

The outbound of this program is run against its inbound.  One conversation is
written out for every way the negotiation can go (`leads_connected`,
`leads_no_method`, `leads_auth_failed`); what holds of every run then follows. -/

namespace XrayRs

open ByteWords Dialogue StepSystem

/-- A program over the byte stream of a connection. -/
abbrev Io (α : Type) := Prog UInt8 IoError α

/-- `AsyncReadExt::read_exact`. -/
def Io.readExact (n : Nat) : Io Bytes := Prog.readExact earlyEof n

/-- `AsyncReadExt::read_u8`. -/
def Io.readU8 : Io UInt8 := Prog.readU8 ⟨.unexpectedEof, .msg "unexpected end of file"⟩

/-- `AsyncWriteExt::write_all`. -/
def Io.writeAll (bs : Bytes) : Io Unit := Prog.writeAll bs

/-- `Err(io::Error::new(kind, msg))`. -/
def Io.fail {α : Type} (kind : ErrorKind) (msg : String) : Io α := Prog.fail ⟨kind, .msg msg⟩

/-! ## Constants -/

def VERSION5 : UInt8 := 0x05
/-- RFC 1929 user/password subnegotiation version. -/
def AUTH_VERSION : UInt8 := 0x01
def AUTH_NONE : UInt8 := 0x00
def AUTH_PASSWORD : UInt8 := 0x02
def AUTH_NO_MATCH : UInt8 := 0xff
def CMD_CONNECT : UInt8 := 0x01
def CMD_UDP : UInt8 := 0x03
def REP_SUCCESS : UInt8 := 0x00
def REP_CMD_NOT_SUPPORTED : UInt8 := 0x07
def ATYP_IPV4 : UInt8 := 0x01
def ATYP_DOMAIN : UInt8 := 0x03
def ATYP_IPV6 : UInt8 := 0x04

-- the outbound has its own
def SOCKS_VERSION : UInt8 := 0x05
def SOCKS_AUTH_NONE : UInt8 := 0x00
def SOCKS_AUTH_PASSWORD : UInt8 := 0x02
def SOCKS_CMD_CONNECT : UInt8 := 0x01
def SOCKS_ATYP_IPV4 : UInt8 := 0x01
def SOCKS_ATYP_DOMAIN : UInt8 := 0x03
def SOCKS_ATYP_IPV6 : UInt8 := 0x04

/-! ## The inbound -/

/-- `SocksAccount`. -/
structure SocksAccount where
  username : String
  password : String
  deriving DecidableEq

/-- `Socks`; no accounts means no authentication. -/
structure Socks where
  accounts : List SocksAccount

/-- `Socks::account_for`. -/
def Socks.accountFor (s : Socks) (user pass : Bytes) : Option SocksAccount :=
  s.accounts.find? fun a => asBytes a.username == user && asBytes a.password == pass

/-- The collected bytes of an address, decoded by the shared codec. -/
def decodeAddr (raw : Bytes) : Io (Address × UInt16) :=
  Prog.lift <| match AddrCodec.SOCKS.read.run raw with
    | .ok (addr, _) => .ok addr
    | .error e => .error (.invalidData e)

/-- `read_addr`. -/
def readAddr : Io (Address × UInt16) := do
  let atyp ← Io.readU8
  if atyp = ATYP_IPV4 then
    let b ← Io.readExact 6
    decodeAddr (atyp :: b)
  else if atyp = ATYP_IPV6 then
    let b ← Io.readExact 18
    decodeAddr (atyp :: b)
  else if atyp = ATYP_DOMAIN then
    let len ← Io.readU8
    let b ← Io.readExact (len.toNat + 2)
    decodeAddr (atyp :: len :: b)
  else
    Io.fail .invalidData "socks: bad address type"

/-- The method the inbound requires. -/
def Socks.expected (s : Socks) : UInt8 := if s.accounts.isEmpty then AUTH_NONE else AUTH_PASSWORD

/-- The answer of `Socks::handshake` to a user and a password. -/
def Socks.checkAccount (s : Socks) (uname passwd : Bytes) : Io Unit :=
  if (s.accountFor uname passwd).isNone then do
    Io.writeAll [AUTH_VERSION, 0x01]
    Io.fail .permissionDenied "socks: auth failed"
  else
    Io.writeAll [AUTH_VERSION, 0x00]

/-- The user/password subnegotiation of `Socks::handshake`. -/
def Socks.authenticate (s : Socks) : Io Unit := do
  let uver ← Io.readU8
  if uver ≠ AUTH_VERSION then
    Io.fail .invalidData "socks: bad auth version"
  else
    let ulen ← Io.readU8
    let uname ← Io.readExact ulen.toNat
    let plen ← Io.readU8
    let passwd ← Io.readExact plen.toNat
    s.checkAccount uname passwd

/-- The request of `Socks::handshake`: version, command, reserved byte, address. -/
def readRequest : Io (UInt8 × Address × UInt16) := do
  let rver ← Io.readU8
  if rver ≠ VERSION5 then
    Io.fail .invalidData "socks: bad request version"
  else
    let cmd ← Io.readU8
    let _rsv ← Io.readU8
    let (address, port) ← readAddr
    return (cmd, address, port)

/-- `Socks::handshake` from the choice of a method on. -/
def Socks.negotiate (s : Socks) (methods : Bytes) : Io (UInt8 × Address × UInt16) :=
  if !methods.contains s.expected then do
    Io.writeAll [VERSION5, AUTH_NO_MATCH]
    Io.fail .invalidData "socks: no acceptable auth method"
  else do
    Io.writeAll [VERSION5, s.expected]
    if s.expected = AUTH_PASSWORD then
      s.authenticate
      readRequest
    else
      readRequest

/-- `Socks::handshake`. -/
def Socks.handshake (s : Socks) : Io (UInt8 × Address × UInt16) := do
  let ver ← Io.readU8
  if ver ≠ VERSION5 then
    Io.fail .invalidData "socks: unsupported version"
  else
    let nmethods ← Io.readU8
    let methods ← Io.readExact nmethods.toNat
    s.negotiate methods

/-- `write_reply_port`. -/
def writeReplyPort (rep : UInt8) (port : UInt16) : Io Unit :=
  Io.writeAll ([VERSION5, rep, 0x00, ATYP_IPV4, 0, 0, 0, 0] ++ u16ToBe port)

/-- `write_reply`. -/
def writeReply (rep : UInt8) : Io Unit :=
  Io.writeAll [VERSION5, rep, 0x00, ATYP_IPV4, 0, 0, 0, 0, 0, 0]

/-- The replies of `Socks::decode` to the command of a request.  `bindUdp` is the port
of the relay socket, or why it could not be bound. -/
def Socks.reply (bindUdp : Except IoError UInt16) (request : UInt8 × Address × UInt16) :
    Io (UInt8 × Address × UInt16) :=
  if request.1 = CMD_CONNECT then do
    writeReply REP_SUCCESS
    return request
  else if request.1 = CMD_UDP then
    match bindUdp with
    | .error e => do
      writeReply REP_CMD_NOT_SUPPORTED
      Prog.fail e
    | .ok bndPort => do
      writeReplyPort REP_SUCCESS bndPort
      return request
  else do
    writeReply REP_CMD_NOT_SUPPORTED
    Io.fail .invalidData "socks: unsupported command"

/-- `Socks::decode`, up to where the stream is handed to the relay: the handshake,
then the reply to the command. -/
def Socks.decode (s : Socks) (bindUdp : Except IoError UInt16) :
    Io (UInt8 × Address × UInt16) :=
  s.handshake >>= Socks.reply bindUdp

/-! ## The outbound -/

/-- `discard_socks_bound_addr`. -/
def discardSocksBoundAddr (atyp : UInt8) : Io Unit :=
  if atyp = SOCKS_ATYP_IPV4 then do
    let _ ← Io.readExact 6
    return ()
  else if atyp = SOCKS_ATYP_IPV6 then do
    let _ ← Io.readExact 18
    return ()
  else if atyp = SOCKS_ATYP_DOMAIN then do
    let len ← Io.readExact 1
    match len.head? with
    | none => Io.fail .invalidData "socks domain length"
    | some n =>
      let _ ← Io.readExact (n.toNat + 2)
      return ()
  else
    Io.fail .invalidData "socks outbound bad reply address type"

/-- The method the outbound offers. -/
def offeredAuth (username password : Bytes) : UInt8 :=
  if username.isEmpty && password.isEmpty then SOCKS_AUTH_NONE else SOCKS_AUTH_PASSWORD

/-- What `socks5_handshake` makes of the answer to its credentials. -/
def readAuthResp : Io Unit := do
  let authResp ← Io.readExact 2
  if authResp.head? ≠ some 0x01 ∨ authResp[1]? ≠ some 0x00 then
    Io.fail .permissionDenied "socks outbound username/password rejected"
  else
    return ()

/-- The user/password subnegotiation of `socks5_handshake`. -/
def sendCredentials (username password : Bytes) : Io Unit :=
  -- `u8::try_from` of the two lengths
  if 255 < username.length then
    Io.fail .invalidInput "socks outbound username is too long"
  else if 255 < password.length then
    Io.fail .invalidInput "socks outbound password is too long"
  else do
    Io.writeAll ([0x01, UInt8.ofNat username.length] ++ username ++
      [UInt8.ofNat password.length] ++ password)
    readAuthResp

/-- The request and the reply of `socks5_handshake`. -/
def sendConnect (dest : Destination) : Io Unit :=
  match AddrCodec.SOCKS.write dest.address dest.port with
  | .error e => Prog.fail (.other e)
  | .ok addr => do
    Io.writeAll ([SOCKS_VERSION, SOCKS_CMD_CONNECT, 0x00] ++ addr)
    let head ← Io.readExact 4
    if head.head? ≠ some SOCKS_VERSION then
      Io.fail .invalidData "socks outbound bad reply version"
    else if head[1]? ≠ some 0x00 then
      Io.fail .permissionDenied "socks outbound connect rejected"
    else
      match head[3]? with
      | none => Io.fail .invalidData "socks reply"
      | some atyp => discardSocksBoundAddr atyp

/-- `socks5_handshake`. -/
def socks5Handshake (dest : Destination) (username password : Bytes) : Io Unit := do
  Io.writeAll [SOCKS_VERSION, 1, offeredAuth username password]
  let resp ← Io.readExact 2
  if resp.head? ≠ some SOCKS_VERSION ∨ resp[1]? ≠ some (offeredAuth username password) then
    Io.fail .permissionDenied "socks outbound auth method rejected"
  else if offeredAuth username password = SOCKS_AUTH_PASSWORD then
    sendCredentials username password
    sendConnect dest
  else
    sendConnect dest

/-! ## The conversations -/

/-- The forms of a written address, as `read_addr` tells them apart. -/
theorem socks_write_forms {a : Address} {port : UInt16} {w : Bytes}
    (hw : AddrCodec.SOCKS.write a port = .ok w) :
    (∃ b : Bytes, w = ATYP_IPV4 :: b ∧ b.length = 6) ∨
    (∃ b : Bytes, w = ATYP_IPV6 :: b ∧ b.length = 18) ∨
    (∃ (len : UInt8) (b : Bytes), w = ATYP_DOMAIN :: len :: b ∧ b.length = len.toNat + 2) := by
  rw [write_eq_map] at hw
  rcases a with (o | o) | d
  · obtain rfl := Except.ok.inj hw
    exact .inl ⟨_, rfl, by simp [u16ToBe]⟩
  · obtain rfl := Except.ok.inj hw
    exact .inr (.inl ⟨_, rfl, by simp [u16ToBe]⟩)
  · by_cases hlen : (asBytes d).length ≤ 255
    · have hd : AddrCodec.SOCKS.writeAddress (.domain d) =
          .ok (3 :: UInt8.ofNat (asBytes d).length :: asBytes d) := if_pos hlen
      rw [hd] at hw
      obtain rfl := Except.ok.inj hw
      refine .inr (.inr ⟨_, _, rfl, ?_⟩)
      rw [UInt8.toNat_ofNat', Nat.mod_eq_of_lt (by omega)]
      simp [u16ToBe]
    · have hd : AddrCodec.SOCKS.writeAddress (.domain d) = .error .badDomain := if_neg hlen
      rw [hd] at hw
      cases hw

section Conversations

variable {α β : Type} {p : Io α} {q : Io β} {up down : Bytes} {last : Duplex UInt8 IoError α β}

/-- The inbound reads an address that the codec wrote. -/
theorem leads_readAddr {k : Address × UInt16 → Io β} {a : Address} {port : UInt16} {w : Bytes}
    (hw : AddrCodec.SOCKS.write a port = .ok w) (hcanon : a.Canonical)
    (h : Leads (.talking p (k (a, port)) up down) last) :
    Leads (.talking p (readAddr >>= k) (w ++ up) down) last := by
  have hdecode : decodeAddr w = pure (a, port) := by
    have hread := read_write AddrCodec.SOCKS hw []
    rw [List.append_nil, reread_canonical hcanon] at hread
    rw [decodeAddr, hread]
    rfl
  unfold readAddr
  rw [Prog.bind_assoc]
  rcases socks_write_forms hw with ⟨b, rfl, hlen⟩ | ⟨b, rfl, hlen⟩ | ⟨len, b, rfl, hlen⟩
  · apply Leads.readU8_right
    rw [if_pos rfl, Prog.bind_assoc]
    apply Leads.read_right hlen
    rw [hdecode]
    exact h
  · apply Leads.readU8_right
    rw [if_neg (by decide), if_pos rfl, Prog.bind_assoc]
    apply Leads.read_right hlen
    rw [hdecode]
    exact h
  · apply Leads.readU8_right
    rw [if_neg (by decide), if_neg (by decide), if_pos rfl, Prog.bind_assoc]
    apply Leads.readU8_right
    rw [Prog.bind_assoc]
    apply Leads.read_right hlen
    rw [hdecode]
    exact h

/-- The inbound reads the request that the outbound sends. -/
theorem leads_readRequest {k : UInt8 × Address × UInt16 → Io β} {dest : Destination} {w : Bytes}
    (hw : AddrCodec.SOCKS.write dest.address dest.port = .ok w)
    (hcanon : dest.address.Canonical)
    (h : Leads (.talking p (k (CMD_CONNECT, dest.address, dest.port)) up down) last) :
    Leads (.talking p (readRequest >>= k)
      ([SOCKS_VERSION, SOCKS_CMD_CONNECT, 0x00] ++ w ++ up) down) last := by
  unfold readRequest
  rw [Prog.bind_assoc]
  apply Leads.readU8_right
  rw [if_neg (by decide), Prog.bind_assoc]
  apply Leads.readU8_right
  rw [Prog.bind_assoc]
  apply Leads.readU8_right
  rw [Prog.bind_assoc]
  exact leads_readAddr hw hcanon h

end Conversations

/-- How a conversation ends: the results of the two programs, nothing unread. -/
abbrev ended (client : Except IoError Unit)
    (server : Except IoError (UInt8 × Address × UInt16)) :
    Duplex UInt8 IoError Unit (UInt8 × Address × UInt16) :=
  .talking (.done client) (.done server) [] []

/-- The request, its reply and the bound address, once the method is settled. -/
theorem leads_request {dest : Destination} {bindUdp : Except IoError UInt16}
    (hcanon : dest.address.Canonical) :
    Leads (.talking (sendConnect dest) (readRequest >>= Socks.reply bindUdp) [] [])
      (ended (.ok ()) (.ok (CMD_CONNECT, dest.address, dest.port))) := by
  obtain ⟨w, hw⟩ := write_eq_ok AddrCodec.SOCKS dest.address dest.port fun d => hcanon.length_le
  simp only [sendConnect, hw]
  apply Leads.write_left
  rw [List.nil_append, ← List.append_nil (_ ++ w)]
  apply leads_readRequest hw hcanon
  unfold Socks.reply
  rw [if_pos rfl]
  apply Leads.write_right
  -- the reply: its head, then the bound address that its type byte announces
  show Leads (.talking _ _ [] ([SOCKS_VERSION, 0x00, 0x00, SOCKS_ATYP_IPV4] ++ _)) _
  refine Leads.read_left (n := 4) rfl ?_
  show Leads (.talking (discardSocksBoundAddr SOCKS_ATYP_IPV4) _ _ ([0, 0, 0, 0, 0, 0] ++ [])) _
  unfold discardSocksBoundAddr
  rw [if_pos rfl]
  exact Leads.read_left (n := 6) rfl (Leads.refl _)

/-- The outbound, with its credentials and a destination, facing the inbound. -/
def socksDialogue (s : Socks) (bindUdp : Except IoError UInt16) (username password : Bytes)
    (dest : Destination) : Duplex UInt8 IoError Unit (UInt8 × Address × UInt16) :=
  .talking (socks5Handshake dest username password) (s.decode bindUdp) [] []

section Negotiation

variable {s : Socks} {bindUdp : Except IoError UInt16} {username password : Bytes}
  {dest : Destination} {last : Duplex UInt8 IoError Unit (UInt8 × Address × UInt16)}

/-- The inbound reads the greeting of the outbound. -/
theorem leads_greeting {p : Io Unit} {k : UInt8 × Address × UInt16 → Io (UInt8 × Address × UInt16)}
    {offered : UInt8} (h : Leads (.talking p (s.negotiate [offered] >>= k) [] []) last) :
    Leads (.talking p (s.handshake >>= k) [SOCKS_VERSION, 1, offered] []) last := by
  unfold Socks.handshake
  rw [Prog.bind_assoc]
  apply Leads.readU8_right
  rw [if_neg (by decide), Prog.bind_assoc]
  apply Leads.readU8_right
  rw [Prog.bind_assoc]
  exact Leads.read_right_all rfl h

/-- The offered method is not the required one: both sides fail. -/
theorem leads_no_method (h : offeredAuth username password ≠ s.expected)
    (hmatch : offeredAuth username password ≠ AUTH_NO_MATCH) :
    Leads (socksDialogue s bindUdp username password dest)
      (ended (.error ⟨.permissionDenied, .msg "socks outbound auth method rejected"⟩)
        (.error ⟨.invalidData, .msg "socks: no acceptable auth method"⟩)) := by
  unfold socksDialogue socks5Handshake Socks.decode
  apply Leads.write_left
  apply leads_greeting
  have hno : (!([offeredAuth username password].contains s.expected)) = true := by
    simp [Ne.symm h]
  unfold Socks.negotiate
  rw [if_pos hno, Prog.bind_assoc]
  apply Leads.write_right
  refine Leads.read_left_all rfl ?_
  rw [if_pos (.inr fun heq => hmatch (Option.some.inj heq).symm)]
  exact Leads.refl _

/-- The offered method is the required one: the negotiation goes on with it. -/
theorem leads_method (h : offeredAuth username password = s.expected)
    (hrest : Leads (.talking
      (if s.expected = AUTH_PASSWORD then sendCredentials username password >>= fun _ =>
        sendConnect dest else sendConnect dest)
      ((if s.expected = AUTH_PASSWORD then s.authenticate >>= fun _ => readRequest
        else readRequest) >>= Socks.reply bindUdp) [] []) last) :
    Leads (socksDialogue s bindUdp username password dest) last := by
  unfold socksDialogue socks5Handshake Socks.decode
  rw [h]
  apply Leads.write_left
  apply leads_greeting
  have hyes : ¬ (!([s.expected].contains s.expected)) = true := by
    simp
  unfold Socks.negotiate
  rw [if_neg hyes, Prog.bind_assoc]
  apply Leads.write_right
  refine Leads.read_left_all rfl ?_
  rw [if_neg (by simp [VERSION5, SOCKS_VERSION])]
  exact hrest

/-- The inbound reads the credentials as they were sent. -/
theorem leads_credentials {k : Unit → Io Unit} {k' : Unit → Io (UInt8 × Address × UInt16)}
    (hu : username.length ≤ 255) (hp : password.length ≤ 255)
    (h : Leads (.talking (readAuthResp >>= k) (s.checkAccount username password >>= k') [] [])
      last) :
    Leads (.talking (sendCredentials username password >>= k) (s.authenticate >>= k') [] [])
      last := by
  have hlen : ∀ {bs : Bytes}, bs.length ≤ 255 → bs.length = (UInt8.ofNat bs.length).toNat := by
    intro bs hle
    rw [UInt8.toNat_ofNat', Nat.mod_eq_of_lt (by omega)]
  unfold sendCredentials Socks.authenticate
  rw [if_neg (by omega), if_neg (by omega), Prog.bind_assoc]
  apply Leads.write_left
  rw [Prog.bind_assoc, List.nil_append, List.append_assoc, List.append_assoc]
  apply Leads.readU8_right
  rw [if_neg (by decide), Prog.bind_assoc]
  apply Leads.readU8_right
  rw [Prog.bind_assoc]
  show Leads (.talking _ _ (username ++ UInt8.ofNat password.length :: password) []) _
  refine Leads.read_right (hlen hu) ?_
  rw [Prog.bind_assoc]
  apply Leads.readU8_right
  rw [Prog.bind_assoc]
  exact Leads.read_right_all (hlen hp) h

/-- The credentials are in the table: both sides go on to the request. -/
theorem leads_admitted (hsome : (s.accountFor username password).isNone = false)
    (hdest : dest.address.Canonical) :
    Leads (.talking (readAuthResp >>= fun _ => sendConnect dest)
        (s.checkAccount username password >>= fun _ => readRequest >>= Socks.reply bindUdp) [] [])
      (ended (.ok ()) (.ok (CMD_CONNECT, dest.address, dest.port))) := by
  unfold Socks.checkAccount readAuthResp
  rw [hsome, if_neg Bool.false_ne_true]
  apply Leads.write_right
  rw [Prog.bind_assoc]
  refine Leads.read_left_all rfl ?_
  exact leads_request hdest

/-- They are not: both sides fail. -/
theorem leads_auth_failed {k : Unit → Io Unit} {k' : Unit → Io (UInt8 × Address × UInt16)}
    (hnone : (s.accountFor username password).isNone = true) :
    Leads (.talking (readAuthResp >>= k) (s.checkAccount username password >>= k') [] [])
      (ended (.error ⟨.permissionDenied, .msg "socks outbound username/password rejected"⟩)
        (.error ⟨.permissionDenied, .msg "socks: auth failed"⟩)) := by
  unfold Socks.checkAccount readAuthResp
  rw [if_pos hnone, Prog.bind_assoc, Prog.bind_assoc]
  apply Leads.write_right
  refine Leads.read_left_all rfl ?_
  exact Leads.refl _

end Negotiation

/-! ## Every run -/

/-- Who is let in: nobody has to say anything, or the pair is in the table. -/
def SocksOutbound.Admitted (ob : SocksOutbound) (s : Socks) : Prop :=
  (s.accounts = [] ∧ ob.username = "" ∧ ob.password = "") ∨
  (¬ (ob.username = "" ∧ ob.password = "") ∧
    (⟨ob.username, ob.password⟩ : SocksAccount) ∈ s.accounts)

theorem accountFor_isNone {s : Socks} {username password : String} :
    (s.accountFor (asBytes username) (asBytes password)).isNone = true ↔
      (⟨username, password⟩ : SocksAccount) ∉ s.accounts := by
  rw [Socks.accountFor, Option.isNone_iff_eq_none, List.find?_eq_none]
  constructor
  · intro h hmem
    exact h _ hmem (by simp)
  · rintro h ⟨u, p⟩ hmem heq
    simp only [Bool.and_eq_true, beq_iff_eq, asBytes_inj] at heq
    obtain ⟨rfl, rfl⟩ := heq
    exact h hmem

/-- The offered method tells whether there are credentials. -/
theorem offeredAuth_eq (ob : SocksOutbound) :
    offeredAuth (asBytes ob.username) (asBytes ob.password) =
      if ob.username = "" ∧ ob.password = "" then SOCKS_AUTH_NONE else SOCKS_AUTH_PASSWORD := by
  have hempty : ∀ t : String, (asBytes t).isEmpty = true ↔ t = "" := by
    intro t
    rw [List.isEmpty_iff]
    exact asBytes_inj (b := "")
  unfold offeredAuth
  simp only [Bool.and_eq_true, hempty]

/-- The required method tells whether there are accounts. -/
theorem expected_eq (s : Socks) :
    s.expected = if s.accounts = [] then AUTH_NONE else AUTH_PASSWORD := by
  unfold Socks.expected
  simp only [List.isEmpty_iff]

section Ends

variable (s : Socks) (bindUdp : Except IoError UInt16) (ob : SocksOutbound) (dest : Destination)

/-- The outbound's side and the inbound's, with the credentials as text. -/
abbrev socksConnect : Duplex UInt8 IoError Unit (UInt8 × Address × UInt16) :=
  socksDialogue s bindUdp (asBytes ob.username) (asBytes ob.password) dest

variable {s ob} (hu : (asBytes ob.username).length ≤ 255)
  (hp : (asBytes ob.password).length ≤ 255)
include hu hp

/-- **Let in**: a conversation in which both sides succeed. -/
theorem leads_success (hdest : dest.address.Canonical) (h : ob.Admitted s) :
    Leads (socksConnect s bindUdp ob dest)
      (ended (.ok ()) (.ok (CMD_CONNECT, dest.address, dest.port))) := by
  have hoffered := offeredAuth_eq ob
  have hexpected := expected_eq s
  rcases h with ⟨hopen, hanon⟩ | ⟨hnamed, hmem⟩
  · rw [if_pos hanon] at hoffered
    rw [if_pos hopen] at hexpected
    apply leads_method (hoffered.trans hexpected.symm)
    rw [hexpected, if_neg (by decide), if_neg (by decide)]
    exact leads_request hdest
  · rw [if_neg hnamed] at hoffered
    rw [if_neg (List.ne_nil_of_mem hmem)] at hexpected
    apply leads_method (hoffered.trans hexpected.symm)
    rw [hexpected, if_pos rfl, if_pos rfl, Prog.bind_assoc]
    apply leads_credentials hu hp
    refine leads_admitted ?_ hdest
    rw [← Bool.not_eq_true, accountFor_isNone]
    exact not_not_intro hmem

/-- **Not let in**: a conversation in which both sides fail. -/
theorem leads_failure (h : ¬ ob.Admitted s) :
    ∃ e e', Leads (socksConnect s bindUdp ob dest) (ended (.error e) (.error e')) := by
  have hoffered := offeredAuth_eq ob
  have hexpected := expected_eq s
  by_cases hmethod : offeredAuth (asBytes ob.username) (asBytes ob.password) = s.expected
  · -- then both are for a password, and the pair is not in the table
    rw [hoffered, hexpected] at hmethod
    by_cases hanon : ob.username = "" ∧ ob.password = ""
    · rw [if_pos hanon] at hmethod
      by_cases hopen : s.accounts = []
      · exact absurd (.inl ⟨hopen, hanon⟩) h
      · rw [if_neg hopen] at hmethod
        exact absurd hmethod (by decide)
    · rw [if_neg hanon] at hmethod hoffered
      rw [← hexpected] at hmethod
      refine ⟨⟨.permissionDenied, .msg "socks outbound username/password rejected"⟩,
        ⟨.permissionDenied, .msg "socks: auth failed"⟩, ?_⟩
      apply leads_method (hoffered.trans hmethod)
      have hpass : s.expected = AUTH_PASSWORD := hmethod.symm
      rw [if_pos hpass, if_pos hpass, Prog.bind_assoc]
      apply leads_credentials hu hp
      exact leads_auth_failed (accountFor_isNone.mpr fun hmem => h (.inr ⟨hanon, hmem⟩))
  · refine ⟨_, _, leads_no_method hmethod ?_⟩
    rw [hoffered]
    split <;> decide

end Ends

/-- **The outbound and the inbound agree.**  In every run, whatever the delays and the
use of the tunnel by the side that is ready first: the negotiation takes a bounded
number of steps and cannot get stuck before both sides have returned; then either
both have succeeded or neither, as the credentials are let in or not; on success
the inbound has learned what the outbound asked for and what is unread is the
payload of the tunnel, none of which is ever consumed; without it neither side
ever reports success. -/
theorem socks_outbound_inbound_agree (s : Socks) (bindUdp : Except IoError UInt16)
    (ob : SocksOutbound) (dest : Destination) (hu : (asBytes ob.username).length ≤ 255)
    (hp : (asBytes ob.password).length ≤ 255) (hdest : dest.address.Canonical) :
    ∃ n, ∀ trace c, Run Step (socksConnect s bindUdp ob dest) trace c →
      talks trace ≤ n ∧
      (¬ c.Returned → ∃ p c', Step c (p, .talk) c') ∧
      (c.left.payload <:+ c.left.out ∧ c.right.payload <:+ c.right.out) ∧
      (c.Returned → (c.left.Succeeded ∧ c.right.Succeeded ↔ ob.Admitted s)) ∧
      (c.Returned → ob.Admitted s →
        c.right.prog = .done (.ok (CMD_CONNECT, dest.address, dest.port)) ∧
        c.left.out = c.left.payload ∧ c.right.out = c.right.payload) ∧
      (¬ ob.Admitted s → ¬ c.left.Succeeded ∧ ¬ c.right.Succeeded) := by
  by_cases hadm : ob.Admitted s
  · obtain ⟨talk, hrun⟩ := leads_success bindUdp dest hu hp hdest hadm
    refine ⟨talk.length, fun trace c h => ?_⟩
    have hset := settles_of_run (talking_extends ..) hrun ⟨⟨_, rfl⟩, ⟨_, rfl⟩⟩ h
    have hl : c.Returned → c.left.prog = .done (.ok ()) := by
      rintro ⟨⟨res, hres⟩, -⟩
      exact hres.trans (hset.left_result res hres).symm
    have hr : c.Returned → c.right.prog = .done (.ok (CMD_CONNECT, dest.address, dest.port)) := by
      rintro ⟨-, ⟨res, hres⟩⟩
      exact hres.trans (hset.right_result res hres).symm
    exact ⟨hset.bounded, hset.live, hset.payload_unread,
      fun hret => iff_of_true ⟨⟨_, hl hret⟩, ⟨_, hr hret⟩⟩ hadm,
      fun hret _ => ⟨hr hret, hset.unread hret⟩, fun hnot => absurd hadm hnot⟩
  · obtain ⟨e, e', talk, hrun⟩ := leads_failure bindUdp dest hu hp hadm
    refine ⟨talk.length, fun trace c h => ?_⟩
    have hset := settles_of_run (talking_extends ..) hrun ⟨⟨_, rfl⟩, ⟨_, rfl⟩⟩ h
    have hl : ¬ c.left.Succeeded := fun ⟨a, ha⟩ => by cases hset.left_result _ ha
    have hr : ¬ c.right.Succeeded := fun ⟨a, ha⟩ => by cases hset.right_result _ ha
    exact ⟨hset.bounded, hset.live, hset.payload_unread,
      fun _ => iff_of_false (fun h => hl h.1) hadm, fun _ h => absurd h hadm, fun _ => ⟨hl, hr⟩⟩

/-- An outbound that is let in by its password, to `10.0.0.1:80`. -/
theorem socks_outbound_inbound_agree_password :
    ∃ n, ∀ trace c, Run Step (socksConnect ⟨[⟨"user", "pass"⟩]⟩ (.ok 0)
        ⟨.tcp (.domain "proxy") 1080, "user", "pass"⟩ (.tcp (.ip (.v4 #v[10, 0, 0, 1])) 80))
        trace c →
      talks trace ≤ n ∧ (c.Returned → c.left.Succeeded ∧ c.right.Succeeded) := by
  obtain ⟨n, h⟩ := socks_outbound_inbound_agree ⟨[⟨"user", "pass"⟩]⟩ (.ok 0)
    ⟨.tcp (.domain "proxy") 1080, "user", "pass"⟩ (.tcp (.ip (.v4 #v[10, 0, 0, 1])) 80)
    (by decide) (by decide) trivial
  refine ⟨n, fun trace c hrun => ?_⟩
  obtain ⟨hbound, -, -, hiff, -⟩ := h trace c hrun
  exact ⟨hbound, fun hret => (hiff hret).mpr (.inr ⟨by decide, by simp⟩)⟩

end XrayRs
