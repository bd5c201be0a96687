import XrayRs.InboundHeaders
import XrayRs.Shadowsocks

/-! # Inbounds built from a panel node

The panel's value types (`saas/src/api.rs`), the builder that turns a node and its
users into an inbound (`saas/src/builder.rs`, with `kernel/src/uuid.rs`) and the
manager of the running inbounds (`saas/src/inbound_manager.rs`).

A handler is known by its variant and by the entries its user table was made of.
What the builder asks of the machine (the certificate files, the listener) is a
`Host`, which may answer differently at every call. -/

namespace XrayRs.Saas

open Vless

/-! ## Nodes and users -/

/-- `NodeType`. -/
inductive NodeType
  | v2ray
  | vmess
  | vless
  | trojan
  | shadowsocks
  | shadowsocksPlugin
  | dokodemo
  deriving DecidableEq

/-- `NodeType::as_str`. -/
def NodeType.asStr : NodeType → String
  | .v2ray => "V2ray"
  | .vmess => "Vmess"
  | .vless => "Vless"
  | .trojan => "Trojan"
  | .shadowsocks => "Shadowsocks"
  | .shadowsocksPlugin => "Shadowsocks-Plugin"
  | .dokodemo => "dokodemo-door"

/-- `NodeInfo`. -/
structure NodeInfo where
  nodeType : NodeType
  nodeId : Int32
  port : UInt32
  speedLimit : UInt64
  alterId : UInt16
  transportProtocol : String
  host : String
  path : String
  enableTls : Bool
  enableVless : Bool
  vlessFlow : String
  cypherMethod : String
  serverKey : String
  serviceName : String
  authority : String
  header : Option String
  acceptProxyProtocol : Bool
  enableReality : Bool
  deriving DecidableEq

/-- `UserInfo`. -/
structure UserInfo where
  uid : Int32
  email : String
  uuid : String
  passwd : String
  port : UInt32
  alterId : UInt16
  method : String
  speedLimit : UInt64
  deviceLimit : Int32
  deriving DecidableEq

/-- `build_node_tag`: `{NodeType}_{ListenIP}_{Port}`. -/
def buildNodeTag (node : NodeInfo) (listenIp : String) : String :=
  s!"{node.nodeType.asStr}_{listenIp}_{node.port}"

/-- `build_user_tag`: `{node_tag}|{email}|{uid}`. -/
def buildUserTag (nodeTag : String) (user : UserInfo) : String :=
  s!"{nodeTag}|{user.email}|{user.uid}"

/-! ## UUIDs -/

/-- `Uuid`. -/
abbrev Uuid := Vector UInt8 16

namespace Uuid

/-- `Uuid::from_bytes`. -/
def fromBytes (b : Bytes) : Option Uuid :=
  if h : b.length = 16 then some ⟨b.toArray, h⟩ else none

/-- `hex_val`. -/
def hexVal (c : UInt8) : Option UInt8 :=
  if 48 ≤ c ∧ c ≤ 57 then some (c - 48)
  else if 97 ≤ c ∧ c ≤ 102 then some (c - 97 + 10)
  else if 65 ≤ c ∧ c ≤ 70 then some (c - 65 + 10)
  else none

/-- `decode_hex`, for a text of even length. -/
def decodeHex : Bytes → Option Bytes
  | hi :: lo :: hex => do
    let byte := ((← hexVal hi) <<< 4) ||| (← hexVal lo)
    return byte :: (← decodeHex hex)
  | _ => some []

/-- The group loop of `parse_str`: a dash may stand before each group. -/
def parseGroups : List Nat → Bytes → Option Bytes
  | [], _ => some []
  | group :: groups, text => do
    let text := if text.head? = some 45 then text.tail else text
    if text.length < group then none
    else
      let bytes ← decodeHex (text.take group)
      return bytes ++ (← parseGroups groups (text.drop group))

/-- `Uuid::parse_str`: the hexadecimal forms are decoded; another text of up to 30
bytes is mapped to a version 5 UUID by SHA-1 over the zero namespace. -/
def parseStr (sha1 : Bytes → Vector UInt8 20) (s : String) : Option Uuid :=
  let text := asBytes s
  if 32 ≤ text.length ∧ text.length ≤ 36 then (parseGroups [8, 4, 4, 4, 12] text).bind fromBytes
  else if text.length = 0 ∨ 30 < text.length then none
  else
    let digest := (sha1 (List.replicate 16 0 ++ text)).toList.take 16
    let digest := digest.modify 6 fun b : UInt8 => (b &&& 0x0f) ||| 0x50
    fromBytes (digest.modify 8 fun b : UInt8 => (b &&& 0x3f) ||| 0x80)

end Uuid

/-! ## Handlers -/

/-- `Inbound`, with the entries of its user table: credential, user tag, level.  The
kinds that the panel does not serve are `other`. -/
inductive Inbound
  | vless (users : List (Uuid × String × UInt32))
  | vmess (users : List (Uuid × String × UInt32))
  | trojan (users : List (String × String × UInt32))
  | shadowsocks (kind : AeadKind) (users : List (String × String × UInt32))
  | other
  deriving DecidableEq

/-- Why an inbound was not built, in the order of the checks of the builder. -/
inductive BuildError
  | portOutOfRange (port : UInt32)
  | portZero
  | vlessFlow (flow : String)
  | noCipherMethod
  | unsupportedMethod (method : String)
  | shadowsocksPlugin
  | dokodemo
  | reality
  | noCertFiles (certMode : String)
  | reading (file : String)
  | tlsSetup
  | xhttp
  | unsupportedTransport (transportProtocol : String)
  deriving DecidableEq

/-- `is_vless`. -/
def isVless (node : NodeInfo) : Bool := node.enableVless || node.nodeType == .vless

/-- `ss_method`: the method of the node, or that of the first user. -/
def ssMethod (node : NodeInfo) (users : List UserInfo) : Option String :=
  if node.cypherMethod ≠ "" then some node.cypherMethod else users.head?.map (·.method)

section
variable (sha1 : Bytes → Vector UInt8 20)

/-- The loop that `build_vless_users` and `build_vmess_users` share: a user with a
bad UUID is skipped. -/
def buildUuidUsers (users : List UserInfo) (nodeTag : String) : List (Uuid × String × UInt32) :=
  users.filterMap fun u => (Uuid.parseStr sha1 u.uuid).map fun id => (id, buildUserTag nodeTag u, 0)

/-- `build_vless_users`. -/
def buildVlessUsers := buildUuidUsers sha1

/-- `build_vmess_users`: `VmessUsers::new` derives one 16-byte AES key per user, and
a key of that length is always taken. -/
def buildVmessUsers := buildUuidUsers sha1

/-- `build_trojan_users`: the UUID is the password. -/
def buildTrojanUsers (users : List UserInfo) (nodeTag : String) : List (String × String × UInt32) :=
  users.map fun u => (u.uuid, buildUserTag nodeTag u, 0)

/-- `build_ss_user_iter`. -/
def buildSsUserIter (users : List UserInfo) (nodeTag : String) : List (String × String × UInt32) :=
  users.map fun u => (u.passwd, buildUserTag nodeTag u, 0)

/-- `build_inbound_handler`. -/
def buildInboundHandler (node : NodeInfo) (users : List UserInfo) (nodeTag : String) :
    Except BuildError Inbound :=
  match node.nodeType with
  | .v2ray | .vmess | .vless =>
    if isVless node then
      if node.vlessFlow ≠ "" then .error (.vlessFlow node.vlessFlow)
      else .ok (.vless (buildVlessUsers sha1 users nodeTag))
    else .ok (.vmess (buildVmessUsers sha1 users nodeTag))
  | .trojan => .ok (.trojan (buildTrojanUsers users nodeTag))
  | .shadowsocks =>
    match ssMethod node users with
    | none => .error .noCipherMethod
    | some method =>
      match Ss.methodKind method with
      | none => .error (.unsupportedMethod method)
      | some kind => .ok (.shadowsocks kind (buildSsUserIter users nodeTag))
  | .shadowsocksPlugin => .error .shadowsocksPlugin
  | .dokodemo => .error .dokodemo

/-- `apply_users`: the handler with its table swapped; `none` for a kind that the
panel does not serve. -/
def applyUsers (inbound : Inbound) (users : List UserInfo) (nodeTag : String) : Option Inbound :=
  match inbound with
  | .vless _ => some (.vless (buildVlessUsers sha1 users nodeTag))
  | .vmess _ => some (.vmess (buildVmessUsers sha1 users nodeTag))
  | .trojan _ => some (.trojan (buildTrojanUsers users nodeTag))
  | .shadowsocks kind _ => some (.shadowsocks kind (buildSsUserIter users nodeTag))
  | .other => none

/-- The handler's user table is the one built from these users. -/
def Inbound.BuiltFrom (users : List UserInfo) (nodeTag : String) : Inbound → Prop
  | .vless table => table = buildVlessUsers sha1 users nodeTag
  | .vmess table => table = buildVmessUsers sha1 users nodeTag
  | .trojan table => table = buildTrojanUsers users nodeTag
  | .shadowsocks _ table => table = buildSsUserIter users nodeTag
  | .other => False

theorem buildInboundHandler_builtFrom {node : NodeInfo} {users : List UserInfo} {nodeTag : String}
    {handler : Inbound} (h : buildInboundHandler sha1 node users nodeTag = .ok handler) :
    handler.BuiltFrom sha1 users nodeTag := by
  unfold buildInboundHandler at h
  split at h
  iterate 3
    split at h
    · split at h
      · cases h
      · cases h
        rfl
    · cases h
      rfl
  · cases h
    rfl
  · split at h
    · cases h
    · split at h
      · cases h
      · cases h
        rfl
  · cases h
  · cases h

/-- A table that was built from users can be swapped for one built from others. -/
theorem applyUsers_builtFrom {inbound : Inbound} {old : List UserInfo} {nodeTag : String}
    (h : inbound.BuiltFrom sha1 old nodeTag) (users : List UserInfo) :
    ∃ handler, applyUsers sha1 inbound users nodeTag = some handler ∧
      handler.BuiltFrom sha1 users nodeTag := by
  cases inbound with
  | other => exact h.elim
  | vless | vmess | trojan | shadowsocks => exact ⟨_, rfl, rfl⟩

end

/-! ## Streams -/

/-- `CertConfig`: what `build_stream` reads of it. -/
structure CertConfig where
  certMode : String
  certFile : String
  keyFile : String
  deriving DecidableEq

/-- The machine, as the builder and the manager meet it in one call:
`std::fs::read`, `TlsServer::from_pem`, and the listener (`bind_tcp` on the parsed
address). -/
structure Host where
  read : String → Option Bytes
  fromPem : Bytes → Bytes → Bool
  bind : String → UInt16 → Bool

/-- `Security`. -/
inductive Security
  | none
  | tls (certPem keyPem : Bytes)

/-- `TransportKind`. -/
inductive TransportKind
  | raw
  | ws (path : String) (host : Option String)
  | httpUpgrade (path : String) (host : Option String)
  | grpc (serviceName : String)

/-- `StreamConfig`. -/
structure StreamConfig where
  security : Security
  transport : TransportKind

/-- The security part of `build_stream`. -/
def buildSecurity (host : Host) (node : NodeInfo) (cert : CertConfig) :
    Except BuildError Security :=
  if node.enableTls ∧ cert.certMode ≠ "none" then
    if cert.certFile = "" ∨ cert.keyFile = "" then .error (.noCertFiles cert.certMode)
    else
      match host.read cert.certFile with
      | none => .error (.reading cert.certFile)
      | some certPem =>
        match host.read cert.keyFile with
        | none => .error (.reading cert.keyFile)
        | some keyPem =>
          if host.fromPem certPem keyPem then .ok (.tls certPem keyPem) else .error .tlsSetup
  else .ok .none

/-- The transport part of `build_stream`. -/
def buildTransport (node : NodeInfo) : Except BuildError TransportKind :=
  let host := if node.host = "" then none else some node.host
  if node.transportProtocol ∈ ["tcp", "raw", ""] then .ok .raw
  else if node.transportProtocol ∈ ["ws", "websocket"] then .ok (.ws node.path host)
  else if node.transportProtocol = "httpupgrade" then .ok (.httpUpgrade node.path host)
  else if node.transportProtocol ∈ ["grpc", "gun"] then .ok (.grpc node.serviceName)
  else if node.transportProtocol ∈ ["splithttp", "xhttp"] then .error .xhttp
  else .error (.unsupportedTransport node.transportProtocol)

/-- `build_stream`. -/
def buildStream (host : Host) (node : NodeInfo) (cert : CertConfig) :
    Except BuildError StreamConfig :=
  if node.enableReality then .error .reality
  else do
    let security ← buildSecurity host node cert
    let transport ← buildTransport node
    return ⟨security, transport⟩

/-- `BuiltInbound`. -/
structure BuiltInbound where
  tag : String
  listen : String
  port : UInt16
  stream : StreamConfig
  handler : Inbound

/-- `build_inbound`. -/
def buildInbound (sha1 : Bytes → Vector UInt8 20) (host : Host) (node : NodeInfo)
    (users : List UserInfo) (listenIp : String) (cert : CertConfig) :
    Except BuildError BuiltInbound :=
  if 65535 < node.port then .error (.portOutOfRange node.port)
  else if node.port = 0 then .error .portZero
  else do
    let tag := buildNodeTag node listenIp
    let handler ← buildInboundHandler sha1 node users tag
    let stream ← buildStream host node cert
    return ⟨tag, listenIp, node.port.toUInt16, stream, handler⟩

/-- **What `build_inbound` returns**: the inbound of the node's tag, with a table
built from the users. -/
theorem buildInbound_eq_ok {sha1 : Bytes → Vector UInt8 20} {host : Host} {node : NodeInfo}
    {users : List UserInfo} {listenIp : String} {cert : CertConfig} {built : BuiltInbound}
    (h : buildInbound sha1 host node users listenIp cert = .ok built) :
    built.tag = buildNodeTag node listenIp ∧ built.handler.BuiltFrom sha1 users built.tag := by
  unfold buildInbound at h
  by_cases hrange : 65535 < node.port
  · rw [if_pos hrange] at h
    cases h
  rw [if_neg hrange] at h
  by_cases hzero : node.port = 0
  · rw [if_pos hzero] at h
    cases h
  rw [if_neg hzero] at h
  dsimp only at h
  cases hhandler : buildInboundHandler sha1 node users (buildNodeTag node listenIp) with
  | error e =>
    rw [hhandler] at h
    cases h
  | ok handler =>
    cases hstream : buildStream host node cert with
    | error e =>
      rw [hhandler, hstream] at h
      cases h
    | ok stream =>
      rw [hhandler, hstream] at h
      cases h
      exact ⟨rfl, buildInboundHandler_builtFrom sha1 hhandler⟩

/-! ## The manager -/

/-- A running inbound, with the controller that added it. -/
structure Running (ι : Type) where
  handler : Inbound
  owner : ι

/-- `InboundManager`: the running inbounds by tag. -/
structure InboundManager (ι : Type) where
  running : String → Option (Running ι)

namespace InboundManager

variable {ι : Type}

/-- `InboundManager::new`. -/
def new : InboundManager ι := ⟨fun _ => none⟩

/-- `InboundManager::handler`. -/
def handler (ibm : InboundManager ι) (tag : String) : Option Inbound :=
  (ibm.running tag).map Running.handler

/-- `InboundManager::add`, for the controller `owner`: it fails if the tag is
running or the listener cannot be bound. -/
def add (ibm : InboundManager ι) (host : Host) (owner : ι) (built : BuiltInbound) :
    Option (InboundManager ι) :=
  if (ibm.running built.tag).isSome then none
  else if host.bind built.listen built.port then
    some ⟨Function.update ibm.running built.tag (some ⟨built.handler, owner⟩)⟩
  else none

/-- `InboundManager::remove`. -/
def remove (ibm : InboundManager ι) (tag : String) : InboundManager ι :=
  ⟨Function.update ibm.running tag none⟩

/-- The handler under `tag` swaps its user table: handlers are shared, so the
manager sees the swap. -/
def setHandler (ibm : InboundManager ι) (tag : String) (handler : Inbound) : InboundManager ι :=
  ⟨Function.update ibm.running tag ((ibm.running tag).map ({ · with handler }))⟩

variable {ibm ibm' : InboundManager ι} {host : Host} {owner : ι} {built : BuiltInbound}

/-- **What `add` can do.** -/
theorem add_eq_some (h : ibm.add host owner built = some ibm') :
    ibm.running built.tag = none ∧
      ibm' = ⟨Function.update ibm.running built.tag (some ⟨built.handler, owner⟩)⟩ := by
  unfold add at h
  by_cases hrunning : (ibm.running built.tag).isSome = true
  · rw [if_pos hrunning] at h
    cases h
  rw [if_neg hrunning] at h
  by_cases hbind : host.bind built.listen built.port = true
  · rw [if_pos hbind] at h
    exact ⟨Option.not_isSome_iff_eq_none.mp hrunning, (Option.some.inj h).symm⟩
  · rw [if_neg hbind] at h
    cases h

end InboundManager

end XrayRs.Saas
