import XrayRs.HeaderRead

/-! # The request headers of the stream inbounds

The header parsers of `proxy/src/vless.rs`, `proxy/src/trojan.rs` and the
request-head parser of `proxy/src/http.rs`, each read through `read_header` with
a limit of 16384 bytes.  A user table is the association list of its insertions,
the latest first, so that a lookup finds what `HashMap::insert` left there. -/

namespace XrayRs

open ByteWords ByteParser

/-- The header limit the three inbounds pass to `read_header`. -/
def maxHeader : Nat := 16384

/-! ## VLESS -/

namespace Vless

/-- `VlessUser`. -/
structure VlessUser where
  id : Vector UInt8 16
  email : String
  level : UInt32

/-- `VlessUsers`: the table keyed by UUID. -/
structure VlessUsers where
  byId : List (Vector UInt8 16 × VlessUser)

/-- `VlessUsers::new`. -/
def VlessUsers.new (users : List (Vector UInt8 16 × String × UInt32)) : VlessUsers :=
  ⟨users.foldl (fun byId (id, email, level) => (id, ⟨id, email, level⟩) :: byId) []⟩

/-- `VlessUsers::get`. -/
def VlessUsers.get (users : VlessUsers) (id : Bytes) : Option VlessUser :=
  if h : id.length = 16 then users.byId.lookup ⟨id.toArray, h⟩ else none

/-- `VlessReq`: a TCP or UDP target, or a mux carrier. -/
inductive VlessReq
  | tcp (dest : Destination)
  | udp (dest : Destination)
  | mux
  deriving DecidableEq

/-- The addon block of `parse`, read and ignored. -/
def takeAddons (addonLen : UInt8) : Parser Bytes :=
  if 0 < addonLen.toNat then take addonLen.toNat else pure []

/-- The command dispatch of `parse` (`CMD_TCP`, `CMD_UDP`, `CMD_MUX`). -/
def parseCommand (cmd : UInt8) (email : String) : Parser (VlessReq × String) :=
  if cmd = 1 then do
    let (address, port) ← AddrCodec.VLESS.read
    return (.tcp (.tcp address port), email)
  else if cmd = 2 then do
    let (address, port) ← AddrCodec.VLESS.read
    return (.udp (.udp address port), email)
  else if cmd = 3 then
    return (.mux, email)
  else
    throw (.protocol "vless command")

/-- `parse` of `vless.rs`. -/
def parse (users : VlessUsers) : Parser (VlessReq × String) := do
  let ver ← takeU8
  if ver ≠ 0 then
    throw (.protocol "vless version")
  else
    let id ← take 16
    match users.get id with
    | none => throw .auth
    | some user =>
      let addonLen ← takeU8
      let _ ← takeAddons addonLen
      let cmd ← takeU8
      parseCommand cmd user.email

theorem incremental_takeAddons (addonLen : UInt8) : Incremental (takeAddons addonLen) := by
  unfold takeAddons
  split
  · exact incremental_take _
  · exact .pure _

theorem incremental_parseCommand (cmd : UInt8) (email : String) :
    Incremental (parseCommand cmd email) := by
  unfold parseCommand
  split
  · exact (incremental_read _).bind fun _ => .pure _
  split
  · exact (incremental_read _).bind fun _ => .pure _
  split
  · exact .pure _
  · exact .throw _

theorem incremental_parse (users : VlessUsers) : Incremental (parse users) := by
  refine incremental_takeU8.bind fun ver => ?_
  split
  · exact .throw _
  refine (incremental_take 16).bind fun id => ?_
  split
  · exact .throw _
  exact incremental_takeU8.bind fun addonLen => (incremental_takeAddons addonLen).bind fun _ =>
    incremental_takeU8.bind fun cmd => incremental_parseCommand cmd _

theorem bounded_takeAddons (addonLen : UInt8) : Bounded 255 (takeAddons addonLen) := by
  have hlen := addonLen.toNat_lt
  unfold takeAddons
  split
  · exact (bounded_take _).mono (by omega)
  · exact (Bounded.pure _).mono (Nat.zero_le _)

theorem bounded_parseCommand (cmd : UInt8) (email : String) :
    Bounded 259 (parseCommand cmd email) := by
  unfold parseCommand
  split
  · exact (bounded_read _).bind fun _ => .pure _
  split
  · exact (bounded_read _).bind fun _ => .pure _
  split
  · exact (Bounded.pure _).mono (Nat.zero_le _)
  · exact (Bounded.throw id).mono (Nat.zero_le _)

/-- The longest VLESS header has 533 bytes. -/
theorem bounded_parse (users : VlessUsers) : Bounded 533 (parse users) := by
  refine bounded_takeU8.bind (n := 532) fun ver => ?_
  split
  · exact (Bounded.throw id).mono (Nat.zero_le _)
  refine (bounded_take 16).bind (n := 516) fun id => ?_
  split
  · exact (Bounded.throw (fun h => h)).mono (Nat.zero_le _)
  exact bounded_takeU8.bind (n := 515) fun addonLen => (bounded_takeAddons addonLen).bind (n := 260)
    fun _ => bounded_takeU8.bind fun cmd => bounded_parseCommand cmd _

/-- The fields of a header before the address: version 0, the UUID, the addons
and the command. -/
def encodeHead (id : Vector UInt8 16) (addons : Bytes) (cmd : UInt8) : Bytes :=
  [0] ++ id.toList ++ [UInt8.ofNat addons.length] ++ addons ++ [cmd]

/-- The header a client sends for a request; a mux carrier has no address. -/
def encode (id : Vector UInt8 16) (addons : Bytes) : VlessReq → Except Error Bytes
  | .tcp dest => do
    let w ← AddrCodec.VLESS.write dest.address dest.port
    return encodeHead id addons 1 ++ w
  | .udp dest => do
    let w ← AddrCodec.VLESS.write dest.address dest.port
    return encodeHead id addons 2 ++ w
  | .mux => .ok (encodeHead id addons 3)

/-- Requests a client can encode: a canonical target of the request's network. -/
def VlessReq.Encodable : VlessReq → Prop
  | .tcp dest => dest.network = .tcp ∧ dest.address.Canonical
  | .udp dest => dest.network = .udp ∧ dest.address.Canonical
  | .mux => True

theorem takeAddons_append {addons : Bytes} (h : addons.length ≤ 255) (rest : Bytes) :
    (takeAddons (UInt8.ofNat addons.length)).run (addons ++ rest) = .ok (addons, rest) := by
  have hnat : (UInt8.ofNat addons.length).toNat = addons.length := by
    rw [UInt8.toNat_ofNat', Nat.mod_eq_of_lt (by omega)]
  rw [takeAddons, hnat]
  split
  · exact take_append rfl _
  · next h0 =>
    obtain rfl := List.length_eq_zero_iff.mp (Nat.eq_zero_of_not_pos h0)
    rfl

/-- The parser up to the command dispatch, on an encoded header. -/
theorem parse_encodeHead {users : VlessUsers} {id : Vector UInt8 16} {user : VlessUser}
    (huser : users.get id.toList = some user) {addons : Bytes} (haddons : addons.length ≤ 255)
    (cmd : UInt8) (rest : Bytes) :
    (parse users).run (encodeHead id addons cmd ++ rest) =
      (parseCommand cmd user.email).run rest := by
  unfold parse encodeHead
  simp only [List.append_assoc, List.cons_append, List.nil_append]
  rw [run_bind_of_ok (takeU8_cons _ _), if_neg (by decide),
    run_bind_of_ok (take_append (by simp) _)]
  simp only [huser]
  rw [run_bind_of_ok (takeU8_cons _ _), run_bind_of_ok (takeAddons_append haddons _),
    run_bind_of_ok (takeU8_cons _ _)]

/-- **The parser recovers an encoded request**, with the user its UUID belongs to
and the payload untouched. -/
theorem parse_encode {users : VlessUsers} {id : Vector UInt8 16} {user : VlessUser}
    (huser : users.get id.toList = some user) {addons : Bytes} (haddons : addons.length ≤ 255)
    {req : VlessReq} (hreq : req.Encodable) (payload : Bytes) :
    ∃ w, encode id addons req = .ok w ∧
      (parse users).run (w ++ payload) = .ok ((req, user.email), payload) := by
  cases req with
  | tcp dest =>
    obtain ⟨network, address, port⟩ := dest
    obtain ⟨hnet, hcan⟩ := hreq
    cases hnet
    obtain ⟨w, hw, hread⟩ := exists_write_read AddrCodec.VLESS port payload
      (fun d => hcan.length_le) (reread_canonical hcan)
    refine ⟨encodeHead id addons 1 ++ w, by rw [encode, hw]; rfl, ?_⟩
    rw [List.append_assoc, parse_encodeHead huser haddons, parseCommand, if_pos rfl,
      run_bind_of_ok hread]
    rfl
  | udp dest =>
    obtain ⟨network, address, port⟩ := dest
    obtain ⟨hnet, hcan⟩ := hreq
    cases hnet
    obtain ⟨w, hw, hread⟩ := exists_write_read AddrCodec.VLESS port payload
      (fun d => hcan.length_le) (reread_canonical hcan)
    refine ⟨encodeHead id addons 2 ++ w, by rw [encode, hw]; rfl, ?_⟩
    rw [List.append_assoc, parse_encodeHead huser haddons, parseCommand, if_neg (by decide),
      if_pos rfl, run_bind_of_ok hread]
    rfl
  | mux =>
    refine ⟨encodeHead id addons 3, rfl, ?_⟩
    rw [parse_encodeHead huser haddons]
    rfl

end Vless

/-! ## Trojan -/

namespace Trojan

/-- `TrojanUser`. -/
structure TrojanUser where
  email : String
  level : UInt32

/-- `TrojanUsers`: the table keyed by `hex(SHA224(password))`. -/
structure TrojanUsers where
  byKey : List (Vector UInt8 56 × TrojanUser)

/-- `TrojanUsers::get`. -/
def TrojanUsers.get (users : TrojanUsers) (key : Bytes) : Option TrojanUser :=
  if h : key.length = 56 then users.byKey.lookup ⟨key.toArray, h⟩ else none

/-- `CMD_UDP`; every other command is served as TCP. -/
def cmdUdp : UInt8 := 3

/-- `parse` of `trojan.rs`. -/
def parse (users : TrojanUsers) : Parser (Destination × String) := do
  let hash ← take 56
  match users.get hash with
  | none => throw .auth
  | some user =>
    let _crlf ← take 2
    let cmd ← takeU8
    let (address, port) ← AddrCodec.TROJAN.read
    let _crlf2 ← take 2
    let network := if cmd = cmdUdp then Network.udp else Network.tcp
    return (⟨network, address, port⟩, user.email)

theorem incremental_parse (users : TrojanUsers) : Incremental (parse users) := by
  refine (incremental_take 56).bind fun hash => ?_
  split
  · exact .throw _
  refine (incremental_take 2).bind fun _ => incremental_takeU8.bind fun cmd => ?_
  exact (incremental_read _).bind fun _ => (incremental_take 2).bind fun _ => .pure _

/-- The longest Trojan header has 320 bytes. -/
theorem bounded_parse (users : TrojanUsers) : Bounded 320 (parse users) := by
  refine (bounded_take 56).bind (n := 264) fun hash => ?_
  split
  · exact (Bounded.throw id).mono (Nat.zero_le _)
  refine (bounded_take 2).bind (n := 262) fun _ => bounded_takeU8.bind (n := 261) fun cmd => ?_
  exact (bounded_read _).bind (n := 2) fun _ => (bounded_take 2).bind fun _ => .pure _

/-- The header a client sends for a destination: its key, the command byte and
the target, each closed by CRLF. -/
def encode (key : Vector UInt8 56) (dest : Destination) : Except Error Bytes := do
  let w ← AddrCodec.TROJAN.write dest.address dest.port
  let cmd : UInt8 := if dest.network = .udp then cmdUdp else 1
  return key.toList ++ [0x0d, 0x0a] ++ [cmd] ++ w ++ [0x0d, 0x0a]

/-- **The parser recovers an encoded destination**, with the user the key belongs
to and the payload untouched. -/
theorem parse_encode {users : TrojanUsers} {key : Vector UInt8 56} {user : TrojanUser}
    (huser : users.get key.toList = some user) {dest : Destination}
    (hnet : dest.network = .tcp ∨ dest.network = .udp) (hcan : dest.address.Canonical)
    (payload : Bytes) :
    ∃ w, encode key dest = .ok w ∧
      (parse users).run (w ++ payload) = .ok ((dest, user.email), payload) := by
  obtain ⟨network, address, port⟩ := dest
  obtain ⟨w, hw, hread⟩ := exists_write_read AddrCodec.TROJAN port ([0x0d, 0x0a] ++ payload)
    (fun d => hcan.length_le) (reread_canonical hcan)
  refine ⟨_, by rw [encode, hw]; rfl, ?_⟩
  unfold parse
  simp only [List.append_assoc]
  rw [run_bind_of_ok (take_append (by simp) _)]
  simp only [huser]
  rw [run_bind_of_ok (take_append (show [0x0d, 0x0a].length = 2 from rfl) _),
    List.singleton_append, run_bind_of_ok (takeU8_cons _ _), run_bind_of_ok hread,
    run_bind_of_ok (take_append (show [0x0d, 0x0a].length = 2 from rfl) _)]
  rcases hnet with h | h <;> simp only at h <;> subst h <;> rfl

end Trojan

/-! ## HTTP -/

namespace Http

/-- `find_crlfcrlf`: the first index of `\\r\\n\\r\\n`. -/
def findCrlfCrlf : Bytes → Option Nat
  | [] => none
  | c :: cs =>
    if (c :: cs).take 4 = [0x0d, 0x0a, 0x0d, 0x0a] then some 0
    else (findCrlfCrlf cs).map (· + 1)

/-- `parse_head`: the head up to and including its terminator.  (The
`checked_add` on an index into the buffer cannot overflow.) -/
def parseHead : Parser Bytes := fun b =>
  match findCrlfCrlf b with
  | some idx => .ok (b.take (idx + 4), b.drop (idx + 4))
  | none => .error (.truncated 1 b.length)

theorem run_parseHead (b : Bytes) : parseHead.run b =
    match findCrlfCrlf b with
    | some idx => .ok (b.take (idx + 4), b.drop (idx + 4))
    | none => .error (.truncated 1 b.length) := rfl

/-- The terminator lies inside the buffer, and is found at the same index
whatever follows it. -/
theorem findCrlfCrlf_take : ∀ {b : Bytes} {idx : Nat}, findCrlfCrlf b = some idx →
    idx + 4 ≤ b.length ∧ ∀ more, findCrlfCrlf (b.take (idx + 4) ++ more) = some idx := by
  intro b
  induction b with
  | nil =>
    intro idx h
    cases h
  | cons c cs ih =>
    intro idx h
    unfold findCrlfCrlf at h
    split at h
    · next hhit =>
      cases h
      have hlen : 4 ≤ (c :: cs).length := by
        have := congrArg List.length hhit
        rw [List.length_take] at this
        simp only [List.length_cons, List.length_nil] at this ⊢
        omega
      refine ⟨by omega, fun more => ?_⟩
      rw [hhit]
      rfl
    · next hmiss =>
      obtain ⟨i, hi, rfl⟩ := Option.map_eq_some_iff.mp h
      obtain ⟨hlen, hfind⟩ := ih hi
      refine ⟨by rw [List.length_cons]; omega, fun more => ?_⟩
      rw [show i + 1 + 4 = (i + 4) + 1 by omega, List.take_succ_cons, List.cons_append]
      unfold findCrlfCrlf
      have hsame : (c :: (cs.take (i + 4) ++ more)).take 4 = (c :: cs).take 4 := by
        simp only [List.take_succ_cons]
        rw [List.take_append_of_le_length (by rw [List.length_take]; omega), List.take_take]
        congr 1
      rw [hsame, if_neg hmiss, hfind]
      rfl

theorem incremental_parseHead : Incremental parseHead where
  ok_local {buf a rest} h := by
    rw [run_parseHead] at h
    cases hidx : findCrlfCrlf buf with
    | none =>
      rw [hidx] at h
      cases h
    | some idx =>
      rw [hidx] at h
      cases h
      refine ⟨buf.take (idx + 4), (List.take_append_drop _ _).symm, fun more => ?_⟩
      obtain ⟨hlen, hfind⟩ := findCrlfCrlf_take hidx
      have htake : (buf.take (idx + 4)).length = idx + 4 := by
        rw [List.length_take]
        omega
      rw [run_parseHead, hfind]
      simp only
      rw [List.take_left' htake, List.drop_left' htake]
  error_final {buf e} h hn := by
    rw [run_parseHead] at h
    cases hidx : findCrlfCrlf buf with
    | none =>
      rw [hidx] at h
      cases h
      exact absurd trivial hn
    | some idx =>
      rw [hidx] at h
      cases h

/-- A head that ends within `max` bytes is found before the limit is. -/
theorem fitsMax_parseHead {max : Nat} {s : Bytes}
    (h : ∀ idx, findCrlfCrlf s = some idx → idx + 4 ≤ max) : FitsMax max parseHead s := by
  intro p e hfront he _ hle
  obtain ⟨more, rfl⟩ := hfront
  rw [run_parseHead] at he ⊢
  cases hs : findCrlfCrlf (p ++ more) with
  | none => exact ⟨1, (p ++ more).length, rfl⟩
  | some idx =>
    -- the terminator lies inside the prefix, which would then have been parsed
    exfalso
    have hidx := h idx hs
    obtain ⟨-, hfind⟩ := findCrlfCrlf_take hs
    have hp : findCrlfCrlf p = some idx := by
      have := hfind (p.drop (idx + 4))
      rwa [List.take_append_of_le_length (by omega), List.take_append_drop] at this
    rw [hp] at he
    cases he

end Http

/-! ## Reading the headers -/

/-- **Header reading does not depend on how the network cuts the stream, and
loses no byte.**  For the VLESS and Trojan parsers with any user table, and for
the HTTP head whose terminator, if any, ends within the limit, every cut of a
stream gives the same outcome, and a success takes off exactly the header.  A
reference encoding followed by any payload is read as the user and the target it
encodes, with the payload intact. -/
theorem header_reading_exact :
    (∀ users s, ReadsExactly maxHeader (Vless.parse users) s) ∧
    (∀ users s, ReadsExactly maxHeader (Trojan.parse users) s) ∧
    (∀ s, (∀ idx, Http.findCrlfCrlf s = some idx → idx + 4 ≤ maxHeader) →
      ReadsExactly maxHeader Http.parseHead s) ∧
    (∀ (users : Vless.VlessUsers) id user addons req payload,
      users.get id.toList = some user → addons.length ≤ 255 → req.Encodable →
      ∃ w, Vless.encode id addons req = .ok w ∧ ∀ reads, IsCut (w ++ payload) reads →
        outcome (readHeader maxHeader (Vless.parse users) reads) =
          .ok ((req, user.email), payload)) ∧
    (∀ (users : Trojan.TrojanUsers) key user dest payload,
      users.get key.toList = some user → (dest.network = .tcp ∨ dest.network = .udp) →
      dest.address.Canonical →
      ∃ w, Trojan.encode key dest = .ok w ∧ ∀ reads, IsCut (w ++ payload) reads →
        outcome (readHeader maxHeader (Trojan.parse users) reads) =
          .ok ((dest, user.email), payload)) := by
  have hvless : ∀ users s, FitsMax maxHeader (Vless.parse users) s := fun users =>
    fitsMax_of_bounded (Vless.bounded_parse users) (by decide)
  have htrojan : ∀ users s, FitsMax maxHeader (Trojan.parse users) s := fun users =>
    fitsMax_of_bounded (Trojan.bounded_parse users) (by decide)
  refine ⟨fun users s => ?_, fun users s => ?_, fun s h => ?_, ?_, ?_⟩
  · exact readsExactly (Vless.incremental_parse users) (hvless users s)
  · exact readsExactly (Trojan.incremental_parse users) (htrojan users s)
  · exact readsExactly Http.incremental_parseHead (Http.fitsMax_parseHead h)
  · intro users id user addons req payload huser haddons hreq
    obtain ⟨w, hw, hparse⟩ := Vless.parse_encode huser haddons hreq payload
    refine ⟨w, hw, fun reads hcut => ?_⟩
    rw [readHeader_outcome (Vless.incremental_parse users) (hvless users _) hcut]
    exact streamOutcome_of_ok hparse
  · intro users key user dest payload huser hnet hcan
    obtain ⟨w, hw, hparse⟩ := Trojan.parse_encode huser hnet hcan payload
    refine ⟨w, hw, fun reads hcut => ?_⟩
    rw [readHeader_outcome (Trojan.incremental_parse users) (htrojan users _) hcut]
    exact streamOutcome_of_ok hparse

end XrayRs
