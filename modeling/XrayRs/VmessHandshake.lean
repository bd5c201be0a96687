import XrayRs.CutStream
import XrayRs.VmessKeys

/-! # The VMess handshake

`Vmess::read_header` and `Vmess::decode` (`proxy/src/vmess.rs`), from the bytes of the
stream on.  A request is an authID, the sealed length of its header, a nonce and the
sealed header; the answer is a sealed header of its own, and behind the two go the chunk
bodies.

Where the authID is its user's alone and the replay filter takes it, what a client seals is
read back however the stream is cut, to the last byte and no further
(`sealed_request_read`); and the whole session gives either end what the other sent
(`session_roundtrip`).  Under an ideal cipher nothing else is accepted than what a client
has sealed, whole and unchanged (`accepted_was_sealed`).

The handshake deadline and failing writes are left out. -/

namespace XrayRs.Vmess

open ByteWords Dialogue FramedStream

/-! ## Reading a request -/

section Inbound

variable (P : HeaderPrimitives)

/-- The path of the keys of a request. -/
def requestPath (salt : Bytes) (authid : Block) (nonce : Bytes) : List Bytes :=
  [salt, authid.toList, nonce]

/-- The part of `Vmess::read_header` behind the authID. -/
def readSealed (cmdKey authid : Block) : Prog UInt8 IoError Bytes := do
  let lenct ← Prog.readExact earlyEof 18
  let nonce ← Prog.readExact earlyEof 8
  let lenKey := kdf16 P cmdKey.toList (requestPath saltHdrLenKey authid nonce)
  let lenIv := kdfNonce P cmdKey.toList (requestPath saltHdrLenIv authid nonce)
  let lenPlain ← Prog.lift (aes128gcmOpen P lenKey.toList lenIv lenct authid.toList)
  match lenPlain with
  | hi :: lo :: _ =>
    let payct ← Prog.readExact earlyEof ((u16OfBe hi lo).toNat + 16)
    let payKey := kdf16 P cmdKey.toList (requestPath saltHdrKey authid nonce)
    let payIv := kdfNonce P cmdKey.toList (requestPath saltHdrIv authid nonce)
    Prog.lift (aes128gcmOpen P payKey.toList payIv payct authid.toList)
  | _ => Prog.fail ⟨.invalidData, .msg "vmess hdr len"⟩

/-- `Vmess::read_header` at clock time `now`, with the pieces of the stream it leaves. -/
def Handler.readHeader (h : Handler) (now : Nat) (pieces : List Bytes) :
    Except IoError Request × Handler × List Bytes :=
  match (Prog.readExact earlyEof 16).runOn pieces with
  | (.error e, left) => (.error e, h, left)
  | (.ok bs, left) =>
    let authid := blockAt bs 0
    match h.authenticate P.crc32 authid now with
    | (.error e, h) => (.error e, h, left)
    | (.ok matched, h) =>
      match (readSealed P matched.cmdKey authid).runOn left with
      | (.error e, left) => (.error e, h, left)
      | (.ok header, left) =>
        match parseHeader header with
        | .error e => (.error (.invalidData e), h, left)
        | .ok req => (.ok { req with email := matched.email }, h, left)

/-! ## Answering it -/

/-- `OPT_CHUNK_MASKING` and `OPT_GLOBAL_PADDING`. -/
def optChunkMasking : UInt8 := 0x04
@[inherit_doc optChunkMasking] def optGlobalPadding : UInt8 := 0x08

/-- `response_keys`. -/
def responseKeys (req : Request) : Block × Block :=
  (first16 (P.sha256 req.reqKey.toList), first16 (P.sha256 req.reqIv.toList))

/-- The bytes `write_response_header` writes. -/
def responseHeader (respKey respIv : Block) (respHeader : UInt8) : Except IoError Bytes := do
  let sealedLen ← aes128gcmSeal P (kdf16 P respKey.toList [saltRespLenKey]).toList
    (kdfNonce P respIv.toList [saltRespLenIv]) (u16ToBe 4) []
  let sealedPay ← aes128gcmSeal P (kdf16 P respKey.toList [saltRespKey]).toList
    (kdfNonce P respIv.toList [saltRespIv]) [respHeader, 0, 0, 0] []
  return sealedLen ++ sealedPay

/-- `body_codecs`. -/
def bodyCodecs (req : Request) (respKey respIv : Block) : Except IoError (Body × Body) := do
  let masking := req.option &&& optChunkMasking != 0
  let padding := req.option &&& optGlobalPadding != 0
  let up ← bodyAead P.toPrimitives req.security req.reqKey
  let down ← bodyAead P.toPrimitives req.security respKey
  return (.new P.toPrimitives up req.reqIv masking padding,
    .new P.toPrimitives down respIv masking padding)

/-- What `Vmess::decode` goes on to do with the rest of the stream. -/
inductive Service
  | mux (up down : Body)
  | relay (target : Destination) (up down : Body)

/-- What `Vmess::decode` does for a request: the bytes it writes, and the user with the
service, or an error. -/
def answer (req : Request) : Bytes × Except IoError (String × Service) :=
  let keys := responseKeys P req
  match responseHeader P keys.1 keys.2 req.respHeader with
  | .error e => ([], .error e)
  | .ok written =>
    (written, do
      let (up, down) ← bodyCodecs P req keys.1 keys.2
      if req.mux then return (req.email, .mux up down)
      else if req.dest.network = .udp then
        throw ⟨.unsupported, .msg "vmess udp-direct not supported"⟩
      else return (req.email, .relay req.dest up down))

/-- A call of `Vmess::decode`: what it has written, its result, and the pieces of the
stream it leaves. -/
structure Decoded where
  written : Bytes
  result : Except IoError (String × Service)
  left : List Bytes

/-- `Vmess::decode` at clock time `now`. -/
def Handler.decode (h : Handler) (now : Nat) (pieces : List Bytes) : Decoded × Handler :=
  match h.readHeader P now pieces with
  | (.error e, h, left) => (⟨[], .error e, left⟩, h)
  | (.ok req, h, left) => (⟨(answer P req).1, (answer P req).2, left⟩, h)

end Inbound

/-! ## The client's side -/

/-- **A request as a client has it**: the command key of the user, an authID, a nonce, and
a header, which has its fixed fields and a length that fits two bytes. -/
structure ClientRequest where
  cmdKey : Block
  authid : Block
  nonce : Vector UInt8 8
  header : Bytes
  header_ge : 38 ≤ header.length
  header_lt : header.length < 2 ^ 16

namespace ClientRequest

variable (P : HeaderPrimitives) (r : ClientRequest)

/-- The sealed length of the header. -/
def sealedLen : Except IoError Bytes :=
  aes128gcmSeal P
    (kdf16 P r.cmdKey.toList (requestPath saltHdrLenKey r.authid r.nonce.toList)).toList
    (kdfNonce P r.cmdKey.toList (requestPath saltHdrLenIv r.authid r.nonce.toList))
    (u16ToBe (.ofNat r.header.length)) r.authid.toList

/-- The sealed header. -/
def sealedHeader : Except IoError Bytes :=
  aes128gcmSeal P
    (kdf16 P r.cmdKey.toList (requestPath saltHdrKey r.authid r.nonce.toList)).toList
    (kdfNonce P r.cmdKey.toList (requestPath saltHdrIv r.authid r.nonce.toList))
    r.header r.authid.toList

/-- The bytes of the request. -/
def wire : Except IoError Bytes := do
  let lenct ← r.sealedLen P
  let payct ← r.sealedHeader P
  return r.authid.toList ++ lenct ++ r.nonce.toList ++ payct

/-- **The request can be opened**: its two records are sealed with tags, and open under the
keys they are sealed under. -/
def Opens (lenct payct : Bytes) : Prop :=
  r.sealedLen P = .ok lenct ∧ lenct.length = 18 ∧
    aes128gcmOpen P
      (kdf16 P r.cmdKey.toList (requestPath saltHdrLenKey r.authid r.nonce.toList)).toList
      (kdfNonce P r.cmdKey.toList (requestPath saltHdrLenIv r.authid r.nonce.toList))
      lenct r.authid.toList = .ok (u16ToBe (.ofNat r.header.length)) ∧
    r.sealedHeader P = .ok payct ∧ payct.length = r.header.length + 16 ∧
    aes128gcmOpen P
      (kdf16 P r.cmdKey.toList (requestPath saltHdrKey r.authid r.nonce.toList)).toList
      (kdfNonce P r.cmdKey.toList (requestPath saltHdrIv r.authid r.nonce.toList))
      payct r.authid.toList = .ok r.header

variable {P}

theorem exists_opens (hP : P.Lawful) : ∃ lenct payct, r.Opens P lenct payct := by
  obtain ⟨lenct, hseal, hlen, hopen⟩ := aes128gcmOpen_seal hP
    (kdf16 P r.cmdKey.toList (requestPath saltHdrLenKey r.authid r.nonce.toList)) r.authid.toList
    (length_kdfNonce r.cmdKey.toList (requestPath saltHdrLenIv r.authid r.nonce.toList))
    (show (u16ToBe (.ofNat r.header.length)).length < 2 ^ 16 from (by decide : 2 < 2 ^ 16))
  obtain ⟨payct, hseal', hlen', hopen'⟩ := aes128gcmOpen_seal hP
    (kdf16 P r.cmdKey.toList (requestPath saltHdrKey r.authid r.nonce.toList)) r.authid.toList
    (length_kdfNonce r.cmdKey.toList (requestPath saltHdrIv r.authid r.nonce.toList)) r.header_lt
  exact ⟨lenct, payct, hseal, hlen, hopen, hseal', hlen', hopen'⟩

theorem wire_of_opens {lenct payct : Bytes} (h : r.Opens P lenct payct) :
    r.wire P = .ok (r.authid.toList ++ lenct ++ r.nonce.toList ++ payct) := by
  obtain ⟨hseal, -, -, hseal', -, -⟩ := h
  rw [wire, hseal, hseal']
  rfl

end ClientRequest

section Reading

variable {P : HeaderPrimitives} {r : ClientRequest}

/-- The block at the front of a byte string. -/
theorem blockAt_toList_append (b : Block) (rest : Bytes) : blockAt (b.toList ++ rest) 0 = b := by
  ext i hi
  have hi' : i < b.toList.length := by simpa using hi
  simp only [blockAt, byteAt, List.getD_eq_getElem?_getD, Nat.zero_add, Vector.getElem_ofFn,
    List.getElem?_append_left hi', List.getElem?_eq_getElem hi', Option.getD_some,
    Vector.getElem_toList]

theorem blockAt_toList (b : Block) : blockAt b.toList 0 = b := by
  rw [← List.append_nil b.toList, blockAt_toList_append]

/-- The bytes of a block are sixteen bytes. -/
theorem exists_block {bs : Bytes} (h : bs.length = 16) : ∃ b : Block, bs = b.toList :=
  ⟨⟨bs.toArray, by simpa using h⟩, by simp [Vector.toList]⟩

theorem runOnBytes_lift_ok {α β : Type} {a : α} (k : α → Prog UInt8 IoError β) (bytes : Bytes) :
    (Prog.lift (.ok a) >>= k).runOnBytes bytes = (k a).runOnBytes bytes := rfl

theorem u16OfBe_of_toBe {hi lo : UInt8} {tail : Bytes} {w : UInt16}
    (h : hi :: lo :: tail = u16ToBe w) : u16OfBe hi lo = w := by
  cases h
  exact u16OfBe_toBe w

theorem toNat_u16 {n : Nat} (h : n < 2 ^ 16) : (UInt16.ofNat n).toNat = n := by
  rw [UInt16.toNat_ofNat']
  exact Nat.mod_eq_of_lt h

/-- **Behind the authID** the header of a sealed request is read, and nothing more. -/
theorem readSealed_of_opens {lenct payct : Bytes} (h : r.Opens P lenct payct) (rest : Bytes) :
    (readSealed P r.cmdKey r.authid).runOnBytes
      (lenct ++ r.nonce.toList ++ payct ++ rest) = (.ok r.header, rest) := by
  obtain ⟨-, hlen, hopen, -, hlen', hopen'⟩ := h
  have hnonce : r.nonce.toList.length = 8 := Vector.length_toList
  have hfield : ∃ hi lo, u16ToBe (.ofNat r.header.length) = [hi, lo] ∧
      (u16OfBe hi lo).toNat = r.header.length := by
    refine ⟨_, _, rfl, ?_⟩
    rw [u16OfBe_toBe, toNat_u16 r.header_lt]
  obtain ⟨hi, lo, hbytes, hval⟩ := hfield
  rw [hbytes] at hopen
  refine runOnBytes_readExact_bind.mpr ⟨lenct, r.nonce.toList ++ payct ++ rest, by simp, hlen, ?_⟩
  refine runOnBytes_readExact_bind.mpr ⟨r.nonce.toList, payct ++ rest, by simp, hnonce, ?_⟩
  dsimp only
  rw [hopen, runOnBytes_lift_ok]
  refine runOnBytes_readExact_bind.mpr ⟨payct, rest, rfl, by rw [hval, hlen'], ?_⟩
  rw [hopen']
  rfl

/-- A stream that starts with the bytes of a request that authenticates is read to the end
of the request. -/
theorem readHeader_of_opens {h h' : Handler} {now : Nat} {matched : VmessAuth} {req : Request}
    {lenct payct rest : Bytes} {pieces : List Bytes} (hopens : r.Opens P lenct payct)
    (hcut : Cut pieces)
    (hpieces : pieces.flatten = r.authid.toList ++ lenct ++ r.nonce.toList ++ payct ++ rest)
    (hauth : h.authenticate P.crc32 r.authid now = (.ok matched, h'))
    (hkey : matched.cmdKey = r.cmdKey) (hparse : parseHeader r.header = .ok req) :
    ∃ left, h.readHeader P now pieces = (.ok { req with email := matched.email }, h', left) ∧
      Cut left ∧ left.flatten = rest := by
  have hid : (Prog.readExact earlyEof 16).runOnBytes pieces.flatten =
      (.ok r.authid.toList, lenct ++ r.nonce.toList ++ payct ++ rest) := by
    have hlen : r.authid.toList.length = 16 := Vector.length_toList
    rw [hpieces, runOnBytes_readExact, if_pos (by simp), List.append_assoc, List.append_assoc,
      List.append_assoc, List.take_left' hlen, List.drop_left' hlen]
    simp
  obtain ⟨left, hrun, hleft, hflat⟩ := runOn_of_runOnBytes hcut rfl hid
  obtain ⟨left', hrun', hleft', hflat'⟩ :=
    runOn_of_runOnBytes hleft hflat (readSealed_of_opens hopens rest)
  refine ⟨left', ?_, hleft', hflat'⟩
  rw [Handler.readHeader, hrun]
  simp only [blockAt_toList, hauth, hkey, hrun', hparse]

/-- **The client's user is the one who is found.**  An authID that is fresh, and good for
users with one command key and email only, authenticates them. -/
theorem authenticate_of_timely {crc32 : Bytes → UInt32} {h : Handler} {authid key : Block}
    {email : String} {now : Nat} (htimely : h.users.Timely crc32 authid now)
    (hapart : ∀ u ∈ h.users.users, u.Timely crc32 authid (clockI64 now) →
      u.cmdKey = key ∧ u.email = email)
    (hfresh : (h.replayFilter.checkInsert authid now).1 = true) :
    ∃ matched h', h.authenticate crc32 authid now = (.ok matched, h') ∧
      matched.cmdKey = key ∧ matched.email = email := by
  obtain ⟨matched, hm⟩ := Option.isSome_iff_exists.mp
    ((matchUser_isSome_iff crc32 h.users authid h.activeUsers now).mpr htimely)
  obtain ⟨user, huser, hone, hkey, hemail, -⟩ := matchUser_eq_some hm
  obtain ⟨hk, he⟩ := hapart user (List.mem_of_getElem? huser) (matchOne_eq_some hone)
  have hok : (h.authenticate crc32 authid now).1 = .ok matched := by
    simp [Handler.authenticate, hm, hfresh]
  exact ⟨matched, _, Prod.ext hok rfl, hkey.trans hk, hemail.trans he⟩

/-- The same for the table of these users. -/
theorem authenticate_of_entry {users : List (Vector UInt8 16 × String × UInt32)} {h : Handler}
    (hh : h.users = .new P users) {now : Nat} {authid key : Block}
    {entry : Vector UInt8 16 × String × UInt32} (hentry : entry ∈ users)
    (htimely : (VmessUser.new P entry).Timely P.crc32 authid (clockI64 now))
    (hapart : ∀ e ∈ users, (VmessUser.new P e).Timely P.crc32 authid (clockI64 now) →
      cmdKey P e.1 = key ∧ e.2.1 = entry.2.1)
    (hfresh : (h.replayFilter.checkInsert authid now).1 = true) :
    ∃ matched h', h.authenticate P.crc32 authid now = (.ok matched, h') ∧
      matched.cmdKey = key ∧ matched.email = entry.2.1 := by
  have htable : h.users.Timely P.crc32 authid now := by
    rw [hh]
    exact ⟨_, List.mem_map.mpr ⟨entry, hentry, rfl⟩, htimely⟩
  refine authenticate_of_timely htable ?_ hfresh
  rw [hh]
  intro u hu hu'
  obtain ⟨e, he, rfl⟩ := List.mem_map.mp hu
  exact hapart e he hu'

/-- **A sealed request is read.**  For every user table, handler, clock and request of a
user of the table, with an authID that is good for that user alone and that the replay filter
takes (it does not remember it and is not full), and with a header of the right form: however
the stream is cut, the request is read with the user's email, and what is left is what
follows the request. -/
theorem sealed_request_read (hP : P.Lawful) (users : List (Vector UInt8 16 × String × UInt32))
    {h : Handler} (hh : h.users = .new P users) (now : Nat) (r : ClientRequest)
    {entry : Vector UInt8 16 × String × UInt32} (hentry : entry ∈ users)
    (htimely : (VmessUser.new P entry).Timely P.crc32 r.authid (clockI64 now))
    (hapart : ∀ e ∈ users, (VmessUser.new P e).Timely P.crc32 r.authid (clockI64 now) →
      cmdKey P e.1 = r.cmdKey ∧ e.2.1 = entry.2.1)
    (hfresh : (h.replayFilter.checkInsert r.authid now).1 = true)
    {req : Request} {pad : Bytes} (hform : HeaderOf r.header req pad) :
    ∃ wire, r.wire P = .ok wire ∧ ∀ rest pieces, Cut pieces → pieces.flatten = wire ++ rest →
      ∃ left h', h.readHeader P now pieces = (.ok { req with email := entry.2.1 }, h', left) ∧
        left.flatten = rest := by
  obtain ⟨lenct, payct, hopens⟩ := r.exists_opens hP
  obtain ⟨matched, h', hauth, hmkey, hemail⟩ :=
    authenticate_of_entry hh hentry htimely hapart hfresh
  refine ⟨_, r.wire_of_opens hopens, fun rest pieces hcut hpieces => ?_⟩
  obtain ⟨left, hread, -, hflat⟩ :=
    readHeader_of_opens hopens hcut hpieces hauth hmkey hform.accepted.1
  exact ⟨left, h', by rw [hread, hemail], hflat⟩

end Reading

/-! ## The session -/

section Session

variable (P : HeaderPrimitives)

/-- The response header as a client reads it. -/
def readResponse (req : Request) : Prog UInt8 IoError UInt8 := do
  let keys := responseKeys P req
  let lenct ← Prog.readExact earlyEof 18
  let lenPlain ← Prog.lift (aes128gcmOpen P (kdf16 P keys.1.toList [saltRespLenKey]).toList
    (kdfNonce P keys.2.toList [saltRespLenIv]) lenct [])
  match lenPlain with
  | hi :: lo :: _ =>
    let payct ← Prog.readExact earlyEof ((u16OfBe hi lo).toNat + 16)
    let pay ← Prog.lift (aes128gcmOpen P (kdf16 P keys.1.toList [saltRespKey]).toList
      (kdfNonce P keys.2.toList [saltRespIv]) payct [])
    match pay with
    | respHeader :: _ => return respHeader
    | [] => Prog.fail earlyEof
  | _ => Prog.fail earlyEof

/-- All that one end sends through a body: chunks of the payloads, and the terminal one. -/
def Body.sent (P : Primitives) (b : Body) (rng : Rng) (payloads : List Bytes) :
    Except IoError Bytes := do
  let (chunks, b, rng) ← writeChunks P b rng payloads
  let (terminal, _, _) ← writeTerminal P b rng
  return chunks ++ terminal

variable {P} {r : ClientRequest}

/-- What is sent through a body is read off it to its end. -/
theorem Body.exists_sent {P : Primitives} (hP : P.Lawful) {b : Body} (hb : b.TakesNonce) (rng : Rng)
    (payloads : List Bytes) :
    ∃ bytes xs, b.sent P rng payloads = .ok bytes ∧
      readAll (readChunk P) b bytes = some (xs, .ok ()) ∧ xs.flatten = payloads.flatten := by
  obtain ⟨fs, b₁, rng₁, hwrite, haead, hfst, hframes⟩ := writeChunks_spec hP payloads b rng hb
  obtain ⟨terminal, b₂, rng₂, hterm, -, -, hend⟩ := writeFrame_spec hP b₁ (hb.of_aead_eq haead) rng₁
    (show ([] : Bytes).length ≤ 8192 from Nat.zero_le _)
  refine ⟨wire fs ++ terminal, _, ?_, hframes.readAll_wire (hend rfl), ?_⟩
  · rw [Body.sent, hwrite]
    simp only [writeTerminal, hterm, bind, Except.bind, pure, Except.pure]
  · rw [hfst, flatten_flatMap_chunks (maxPiece_pos _)]

/-- A response header is written, and read back whatever follows. -/
theorem exists_responseHeader (hP : P.Lawful) (req : Request) :
    ∃ written, responseHeader P (responseKeys P req).1 (responseKeys P req).2 req.respHeader =
        .ok written ∧
      ∀ rest, (readResponse P req).runOnBytes (written ++ rest) = (.ok req.respHeader, rest) := by
  obtain ⟨lenct, hseal, hlen, hopen⟩ := aes128gcmOpen_seal hP
    (kdf16 P (responseKeys P req).1.toList [saltRespLenKey]) []
    (length_kdfNonce (responseKeys P req).2.toList [saltRespLenIv])
    (show (u16ToBe 4).length < 2 ^ 16 by decide)
  obtain ⟨payct, hseal', hlen', hopen'⟩ := aes128gcmOpen_seal hP
    (kdf16 P (responseKeys P req).1.toList [saltRespKey]) []
    (length_kdfNonce (responseKeys P req).2.toList [saltRespIv])
    (show [req.respHeader, 0, 0, 0].length < 2 ^ 16 from (by decide : 4 < 2 ^ 16))
  refine ⟨lenct ++ payct, by rw [responseHeader, hseal, hseal']; rfl, fun rest => ?_⟩
  have hfour : (u16OfBe 0 4).toNat = 4 := by decide
  unfold readResponse
  refine runOnBytes_readExact_bind.mpr ⟨lenct, payct ++ rest, by simp, hlen, ?_⟩
  rw [hopen, runOnBytes_lift_ok]
  have hsize : payct.length = (u16OfBe 0 4).toNat + 16 := by
    rw [hlen', hfour]
    rfl
  refine runOnBytes_readExact_bind.mpr ⟨payct, rest, rfl, hsize, ?_⟩
  rw [hopen', runOnBytes_lift_ok]
  rfl

/-- For a security kind that is known there are codecs, which take their nonces. -/
theorem exists_bodyCodecs (P : HeaderPrimitives) {req : Request}
    (hsec : req.security ∈ [secAes128Gcm, secChacha20, secNone]) (respKey respIv : Block) :
    ∃ up down, bodyCodecs P req respKey respIv = .ok (up, down) ∧ up.TakesNonce ∧
      down.TakesNonce := by
  obtain ⟨upAead, hup, hupNonce⟩ := bodyAead_spec P.toPrimitives hsec req.reqKey
  obtain ⟨downAead, hdown, hdownNonce⟩ := bodyAead_spec P.toPrimitives hsec respKey
  refine ⟨_, _, by rw [bodyCodecs, hup, hdown]; rfl, ?_, ?_⟩
  · exact hupNonce
  · exact hdownNonce

/-- A request for TCP is answered with its response header and relayed. -/
theorem answer_relay {P : HeaderPrimitives} (req : Request) {written : Bytes} {up down : Body}
    (hresp : responseHeader P (responseKeys P req).1 (responseKeys P req).2 req.respHeader =
      .ok written)
    (hcodecs : bodyCodecs P req (responseKeys P req).1 (responseKeys P req).2 = .ok (up, down))
    (hmux : req.mux = false) (htcp : req.dest.network = .tcp) :
    answer P req = (written, .ok (req.email, .relay req.dest up down)) := by
  unfold answer
  simp only [hresp, hcodecs, hmux, htcp]
  rfl

/-- **A VMess session.**  For every user table, handler and clock, and every request for
TCP of a user of the table, under one of the three security codes, with an authID whose
timestamp is in the window, that is good for that user alone and that the replay filter takes
(it does not remember it and is not full): however the stream is cut, `decode` of the request
and the client's chunks goes on to relay for the user and the target; the chunks it reads off
the rest are the client's payload; and the client reads back the byte its header announced,
and off the chunks behind it what is sent to it. -/
theorem session_roundtrip (hP : P.Lawful) (users : List (Vector UInt8 16 × String × UInt32))
    {h : Handler} (hh : h.users = .new P users) (now : Nat) (r : ClientRequest)
    {entry : Vector UInt8 16 × String × UInt32} (hentry : entry ∈ users)
    (htimely : (VmessUser.new P entry).Timely P.crc32 r.authid (clockI64 now))
    (hapart : ∀ e ∈ users, (VmessUser.new P e).Timely P.crc32 r.authid (clockI64 now) →
      cmdKey P e.1 = r.cmdKey ∧ e.2.1 = entry.2.1)
    (hfresh : (h.replayFilter.checkInsert r.authid now).1 = true)
    {req : Request} {pad : Bytes} (hform : HeaderOf r.header req pad)
    (hsec : req.security ∈ [secAes128Gcm, secChacha20, secNone]) (htcp : req.dest.network = .tcp)
    (hmux : req.mux = false) :
    ∃ wire up down written, r.wire P = .ok wire ∧
      bodyCodecs P req (responseKeys P req).1 (responseKeys P req).2 = .ok (up, down) ∧
      (∀ rng payloads, ∃ sent, up.sent P.toPrimitives rng payloads = .ok sent ∧
        ∀ pieces, Cut pieces → pieces.flatten = wire ++ sent → ∃ left h' xs,
          h.decode P now pieces = (⟨written, .ok (entry.2.1, .relay req.dest up down), left⟩, h') ∧
          readAll (readChunk P.toPrimitives) up left.flatten = some (xs, .ok ()) ∧
          xs.flatten = payloads.flatten) ∧
      ∀ rng answers, ∃ sent, down.sent P.toPrimitives rng answers = .ok sent ∧
        ∀ pieces, Cut pieces → pieces.flatten = written ++ sent → ∃ left ys,
          (readResponse P req).runOn pieces = (.ok req.respHeader, left) ∧
          readAll (readChunk P.toPrimitives) down left.flatten = some (ys, .ok ()) ∧
          ys.flatten = answers.flatten := by
  obtain ⟨lenct, payct, hopens⟩ := r.exists_opens hP
  obtain ⟨matched, h', hauth, hmkey, hemail⟩ :=
    authenticate_of_entry hh hentry htimely hapart hfresh
  obtain ⟨written, hresp, hback⟩ := exists_responseHeader hP req
  obtain ⟨up, down, hcodecs, hup, hdown⟩ :=
    exists_bodyCodecs P hsec (responseKeys P req).1 (responseKeys P req).2
  refine ⟨_, up, down, written, r.wire_of_opens hopens, hcodecs, fun rng payloads => ?_,
    fun rng answers => ?_⟩
  · obtain ⟨sent, xs, hsent, hall, hflat⟩ := Body.exists_sent hP.body hup rng payloads
    refine ⟨sent, hsent, fun pieces hcut hpieces => ?_⟩
    obtain ⟨left, hheader, -, hleft⟩ :=
      readHeader_of_opens hopens hcut hpieces hauth hmkey hform.accepted.1
    refine ⟨left, h', xs, ?_, by rw [hleft, hall], hflat⟩
    -- the email changes neither the keys nor the codecs
    have hanswer := answer_relay { req with email := entry.2.1 } hresp hcodecs hmux htcp
    rw [Handler.decode, hheader, hemail]
    simp only [hanswer]
  · obtain ⟨sent, ys, hsent, hall, hflat⟩ := Body.exists_sent hP.body hdown rng answers
    refine ⟨sent, hsent, fun pieces hcut hpieces => ?_⟩
    obtain ⟨left, hrun, -, hleft⟩ := runOn_of_runOnBytes hcut hpieces (hback sent)
    exact ⟨left, ys, hrun, by rw [hleft, hall], hflat⟩

end Session

/-! ## A session with the primitives as they are -/

section Example

/-- A user. -/
def oneEntry : Vector UInt8 16 × String × UInt32 := (.replicate 16 7, "user@example", 0)

/-- The primitives, for the authID of this user for the time 1060. -/
def onePrimitives : HeaderPrimitives := referencePrimitives aheadAuthid

/-- The fields of a header for TCP to a target: ChaCha20, standard chunks, padded. -/
def oneFields : Bytes :=
  [1] ++ List.replicate 16 9 ++ List.replicate 16 7 ++ [0x5a, optGlobalPadding, secChacha20, 0, 1] ++
    [0, 80, 1, 1, 1, 1, 1]

/-- The header of these fields. -/
def oneHeader : Bytes := oneFields ++ u32ToBe (fnv1a oneFields).toNat

/-- The request of the header. -/
def oneReq : Request :=
  requestOf oneFields (.tcp (.ip (.v4 #v[1, 1, 1, 1])) 80) false

/-- The request as the user seals it. -/
def oneRequest : ClientRequest where
  cmdKey := cmdKey onePrimitives oneEntry.1
  authid := (VmessUser.new onePrimitives oneEntry).authidCipher aheadAuthid
  nonce := .replicate 8 3
  header := oneHeader
  header_ge := by decide
  header_lt := by decide

theorem oneHeader_form : HeaderOf oneRequest.header oneReq [] := by
  refine ⟨oneFields.take 38, oneFields.drop 38, by decide, by decide +kernel, by decide,
    .inr ⟨.tcp, .ip (.v4 #v[1, 1, 1, 1]), 80, by decide, by decide +kernel, by decide +kernel⟩⟩

theorem oneRequest_timely :
    (VmessUser.new onePrimitives oneEntry).Timely onePrimitives.crc32 oneRequest.authid
      (clockI64 1000) := by
  refine ⟨1060, ?_, by decide, by decide⟩
  have hplain : (VmessUser.new onePrimitives oneEntry).authidCipher.symm oneRequest.authid =
      aheadAuthid := Equiv.symm_apply_apply _ _
  rw [VmessUser.Carries, hplain]
  exact ⟨by decide +kernel, by decide +kernel⟩

theorem oneRequest_fresh (users : VmessUsers) :
    ((Handler.new users).replayFilter.checkInsert oneRequest.authid 1000).1 = true := by
  have hempty : (Handler.new users).replayFilter.prune 1000 = .empty := rfl
  rw [checkInsert_of_notMem (hempty ▸ Finset.notMem_empty _) (hempty ▸ by decide)]

theorem one_apart : ∀ e ∈ [oneEntry], (VmessUser.new onePrimitives e).Timely onePrimitives.crc32
    oneRequest.authid (clockI64 1000) →
    cmdKey onePrimitives e.1 = oneRequest.cmdKey ∧ e.2.1 = oneEntry.2.1 := by
  intro e he _
  rw [List.mem_singleton.mp he]
  exact ⟨rfl, rfl⟩

/-- Bytes one by one. -/
theorem cut_singletons (bytes : Bytes) :
    Cut (bytes.map ([·])) ∧ (bytes.map ([·])).flatten = bytes := by
  refine ⟨fun piece hp => ?_, by induction bytes <;> simp_all⟩
  obtain ⟨b, -, rfl⟩ := List.mem_map.mp hp
  exact List.cons_ne_nil _ _

theorem sealed_request_read_one :
    ∃ wire left h', oneRequest.wire onePrimitives = .ok wire ∧
      (Handler.new (.new onePrimitives [oneEntry])).readHeader onePrimitives 1000
          ((wire ++ [1, 2, 3]).map ([·])) =
        (.ok { oneReq with email := "user@example" }, h', left) ∧ left.flatten = [1, 2, 3] := by
  obtain ⟨wire, hwire, hread⟩ := sealed_request_read (referencePrimitives_lawful aheadAuthid)
    [oneEntry] (show (Handler.new (.new onePrimitives [oneEntry])).users = _ from rfl) 1000
    oneRequest List.mem_cons_self oneRequest_timely one_apart (oneRequest_fresh _) oneHeader_form
  obtain ⟨hcut, hflat⟩ := cut_singletons (wire ++ [1, 2, 3])
  obtain ⟨left, h', hheader, hleft⟩ := hread [1, 2, 3] _ hcut hflat
  exact ⟨wire, left, h', hwire, hheader, hleft⟩

theorem session_roundtrip_one :
    ∃ wire up down written sent left h' xs, oneRequest.wire onePrimitives = .ok wire ∧
      (Handler.new (.new onePrimitives [oneEntry])).decode onePrimitives 1000
          ((wire ++ sent).map ([·])) =
        (⟨written, .ok ("user@example", .relay (.tcp (.ip (.v4 #v[1, 1, 1, 1])) 80) up down), left⟩,
          h') ∧
      readAll (readChunk onePrimitives.toPrimitives) up left.flatten = some (xs, .ok ()) ∧
      xs.flatten = [104, 105] := by
  obtain ⟨wire, up, down, written, hwire, -, hup, -⟩ :=
    session_roundtrip (referencePrimitives_lawful aheadAuthid) [oneEntry]
      (show (Handler.new (.new onePrimitives [oneEntry])).users = _ from rfl) 1000 oneRequest
      List.mem_cons_self oneRequest_timely one_apart (oneRequest_fresh _) oneHeader_form
      (by decide) rfl rfl
  obtain ⟨sent, -, hdecode⟩ := hup (fun _ => 0) [[104], [105]]
  obtain ⟨hcut, hflat⟩ := cut_singletons (wire ++ sent)
  obtain ⟨left, h', xs, hrun, hall, hxs⟩ := hdecode _ hcut hflat
  exact ⟨wire, up, down, written, sent, left, h', xs, hwire, hrun, hall, hxs⟩

end Example

/-! ## What is accepted -/

section Accepted

/-- A call that seals a record of a request. -/
structure GcmCall where
  key : Bytes
  nonce : Bytes
  plain : Bytes
  aad : Bytes
  ct : Bytes
  deriving DecidableEq

variable (P : HeaderPrimitives)

/-- The calls a client makes for a request. -/
def ClientRequest.calls (r : ClientRequest) : List GcmCall :=
  match r.sealedLen P, r.sealedHeader P with
  | .ok lenct, .ok payct =>
    [⟨(kdf16 P r.cmdKey.toList (requestPath saltHdrLenKey r.authid r.nonce.toList)).toList,
        kdfNonce P r.cmdKey.toList (requestPath saltHdrLenIv r.authid r.nonce.toList),
        u16ToBe (.ofNat r.header.length), r.authid.toList, lenct⟩,
      ⟨(kdf16 P r.cmdKey.toList (requestPath saltHdrKey r.authid r.nonce.toList)).toList,
        kdfNonce P r.cmdKey.toList (requestPath saltHdrIv r.authid r.nonce.toList),
        r.header, r.authid.toList, payct⟩]
  | _, _ => []

/-- **An ideal cipher**, for the requests clients have sealed: what opens with an authID for
associated data was sealed for one of them. -/
def Ideal (log : List ClientRequest) : Prop :=
  ∀ (authid : Block) (key nonce ct plain : Bytes),
    P.gcmDecrypt key nonce ct authid.toList = some plain →
      ∃ r ∈ log, ⟨key, nonce, plain, authid.toList, ct⟩ ∈ r.calls P

/-- Sealing adds a tag. -/
def AddsTag : Prop :=
  ∀ key nonce plain aad ct, P.gcmEncrypt key nonce plain aad = some ct →
    ct.length = plain.length + AeadKind.tag

/-- **The key schedule does not collide**: a key it gives for the command key, the authID
and the nonce is the key of a sealed request for these only. -/
def KeysApart (log : List ClientRequest) (cmdKey authid : Block) (nonce : Bytes) : Prop :=
  ∀ r ∈ log, r.authid = authid → ∀ salt ∈ [saltHdrLenKey, saltHdrKey],
    kdf16 P cmdKey.toList (requestPath salt authid nonce) =
        kdf16 P r.cmdKey.toList (requestPath salt authid r.nonce.toList) →
      cmdKey = r.cmdKey ∧ nonce = r.nonce.toList

variable {P} {r : ClientRequest} {log : List ClientRequest}

theorem gcmDecrypt_of_open {key nonce ct aad plain : Bytes}
    (h : aes128gcmOpen P key nonce ct aad = .ok plain) :
    P.gcmDecrypt key nonce ct aad = some plain := by
  unfold aes128gcmOpen at h
  split at h
  · cases h
  · split at h
    · next hdec =>
      cases h
      exact hdec
    · cases h

theorem length_of_seal (htag : AddsTag P) {key nonce plain aad ct : Bytes}
    (h : aes128gcmSeal P key nonce plain aad = .ok ct) : ct.length = plain.length + 16 := by
  unfold aes128gcmSeal at h
  split at h
  · cases h
  · split at h
    · next henc =>
      cases h
      exact htag _ _ _ _ _ henc
    · cases h

/-- The two calls of a request, each told by the record it seals. -/
theorem mem_calls {call : GcmCall} (h : call ∈ r.calls P) :
    (call.key = (kdf16 P r.cmdKey.toList
          (requestPath saltHdrLenKey r.authid r.nonce.toList)).toList ∧
        call.plain = u16ToBe (.ofNat r.header.length) ∧ call.aad = r.authid.toList ∧
        r.sealedLen P = .ok call.ct ∧ ∃ payct, r.sealedHeader P = .ok payct) ∨
      (call.key = (kdf16 P r.cmdKey.toList
          (requestPath saltHdrKey r.authid r.nonce.toList)).toList ∧
        call.plain = r.header ∧ call.aad = r.authid.toList ∧
        r.sealedHeader P = .ok call.ct ∧ ∃ lenct, r.sealedLen P = .ok lenct) := by
  unfold ClientRequest.calls at h
  split at h
  · next lenct payct hlen hpay =>
    rcases List.mem_cons.mp h with rfl | h
    · exact .inl ⟨rfl, rfl, rfl, hlen, payct, hpay⟩
    · rw [List.mem_singleton.mp h]
      exact .inr ⟨rfl, rfl, rfl, hpay, lenct, hlen⟩
  · cases h

variable {cmdKey authid : Block} {nonce : Bytes}

/-- A length record that opens is that of a sealed request. -/
theorem len_was_sealed (hideal : Ideal P log) (htag : AddsTag P)
    (hapart : KeysApart P log cmdKey authid nonce) {iv lenct plain : Bytes}
    (hlen : lenct.length = 18)
    (hopen : aes128gcmOpen P (kdf16 P cmdKey.toList (requestPath saltHdrLenKey authid nonce)).toList
      iv lenct authid.toList = .ok plain) :
    ∃ r ∈ log, r.authid = authid ∧ cmdKey = r.cmdKey ∧ nonce = r.nonce.toList ∧
      plain = u16ToBe (.ofNat r.header.length) ∧ r.sealedLen P = .ok lenct := by
  obtain ⟨r, hr, hcall⟩ := hideal authid _ _ _ _ (gcmDecrypt_of_open hopen)
  rcases mem_calls hcall with ⟨hkey, hplain, haad, hseal, -⟩ | ⟨-, -, -, hseal, -⟩
  · have hid : r.authid = authid := (Vector.toList_inj.mp haad).symm
    rw [hid] at hkey
    obtain ⟨hck, hnonce⟩ := hapart r hr hid saltHdrLenKey List.mem_cons_self
      (Vector.toList_inj.mp hkey)
    exact ⟨r, hr, hid, hck, hnonce, hplain, hseal⟩
  · -- a sealed header is longer
    have hlong : lenct.length = r.header.length + 16 := length_of_seal htag hseal
    have hge := r.header_ge
    omega

/-- A header record that opens, and is not as short as a length, is that of a sealed
request. -/
theorem header_was_sealed (hideal : Ideal P log) (htag : AddsTag P)
    (hapart : KeysApart P log cmdKey authid nonce) {iv payct plain : Bytes}
    (hlen : payct.length ≠ 18)
    (hopen : aes128gcmOpen P (kdf16 P cmdKey.toList (requestPath saltHdrKey authid nonce)).toList
      iv payct authid.toList = .ok plain) :
    ∃ r ∈ log, r.authid = authid ∧ cmdKey = r.cmdKey ∧ nonce = r.nonce.toList ∧
      plain = r.header ∧ r.sealedHeader P = .ok payct := by
  obtain ⟨r, hr, hcall⟩ := hideal authid _ _ _ _ (gcmDecrypt_of_open hopen)
  rcases mem_calls hcall with ⟨-, -, -, hseal, -⟩ | ⟨hkey, hplain, haad, hseal, -⟩
  · exact absurd (length_of_seal htag hseal) hlen
  · have hid : r.authid = authid := (Vector.toList_inj.mp haad).symm
    rw [hid] at hkey
    obtain ⟨hck, hnonce⟩ := hapart r hr hid saltHdrKey (by simp) (Vector.toList_inj.mp hkey)
    exact ⟨r, hr, hid, hck, hnonce, hplain, hseal⟩

/-- What `read_header` has read behind an authID. -/
theorem readSealed_eq_ok {bytes header rest : Bytes}
    (h : (readSealed P cmdKey authid).runOnBytes bytes = (.ok header, rest)) :
    ∃ lenct nonce hi lo tail payct, bytes = lenct ++ nonce ++ payct ++ rest ∧
      lenct.length = 18 ∧ nonce.length = 8 ∧ payct.length = (u16OfBe hi lo).toNat + 16 ∧
      aes128gcmOpen P (kdf16 P cmdKey.toList (requestPath saltHdrLenKey authid nonce)).toList
        (kdfNonce P cmdKey.toList (requestPath saltHdrLenIv authid nonce)) lenct authid.toList =
        .ok (hi :: lo :: tail) ∧
      aes128gcmOpen P (kdf16 P cmdKey.toList (requestPath saltHdrKey authid nonce)).toList
        (kdfNonce P cmdKey.toList (requestPath saltHdrIv authid nonce)) payct authid.toList =
        .ok header := by
  unfold readSealed at h
  obtain ⟨lenct, rest₁, rfl, hlen, h⟩ := runOnBytes_readExact_bind.mp h
  obtain ⟨nonce, rest₂, rfl, hnonce, h⟩ := runOnBytes_readExact_bind.mp h
  dsimp only at h
  cases hopen : aes128gcmOpen P
      (kdf16 P cmdKey.toList (requestPath saltHdrLenKey authid nonce)).toList
      (kdfNonce P cmdKey.toList (requestPath saltHdrLenIv authid nonce)) lenct authid.toList with
  | error e =>
    rw [hopen] at h
    cases h
  | ok plain =>
    rw [hopen, runOnBytes_lift_ok] at h
    match plain, h with
    | hi :: lo :: tail, h =>
      obtain ⟨payct, rest₃, rfl, hpay, h⟩ := runOnBytes_readExact_bind.mp h
      obtain ⟨hopen', rfl⟩ := Prod.mk.inj h
      exact ⟨lenct, nonce, hi, lo, tail, payct, by simp, hlen, hnonce, hpay, hopen, hopen'⟩
    | [_], h => cases h
    | [], h => cases h

/-- Who is authenticated is a user of the table, who takes the authID. -/
theorem authenticate_eq_ok {crc32 : Bytes → UInt32} {h h' : Handler} {now : Nat}
    {matched : VmessAuth} (hauth : h.authenticate crc32 authid now = (.ok matched, h')) :
    ∃ user ∈ h.users.users, user.Timely crc32 authid (clockI64 now) ∧
      matched.cmdKey = user.cmdKey ∧ matched.email = user.email := by
  have hm : h.users.matchUser crc32 authid h.activeUsers now = some matched := by
    unfold Handler.authenticate at hauth
    split at hauth
    · cases hauth
    · next found hfound =>
      simp only at hauth
      split at hauth
      · cases hauth
      · cases hauth
        exact hfound
  obtain ⟨user, huser, hone, hkey, hemail, -⟩ := matchUser_eq_some hm
  exact ⟨user, List.mem_of_getElem? huser, matchOne_eq_some hone, hkey, hemail⟩

/-- What was done for a request that is accepted. -/
theorem readHeader_eq_ok {h h' : Handler} {now : Nat} {req : Request} {pieces left : List Bytes}
    (hcut : Cut pieces) (h₀ : h.readHeader P now pieces = (.ok req, h', left)) :
    ∃ (authid : Block) (matched : VmessAuth) (bytes header : Bytes) (req' : Request),
      pieces.flatten = authid.toList ++ bytes ∧
      h.authenticate P.crc32 authid now = (.ok matched, h') ∧
      (readSealed P matched.cmdKey authid).runOnBytes bytes = (.ok header, left.flatten) ∧
      parseHeader header = .ok req' ∧ req = { req' with email := matched.email } := by
  unfold Handler.readHeader at h₀
  split at h₀
  · cases h₀
  · next bs left₁ hrun =>
    obtain ⟨hid, hleft⟩ := runOnBytes_of_runOn hcut hrun
    rw [runOnBytes_readExact] at hid
    split at hid
    · next hlong =>
      obtain ⟨hbs, hrest⟩ := Prod.mk.inj hid
      obtain ⟨authid, hauthid⟩ := exists_block (List.length_take_of_le hlong)
      rw [hauthid] at hbs
      obtain rfl := Except.ok.inj hbs
      rw [blockAt_toList] at h₀
      simp only at h₀
      split at h₀
      · cases h₀
      · next matched h₁ hauth =>
        split at h₀
        · cases h₀
        · next header left₂ hrun₂ =>
          obtain ⟨hsealed, -⟩ := runOnBytes_of_runOn hleft hrun₂
          split at h₀
          · cases h₀
          · next req' hparse =>
            cases h₀
            exact ⟨authid, matched, left₁.flatten, header, req',
              by rw [← hauthid, ← hrest, List.take_append_drop], hauth, hsealed, hparse, rfl⟩
    · cases (Prod.mk.inj hid).1

/-- **What is accepted was sealed.**  Under an ideal cipher and a key schedule without
collisions, for every handler, clock and stream: a request that is accepted is, byte for
byte, one that a client has sealed under the command key of a user of the table who takes
its authID, and the user is this one. -/
theorem accepted_was_sealed (hideal : Ideal P log) (htag : AddsTag P) {h h' : Handler} {now : Nat}
    {pieces left : List Bytes} (hcut : Cut pieces)
    (hapart : ∀ user ∈ h.users.users,
      KeysApart P log user.cmdKey (blockAt pieces.flatten 0) ((pieces.flatten.drop 34).take 8))
    {req : Request} (haccept : h.readHeader P now pieces = (.ok req, h', left)) :
    ∃ r ∈ log, ∃ user ∈ h.users.users, user.Timely P.crc32 r.authid (clockI64 now) ∧
      r.cmdKey = user.cmdKey ∧
      (∃ wire, r.wire P = .ok wire ∧ pieces.flatten = wire ++ left.flatten) ∧
      ∃ req', parseHeader r.header = .ok req' ∧ req = { req' with email := user.email } := by
  obtain ⟨authid, matched, bytes, header, req', hpieces, hauth, hsealed, hparse, rfl⟩ :=
    readHeader_eq_ok hcut haccept
  obtain ⟨user, huser, htimely, hkey, hemail⟩ := authenticate_eq_ok hauth
  obtain ⟨lenct, nonce, hi, lo, tail, payct, rfl, hlen, hnonce, hpay, hopen, hopen'⟩ :=
    readSealed_eq_ok hsealed
  have hfront : blockAt pieces.flatten 0 = authid := by
    rw [hpieces, blockAt_toList_append]
  have hmid : (pieces.flatten.drop 34).take 8 = nonce := by
    have hlen' : (authid.toList ++ lenct).length = 34 := by simp [hlen]
    rw [hpieces, show authid.toList ++ (lenct ++ nonce ++ payct ++ left.flatten) =
      (authid.toList ++ lenct) ++ (nonce ++ (payct ++ left.flatten)) by simp,
      List.drop_left' hlen', List.take_left' hnonce]
  have hkeys : KeysApart P log matched.cmdKey authid nonce := by
    have hkeys := hapart user huser
    rwa [hfront, hmid, ← hkey] at hkeys
  obtain ⟨r₁, -, hid₁, hck₁, hnonce₁, hplain₁, hseal₁⟩ :=
    len_was_sealed hideal htag hkeys hlen hopen
  -- so the length that was read is that of a header, and too long to be that of a length
  have hsize : (u16OfBe hi lo).toNat = r₁.header.length := by
    rw [u16OfBe_of_toBe hplain₁, toNat_u16 r₁.header_lt]
  have hge := r₁.header_ge
  obtain ⟨r, hr, hid, hck, hnonce', rfl, hseal⟩ :=
    header_was_sealed hideal htag hkeys (by omega) hopen'
  have hheader : r.header.length = r₁.header.length := by
    have hlong : payct.length = r.header.length + 16 := length_of_seal htag hseal
    omega
  have hsame : r.sealedLen P = .ok lenct := by
    rw [← hseal₁, ClientRequest.sealedLen, ClientRequest.sealedLen, hid, hid₁, ← hck, ← hck₁,
      ← hnonce', ← hnonce₁, hheader]
  refine ⟨r, hr, user, huser, hid ▸ htimely, by rw [← hck, hkey],
    ⟨authid.toList ++ lenct ++ nonce ++ payct, ?_, by rw [hpieces]; simp⟩, req', hparse,
    by rw [hemail]⟩
  rw [ClientRequest.wire, hsame, hseal, hid, hnonce']
  rfl

/-- Primitives that open what is in a list of calls only. -/
def listedHeaders (P : HeaderPrimitives) (calls : List GcmCall) : HeaderPrimitives :=
  { P with
    gcmDecrypt := fun key nonce ct aad =>
      (P.gcmDecrypt key nonce ct aad).filter fun plain => ⟨key, nonce, plain, aad, ct⟩ ∈ calls }

theorem kdf_listed (calls : List GcmCall) :
    kdf16 (listedHeaders P calls) = kdf16 P ∧ kdfNonce (listedHeaders P calls) = kdfNonce P := by
  have hkdf := @kdf_congr P (listedHeaders P calls) rfl
  refine ⟨?_, ?_⟩
  · funext key paths
    rw [kdf16, hkdf, kdf16]
  · funext key paths
    rw [kdfNonce, hkdf, kdfNonce]

theorem open_listed {calls : List GcmCall} {key ct aad plain : Bytes}
    (h : aes128gcmOpen P key nonce ct aad = .ok plain)
    (hmem : ⟨key, nonce, plain, aad, ct⟩ ∈ calls) :
    aes128gcmOpen (listedHeaders P calls) key nonce ct aad = .ok plain := by
  have hdec := gcmDecrypt_of_open h
  unfold aes128gcmOpen at h ⊢
  split
  · next hkey =>
    rw [if_pos hkey] at h
    cases h
  · simp only [listedHeaders, hdec, Option.filter_some, decide_eq_true hmem, if_true]

theorem calls_listed (calls : List GcmCall) : r.calls (listedHeaders P calls) = r.calls P := by
  obtain ⟨hkey, hnonce⟩ := @kdf_listed P calls
  unfold ClientRequest.calls ClientRequest.sealedLen ClientRequest.sealedHeader
  rw [hkey, hnonce]
  rfl

theorem ideal_listed : Ideal (listedHeaders P (r.calls P)) [r] := by
  intro authid key nonce ct plain h
  obtain ⟨-, hmem⟩ := Option.filter_eq_some_iff.mp h
  refine ⟨r, List.mem_cons_self, ?_⟩
  rw [calls_listed]
  exact of_decide_eq_true hmem

/-- A request that can be opened still can. -/
theorem opens_listed {lenct payct : Bytes} (h : r.Opens P lenct payct) :
    r.Opens (listedHeaders P (r.calls P)) lenct payct := by
  obtain ⟨hkey, hnonce⟩ := @kdf_listed P (r.calls P)
  obtain ⟨hseal, hlen, hopen, hseal', hlen', hopen'⟩ := h
  unfold ClientRequest.Opens ClientRequest.sealedLen ClientRequest.sealedHeader
  rw [hkey, hnonce]
  refine ⟨hseal, hlen, open_listed hopen ?_, hseal', hlen', open_listed hopen' ?_⟩
  · simp only [ClientRequest.calls, hseal, hseal', List.mem_cons, true_or]
  · simp only [ClientRequest.calls, hseal, hseal', List.mem_cons, true_or, or_true]

theorem accepted_was_sealed_one :
    ∃ (P : HeaderPrimitives) (req : Request) (h' : Handler) (pieces left : List Bytes),
      (Handler.new (.new onePrimitives [oneEntry])).readHeader P 1000 pieces = (.ok req, h', left) ∧
      ∃ r ∈ [oneRequest], ∃ wire, r.wire P = .ok wire ∧ pieces.flatten = wire ++ left.flatten := by
  obtain ⟨lenct, payct, hopens⟩ := oneRequest.exists_opens (referencePrimitives_lawful aheadAuthid)
  have hlisted := opens_listed hopens
  obtain ⟨hcut, hflat⟩ := cut_singletons
    (oneRequest.authid.toList ++ lenct ++ oneRequest.nonce.toList ++ payct)
  have hone : ∀ u ∈ (Handler.new (.new onePrimitives [oneEntry])).users.users,
      u = VmessUser.new onePrimitives oneEntry := fun u hu => List.mem_singleton.mp hu
  obtain ⟨matched, h', hauth, hkey, -⟩ := authenticate_of_timely
    (show VmessUsers.Timely onePrimitives.crc32 (Handler.new (.new onePrimitives [oneEntry])).users
      oneRequest.authid 1000 from ⟨_, List.mem_cons_self, oneRequest_timely⟩)
    (fun u hu _ => by rw [hone u hu]; exact ⟨rfl, rfl⟩) (oneRequest_fresh _)
  obtain ⟨left, hread, -, -⟩ := readHeader_of_opens hlisted hcut
    (hflat.trans (List.append_nil _).symm) hauth hkey oneHeader_form.accepted.1
  -- the nonce of the stream is the nonce of the request
  have hnonce : ((oneRequest.authid.toList ++ lenct ++ oneRequest.nonce.toList ++ payct).drop 34).take
      8 = oneRequest.nonce.toList := by
    have hlen : (oneRequest.authid.toList ++ lenct).length = 34 := by simp [hopens.2.1]
    rw [List.append_assoc _ _ payct, List.drop_left' hlen, List.take_left' Vector.length_toList]
  obtain ⟨r, hr, -, -, -, -, hwire, -⟩ := accepted_was_sealed ideal_listed
    (fun key nonce plain aad ct h => by
      obtain rfl := Option.some.inj h
      exact ReferenceCrypto.length_gcmSeal ..) hcut
    (fun user huser r hr _ _ _ _ => by
      rw [hone user huser, List.mem_singleton.mp hr, hflat, hnonce]
      exact ⟨rfl, rfl⟩) hread
  exact ⟨_, _, h', _, left, hread, r, hr, hwire⟩

end Accepted

end XrayRs.Vmess
