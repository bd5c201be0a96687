import XrayRs.AddressCodec
import XrayRs.SsChunks

/-! # Shadowsocks, outbound against inbound

The byte streams of `SsOutbound::relay` (`proxy/src/outbound.rs`) and of
`Shadowsocks::decode` with the relay it starts (`proxy/src/shadowsocks.rs`).  The
outbound sends a salt, a first chunk with the target and then the data; the
inbound tries the users of its table on the first length record, reads the target
off the first chunk and goes on with `ss_read_chunk`.  The downlink is a salt and
chunks under a subkey of its own.

What one end writes the other reads (`shadowsocks_interoperates`).  Salts are
what `rand::fill` gives, the handshake deadline is left out. -/

namespace XrayRs.Ss

open ByteWords FramedStream

/-! ## Keys and users -/

/-- `SUBKEY_INFO`, `SS_SUBKEY_INFO`. -/
def subkeyInfo : Bytes := asBytes "ss-subkey"

/-- `method_kind`. -/
def methodKind (name : String) : Option AeadKind :=
  if name = "aes-128-gcm" ∨ name = "AEAD_AES_128_GCM" then some .aes128Gcm
  else if name = "aes-256-gcm" ∨ name = "AEAD_AES_256_GCM" then some .aes256Gcm
  else if name = "chacha20-ietf-poly1305" ∨ name = "chacha20-poly1305" ∨
      name = "AEAD_CHACHA20_POLY1305" then some .chaCha20Poly1305
  else if name = "xchacha20-ietf-poly1305" ∨ name = "xchacha20-poly1305" then some .xChaCha20Poly1305
  else none

/-- `SsUser`. -/
structure SsUser where
  master : Bytes
  email : String
  level : UInt32
  deriving DecidableEq

section Model

variable (P : Primitives)

/-- `build_ss_users`. -/
def buildSsUsers (kind : AeadKind) (users : List (String × String × UInt32)) : List SsUser :=
  users.map fun (pw, email, level) => ⟨evpBytesToKey P (asBytes pw) kind.keySize, email, level⟩

/-- The cipher of a master key and a salt: `hkdf_sha1`, then `Aead::new`. -/
def deriveAead (kind : AeadKind) (master salt : Bytes) : Except Error Aead :=
  match hkdfSha1 P master salt subkeyInfo kind.keySize with
  | .error e => .error e
  | .ok subkey => Aead.new kind subkey

/-! ## The inbound -/

/-- The trial decryption of `Shadowsocks::decode`: the first user under whose
subkey the first length record opens, with the cipher, the counter after it and
the record's plaintext. -/
def matchUser (kind : AeadKind) (salt lenct : Bytes) :
    List SsUser → Option (SsUser × Aead × NonceCtr × Bytes)
  | [] => none
  | user :: users =>
    match deriveAead P kind user.master salt with
    | .error _ => matchUser kind salt lenct users
    | .ok aead =>
      let nonce := NonceCtr.new kind.nonceSize
      match aead.open P nonce.bytes lenct with
      | .error _ => matchUser kind salt lenct users
      | .ok lenpt => some (user, aead, nonce.inc, lenpt)

/-- What `Shadowsocks::decode` hands on: the user, the target, the payload behind
it, the uplink cipher with its counter and the rest of the stream; and the salt
it has answered with, and the downlink cipher with its counter. -/
structure Session where
  user : SsUser
  target : Destination
  leftover : Bytes
  aead : Aead
  nonce : NonceCtr
  rest : Bytes
  response : Bytes
  daead : Aead
  dnonce : NonceCtr

/-- `Shadowsocks::decode` on the stream `src`, with `ssalt` the salt it draws. -/
def decode (kind : AeadKind) (users : List SsUser) (ssalt src : Bytes) : Except IoError Session :=
  match readExact kind.keySize src with
  | none => .error earlyEof
  | some (salt, src) =>
    match readExact (2 + tag) src with
    | none => .error earlyEof
    | some (lenct, src) =>
      match matchUser P kind salt lenct users with
      | none => .error ⟨.invalidData, .msg "ss auth failed"⟩
      | some (user, aead, nonce, lenpt) =>
        match chunkLen lenpt with
        | .error e => .error e
        | .ok length =>
          match readExact (length + tag) src with
          | none => .error earlyEof
          | some (payct, rest) =>
            match aead.open P nonce.bytes payct with
            | .error e => .error (.invalidData e)
            | .ok plain =>
              match AddrCodec.SHADOWSOCKS.read.run plain with
              | .error e => .error (.invalidData e)
              | .ok ((address, port), leftover) =>
                match deriveAead P kind user.master ssalt with
                | .error e => .error (.other e)
                | .ok daead =>
                  .ok ⟨user, .tcp address port, leftover, aead, nonce.inc, rest, ssalt, daead,
                    .new kind.nonceSize⟩

/-- The uplink of a session: the leftover, then what `ss_read_chunk` gives until
the stream ends. -/
def Session.uplink (s : Session) : Option (List Bytes × Except IoError Unit) :=
  (readAll (Inbound.ssReadChunk P s.aead) s.nonce s.rest).map fun (xs, r) => (s.leftover :: xs, r)

/-- The bytes a session sends for downlink blocks. -/
def Session.downlink (s : Session) (blocks : List Bytes) : Except IoError Bytes :=
  match writeEach (Inbound.ssWriteChunks P s.daead) s.dnonce blocks with
  | .error e => .error e
  | .ok w => .ok (s.response ++ w.out)

/-! ## The outbound -/

/-- `SsOutbound`. -/
structure SsOutbound where
  server : Destination
  kind : AeadKind
  master : Bytes
  deriving DecidableEq

/-- `SsOutbound::new`. -/
def SsOutbound.new (server : Address) (port : UInt16) (password cipher : String) :
    Except String SsOutbound :=
  match methodKind cipher with
  | none => .error "unsupported shadowsocks cipher"
  | some kind => .ok ⟨.tcp server port, kind, evpBytesToKey P (asBytes password) kind.keySize⟩

/-- The bytes `SsOutbound::relay` writes for uplink blocks, with `salt` the salt it
draws. -/
def SsOutbound.uplink (ob : SsOutbound) (salt : Bytes) (target : Destination) (blocks : List Bytes) :
    Except IoError Bytes :=
  match deriveAead P ob.kind ob.master salt with
  | .error e => .error (.other e)
  | .ok aead =>
    match AddrCodec.SHADOWSOCKS.write target.address target.port with
    | .error e => .error (.other e)
    | .ok first =>
      match Outbound.ssWriteChunks P aead (.new ob.kind.nonceSize) first with
      | .error e => .error e
      | .ok w =>
        match writeEach (Outbound.ssWriteChunks P aead) w.nonce blocks with
        | .error e => .error e
        | .ok w' => .ok (salt ++ w.out ++ w'.out)

/-- The chunks `SsOutbound::relay` reads off the downlink bytes. -/
def SsOutbound.downlink (ob : SsOutbound) (src : Bytes) : Option (List Bytes × Except IoError Unit) :=
  match readExact ob.kind.keySize src with
  | none => some ([], .error earlyEof)
  | some (salt, src) =>
    match deriveAead P ob.kind ob.master salt with
    | .error e => some ([], .error (.other e))
    | .ok aead => readAll (Outbound.ssReadChunk P aead) (.new ob.kind.nonceSize) src

end Model

/-! ## The two ends together -/

section Together

variable {P : Primitives} {salt : Bytes}

/-- A cipher can be derived from every master key. -/
theorem exists_deriveAead (hP : P.Lawful) (kind : AeadKind) (master salt : Bytes) :
    ∃ aead, deriveAead P kind master salt = .ok aead ∧ aead.kind = kind := by
  have hsize : kind.keySize ≤ 32 := by cases kind <;> decide
  obtain ⟨out, hout, hlen⟩ := hP.hkdfSha1_length master salt subkeyInfo kind.keySize hsize
  refine ⟨⟨kind, out, hlen⟩, ?_, rfl⟩
  simp only [deriveAead, hkdfSha1, hout, Aead.new_of_length hlen]

/-- **Trial decryption finds the first user with the right subkey**, when the
record opens under no other subkey of the table. -/
theorem matchUser_spec (kind : AeadKind) (salt : Bytes) {aead : Aead} {lenct lenpt : Bytes}
    (hopen : aead.open P (NonceCtr.new kind.nonceSize).bytes lenct = .ok lenpt) :
    ∀ {users : List SsUser},
      (∀ u ∈ users, ∀ a, deriveAead P kind u.master salt = .ok a → a ≠ aead →
        ∀ plain, a.open P (NonceCtr.new kind.nonceSize).bytes lenct ≠ .ok plain) →
      (∃ u ∈ users, deriveAead P kind u.master salt = .ok aead) →
      ∃ before user after, users = before ++ user :: after ∧
        deriveAead P kind user.master salt = .ok aead ∧
        (∀ u ∈ before, deriveAead P kind u.master salt ≠ .ok aead) ∧
        matchUser P kind salt lenct users =
          some (user, aead, (NonceCtr.new kind.nonceSize).inc, lenpt) := by
  intro users
  induction users with
  | nil => rintro _ ⟨u, hu, -⟩; cases hu
  | cons user users ih =>
    intro hother hex
    by_cases huser : deriveAead P kind user.master salt = .ok aead
    · refine ⟨[], user, users, rfl, huser, nofun, ?_⟩
      simp only [matchUser, huser, hopen]
    · obtain ⟨u, hu, hderive⟩ := hex
      have hu' : u ∈ users := by
        rcases List.mem_cons.mp hu with rfl | hu
        · exact absurd hderive huser
        · exact hu
      obtain ⟨before, found, after, hsplit, hfound, hbefore, hmatch⟩ :=
        ih (fun v hv => hother v (List.mem_cons_of_mem _ hv)) ⟨u, hu', hderive⟩
      refine ⟨user :: before, found, after, by rw [hsplit]; rfl, hfound,
        List.forall_mem_cons.mpr ⟨huser, hbefore⟩, ?_⟩
      rw [← hmatch, matchUser]
      cases ha : deriveAead P kind user.master salt with
      | error e => rfl
      | ok a =>
        simp only
        cases ho : a.open P (NonceCtr.new kind.nonceSize).bytes lenct with
        | error e => rfl
        | ok plain =>
          have hne : a ≠ aead := fun he => huser (by rw [ha, he])
          exact absurd ho (hother user List.mem_cons_self a ha hne plain)

theorem length_writeAddress {c : AddrCodec} {a : Address} {w : Bytes} (h : c.writeAddress a = .ok w) :
    w.length ≤ 257 := by
  rcases a with (o | o) | d
  · cases h
    simp
  · cases h
    simp
  · simp only [AddrCodec.writeAddress] at h
    split at h
    · cases h
      simp only [List.length_cons]
      omega
    · cases h

theorem length_write_le {c : AddrCodec} {a : Address} {port : UInt16} {w : Bytes}
    (h : c.write a port = .ok w) : w ≠ [] ∧ w.length ≤ 259 := by
  rw [write_eq_map] at h
  rcases hv : c.writeAddress a with e | v
  · rw [hv] at h
    cases h
  · rw [hv] at h
    obtain rfl := Except.ok.inj h
    have hlen := length_writeAddress hv
    have hport : (c.withPort port v).length = v.length + 2 := by
      rcases horder : c.order with _ | _ <;> simp [AddrCodec.withPort, horder, Nat.add_comm]
    exact ⟨List.length_pos_iff.mp (by omega), by omega⟩

/-- The bytes of a target fit one chunk. -/
theorem length_write {c : AddrCodec} {a : Address} {port : UInt16} {w : Bytes}
    (h : c.write a port = .ok w) : w ≠ [] ∧ w.length ≤ maxChunk := by
  have hmax : 259 ≤ maxChunk := by decide
  exact ⟨(length_write_le h).1, Nat.le_trans (length_write_le h).2 hmax⟩

/-- **The keys of a table are apart** from the key `aead` under a salt: a length
record sealed with `aead` opens under no other subkey of the table. -/
def KeysApart (P : Primitives) (users : List SsUser) (salt : Bytes) (aead : Aead) : Prop :=
  ∀ u ∈ users, ∀ a, deriveAead P aead.kind u.master salt = .ok a → a ≠ aead →
    ∀ len lenct, aead.seal P (NonceCtr.new aead.kind.nonceSize).bytes (u16ToBe len) = .ok lenct →
      ∀ plain, a.open P (NonceCtr.new aead.kind.nonceSize).bytes lenct ≠ .ok plain

/-- **The uplink.** -/
theorem decode_uplink (hP : P.Lawful) (ob : SsOutbound) {users : List SsUser} (ssalt : Bytes)
    (hsalt : salt.length = ob.kind.keySize) (huser : ∃ u ∈ users, u.master = ob.master)
    (hapart : ∀ aead, deriveAead P ob.kind ob.master salt = .ok aead → KeysApart P users salt aead)
    {target : Address} (htarget : target.Canonical) (port : UInt16) (blocks : List Bytes) :
    ∃ bytes s, ob.uplink P salt (.tcp target port) blocks = .ok bytes ∧
      decode P ob.kind users ssalt bytes = .ok s ∧
      (∃ before after, users = before ++ s.user :: after ∧
        deriveAead P ob.kind s.user.master salt = deriveAead P ob.kind ob.master salt ∧
        ∀ u ∈ before,
          deriveAead P ob.kind u.master salt ≠ deriveAead P ob.kind ob.master salt) ∧
      s.target = .tcp target port ∧
      s.uplink P = some ([] :: pieces blocks, .ok ()) ∧
      s.response = ssalt ∧ s.dnonce = .new ob.kind.nonceSize ∧
      deriveAead P ob.kind s.user.master ssalt = .ok s.daead := by
  obtain ⟨server, kind, master⟩ := ob
  simp only at hsalt huser hapart ⊢
  obtain ⟨aead, haead, hkind⟩ := exists_deriveAead hP kind master salt
  subst hkind
  -- the outbound: the target fits one chunk, and the data follows it
  obtain ⟨first, hfirst, hread⟩ := exists_write_read .SHADOWSOCKS port [] (fun d => htarget.length_le)
    (reread_canonical htarget)
  rw [List.append_nil] at hread
  obtain ⟨hne, hle⟩ := length_write hfirst
  have hnonce := fits_new aead
  obtain ⟨lenct, payct, calls, hchunk, hlenct, hpayct, hsealLen, hopenLen, hopenPay⟩ :=
    writePiece_records hP .outbound aead hnonce hle
  obtain ⟨w, hdata, hall⟩ := readAll_writeEach hP .outbound .inbound aead blocks
    (show Fits aead (NonceCtr.new aead.kind.nonceSize).inc.inc from hnonce)
  have hhead : Outbound.ssWriteChunks P aead (.new aead.kind.nonceSize) first =
      .ok ⟨lenct ++ payct, (NonceCtr.new aead.kind.nonceSize).inc.inc, calls⟩ := by
    rw [Outbound.ssWriteChunks, chunks_of_length_le hne hle]
    change writePiece P lenOrError aead _ first = _ at hchunk
    simp only [writeEach, hchunk, List.append_nil]
  have huplink : SsOutbound.uplink P ⟨server, aead.kind, master⟩ salt (.tcp target port) blocks =
      .ok (salt ++ (lenct ++ payct) ++ w.out) := by
    change writeEach (Outbound.ssWriteChunks P aead) _ blocks = _ at hdata
    simp only [SsOutbound.uplink, haead, Destination.tcp, hfirst, hhead, hdata]
  -- the inbound: the record finds the user, the chunk holds the target
  obtain ⟨u, hu, hmaster⟩ := huser
  obtain ⟨before, user, after, hsplit, hderive, hbefore, hmatch⟩ :=
    matchUser_spec aead.kind salt hopenLen
      (fun v hv a ha hne => hapart aead haead v hv a ha hne _ _ hsealLen)
      ⟨u, hu, by rw [hmaster, haead]⟩
  obtain ⟨daead, hdaead, -⟩ := exists_deriveAead hP aead.kind user.master ssalt
  refine ⟨_, ⟨user, .tcp target port, [], aead, (NonceCtr.new aead.kind.nonceSize).inc.inc, w.out, ssalt,
    daead, .new aead.kind.nonceSize⟩, huplink, ?_, ⟨before, after, hsplit, by rw [hderive, haead], ?_⟩,
    rfl, ?_, rfl, rfl, hdaead⟩
  · have hlen : chunkLen (u16ToBe (.ofNat first.length)) = .ok first.length :=
      End.inbound.chunkLen_of_le hle
    rw [List.append_assoc, List.append_assoc]
    simp only [decode, readExact_append hsalt, readExact_append hlenct, hmatch, hlen,
      readExact_append hpayct, hopenPay, hread, hdaead]
  · rw [haead]
    exact hbefore
  · change readAll (Inbound.ssReadChunk P aead) _ w.out = _ at hall
    simp only [Session.uplink, hall]
    rfl

/-- **The downlink**, when both ends use one master key. -/
theorem downlink_downlink (hP : P.Lawful) (ob : SsOutbound) (s : Session)
    (hsalt : s.response.length = ob.kind.keySize)
    (hkey : deriveAead P ob.kind ob.master s.response = .ok s.daead)
    (hnonce : s.dnonce = .new ob.kind.nonceSize) (blocks : List Bytes) :
    ∃ bytes, s.downlink P blocks = .ok bytes ∧
      ob.downlink P bytes = some (pieces blocks, .ok ()) := by
  obtain ⟨aead, haead, hkind⟩ := exists_deriveAead hP ob.kind ob.master s.response
  obtain rfl : aead = s.daead := Except.ok.inj (haead.symm.trans hkey)
  have hfits : Fits s.daead s.dnonce := by
    rw [hnonce, ← hkind]
    exact fits_new s.daead
  obtain ⟨w, hwrite, hall⟩ := readAll_writeEach hP .inbound .outbound s.daead blocks hfits
  change writeEach (Inbound.ssWriteChunks P s.daead) s.dnonce blocks = _ at hwrite
  change readAll (Outbound.ssReadChunk P s.daead) s.dnonce w.out = _ at hall
  refine ⟨s.response ++ w.out, ?_, ?_⟩
  · simp only [Session.downlink, hwrite]
  · rw [hnonce] at hall
    simp only [SsOutbound.downlink, readExact_append hsalt, hkey, hall]

/-- **Shadowsocks outbound and inbound interoperate.**  For every method, salts,
table with the outbound's password whose keys are apart, canonical target, port
and uplink blocks, `decode` of what the outbound writes finds the first user of
the table with the outbound's subkey (the outbound's own user, if no other has
it), the target, and in the leftover and the chunks after it the blocks' bytes.
For every list of downlink blocks the outbound then reads their bytes off what
the inbound writes, if the user found has the outbound's master key. -/
theorem shadowsocks_interoperates (hP : P.Lawful) (server : Address) (serverPort : UInt16)
    (password cipher : String) (ob : SsOutbound)
    (hob : SsOutbound.new P server serverPort password cipher = .ok ob)
    (table : List (String × String × UInt32)) (email : String) (level : UInt32)
    (huser : (password, email, level) ∈ table) (salt ssalt : Bytes)
    (hsalt : salt.length = ob.kind.keySize) (hssalt : ssalt.length = ob.kind.keySize)
    (hapart : ∀ aead, deriveAead P ob.kind ob.master salt = .ok aead →
      KeysApart P (buildSsUsers P ob.kind table) salt aead)
    (target : Address) (htarget : target.Canonical) (port : UInt16) (blocks : List Bytes) :
    ∃ bytes s, ob.uplink P salt (.tcp target port) blocks = .ok bytes ∧
      decode P ob.kind (buildSsUsers P ob.kind table) ssalt bytes = .ok s ∧
      (∃ before after, buildSsUsers P ob.kind table = before ++ s.user :: after ∧
        deriveAead P ob.kind s.user.master salt = deriveAead P ob.kind ob.master salt ∧
        ∀ u ∈ before,
          deriveAead P ob.kind u.master salt ≠ deriveAead P ob.kind ob.master salt) ∧
      ((∀ u ∈ buildSsUsers P ob.kind table,
          deriveAead P ob.kind u.master salt = deriveAead P ob.kind ob.master salt →
          u = ⟨ob.master, email, level⟩) → s.user = ⟨ob.master, email, level⟩) ∧
      s.target = .tcp target port ∧
      (∃ xs, s.uplink P = some (xs, .ok ()) ∧ xs.flatten = blocks.flatten) ∧
      (s.user.master = ob.master → ∀ downBlocks, ∃ downBytes xs,
        s.downlink P downBlocks = .ok downBytes ∧ ob.downlink P downBytes = some (xs, .ok ()) ∧
        xs.flatten = downBlocks.flatten) := by
  have hmaster : ∃ u ∈ buildSsUsers P ob.kind table, u.master = ob.master := by
    refine ⟨_, List.mem_map.mpr ⟨_, huser, rfl⟩, ?_⟩
    unfold SsOutbound.new at hob
    split at hob
    · cases hob
    · cases hob
      rfl
  obtain ⟨bytes, s, huplink, hdecode, ⟨before, after, hsplit, hkey, hbefore⟩, htgt, hup, hresp, hdnonce,
    hdaead⟩ := decode_uplink hP ob ssalt hsalt hmaster hapart htarget port blocks
  refine ⟨bytes, s, huplink, hdecode, ⟨before, after, hsplit, hkey, hbefore⟩, fun hunique => ?_, htgt,
    ⟨_, hup, ?_⟩, fun hsame downBlocks => ?_⟩
  · refine hunique s.user ?_ hkey
    rw [hsplit]
    exact List.mem_append_right _ List.mem_cons_self
  · rw [List.flatten_cons, List.nil_append, flatten_pieces]
  · obtain ⟨downBytes, hdown, hread⟩ := downlink_downlink hP ob s (by rw [hresp, hssalt])
      (by rw [hresp, ← hsame, hdaead]) hdnonce downBlocks
    exact ⟨downBytes, _, hdown, hread, flatten_pieces downBlocks⟩

end Together

/-! ## Two users of ChaCha20-Poly1305 -/

/-- An outbound for ChaCha20-Poly1305. -/
def chachaOutbound : SsOutbound :=
  ⟨.tcp (.ip (.v4 #v[10, 0, 0, 1])) 8388, .chaCha20Poly1305,
    evpBytesToKey chachaPrimitives (asBytes "password") 32⟩

/-- Another user, and the outbound's. -/
def twoUsers : List (String × String × UInt32) :=
  [("secret", "other@example", 0), ("password", "user@example", 0)]

/-- The table of the two. -/
def twoTable : List SsUser := buildSsUsers chachaPrimitives .chaCha20Poly1305 twoUsers

/-- The cipher of the outbound under a salt. -/
def ownAead : Aead := ⟨.chaCha20Poly1305, [194, 152, 107, 189, 123, 226, 244, 104, 118, 160, 52, 104,
  57, 203, 84, 76, 150, 135, 188, 66, 68, 112, 171, 140, 230, 40, 6, 141, 69, 169, 232, 101], rfl⟩

/-- The cipher of the other user under the same salt. -/
def otherAead : Aead := ⟨.chaCha20Poly1305, [82, 188, 11, 220, 208, 135, 200, 5, 46, 201, 9, 72, 84,
  250, 10, 123, 245, 21, 248, 130, 143, 249, 94, 123, 28, 131, 227, 94, 54, 19, 164, 118], rfl⟩

theorem deriveAead_own : deriveAead chachaPrimitives .chaCha20Poly1305
    (evpBytesToKey chachaPrimitives (asBytes "password") 32) (.replicate 32 1) = .ok ownAead := by
  decide +kernel

theorem deriveAead_other : deriveAead chachaPrimitives .chaCha20Poly1305
    (evpBytesToKey chachaPrimitives (asBytes "secret") 32) (.replicate 32 1) = .ok otherAead := by
  decide +kernel

/-- The first one-time key of the outbound. -/
theorem oneTimeKey_own : ReferenceCrypto.oneTimeKey ownAead.key (.replicate 12 0) =
    [224, 140, 176, 154, 45, 81, 188, 200, 48, 29, 86, 24, 153, 149, 88, 114, 15, 145, 68, 159, 226,
      243, 125, 106, 16, 254, 195, 178, 205, 106, 239, 0] := by
  have hstate : ReferenceCrypto.chachaState ownAead.key (.replicate 12 0) 0 =
      [1634760805, 857760878, 2036477234, 1797285236, 3177945282, 1760879227, 1748279414, 1280625465,
        1119651734, 2360045636, 2365991142, 1709746501, 0, 0, 0, 0] := by
    decide +kernel
  rw [ReferenceCrypto.oneTimeKey_of_rounds (t := [960500859, 2510023871, 2666786814, 121122853,
    3789092941, 25760103, 1250909594, 3030032276, 2415909272, 1089715702, 1016442258, 750527239,
    3007255685, 1825780341, 2241773533, 4083848466]) hstate (by decide +kernel)]
  decide +kernel

/-- The first one-time key of the other user. -/
theorem oneTimeKey_other : ReferenceCrypto.oneTimeKey otherAead.key (.replicate 12 0) =
    [79, 238, 153, 239, 184, 204, 174, 54, 105, 195, 252, 13, 191, 80, 241, 31, 45, 121, 239, 134, 82,
      55, 36, 113, 4, 250, 102, 89, 236, 101, 205, 184] := by
  have hstate : ReferenceCrypto.chachaState otherAead.key (.replicate 12 0) 0 =
      [1634760805, 857760878, 2036477234, 1797285236, 3691756626, 97028048, 1208600878, 2064317012,
        2197296629, 2069821839, 1591968540, 1990464310, 0, 0, 0, 0] := by
    decide +kernel
  rw [ReferenceCrypto.oneTimeKey_of_rounds (t := [2385081834, 59664458, 2493158967, 3033590603,
    2867051739, 1801170818, 291320022, 1036151704, 1479601322, 3364010063, 2621289978, 1063990883,
    280500087, 1934721752, 841530315, 2811865995]) hstate (by decide +kernel)]
  decide +kernel

/-- The one-time keys are apart for a length record, and for a datagram of ten bytes. -/
theorem tagsApart_twoUsers {len : Nat} (hlen : len = 2 ∨ len = 10) : ReferenceCrypto.TagsApart
    (ReferenceCrypto.oneTimeKey otherAead.key (.replicate 12 0))
    (ReferenceCrypto.oneTimeKey ownAead.key (.replicate 12 0))
    305308620976149548659571823538882731629 len := by
  rw [oneTimeKey_own, oneTimeKey_other]
  rcases hlen with rfl | rfl
  · exact ⟨by decide +kernel, by decide +kernel⟩
  · exact ⟨by decide +kernel, by decide +kernel⟩

/-- What the outbound seals first in a message of such a length, the other user cannot open. -/
theorem other_open_eq_error {plain ct : Bytes} (hlen : plain.length = 2 ∨ plain.length = 10)
    (hseal : ownAead.seal chachaPrimitives (.replicate 12 0) plain = .ok ct) :
    otherAead.open chachaPrimitives (.replicate 12 0) ct = .error (.crypto "aead open") := by
  have hne : plain ≠ [] := by
    rintro rfl
    simp at hlen
  obtain rfl := Except.ok.inj hseal
  exact Aead.open_of_decrypt_none
    (ReferenceCrypto.chachaOpen_eq_none hne (by omega) (tagsApart_twoUsers hlen))

/-- The keys of the two users are apart. -/
theorem keysApart_twoTable (aead : Aead)
    (haead : deriveAead chachaPrimitives chachaOutbound.kind chachaOutbound.master
      (.replicate 32 1) = .ok aead) :
    KeysApart chachaPrimitives twoTable (.replicate 32 1) aead := by
  obtain rfl := Except.ok.inj (deriveAead_own.symm.trans haead)
  intro u hu a ha hne len lenct hseal plain hopen
  rcases List.mem_cons.mp hu with rfl | hu
  · obtain rfl := Except.ok.inj (deriveAead_other.symm.trans ha)
    have hnone := other_open_eq_error (.inl rfl) hseal
    cases hnone.symm.trans hopen
  · rw [List.mem_singleton.mp hu] at ha
    exact hne (Except.ok.inj (ha.symm.trans deriveAead_own))

/-- The outbound's user is found behind the other one. -/
theorem shadowsocks_interoperates_chacha :
    ∃ bytes s, chachaOutbound.uplink chachaPrimitives (.replicate 32 1)
        (.tcp (.ip (.v4 #v[1, 1, 1, 1])) 443) [[1, 2], [], [3]] = .ok bytes ∧
      decode chachaPrimitives .chaCha20Poly1305 twoTable (.replicate 32 2) bytes = .ok s ∧
      s.user.email = "user@example" ∧ s.target = .tcp (.ip (.v4 #v[1, 1, 1, 1])) 443 ∧
      ∃ xs, s.uplink chachaPrimitives = some (xs, .ok ()) ∧ xs.flatten = [1, 2, 3] := by
  have hob : SsOutbound.new chachaPrimitives (.ip (.v4 #v[10, 0, 0, 1])) 8388 "password"
      "chacha20-ietf-poly1305" = .ok chachaOutbound := by
    have hkind : methodKind "chacha20-ietf-poly1305" = some .chaCha20Poly1305 := by decide
    simp only [SsOutbound.new, hkind]
    rfl
  obtain ⟨bytes, s, huplink, hdecode, -, huser, htarget, hup, -⟩ :=
    shadowsocks_interoperates chachaPrimitives_lawful _ _ "password" "chacha20-ietf-poly1305"
      chachaOutbound hob twoUsers "user@example" 0 (List.mem_cons_of_mem _ List.mem_cons_self)
      (.replicate 32 1) (.replicate 32 2) rfl rfl keysApart_twoTable (.ip (.v4 #v[1, 1, 1, 1]))
      trivial 443 [[1, 2], [], [3]]
  refine ⟨bytes, s, huplink, hdecode, ?_, htarget, hup⟩
  rw [huser]
  intro u hu hsame
  rcases List.mem_cons.mp hu with rfl | hu
  · have hkeys := (deriveAead_other.symm.trans hsame).trans deriveAead_own
    exact absurd (Except.ok.inj hkeys) (by decide)
  · exact List.mem_singleton.mp hu

end XrayRs.Ss
