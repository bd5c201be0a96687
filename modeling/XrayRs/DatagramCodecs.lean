import XrayRs.HeaderRead
import XrayRs.SsUdp

/-! # Datagram envelopes

A datagram under SOCKS5 (`proxy/src/socks.rs`) has three bytes and the target in front of
its payload; one under Shadowsocks (`proxy/src/shadowsocks.rs`) has a salt, and behind it
the sealed target and payload.  The payload is what the target leaves over.

Decoding undoes encoding, for every canonical target and every payload, and what is
decoded had a whole envelope (`datagram_codecs_inverse`). -/

namespace XrayRs

open ByteParser ByteWords Ss SsUdp

/-! ## SOCKS5 -/

/-- `encode_socks_udp`. -/
def encodeSocksUdp (target : Destination) (payload : Bytes) : Option Bytes :=
  match AddrCodec.SOCKS.write target.address target.port with
  | .error _ => none
  | .ok addr => some ([0, 0, 0] ++ addr ++ payload)

/-- `decode_socks_udp`. -/
def decodeSocksUdp (d : Bytes) : Option (Destination × Bytes) :=
  if d.length < 3 then none
  else if d.getD 2 0 ≠ 0 then none
  else
    match AddrCodec.SOCKS.read.run (d.drop 3) with
    | .error _ => none
    | .ok ((address, port), b) => some (.udp address port, b)

/-- The bytes are those of the target, whole. -/
def AddrCodec.Spells (c : AddrCodec) (addr : Bytes) (target : Destination) : Prop :=
  c.read.run addr = .ok ((target.address, target.port), [])

section Socks

variable {d payload addr : Bytes} {target : Destination}

/-- **What `decode_socks_udp` accepts**: two bytes, no fragment, a target and the payload. -/
theorem decodeSocksUdp_eq_some :
    decodeSocksUdp d = some (target, payload) ↔
      target.network = .udp ∧ ∃ rsv addr, rsv.length = 2 ∧ d = rsv ++ 0 :: (addr ++ payload) ∧
        AddrCodec.SOCKS.Spells addr target := by
  constructor
  · intro h
    rw [decodeSocksUdp] at h
    by_cases hshort : d.length < 3
    · rw [if_pos hshort] at h
      cases h
    · obtain ⟨a, b, frag, rest, rfl⟩ : ∃ a b frag rest, d = a :: b :: frag :: rest := by
        match d, hshort with
        | a :: b :: frag :: rest, _ => exact ⟨a, b, frag, rest, rfl⟩
        | [], h | [_], h | [_, _], h => exact absurd (by simp) h
      rw [if_neg hshort] at h
      by_cases hfrag : frag = 0
      · subst hfrag
        rw [if_neg (show ¬ (a :: b :: (0 : UInt8) :: rest).getD 2 0 ≠ 0 from fun h => h rfl)] at h
        cases hread : AddrCodec.SOCKS.read.run rest with
        | error e =>
          rw [show (a :: b :: (0 : UInt8) :: rest).drop 3 = rest from rfl, hread] at h
          cases h
        | ok x =>
          obtain ⟨⟨address, port⟩, left⟩ := x
          rw [show (a :: b :: (0 : UInt8) :: rest).drop 3 = rest from rfl, hread] at h
          obtain ⟨rfl, rfl⟩ := Prod.mk.inj (Option.some.inj h)
          obtain ⟨addr, rfl, hall⟩ := (incremental_read .SOCKS).ok_local hread
          have haddr := hall []
          rw [List.append_nil] at haddr
          exact ⟨rfl, [a, b], addr, rfl, rfl, haddr⟩
      · rw [if_pos (show (a :: b :: frag :: rest).getD 2 0 ≠ 0 from hfrag)] at h
        cases h
  · rintro ⟨hnet, rsv, addr, hrsv, rfl, hspells⟩
    obtain ⟨a, b, rfl⟩ := List.length_eq_two.mp hrsv
    have hread : AddrCodec.SOCKS.read.run (addr ++ payload) =
        .ok ((target.address, target.port), [] ++ payload) :=
      (incremental_read .SOCKS).ok_append hspells payload
    have hlong : ¬ ([a, b] ++ 0 :: (addr ++ payload)).length < 3 := by simp
    have hdrop : ([a, b] ++ 0 :: (addr ++ payload)).drop 3 = addr ++ payload := rfl
    rw [decodeSocksUdp, if_neg hlong, if_neg (fun h => h rfl), hdrop, hread]
    obtain ⟨network, address, port⟩ := target
    obtain rfl : network = .udp := hnet
    rfl

theorem decodeSocksUdp_frag {frag : UInt8} (h : d[2]? = some frag) (hfrag : frag ≠ 0) :
    decodeSocksUdp d = none := by
  have hlong : ¬ d.length < 3 := by
    have hlt := (List.getElem?_eq_some_iff.mp h).1
    omega
  rw [decodeSocksUdp, if_neg hlong, List.getD_eq_getElem?_getD, h]
  exact if_pos hfrag

/-- A datagram that is cut inside its envelope is refused. -/
theorem decodeSocksUdp_cut {whole cut : Bytes} (h : encodeSocksUdp target payload = some whole)
    (hread : ∃ addr, AddrCodec.SOCKS.write target.address target.port = .ok addr ∧
      AddrCodec.SOCKS.Spells addr target)
    (hcut : cut <+: whole) (hshort : cut.length + payload.length < whole.length) :
    decodeSocksUdp cut = none := by
  obtain ⟨addr, hwrite, hspells⟩ := hread
  rw [encodeSocksUdp, hwrite] at h
  obtain rfl := Option.some.inj h
  cases hdec : decodeSocksUdp cut with
  | none => rfl
  | some x =>
    obtain ⟨-, rsv, addr', hrsv, rfl, hspells'⟩ := decodeSocksUdp_eq_some.mp hdec
    obtain ⟨a, b, rfl⟩ := List.length_eq_two.mp hrsv
    obtain ⟨more, hmore⟩ := hcut
    -- the target that is read would be a part of the one that is there
    have hsame : a = 0 ∧ b = 0 ∧ addr' ++ (x.2 ++ more) = addr ++ payload := by
      simpa using hmore
    obtain ⟨tail, htail⟩ : addr' <+: addr := by
      refine List.prefix_of_prefix_length_le ⟨_, hsame.2.2⟩ (List.prefix_append _ _) ?_
      simp only [List.length_append, List.length_cons, List.length_nil] at hshort
      omega
    have hagain := (incremental_read .SOCKS).ok_append hspells' tail
    rw [htail, show AddrCodec.SOCKS.read.run addr = _ from hspells] at hagain
    obtain ⟨-, hnil⟩ := Prod.mk.inj (Except.ok.inj hagain)
    have htail' : tail = [] := by simpa using hnil.symm
    subst htail'
    rw [List.append_nil] at htail
    subst htail
    simp only [List.length_append, List.length_cons, List.length_nil] at hshort
    omega

end Socks

/-! ## Shadowsocks -/

/-- **What is relied on of the AEAD, for messages of any size**: sealing succeeds and adds a
tag, opening undoes it, and what is opened had a tag. -/
structure Primitives.Sealing (P : Primitives) : Prop where
  lawful : P.Lawful
  decrypt_encrypt : ∀ kind key nonce plain, key.length = kind.keySize →
    nonce.length = kind.nonceSize →
    ∃ ct, P.encrypt kind key nonce plain = some ct ∧ P.decrypt kind key nonce ct = some plain
  length_decrypt : ∀ kind key nonce ct plain, P.decrypt kind key nonce ct = some plain →
    ct.length = plain.length + AeadKind.tag

section Shadowsocks

variable {P : Primitives}

theorem Aead.exists_seal (hP : P.Sealing) (a : Aead) {nonce : Bytes}
    (hnonce : nonce.length = a.kind.nonceSize) (plain : Bytes) :
    ∃ ct, a.seal P nonce plain = .ok ct ∧ a.open P nonce ct = .ok plain := by
  obtain ⟨ct, henc, hdec⟩ := hP.decrypt_encrypt a.kind a.key nonce plain a.key_length hnonce
  exact ⟨ct, by rw [Aead.seal, henc], by rw [Aead.open, hdec]⟩

theorem Aead.length_open (hP : P.Sealing) (a : Aead) {nonce ct plain : Bytes}
    (h : a.open P nonce ct = .ok plain) : ct.length = plain.length + AeadKind.tag := by
  rw [Aead.open] at h
  cases hdec : P.decrypt a.kind a.key nonce ct with
  | none =>
    rw [hdec] at h
    cases h
  | some plain' =>
    rw [hdec] at h
    obtain rfl := Except.ok.inj h
    exact hP.length_decrypt a.kind a.key nonce ct plain' hdec

/-- The sealed part of a datagram opens under no key of the users. -/
def OpensFor (P : Primitives) (kind : AeadKind) (users : List SsUser) (salt ct : Bytes) : Prop :=
  ∃ user ∈ users, ∃ aead plain, deriveAead P kind user.master salt = .ok aead ∧
    aead.open P (zeroNonce kind) ct = .ok plain

/-- Users under whose keys a datagram does not open are passed over. -/
theorem decodeFor_append {kind : AeadKind} {salt ct : Bytes} {before : List SsUser}
    (h : ¬ OpensFor P kind before salt ct) (users : List SsUser) :
    decodeFor P kind salt ct (before ++ users) = decodeFor P kind salt ct users := by
  induction before with
  | nil => rfl
  | cons user before ih =>
    have hrest : ¬ OpensFor P kind before salt ct := by
      rintro ⟨u, hu, hopen⟩
      exact h ⟨u, List.mem_cons_of_mem _ hu, hopen⟩
    rw [List.cons_append, decodeFor]
    cases haead : deriveAead P kind user.master salt with
    | error e => exact ih hrest
    | ok aead =>
      cases hopen : aead.open P (zeroNonce kind) ct with
      | error e =>
        dsimp only
        rw [hopen]
        exact ih hrest
      | ok plain => exact absurd ⟨user, List.mem_cons_self, aead, plain, haead, hopen⟩ h

/-- **What the loop of `udp_decode` accepts.** -/
theorem decodeFor_eq_some {kind : AeadKind} {salt ct payload : Bytes} {users : List SsUser}
    {key : SsKey} {target : Destination}
    (h : decodeFor P kind salt ct users = some (key, target, payload)) :
    ∃ user ∈ users, ∃ aead addr, key = ⟨user.master, user.email⟩ ∧
      deriveAead P kind user.master salt = .ok aead ∧
      aead.open P (zeroNonce kind) ct = .ok (addr ++ payload) ∧
      target.network = .udp ∧ AddrCodec.SHADOWSOCKS.Spells addr target := by
  induction users with
  | nil => cases h
  | cons user users ih =>
    have hlater : decodeFor P kind salt ct users = some (key, target, payload) →
        ∃ u ∈ user :: users, ∃ aead addr, key = ⟨u.master, u.email⟩ ∧
          deriveAead P kind u.master salt = .ok aead ∧
          aead.open P (zeroNonce kind) ct = .ok (addr ++ payload) ∧
          target.network = .udp ∧ AddrCodec.SHADOWSOCKS.Spells addr target := by
      intro h
      obtain ⟨u, hu, hrest⟩ := ih h
      exact ⟨u, List.mem_cons_of_mem _ hu, hrest⟩
    rw [decodeFor] at h
    cases haead : deriveAead P kind user.master salt with
    | error e =>
      rw [haead] at h
      exact hlater h
    | ok aead =>
      rw [haead] at h
      dsimp only at h
      cases hopen : aead.open P (zeroNonce kind) ct with
      | error e =>
        rw [hopen] at h
        exact hlater h
      | ok plain =>
        rw [hopen] at h
        dsimp only at h
        cases hread : AddrCodec.SHADOWSOCKS.read.run plain with
        | error e =>
          rw [hread] at h
          exact hlater h
        | ok x =>
          rw [hread] at h
          obtain ⟨hkey, hrest⟩ := Prod.mk.inj (Option.some.inj h)
          obtain ⟨rfl, rfl⟩ := Prod.mk.inj hrest
          obtain ⟨addr, rfl, hall⟩ := (incremental_read .SHADOWSOCKS).ok_local hread
          have haddr := hall []
          rw [List.append_nil] at haddr
          exact ⟨user, List.mem_cons_self, aead, addr, hkey.symm, haead, hopen, rfl, haddr⟩

/-- A datagram that is accepted holds a salt, a tag, the target and the payload. -/
theorem udpDecode_length (hP : P.Sealing) {kind : AeadKind} {users : List SsUser}
    {dgram payload : Bytes} {key : SsKey} {target : Destination}
    (h : udpDecode P kind users dgram = some (key, target, payload)) :
    ∃ addr, AddrCodec.SHADOWSOCKS.Spells addr target ∧
      dgram.length = kind.keySize + AeadKind.tag + addr.length + payload.length := by
  rw [udpDecode] at h
  cases hsplit : readExact kind.keySize dgram with
  | none =>
    rw [hsplit] at h
    cases h
  | some x =>
    obtain ⟨salt, ct⟩ := x
    rw [hsplit] at h
    obtain ⟨rfl, hsalt⟩ := readExact_eq_some hsplit
    obtain ⟨user, -, aead, addr, -, -, hopen, -, hspells⟩ := decodeFor_eq_some h
    have hct := aead.length_open hP hopen
    rw [List.length_append] at hct ⊢
    exact ⟨addr, hspells, by omega⟩

/-- **The datagram of a user** is decoded as this user's, wherever the user stands in the
table, if it opens under the key of no user before. -/
theorem udpDecode_undoes (hP : P.Sealing) (kind : AeadKind) (user : SsUser)
    (before after : List SsUser) {salt : Bytes} (hsalt : salt.length = kind.keySize)
    {address : Address} (haddr : address.Canonical) (port : UInt16) (payload : Bytes) :
    ∃ ct, ssUdpEncode P kind salt user.master (.udp address port) payload = some (salt ++ ct) ∧
      (¬ OpensFor P kind before salt ct →
        udpDecode P kind (before ++ user :: after) (salt ++ ct) =
          some (⟨user.master, user.email⟩, .udp address port, payload)) := by
  obtain ⟨aead, haead, rfl⟩ := exists_deriveAead hP.lawful kind user.master salt
  obtain ⟨addr, hwrite, hread⟩ := exists_write_read .SHADOWSOCKS port payload
    (fun d => haddr.length_le) (reread_canonical haddr)
  obtain ⟨ct, hseal, hopen⟩ := aead.exists_seal hP
    (show (zeroNonce aead.kind).length = _ from List.length_replicate ..) (addr ++ payload)
  refine ⟨ct, ?_, fun hothers => ?_⟩
  · simp only [ssUdpEncode, haead, Destination.udp, hwrite, hseal]
  · simp only [udpDecode, readExact_append hsalt, decodeFor_append hothers, decodeFor, haead, hopen,
      hread]

end Shadowsocks

/-- **Datagram envelopes.**  For every canonical target, every port and every payload, what
is encoded is decoded as it was: under SOCKS5, and under Shadowsocks with any cipher, any
salt and the sealing user anywhere in the table, if the datagram opens under no other
user's key.  A fragment is refused, and whatever does not hold a whole envelope. -/
theorem datagram_codecs_inverse (P : Primitives) (hP : P.Sealing) :
    (∀ (address : Address) (port : UInt16) (payload : Bytes), address.Canonical →
      (∃ dgram, encodeSocksUdp (.udp address port) payload = some dgram ∧
        decodeSocksUdp dgram = some (.udp address port, payload) ∧
        ∀ cut, cut <+: dgram → cut.length + payload.length < dgram.length →
          decodeSocksUdp cut = none) ∧
      ∀ (kind : AeadKind) (user : SsUser) (before after : List SsUser) (salt : Bytes),
        salt.length = kind.keySize →
        ∃ ct, ssUdpEncode P kind salt user.master (.udp address port) payload = some (salt ++ ct) ∧
          (¬ OpensFor P kind (before ++ after) salt ct →
            udpDecode P kind (before ++ user :: after) (salt ++ ct) =
              some (⟨user.master, user.email⟩, .udp address port, payload))) ∧
    (∀ (d : Bytes) (frag : UInt8), d[2]? = some frag → frag ≠ 0 → decodeSocksUdp d = none) ∧
    (∀ (d payload : Bytes) (target : Destination), decodeSocksUdp d = some (target, payload) →
      ∃ addr, AddrCodec.SOCKS.Spells addr target ∧ d.length = 3 + addr.length + payload.length) ∧
    (∀ (kind : AeadKind) (users : List SsUser) (dgram payload : Bytes) (key : SsKey)
      (target : Destination), udpDecode P kind users dgram = some (key, target, payload) →
      ∃ addr, AddrCodec.SHADOWSOCKS.Spells addr target ∧
        dgram.length = kind.keySize + AeadKind.tag + addr.length + payload.length) := by
  refine ⟨fun address port payload haddr => ⟨?_, ?_⟩, fun d frag => decodeSocksUdp_frag, ?_, ?_⟩
  · obtain ⟨addr, hwrite, hread⟩ := exists_write_read .SOCKS port [] (fun d => haddr.length_le)
      (reread_canonical haddr)
    rw [List.append_nil] at hread
    have hencode : encodeSocksUdp (.udp address port) payload = some ([0, 0, 0] ++ addr ++ payload) := by
      simp only [encodeSocksUdp, Destination.udp, hwrite]
    refine ⟨_, hencode, ?_, fun cut hcut hshort => ?_⟩
    · exact decodeSocksUdp_eq_some.mpr ⟨rfl, [0, 0], addr, rfl, by simp, hread⟩
    · exact decodeSocksUdp_cut hencode ⟨addr, hwrite, hread⟩ hcut hshort
  · intro kind user before after salt hsalt
    obtain ⟨ct, hencode, hdecode⟩ := udpDecode_undoes hP kind user before after hsalt haddr port payload
    refine ⟨ct, hencode, fun hothers => hdecode ?_⟩
    rintro ⟨u, hu, hopen⟩
    exact hothers ⟨u, List.mem_append_left _ hu, hopen⟩
  · intro d payload target h
    obtain ⟨-, rsv, addr, hrsv, rfl, hspells⟩ := decodeSocksUdp_eq_some.mp h
    refine ⟨addr, hspells, ?_⟩
    simp only [List.length_append, List.length_cons]
    omega
  · intro kind users dgram payload key target h
    exact udpDecode_length hP h

theorem chachaPrimitives_sealing : chachaPrimitives.Sealing where
  lawful := chachaPrimitives_lawful
  decrypt_encrypt _ key nonce plain _ _ :=
    ⟨_, rfl, ReferenceCrypto.chachaOpen_chachaSeal key nonce plain⟩
  length_decrypt _ _ _ _ _ h := ReferenceCrypto.length_chachaOpen h

/-- A datagram of the second user of two. -/
theorem datagram_codecs_inverse_second :
    ∃ ct, ssUdpEncode chachaPrimitives .chaCha20Poly1305 (.replicate 32 1) chachaOutbound.master
        (.udp (.ip (.v4 #v[10, 0, 0, 1])) 53) [7, 8, 9] = some (.replicate 32 1 ++ ct) ∧
      udpDecode chachaPrimitives .chaCha20Poly1305 twoTable (.replicate 32 1 ++ ct) =
        some (⟨chachaOutbound.master, "user@example"⟩, .udp (.ip (.v4 #v[10, 0, 0, 1])) 53,
          [7, 8, 9]) := by
  have hsalt : (List.replicate 32 1 : Bytes).length = AeadKind.chaCha20Poly1305.keySize := rfl
  obtain ⟨ct, hencode, hdecode⟩ := ((datagram_codecs_inverse chachaPrimitives
    chachaPrimitives_sealing).1 (.ip (.v4 #v[10, 0, 0, 1])) 53 [7, 8, 9] trivial).2
    .chaCha20Poly1305 ⟨chachaOutbound.master, "user@example", 0⟩
    [⟨evpBytesToKey chachaPrimitives (asBytes "secret") 32, "other@example", 0⟩] []
    (.replicate 32 1) hsalt
  refine ⟨ct, hencode, hdecode ?_⟩
  -- the first user tries to open it, in vain
  have hseal : ownAead.seal chachaPrimitives (.replicate 12 0)
      [1, 10, 0, 0, 1, 0, 53, 7, 8, 9] = .ok ct := by
    have hown : deriveAead chachaPrimitives .chaCha20Poly1305 chachaOutbound.master
        (.replicate 32 1) = .ok ownAead := deriveAead_own
    have hwrite : AddrCodec.SHADOWSOCKS.write (.ip (.v4 #v[10, 0, 0, 1])) 53 =
        .ok [1, 10, 0, 0, 1, 0, 53] := by decide
    rw [ssUdpEncode] at hencode
    simp only [hown, Destination.udp, hwrite] at hencode
    split at hencode
    · cases hencode
    · next sealed hsealed =>
      rw [List.append_cancel_left (Option.some.inj hencode)] at hsealed
      exact hsealed
  rintro ⟨u, hu, aead, plain, haead, hopen⟩
  rw [List.append_nil, List.mem_singleton] at hu
  subst hu
  obtain rfl := Except.ok.inj (deriveAead_other.symm.trans haead)
  have hnone := other_open_eq_error (.inr rfl) hseal
  cases hnone.symm.trans hopen

end XrayRs
