import XrayRs.ReferenceGcm
import XrayRs.VmessBody
import XrayRs.VmessHeader
import XrayRs.VmessHotset

/-! # The keys of VMess headers

`proxy/src/vmess/crypto.rs` and `VmessUsers::new`.  Request and response headers are
sealed with AES-128-GCM, under keys and nonces that a key schedule derives from the
user's command key, the authID and a nonce of the connection.  The schedule is HMAC with
HMAC for its hash, a level for each component of a path (`kdf_eq_tower`). -/

namespace XrayRs.Vmess

open ByteWords

/-- **The primitives of other crates** that headers need beside those of bodies: SHA-256,
AES-128 as a permutation of blocks for each key, CRC-32, and AES-128-GCM under a key and a
nonce, with associated data. -/
structure HeaderPrimitives extends Primitives where
  sha256 : Bytes → Vector UInt8 32
  aes128 : Block → Equiv.Perm Block
  crc32 : Bytes → UInt32
  gcmEncrypt : (key nonce plain aad : Bytes) → Option Bytes
  gcmDecrypt : (key nonce ct aad : Bytes) → Option Bytes

/-- **What is relied on.**  Sealing a header adds a tag and is undone by opening. -/
structure HeaderPrimitives.Lawful (P : HeaderPrimitives) : Prop where
  body : P.toPrimitives.Lawful
  gcmDecrypt_gcmEncrypt : ∀ key nonce plain aad, key.length = 16 → nonce.length = 12 →
    plain.length < 2 ^ 16 → ∃ ct, P.gcmEncrypt key nonce plain aad = some ct ∧
      ct.length = plain.length + AeadKind.tag ∧ P.gcmDecrypt key nonce ct aad = some plain

/-! ## Key derivation -/

/-- `MAGIC`. -/
def magic : Bytes := asBytes "c48619fe-8f02-49e0-b9e9-edf763e17e21"

/-- `KDF_SALT`, and the salts of the headers. -/
def kdfSalt : Bytes := asBytes "VMess AEAD KDF"
@[inherit_doc kdfSalt] def saltAuthid : Bytes := asBytes "AES Auth ID Encryption"
@[inherit_doc kdfSalt] def saltHdrLenKey : Bytes := asBytes "VMess Header AEAD Key_Length"
@[inherit_doc kdfSalt] def saltHdrLenIv : Bytes := asBytes "VMess Header AEAD Nonce_Length"
@[inherit_doc kdfSalt] def saltHdrKey : Bytes := asBytes "VMess Header AEAD Key"
@[inherit_doc kdfSalt] def saltHdrIv : Bytes := asBytes "VMess Header AEAD Nonce"
@[inherit_doc kdfSalt] def saltRespLenKey : Bytes := asBytes "AEAD Resp Header Len Key"
@[inherit_doc kdfSalt] def saltRespLenIv : Bytes := asBytes "AEAD Resp Header Len IV"
@[inherit_doc kdfSalt] def saltRespKey : Bytes := asBytes "AEAD Resp Header Key"
@[inherit_doc kdfSalt] def saltRespIv : Bytes := asBytes "AEAD Resp Header IV"

/-- A digest of 32 bytes. -/
abbrev Digest := Vector UInt8 32

/-- The first 16 bytes of a digest. -/
def first16 (d : Digest) : Block := blockAt d.toList 0

section Kdf

variable (P : HeaderPrimitives)

/-- `cmd_key`. -/
def cmdKey (uuid : Vector UInt8 16) : Block := P.md5 (uuid.toList ++ magic)

/-- `hmac_with`. -/
def hmacWith (key msg : Bytes) (hash : Bytes → Digest) : Digest :=
  let k :=
    if 64 < key.length then (P.sha256 key).toList ++ List.replicate 32 0
    else key ++ List.replicate (64 - key.length) 0
  let ipad := k.map (0x36 ^^^ ·)
  let opad := k.map (0x5c ^^^ ·)
  hash (opad ++ (hash (ipad ++ msg)).toList)

/-- `hmac_sha256`. -/
def hmacSha256 (key msg : Bytes) : Digest := hmacWith P key msg P.sha256

/-- `kdf_level`. -/
def kdfLevel (keys : List Bytes) : Nat → Bytes → Digest
  | 0, msg =>
    match keys[0]? with
    | none => P.sha256 msg
    | some key => hmacSha256 P key msg
  | level + 1, msg =>
    match keys[level + 1]? with
    | none => P.sha256 msg
    | some key => hmacWith P key msg (kdfLevel keys level)

/-- `kdf`. -/
def kdf (key : Bytes) (paths : List Bytes) : Digest :=
  kdfLevel P (kdfSalt :: paths) paths.length key

/-- `kdf16`. -/
def kdf16 (key : Bytes) (paths : List Bytes) : Block := first16 (kdf P key paths)

/-- The first twelve bytes of `kdf`, as a nonce. -/
def kdfNonce (key : Bytes) (paths : List Bytes) : Bytes := (kdf P key paths).toList.take 12

/-- Levels that are there do not depend on the keys above them. -/
theorem kdfLevel_append (keys more : List Bytes) {level : Nat} (h : level < keys.length)
    (msg : Bytes) : kdfLevel P (keys ++ more) level msg = kdfLevel P keys level msg := by
  induction level generalizing msg with
  | zero => rw [kdfLevel, kdfLevel, List.getElem?_append_left h]
  | succ level ih =>
    rw [kdfLevel, kdfLevel, List.getElem?_append_left h, List.getElem?_eq_getElem h]
    exact congrArg (hmacWith P _ msg) (funext (ih (by omega)))

/-- **The key schedule is a tower of HMACs**: HMAC-SHA256 under the salt, and above it, for
each component of the path, HMAC under the component with what is below for its hash. -/
theorem kdf_eq_tower (key : Bytes) (paths : List Bytes) :
    kdf P key paths =
      paths.foldl (fun hash path msg => hmacWith P path msg hash) (hmacSha256 P kdfSalt) key := by
  induction paths using List.reverseRecOn generalizing key with
  | nil => rfl
  | append_singleton paths path ih =>
    have hbelow : kdfLevel P (kdfSalt :: (paths ++ [path])) paths.length =
        paths.foldl (fun hash path msg => hmacWith P path msg hash) (hmacSha256 P kdfSalt) := by
      funext msg
      rw [← ih, kdf, ← List.cons_append, kdfLevel_append P _ _ (by simp)]
    rw [kdf, List.length_append, List.length_singleton, List.foldl_append, List.foldl_cons,
      List.foldl_nil, ← hbelow, kdfLevel, List.getElem?_cons_succ, List.getElem?_concat_length]

/-! ## Users -/

/-- The user `VmessUsers::new` makes of an entry. -/
def VmessUser.new (entry : Vector UInt8 16 × String × UInt32) : VmessUser :=
  let (id, email, _) := entry
  let ck := Vmess.cmdKey P id
  ⟨ck, P.aes128 (kdf16 P ck.toList [saltAuthid]), email⟩

/-- `VmessUsers::new`. -/
def VmessUsers.new (users : List (Vector UInt8 16 × String × UInt32)) : VmessUsers :=
  ⟨users.map (VmessUser.new P)⟩

/-! ## Sealing headers -/

/-- `aes128gcm_open`. -/
def aes128gcmOpen (key nonce ct aad : Bytes) : Except IoError Bytes :=
  if key.length ≠ 16 then .error ⟨.other, .msg "gcm key"⟩
  else
    match P.gcmDecrypt key nonce ct aad with
    | some plain => .ok plain
    | none => .error ⟨.invalidData, .msg "vmess header open"⟩

/-- `aes128gcm_seal`. -/
def aes128gcmSeal (key nonce plain aad : Bytes) : Except IoError Bytes :=
  if key.length ≠ 16 then .error ⟨.other, .msg "gcm key"⟩
  else
    match P.gcmEncrypt key nonce plain aad with
    | some ct => .ok ct
    | none => .error ⟨.other, .msg "vmess header seal"⟩

end Kdf

section Seal

variable {P : HeaderPrimitives}

theorem length_kdfNonce (key : Bytes) (paths : List Bytes) : (kdfNonce P key paths).length = 12 := by
  rw [kdfNonce, List.length_take, Vector.length_toList]
  rfl


/-- The key schedule depends on SHA-256 alone. -/
theorem kdf_congr {P' : HeaderPrimitives} (h : P'.sha256 = P.sha256) (key : Bytes)
    (paths : List Bytes) : kdf P' key paths = kdf P key paths := by
  have hhmac : ∀ key msg hash, hmacWith P' key msg hash = hmacWith P key msg hash := by
    intro key msg hash
    rw [hmacWith, hmacWith, h]
  have hlevel : ∀ keys level msg, kdfLevel P' keys level msg = kdfLevel P keys level msg := by
    intro keys level
    induction level with
    | zero =>
      intro msg
      simp only [kdfLevel, hmacSha256, hhmac, h]
    | succ level ih =>
      intro msg
      simp only [kdfLevel, hhmac, h, funext ih]
  exact hlevel _ _ _

-- keys and nonces are compared as they are written
attribute [irreducible] kdf16 kdfNonce

/-- A short header is sealed with a tag, and opened again. -/
theorem aes128gcmOpen_seal (hP : P.Lawful) (key : Block) {nonce plain : Bytes} (aad : Bytes)
    (hnonce : nonce.length = 12) (hplain : plain.length < 2 ^ 16) :
    ∃ ct, aes128gcmSeal P key.toList nonce plain aad = .ok ct ∧
      ct.length = plain.length + AeadKind.tag ∧
      aes128gcmOpen P key.toList nonce ct aad = .ok plain := by
  have hkey : key.toList.length = 16 := Vector.length_toList
  obtain ⟨ct, hseal, hlen, hopen⟩ :=
    hP.gcmDecrypt_gcmEncrypt key.toList nonce plain aad hkey hnonce hplain
  refine ⟨ct, ?_, hlen, ?_⟩
  · rw [aes128gcmSeal, if_neg (not_not.mpr hkey), hseal]
  · rw [aes128gcmOpen, if_neg (not_not.mpr hkey), hopen]

end Seal

/-! ## The primitives as they are -/

/-- The permutation of blocks that takes `plain` to its AES-128 encryption under `key`, and
back, and leaves the other blocks. -/
def aesAt (plain key : Block) : Equiv.Perm Block :=
  Equiv.swap plain (ReferenceCrypto.aes128 key.toList plain.toList)

/-- MD5, SHA-256, CRC-32, AES-128-GCM and ChaCha20-Poly1305 as they are, and AES-128 as it
is on the block `plain`. -/
def referencePrimitives (plain : Block) : HeaderPrimitives where
  toPrimitives := chachaPrimitives
  sha256 := ReferenceCrypto.sha256
  aes128 := aesAt plain
  crc32 := crc32Ieee
  gcmEncrypt key nonce plain aad := some (ReferenceCrypto.gcmSeal key nonce plain aad)
  gcmDecrypt := ReferenceCrypto.gcmOpen

theorem referencePrimitives_lawful (plain : Block) : (referencePrimitives plain).Lawful where
  body := chachaPrimitives_lawful
  gcmDecrypt_gcmEncrypt key nonce plain aad _ _ _ :=
    ⟨_, rfl, ReferenceCrypto.length_gcmSeal .., ReferenceCrypto.gcmOpen_gcmSeal key nonce plain aad⟩

/-- The vector of the source's own test. -/
example : (hmacSha256 (referencePrimitives (.replicate 16 0)) (List.replicate 20 0x0b)
    (asBytes "Hi There")).toList.take 8 = [0xb0, 0x34, 0x4c, 0x61, 0xd8, 0xdb, 0x38, 0x53] := by
  decide +kernel

end XrayRs.Vmess
