import Mathlib.Logic.Function.Iterate
import XrayRs.Net
import XrayRs.ReferenceCrypto

/-! # Ciphers, key schedules and nonce counters

`proxy/src/crypto.rs`.  The AEAD ciphers and the hash functions come from other
crates: `Primitives` is what they provide, and `Primitives.Lawful` what is relied
on of them. -/

namespace XrayRs

open ByteWords

/-! ## AEAD -/

/-- `AeadKind`. -/
inductive AeadKind
  | aes128Gcm
  | aes256Gcm
  | chaCha20Poly1305
  | xChaCha20Poly1305
  deriving DecidableEq

namespace AeadKind

/-- `AeadKind::key_size`. -/
def keySize : AeadKind → Nat
  | .aes128Gcm => 16
  | .aes256Gcm | .chaCha20Poly1305 | .xChaCha20Poly1305 => 32

/-- `AeadKind::nonce_size`. -/
def nonceSize : AeadKind → Nat
  | .xChaCha20Poly1305 => 24
  | _ => 12

/-- `AeadKind::TAG`. -/
def tag : Nat := 16

end AeadKind

/-- **The primitives of other crates**: AEAD encryption and decryption under a key
and a nonce, with empty associated data; MD5; `HKDF-SHA1` of a secret, a salt and
an info string, to a length; and the output of SHAKE128, byte by byte. -/
structure Primitives where
  encrypt : AeadKind → (key nonce plain : Bytes) → Option Bytes
  decrypt : AeadKind → (key nonce ct : Bytes) → Option Bytes
  md5 : Bytes → Vector UInt8 16
  hkdfSha1 : (secret salt info : Bytes) → Nat → Option Bytes
  shake128 : Bytes → Nat → UInt8

/-- **What is relied on.**  Encryption of a short message succeeds, adds a tag and
is undone by decryption; a key can be expanded to a short length. -/
structure Primitives.Lawful (P : Primitives) : Prop where
  decrypt_encrypt : ∀ kind key nonce plain, key.length = kind.keySize →
    nonce.length = kind.nonceSize → plain.length < 2 ^ 16 →
    ∃ ct, P.encrypt kind key nonce plain = some ct ∧ ct.length = plain.length + AeadKind.tag ∧
      P.decrypt kind key nonce ct = some plain
  hkdfSha1_length : ∀ secret salt info len, len ≤ 32 →
    ∃ out, P.hkdfSha1 secret salt info len = some out ∧ out.length = len

/-- Primitives for ChaCha20-Poly1305, MD5 and HKDF-SHA1 as they are.  The other
ciphers and SHAKE128 are only stood in for. -/
def chachaPrimitives : Primitives where
  encrypt _ key nonce plain := some (ReferenceCrypto.chachaSeal key nonce plain)
  decrypt _ key nonce ct := ReferenceCrypto.chachaOpen key nonce ct
  md5 := ReferenceCrypto.md5
  hkdfSha1 := ReferenceCrypto.hkdfSha1
  shake128 _ _ := 0

theorem chachaPrimitives_lawful : chachaPrimitives.Lawful where
  decrypt_encrypt _ key nonce plain _ _ _ :=
    ⟨_, rfl, ReferenceCrypto.length_chachaSeal ..,
      ReferenceCrypto.chachaOpen_chachaSeal key nonce plain⟩
  hkdfSha1_length secret salt info _ hlen :=
    ReferenceCrypto.exists_hkdfSha1 secret salt info (Nat.le_trans hlen (by decide))

/-- `Aead`: a kind and a key of its length. -/
structure Aead where
  kind : AeadKind
  key : Bytes
  key_length : key.length = kind.keySize
  deriving DecidableEq

namespace Aead

/-- `Aead::new`. -/
def new (kind : AeadKind) (key : Bytes) : Except Error Aead :=
  if h : key.length = kind.keySize then .ok ⟨kind, key, h⟩ else .error (.crypto "aead key")

theorem new_of_length {kind : AeadKind} {key : Bytes} (h : key.length = kind.keySize) :
    new kind key = .ok ⟨kind, key, h⟩ := by
  rw [new, dif_pos h]

variable (P : Primitives)

/-- `Aead::seal`. -/
def «seal» (a : Aead) (nonce plain : Bytes) : Except Error Bytes :=
  match P.encrypt a.kind a.key nonce plain with
  | some ct => .ok ct
  | none => .error (.crypto "aead seal")

/-- `Aead::open`. -/
def «open» (a : Aead) (nonce ct : Bytes) : Except Error Bytes :=
  match P.decrypt a.kind a.key nonce ct with
  | some plain => .ok plain
  | none => .error (.crypto "aead open")

variable {P}

/-- A short message is sealed with a tag, and opened again. -/
theorem open_seal (hP : P.Lawful) (a : Aead) {nonce plain : Bytes}
    (hnonce : nonce.length = a.kind.nonceSize) (hplain : plain.length < 2 ^ 16) :
    ∃ ct, a.seal P nonce plain = .ok ct ∧ ct.length = plain.length + AeadKind.tag ∧
      a.open P nonce ct = .ok plain := by
  obtain ⟨ct, henc, hlen, hdec⟩ :=
    hP.decrypt_encrypt a.kind a.key nonce plain a.key_length hnonce hplain
  exact ⟨ct, by rw [Aead.seal, henc], hlen, by rw [Aead.open, hdec]⟩

theorem open_of_decrypt_none {a : Aead} {nonce ct : Bytes}
    (h : P.decrypt a.kind a.key nonce ct = none) :
    a.open P nonce ct = .error (.crypto "aead open") := by
  rw [Aead.open, h]

end Aead

/-! ## Nonce counters -/

/-- One more, little-endian, in as many bytes as there are: the loop of
`NonceCtr::inc`. -/
def incBytes : Bytes → Bytes
  | [] => []
  | b :: bs => if b = 255 then 0 :: incBytes bs else (b + 1) :: bs

/-- `NonceCtr`: a buffer of 24 bytes of which the first `size` count. -/
structure NonceCtr where
  buf : Bytes
  size : Nat
  buf_length : buf.length = 24
  size_le : size ≤ 24
  deriving DecidableEq

theorem length_incBytes (bs : Bytes) : (incBytes bs).length = bs.length := by
  induction bs with
  | nil => rfl
  | cons b bs ih =>
    unfold incBytes
    split
    · rw [List.length_cons, ih, List.length_cons]
    · rfl

/-- Counting wraps around at the last value. -/
theorem natOfLe_incBytes (bs : Bytes) :
    natOfLe (incBytes bs) = (natOfLe bs + 1) % 256 ^ bs.length := by
  induction bs with
  | nil => rfl
  | cons b bs ih =>
    rw [List.length_cons, Nat.pow_succ', incBytes]
    split
    · next hb =>
      have hcarry : natOfLe (b :: bs) + 1 = 256 * (natOfLe bs + 1) := by
        subst hb
        simp only [natOfLe, UInt8.reduceToNat]
        omega
      rw [hcarry, Nat.mul_mod_mul_left, ← ih]
      exact Nat.zero_add _
    · next hb =>
      have hlt := natOfLe_lt bs
      have hb' : b.toNat < 255 := by
        have hne : b.toNat ≠ 255 := fun h => hb (UInt8.toNat_inj.mp h)
        have hle := b.toNat_lt
        omega
      have hsucc : (b + 1).toNat = b.toNat + 1 := by
        rw [UInt8.toNat_add]
        exact Nat.mod_eq_of_lt (by simp; omega)
      simp only [natOfLe, hsucc]
      rw [Nat.mod_eq_of_lt (by omega)]
      omega

namespace NonceCtr

/-- `NonceCtr::new`. -/
def new (size : Nat) : NonceCtr :=
  ⟨List.replicate 24 0, min size 24, List.length_replicate .., Nat.min_le_right ..⟩

/-- `NonceCtr::bytes`. -/
def bytes (n : NonceCtr) : Bytes := n.buf.take n.size

/-- `NonceCtr::inc`. -/
def inc (n : NonceCtr) : NonceCtr where
  buf := incBytes (n.buf.take n.size) ++ n.buf.drop n.size
  size := n.size
  buf_length := by
    rw [List.length_append, length_incBytes, ← List.length_append, List.take_append_drop,
      n.buf_length]
  size_le := n.size_le

theorem length_bytes (n : NonceCtr) : n.bytes.length = n.size := by
  rw [bytes, List.length_take, n.buf_length]
  exact Nat.min_eq_left n.size_le

theorem bytes_inc (n : NonceCtr) : n.inc.bytes = incBytes n.bytes := by
  have hlen : (incBytes (n.buf.take n.size)).length = n.size := by
    rw [length_incBytes]
    exact n.length_bytes
  unfold bytes inc
  exact List.take_left' hlen

/-- **The counter counts**: after `k` increments it spells `k`, little-endian. -/
theorem natOfLe_bytes_iterate (size k : Nat) :
    natOfLe (inc^[k] (new size)).bytes = k % 256 ^ min size 24 ∧
      (inc^[k] (new size)).size = min size 24 := by
  induction k with
  | zero =>
    refine ⟨?_, rfl⟩
    show natOfLe ((List.replicate 24 0).take (min size 24)) = _
    rw [List.take_replicate, natOfLe_replicate_zero, Nat.zero_mod]
  | succ k ih =>
    obtain ⟨hval, hsize⟩ := ih
    rw [Function.iterate_succ_apply']
    refine ⟨?_, hsize⟩
    rw [bytes_inc, natOfLe_incBytes, length_bytes, hval, hsize]
    exact Nat.mod_add_mod ..

/-- Counters of the same size that were incremented a different number of times
differ, as long as they have not wrapped around. -/
theorem iterate_bytes_inj {size i j : Nat} (hi : i < 256 ^ min size 24) (hj : j < 256 ^ min size 24)
    (h : (inc^[i] (new size)).bytes = (inc^[j] (new size)).bytes) : i = j := by
  have hi' := (natOfLe_bytes_iterate size i).1
  have hj' := (natOfLe_bytes_iterate size j).1
  rw [Nat.mod_eq_of_lt hi] at hi'
  rw [Nat.mod_eq_of_lt hj] at hj'
  rw [← hi', ← hj', h]

/-- The bytes beyond the counter stay as they are. -/
theorem drop_inc (n : NonceCtr) : n.inc.buf.drop n.size = n.buf.drop n.size := by
  have hlen : (incBytes (n.buf.take n.size)).length = n.size := by
    rw [length_incBytes]
    exact n.length_bytes
  unfold inc
  exact List.drop_left' hlen

theorem drop_iterate (size k : Nat) :
    (inc^[k] (new size)).buf.drop (min size 24) = List.replicate (24 - min size 24) 0 := by
  induction k with
  | zero => exact List.drop_replicate
  | succ k ih =>
    rw [Function.iterate_succ_apply']
    have hkeep := drop_inc (inc^[k] (new size))
    rw [(natOfLe_bytes_iterate size k).2] at hkeep
    exact hkeep.trans ih

/-- **Nonces never repeat**: after `k` increments a counter of `n` bytes spells `k`,
little-endian, nothing is written beyond it, and the nonces of a run that does not come
around are distinct. -/
theorem nonces_never_repeat {n : Nat} (hn : n ≤ 24) (k : Nat) :
    (inc^[k] (new n)).bytes.length = n ∧
      natOfLe (inc^[k] (new n)).bytes = k % 256 ^ n ∧
      (inc^[k] (new n)).buf.drop n = List.replicate (24 - n) 0 ∧
      (k < 256 ^ n → ((List.range (k + 1)).map fun j => (inc^[j] (new n)).bytes).Nodup) := by
  have hmin : min n 24 = n := Nat.min_eq_left hn
  obtain ⟨hval, hsize⟩ := natOfLe_bytes_iterate n k
  have hdrop := drop_iterate n k
  rw [hmin] at hval hsize hdrop
  refine ⟨by rw [length_bytes, hsize], hval, hdrop, fun hk => ?_⟩
  refine List.pairwise_map.mpr (List.nodup_range.imp_of_mem ?_)
  intro i j hi hj hne h
  rw [List.mem_range] at hi hj
  exact hne (iterate_bytes_inj (by rw [hmin]; omega) (by rw [hmin]; omega) h)

/-- A counter of two bytes that has carried. -/
theorem nonces_never_repeat_two : natOfLe (inc^[300] (new 2)).bytes = 300 ∧
    ((List.range 301).map fun j => (inc^[j] (new 2)).bytes).Nodup := by
  obtain ⟨-, hval, -, hnodup⟩ := nonces_never_repeat (n := 2) (by decide) 300
  exact ⟨hval, hnodup (by decide)⟩

end NonceCtr

/-! ## Key schedules -/

section Keys

variable (P : Primitives)

/-- The loop of `evp_bytes_to_key`. -/
def evpLoop (password : Bytes) (keyLen : Nat) (key prev : Bytes) : Bytes :=
  if key.length < keyLen then
    let digest := (P.md5 (prev ++ password)).toList
    evpLoop password keyLen (key ++ digest) digest
  else key.take keyLen
termination_by keyLen - key.length
decreasing_by
  rw [List.length_append, Vector.length_toList]
  omega

/-- `evp_bytes_to_key`. -/
def evpBytesToKey (password : Bytes) (keyLen : Nat) : Bytes := evpLoop P password keyLen [] []

/-- `hkdf_sha1`, filling `len` bytes. -/
def hkdfSha1 (secret salt info : Bytes) (len : Nat) : Except Error Bytes :=
  match P.hkdfSha1 secret salt info len with
  | some out => .ok out
  | none => .error (.crypto "hkdf expand")

end Keys

end XrayRs
