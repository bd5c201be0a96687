import Mathlib.Algebra.Order.Ring.Nat
import Mathlib.Data.Int.ModEq
import Mathlib.Data.List.Basic
import Mathlib.Tactic.Common
import Mathlib.Tactic.Ring
import XrayRs.ByteWords

/-! # Reference cryptography

Executable MD5, SHA-1 with HMAC and HKDF, and the ChaCha20-Poly1305 AEAD, on byte
lists, as their standards have them.  Only the shape of their results is proved,
lengths, and that opening undoes sealing; and a test that tells whether a key can
open any of the short messages that another one seals (`chachaOpen_eq_none`). -/

namespace ReferenceCrypto

open ByteWords

/-! ## Words -/

/-- Byte `i` of a number, little-endian. -/
def leByte (n i : Nat) : UInt8 := UInt8.ofNat (n / 256 ^ i)

/-- The low `len` bytes of a number, little-endian. -/
def leBytes (len n : Nat) : Bytes := (List.range len).map (leByte n)

/-- The low `len` bytes of a number, big-endian. -/
def beBytes (len n : Nat) : Bytes := (leBytes len n).reverse

theorem natOfLe_leBytes (len n : Nat) : natOfLe (leBytes len n) = n % 256 ^ len := by
  induction len generalizing n with
  | zero => exact (Nat.mod_one n).symm
  | succ len ih =>
    have hshift : leBytes (len + 1) n = leByte n 0 :: leBytes len (n / 256) := by
      simp only [leBytes, List.range_succ_eq_map, List.map_cons, List.map_map]
      refine congrArg _ (List.map_congr_left fun i _ => ?_)
      rw [Function.comp, leByte, leByte, Nat.pow_succ', Nat.div_div_eq_div_mul]
    have hfirst : (leByte n 0).toNat = n % 256 := by simp [leByte]
    rw [hshift, natOfLe, ih, hfirst, Nat.pow_succ', Nat.mod_mul]

@[simp] theorem length_leBytes (len n : Nat) : (leBytes len n).length = len := by
  simp [leBytes]

@[simp] theorem length_beBytes (len n : Nat) : (beBytes len n).length = len := by
  simp [beBytes]

/-- Rotation to the left. -/
def rotl (w : UInt32) (k : UInt32) : UInt32 := (w <<< k) ||| (w >>> (32 - k))

/-- A message with the padding of MD5 and SHA-1; `len` spells its length in bits. -/
def padded (msg len : Bytes) : Bytes :=
  msg ++ [0x80] ++ List.replicate ((119 - msg.length % 64) % 64) 0 ++ len

/-- The words of a block, spelled by `word`. -/
def words (word : Bytes → Nat) (block : Bytes) : List UInt32 :=
  (chunks 4 block).map fun w => UInt32.ofNat (word w)

/-! ## MD5 -/

/-- Four words of state. -/
structure Md5State where
  a : UInt32
  b : UInt32
  c : UInt32
  d : UInt32

/-- The amounts of rotation, by round. -/
def md5Shifts : List (List UInt32) :=
  [[7, 12, 17, 22], [5, 9, 14, 20], [4, 11, 16, 23], [6, 10, 15, 21]]

/-- The constants of the 64 steps. -/
def md5Consts : List UInt32 :=
  [0xd76aa478, 0xe8c7b756, 0x242070db, 0xc1bdceee, 0xf57c0faf, 0x4787c62a, 0xa8304613, 0xfd469501,
   0x698098d8, 0x8b44f7af, 0xffff5bb1, 0x895cd7be, 0x6b901122, 0xfd987193, 0xa679438e, 0x49b40821,
   0xf61e2562, 0xc040b340, 0x265e5a51, 0xe9b6c7aa, 0xd62f105d, 0x02441453, 0xd8a1e681, 0xe7d3fbc8,
   0x21e1cde6, 0xc33707d6, 0xf4d50d87, 0x455a14ed, 0xa9e3e905, 0xfcefa3f8, 0x676f02d9, 0x8d2a4c8a,
   0xfffa3942, 0x8771f681, 0x6d9d6122, 0xfde5380c, 0xa4beea44, 0x4bdecfa9, 0xf6bb4b60, 0xbebfbc70,
   0x289b7ec6, 0xeaa127fa, 0xd4ef3085, 0x04881d05, 0xd9d4d039, 0xe6db99e5, 0x1fa27cf8, 0xc4ac5665,
   0xf4292244, 0x432aff97, 0xab9423a7, 0xfc93a039, 0x655b59c3, 0x8f0ccc92, 0xffeff47d, 0x85845dd1,
   0x6fa87e4f, 0xfe2ce6e0, 0xa3014314, 0x4e0811a1, 0xf7537e82, 0xbd3af235, 0x2ad7d2bb, 0xeb86d391]

/-- Step `i` on the block `m`. -/
def md5Step (m : List UInt32) (s : Md5State) (i : Nat) : Md5State :=
  let (f, g) :=
    match i / 16 with
    | 0 => ((s.b &&& s.c) ||| (~~~s.b &&& s.d), i)
    | 1 => ((s.d &&& s.b) ||| (~~~s.d &&& s.c), (5 * i + 1) % 16)
    | 2 => (s.b ^^^ s.c ^^^ s.d, (3 * i + 5) % 16)
    | _ => (s.c ^^^ (s.b ||| ~~~s.d), 7 * i % 16)
  let sum := s.a + f + md5Consts.getD i 0 + m.getD g 0
  ⟨s.d, s.b + rotl sum ((md5Shifts.getD (i / 16) []).getD (i % 4) 0), s.b, s.c⟩

/-- One block. -/
def md5Block (s : Md5State) (block : Bytes) : Md5State :=
  let t := (List.range 64).foldl (md5Step (words natOfLe block)) s
  ⟨s.a + t.a, s.b + t.b, s.c + t.c, s.d + t.d⟩

/-- MD5. -/
def md5 (msg : Bytes) : Vector UInt8 16 :=
  let s := (chunks 64 (padded msg (leBytes 8 (8 * msg.length)))).foldl md5Block
    ⟨0x67452301, 0xefcdab89, 0x98badcfe, 0x10325476⟩
  Vector.ofFn fun i : Fin 16 =>
    leByte (([s.a, s.b, s.c, s.d].getD (i.val / 4) 0).toNat) (i.val % 4)

example : (md5 []).toList = [0xd4, 0x1d, 0x8c, 0xd9, 0x8f, 0x00, 0xb2, 0x04, 0xe9, 0x80, 0x09, 0x98,
    0xec, 0xf8, 0x42, 0x7e] := by decide +kernel

/-! ## SHA-1, HMAC and HKDF -/

/-- Five words of state. -/
structure Sha1State where
  a : UInt32
  b : UInt32
  c : UInt32
  d : UInt32
  e : UInt32

/-- The message schedule: each word from the sixteen before it, the last first. -/
def sha1Schedule : Nat → List UInt32 → List UInt32
  | 0, ws => ws
  | n + 1, ws =>
    sha1Schedule n (rotl (ws.getD 2 0 ^^^ ws.getD 7 0 ^^^ ws.getD 13 0 ^^^ ws.getD 15 0) 1 :: ws)

/-- Step `i` with its word. -/
def sha1Step (s : Sha1State) (w : UInt32 × Nat) : Sha1State :=
  let (f, k) : UInt32 × UInt32 :=
    match w.2 / 20 with
    | 0 => ((s.b &&& s.c) ||| (~~~s.b &&& s.d), 0x5a827999)
    | 1 => (s.b ^^^ s.c ^^^ s.d, 0x6ed9eba1)
    | 2 => ((s.b &&& s.c) ||| (s.b &&& s.d) ||| (s.c &&& s.d), 0x8f1bbcdc)
    | _ => (s.b ^^^ s.c ^^^ s.d, 0xca62c1d6)
  ⟨rotl s.a 5 + f + s.e + k + w.1, s.a, rotl s.b 30, s.c, s.d⟩

/-- One block. -/
def sha1Block (s : Sha1State) (block : Bytes) : Sha1State :=
  let ws := (sha1Schedule 64 (words natOfBe block).reverse).reverse
  let t := ws.zipIdx.foldl sha1Step s
  ⟨s.a + t.a, s.b + t.b, s.c + t.c, s.d + t.d, s.e + t.e⟩

/-- SHA-1. -/
def sha1 (msg : Bytes) : Bytes :=
  let s := (chunks 64 (padded msg (beBytes 8 (8 * msg.length)))).foldl sha1Block
    ⟨0x67452301, 0xefcdab89, 0x98badcfe, 0x10325476, 0xc3d2e1f0⟩
  [s.a, s.b, s.c, s.d, s.e].flatMap fun w => beBytes 4 w.toNat

@[simp] theorem length_sha1 (msg : Bytes) : (sha1 msg).length = 20 := by
  simp [sha1]

example : sha1 [0x61, 0x62, 0x63] = [0xa9, 0x99, 0x3e, 0x36, 0x47, 0x06, 0x81, 0x6a, 0xba, 0x3e, 0x25,
    0x71, 0x78, 0x50, 0xc2, 0x6c, 0x9c, 0xd0, 0xd8, 0x9d] := by decide +kernel

/-- HMAC-SHA1. -/
def hmacSha1 (key msg : Bytes) : Bytes :=
  let key := if 64 < key.length then sha1 key else key
  let key := key ++ List.replicate (64 - key.length) 0
  sha1 (key.map (· ^^^ 0x5c) ++ sha1 (key.map (· ^^^ 0x36) ++ msg))

/-- The blocks of HKDF's expansion from block `i` on, after `prev`. -/
def hkdfBlocks (prk info : Bytes) : Nat → Nat → Bytes → Bytes
  | 0, _, _ => []
  | n + 1, i, prev =>
    let block := hmacSha1 prk (prev ++ info ++ [UInt8.ofNat i])
    block ++ hkdfBlocks prk info n (i + 1) block

theorem length_hkdfBlocks (prk info : Bytes) (n i : Nat) (prev : Bytes) :
    (hkdfBlocks prk info n i prev).length = 20 * n := by
  induction n generalizing i prev with
  | zero => rfl
  | succ n ih =>
    rw [hkdfBlocks, List.length_append, ih, hmacSha1, length_sha1]
    omega

/-- HKDF-SHA1, to at most 255 blocks. -/
def hkdfSha1 (secret salt info : Bytes) (len : Nat) : Option Bytes :=
  if len ≤ 255 * 20 then
    some ((hkdfBlocks (hmacSha1 salt secret) info ((len + 19) / 20) 1 []).take len)
  else none

theorem exists_hkdfSha1 (secret salt info : Bytes) {len : Nat} (h : len ≤ 255 * 20) :
    ∃ out, hkdfSha1 secret salt info len = some out ∧ out.length = len := by
  refine ⟨_, if_pos h, ?_⟩
  rw [List.length_take, length_hkdfBlocks]
  omega

/-! ## ChaCha20-Poly1305 -/

/-- The quarter round on the words `a`, `b`, `c`, `d` of a state. -/
def quarterRound (s : List UInt32) (ix : Nat × Nat × Nat × Nat) : List UInt32 :=
  let (ia, ib, ic, id) := ix
  let a := s.getD ia 0 + s.getD ib 0
  let d := rotl (s.getD id 0 ^^^ a) 16
  let c := s.getD ic 0 + d
  let b := rotl (s.getD ib 0 ^^^ c) 12
  let a := a + b
  let d := rotl (d ^^^ a) 8
  let c := c + d
  let b := rotl (b ^^^ c) 7
  (((s.set ia a).set ib b).set ic c).set id d

/-- A column round and a diagonal round. -/
def doubleRound (s : List UInt32) : List UInt32 :=
  [(0, 4, 8, 12), (1, 5, 9, 13), (2, 6, 10, 14), (3, 7, 11, 15),
    (0, 5, 10, 15), (1, 6, 11, 12), (2, 7, 8, 13), (3, 4, 9, 14)].foldl quarterRound s

/-- The words that a block starts from. -/
def chachaState (key nonce : Bytes) (counter : Nat) : List UInt32 :=
  [0x61707865, 0x3320646e, 0x79622d32, 0x6b206574] ++ words natOfLe key ++
    [UInt32.ofNat counter] ++ words natOfLe nonce

/-- Ten double rounds. -/
def chachaRounds (s : List UInt32) : List UInt32 :=
  (List.range 10).foldl (fun s _ => doubleRound s) s

/-- A block of the key stream. -/
def chachaBlock (key nonce : Bytes) (counter : Nat) : Bytes :=
  let s := chachaState key nonce counter
  (List.zipWith (· + ·) s (chachaRounds s)).flatMap fun w => leBytes 4 w.toNat

example : (chachaBlock ((List.range 32).map UInt8.ofNat) [0, 0, 0, 9, 0, 0, 0, 0x4a, 0, 0, 0, 0] 1).take
    16 = [0x10, 0xf1, 0xe7, 0xe4, 0xd1, 0x3b, 0x59, 0x15, 0x50, 0x0f, 0xdd, 0x1f, 0xa3, 0x20, 0x71,
      0xc4] := by decide +kernel

/-- The first `len` bytes of the key stream, from block 1 on. -/
def keystream (key nonce : Bytes) (len : Nat) : Bytes :=
  (List.range len).map fun i => (chachaBlock key nonce (1 + i / 64)).getD (i % 64) 0

/-- The multiplier of a Poly1305 key. -/
def clamped (key : Bytes) : Nat := natOfLe (key.take 16) &&& 0x0ffffffc0ffffffc0ffffffc0fffffff

/-- Poly1305 of a message under a 32-byte key. -/
def poly1305 (key msg : Bytes) : Bytes :=
  let acc := (chunks 16 msg).foldl
    (fun acc block => (acc + natOfLe (block ++ [1])) * clamped key % (2 ^ 130 - 5)) 0
  leBytes 16 (acc + natOfLe (key.drop 16))

/-- The Poly1305 key of a message. -/
def oneTimeKey (key nonce : Bytes) : Bytes := (chachaBlock key nonce 0).take 32

/-- The words in between told, the rounds need not be run for each byte. -/
theorem oneTimeKey_of_rounds {key nonce : Bytes} {s t : List UInt32}
    (hs : chachaState key nonce 0 = s) (ht : chachaRounds s = t) : oneTimeKey key nonce =
      ((List.zipWith (· + ·) s t).flatMap fun w => leBytes 4 w.toNat).take 32 := by
  rw [oneTimeKey, chachaBlock, hs, ht]

/-- The tag of a ciphertext, with empty associated data. -/
def tag (key nonce ct : Bytes) : Bytes :=
  poly1305 (oneTimeKey key nonce)
    (ct ++ List.replicate ((16 - ct.length % 16) % 16) 0 ++ leBytes 8 0 ++ leBytes 8 ct.length)

/-- Bytewise exclusive or with the key stream. -/
def mask (key nonce bs : Bytes) : Bytes := List.zipWith (· ^^^ ·) bs (keystream key nonce bs.length)

/-- Sealing: the masked message and its tag. -/
def chachaSeal (key nonce plain : Bytes) : Bytes :=
  mask key nonce plain ++ tag key nonce (mask key nonce plain)

/-- Opening: the tag is checked, the mask taken off. -/
def chachaOpen (key nonce sealed : Bytes) : Option Bytes :=
  if sealed.length < 16 then none
  else
    let ct := sealed.take (sealed.length - 16)
    if tag key nonce ct = sealed.drop (sealed.length - 16) then some (mask key nonce ct) else none

@[simp] theorem length_tag (key nonce ct : Bytes) : (tag key nonce ct).length = 16 := by
  simp [tag, poly1305]

@[simp] theorem length_mask (key nonce bs : Bytes) : (mask key nonce bs).length = bs.length := by
  simp [mask, keystream]

theorem zipWith_xor_zipWith_xor : ∀ {bs ks : Bytes}, bs.length = ks.length →
    List.zipWith (· ^^^ ·) (List.zipWith (· ^^^ ·) bs ks) ks = bs := by
  intro bs
  induction bs with
  | nil => intro ks _; rfl
  | cons b bs ih =>
    intro ks h
    cases ks with
    | nil => cases h
    | cons k ks =>
      simp only [List.zipWith_cons_cons, UInt8.xor_assoc, UInt8.xor_self, UInt8.xor_zero]
      rw [ih (Nat.succ.inj h)]

/-- The mask comes off by itself. -/
theorem mask_mask (key nonce bs : Bytes) : mask key nonce (mask key nonce bs) = bs := by
  have hlen : bs.length = (keystream key nonce bs.length).length := by simp [keystream]
  have hmask := length_mask key nonce bs
  unfold mask at hmask ⊢
  rw [hmask]
  exact zipWith_xor_zipWith_xor hlen

theorem length_chachaSeal (key nonce plain : Bytes) :
    (chachaSeal key nonce plain).length = plain.length + 16 := by
  simp [chachaSeal]

/-- What is opened had a tag. -/
theorem length_chachaOpen {key nonce ct plain : Bytes} (h : chachaOpen key nonce ct = some plain) :
    ct.length = plain.length + 16 := by
  unfold chachaOpen at h
  by_cases hshort : ct.length < 16
  · rw [if_pos hshort] at h
    cases h
  · rw [if_neg hshort] at h
    dsimp only at h
    split at h
    · obtain rfl := Option.some.inj h
      rw [length_mask, List.length_take]
      omega
    · cases h

/-- **Opening undoes sealing.** -/
theorem chachaOpen_chachaSeal (key nonce plain : Bytes) :
    chachaOpen key nonce (chachaSeal key nonce plain) = some plain := by
  have hlen : (chachaSeal key nonce plain).length - 16 = (mask key nonce plain).length := by
    rw [length_chachaSeal, length_mask]
    rfl
  have htake : (chachaSeal key nonce plain).take (mask key nonce plain).length =
      mask key nonce plain := List.take_left' rfl
  have hdrop : (chachaSeal key nonce plain).drop (mask key nonce plain).length =
      tag key nonce (mask key nonce plain) := List.drop_left' rfl
  unfold chachaOpen
  rw [if_neg (by rw [length_chachaSeal]; omega)]
  simp only
  rw [hlen, htake, hdrop, if_pos rfl, mask_mask]

/-! ## Two keys

The tag of a message of less than 16 bytes is a polynomial of degree one in the number that
the message spells, modulo `2 ^ 130 - 5` and then `2 ^ 128`.  So only nine numbers could have
one tag under two given keys, and these are far too large for so few bytes. -/

/-- The tag under a Poly1305 key of a message of `len` bytes that spells `n`. -/
def shortTag (key : Bytes) (len n : Nat) : Nat :=
  ((n + 2 ^ 128) * clamped key % (2 ^ 130 - 5) + (2 ^ 64 * len + 2 ^ 128)) * clamped key %
    (2 ^ 130 - 5) + natOfLe (key.drop 16)

theorem tag_of_short {key nonce ct : Bytes} (hne : ct ≠ []) (hlen : ct.length < 16) :
    tag key nonce ct = leBytes 16 (shortTag (oneTimeKey key nonce) ct.length (natOfLe ct)) := by
  have hpos : 0 < ct.length := List.length_pos_iff.mpr hne
  have hpad : (16 - ct.length % 16) % 16 = 16 - ct.length := by omega
  have hfirst : (ct ++ List.replicate (16 - ct.length) 0).length = 16 := by
    rw [List.length_append, List.length_replicate]
    omega
  have hchunks : chunks 16 (ct ++ List.replicate (16 - ct.length) 0 ++ leBytes 8 0 ++
      leBytes 8 ct.length) =
        [ct ++ List.replicate (16 - ct.length) 0, leBytes 8 0 ++ leBytes 8 ct.length] := by
    rw [List.append_assoc, chunks_of_ne_nil (by decide) (by simp [hne]), List.take_left' hfirst,
      List.drop_left' hfirst, chunks_of_length_le (by simp [leBytes]) (by simp)]
  have hmessage : natOfLe (ct ++ List.replicate (16 - ct.length) 0 ++ [1]) = natOfLe ct + 2 ^ 128 := by
    rw [List.append_assoc, natOfLe_append, natOfLe_append, natOfLe_replicate_zero,
      List.length_replicate, Nat.zero_add, ← Nat.mul_assoc, ← Nat.pow_add,
      show ct.length + (16 - ct.length) = 16 by omega]
    simp only [natOfLe, UInt8.reduceToNat]
    omega
  have hlengths : natOfLe (leBytes 8 0 ++ leBytes 8 ct.length ++ [1]) =
      2 ^ 64 * ct.length + 2 ^ 128 := by
    rw [List.append_assoc, natOfLe_append, natOfLe_append, natOfLe_leBytes, natOfLe_leBytes,
      length_leBytes, length_leBytes, Nat.mod_eq_of_lt (by omega : ct.length < 256 ^ 8)]
    simp only [natOfLe, UInt8.reduceToNat]
    omega
  rw [tag, poly1305, hpad, hchunks, shortTag, List.foldl_cons, List.foldl_cons, List.foldl_nil,
    hmessage, hlengths, Nat.zero_add]

section

variable (key key' : Bytes)

/-- By how much the square of the multiplier of one key is ahead of that of another. -/
def gap : Int := (clamped key : Int) ^ 2 - (clamped key' : Int) ^ 2

/-- The gap times the number of a message whose tags are `m` times `2 ^ 128` apart. -/
def needed (len : Nat) (m : Int) : Int :=
  2 ^ 128 * m - natOfLe (key.drop 16) + natOfLe (key'.drop 16) -
    (gap key key' * 2 ^ 128 + (2 ^ 64 * len + 2 ^ 128) * (clamped key - clamped key'))

/-- `inv` inverts the gap, and the nine numbers that could have one tag under both keys are
too large for `len` bytes. -/
structure TagsApart (inv : Int) (len : Nat) : Prop where
  inverse : gap key key' * inv % (2 ^ 130 - 5) = 1
  large : ∀ m ∈ ([-4, -3, -2, -1, 0, 1, 2, 3, 4] : List Int),
    256 ^ len ≤ needed key key' len m * inv % (2 ^ 130 - 5)

end

theorem shortTag_modEq (key : Bytes) (len n : Nat) :
    (shortTag key len n : Int) ≡ ((n + 2 ^ 128) * clamped key + (2 ^ 64 * len + 2 ^ 128)) *
      clamped key + natOfLe (key.drop 16) [ZMOD 2 ^ 130 - 5] := by
  rw [shortTag]
  push_cast
  exact ((Int.mod_modEq _ _).trans (((Int.mod_modEq _ _).add_right _).mul_right _)).add_right _

theorem oneTimeKey_lt (key nonce : Bytes) :
    natOfLe ((oneTimeKey key nonce).drop 16) < 2 ^ 128 := by
  refine (natOfLe_lt _).trans_le ?_
  have hlen : ((oneTimeKey key nonce).drop 16).length ≤ 16 := by
    rw [List.length_drop, oneTimeKey, List.length_take]
    omega
  exact (Nat.pow_le_pow_right (by decide) hlen).trans (by decide)

theorem shortTag_lt {key : Bytes} (hkey : natOfLe (key.drop 16) < 2 ^ 128) (len n : Nat) :
    shortTag key len n < 2 ^ 130 + 2 ^ 128 := by
  have hlt := Nat.mod_lt (((n + 2 ^ 128) * clamped key % (2 ^ 130 - 5) + (2 ^ 64 * len + 2 ^ 128)) *
    clamped key) (by decide : 0 < 2 ^ 130 - 5)
  rw [shortTag]
  omega

/-- A message whose two tags are `m` times `2 ^ 128` apart spells what is needed for that. -/
theorem gap_mul_modEq {key key' : Bytes} {len n : Nat} {m : Int}
    (hm : (shortTag key len n : Int) - shortTag key' len n = 2 ^ 128 * m) :
    gap key key' * n ≡ needed key key' len m [ZMOD 2 ^ 130 - 5] := by
  have hsub := (shortTag_modEq key len n).sub (shortTag_modEq key' len n)
  rw [hm] at hsub
  have hkeep := hsub.symm.sub_right (natOfLe (key.drop 16) - natOfLe (key'.drop 16) +
    gap key key' * 2 ^ 128 + (2 ^ 64 * len + 2 ^ 128) * (clamped key - clamped key') : Int)
  convert hkeep using 1
  · rw [gap]
    ring
  · rw [needed]
    ring

/-- Two keys that are apart give no message of `len` bytes tags that are a small multiple of
`2 ^ 128` apart. -/
theorem TagsApart.shortTag_ne {key key' : Bytes} {inv : Int} {len n : Nat}
    (hapart : TagsApart key key' inv len) (hn : n < 256 ^ len) {m : Int}
    (hsmall : m ∈ ([-4, -3, -2, -1, 0, 1, 2, 3, 4] : List Int)) :
    (shortTag key len n : Int) - shortTag key' len n ≠ 2 ^ 128 * m := by
  intro hm
  have hspelled : (n : Int) ≡ needed key key' len m * inv [ZMOD 2 ^ 130 - 5] := by
    have hone : gap key key' * inv ≡ 1 [ZMOD 2 ^ 130 - 5] := hapart.inverse
    calc (n : Int) = 1 * n := (one_mul _).symm
      _ ≡ gap key key' * inv * n [ZMOD 2 ^ 130 - 5] := (hone.symm.mul_right _)
      _ = gap key key' * n * inv := by ring
      _ ≡ needed key key' len m * inv [ZMOD 2 ^ 130 - 5] := (gap_mul_modEq hm).mul_right _
  have hneeded := hapart.large m hsmall
  have hbelow :=
    Int.emod_lt_of_pos (needed key key' len m * inv) (by decide : (0 : Int) < 2 ^ 130 - 5)
  have hlt : (n : Int) < 256 ^ len := by exact_mod_cast hn
  rw [← hspelled.eq, Int.emod_eq_of_lt (Int.natCast_nonneg n) (by omega)] at hneeded
  omega

/-- **A short message has two tags under two keys that are apart.** -/
theorem tag_ne {key key' nonce ct : Bytes} {inv : Int} (hne : ct ≠ []) (hlen : ct.length < 16)
    (hapart : TagsApart (oneTimeKey key nonce) (oneTimeKey key' nonce) inv ct.length) :
    tag key nonce ct ≠ tag key' nonce ct := by
  rw [tag_of_short hne hlen, tag_of_short hne hlen]
  intro heq
  have hmod := congrArg natOfLe heq
  rw [natOfLe_leBytes, natOfLe_leBytes] at hmod
  have hlt := shortTag_lt (oneTimeKey_lt key nonce) ct.length (natOfLe ct)
  have hlt' := shortTag_lt (oneTimeKey_lt key' nonce) ct.length (natOfLe ct)
  have hne' := fun m hm => hapart.shortTag_ne (natOfLe_lt ct) (m := m) hm
  revert hmod hlt hlt' hne'
  generalize shortTag (oneTimeKey key nonce) ct.length (natOfLe ct) = a
  generalize shortTag (oneTimeKey key' nonce) ct.length (natOfLe ct) = b
  intro hmod hlt hlt' hne'
  -- the two are a multiple of `2 ^ 128` apart, and less than five times that
  refine hne' (a / 2 ^ 128 - b / 2 ^ 128) ?_ (by omega)
  simp only [List.mem_cons, List.not_mem_nil, or_false]
  omega

/-- What a key seals in a short message, the other cannot open. -/
theorem chachaOpen_eq_none {key key' nonce plain : Bytes} {inv : Int} (hne : plain ≠ [])
    (hlen : plain.length < 16)
    (hapart : TagsApart (oneTimeKey key' nonce) (oneTimeKey key nonce) inv plain.length) :
    chachaOpen key' nonce (chachaSeal key nonce plain) = none := by
  have hmask : (mask key nonce plain).length = plain.length := length_mask ..
  have hsealed : (chachaSeal key nonce plain).length - 16 = (mask key nonce plain).length := by
    rw [length_chachaSeal, hmask]
    rfl
  have htake : (chachaSeal key nonce plain).take (mask key nonce plain).length =
      mask key nonce plain := List.take_left' rfl
  have hdrop : (chachaSeal key nonce plain).drop (mask key nonce plain).length =
      tag key nonce (mask key nonce plain) := List.drop_left' rfl
  have htags : tag key' nonce (mask key nonce plain) ≠ tag key nonce (mask key nonce plain) := by
    refine tag_ne ?_ (by omega) (by rwa [hmask])
    rw [← List.length_pos_iff, hmask]
    exact List.length_pos_iff.mpr hne
  unfold chachaOpen
  split
  · rfl
  · simp only
    rw [hsealed, htake, hdrop, if_neg htags]

end ReferenceCrypto
