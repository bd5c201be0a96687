import XrayRs.ReferenceCrypto

/-! # Reference AES-128-GCM and SHA-256

Executable SHA-256, the AES-128 block cipher and AES-128-GCM with associated data, on
byte lists, as their standards have them.  Of GCM only its shape is proved: lengths, and
that opening undoes sealing. -/

namespace ReferenceCrypto

open ByteWords

/-! ## SHA-256 -/

/-- The constants of the 64 steps. -/
def sha256Consts : List UInt32 :=
  [0x428a2f98, 0x71374491, 0xb5c0fbcf, 0xe9b5dba5, 0x3956c25b, 0x59f111f1, 0x923f82a4, 0xab1c5ed5,
    0xd807aa98, 0x12835b01, 0x243185be, 0x550c7dc3, 0x72be5d74, 0x80deb1fe, 0x9bdc06a7, 0xc19bf174,
    0xe49b69c1, 0xefbe4786, 0x0fc19dc6, 0x240ca1cc, 0x2de92c6f, 0x4a7484aa, 0x5cb0a9dc, 0x76f988da,
    0x983e5152, 0xa831c66d, 0xb00327c8, 0xbf597fc7, 0xc6e00bf3, 0xd5a79147, 0x06ca6351, 0x14292967,
    0x27b70a85, 0x2e1b2138, 0x4d2c6dfc, 0x53380d13, 0x650a7354, 0x766a0abb, 0x81c2c92e, 0x92722c85,
    0xa2bfe8a1, 0xa81a664b, 0xc24b8b70, 0xc76c51a3, 0xd192e819, 0xd6990624, 0xf40e3585, 0x106aa070,
    0x19a4c116, 0x1e376c08, 0x2748774c, 0x34b0bcb5, 0x391c0cb3, 0x4ed8aa4a, 0x5b9cca4f, 0x682e6ff3,
    0x748f82ee, 0x78a5636f, 0x84c87814, 0x8cc70208, 0x90befffa, 0xa4506ceb, 0xbef9a3f7, 0xc67178f2]

/-- The first eight words of state. -/
def sha256Init : List UInt32 :=
  [0x6a09e667, 0xbb67ae85, 0x3c6ef372, 0xa54ff53a, 0x510e527f, 0x9b05688c, 0x1f83d9ab, 0x5be0cd19]

/-- Rotation to the right. -/
def rotr (w k : UInt32) : UInt32 := rotl w (32 - k)

/-- The message schedule: each word from the sixteen before it, the last first. -/
def sha256Schedule : Nat → List UInt32 → List UInt32
  | 0, ws => ws
  | n + 1, ws =>
    let x := ws.getD 14 0
    let y := ws.getD 1 0
    let small0 := rotr x 7 ^^^ rotr x 18 ^^^ (x >>> 3)
    let small1 := rotr y 17 ^^^ rotr y 19 ^^^ (y >>> 10)
    sha256Schedule n ((ws.getD 15 0 + small0 + ws.getD 6 0 + small1) :: ws)

/-- A step with its word and its constant. -/
def sha256Step (s : List UInt32) (wk : UInt32 × UInt32) : List UInt32 :=
  match s with
  | [a, b, c, d, e, f, g, h] =>
    let big0 := rotr a 2 ^^^ rotr a 13 ^^^ rotr a 22
    let big1 := rotr e 6 ^^^ rotr e 11 ^^^ rotr e 25
    let t1 := h + big1 + ((e &&& f) ^^^ (~~~e &&& g)) + wk.1 + wk.2
    let t2 := big0 + ((a &&& b) ^^^ (a &&& c) ^^^ (b &&& c))
    [t1 + t2, a, b, c, d + t1, e, f, g]
  | s => s

/-- One block. -/
def sha256Block (s : List UInt32) (block : Bytes) : List UInt32 :=
  let ws := (sha256Schedule 48 (words natOfBe block).reverse).reverse
  List.zipWith (· + ·) s ((ws.zip sha256Consts).foldl sha256Step s)

/-- SHA-256. -/
def sha256 (msg : Bytes) : Vector UInt8 32 :=
  let s := (chunks 64 (padded msg (beBytes 8 (8 * msg.length)))).foldl sha256Block
    sha256Init
  let out := s.flatMap fun w => beBytes 4 w.toNat
  .ofFn fun i => out.getD i 0

example : (sha256 [0x61, 0x62, 0x63]).toList.take 8 =
    [0xba, 0x78, 0x16, 0xbf, 0x8f, 0x01, 0xcf, 0xea] := by decide +kernel

/-! ## AES-128 -/

/-- The substitution of bytes. -/
def sbox : List UInt8 :=
  [0x63, 0x7c, 0x77, 0x7b, 0xf2, 0x6b, 0x6f, 0xc5, 0x30, 0x01, 0x67, 0x2b, 0xfe, 0xd7, 0xab, 0x76,
    0xca, 0x82, 0xc9, 0x7d, 0xfa, 0x59, 0x47, 0xf0, 0xad, 0xd4, 0xa2, 0xaf, 0x9c, 0xa4, 0x72, 0xc0,
    0xb7, 0xfd, 0x93, 0x26, 0x36, 0x3f, 0xf7, 0xcc, 0x34, 0xa5, 0xe5, 0xf1, 0x71, 0xd8, 0x31, 0x15,
    0x04, 0xc7, 0x23, 0xc3, 0x18, 0x96, 0x05, 0x9a, 0x07, 0x12, 0x80, 0xe2, 0xeb, 0x27, 0xb2, 0x75,
    0x09, 0x83, 0x2c, 0x1a, 0x1b, 0x6e, 0x5a, 0xa0, 0x52, 0x3b, 0xd6, 0xb3, 0x29, 0xe3, 0x2f, 0x84,
    0x53, 0xd1, 0x00, 0xed, 0x20, 0xfc, 0xb1, 0x5b, 0x6a, 0xcb, 0xbe, 0x39, 0x4a, 0x4c, 0x58, 0xcf,
    0xd0, 0xef, 0xaa, 0xfb, 0x43, 0x4d, 0x33, 0x85, 0x45, 0xf9, 0x02, 0x7f, 0x50, 0x3c, 0x9f, 0xa8,
    0x51, 0xa3, 0x40, 0x8f, 0x92, 0x9d, 0x38, 0xf5, 0xbc, 0xb6, 0xda, 0x21, 0x10, 0xff, 0xf3, 0xd2,
    0xcd, 0x0c, 0x13, 0xec, 0x5f, 0x97, 0x44, 0x17, 0xc4, 0xa7, 0x7e, 0x3d, 0x64, 0x5d, 0x19, 0x73,
    0x60, 0x81, 0x4f, 0xdc, 0x22, 0x2a, 0x90, 0x88, 0x46, 0xee, 0xb8, 0x14, 0xde, 0x5e, 0x0b, 0xdb,
    0xe0, 0x32, 0x3a, 0x0a, 0x49, 0x06, 0x24, 0x5c, 0xc2, 0xd3, 0xac, 0x62, 0x91, 0x95, 0xe4, 0x79,
    0xe7, 0xc8, 0x37, 0x6d, 0x8d, 0xd5, 0x4e, 0xa9, 0x6c, 0x56, 0xf4, 0xea, 0x65, 0x7a, 0xae, 0x08,
    0xba, 0x78, 0x25, 0x2e, 0x1c, 0xa6, 0xb4, 0xc6, 0xe8, 0xdd, 0x74, 0x1f, 0x4b, 0xbd, 0x8b, 0x8a,
    0x70, 0x3e, 0xb5, 0x66, 0x48, 0x03, 0xf6, 0x0e, 0x61, 0x35, 0x57, 0xb9, 0x86, 0xc1, 0x1d, 0x9e,
    0xe1, 0xf8, 0x98, 0x11, 0x69, 0xd9, 0x8e, 0x94, 0x9b, 0x1e, 0x87, 0xe9, 0xce, 0x55, 0x28, 0xdf,
    0x8c, 0xa1, 0x89, 0x0d, 0xbf, 0xe6, 0x42, 0x68, 0x41, 0x99, 0x2d, 0x0f, 0xb0, 0x54, 0xbb, 0x16]

@[inherit_doc sbox] def subByte (b : UInt8) : UInt8 := sbox.getD b.toNat 0

/-- A byte times `x` in the field of AES. -/
def xtime (b : UInt8) : UInt8 := if 0x80 ≤ b then (b <<< 1) ^^^ 0x1b else b <<< 1

/-- Bytewise exclusive or. -/
def xorBytes (xs ys : Bytes) : Bytes := List.zipWith (· ^^^ ·) xs ys

/-- Row `r` of the state moves left by `r`; the state is held column by column. -/
def shiftRows (s : Bytes) : Bytes := (List.range 16).map fun i => s.getD ((i + 4 * (i % 4)) % 16) 0

/-- One column times the matrix of AES. -/
def mixColumn (c : Bytes) : Bytes :=
  (List.range 4).map fun i =>
    let x := c.getD i 0
    let y := c.getD ((i + 1) % 4) 0
    xtime x ^^^ xtime y ^^^ y ^^^ c.getD ((i + 2) % 4) 0 ^^^ c.getD ((i + 3) % 4) 0

/-- The key of the next round. -/
def nextKey (k : Bytes) (rcon : UInt8) : Bytes :=
  let t := [subByte (k.getD 13 0) ^^^ rcon, subByte (k.getD 14 0), subByte (k.getD 15 0),
    subByte (k.getD 12 0)]
  let w0 := xorBytes (k.take 4) t
  let w1 := xorBytes ((k.drop 4).take 4) w0
  let w2 := xorBytes ((k.drop 8).take 4) w1
  w0 ++ w1 ++ w2 ++ xorBytes (k.drop 12) w2

/-- A round with the state and the key before it; `last` leaves the columns alone. -/
def aesRound (last : Bool) (s : Bytes × Bytes) (rcon : UInt8) : Bytes × Bytes :=
  let key := nextKey s.2 rcon
  let shifted := shiftRows (s.1.map subByte)
  let mixed := if last then shifted else (chunks 4 shifted).flatMap mixColumn
  (xorBytes mixed key, key)

/-- Encryption of a block. -/
def aes128 (key block : Bytes) : Vector UInt8 16 :=
  let s := [0x01, 0x02, 0x04, 0x08, 0x10, 0x20, 0x40, 0x80, 0x1b].foldl (aesRound false)
    (xorBytes block key, key)
  let out := (aesRound true s 0x36).1
  .ofFn fun i => out.getD i 0

/-! ## AES-128-GCM -/

/-- The product of two blocks in the field of GCM; the first bit is the lowest power. -/
def gfMul (x y : Nat) : Nat :=
  ((List.range 128).foldl (fun (zv : Nat × Nat) i =>
    (if x.testBit (127 - i) then zv.1 ^^^ zv.2 else zv.1,
      if zv.2 % 2 = 1 then (zv.2 / 2) ^^^ (0xe1 * 2 ^ 120) else zv.2 / 2)) (0, y)).1

/-- Zeros up to a whole number of blocks. -/
def padBlock (bs : Bytes) : Bytes := bs ++ List.replicate ((16 - bs.length % 16) % 16) 0

/-- GHASH under the key `h`. -/
def ghash (h : Nat) (bs : Bytes) : Nat :=
  (chunks 16 bs).foldl (fun acc block => gfMul (acc ^^^ natOfBe block) h) 0

/-- The tag of a ciphertext and its associated data. -/
def gcmTag (key nonce ct aad : Bytes) : Bytes :=
  let h := natOfBe (aes128 key (List.replicate 16 0)).toList
  let s := ghash h (padBlock aad ++ padBlock ct ++ beBytes 8 (8 * aad.length) ++
    beBytes 8 (8 * ct.length))
  beBytes 16 (s ^^^ natOfBe (aes128 key (nonce ++ [0, 0, 0, 1])).toList)

/-- The first `len` bytes of the key stream, from counter 2 on. -/
def gcmStream (key nonce : Bytes) (len : Nat) : Bytes :=
  (List.range len).map fun i =>
    (aes128 key (nonce ++ beBytes 4 (2 + i / 16))).toList.getD (i % 16) 0

@[inherit_doc mask] def gcmMask (key nonce bs : Bytes) : Bytes :=
  xorBytes bs (gcmStream key nonce bs.length)

/-- Sealing: the masked message and its tag. -/
def gcmSeal (key nonce plain aad : Bytes) : Bytes :=
  gcmMask key nonce plain ++ gcmTag key nonce (gcmMask key nonce plain) aad

/-- Opening: the tag is checked, the mask taken off. -/
def gcmOpen (key nonce sealed aad : Bytes) : Option Bytes :=
  if sealed.length < 16 then none
  else
    let ct := sealed.take (sealed.length - 16)
    if gcmTag key nonce ct aad = sealed.drop (sealed.length - 16) then some (gcmMask key nonce ct)
    else none

example : gcmSeal (List.replicate 16 0) (List.replicate 12 0) [] [] =
    [0x58, 0xe2, 0xfc, 0xce, 0xfa, 0x7e, 0x30, 0x61, 0x36, 0x7f, 0x1d, 0x57, 0xa4, 0xe7, 0x45,
      0x5a] := by decide +kernel

@[simp] theorem length_gcmTag (key nonce ct aad : Bytes) :
    (gcmTag key nonce ct aad).length = 16 := by
  simp [gcmTag]

@[simp] theorem length_gcmMask (key nonce bs : Bytes) :
    (gcmMask key nonce bs).length = bs.length := by
  simp [gcmMask, xorBytes, gcmStream]

theorem length_gcmSeal (key nonce plain aad : Bytes) :
    (gcmSeal key nonce plain aad).length = plain.length + 16 := by
  simp [gcmSeal]

/-- The mask comes off by itself. -/
theorem gcmMask_gcmMask (key nonce bs : Bytes) :
    gcmMask key nonce (gcmMask key nonce bs) = bs := by
  have hlen : bs.length = (gcmStream key nonce bs.length).length := by simp [gcmStream]
  have hmask := length_gcmMask key nonce bs
  unfold gcmMask at hmask ⊢
  rw [hmask]
  exact zipWith_xor_zipWith_xor hlen

/-- **Opening undoes sealing.** -/
theorem gcmOpen_gcmSeal (key nonce plain aad : Bytes) :
    gcmOpen key nonce (gcmSeal key nonce plain aad) aad = some plain := by
  have hlen : (gcmSeal key nonce plain aad).length - 16 = (gcmMask key nonce plain).length := by
    rw [length_gcmSeal, length_gcmMask]
    rfl
  have htake : (gcmSeal key nonce plain aad).take (gcmMask key nonce plain).length =
      gcmMask key nonce plain := List.take_left' rfl
  have hdrop : (gcmSeal key nonce plain aad).drop (gcmMask key nonce plain).length =
      gcmTag key nonce (gcmMask key nonce plain) aad := List.drop_left' rfl
  unfold gcmOpen
  rw [if_neg (by rw [length_gcmSeal]; omega)]
  simp only
  rw [hlen, htake, hdrop, if_pos rfl, gcmMask_gcmMask]

end ReferenceCrypto
