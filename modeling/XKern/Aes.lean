import Mathlib
import XKern.CryptoHash

namespace XKern

open List

/-!
# AES

Model of `bsd/crypto/crypto_cipher.cpp` and of its two callers in
`bsd/crypto/crypto_util.cpp`.  A pointer with a length is the list of the bytes
there, so that the length of a buffer for output is `out_max`.  Every access to a
buffer that comes from a caller, to the round keys and to `rcon` is checked, and an
access outside ends the call with an `AesFault`.
-/

/-- What can go wrong in a call. -/
inductive AesFault
  | key
  | roundKeys
  | rcon
  | divideByZero
  | padBuffer
  | input
  | output
  deriving DecidableEq

abbrev AesBlock := Fin 16 → U8

/-! ## Tables and arithmetic of bytes -/

/-- `sbox`. -/
def sbox : List U8 :=
  [ 0x63, 0x7c, 0x77, 0x7b, 0xf2, 0x6b, 0x6f, 0xc5, 0x30, 0x01, 0x67, 0x2b, 0xfe, 0xd7, 0xab, 0x76,
    0xca, 0x82, 0xc9, 0x7d, 0xfa, 0x59, 0x47, 0xf0, 0xad, 0xd4, 0xa2, 0xaf, 0x9c, 0xa4, 0x72, 0xc0,
    0xb7, 0xfd, 0x93, 0x26, 0x36, 0x3f, 0xf7, 0xcc, 0x34, 0xa5, 0xe5, 0xf1, 0x71, 0xd8, 0x31, 0x15,
    0x04, 0xc7, 0x23, 0xc3, 0x18, 0x96, 0x05, 0x9a, 0x07, 0x12, 0x80, 0xe2, 0xeb, 0x27, 0xb2, 0x75,
    0x09, 0x83, 0x2c, 0x1a, 0x1b, 0x6e, 0x5a, 0xa0, 0x52, 0x3b, 0xd6, 0xb3, 0x29, 0xe3, 0x2f, 0x84,
    0x53, 0xd1, 0x00, 0xed, 0x20, 0xfc, 0xb1, 0x5b, 0x6a, 0xcb, 0xbe, 0x39, 0x4a, 0x4c, 0x58, 0xcf,
    0xd0, 0xef, 0xaa, 0xfb, 0x43, 0x4d, 0x33, 0x85, 0x45, 0xf9, 0x02, 0x7f, 0x50, 0x3c, 0x9f, 0xa8,
    0x51, 0xa3, 0x40, 0x8f, 0x92, 0x9d, 0x38, 0xf5, 0xbc, 0xb6, 0xda, 0x21, 0x10, 0xff, 0xf3, 0xd2,
    0xcd, 0x0c, 0x13, 0xec, 0x5f, 0x97, 0x44, 0x17, 0xc4, 0xa7, 0x7e, 0x3d, 0x64, 0x5d, 0x19, 0x73,
    0x60, 0x81, 0x4f, 0xdc, 0x22, 0x2a, 0x90, 0x88, 0x46, 0xee, 0xb8, 0x14, 0xde, 0x5e, 0x0b, 0xdb,
    0xe0, 0x32, 0x3a, 0x0a, 0x49, 0x06, 0x24, 0x5c, 0xc2, 0xd3, 0xac, 0x62, 0x91, 0x95, 0xe4, 0x79,
    0xe7, 0xc8, 0x37, 0x6d, 0x8d, 0xd5, 0x4e, 0xa9, 0x6c, 0x56, 0xf4, 0xea, 0x65, 0x7a, 0xae, 0x08,
    0xba, 0x78, 0x25, 0x2e, 0x1c, 0xa6, 0xb4, 0xc6, 0xe8, 0xdd, 0x74, 0x1f, 0x4b, 0xbd, 0x8b, 0x8a,
    0x70, 0x3e, 0xb5, 0x66, 0x48, 0x03, 0xf6, 0x0e, 0x61, 0x35, 0x57, 0xb9, 0x86, 0xc1, 0x1d, 0x9e,
    0xe1, 0xf8, 0x98, 0x11, 0x69, 0xd9, 0x8e, 0x94, 0x9b, 0x1e, 0x87, 0xe9, 0xce, 0x55, 0x28, 0xdf,
    0x8c, 0xa1, 0x89, 0x0d, 0xbf, 0xe6, 0x42, 0x68, 0x41, 0x99, 0x2d, 0x0f, 0xb0, 0x54, 0xbb, 0x16 ]

/-- `inv_sbox`. -/
def invSbox : List U8 :=
  [ 0x52, 0x09, 0x6a, 0xd5, 0x30, 0x36, 0xa5, 0x38, 0xbf, 0x40, 0xa3, 0x9e, 0x81, 0xf3, 0xd7, 0xfb,
    0x7c, 0xe3, 0x39, 0x82, 0x9b, 0x2f, 0xff, 0x87, 0x34, 0x8e, 0x43, 0x44, 0xc4, 0xde, 0xe9, 0xcb,
    0x54, 0x7b, 0x94, 0x32, 0xa6, 0xc2, 0x23, 0x3d, 0xee, 0x4c, 0x95, 0x0b, 0x42, 0xfa, 0xc3, 0x4e,
    0x08, 0x2e, 0xa1, 0x66, 0x28, 0xd9, 0x24, 0xb2, 0x76, 0x5b, 0xa2, 0x49, 0x6d, 0x8b, 0xd1, 0x25,
    0x72, 0xf8, 0xf6, 0x64, 0x86, 0x68, 0x98, 0x16, 0xd4, 0xa4, 0x5c, 0xcc, 0x5d, 0x65, 0xb6, 0x92,
    0x6c, 0x70, 0x48, 0x50, 0xfd, 0xed, 0xb9, 0xda, 0x5e, 0x15, 0x46, 0x57, 0xa7, 0x8d, 0x9d, 0x84,
    0x90, 0xd8, 0xab, 0x00, 0x8c, 0xbc, 0xd3, 0x0a, 0xf7, 0xe4, 0x58, 0x05, 0xb8, 0xb3, 0x45, 0x06,
    0xd0, 0x2c, 0x1e, 0x8f, 0xca, 0x3f, 0x0f, 0x02, 0xc1, 0xaf, 0xbd, 0x03, 0x01, 0x13, 0x8a, 0x6b,
    0x3a, 0x91, 0x11, 0x41, 0x4f, 0x67, 0xdc, 0xea, 0x97, 0xf2, 0xcf, 0xce, 0xf0, 0xb4, 0xe6, 0x73,
    0x96, 0xac, 0x74, 0x22, 0xe7, 0xad, 0x35, 0x85, 0xe2, 0xf9, 0x37, 0xe8, 0x1c, 0x75, 0xdf, 0x6e,
    0x47, 0xf1, 0x1a, 0x71, 0x1d, 0x29, 0xc5, 0x89, 0x6f, 0xb7, 0x62, 0x0e, 0xaa, 0x18, 0xbe, 0x1b,
    0xfc, 0x56, 0x3e, 0x4b, 0xc6, 0xd2, 0x79, 0x20, 0x9a, 0xdb, 0xc0, 0xfe, 0x78, 0xcd, 0x5a, 0xf4,
    0x1f, 0xdd, 0xa8, 0x33, 0x88, 0x07, 0xc7, 0x31, 0xb1, 0x12, 0x10, 0x59, 0x27, 0x80, 0xec, 0x5f,
    0x60, 0x51, 0x7f, 0xa9, 0x19, 0xb5, 0x4a, 0x0d, 0x2d, 0xe5, 0x7a, 0x9f, 0x93, 0xc9, 0x9c, 0xef,
    0xa0, 0xe0, 0x3b, 0x4d, 0xae, 0x2a, 0xf5, 0xb0, 0xc8, 0xeb, 0xbb, 0x3c, 0x83, 0x53, 0x99, 0x61,
    0x17, 0x2b, 0x04, 0x7e, 0xba, 0x77, 0xd6, 0x26, 0xe1, 0x69, 0x14, 0x63, 0x55, 0x21, 0x0c, 0x7d ]

/-- `rcon`. -/
def rcon : List U8 :=
  [ 0x00, 0x01, 0x02, 0x04, 0x08, 0x10, 0x20, 0x40, 0x80, 0x1b, 0x36 ]

def lookupByte (table : List U8) (x : U8) : U8 :=
  table.getD x.toNat 0

/-- `xtime`. -/
def xtime (x : U8) : U8 :=
  (x <<< 1) ^^^ (((x >>> 7) &&& 1) * 0x1b)

/-- The variables of `xmul`. -/
structure XmulVars where
  p : U8
  a : U8
  b : U8

/-- One round of the loop in `xmul`. -/
def xmulStep (v : XmulVars) : XmulVars where
  p := if v.b &&& 1 ≠ 0 then v.p ^^^ v.a else v.p
  a := xtime v.a
  b := v.b >>> 1

/-- `xmul`. -/
def xmul (a b : U8) : U8 :=
  (xmulStep^[8] { p := 0, a := a, b := b }).p

/-! ## Transformations of the state -/

/-- The bytes of a word, as `add_round_key` takes them. -/
def wordByte (word : U32) (i : Nat) : U8 :=
  (word >>> (24 - 8 * i)).setWidth 8

/-- `add_round_key`. -/
def addRoundKey (rk : List U32) (round : Nat) (state : AesBlock) : AesBlock :=
  fun i => state i ^^^ wordByte (rk.getD (round * 4 + i.val / 4) 0) (i.val % 4)

/-- `sub_bytes`. -/
def subBytes (state : AesBlock) : AesBlock :=
  fun i => lookupByte sbox (state i)

/-- `sub_bytes_inv`. -/
def subBytesInv (state : AesBlock) : AesBlock :=
  fun i => lookupByte invSbox (state i)

/-- `shift_rows`. -/
def shiftRows (s : AesBlock) : AesBlock :=
  ![ s 0, s 5, s 10, s 15, s 4, s 9, s 14, s 3, s 8, s 13, s 2, s 7, s 12, s 1, s 6, s 11 ]

/-- `shift_rows_inv`. -/
def shiftRowsInv (s : AesBlock) : AesBlock :=
  ![ s 0, s 13, s 10, s 7, s 4, s 1, s 14, s 11, s 8, s 5, s 2, s 15, s 12, s 9, s 6, s 3 ]

/-- The bytes `s[i]` to `s[i+3]` of a column. -/
def columnOf (s : AesBlock) (c : Nat) : Fin 4 → U8 :=
  fun r => s (.ofNat 16 (c * 4 + r.val))

def mapColumns (f : (Fin 4 → U8) → Fin 4 → U8) (s : AesBlock) : AesBlock :=
  fun i => f (columnOf s (i.val / 4)) (.ofNat 4 i.val)

/-- The body of the loop in `mix_columns`. -/
def mixColumn (a : Fin 4 → U8) : Fin 4 → U8 :=
  let t := a 0 ^^^ a 1 ^^^ a 2 ^^^ a 3
  ![ a 0 ^^^ (xtime (a 0 ^^^ a 1) ^^^ t),
     a 1 ^^^ (xtime (a 1 ^^^ a 2) ^^^ t),
     a 2 ^^^ (xtime (a 2 ^^^ a 3) ^^^ t),
     a 3 ^^^ (xtime (a 3 ^^^ a 0) ^^^ t) ]

/-- `mix_columns`. -/
def mixColumns (s : AesBlock) : AesBlock :=
  mapColumns mixColumn s

/-- The body of the loop in `mix_columns_inv`. -/
def mixColumnInv (a : Fin 4 → U8) : Fin 4 → U8 :=
  ![ xmul (a 0) 0x0e ^^^ xmul (a 1) 0x0b ^^^ xmul (a 2) 0x0d ^^^ xmul (a 3) 0x09,
     xmul (a 0) 0x09 ^^^ xmul (a 1) 0x0e ^^^ xmul (a 2) 0x0b ^^^ xmul (a 3) 0x0d,
     xmul (a 0) 0x0d ^^^ xmul (a 1) 0x09 ^^^ xmul (a 2) 0x0e ^^^ xmul (a 3) 0x0b,
     xmul (a 0) 0x0b ^^^ xmul (a 1) 0x0d ^^^ xmul (a 2) 0x09 ^^^ xmul (a 3) 0x0e ]

/-- `mix_columns_inv`. -/
def mixColumnsInv (s : AesBlock) : AesBlock :=
  mapColumns mixColumnInv s

/-! ## Key expansion -/

/-- A load that is checked against the end of a buffer. -/
def readAt {Value : Type} (fault : AesFault) (values : List Value) (i : Nat) :
    Except AesFault Value :=
  match values[i]? with
  | some value => .ok value
  | none => .error fault

/-- The store `rk[i] = word`, for the next `i`. -/
def storeRoundKey (rk : List U32) (word : U32) : Except AesFault (List U32) :=
  if rk.length < 60 then .ok (rk ++ [word]) else .error .roundKeys

def packWord (b0 b1 b2 b3 : U8) : U32 :=
  (b0.setWidth 32 <<< 24) ||| (b1.setWidth 32 <<< 16) ||| (b2.setWidth 32 <<< 8) |||
    b3.setWidth 32

/-- The body of the first loop in `key_expand`. -/
def loadKeyWord (key : List U8) (rk : List U32) (i : Nat) : Except AesFault (List U32) := do
  let b0 ← readAt .key key (4 * i)
  let b1 ← readAt .key key (4 * i + 1)
  let b2 ← readAt .key key (4 * i + 2)
  let b3 ← readAt .key key (4 * i + 3)
  storeRoundKey rk (packWord b0 b1 b2 b3)

/-- `temp` with its bytes rotated and substituted. -/
def rotSubWord (temp : U32) : U32 :=
  packWord (lookupByte sbox (wordByte temp 1)) (lookupByte sbox (wordByte temp 2))
    (lookupByte sbox (wordByte temp 3)) (lookupByte sbox (wordByte temp 0))

/-- `temp` with its bytes substituted. -/
def subWord (temp : U32) : U32 :=
  packWord (lookupByte sbox (wordByte temp 0)) (lookupByte sbox (wordByte temp 1))
    (lookupByte sbox (wordByte temp 2)) (lookupByte sbox (wordByte temp 3))

/-- `temp` in the second loop of `key_expand`, after the two branches. -/
def scheduleTemp (nk i : Nat) (temp : U32) : Except AesFault U32 :=
  if nk = 0 then
    .error .divideByZero
  else if i % nk = 0 then do
    let constant ← readAt .rcon rcon (i / nk)
    .ok (rotSubWord temp ^^^ (constant.setWidth 32 <<< 24))
  else if 6 < nk ∧ i % nk = 4 then
    .ok (subWord temp)
  else
    .ok temp

/-- The body of the second loop in `key_expand`. -/
def expandKeyWord (nk : Nat) (rk : List U32) (i : Nat) : Except AesFault (List U32) := do
  -- for `i = 0` the index of `rk[i-1]` is negative
  let previous ← if i = 0 then .error .roundKeys else readAt .roundKeys rk (i - 1)
  let temp ← scheduleTemp nk i previous
  let first ← readAt .roundKeys rk (i - nk)
  storeRoundKey rk (first ^^^ temp)

/-- `key_expand`: the words `rk` and the number `nr` of rounds. -/
def keyExpand (key : List U8) : Except AesFault (List U32 × Nat) := do
  let nk := key.length / 4
  let nr := nk + 6
  let loaded ← (range nk).foldlM (loadKeyWord key) []
  let rk ← (range' nk (4 * (nr + 1) - nk)).foldlM (expandKeyWord nk) loaded
  return (rk, nr)

/-! ## Blocks -/

/-- The body of the loop in `aes_block_encrypt`. -/
def encryptRound (rk : List U32) (state : AesBlock) (i : Nat) : AesBlock :=
  addRoundKey rk i (mixColumns (shiftRows (subBytes state)))

/-- `aes_block_encrypt`. -/
def aesBlockEncrypt (rk : List U32) (nr : Nat) (input : AesBlock) : AesBlock :=
  let state := (range' 1 (nr - 1)).foldl (encryptRound rk) (addRoundKey rk 0 input)
  addRoundKey rk nr (shiftRows (subBytes state))

/-- The body of the loop in `aes_block_decrypt`. -/
def decryptRound (rk : List U32) (state : AesBlock) (i : Nat) : AesBlock :=
  mixColumnsInv (addRoundKey rk i (subBytesInv (shiftRowsInv state)))

/-- `aes_block_decrypt`. -/
def aesBlockDecrypt (rk : List U32) (nr : Nat) (input : AesBlock) : AesBlock :=
  let state := (range' 1 (nr - 1)).reverse.foldl (decryptRound rk) (addRoundKey rk nr input)
  addRoundKey rk 0 (subBytesInv (shiftRowsInv state))

/-- `xor_block`. -/
def xorBlock (a b : AesBlock) : AesBlock :=
  fun i => a i ^^^ b i

/-! ## Contexts -/

/-- `MODE_ECB`, `MODE_CBC`, `MODE_CTR` and the other values of `mode`. -/
inductive AesMode
  | ecb
  | cbc
  | ctr
  | other
  deriving DecidableEq

/-- `CIPHER_AES_128`, `CIPHER_AES_256` and `CIPHER_DES`. -/
inductive CipherAlgorithm
  | aes128
  | aes256
  | des

/-- `aes_ctx`. -/
structure AesCtx where
  rk : List U32
  nr : Nat
  mode : AesMode
  iv : AesBlock

/-- `ctx->iv`, as `aes_init` sets it: `iv` may be null. -/
def initialIv (iv : Option (List U8)) : AesBlock :=
  match iv with
  | some bytes => if 16 ≤ bytes.length then fun i => bytes.getD i.val 0 else fun _ => 0
  | none => fun _ => 0

/-- `aes_init`, which does not use `algorithm`. -/
def aesInit (_algorithm : CipherAlgorithm) (mode : AesMode) (key : List U8)
    (iv : Option (List U8)) : Except AesFault AesCtx := do
  let (rk, nr) ← keyExpand key
  return { rk := rk, nr := nr, mode := mode, iv := initialIv iv }

/-! ## Buffers -/

/-- `aes_ciphertext_len`. -/
def aesCiphertextLen (plaintextLen : U32) : U32 :=
  (plaintextLen / 16 + 1) * 16

/-- The bytes `in[off]` to `in[off+count-1]`. -/
def readBytes (input : List U8) (off count : Nat) : Except AesFault (List U8) :=
  if off + count ≤ input.length then .ok ((input.drop off).take count) else .error .input

/-- The block at `in + off`. -/
def blockAt (input : List U8) (off : Nat) : AesBlock :=
  fun i => input.getD (off + i.val) 0

/-- The store of some bytes at `out + off`. -/
def writeBytes (out : List U8) (off : Nat) (bytes : List U8) : Except AesFault (List U8) :=
  if off + bytes.length ≤ out.length then
    .ok (out.take off ++ bytes ++ out.drop (off + bytes.length))
  else
    .error .output

/-- The store of a block at `out + off`. -/
def writeBlock (out : List U8) (off : Nat) (block : AesBlock) : Except AesFault (List U8) :=
  writeBytes out off (ofFn block)

/-- A loop over the blocks of `in`: `step` takes `prev` and a block, and gives the block
for `out` and the next `prev`. -/
def blockLoop (continues : Nat → Bool) (step : AesBlock → AesBlock → AesBlock × AesBlock)
    (input : List U8) (off : Nat) (prev : AesBlock)
    (out : List U8) : Except AesFault (Nat × AesBlock × List U8) :=
  if continues off then
    if _ : off + 16 ≤ input.length then
      match writeBlock out off (step prev (blockAt input off)).1 with
      | .ok out =>
          blockLoop continues step input (off + 16) (step prev (blockAt input off)).2 out
      | .error fault => .error fault
    else
      .error .input
  else
    .ok (off, prev, out)
termination_by input.length - off

/-- The carry from `counter[i-1]` on: `++counter[i-1]`, and on if it is zero. -/
def incrementFrom : Nat → AesBlock → AesBlock
  | 0, counter => counter
  | i + 1, counter =>
      let next := Function.update counter (.ofNat 16 i) (counter (.ofNat 16 i) + 1)
      if next (.ofNat 16 i) ≠ 0 then next else incrementFrom i next

/-- The loop of `MODE_CTR`. -/
def counterLoop (keystream : AesBlock → AesBlock) (input : List U8) (off : Nat) (counter : AesBlock)
    (out : List U8) : Except AesFault (List U8) :=
  if _ : off < input.length then
    let chunk := if 16 < input.length - off then 16 else input.length - off
    let bytes := ((input.drop off).take chunk).zipWith (· ^^^ ·) (ofFn (keystream counter))
    match writeBytes out off bytes with
    | .ok out => counterLoop keystream input (off + chunk) (incrementFrom 16 counter) out
    | .error fault => .error fault
  else
    .ok out
termination_by input.length - off
decreasing_by
  split <;> omega

/-! ## Encryption and decryption -/

/-- `pad_buf` in `aes_encrypt`, in the order of its stores: two copies from the start of
`in`, zeros before them, and `pad_val` over them. -/
def ecbPadBlock (input : List U8) : Except AesFault AesBlock := do
  let tailLen := input.length % 16
  let padVal := 16 - tailLen
  let _ ← readBytes input 0 tailLen
  -- the first copy fills `pad_buf[tailLen]` to `pad_buf[2*tailLen-1]`
  if 16 < 2 * tailLen then .error .padBuffer
  let _ ← readBytes input 0 padVal
  return fun i => if i.val < tailLen then 0 else .ofNat 8 padVal

/-- The last `block` of `MODE_CBC` in `aes_encrypt`. -/
def cbcPadBlock (input : List U8) (off : Nat) : Except AesFault AesBlock := do
  let tailLen := input.length % 16
  let padVal := 16 - tailLen
  let bytes ← readBytes input off tailLen
  return fun i => if i.val < tailLen then bytes.getD i.val 0 else .ofNat 8 padVal

/-- The condition `off + AES_BLOCK_SIZE <= in_len`, in 32 bits. -/
def fullBlock (input : List U8) (off : Nat) : Bool :=
  (off + 16) % 2 ^ 32 ≤ input.length

/-- The number of bytes without the padding, which the last byte of `out` names. -/
def unpaddedLen (out : List U8) (off : Nat) : Nat :=
  let padVal := (out.getD (off - 1) 0).toNat
  if 0 < off ∧ 0 < padVal ∧ padVal ≤ 16 then off - padVal else off

/-- `aes_encrypt`. -/
def aesEncrypt (ctx : AesCtx)
    (input out : List U8) : Except AesFault (U32 × List U8) :=
  let total := aesCiphertextLen (.ofNat 32 input.length)
  let cipher := aesBlockEncrypt ctx.rk ctx.nr
  if out.length < total.toNat then
    .ok (0, out)
  else
    match ctx.mode with
    | .ecb => do
        let padBuf ← ecbPadBlock input
        let (off, _, out) ← blockLoop (fullBlock input) (fun prev block => (cipher block, prev))
          input 0 ctx.iv out
        let out ← writeBlock out off (cipher padBuf)
        return (total, out)
    | .cbc => do
        let (off, prev, out) ← blockLoop (fullBlock input)
          (fun prev block => (cipher (xorBlock block prev), cipher (xorBlock block prev)))
          input 0 ctx.iv out
        let block ← cbcPadBlock input off
        let out ← writeBlock out off (cipher (xorBlock block prev))
        return (total, out)
    | .ctr => do
        let out ← counterLoop cipher input 0 ctx.iv out
        return (.ofNat 32 input.length, out)
    | .other => .ok (0, out)

/-- `aes_decrypt`, which does not use `out_max`. -/
def aesDecrypt (ctx : AesCtx)
    (input out : List U8) : Except AesFault (U32 × List U8) :=
  let decipher := aesBlockDecrypt ctx.rk ctx.nr
  if input.length = 0 ∨ input.length % 16 ≠ 0 then
    .ok (0, out)
  else
    match ctx.mode with
    | .ecb => do
        let (off, _, out) ← blockLoop (· < input.length)
          (fun prev block => (decipher block, prev)) input 0 ctx.iv out
        return (.ofNat 32 (unpaddedLen out off), out)
    | .cbc => do
        let (off, _, out) ← blockLoop (· < input.length)
          (fun prev block => (xorBlock (decipher block) prev, block)) input 0 ctx.iv out
        return (.ofNat 32 (unpaddedLen out off), out)
    | .ctr => do
        let out ← counterLoop (aesBlockEncrypt ctx.rk ctx.nr) input 0 ctx.iv out
        return (.ofNat 32 input.length, out)
    | .other => .ok (0, out)

/-- `algo` in the two functions below. -/
def algorithmFor (key : List U8) : CipherAlgorithm :=
  if 32 ≤ key.length then .aes256 else .aes128

/-- `crypto_aes_encrypt`. -/
def cryptoAesEncrypt (key : List U8) (iv : Option (List U8))
    (input out : List U8) : Except AesFault (U32 × List U8) := do
  let ctx ← aesInit (algorithmFor key) .cbc key iv
  aesEncrypt ctx input out

/-- `crypto_aes_decrypt`. -/
def cryptoAesDecrypt (key : List U8) (iv : Option (List U8))
    (input out : List U8) : Except AesFault (U32 × List U8) := do
  let ctx ← aesInit (algorithmFor key) .cbc key iv
  aesDecrypt ctx input out

end XKern
