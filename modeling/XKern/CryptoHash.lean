import Mathlib.Data.Fin.VecNotation
import XKern.BlockStream
import XKern.Pmm

namespace XKern

open List

/-!
# Hash functions

Model of `bsd/crypto/crypto_hash.cpp`: the three compression functions and the
buffering around them, which is the same for all three.  A pointer to data is the
list of the bytes from there on.  `none` is a store outside the 64-byte buffer of
a context.
-/

/-- A block of 64 bytes. -/
abbrev Block := Fin 64 → U8

def blockOf (data : List U8) : Block :=
  fun i => data.getD i.val 0

/-- `p[offset]`. -/
def byteAt (block : Block) (offset : Nat) : U32 :=
  (block (.ofNat 64 offset)).setWidth 32

/-- `read_be32`. -/
def readBe32 (block : Block) (p : Nat) : U32 :=
  (byteAt block p <<< 24) ||| (byteAt block (p + 1) <<< 16) |||
    (byteAt block (p + 2) <<< 8) ||| byteAt block (p + 3)

/-- `read_le32`. -/
def readLe32 (block : Block) (p : Nat) : U32 :=
  byteAt block p ||| (byteAt block (p + 1) <<< 8) |||
    (byteAt block (p + 2) <<< 16) ||| (byteAt block (p + 3) <<< 24)

/-- `write_be32`. -/
def writeBe32 (v : U32) : List U8 :=
  [(v >>> 24).setWidth 8, (v >>> 16).setWidth 8, (v >>> 8).setWidth 8, v.setWidth 8]

/-- `write_le32`. -/
def writeLe32 (v : U32) : List U8 :=
  [v.setWidth 8, (v >>> 8).setWidth 8, (v >>> 16).setWidth 8, (v >>> 24).setWidth 8]

/-- `rotr`. -/
def rotr (x : U32) (n : Nat) : U32 :=
  (x >>> n) ||| (x <<< (32 - n))

/-! ## SHA-256 -/

/-- `sha256_k`. -/
def sha256K : List U32 :=
  [ 0x428a2f98, 0x71374491, 0xb5c0fbcf, 0xe9b5dba5,
    0x3956c25b, 0x59f111f1, 0x923f82a4, 0xab1c5ed5,
    0xd807aa98, 0x12835b01, 0x243185be, 0x550c7dc3,
    0x72be5d74, 0x80deb1fe, 0x9bdc06a7, 0xc19bf174,
    0xe49b69c1, 0xefbe4786, 0x0fc19dc6, 0x240ca1cc,
    0x2de92c6f, 0x4a7484aa, 0x5cb0a9dc, 0x76f988da,
    0x983e5152, 0xa831c66d, 0xb00327c8, 0xbf597fc7,
    0xc6e00bf3, 0xd5a79147, 0x06ca6351, 0x14292967,
    0x27b70a85, 0x2e1b2138, 0x4d2c6dfc, 0x53380d13,
    0x650a7354, 0x766a0abb, 0x81c2c92e, 0x92722c85,
    0xa2bfe8a1, 0xa81a664b, 0xc24b8b70, 0xc76c51a3,
    0xd192e819, 0xd6990624, 0xf40e3585, 0x106aa070,
    0x19a4c116, 0x1e376c08, 0x2748774c, 0x34b0bcb5,
    0x391c0cb3, 0x4ed8aa4a, 0x5b9cca4f, 0x682e6ff3,
    0x748f82ee, 0x78a5636f, 0x84c87814, 0x8cc70208,
    0x90befffa, 0xa4506ceb, 0xbef9a3f7, 0xc67178f2 ]

/-- `ch`. -/
def ch (x y z : U32) : U32 :=
  (x &&& y) ^^^ (~~~x &&& z)

/-- `maj`. -/
def maj (x y z : U32) : U32 :=
  (x &&& y) ^^^ (x &&& z) ^^^ (y &&& z)

/-- `bsig0`. -/
def bsig0 (x : U32) : U32 :=
  rotr x 2 ^^^ rotr x 13 ^^^ rotr x 22

/-- `bsig1`. -/
def bsig1 (x : U32) : U32 :=
  rotr x 6 ^^^ rotr x 11 ^^^ rotr x 25

/-- `ssig0`. -/
def ssig0 (x : U32) : U32 :=
  rotr x 7 ^^^ rotr x 18 ^^^ (x >>> 3)

/-- `ssig1`. -/
def ssig1 (x : U32) : U32 :=
  rotr x 17 ^^^ rotr x 19 ^^^ (x >>> 10)

/-- The array `w`, which is filled from its start: the words of the block, then `extend`. -/
def expandWords (extend : List U32 → Nat → U32) (count : Nat)
    (words : List U32) : List U32 :=
  (range' 16 count).foldl (fun w i => w ++ [extend w i]) words

/-- `w[i]` in `sha256_transform`, for `i` from 16 on. -/
def sha256Word (w : List U32) (i : Nat) : U32 :=
  ssig1 (w.getD (i - 2) 0) + w.getD (i - 7) 0 + ssig0 (w.getD (i - 15) 0) + w.getD (i - 16) 0

/-- `w` in `sha256_transform`. -/
def sha256Words (block : Block) : List U32 :=
  expandWords sha256Word 48 ((range 16).map fun i => readBe32 block (i * 4))

/-- The local variables of `sha256_transform`. -/
structure Sha256Regs where
  a : U32
  b : U32
  c : U32
  d : U32
  e : U32
  f : U32
  g : U32
  h : U32
  deriving DecidableEq

/-- One round of `sha256_transform`. -/
def sha256Round (w : List U32) (r : Sha256Regs) (i : Nat) : Sha256Regs :=
  let t1 := r.h + bsig1 r.e + ch r.e r.f r.g + sha256K.getD i 0 + w.getD i 0
  let t2 := bsig0 r.a + maj r.a r.b r.c
  { a := t1 + t2, b := r.a, c := r.b, d := r.c, e := r.d + t1, f := r.e, g := r.f, h := r.g }

/-- `sha256_transform`, on `ctx->state`. -/
def sha256Transform (state : Fin 8 → U32) (block : Block) : Fin 8 → U32 :=
  let r := (range 64).foldl (sha256Round (sha256Words block))
    { a := state 0, b := state 1, c := state 2, d := state 3,
      e := state 4, f := state 5, g := state 6, h := state 7 }
  ![state 0 + r.a, state 1 + r.b, state 2 + r.c, state 3 + r.d,
    state 4 + r.e, state 5 + r.f, state 6 + r.g, state 7 + r.h]

/-! ## MD5 -/

/-- `md5_t`. -/
def md5T : List U32 :=
  [ 0xd76aa478, 0xe8c7b756, 0x242070db, 0xc1bdceee,
    0xf57c0faf, 0x4787c62a, 0xa8304613, 0xfd469501,
    0x698098d8, 0x8b44f7af, 0xffff5bb1, 0x895cd7be,
    0x6b901122, 0xfd987193, 0xa679438e, 0x49b40821,
    0xf61e2562, 0xc040b340, 0x265e5a51, 0xe9b6c7aa,
    0xd62f105d, 0x02441453, 0xd8a1e681, 0xe7d3fbc8,
    0x21e1cde6, 0xc33707d6, 0xf4d50d87, 0x455a14ed,
    0xa9e3e905, 0xfcefa3f8, 0x676f02d9, 0x8d2a4c8a,
    0xfffa3942, 0x8771f681, 0x6d9d6122, 0xfde5380c,
    0xa4beea44, 0x4bdecfa9, 0xf6bb4b60, 0xbebfbc70,
    0x289b7ec6, 0xeaa127fa, 0xd4ef3085, 0x04881d05,
    0xd9d4d039, 0xe6db99e5, 0x1fa27cf8, 0xc4ac5665,
    0xf4292244, 0x432aff97, 0xab9423a7, 0xfc93a039,
    0x655b59c3, 0x8f0ccc92, 0xffeff47d, 0x85845dd1,
    0x6fa87e4f, 0xfe2ce6e0, 0xa3014314, 0x4e0811a1,
    0xf7537e82, 0xbd3af235, 0x2ad7d2bb, 0xeb86d391 ]

/-- `md5_s`. -/
def md5S : List Nat :=
  [ 7, 12, 17, 22, 7, 12, 17, 22, 7, 12, 17, 22, 7, 12, 17, 22,
    5, 9, 14, 20, 5, 9, 14, 20, 5, 9, 14, 20, 5, 9, 14, 20,
    4, 11, 16, 23, 4, 11, 16, 23, 4, 11, 16, 23, 4, 11, 16, 23,
    6, 10, 15, 21, 6, 10, 15, 21, 6, 10, 15, 21, 6, 10, 15, 21 ]

/-- The local variables of `md5_transform`. -/
structure Md5Regs where
  a : U32
  b : U32
  c : U32
  d : U32
  deriving DecidableEq

/-- `f` in `md5_transform`. -/
def md5F (i : Nat) (b c d : U32) : U32 :=
  if i < 16 then
    (b &&& c) ||| (~~~b &&& d)
  else if i < 32 then
    (d &&& b) ||| (~~~d &&& c)
  else if i < 48 then
    b ^^^ c ^^^ d
  else
    c ^^^ (b ||| ~~~d)

/-- `g` in `md5_transform`. -/
def md5G (i : Nat) : Nat :=
  if i < 16 then
    i
  else if i < 32 then
    (5 * i + 1) % 16
  else if i < 48 then
    (3 * i + 5) % 16
  else
    (7 * i) % 16

/-- One round of `md5_transform`. -/
def md5Round (w : List U32) (r : Md5Regs) (i : Nat) : Md5Regs :=
  let sum := r.a + md5F i r.b r.c r.d + md5T.getD i 0 + w.getD (md5G i) 0
  let s := md5S.getD i 0
  { a := r.d, b := r.b + ((sum <<< s) ||| (sum >>> (32 - s))), c := r.b, d := r.c }

/-- `md5_transform`, on `ctx->state`. -/
def md5Transform (state : Fin 4 → U32) (block : Block) : Fin 4 → U32 :=
  let w := (range 16).map fun i => readLe32 block (i * 4)
  let r := (range 64).foldl (md5Round w)
    { a := state 0, b := state 1, c := state 2, d := state 3 }
  ![state 0 + r.a, state 1 + r.b, state 2 + r.c, state 3 + r.d]

/-! ## SHA-1 -/

/-- `w[i]` in `sha1_transform`, for `i` from 16 on. -/
def sha1Word (w : List U32) (i : Nat) : U32 :=
  rotr (w.getD (i - 3) 0 ^^^ w.getD (i - 8) 0 ^^^ w.getD (i - 14) 0 ^^^ w.getD (i - 16) 0) 1

/-- `w` in `sha1_transform`. -/
def sha1Words (block : Block) : List U32 :=
  expandWords sha1Word 64 ((range 16).map fun i => readBe32 block (i * 4))

/-- The local variables of `sha1_transform`. -/
@[ext]
structure Sha1Regs where
  a : U32
  b : U32
  c : U32
  d : U32
  e : U32
  deriving DecidableEq

/-- `f` in `sha1_transform`. -/
def sha1F (i : Nat) (b c d : U32) : U32 :=
  if i < 20 then
    (b &&& c) ||| (~~~b &&& d)
  else if i < 40 then
    b ^^^ c ^^^ d
  else if i < 60 then
    (b &&& c) ||| (b &&& d) ||| (c &&& d)
  else
    b ^^^ c ^^^ d

/-- `k` in `sha1_transform`. -/
def sha1K (i : Nat) : U32 :=
  if i < 20 then
    0x5A827999
  else if i < 40 then
    0x6ED9EBA1
  else if i < 60 then
    0x8F1BBCDC
  else
    0xCA62C1D6

/-- One round of `sha1_transform`. -/
def sha1Round (w : List U32) (r : Sha1Regs) (i : Nat) : Sha1Regs :=
  let temp := rotr r.a 5 + sha1F i r.b r.c r.d + r.e + sha1K i + w.getD i 0
  { a := temp, b := r.a, c := rotr r.b 30, d := r.c, e := r.d }

/-- The local variables of `sha1_transform` after some rounds. -/
def sha1Rounds (state : Fin 5 → U32) (block : Block) (count : Nat) : Sha1Regs :=
  (range count).foldl (sha1Round (sha1Words block))
    { a := state 0, b := state 1, c := state 2, d := state 3, e := state 4 }

/-- `sha1_transform`, on `ctx->state`. -/
def sha1Transform (state : Fin 5 → U32) (block : Block) : Fin 5 → U32 :=
  let r := sha1Rounds state block 80
  ![state 0 + r.a, state 1 + r.b, state 2 + r.c, state 3 + r.d, state 4 + r.e]

/-! ## Contexts -/

/-- `sha256_ctx`, `md5_ctx` and `sha1_ctx`. -/
structure HashCtx (State : Type) where
  state : State
  totalLen : U64
  buf : Block
  bufLen : U32

/-- What the functions of one hash have of their own. -/
structure HashAlgorithm where
  State : Type
  initial : State
  transform : State → Block → State
  /-- `lenpad`, from `bits`. -/
  lenpad : U64 → List U8
  digest : State → List U8

/-- `memcpy(buf + offset, data, n)`. -/
def copyToBuffer (buf : Block) (offset : U32) (data : List U8) (n : U32) : Option Block :=
  if offset.toNat + n.toNat ≤ 64 then
    some fun i =>
      if offset.toNat ≤ i.val ∧ i.val < offset.toNat + n.toNat then
        data.getD (i.val - offset.toNat) 0
      else
        buf i
  else
    none

section Update

variable (algorithm : HashAlgorithm)

/-- `while (len >= 64)`: the state, the data left and their length. -/
def transformBlocks :
    Nat → algorithm.State → List U8 → U32 → algorithm.State × List U8 × U32
  | 0, state, data, len => (state, data, len)
  | fuel + 1, state, data, len =>
      if len ≥ 64 then
        transformBlocks fuel (algorithm.transform state (blockOf data)) (data.drop 64) (len - 64)
      else
        (state, data, len)

/-- The end of an update: all full blocks, and then the rest into the buffer. -/
def absorbBlocks (ctx : HashCtx algorithm.State) (data : List U8) (len : U32) :
    Option (HashCtx algorithm.State) :=
  let (state, data, len) := transformBlocks algorithm len.toNat ctx.state data len
  if len ≠ 0 then do
    let buf ← copyToBuffer ctx.buf ctx.bufLen data len
    return { ctx with state, buf, bufLen := ctx.bufLen + len }
  else
    some { ctx with state }

/-- `sha256_update`, `md5_update` and `sha1_update`. -/
def hashUpdate (ctx : HashCtx algorithm.State) (data : List U8) (len : U32) :
    Option (HashCtx algorithm.State) := do
  let fill := 64 - ctx.bufLen
  let ctx := { ctx with totalLen := ctx.totalLen + len.setWidth 64 }
  if ctx.bufLen ≠ 0 ∧ len ≥ fill then
    let buf ← copyToBuffer ctx.buf ctx.bufLen data fill
    absorbBlocks algorithm
      { ctx with state := algorithm.transform ctx.state buf, buf, bufLen := 0 }
      (data.drop fill.toNat) (len - fill)
  else
    absorbBlocks algorithm ctx data len

/-- `pad`. -/
def hashPad : List U8 :=
  0x80 :: replicate 63 0

/-- The two updates of `sha256_final`, `md5_final` and `sha1_final`. -/
def hashFinish (ctx : HashCtx algorithm.State) : Option (HashCtx algorithm.State) := do
  let plen := ctx.bufLen
  let padded ← hashUpdate algorithm ctx hashPad (if plen < 56 then 56 - plen else 120 - plen)
  let bits := padded.totalLen * 8
  hashUpdate algorithm padded (algorithm.lenpad bits) 8

/-- `sha256_final`, `md5_final` and `sha1_final`. -/
def hashFinal (ctx : HashCtx algorithm.State) : Option (List U8) :=
  (hashFinish algorithm ctx).map fun finished => algorithm.digest finished.state

/-- `sha256_init`, `md5_init` and `sha1_init`; the buffer keeps what it held. -/
def hashInit (ctx : HashCtx algorithm.State) : HashCtx algorithm.State :=
  { ctx with state := algorithm.initial, totalLen := 0, bufLen := 0 }

end Update

/-! ## The three algorithms -/

/-- Some bytes of a length, from the lowest on: `bits & 0xff`, then `bits >>= 8`. -/
def lowBytes : Nat → U64 → List U8
  | 0, _ => []
  | count + 1, bits => bits.setWidth 8 :: lowBytes count (bits >>> 8)

/-- The algorithm of `sha256_init`, `sha256_update` and `sha256_final`. -/
def sha256Algorithm : HashAlgorithm where
  State := Fin 8 → U32
  initial := ![0x6a09e667, 0xbb67ae85, 0x3c6ef372, 0xa54ff53a,
    0x510e527f, 0x9b05688c, 0x1f83d9ab, 0x5be0cd19]
  transform := sha256Transform
  lenpad := fun bits => (lowBytes 8 bits).reverse
  digest := fun state => (ofFn state).flatMap writeBe32

/-- `sha256_init`. -/
abbrev sha256Init := hashInit sha256Algorithm

/-- `sha256_update`. -/
abbrev sha256Update := hashUpdate sha256Algorithm

/-- `sha256_final`. -/
abbrev sha256Final := hashFinal sha256Algorithm

/-- The algorithm of `md5_init`, `md5_update` and `md5_final`. -/
def md5Algorithm : HashAlgorithm where
  State := Fin 4 → U32
  initial := ![0x67452301, 0xefcdab89, 0x98badcfe, 0x10325476]
  transform := md5Transform
  lenpad := lowBytes 8
  digest := fun state => (ofFn state).flatMap writeLe32

/-- `md5_init`. -/
abbrev md5Init := hashInit md5Algorithm

/-- `md5_update`. -/
abbrev md5Update := hashUpdate md5Algorithm

/-- `md5_final`. -/
abbrev md5Final := hashFinal md5Algorithm

/-- The algorithm of `sha1_init`, `sha1_update` and `sha1_final`. -/
def sha1Algorithm : HashAlgorithm where
  State := Fin 5 → U32
  initial := ![0x67452301, 0xEFCDAB89, 0x98BADCFE, 0x10325476, 0xC3D2E1F0]
  transform := sha1Transform
  lenpad := fun bits => (lowBytes 8 bits).reverse
  digest := fun state => (ofFn state).flatMap writeBe32

/-- `sha1_init`. -/
abbrev sha1Init := hashInit sha1Algorithm

/-- `sha1_update`. -/
abbrev sha1Update := hashUpdate sha1Algorithm

/-- `sha1_final`. -/
abbrev sha1Final := hashFinal sha1Algorithm

/-- `HASH_SHA256`, `HASH_MD5` and `HASH_SHA1`. -/
inductive HashKind
  | sha256
  | md5
  | sha1
  deriving Repr, DecidableEq

def HashKind.algorithm : HashKind → HashAlgorithm
  | sha256 => sha256Algorithm
  | md5 => md5Algorithm
  | sha1 => sha1Algorithm

end XKern
