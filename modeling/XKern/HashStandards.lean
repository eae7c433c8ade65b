import Mathlib
import XKern.CryptoHash
import XKern.RealTables

namespace XKern

/-!
# Compression functions of the standards

FIPS 180-4 defines those of SHA-256 and SHA-1, RFC 1321 that of MD5.  Blocks and
the tuples of working variables have the types of the model; nothing else is taken
from it.
-/

namespace Fips180

/-- The word with these bytes, the most significant one first. -/
def bigEndian (b0 b1 b2 b3 : U8) : U32 :=
  b0 ++ b1 ++ b2 ++ b3

/-- The word `M_t` of a block. -/
def messageWord (block : Block) (t : Nat) : U32 :=
  bigEndian (block (.ofNat 64 (4 * t))) (block (.ofNat 64 (4 * t + 1)))
    (block (.ofNat 64 (4 * t + 2))) (block (.ofNat 64 (4 * t + 3)))

/-- Ch. -/
def choose (x y z : U32) : U32 :=
  (x &&& y) ^^^ (~~~x &&& z)

/-- Maj. -/
def majority (x y z : U32) : U32 :=
  (x &&& y) ^^^ (x &&& z) ^^^ (y &&& z)

/-! ## SHA-256 -/

/-- Σ0. -/
def upperSigma0 (x : U32) : U32 :=
  x.rotateRight 2 ^^^ x.rotateRight 13 ^^^ x.rotateRight 22

/-- Σ1. -/
def upperSigma1 (x : U32) : U32 :=
  x.rotateRight 6 ^^^ x.rotateRight 11 ^^^ x.rotateRight 25

/-- σ0. -/
def lowerSigma0 (x : U32) : U32 :=
  x.rotateRight 7 ^^^ x.rotateRight 18 ^^^ (x >>> 3)

/-- σ1. -/
def lowerSigma1 (x : U32) : U32 :=
  x.rotateRight 17 ^^^ x.rotateRight 19 ^^^ (x >>> 10)

/-- The first 32 bits of the fractional part of the cube root of a prime. -/
noncomputable def sha256Constant (t : Nat) : U32 :=
  .ofNat 32 ⌊2 ^ 32 * Int.fract ((Nat.nth Nat.Prime t : ℝ) ^ (1 / 3 : ℝ))⌋₊

/-- The word `W_t` of the message schedule. -/
def sha256Schedule (block : Block) (t : Nat) : U32 :=
  if t < 16 then
    messageWord block t
  else
    lowerSigma1 (sha256Schedule block (t - 2)) + sha256Schedule block (t - 7) +
      lowerSigma0 (sha256Schedule block (t - 15)) + sha256Schedule block (t - 16)

noncomputable def sha256Variables (state : Fin 8 → U32) (block : Block) : Nat → Sha256Regs
  | 0 =>
      { a := state 0, b := state 1, c := state 2, d := state 3,
        e := state 4, f := state 5, g := state 6, h := state 7 }
  | t + 1 =>
      let v := sha256Variables state block t
      let t1 := v.h + upperSigma1 v.e + choose v.e v.f v.g + sha256Constant t +
        sha256Schedule block t
      let t2 := upperSigma0 v.a + majority v.a v.b v.c
      { h := v.g, g := v.f, f := v.e, e := v.d + t1, d := v.c, c := v.b, b := v.a, a := t1 + t2 }

noncomputable def sha256Next (state : Fin 8 → U32) (block : Block) : Fin 8 → U32 :=
  let v := sha256Variables state block 64
  ![v.a + state 0, v.b + state 1, v.c + state 2, v.d + state 3,
    v.e + state 4, v.f + state 5, v.g + state 6, v.h + state 7]

/-! ## SHA-1 -/

end Fips180

namespace Rfc1321

/-- The word `X[k]` of a block: the least significant byte comes first. -/
def messageWord (block : Block) (k : Nat) : U32 :=
  block (.ofNat 64 (4 * k + 3)) ++ block (.ofNat 64 (4 * k + 2)) ++
    block (.ofNat 64 (4 * k + 1)) ++ block (.ofNat 64 (4 * k))

/-- The integer part of 2^32 times the absolute value of the sine of `i`. -/
noncomputable def sineConstant (i : Nat) : U32 :=
  .ofNat 32 ⌊2 ^ 32 * |Real.sin i|⌋₊

/-- A round of MD5. -/
structure Round where
  /-- Its auxiliary function. -/
  auxiliary : U32 → U32 → U32 → U32
  /-- The words, in the order in which its operations take them. -/
  order : List Nat
  /-- The rotation amounts, which four operations in a row go through. -/
  shifts : List Nat

def round1 : Round where
  auxiliary x y z := (x &&& y) ||| (~~~x &&& z)
  order := [0, 1, 2, 3, 4, 5, 6, 7, 8, 9, 10, 11, 12, 13, 14, 15]
  shifts := [7, 12, 17, 22]

def round2 : Round where
  auxiliary x y z := (x &&& z) ||| (y &&& ~~~z)
  order := [1, 6, 11, 0, 5, 10, 15, 4, 9, 14, 3, 8, 13, 2, 7, 12]
  shifts := [5, 9, 14, 20]

def round3 : Round where
  auxiliary x y z := x ^^^ y ^^^ z
  order := [5, 8, 11, 14, 1, 4, 7, 10, 13, 0, 3, 6, 9, 12, 15, 2]
  shifts := [4, 11, 16, 23]

def round4 : Round where
  auxiliary x y z := y ^^^ (x ||| ~~~z)
  order := [0, 7, 14, 5, 12, 3, 10, 1, 8, 15, 6, 13, 4, 11, 2, 9]
  shifts := [6, 10, 15, 21]

/-- The operation `[abcd k s i]` on the registers A, B, C and D: `a` is the register with
number `target` and `b`, `c`, `d` are those after it, in a circle. -/
noncomputable def operation (block : Block) (auxiliary : U32 → U32 → U32 → U32) (target : Fin 4)
    (k s i : Nat)
    (registers : Fin 4 → U32) : Fin 4 → U32 :=
  let b := registers (target + 1)
  let sum := registers target + auxiliary b (registers (target + 2)) (registers (target + 3)) +
    messageWord block k + sineConstant i
  Function.update registers target (b + sum.rotateLeft s)

/-- The sixteen operations of a round: they go through the targets A, D, C, B, and the
numbers of the sine constants follow `base`. -/
noncomputable def runRound (block : Block) (round : Round) (base : Nat)
    (registers : Fin 4 → U32) : Fin 4 → U32 :=
  (List.range 16).foldl
    (fun registers j =>
      operation block round.auxiliary (-Fin.ofNat 4 j) (round.order.getD j 0)
        (round.shifts.getD (j % 4) 0) (base + j + 1) registers)
    registers

noncomputable def md5Next (state : Fin 4 → U32) (block : Block) : Fin 4 → U32 :=
  let registers := runRound block round4 48
    (runRound block round3 32 (runRound block round2 16 (runRound block round1 0 state)))
  fun i => registers i + state i

end Rfc1321

end XKern
