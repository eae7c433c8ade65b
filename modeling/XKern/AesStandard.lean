import XKern.Aes
import XKern.ByteField

namespace XKern.Fips197

open Polynomial ByteField

/-!
# The cipher of FIPS 197

Substitution is inversion in the field of bytes with an affine map after it, and
the columns are polynomials of degree below four over that field.  Only the type
of a byte is taken from the model.
-/

/-- The state, by row and column. -/
abbrev State := Fin 4 → Fin 4 → U8

/-- A word of the key schedule: four bytes, the first one is `a0`. -/
abbrev Word := Fin 4 → U8

/-- A bit of the affine map. -/
def affineBit (b : U8) (i : Nat) : Bool :=
  b.getLsbD i ^^ b.getLsbD ((i + 4) % 8) ^^ b.getLsbD ((i + 5) % 8) ^^
    b.getLsbD ((i + 6) % 8) ^^ b.getLsbD ((i + 7) % 8) ^^ (0x63 : U8).getLsbD i

/-- The affine map of the S-box. -/
def affine (b : U8) : U8 :=
  BitVec.ofBoolListLE
    [ affineBit b 0, affineBit b 1, affineBit b 2, affineBit b 3,
      affineBit b 4, affineBit b 5, affineBit b 6, affineBit b 7 ]

/-- The substitution of a byte; the inverse of zero is zero. -/
noncomputable def subByte (b : U8) : U8 :=
  affine (byteOf (Ring.inverse (elem b)))

/-- `SubBytes`. -/
noncomputable def subBytes (s : State) : State :=
  fun r c => subByte (s r c)

/-- Row `r` moves to the left by `r`, in a circle. -/
def shiftRows (s : State) : State :=
  fun r c => s r (c + r)

/-- The polynomial a(x) of `MixColumns`. -/
noncomputable def mixPolynomial : Gf256[X] :=
  C (elem 0x03) * X ^ 3 + C (elem 0x01) * X ^ 2 + C (elem 0x01) * X + C (elem 0x02)

noncomputable def columnPolynomial (column : Word) : Gf256[X] :=
  C (elem (column 3)) * X ^ 3 + C (elem (column 2)) * X ^ 2 + C (elem (column 1)) * X +
    C (elem (column 0))

/-- The product with a(x) modulo x^4 + 1. -/
noncomputable def mixColumn (column : Word) : Word :=
  fun r => byteOf (((mixPolynomial * columnPolynomial column) %ₘ (X ^ 4 + 1)).coeff r)

/-- `MixColumns`. -/
noncomputable def mixColumns (s : State) : State :=
  fun r c => mixColumn (fun r => s r c) r

/-- `AddRoundKey`. -/
def addRoundKey (w : Nat → Word) (round : Nat) (s : State) : State :=
  fun r c => s r c ^^^ w (4 * round + c) r

/-! ## Key expansion -/

/-- The key sizes of the standard. -/
inductive KeySize
  | aes128
  | aes192
  | aes256

def KeySize.nk : KeySize → Nat
  | .aes128 => 4
  | .aes192 => 6
  | .aes256 => 8

def KeySize.nr : KeySize → Nat
  | .aes128 => 10
  | .aes192 => 12
  | .aes256 => 14

theorem KeySize.nk_pos (size : KeySize) : 0 < size.nk := by
  cases size <;> decide

/-- `RotWord`. -/
def rotWord (a : Word) : Word :=
  fun r => a (r + 1)

/-- `SubWord`. -/
noncomputable def subWord (a : Word) : Word :=
  fun r => subByte (a r)

/-- `Rcon[i]`. -/
noncomputable def rcon (i : Nat) : Word :=
  ![byteOf (root ^ (i - 1)), 0, 0, 0]

def xorWord (a b : Word) : Word :=
  fun r => a r ^^^ b r

/-- The word `w[i]` of the key schedule. -/
noncomputable def keySchedule (size : KeySize) (key : List U8) (i : Nat) : Word :=
  if i < size.nk then
    fun r => key.getD (4 * i + r) 0
  else
    let temp := keySchedule size key (i - 1)
    xorWord (keySchedule size key (i - size.nk))
      (if i % size.nk = 0 then
        xorWord (subWord (rotWord temp)) (rcon (i / size.nk))
      else if 6 < size.nk ∧ i % size.nk = 4 then
        subWord temp
      else
        temp)
termination_by i
decreasing_by
  all_goals
    have := size.nk_pos
    omega

/-! ## Cipher -/

/-- The state after some of the rounds that mix the columns. -/
noncomputable def rounds (w : Nat → Word) (s : State) : Nat → State
  | 0 => s
  | n + 1 => addRoundKey w (n + 1) (mixColumns (shiftRows (subBytes (rounds w s n))))

/-- The state with the bytes of a block: column by column. -/
def stateOf (block : Fin 16 → U8) : State :=
  fun r c => block (.ofNat 16 (r + 4 * c))

def bytesOf (s : State) : Fin 16 → U8 :=
  fun i => s (.ofNat 4 i) (.ofNat 4 (i / 4))

/-- `Cipher`, with the key schedule of the key. -/
noncomputable def cipher (size : KeySize) (key : List U8)
    (block : Fin 16 → U8) : Fin 16 → U8 :=
  let w := keySchedule size key
  let s := rounds w (addRoundKey w 0 (stateOf block)) (size.nr - 1)
  bytesOf (addRoundKey w size.nr (shiftRows (subBytes s)))

end XKern.Fips197
