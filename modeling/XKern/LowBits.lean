import Mathlib.Tactic

namespace XKern.LowBits

open BitVec Nat

/-!
# Low-bit masks of machine words

Page, table and heap code splits a word into its low bits and the rest with
`x & mask` and `x & ~mask`.  The facts below turn both halves into arithmetic
on the unsigned value, for every word width and every number of low bits.
-/

/-- The word whose `count` lowest bits are set. -/
def mask (width count : Nat) : BitVec width :=
  .ofNat width (2 ^ count - 1)

theorem toNat_mask {width count : Nat} (fits : count ≤ width) :
    (mask width count).toNat = 2 ^ count - 1 := by
  have powerLe : 2 ^ count ≤ 2 ^ width := Nat.pow_le_pow_right (by omega) fits
  have powerPos : 0 < 2 ^ count := Nat.two_pow_pos count
  rw [mask, toNat_ofNat, mod_eq_of_lt (by omega)]

theorem getLsbD_mask (width count index : Nat) : (mask width count).getLsbD index =
      (decide (index < width) && decide (index < count)) := by
  simp [mask, getLsbD_ofNat, testBit_two_pow_sub_one]

theorem toNat_and_mask {width count : Nat} (fits : count ≤ width) (word : BitVec width) :
    (word &&& mask width count).toNat = word.toNat % 2 ^ count := by
  rw [toNat_and, toNat_mask fits, and_two_pow_sub_one_eq_mod]

theorem and_and_and_not {width : Nat} (word pattern : BitVec width) :
    (word &&& pattern) &&& (word &&& ~~~pattern) = .ofNat width 0 := by
  ext index indexLt
  simp only [getElem_and, getElem_not, getElem_zero]
  grind

theorem and_add_and_not {width : Nat} (word pattern : BitVec width) :
    (word &&& pattern) + (word &&& ~~~pattern) = word := by
  rw [add_eq_or_of_and_eq_zero _ _ (and_and_and_not word pattern)]
  ext index indexLt
  simp only [getElem_or, getElem_and, getElem_not]
  grind

theorem toNat_and_not_mask {width count : Nat} (fits : count ≤ width) (word : BitVec width) :
    (word &&& ~~~mask width count).toNat = word.toNat - word.toNat % 2 ^ count := by
  have split := congrArg BitVec.toNat (and_add_and_not word (mask width count))
  rw [toNat_add_of_and_eq_zero (and_and_and_not word _), toNat_and_mask fits] at split
  omega

end XKern.LowBits
