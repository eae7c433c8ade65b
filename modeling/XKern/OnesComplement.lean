import Mathlib.Data.List.Induction
import Mathlib.Data.Nat.ModEq
import XKern.PackedBytes

namespace XKern.OnesComplement

open PackedBytes List

/-!
# One's-complement sums

The sum of the 16-bit words of some bytes, the high byte first and an odd last byte
with a zero behind it.  Carries out of the 16 bits are added at the low end, so that
the folded sum is the sum modulo 65535 with 65535 in the place of 0 for a positive sum.
A field that holds the complement of the sum over the other words makes the whole sum
fold to 65535.
-/

/-- The sum of the words. -/
def wordSum : List Byte → Nat
  | high :: low :: rest => 256 * high.toNat + low.toNat + wordSum rest
  | [high] => 256 * high.toNat
  | [] => 0

theorem wordSum_append {first : List Byte} (even : first.length % 2 = 0) (second : List Byte) :
    wordSum (first ++ second) = wordSum first + wordSum second := by
  induction first using twoStepInduction with
  | nil => exact (zero_add _).symm
  | singleton high => cases even
  | cons_cons high low rest ih _ =>
    have evenRest : rest.length % 2 = 0 := by
      rw [length_cons, length_cons] at even
      omega
    rw [cons_append, cons_append, wordSum, wordSum, ih evenRest]
    omega

theorem wordSum_le (bytes : List Byte) : wordSum bytes ≤ 65535 * ((bytes.length + 1) / 2) := by
  induction bytes using twoStepInduction with
  | nil => exact Nat.zero_le _
  | singleton high =>
    have := high.isLt
    rw [wordSum, length_singleton]
    omega
  | cons_cons high low rest ih _ =>
    have := high.isLt
    have := low.isLt
    rw [wordSum, length_cons, length_cons]
    omega

def carryRound (sum : Nat) : Nat :=
  sum % 65536 + sum / 65536

/-- The sum with all carries added. -/
def fold (sum : Nat) : Nat :=
  if sum = 0 then 0 else (sum - 1) % 65535 + 1

theorem fold_of_lt {sum : Nat} (small : sum < 65536) : fold sum = sum := by
  rw [fold]
  split
  · omega
  · omega

theorem fold_lt (sum : Nat) : fold sum < 65536 := by
  rw [fold]
  split <;> omega

theorem fold_carryRound (sum : Nat) : fold (carryRound sum) = fold sum := by
  rw [fold, fold, carryRound]
  split <;> split <;> omega

theorem carryRound_carryRound {sum : Nat} (word : sum < 2 ^ 32) :
    carryRound (carryRound sum) = fold sum := by
  have small : carryRound (carryRound sum) < 65536 := by
    rw [carryRound, carryRound]
    omega
  rw [← fold_of_lt small, fold_carryRound, fold_carryRound]

theorem fold_eq_iff {sum : Nat} (positive : 0 < sum) : fold sum = 65535 ↔ 65535 ∣ sum := by
  rw [fold, if_neg (ne_of_gt positive)]
  omega

theorem fold_add_complement (sum : Nat) : fold (sum + (65535 - fold sum)) = 65535 := by
  by_cases isZero : sum = 0
  · rw [isZero]
    rfl
  · have isFold : fold sum = (sum - 1) % 65535 + 1 := if_neg isZero
    rw [fold_eq_iff (by omega), isFold]
    omega

/-- A complement makes up for another sum exactly if the sums agree modulo 65535. -/
theorem dvd_add_complement_iff (first : Nat) {second : Nat} (positive : 0 < second) :
    65535 ∣ first + (65535 - fold second) ↔ first % 65535 = second % 65535 := by
  rw [fold, if_neg (ne_of_gt positive)]
  omega

theorem add_mod_cancel (first second common : Nat) :
    (first + common) % 65535 = (second + common) % 65535 ↔ first % 65535 = second % 65535 := by
  omega

end XKern.OnesComplement
