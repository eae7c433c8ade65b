import Mathlib.Tactic

namespace XKern.BlockStream

open List Nat

/-!
# Streams taken block by block

A stream arrives in pieces and is used in blocks of one size.  The full blocks of
a list and the values behind the last of them are all that a reader has to keep:
what comes later only extends the values behind.
-/

variable {Value : Type} {size : Nat}

/-- The whole blocks of a list. -/
def blocks (size : Nat) (values : List Value) : List (List Value) :=
  (range (values.length / size)).map fun i => (values.drop (i * size)).take size

/-- What is left behind the whole blocks. -/
def rest (size : Nat) (values : List Value) : List Value :=
  values.drop (values.length / size * size)

theorem length_rest (values : List Value) : (rest size values).length = values.length % size := by
  rw [rest, length_drop, mod_eq_sub_div_mul]

theorem length_rest_lt (positive : 0 < size) (values : List Value) :
    (rest size values).length < size := by
  rw [length_rest]
  exact mod_lt _ positive

variable {values : List Value}

theorem blocks_of_lt (short : values.length < size) : blocks size values = [] := by
  rw [blocks, div_eq_of_lt short]
  rfl

theorem rest_of_lt (short : values.length < size) : rest size values = values := by
  rw [rest, div_eq_of_lt short, Nat.zero_mul, drop_zero]

theorem blocks_of_length_eq (positive : 0 < size) (one : values.length = size) :
    blocks size values = [values] := by
  have all : values.take size = values := take_of_length_le one.le
  rw [blocks, one, Nat.div_self positive]
  simp [all]

theorem length_of_mem_blocks {block : List Value} (member : block ∈ blocks size values) :
    block.length = size := by
  obtain ⟨i, inRange, rfl⟩ := mem_map.mp member
  have below : (i + 1) * size ≤ values.length :=
    (mul_le_mul_right _ (mem_range.mp inRange)).trans (div_mul_le_self _ _)
  rw [add_mul, one_mul] at below
  rw [length_take, length_drop]
  omega

section Append

variable {first : List Value} (full : size ∣ first.length)

include full

theorem blocks_append (positive : 0 < size) (second : List Value) :
    blocks size (first ++ second) = blocks size first ++ blocks size second := by
  obtain ⟨count, isCount⟩ := full
  have countFirst : first.length / size = count := by
    rw [isCount, Nat.mul_div_cancel_left _ positive]
  have countBoth : (first ++ second).length / size = count + second.length / size := by
    rw [length_append, isCount, mul_add_div positive]
  rw [blocks, blocks, blocks, countFirst, countBoth, range_add, map_append, map_map]
  congr 1
  · apply map_congr_left
    intro i inFirst
    have below : (i + 1) * size ≤ first.length := by
      rw [isCount, mul_comm]
      exact mul_le_mul_left _ (mem_range.mp inFirst)
    rw [add_mul, one_mul] at below
    rw [drop_append_of_le_length (by omega), take_append_of_le_length]
    rw [length_drop]
    omega
  · apply map_congr_left
    intro i _
    have start : (count + i) * size = first.length + i * size := by
      rw [add_mul, isCount, mul_comm]
    rw [Function.comp_apply, start, drop_length_add_append]

theorem rest_append (positive : 0 < size) (second : List Value) :
    rest size (first ++ second) = rest size second := by
  obtain ⟨count, isCount⟩ := full
  have start : (first ++ second).length / size * size =
      first.length + second.length / size * size := by
    rw [length_append, isCount, mul_add_div positive, add_mul, mul_comm count]
  rw [rest, rest, start, drop_length_add_append]

end Append

/-- The values of the whole blocks. -/
def front (size : Nat) (values : List Value) : List Value :=
  values.take (values.length / size * size)

theorem front_append_rest (size : Nat) (values : List Value) :
    front size values ++ rest size values = values :=
  take_append_drop _ values

theorem dvd_length_front (values : List Value) : size ∣ (front size values).length := by
  rw [front, length_take, min_eq_left (div_mul_le_self _ _)]
  exact dvd_mul_left _ _

theorem blocks_front (positive : 0 < size) (values : List Value) :
    blocks size (front size values) = blocks size values := by
  conv_rhs => rw [← front_append_rest size values]
  rw [blocks_append (dvd_length_front values) positive,
    blocks_of_lt (length_rest_lt positive values), append_nil]

theorem blocks_append_rest (positive : 0 < size) (values more : List Value) :
    blocks size (values ++ more) =
      blocks size values ++ blocks size (rest size values ++ more) := by
  conv_lhs => rw [← front_append_rest size values]
  rw [append_assoc, blocks_append (dvd_length_front values) positive, blocks_front positive]

theorem rest_append_rest (positive : 0 < size) (values more : List Value) :
    rest size (values ++ more) = rest size (rest size values ++ more) := by
  conv_lhs => rw [← front_append_rest size values]
  rw [append_assoc, rest_append (dvd_length_front values) positive]

theorem flatten_blocks (positive : 0 < size) (full : size ∣ values.length) :
    (blocks size values).flatten = values := by
  obtain ⟨count, isCount⟩ := full
  induction count generalizing values with
  | zero =>
    have empty : values = [] := length_eq_zero_iff.mp isCount
    rw [empty, blocks_of_lt (by simpa using positive)]
    rfl
  | succ count ih =>
    have atLeast : size ≤ values.length := by
      rw [isCount]
      exact Nat.le_mul_of_pos_right _ (succ_pos _)
    have firstLength : (values.take size).length = size := by
      rw [length_take, min_eq_left atLeast]
    have laterLength : (values.drop size).length = size * count := by
      rw [length_drop, isCount, mul_succ, Nat.add_sub_cancel]
    conv_lhs => rw [← take_append_drop size values]
    rw [blocks_append (Dvd.intro 1 (by rw [firstLength, mul_one])) positive,
      blocks_of_length_eq positive firstLength, flatten_append,
      ih laterLength]
    simp

end XKern.BlockStream
