import Mathlib.Tactic

namespace XKern.Slices

open List

/-!
# Ranges of an indexed content

A content has a value at every index.  A range of it is read as a list; ranges
that adjoin can be read one after the other, and a part of a range can be cut
out of it.
-/

variable {Value : Type}

/-- The `count` values from `start` on. -/
def slice (content : Nat → Value) (start count : Nat) : List Value :=
  (range count).map fun i => content (start + i)

@[simp]
theorem length_slice (content : Nat → Value) (start count : Nat) :
    (slice content start count).length = count := by
  rw [slice, length_map, length_range]

@[simp]
theorem slice_zero (content : Nat → Value) (start : Nat) : slice content start 0 = [] :=
  rfl

theorem getElem?_slice (content : Nat → Value) (start : Nat) {count i : Nat} (inRange : i < count) :
    (slice content start count)[i]? = some (content (start + i)) := by
  rw [slice, getElem?_map, getElem?_range inRange]
  rfl

theorem slice_add (content : Nat → Value) (start first second : Nat) :
    slice content start (first + second) =
      slice content start first ++ slice content (start + first) second := by
  simp only [slice, range_add, map_append, map_map]
  congr 1
  apply map_congr_left
  intro i _
  rw [Function.comp_apply, add_assoc]

theorem slice_congr {first second : Nat → Value} {start other count : Nat}
    (same : ∀ i, i < count → first (start + i) = second (other + i)) :
    slice first start count = slice second other count := by
  apply map_congr_left
  intro i member
  exact same i (mem_range.mp member)

theorem slice_eq_replicate {content : Nat → Value} {start count : Nat} {value : Value}
    (constant : ∀ i, i < count → content (start + i) = value) :
    slice content start count = replicate count value := by
  rw [eq_replicate_iff, length_slice]
  refine ⟨rfl, ?_⟩
  intro found member
  obtain ⟨i, inRange, rfl⟩ := mem_map.mp member
  exact constant i (mem_range.mp inRange)

theorem take_drop_slice (content : Nat → Value) (start : Nat) {count skipped taken : Nat}
    (inside : skipped + taken ≤ count) :
    ((slice content start count).drop skipped).take taken =
      slice content (start + skipped) taken := by
  obtain ⟨rest, rfl⟩ := Nat.exists_eq_add_of_le inside
  rw [slice_add, slice_add, append_assoc, drop_left' (length_slice content start skipped),
    take_left' (length_slice content _ taken)]

theorem toNat_cut {width : Nat} (count limit : BitVec width) :
    (if count > limit then limit else count).toNat = min count.toNat limit.toNat := by
  split
  · rename_i above
    exact (min_eq_right (le_of_lt above)).symm
  · rename_i notAbove
    exact (min_eq_left (not_lt.mp notAbove)).symm

end XKern.Slices
