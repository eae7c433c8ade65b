import Mathlib.Data.BitVec
import Mathlib.Data.List.GetD
import Mathlib.Tactic

namespace XKern.PackedBytes

open List BitVec

/-!
# Words in bytes

A word of memory is the list of its bytes, the lowest first.  Packing and unpacking
undo each other.  Fields are read from a list of bytes by their offset, and a buffer of
a fixed size is read and overwritten only where it has room.
-/

abbrev Byte := BitVec 8

/-- The word of some bytes, the lowest first. -/
def ofBytes (width : Nat) : List Byte → BitVec width
  | [] => 0
  | byte :: rest => (ofBytes width rest <<< 8) ||| byte.setWidth width

/-- The `count` lowest bytes of a word. -/
def toBytes {width : Nat} : Nat → BitVec width → List Byte
  | 0, _ => []
  | count + 1, word => word.setWidth 8 :: toBytes count (word >>> 8)

variable {Value : Type} {width offset : Nat} {values first : List Value}

@[simp]
theorem length_toBytes (count : Nat) (word : BitVec width) :
    (toBytes count word).length = count := by
  induction count generalizing word with
  | zero => rfl
  | succ count ih => rw [toBytes, length_cons, ih]

theorem getLsbD_ofBytes (width : Nat) (bytes : List Byte) (k : Nat) :
    (ofBytes width bytes).getLsbD k =
      (decide (k < width) && (bytes.getD (k / 8) 0).getLsbD (k % 8)) := by
  induction bytes generalizing k with
  | nil => simp [ofBytes]
  | cons byte bytes ih =>
    rw [ofBytes, getLsbD_or, getLsbD_shiftLeft, getLsbD_setWidth, ih]
    by_cases low : k < 8
    · have first : k / 8 = 0 := by omega
      have same : k % 8 = k := by omega
      simp [low, first, same]
    · obtain ⟨later, rfl⟩ := Nat.exists_eq_add_of_le (Nat.le_of_not_lt low)
      have next : (8 + later) / 8 = later / 8 + 1 := by omega
      have rest : (8 + later) % 8 = later % 8 := by omega
      have beyond : byte.getLsbD (8 + later) = false := getLsbD_of_ge _ _ (Nat.le_add_right 8 later)
      have isLater : 8 + later - 8 = later := by omega
      rw [next, rest, beyond, isLater, getD_cons_succ]
      by_cases inside : 8 + later < width
      · have laterInside : later < width := by omega
        simp [inside, laterInside]
      · simp [inside]

theorem getD_toBytes (count : Nat) (word : BitVec width) (i : Nat) :
    (toBytes count word).getD i 0 = if i < count then (word >>> (8 * i)).setWidth 8 else 0 := by
  induction count generalizing word i with
  | zero => rfl
  | succ count ih =>
    cases i with
    | zero => rw [toBytes, getD_cons_zero, if_pos (Nat.succ_pos count), Nat.mul_zero,
        ushiftRight_zero]
    | succ i =>
      rw [toBytes, getD_cons_succ, ih, show 8 * (i + 1) = 8 + 8 * i by omega, shiftRight_add]
      simp only [Nat.succ_lt_succ_iff]

theorem ofBytes_toBytes {count : Nat} (fits : width ≤ 8 * count) (word : BitVec width) :
    ofBytes width (toBytes count word) = word := by
  apply eq_of_getLsbD_eq
  intro k inside
  have isByte : k / 8 < count := by omega
  have isBit : 8 * (k / 8) + k % 8 = k := Nat.div_add_mod k 8
  rw [getLsbD_ofBytes, getD_toBytes, if_pos isByte, getLsbD_setWidth, getLsbD_ushiftRight, isBit]
  simp [inside, Nat.mod_lt]

theorem toBytes_ofBytes {bytes : List Byte} (fits : 8 * bytes.length ≤ width) :
    toBytes bytes.length (ofBytes width bytes) = bytes := by
  apply ext_getElem (length_toBytes _ _)
  intro i inside inList
  rw [← getD_eq_getElem _ 0, ← getD_eq_getElem _ 0, getD_toBytes, if_pos inList]
  apply eq_of_getLsbD_eq
  intro j isBit
  have isByte : (8 * i + j) / 8 = i := by omega
  have isRest : (8 * i + j) % 8 = j := by omega
  have inWord : 8 * i + j < width := by omega
  rw [getLsbD_setWidth, getLsbD_ushiftRight, getLsbD_ofBytes, isByte, isRest]
  simp [inWord, isBit]

/-! ## Fields -/

section Fields

/-- The `count` values of a list from an offset on. -/
def part (values : List Value) (offset count : Nat) : List Value :=
  (values.drop offset).take count

theorem length_part {count : Nat} (inside : offset + count ≤ values.length) :
    (part values offset count).length = count := by
  rw [part, length_take, length_drop]
  omega

theorem part_append_right (behind : first.length ≤ offset) (second : List Value) (count : Nat) :
    part (first ++ second) offset count = part second (offset - first.length) count := by
  rw [part, drop_append, drop_eq_nil_of_le behind, nil_append, part]

theorem part_append_left {count : Nat} (inside : offset + count ≤ first.length)
    (second : List Value) :
    part (first ++ second) offset count = part first offset count := by
  rw [part, drop_append_of_le_length (by omega),
    take_append_of_le_length (by rw [length_drop]; omega), part]

theorem part_self (values : List Value) : part values 0 values.length = values := by
  rw [part, drop_zero, take_length]

theorem part_part (values : List Value) (offset : Nat) {count inner innerCount : Nat}
    (inside : inner + innerCount ≤ count) :
    part (part values offset count) inner innerCount = part values (offset + inner) innerCount := by
  rw [part, part, part, drop_take, take_take, drop_drop]
  congr 1
  omega

end Fields

/-! ## Buffers -/

section Buffers

/-- Put values over those of the buffer from an offset on. -/
def overwrite (buffer : List Value) (offset : Nat) (values : List Value) : List Value :=
  buffer.take offset ++ (values ++ buffer.drop (offset + values.length))

variable {buffer : List Value}

theorem length_overwrite (inside : offset + values.length ≤ buffer.length) :
    (overwrite buffer offset values).length = buffer.length := by
  rw [overwrite, length_append, length_append, length_take, length_drop]
  omega

theorem part_overwrite (inside : offset ≤ buffer.length) (values : List Value) :
    part (overwrite buffer offset values) offset values.length = values := by
  have front : (buffer.take offset).length = offset := length_take_of_le inside
  rw [overwrite, part_append_right (Nat.le_of_eq front), front, Nat.sub_self,
    part_append_left (by omega), part_self]

theorem overwrite_adjoin (inside : offset ≤ buffer.length) (first second : List Value) :
    overwrite (overwrite buffer offset first) (offset + first.length) second =
      overwrite buffer offset (first ++ second) := by
  have front : (buffer.take offset ++ first).length = offset + first.length := by
    rw [length_append, length_take_of_le inside]
  have isTake : (overwrite buffer offset first).take (offset + first.length) =
      buffer.take offset ++ first := by
    rw [overwrite, ← List.append_assoc, take_left' front]
  have isDrop : (overwrite buffer offset first).drop (offset + first.length + second.length) =
      buffer.drop (offset + (first ++ second).length) := by
    rw [← drop_drop, overwrite, ← List.append_assoc, drop_left' front, drop_drop,
      length_append, add_assoc]
  rw [overwrite, isTake, isDrop, overwrite, List.append_assoc, List.append_assoc]

theorem overwrite_before (inside : offset + first.length ≤ buffer.length) (second : List Value) :
    overwrite (overwrite buffer (offset + first.length) second) offset first =
      overwrite buffer offset (first ++ second) := by
  have front : (buffer.take (offset + first.length)).length = offset + first.length :=
    length_take_of_le inside
  have isTake : (overwrite buffer (offset + first.length) second).take offset =
      buffer.take offset := by
    rw [overwrite, take_append_of_le_length (by omega), take_take,
      Nat.min_eq_left (Nat.le_add_right _ _)]
  have isDrop : (overwrite buffer (offset + first.length) second).drop (offset + first.length) =
      second ++ buffer.drop (offset + (first ++ second).length) := by
    rw [overwrite, drop_left' front, length_append, add_assoc]
  rw [overwrite, isTake, isDrop, overwrite, List.append_assoc]

theorem overwrite_over (inside : offset ≤ buffer.length) {old new : List Value}
    (same : new.length = old.length) (rest : List Value) :
    overwrite (overwrite buffer offset (old ++ rest)) offset new =
      overwrite buffer offset (new ++ rest) := by
  have front : (buffer.take offset).length = offset := length_take_of_le inside
  have isTake : (overwrite buffer offset (old ++ rest)).take offset = buffer.take offset := by
    rw [overwrite, take_left' front]
  have isDrop : (overwrite buffer offset (old ++ rest)).drop (offset + new.length) =
      rest ++ buffer.drop (offset + (new ++ rest).length) := by
    rw [← drop_drop, overwrite, drop_left' front, List.append_assoc,
      drop_left' same.symm, length_append, length_append, same]
  rw [overwrite, isTake, isDrop, overwrite, List.append_assoc]

/-- A load inside a buffer. -/
def read (buffer : List Value) (offset count : Nat) : Option (List Value) :=
  if offset + count ≤ buffer.length then some (part buffer offset count) else none

/-- A store inside a buffer. -/
def write (buffer : List Value) (offset : Nat) (values : List Value) : Option (List Value) :=
  if offset + values.length ≤ buffer.length then some (overwrite buffer offset values) else none

theorem read_of_le {count : Nat} (inside : offset + count ≤ buffer.length) :
    read buffer offset count = some (part buffer offset count) :=
  if_pos inside

theorem write_of_le (inside : offset + values.length ≤ buffer.length) :
    write buffer offset values = some (overwrite buffer offset values) :=
  if_pos inside

end Buffers

end XKern.PackedBytes
