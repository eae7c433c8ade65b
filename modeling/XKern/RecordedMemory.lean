import XKern.Stores

namespace XKern.RecordedMemory

open Stores List

/-!
# Memory with a record of its stores

A program that stores to memory and reads it back is followed on the memory and on
the list of its stores, so that what it may have written can be told from what it
has changed.  Stores that adjoin, in either order, amount to one store.
-/

variable {Value : Type}

/-- A memory, and the stores that were made to it in their order. -/
structure Recorded (Value : Type) where
  content : Nat → Value
  stores : List (Store Value)

namespace Recorded

/-- Memory before the first store. -/
def fresh (content : Nat → Value) : Recorded Value where
  content := content
  stores := []

/-- A store and its record. -/
def store (start : Nat) (values : List Value) (memory : Recorded Value) : Recorded Value where
  content := Store.apply ⟨start, values⟩ memory.content
  stores := memory.stores ++ [⟨start, values⟩]

/-- The address has been stored to. -/
def Written (memory : Recorded Value) (address : Nat) : Prop :=
  ∃ store ∈ memory.stores, store.start ≤ address ∧ address < store.stop

theorem not_written_fresh (content : Nat → Value) (address : Nat) :
    ¬ (fresh content).Written address := by
  rintro ⟨store, member, -⟩
  exact absurd member not_mem_nil

theorem written_store (start : Nat) (values : List Value) (memory : Recorded Value)
    (address : Nat) :
    (memory.store start values).Written address ↔
      memory.Written address ∨ (start ≤ address ∧ address < start + values.length) := by
  simp [Written, store, or_and_right, exists_or, Store.stop]

theorem content_store (memory : Recorded Value) (start : Nat) (value : Value) (address : Nat) :
    (memory.store start [value]).content address =
      if address = start then value else memory.content address := by
  by_cases here : address = start
  · rw [if_pos here, here]
    simp [store, Store.apply]
  · rw [if_neg here]
    by_cases above : start ≤ address
    · exact Store.apply_of_stop_le ⟨start, [value]⟩ (show start + 1 ≤ address by omega)
        memory.content
    · exact if_neg above

end Recorded

/-- Between two memories these values were stored from an address on, and nothing else. -/
structure Filled
    (start : Nat)
    (values : List Value)
    (before after : Recorded Value) : Prop where
  content : after.content = Store.apply ⟨start, values⟩ before.content
  written : ∀ address, after.Written address ↔
    before.Written address ∨ (start ≤ address ∧ address < start + values.length)

theorem filled_nil (start : Nat) (memory : Recorded Value) : Filled start [] memory memory where
  content := (Store.apply_nil start memory.content).symm
  written := fun address => by
    rw [length_nil]
    constructor
    · exact .inl
    · rintro (written | ⟨above, below⟩)
      · exact written
      · omega

theorem filled_store (start : Nat) (values : List Value) (memory : Recorded Value) :
    Filled start values memory (memory.store start values) where
  content := rfl
  written := memory.written_store start values

namespace Filled

variable {start : Nat} {first second values : List Value} {before middle after : Recorded Value}

theorem append (filled : Filled start first before middle)
    (next : Filled (start + first.length) second middle after) :
    Filled start (first ++ second) before after where
  content := by rw [next.content, filled.content, Store.apply_apply]
  written := fun address => by
    rw [next.written, filled.written, length_append]
    constructor
    · rintro ((written | range) | range)
      · exact Or.inl written
      · exact Or.inr (by omega)
      · exact Or.inr (by omega)
    · rintro (written | range)
      · exact Or.inl (Or.inl written)
      · by_cases inFirst : address < start + first.length
        · exact Or.inl (Or.inr ⟨range.1, inFirst⟩)
        · exact Or.inr (by omega)

theorem content_outside (filled : Filled start values before after) {address : Nat}
    (outside : address < start ∨ start + values.length ≤ address) :
    after.content address = before.content address := by
  rw [filled.content]
  rcases outside with below | behind
  · exact if_neg (not_le.mpr below)
  · exact Store.apply_of_stop_le ⟨start, values⟩ behind before.content

theorem content_inside (filled : Filled start values before after) {i : Nat} {value : Value}
    (isValue : values[i]? = some value) :
    after.content (start + i) = value := by
  obtain ⟨inside, same⟩ := List.getElem?_eq_some_iff.mp isValue
  rw [filled.content, Store.apply_of_lt ⟨start, values⟩ inside, get_eq_getElem, same]

theorem prepend (filled : Filled (start + first.length) second before middle)
    (next : Filled start first middle after) :
    Filled start (first ++ second) before after where
  content := by
    funext address
    by_cases inFirst : start ≤ address ∧ address < start + first.length
    · obtain ⟨i, rfl⟩ := Nat.exists_eq_add_of_le inFirst.1
      have inside : i < first.length := by omega
      have isValue : first[i]? = some first[i] := getElem?_eq_getElem inside
      have both : (first ++ second)[i]? = some first[i] := by
        rw [getElem?_append_left inside, isValue]
      rw [next.content_inside isValue,
        (filled_store start (first ++ second) before).content_inside both |>.symm]
      rfl
    · rw [next.content_outside (by omega), filled.content, Store.apply, Store.apply]
      dsimp only
      by_cases above : start ≤ address
      · have behind : start + first.length ≤ address := by omega
        rw [if_pos behind, if_pos above, getD_append_right _ _ _ _ (by omega), Nat.sub_add_eq]
      · rw [if_neg (by omega), if_neg above]
  written := fun address => by
    rw [next.written, filled.written, length_append]
    constructor
    · rintro ((written | range) | range)
      · exact .inl written
      · exact .inr (by omega)
      · exact .inr (by omega)
    · rintro (written | range)
      · exact .inl (.inl written)
      · by_cases inFirst : address < start + first.length
        · exact .inr ⟨range.1, inFirst⟩
        · exact .inl (.inr (by omega))

end Filled

end XKern.RecordedMemory
