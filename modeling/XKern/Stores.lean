import Mathlib.Data.List.GetD
import XKern.Slices

namespace XKern.Stores

open Slices List

/-!
# Stores to a buffer

A call that fills a buffer makes stores, each at some offset.  The content of the
buffer afterwards is the old one with the stores laid over it in order, and a
bound on where they end is a bound on what the call can have changed.
-/

variable {Value : Type}

/-- A store: the offset of the first value, and the values. -/
structure Store (Value : Type) where
  start : Nat
  values : List Value

def Store.stop (store : Store Value) : Nat :=
  store.start + store.values.length

/-- The content after a store. -/
def Store.apply (store : Store Value) (content : Nat → Value) : Nat → Value :=
  fun i => if store.start ≤ i then store.values.getD (i - store.start) (content i) else content i

/-- The content after some stores. -/
def applyAll (stores : List (Store Value)) (content : Nat → Value) : Nat → Value :=
  stores.foldl (fun content store => store.apply content) content

/-- All stores end within the first `bound` values. -/
def Within (bound : Nat) (stores : List (Store Value)) : Prop :=
  ∀ store ∈ stores, store.stop ≤ bound

instance decidableWithin (bound : Nat) (stores : List (Store Value)) :
    Decidable (Within bound stores) :=
  inferInstanceAs (Decidable (∀ store ∈ stores, store.stop ≤ bound))

theorem Store.apply_of_stop_le (store : Store Value) {i : Nat} (behind : store.stop ≤ i)
    (content : Nat → Value) :
    store.apply content i = content i := by
  rw [Store.stop] at behind
  rw [Store.apply, if_pos (by omega), getD_eq_default _ _ (by omega)]

theorem Store.apply_of_lt (store : Store Value) {i : Nat} (inside : i < store.values.length)
    (content : Nat → Value) :
    store.apply content (store.start + i) = store.values.get ⟨i, inside⟩ := by
  rw [Store.apply, if_pos (Nat.le_add_right _ _), Nat.add_sub_cancel_left,
    getD_eq_getElem _ _ inside, get_eq_getElem]

theorem Store.apply_nil (start : Nat) (content : Nat → Value) :
    Store.apply ⟨start, []⟩ content = content := by
  funext i
  rw [Store.apply, getD_nil, ite_self]

theorem Store.apply_apply (start : Nat) (first second : List Value) (content : Nat → Value) :
    Store.apply ⟨start + first.length, second⟩ (Store.apply ⟨start, first⟩ content) =
      Store.apply ⟨start, first ++ second⟩ content := by
  funext i
  by_cases before : i < start
  · rw [Store.apply, if_neg (by dsimp only; omega), Store.apply, if_neg (by dsimp only; omega),
      Store.apply, if_neg (by dsimp only; omega)]
  · obtain ⟨k, rfl⟩ := Nat.exists_eq_add_of_le (not_lt.mp before)
    by_cases inFirst : k < first.length
    · rw [Store.apply, if_neg (by dsimp only; omega), Store.apply, Store.apply]
      dsimp only
      rw [if_pos (Nat.le_add_right _ _), Nat.add_sub_cancel_left,
        getD_append _ _ _ _ inFirst, if_pos (Nat.le_add_right _ _)]
    · have stops : Store.stop ⟨start, first⟩ ≤ start + k := by
        rw [Store.stop]
        dsimp only
        omega
      have unchanged := Store.apply_of_stop_le ⟨start, first⟩ stops content
      rw [Store.apply, unchanged, Store.apply]
      dsimp only
      rw [if_pos (by omega), if_pos (Nat.le_add_right _ _), Nat.add_sub_cancel_left,
        getD_append_right _ _ _ _ (by omega), Nat.sub_add_eq, Nat.add_sub_cancel_left]

theorem applyAll_of_le {stores : List (Store Value)} {bound i : Nat} (within : Within bound stores)
    (behind : bound ≤ i) (content : Nat → Value) :
    applyAll stores content i = content i := by
  induction stores generalizing content with
  | nil => rfl
  | cons store stores ih =>
    have first := within store mem_cons_self
    rw [applyAll, foldl_cons, ← applyAll,
      ih fun store member => within store (mem_cons_of_mem _ member),
      Store.apply_of_stop_le store (first.trans behind)]

theorem within_nil (bound : Nat) : Within bound ([] : List (Store Value)) :=
  fun _ member => absurd member not_mem_nil

theorem Within.mono {stores : List (Store Value)} {bound larger : Nat}
    (within : Within bound stores) (le : bound ≤ larger) :
    Within larger stores :=
  fun store member => (within store member).trans le

theorem slice_apply (start : Nat) (values : List Value) (content : Nat → Value) :
    slice (Store.apply ⟨start, values⟩ content) start values.length = values := by
  refine ext_getElem (length_slice _ _ _) fun i _ inside => ?_
  have value := Store.apply_of_lt ⟨start, values⟩ inside content
  rw [get_eq_getElem] at value
  simpa [slice] using value

end XKern.Stores
