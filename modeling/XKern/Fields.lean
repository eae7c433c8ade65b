import Mathlib.Tactic

namespace XKern.Fields

open List

/-!
# Fields between separators

The fields of a list are its longest parts without separators.  They are read
off part by part: a separator between two parts keeps their fields apart.
-/

variable {Item : Type}

/-- The parts between separators that are not empty. -/
def fields (separates : Item → Bool) (items : List Item) : List (List Item) :=
  (items.splitOnP separates).filter fun part => !part.isEmpty

variable {separates : Item → Bool}

theorem fields_append (first second : List Item) {separator : Item}
    (isSeparator : separates separator = true) :
    fields separates (first ++ separator :: second) =
      fields separates first ++ fields separates second := by
  rw [fields, splitOnP_append_cons first second isSeparator, filter_append]
  rfl

@[simp]
theorem fields_nil : fields separates ([] : List Item) = [] :=
  rfl

theorem fields_cons {separator : Item} (isSeparator : separates separator = true)
    (items : List Item) :
    fields separates (separator :: items) = fields separates items := by
  rw [← nil_append (separator :: items), fields_append [] items isSeparator, fields_nil, nil_append]

theorem fields_append_of_forall {leading : List Item}
    (separators : ∀ item ∈ leading, separates item = true) (items : List Item) :
    fields separates (leading ++ items) = fields separates items := by
  induction leading with
  | nil => rfl
  | cons separator leading ih =>
    rw [cons_append, fields_cons (separators separator mem_cons_self)]
    exact ih fun item member =>
      separators item (mem_cons_of_mem _ member)

theorem fields_of_forall {part : List Item} (nonempty : part ≠ [])
    (noSeparator : ∀ item ∈ part, separates item = false) :
    fields separates part = [part] := by
  rw [fields, splitOnP_eq_singleton noSeparator]
  cases part with
  | nil => exact absurd rfl nonempty
  | cons _ _ => rfl

theorem fields_congr {other : Item → Bool} {items : List Item}
    (same : ∀ item ∈ items, separates item = other item) :
    fields separates items = fields other items := by
  have parts : items.splitOnP separates = items.splitOnP other := by
    induction items with
    | nil => rfl
    | cons item items ih =>
      rw [splitOnP_cons_eq_if_modifyHead, splitOnP_cons_eq_if_modifyHead, same item mem_cons_self,
        ih fun later member => same later (mem_cons_of_mem _ member)]
  rw [fields, parts, fields]

theorem fields_cons_ne_nil {item : Item} (isItem : separates item = false) (items : List Item) :
    fields separates (item :: items) ≠ [] := by
  obtain ⟨part, parts, isCons⟩ := exists_cons_of_ne_nil (splitOnP_ne_nil separates items)
  rw [fields, splitOnP_cons_eq_if_modifyHead, isItem, isCons]
  simp

theorem fields_eq_nil_iff {items : List Item} :
    fields separates items = [] ↔ ∀ item ∈ items, separates item = true := by
  induction items with
  | nil => simp
  | cons item items ih =>
    cases isSeparator : separates item with
    | false => simp [fields_cons_ne_nil isSeparator, isSeparator]
    | true => simp [fields_cons isSeparator, isSeparator, ih]

end XKern.Fields
