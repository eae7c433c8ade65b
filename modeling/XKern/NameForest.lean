import Mathlib.Logic.Relation
import Mathlib.Tactic

namespace XKern.NameForest

open List Option

/-!
# Named nodes with lists of children

A forest gives every index a name and a list of children.  A list of names is
resolved from an index by going to the first child of each name in turn.  A
new last child changes nothing that could be resolved before, and once every
link to a node is gone, neither the node nor anything below it is reached from
outside.
-/

variable {Index Name : Type}

/-- Indices with names and children. -/
structure Forest (Index Name : Type) where
  name : Index → Name
  children : Index → List Index

/-- The indices that are reached from an index by links, itself included. -/
def Forest.Below (forest : Forest Index Name) : Index → Index → Prop :=
  Relation.ReflTransGen fun parent index => index ∈ forest.children parent

/-- No index is a child twice. -/
def Forest.SingleParents (forest : Forest Index Name) : Prop :=
  ∀ first second index, index ∈ forest.children first →
    index ∈ forest.children second → first = second

section Resolve

variable [DecidableEq Name]

/-- The first child of a name. -/
def Forest.child (forest : Forest Index Name) (parent : Index)
    (wanted : Name) : Option Index :=
  (forest.children parent).find? fun index => forest.name index = wanted

/-- Follow a list of names. -/
def Forest.resolve (forest : Forest Index Name) :
    Index → List Name → Option Index
  | index, [] => some index
  | index, wanted :: rest =>
      (forest.child index wanted).bind fun next => forest.resolve next rest

namespace Forest

variable {forest : Forest Index Name} {parent index : Index} {wanted : Name}

theorem mem_of_child (found : forest.child parent wanted = some index) :
    index ∈ forest.children parent :=
  mem_of_find?_eq_some found

theorem resolve_append (forest : Forest Index Name) (index : Index) (first second : List Name) :
    forest.resolve index (first ++ second) = (forest.resolve index first).bind fun middle =>
        forest.resolve middle second := by
  induction first generalizing index with
  | nil => rfl
  | cons wanted rest ih =>
    rw [cons_append, resolve, resolve, bind_assoc]
    congr 1
    funext next
    exact ih next

theorem resolve_singleton (forest : Forest Index Name) (index : Index) (wanted : Name) :
    forest.resolve index [wanted] = forest.child index wanted :=
  bind_fun_some _

theorem below_of_resolve {names : List Name} {top : Index}
    (resolved : forest.resolve top names = some index) :
    forest.Below top index := by
  induction names generalizing top with
  | nil =>
    cases resolved
    exact Relation.ReflTransGen.refl
  | cons wanted rest ih =>
    obtain ⟨next, found, resolved⟩ := bind_eq_some_iff.mp resolved
    exact Relation.ReflTransGen.head (mem_of_child found) (ih resolved)

theorem name_mem_of_resolve {names : List Name} {top : Index}
    (resolved : forest.resolve top names = some index) (different : index ≠ top) :
    forest.name index ∈ names := by
  induction names generalizing top with
  | nil =>
    cases resolved
    exact absurd rfl different
  | cons wanted rest ih =>
    obtain ⟨next, found, resolved⟩ := bind_eq_some_iff.mp resolved
    by_cases isNext : index = next
    · have named := find?_some found
      rw [isNext, of_decide_eq_true named]
      exact mem_cons_self
    · exact mem_cons_of_mem wanted (ih resolved isNext)

end Forest

end Resolve

/-! ## A new last child -/

/-- `fresh` has become the last child of `parent`. -/
structure Grown
    (before after : Forest Index Name)
    (parent fresh : Index) : Prop where
  names : ∀ index, index ≠ fresh → after.name index = before.name index
  others : ∀ index, index ≠ fresh → index ≠ parent →
    after.children index = before.children index
  linked : after.children parent = before.children parent ++ [fresh]
  parentNe : parent ≠ fresh
  leaf : after.children fresh = []
  unlinked : ∀ index, fresh ∉ before.children index

namespace Grown

variable {before after : Forest Index Name} {parent fresh : Index}

theorem ne_of_mem (grown : Grown before after parent fresh) {top index : Index}
    (member : index ∈ before.children top) : index ≠ fresh := by
  rintro rfl
  exact grown.unlinked top member

theorem mem_children_iff (grown : Grown before after parent fresh) {top index : Index}
    (topNe : top ≠ fresh) :
    index ∈ after.children top ↔ index ∈ before.children top ∨ top = parent ∧ index = fresh := by
  by_cases isParent : top = parent
  · simp [isParent, grown.linked]
  · simp [isParent, grown.others top topNe isParent]

variable [DecidableEq Name]

variable (grown : Grown before after parent fresh)

include grown

theorem find_old (top : Index) (wanted : Name) :
    ((before.children top).find? fun index => after.name index = wanted) =
      before.child top wanted := by
  apply find?_congr
  intro index member
  rw [grown.names index (grown.ne_of_mem member)]

theorem child_eq {top index : Index} {wanted : Name} (topNe : top ≠ fresh)
    (found : before.child top wanted = some index) :
    after.child top wanted = some index := by
  rw [Forest.child]
  by_cases isParent : top = parent
  · rw [isParent, grown.linked, find?_append, grown.find_old, ← isParent, found]
    rfl
  · rw [grown.others top topNe isParent, grown.find_old, found]

theorem resolve_eq {names : List Name} {top index : Index} (topNe : top ≠ fresh)
    (resolved : before.resolve top names = some index) :
    after.resolve top names = some index := by
  induction names generalizing top with
  | nil => exact resolved
  | cons wanted rest ih =>
    obtain ⟨next, found, resolved⟩ := bind_eq_some_iff.mp resolved
    rw [Forest.resolve, grown.child_eq topNe found]
    exact ih (grown.ne_of_mem (Forest.mem_of_child found)) resolved

theorem child_fresh (free : before.child parent (after.name fresh) = none) :
    after.child parent (after.name fresh) = some fresh := by
  rw [Forest.child, grown.linked, find?_append, grown.find_old, free]
  simp

theorem resolve_fresh {names : List Name} {top : Index} (topNe : top ≠ fresh)
    (resolved : before.resolve top names = some parent)
    (free : before.child parent (after.name fresh) = none) :
    after.resolve top (names ++ [after.name fresh]) = some fresh := by
  rw [Forest.resolve_append, grown.resolve_eq topNe resolved, bind_some,
    Forest.resolve_singleton, grown.child_fresh free]

end Grown

/-! ## The last link to a node -/

/-- Links may have gone, and none of them leads to `node` any more. -/
structure Pruned (before after : Forest Index Name) (node : Index) : Prop where
  fewer : ∀ index, after.children index ⊆ before.children index
  unlinked : ∀ index, node ∉ after.children index

theorem Pruned.not_below {before after : Forest Index Name} {node top index : Index}
    (pruned : Pruned before after node) (single : before.SingleParents)
    (outside : ¬ before.Below node top) (reached : after.Below top index) :
    ¬ before.Below node index := by
  induction reached with
  | refl => exact outside
  | @tail parent index reached link ih =>
    intro below
    rcases Relation.ReflTransGen.cases_tail below with same | ⟨other, above, oldLink⟩
    · rw [same] at link
      exact pruned.unlinked parent link
    · -- the one parent of `index` is reached too
      have sameParent := single parent other index (pruned.fewer parent link) oldLink
      exact ih (sameParent ▸ above)

end XKern.NameForest
