import XKern.Devfs

namespace XKern

open NameForest List Option

/-!
# Additions to and removals from the device tree

The table is a tree at all times: every child has a greater index than its one
parent and points back to it.  Additions and removals are described by what
they do to the tree, and what a search finds afterwards follows from that.
-/

variable {Hook : Type} {index top : DevfsIndex} {names : List (List U8)} {result : Int}

/-- The nodes have everything in common but the links to their children. -/
def DevfsNode.Same (first second : DevfsNode Hook) : Prop :=
  second = { first with
    children := second.children
    childrenLe := second.childrenLe }

theorem DevfsNode.Same.of_eq {first second : DevfsNode Hook}
    (same : second = first) : first.Same second := by
  rw [same]
  rfl

/-- The table is a tree under the root `dev`. -/
structure Devfs.IsTree (devfs : Devfs Hook) : Prop where
  rootCounted : 0 < devfs.nodeCount
  rootName : (devfs.nodes 0).name.chars = devName
  counted : ∀ parent, ∀ index ∈ (devfs.nodes parent).children,
    index.val < devfs.nodeCount
  later : ∀ parent, ∀ index ∈ (devfs.nodes parent).children,
    parent.val < index.val
  parents : ∀ parent, ∀ index ∈ (devfs.nodes parent).children,
    (devfs.nodes index).parent = parent
  nodup : ∀ parent, (devfs.nodes parent).children.Nodup

theorem devfsInit_isTree : (devfsInit : Devfs Hook).IsTree := by
  have noChildren (parent : DevfsIndex) :
      ((devfsInit : Devfs Hook).nodes parent).children = [] := by
    by_cases isRoot : parent = 0
    · rw [isRoot]
      rfl
    · simp [devfsInit, Function.update_of_ne isRoot, DevfsNode.zero]
  constructor
  · exact one_pos
  · rfl
  · simp [noChildren]
  · simp [noChildren]
  · simp [noChildren]
  · simp [noChildren]

namespace Devfs.IsTree

variable {devfs : Devfs Hook} (tree : devfs.IsTree)

include tree

theorem singleParents : devfs.forest.SingleParents := by
  intro first second index inFirst inSecond
  rw [← tree.parents first index inFirst, tree.parents second index inSecond]

theorem below_le (below : devfs.forest.Below top index) : top.val ≤ index.val := by
  induction below with
  | refl => exact le_refl _
  | @tail parent index _ link ih =>
    exact ih.trans (tree.later parent index link).le

theorem below_counted (topCounted : top.val < devfs.nodeCount)
    (below : devfs.forest.Below top index) : index.val < devfs.nodeCount := by
  rcases Relation.ReflTransGen.cases_tail below with same | ⟨parent, _, link⟩
  · exact same ▸ topCounted
  · exact tree.counted parent index link

theorem resolve_counted (resolved : devfs.forest.resolve 0 names = some index) :
    index.val < devfs.nodeCount :=
  tree.below_counted tree.rootCounted (Forest.below_of_resolve resolved)

end Devfs.IsTree

theorem isDir_of_findParent {devfs : Devfs Hook} {parent : DevfsIndex}
    (topDir : (devfs.nodes top).type = .dir) (found : findParent devfs top names = some parent) :
    (devfs.nodes parent).type = .dir := by
  induction names generalizing top with
  | nil =>
    cases found
    exact topDir
  | cons component rest ih =>
    obtain ⟨child, _, found⟩ := bind_eq_some_iff.mp found
    split at found
    · rename_i childDir
      exact ih childDir found
    · cases found

theorem resolve_of_findParent {devfs : Devfs Hook} {parent : DevfsIndex}
    (found : findParent devfs top names = some parent) :
    devfs.forest.resolve top names = some parent := by
  induction names generalizing top with
  | nil => exact found
  | cons component rest ih =>
    obtain ⟨child, isChild, found⟩ := bind_eq_some_iff.mp found
    split at found
    · rw [Forest.resolve, show devfs.forest.child top component = some child from isChild]
      exact ih found
    · cases found

/-! ## What an addition does -/

/-- The node has got the next slot, as the last child of its parent. -/
structure Placed
    (before after : Devfs Hook)
    (new : NewDevfsNode Hook)
    (name : DevfsName)
    (parent slot : DevfsIndex) : Prop where
  slotNext : slot.val = before.nodeCount
  count : after.nodeCount = before.nodeCount + 1
  node : after.nodes slot = new.node name parent before.nextId
  linked : (after.nodes parent).children =
    (before.nodes parent).children ++ [slot]
  same : ∀ index, index ≠ slot → (before.nodes index).Same (after.nodes index)
  others : ∀ index, index ≠ slot → index ≠ parent →
    after.nodes index = before.nodes index

/-- Nothing has changed but slots that are not in use, which have no children. -/
structure Unplaced (before after : Devfs Hook) : Prop where
  count : after.nodeCount = before.nodeCount
  nodes : ∀ index, after.nodes index = before.nodes index ∨
    before.nodeCount ≤ index.val ∧ (after.nodes index).children = []

theorem addChild_some {node linked : DevfsNode Hook} (added : node.addChild index = some linked) :
    linked.children = node.children ++ [index] ∧ node.Same linked := by
  rw [DevfsNode.addChild] at added
  split at added
  · cases added
    exact ⟨rfl, rfl⟩
  · cases added

theorem devfsPlace_cases {new : NewDevfsNode Hook} {name : DevfsName} {parent : DevfsIndex}
    {before after : Devfs Hook} {room : before.nodeCount < devfsMaxNodes}
    (parentCounted : parent.val < before.nodeCount)
    (placed : devfsPlace new name parent before room = (result, after)) :
    result = 0 ∧ Placed before after new name parent ⟨before.nodeCount, room⟩ ∨
      result = -1 ∧ Unplaced before after := by
  have parentNe : parent ≠ ⟨before.nodeCount, room⟩ :=
    fun same => parentCounted.ne (congrArg Fin.val same)
  have parentKept := before.setNode_of_ne parentNe (new.node name parent before.nextId)
  rw [devfsPlace] at placed
  simp only [parentKept] at placed
  split at placed
  · rename_i linked isLinked
    obtain ⟨children, sameParent⟩ := addChild_some isLinked
    cases placed
    left
    refine ⟨rfl, rfl, rfl, ?_, ?_, ?_, ?_⟩
    · exact (Devfs.setNode_of_ne _ parentNe.symm _).trans (Devfs.setNode_self ..)
    · exact (congrArg DevfsNode.children (Devfs.setNode_self ..)).trans children
    · intro index indexNe
      by_cases isParent : index = parent
      · rw [isParent]
        simpa using sameParent
      · exact DevfsNode.Same.of_eq ((Devfs.setNode_of_ne _ isParent linked).trans
          (before.setNode_of_ne indexNe _))
    · intro index indexNe notParent
      exact (Devfs.setNode_of_ne _ notParent linked).trans (before.setNode_of_ne indexNe _)
  · cases placed
    right
    refine ⟨rfl, rfl, ?_⟩
    intro index
    by_cases isSlot : index = ⟨before.nodeCount, room⟩
    · rw [isSlot]
      exact Or.inr ⟨le_refl _, congrArg DevfsNode.children (before.setNode_self ..)⟩
    · exact .inl (before.setNode_of_ne isSlot _)

/-- `devfs_node_add` has found a parent in which the name is free. -/
structure Addable
    (devfs : Devfs Hook)
    (path : List U8)
    (name : DevfsName)
    (parent : DevfsIndex) : Prop where
  resolved : devfs.forest.resolve 0
    (afterRoot (devfs.nodes 0).name.chars
      (components (parentPath (normalizePath path)))) = some parent
  leaf : name.chars = pathLeaf (normalizePath path)
  free : findChild devfs parent name.chars = none

theorem copyDevfsName_chars {name : List U8} {copied : DevfsName}
    (copies : copyDevfsName name = some copied) : copied.chars = name := by
  rw [copyDevfsName] at copies
  split at copies
  · cases copies
    rfl
  · cases copies

theorem devfsNodeAdd_cases {new : NewDevfsNode Hook} {before after : Devfs Hook}
    (tree : before.IsTree) (added : devfsNodeAdd new before = some (result, after)) :
    (∃ name parent slot, result = 0 ∧ Addable before new.name name parent ∧
      Placed before after new name parent slot ∧
      ((before.nodes 0).type = .dir → (before.nodes parent).type = .dir)) ∨
      result = -1 ∧ Unplaced before after := by
  have unchanged : Unplaced before before := ⟨rfl, fun _ => .inl rfl⟩
  rw [devfsNodeAdd] at added
  split at added
  · rename_i room
    obtain ⟨_, _, added⟩ := bind_eq_some_iff.mp added
    dsimp only at added
    split at added
    · cases added
      exact .inr ⟨rfl, unchanged⟩
    · rename_i parent found
      have resolved := resolve_of_findParent found
      split at added
      · cases added
        exact .inr ⟨rfl, unchanged⟩
      · rename_i free
        obtain ⟨name, copies, placed⟩ := bind_eq_some_iff.mp added
        have isLeaf := copyDevfsName_chars copies
        rcases devfsPlace_cases (tree.resolve_counted resolved)
            (Option.some.inj placed) with ⟨done, placed⟩ | failed
        · refine .inl ⟨name, parent, _, done, ⟨resolved, isLeaf, ?_⟩, placed,
            fun rootDir => isDir_of_findParent rootDir found⟩
          rw [isLeaf]
          exact not_isSome_iff_eq_none.mp free
        · exact .inr failed
  · cases added
    exact .inr ⟨rfl, unchanged⟩

namespace DevfsNode.Same

variable {first second : DevfsNode Hook} (same : first.Same second)

include same

theorem name_eq : second.name = first.name := by
  rw [same]

theorem parent_eq : second.parent = first.parent := by
  rw [same]

end DevfsNode.Same

namespace Placed

variable {before after : Devfs Hook} {new : NewDevfsNode Hook} {name : DevfsName}
  {parent slot : DevfsIndex}

variable (placed : Placed before after new name parent slot)

include placed

theorem ne_slot (counted : index.val < before.nodeCount) : index ≠ slot := by
  rintro rfl
  exact counted.ne placed.slotNext

theorem grown (tree : before.IsTree) (parentCounted : parent.val < before.nodeCount) :
    Grown before.forest after.forest parent slot where
  names index indexNe := congrArg DevfsName.chars (placed.same index indexNe).name_eq
  others index indexNe notParent :=
    congrArg DevfsNode.children (placed.others index indexNe notParent)
  linked := placed.linked
  parentNe := placed.ne_slot parentCounted
  leaf := congrArg DevfsNode.children placed.node
  unlinked index member := placed.ne_slot (tree.counted index slot member) rfl

theorem name_slot : after.forest.name slot = name.chars :=
  congrArg (fun node => node.name.chars) placed.node

theorem isTree (tree : before.IsTree) (parentCounted : parent.val < before.nodeCount) :
    after.IsTree := by
  have grown := placed.grown tree parentCounted
  have counted := placed.count
  -- an old link, or the new one
  have link (top index : DevfsIndex) (member : index ∈ (after.nodes top).children) :
      index ∈ (before.nodes top).children ∨ top = parent ∧ index = slot := by
    have topNe : top ≠ slot := by
      rintro rfl
      rw [← Devfs.forest_children, grown.leaf] at member
      cases member
    exact (grown.mem_children_iff topNe).mp member
  have rootNe : (0 : DevfsIndex) ≠ slot := placed.ne_slot tree.rootCounted
  constructor
  · omega
  · exact (congrArg DevfsName.chars (placed.same 0 rootNe).name_eq).trans tree.rootName
  · intro top index member
    rcases link top index member with old | ⟨_, rfl⟩
    · exact (tree.counted top index old).trans (by omega)
    · rw [placed.slotNext]
      omega
  · intro top index member
    rcases link top index member with old | ⟨rfl, rfl⟩
    · exact tree.later top index old
    · rw [placed.slotNext]
      exact parentCounted
  · intro top index member
    rcases link top index member with old | ⟨rfl, rfl⟩
    · rw [(placed.same index (placed.ne_slot (tree.counted top index old))).parent_eq]
      exact tree.parents top index old
    · rw [placed.node]
      rfl
  · intro top
    by_cases isSlot : top = slot
    · rw [isSlot, placed.node]
      exact nodup_nil
    · by_cases isParent : top = parent
      · rw [isParent, placed.linked]
        apply nodup_append.mpr
        refine ⟨tree.nodup parent, nodup_singleton slot, ?_⟩
        intro index member other isSlot
        rw [mem_singleton.mp isSlot]
        exact grown.ne_of_mem member
      · rw [placed.others top isSlot isParent]
        exact tree.nodup top

end Placed

theorem Unplaced.isTree {before after : Devfs Hook} (unplaced : Unplaced before after)
    (tree : before.IsTree) : after.IsTree := by
  have count := unplaced.count
  have old {index : DevfsIndex} (counted : index.val < before.nodeCount) :
      after.nodes index = before.nodes index := by
    rcases unplaced.nodes index with same | ⟨unused, _⟩
    · exact same
    · omega
  have link {top index : DevfsIndex} (member : index ∈ (after.nodes top).children) :
      index ∈ (before.nodes top).children := by
    rcases unplaced.nodes top with same | ⟨_, none⟩
    · exact same ▸ member
    · rw [none] at member
      cases member
  constructor
  · have rootCounted := tree.rootCounted
    omega
  · rw [old tree.rootCounted, tree.rootName]
  · intro top index member
    rw [count]
    exact tree.counted top index (link member)
  · intro top index member
    exact tree.later top index (link member)
  · intro top index member
    rw [old (tree.counted top index (link member))]
    exact tree.parents top index (link member)
  · intro top
    rcases unplaced.nodes top with same | ⟨_, none⟩
    · rw [same]
      exact tree.nodup top
    · rw [none]
      exact nodup_nil

/-! ## What a removal does -/

/-- Only the links to the node are gone. -/
structure Unlinked (before after : Devfs Hook) (node : DevfsIndex) : Prop where
  count : after.nodeCount = before.nodeCount
  same : ∀ index, (before.nodes index).Same (after.nodes index)
  children : ∀ index, (after.nodes index).children =
    (before.nodes index).children.erase node

theorem devfsNodeRemove_cases {path : List U8} {before after : Devfs Hook} (tree : before.IsTree)
    (removed : devfsNodeRemove path before = (result, after)) :
    (∃ node, result = 0 ∧ node ≠ 0 ∧ devfsNodeFind before (normalizePath path) = some node ∧
      Unlinked before after node) ∨
      result = -1 ∧ after = before := by
  rw [devfsNodeRemove] at removed
  split at removed
  · cases removed
    exact .inr ⟨rfl, rfl⟩
  · rename_i node found
    split at removed
    · cases removed
      exact .inr ⟨rfl, rfl⟩
    · rename_i notRoot
      cases removed
      refine .inl ⟨node, rfl, notRoot, found, rfl, ?_, ?_⟩
      · intro index
        by_cases isParent : index = (before.nodes node).parent
        · rw [isParent, Devfs.setNode_self]
          rfl
        · exact DevfsNode.Same.of_eq (before.setNode_of_ne isParent _)
      · intro index
        by_cases isParent : index = (before.nodes node).parent
        · rw [isParent, Devfs.setNode_self]
          rfl
        · rw [before.setNode_of_ne isParent]
          -- only the parent has a link to the node
          have notChild : node ∉ (before.nodes index).children :=
            fun member => isParent (tree.parents index node member).symm
          rw [erase_of_not_mem notChild]

namespace Unlinked

variable {before after : Devfs Hook} {node : DevfsIndex}

theorem pruned (unlinked : Unlinked before after node) (tree : before.IsTree) :
    Pruned before.forest after.forest node where
  fewer index := by
    intro child member
    rw [Devfs.forest_children, unlinked.children index] at member
    exact mem_of_mem_erase member
  unlinked index := by
    rw [Devfs.forest_children, unlinked.children index]
    exact (tree.nodup index).not_mem_erase

theorem isTree (unlinked : Unlinked before after node) (tree : before.IsTree) : after.IsTree := by
  have pruned := unlinked.pruned tree
  have count := unlinked.count
  constructor
  · rw [count]
    exact tree.rootCounted
  · rw [(unlinked.same 0).name_eq, tree.rootName]
  · intro top index member
    rw [count]
    exact tree.counted top index (pruned.fewer top member)
  · intro top index member
    exact tree.later top index (pruned.fewer top member)
  · intro top index member
    rw [(unlinked.same index).parent_eq]
    exact tree.parents top index (pruned.fewer top member)
  · intro top
    rw [unlinked.children top]
    exact (tree.nodup top).erase node

end Unlinked

/-! ## Searches -/

theorem Devfs.IsTree.find_eq {devfs : Devfs Hook} (tree : devfs.IsTree) (path : List U8) :
    devfsNodeFind devfs path =
      devfs.forest.resolve 0 (afterRoot devName (components (normalizePath path))) := by
  rw [devfsNodeFind, tree.rootName]
  split
  · rename_i isRoot
    rcases isRoot with isSlash | isDev
    · rw [isSlash]
      rfl
    · rw [isDev]
      rfl
  · rfl

end XKern
