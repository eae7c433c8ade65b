import Mathlib.Data.Set.Card
import XKern.DevfsTree

namespace XKern

open NameForest Option

/-!
# What can be found in the device tree

A new node is found under its path unless the path has no last component or
is the root's own name, and nothing that was found before gets lost.  A
removed node can no longer be found by any path, but it keeps its slot and its
id for good.
-/

variable {Hook : Type}

/-- A call of `devfs_mkdir` or `devfs_add_device`, apart from the path. -/
inductive DevfsAddition (Hook : Type)
  | mkdir
  | device (type : DevfsNodeType) (ops : Option (DevfsOps Hook)) (priv : U64)

namespace DevfsAddition

def run (path : List U8) (devfs : Devfs Hook) :
    DevfsAddition Hook → Option (Int × Devfs Hook)
  | mkdir => devfsMkdir path devfs
  | device type ops priv => devfsAddDevice path type ops priv devfs

def type : DevfsAddition Hook → DevfsNodeType
  | mkdir => .dir
  | device type _ _ => type

def ops : DevfsAddition Hook → Option (DevfsOps Hook)
  | mkdir => none
  | device _ ops _ => ops

def priv : DevfsAddition Hook → U64
  | mkdir => 0
  | device _ _ priv => priv

/-- The node has what the addition asks for. -/
def Describes (addition : DevfsAddition Hook) (node : DevfsNode Hook) : Prop :=
  node.type = addition.type ∧ node.ops = addition.ops ∧ node.priv = addition.priv

variable {addition : DevfsAddition Hook}

theorem run_nodeAdd {path : List U8} {devfs : Devfs Hook} {outcome : Int × Devfs Hook}
    (ran : addition.run path devfs = some outcome) :
    ∃ new : NewDevfsNode Hook, new.name = path ∧ new.type = addition.type ∧
      new.ops = addition.ops ∧ new.priv = addition.priv ∧
      devfsNodeAdd new devfs = some outcome := by
  cases addition with
  | mkdir =>
    obtain ⟨name, copies, added⟩ := bind_eq_some_iff.mp ran
    exact ⟨_, copyDevfsName_chars copies, rfl, rfl, rfl, added⟩
  | device type ops priv =>
    obtain ⟨name, copies, added⟩ := bind_eq_some_iff.mp ran
    exact ⟨_, copyDevfsName_chars copies, rfl, rfl, rfl, added⟩

theorem run_cases {path : List U8} {before after : Devfs Hook} {result : Int}
    (tree : before.IsTree) (ran : addition.run path before = some (result, after)) :
    (∃ new name parent slot, result = 0 ∧ addition.Describes (after.nodes slot) ∧
      Addable before path name parent ∧ Placed before after new name parent slot ∧
      ((before.nodes 0).type = .dir → (before.nodes parent).type = .dir)) ∨
      result = -1 ∧ Unplaced before after := by
  obtain ⟨new, rfl, type, ops, priv, added⟩ := run_nodeAdd ran
  rcases devfsNodeAdd_cases tree added with
    ⟨name, parent, slot, done, addable, placed, isDir⟩ | failed
  · refine .inl ⟨new, name, parent, slot, done, ?_, addable, placed, isDir⟩
    rw [placed.node]
    exact ⟨type, ops, priv⟩
  · exact .inr failed

end DevfsAddition

/-- The tables after `devfs_init` and any calls that return. -/
inductive Devfs.Reachable : Devfs Hook → Prop
  | init : Reachable devfsInit
  | add
      {before after : Devfs Hook}
      {addition : DevfsAddition Hook}
      {path : List U8}
      {result : Int}
      (reachable : Reachable before)
      (ran : addition.run path before = some (result, after)) :
      Reachable after
  | remove
      {before : Devfs Hook}
      (path : List U8)
      (reachable : Reachable before) :
      Reachable (devfsNodeRemove path before).2

theorem Addable.parent_counted {devfs : Devfs Hook} {path : List U8} {name : DevfsName}
    {parent : DevfsIndex} (addable : Addable devfs path name parent)
    (tree : devfs.IsTree) : parent.val < devfs.nodeCount :=
  tree.resolve_counted addable.resolved

theorem Devfs.Reachable.isTree {devfs : Devfs Hook}
    (reachable : devfs.Reachable) : devfs.IsTree := by
  induction reachable with
  | init => exact devfsInit_isTree
  | add _ ran tree =>
    rcases DevfsAddition.run_cases tree ran with
      ⟨_, _, _, _, _, _, addable, placed, _⟩ | ⟨_, unplaced⟩
    · exact placed.isTree tree (addable.parent_counted tree)
    · exact unplaced.isTree tree
  | @remove before path _ tree =>
    rcases devfsNodeRemove_cases tree (Prod.mk.eta (p := devfsNodeRemove path before)).symm
      with ⟨node, _, _, _, unlinked⟩ | ⟨_, same⟩
    · exact unlinked.isTree tree
    · rw [same]
      exact tree

/-! ## Additions -/

/--
The path of a new node leads to that node, and every other path that led to a
node still leads to the same one.
-/
structure FoundAfter
    (before after : Devfs Hook)
    (addition : DevfsAddition Hook)
    (path : List U8) : Prop where
  created : ∃ slot, devfsNodeFind after path = some slot ∧
    slot.val = before.nodeCount ∧ addition.Describes (after.nodes slot)
  kept : ∀ other index, devfsNodeFind before other = some index →
    devfsNodeFind after other = some index ∧
      (before.nodes index).Same (after.nodes index)

variable {before after : Devfs Hook} {path : List U8}

section Addition

variable {new : NewDevfsNode Hook} {name : DevfsName} {parent slot : DevfsIndex}

theorem Placed.find_kept (placed : Placed before after new name parent slot) (tree : before.IsTree)
    (parentCounted : parent.val < before.nodeCount) {other : List U8} {index : DevfsIndex}
    (found : devfsNodeFind before other = some index) :
    devfsNodeFind after other = some index ∧ (before.nodes index).Same (after.nodes index) := by
  rw [tree.find_eq] at found
  have rootNe : (0 : DevfsIndex) ≠ slot := placed.ne_slot tree.rootCounted
  refine ⟨?_, placed.same index (placed.ne_slot (tree.resolve_counted found))⟩
  rw [(placed.isTree tree parentCounted).find_eq]
  exact (placed.grown tree parentCounted).resolve_eq rootNe found

theorem afterRoot_concat {front : List (List U8)} {leaf : List U8}
    (notRoot : front ++ [leaf] ≠ [devName]) :
    afterRoot devName (front ++ [leaf]) = afterRoot devName front ++ [leaf] := by
  cases front with
  | nil =>
    have leafNe : leaf ≠ devName := by
      rintro rfl
      exact notRoot rfl
    simp [afterRoot, leafNe]
  | cons first rest =>
    rw [List.cons_append, afterRoot, afterRoot]
    split
    · rfl
    · rfl

/-- A new node is found unless its path ends in a slash or is the root's name. -/
theorem Placed.find_new_iff (placed : Placed before after new name parent slot)
    (addable : Addable before path name parent) (tree : before.IsTree) :
    devfsNodeFind after path = some slot ↔ pathLeaf (normalizePath path) ≠ [] ∧
        components (normalizePath path) ≠ [devName] := by
  have parentCounted := addable.parent_counted tree
  have rootNe : (0 : DevfsIndex) ≠ slot := placed.ne_slot tree.rootCounted
  have grown := placed.grown tree parentCounted
  have named := placed.name_slot
  rw [addable.leaf] at named
  rw [(placed.isTree tree parentCounted).find_eq]
  constructor
  · intro found
    constructor
    · -- no component is empty, so a node without a name is never found
      intro noLeaf
      have inPath := Forest.name_mem_of_resolve found rootNe.symm
      rw [named, noLeaf] at inPath
      have inComponents : [] ∈ components (normalizePath path) := by
        revert inPath
        cases components (normalizePath path) with
        | nil => exact id
        | cons first rest =>
          rw [afterRoot]
          split
          · exact List.mem_cons_of_mem first
          · exact id
      exact ne_nil_of_mem_components inComponents rfl
    · intro isRoot
      rw [isRoot] at found
      exact rootNe (Option.some.inj found)
  · rintro ⟨hasLeaf, notRoot⟩
    have fits : (pathLeaf (normalizePath path)).length ≤ devfsNameMax - 1 := by
      rw [← addable.leaf]
      exact name.fits.le
    have split := components_eq_parent hasLeaf fits
    rw [split] at notRoot
    have resolved := addable.resolved
    have free := addable.free
    rw [tree.rootName] at resolved
    rw [addable.leaf] at free
    rw [split, afterRoot_concat notRoot, ← named]
    exact grown.resolve_fresh rootNe resolved (by rwa [named])

end Addition

/--
After a successful `devfs_mkdir` or `devfs_add_device` the node is found under
its path, and everything else as before, exactly when the normalised path has
a last component and is not just the name of the root.
-/
theorem devfsAddition_found_iff {before after : Devfs Hook} {addition : DevfsAddition Hook}
    {path : List U8} (reachable : before.Reachable)
    (added : addition.run path before = some (0, after)) :
    FoundAfter before after addition path ↔
      pathLeaf (normalizePath path) ≠ [] ∧
        components (normalizePath path) ≠ [devName] := by
  have tree := reachable.isTree
  rcases DevfsAddition.run_cases tree added with
    ⟨new, name, parent, slot, _, described, addable, placed, _⟩ | ⟨failed, _⟩
  · rw [← placed.find_new_iff addable tree]
    constructor
    · rintro ⟨⟨found, isFound, isNext, _⟩, _⟩
      have same : found = slot := Fin.ext (isNext.trans placed.slotNext.symm)
      rw [isFound, same]
    · intro isFound
      exact {
        created := ⟨slot, isFound, placed.slotNext, described⟩
        kept := fun _ _ found =>
          placed.find_kept tree (addable.parent_counted tree) found }
  · cases failed

/-- `/dev`. -/
def rootPath : List U8 := slash :: devName

/-- `/dev/a`. -/
def devicePath : List U8 := slash :: devName ++ [slash, 0x61]

/-- A directory in an empty tree. -/
theorem device_found :
    ∃ after, (.mkdir : DevfsAddition Unit).run devicePath devfsInit =
      some (0, after) ∧ FoundAfter devfsInit after .mkdir devicePath :=
  ⟨_, rfl, (devfsAddition_found_iff .init rfl).mpr (by decide)⟩

/-- A second directory of the root's name is created, but its path is the root's. -/
theorem rootPath_not_found :
    ∃ after, (.mkdir : DevfsAddition Unit).run rootPath devfsInit =
        some (0, after) ∧
      after.nodeCount = 2 ∧ devfsNodeFind after rootPath = some 0 ∧
      ¬ FoundAfter devfsInit after .mkdir rootPath := by
  refine ⟨_, rfl, rfl, rfl, ?_⟩
  rintro ⟨⟨slot, found, isNext, _⟩, _⟩
  have isRoot : slot = 0 := (Option.some.inj found).symm
  rw [isRoot] at isNext
  cases isNext

/-! ## Removals -/

def Devfs.freeSlots (devfs : Devfs Hook) : Nat :=
  devfsMaxNodes - devfs.nodeCount

/-- No path leads to the node or to anything that was below it. -/
def NotFound (before after : Devfs Hook) (node : DevfsIndex) : Prop :=
  ∀ index, before.forest.Below node index →
    ∀ path, devfsNodeFind after path ≠ some index

/-- Nothing is left of a node and of all that was below it. -/
structure RemovalComplete
    (before after : Devfs Hook)
    (node : DevfsIndex) : Prop where
  notFound : NotFound before after node
  noId : ∀ index, before.forest.Below node index →
    ∀ id, devfsNodeFindId after id ≠ some index
  slots : after.freeSlots =
    before.freeSlots + {index | before.forest.Below node index}.ncard

/-- `devfs_node_remove` of this path removes a node completely or fails. -/
def RemovesCompletely (before : Devfs Hook) (path : List U8) : Prop :=
  ∀ after node, devfsNodeRemove path before = (0, after) →
    devfsNodeFind before (normalizePath path) = some node →
    RemovalComplete before after node

/-- Some rounds of adding and removing one node, all of which succeed. -/
def addRemoveCycles (addition : DevfsAddition Hook) (path : List U8) :
    Nat → Devfs Hook → Option (Devfs Hook)
  | 0, devfs => some devfs
  | rounds + 1, devfs =>
      match addition.run path devfs with
      | some (0, added) =>
          match devfsNodeRemove path added with
          | (0, removed) => addRemoveCycles addition path rounds removed
          | _ => none
      | _ => none

section Removal

variable {node : DevfsIndex}

theorem Unlinked.notFound (unlinked : Unlinked before after node) (tree : before.IsTree)
    (notRoot : node ≠ 0) : NotFound before after node := by
  intro index below path found
  rw [(unlinked.isTree tree).find_eq] at found
  -- the root is not below the node, since indices grow downwards
  have outside : ¬ before.forest.Below node 0 := by
    intro below
    have le := tree.below_le below
    exact notRoot (Fin.ext (Nat.le_zero.mp le))
  exact (unlinked.pruned tree).not_below tree.singleParents outside
    (Forest.below_of_resolve found) below

theorem Unlinked.freeSlots_eq (unlinked : Unlinked before after node) :
    after.freeSlots = before.freeSlots := by
  rw [Devfs.freeSlots, unlinked.count, Devfs.freeSlots]

theorem Unlinked.not_complete (unlinked : Unlinked before after node) :
    ¬ RemovalComplete before after node := by
  intro complete
  have slots := complete.slots
  rw [unlinked.freeSlots_eq] at slots
  have some : 0 < {index | before.forest.Below node index}.ncard :=
    (Set.ncard_pos (Set.toFinite _)).mpr ⟨node, Relation.ReflTransGen.refl⟩
  omega

theorem addRemoveCycles_count {addition : DevfsAddition Hook} {rounds : Nat} (tree : before.IsTree)
    (ran : addRemoveCycles addition path rounds before = some after) :
    after.nodeCount = before.nodeCount + rounds := by
  induction rounds generalizing before with
  | zero =>
    cases ran
    rfl
  | succ rounds ih =>
    rw [addRemoveCycles] at ran
    split at ran
    · rename_i added isAdded
      split at ran
      · rename_i removed isRemoved
        rcases DevfsAddition.run_cases tree isAdded with
          ⟨_, _, _, _, _, _, addable, placed, _⟩ | ⟨failed, _⟩
        · have addedTree := placed.isTree tree (addable.parent_counted tree)
          rcases devfsNodeRemove_cases addedTree isRemoved with
            ⟨_, _, _, _, unlinked⟩ | ⟨failed, _⟩
          · have counted := ih (unlinked.isTree addedTree) ran
            have afterAdd := placed.count
            have afterRemove := unlinked.count
            omega
          · cases failed
        · cases failed
      · cases ran
    · cases ran

/--
`devfs_node_remove` hides a node and everything below it from every path.  It
never removes it completely, unless the path names no node or the root, where it
fails; and no device can be added and removed more often than there are free
slots.
-/
theorem devfsNodeRemove_complete_iff (reachable : before.Reachable) (path : List U8) :
    (RemovesCompletely before path ↔
        ∀ node, devfsNodeFind before (normalizePath path) = some node → node = 0) ∧
      (∀ after node, devfsNodeRemove path before = (0, after) →
        devfsNodeFind before (normalizePath path) = some node →
        NotFound before after node) ∧
      ∀ addition rounds, (addRemoveCycles addition path rounds before).isSome →
        rounds ≤ before.freeSlots := by
  have tree := reachable.isTree
  have removal {after : Devfs Hook} (removed : devfsNodeRemove path before = (0, after)) :
      ∃ node, devfsNodeFind before (normalizePath path) = some node ∧ node ≠ 0 ∧
        Unlinked before after node := by
    rcases devfsNodeRemove_cases tree removed with
      ⟨node, _, notRoot, found, unlinked⟩ | ⟨failed, _⟩
    · exact ⟨node, found, notRoot, unlinked⟩
    · cases failed
  refine ⟨⟨?_, ?_⟩, ?_, ?_⟩
  · intro complete node found
    by_contra notRoot
    have succeeds : (devfsNodeRemove path before).1 = 0 := by
      simp only [devfsNodeRemove, found, if_neg notRoot]
    have removed : devfsNodeRemove path before =
        (0, (devfsNodeRemove path before).2) := Prod.ext succeeds rfl
    obtain ⟨other, isOther, _, unlinked⟩ := removal removed
    cases found.symm.trans isOther
    exact unlinked.not_complete (complete _ node removed found)
  · intro nothing after node removed found
    obtain ⟨other, isOther, notRoot, _⟩ := removal removed
    exact absurd (nothing other isOther) notRoot
  · intro after node removed isNode
    obtain ⟨found, isFound, notRoot, unlinked⟩ := removal removed
    cases isNode.symm.trans isFound
    exact unlinked.notFound tree notRoot
  · intro addition rounds ran
    obtain ⟨after, ran⟩ := isSome_iff_exists.mp ran
    have counted := addRemoveCycles_count tree ran
    have bounded := after.countLe
    rw [Devfs.freeSlots]
    omega

end Removal

/-- A device in an empty tree. -/
theorem device_removal_incomplete :
    ∃ added : Devfs Unit,
      (DevfsAddition.device .char none 0).run devicePath devfsInit = some (0, added) ∧
      ¬ RemovesCompletely added devicePath := by
  have added : (DevfsAddition.device .char none 0).run devicePath
      (devfsInit : Devfs Unit) = some (0, _) := rfl
  refine ⟨_, added, ?_⟩
  rw [(devfsNodeRemove_complete_iff (.add .init added) devicePath).1]
  intro nothing
  exact absurd (nothing 1 rfl) (by decide)

/-- A removed device is still found by its id, and its slot is lost. -/
theorem removedDevice_left :
    ∃ added removed : Devfs Unit,
      devfsAddDevice devicePath .char none 0 devfsInit = some (0, added) ∧
      devfsNodeRemove devicePath added = (0, removed) ∧
      devfsNodeFind removed devicePath = none ∧
      devfsNodeFindId removed 2 = some 1 ∧
      (devfsInit : Devfs Unit).freeSlots = 127 ∧ removed.freeSlots = 126 ∧
      ¬ RemovesCompletely added devicePath := by
  refine ⟨_, _, rfl, rfl, rfl, rfl, rfl, rfl, ?_⟩
  intro complete
  exact (complete _ 1 rfl rfl).noId 1 Relation.ReflTransGen.refl 2 rfl

end XKern
