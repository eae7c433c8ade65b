import XKern.DevfsLookup
import XKern.GuardedRun

namespace XKern

open List NameForest Option

/-!
# The device tree over all calls

The shape of the tree after `devfs_init` and any calls of `devfs_mkdir`, `devfs_add_device`
and `devfs_node_remove` whose paths fit the name of a node, and `devfs_dump` on it.
-/

variable {Hook : Type}

/-- The calls that change the tree. -/
inductive DevfsCall (Hook : Type)
  | add (addition : DevfsAddition Hook) (path : List U8)
  | remove (path : List U8)

namespace DevfsCall

def path : DevfsCall Hook → List U8
  | add _ path => path
  | remove path => path

def run (devfs : Devfs Hook) : DevfsCall Hook → Option (Int × Devfs Hook)
  | add addition path => addition.run path devfs
  | remove path => some (devfsNodeRemove path devfs)

end DevfsCall

/-- A call with a path of at most 30 characters. -/
def ShortCall (Hook : Type) : Type := { call : DevfsCall Hook // call.path.length ≤ 30 }

/-- The connector that `dump_node` appends while there is room in `char branch[48]`. -/
def extendIndent (indent text : List U8) : List U8 :=
  if indent.length < 48 - 4 then indent ++ text else indent

/-- `dump_node`: the lines it prints, each with the node; `none` if it recurses on. -/
def dumpNode (devfs : Devfs Hook) :
    Nat → DevfsIndex → List U8 → Bool → Option (List (List U8 × DevfsIndex))
  | 0, _, _, _ => none
  | fuel + 1, index, indent, isLast => do
      -- the last child hangs from "`-- ", any other from "|-- "
      let branch := extendIndent indent
        (if isLast then [0x60, 0x2D, 0x2D, 0x20] else [0x7C, 0x2D, 0x2D, 0x20])
      let childIndent := extendIndent indent
        (if isLast then [0x20, 0x20, 0x20, 0x20] else [0x7C, 0x20, 0x20, 0x20])
      let children := (devfs.nodes index).children
      let below ← children.zipIdx.mapM fun (child, i) =>
        dumpNode devfs fuel child childIndent (i + 1 = children.length)
      return (branch, index) :: below.flatten

/-- `devfs_dump`. -/
def devfsDump (devfs : Devfs Hook) (fuel : Nat) : Option (List (List U8 × DevfsIndex)) :=
  dumpNode devfs fuel 0 [] true

/-- The links form a tree of directories. -/
structure Devfs.InOrder (devfs : Devfs Hook) : Prop where
  children : ∀ parent, ∀ index ∈ (devfs.nodes parent).children,
    index.val < devfs.nodeCount ∧ parent.val < index.val
  once : ∀ first second index, index ∈ (devfs.nodes first).children →
    index ∈ (devfs.nodes second).children → first = second
  nodup : ∀ parent, (devfs.nodes parent).children.Nodup
  names : ∀ parent, ((devfs.nodes parent).children.map devfs.forest.name).Nodup
  directories : ∀ parent, (devfs.nodes parent).children ≠ [] → (devfs.nodes parent).type = .dir
  room : ∀ parent, (devfs.nodes parent).children.length ≤ devfsMaxChildren

/-- What short calls keep besides the tree. -/
structure Devfs.Kept (devfs : Devfs Hook) : Prop extends devfs.IsTree where
  names : ∀ parent, ((devfs.nodes parent).children.map devfs.forest.name).Nodup
  directories : ∀ parent, (devfs.nodes parent).children ≠ [] → (devfs.nodes parent).type = .dir
  rootDir : (devfs.nodes 0).type = .dir

theorem Devfs.Kept.inOrder {devfs : Devfs Hook} (kept : devfs.Kept) : devfs.InOrder where
  children parent index member :=
    ⟨kept.counted parent index member, kept.later parent index member⟩
  once := kept.singleParents
  nodup := kept.nodup
  names := kept.names
  directories := kept.directories
  room parent := (devfs.nodes parent).childrenLe

theorem DevfsNode.Same.type_eq {first second : DevfsNode Hook} (same : first.Same second) :
    second.type = first.type := by
  rw [same]

section Steps

variable {before after : Devfs Hook} {new : NewDevfsNode Hook} {name : DevfsName}
  {parent slot node : DevfsIndex} {path : List U8}

theorem devfsInit_kept : (devfsInit : Devfs Hook).Kept := by
  have noChildren (parent : DevfsIndex) :
      ((devfsInit : Devfs Hook).nodes parent).children = [] := by
    by_cases isRoot : parent = 0
    · rw [isRoot]
      rfl
    · simp [devfsInit, Function.update_of_ne isRoot, DevfsNode.zero]
  refine ⟨devfsInit_isTree, ?_, ?_, rfl⟩
  · simp [noChildren]
  · exact fun parent someChild => absurd (noChildren parent) someChild

theorem Placed.kept (placed : Placed before after new name parent slot)
    (addable : Addable before path name parent) (isDir : (before.nodes parent).type = .dir)
    (kept : before.Kept) : after.Kept := by
  have counted := addable.parent_counted kept.toIsTree
  have grown := placed.grown kept.toIsTree counted
  have rootNe : (0 : DevfsIndex) ≠ slot := placed.ne_slot kept.rootCounted
  have sameNames (top : DevfsIndex) : (before.nodes top).children.map after.forest.name =
      (before.nodes top).children.map before.forest.name :=
    map_congr_left fun index member => grown.names index (grown.ne_of_mem member)
  refine ⟨placed.isTree kept.toIsTree counted, fun top => ?_, fun top someChild => ?_, ?_⟩
  · by_cases isSlot : top = slot
    · rw [isSlot, placed.node]
      exact nodup_nil
    · by_cases isParent : top = parent
      · rw [isParent, placed.linked, map_append, sameNames]
        refine nodup_append.mpr ⟨kept.names parent, nodup_singleton _, ?_⟩
        rintro other isOther fresh isFresh rfl
        obtain ⟨index, member, rfl⟩ := List.mem_map.mp isOther
        rw [map_singleton, mem_singleton, placed.name_slot] at isFresh
        exact find?_eq_none.mp addable.free index member (decide_eq_true isFresh)
      · rw [placed.others top isSlot isParent, sameNames]
        exact kept.names top
  · by_cases isSlot : top = slot
    · rw [isSlot, placed.node] at someChild
      exact absurd rfl someChild
    · rw [(placed.same top isSlot).type_eq]
      by_cases isParent : top = parent
      · rwa [isParent]
      · rw [placed.others top isSlot isParent] at someChild
        exact kept.directories top someChild
  · rw [(placed.same 0 rootNe).type_eq]
    exact kept.rootDir

theorem Unplaced.nodes_eq (unplaced : Unplaced before after) {index : DevfsIndex}
    (counted : index.val < before.nodeCount) : after.nodes index = before.nodes index := by
  rcases unplaced.nodes index with same | ⟨unused, _⟩
  · exact same
  · omega

theorem Unplaced.kept (unplaced : Unplaced before after) (kept : before.Kept) : after.Kept := by
  refine ⟨unplaced.isTree kept.toIsTree, fun top => ?_, fun top someChild => ?_, ?_⟩
  · rcases unplaced.nodes top with same | ⟨_, none⟩
    · have sameNames : (before.nodes top).children.map after.forest.name =
          (before.nodes top).children.map before.forest.name := by
        refine map_congr_left fun index member => ?_
        change (after.nodes index).name.chars = _
        rw [unplaced.nodes_eq (kept.counted top index member)]
        rfl
      rw [same, sameNames]
      exact kept.names top
    · rw [none]
      exact nodup_nil
  · rcases unplaced.nodes top with same | ⟨_, none⟩
    · rw [same] at someChild ⊢
      exact kept.directories top someChild
    · exact absurd none someChild
  · rw [unplaced.nodes_eq kept.rootCounted]
    exact kept.rootDir

theorem Unlinked.kept (unlinked : Unlinked before after node) (kept : before.Kept) :
    after.Kept := by
  have sameName : after.forest.name = before.forest.name :=
    funext fun index => congrArg DevfsName.chars (unlinked.same index).name_eq
  refine ⟨unlinked.isTree kept.toIsTree, fun top => ?_, fun top someChild => ?_, ?_⟩
  · rw [sameName, unlinked.children top]
    exact (kept.names top).sublist (erase_sublist.map _)
  · rw [(unlinked.same top).type_eq]
    refine kept.directories top fun none => someChild ?_
    rw [unlinked.children top, none]
    rfl
  · rw [(unlinked.same 0).type_eq]
    exact kept.rootDir

end Steps

/-! ## Paths that fit -/

theorem length_normalizeRound_le (path out : List U8) :
    (normalizeRound path out).1.length + (normalizeRound path out).2.length ≤
      path.length + out.length := by
  have backs : (backUp out).length ≤ out.length :=
    (( rdropWhile_prefix _ _).length_le).trans (length_dropLast ▸ Nat.sub_le _ _)
  rw [normalizeRound]
  cases path with
  | nil => simp [dot, slash]
  | cons first rest =>
    split_ifs with isSlash
    · obtain rfl : first = slash := by simpa using isSlash
      have skips := (dropWhile_sublist (l := rest) (· = slash)).length_le
      simp [skipSlashes] at skips ⊢
      omega
    all_goals simp; omega

theorem length_normalizeLoop_le (fuel : Nat) (path out : List U8) :
    (normalizeLoop fuel path out).length ≤ path.length + out.length := by
  induction fuel generalizing path out with
  | zero => exact Nat.le_add_left _ _
  | succ fuel ih =>
    rw [normalizeLoop]
    split
    · exact (ih _ _).trans (length_normalizeRound_le path out)
    · exact Nat.le_add_left _ _

theorem length_normalizePath_le {path : List U8} (short : path.length ≤ 30) :
    (normalizePath path).length ≤ 30 := by
  have loop := length_normalizeLoop_le path.length (skipSlashes path) []
  have skips := (dropWhile_sublist (l := path) (· = slash)).length_le
  rw [normalizePath, trimSlash]
  rw [skipSlashes] at loop ⊢
  split_ifs
  · simp
  · simp at loop ⊢
    omega
  · simp at loop
    omega

theorem exists_copyDevfsName (name : List U8) (short : name.length ≤ 30) :
    ∃ copied, copyDevfsName name = some copied := by
  rw [copyDevfsName, dif_pos (by rw [devfsNameMax]; omega)]
  exact ⟨_, rfl⟩

theorem exists_devfsNodeAdd (new : NewDevfsNode Hook) (short : new.name.length ≤ 30)
    (devfs : Devfs Hook) : ∃ outcome, devfsNodeAdd new devfs = some outcome := by
  have normal := length_normalizePath_le short
  obtain ⟨whole, copies⟩ := exists_copyDevfsName _ normal
  obtain ⟨leaf, copiesLeaf⟩ := exists_copyDevfsName (pathLeaf (normalizePath new.name))
    ((rtakeWhile_suffix _ _).length_le.trans normal)
  rw [devfsNodeAdd]
  split
  · dsimp only
    rw [copies, bind_eq_bind, bind_some]
    split
    · exact ⟨_, rfl⟩
    · split
      · exact ⟨_, rfl⟩
      · rw [copiesLeaf]
        exact ⟨_, rfl⟩
  · exact ⟨_, rfl⟩

theorem DevfsCall.exists_run (devfs : Devfs Hook) (call : ShortCall Hook) (kept : devfs.Kept) :
    ∃ next, (call.val.run devfs).map Prod.snd = some next ∧ next.Kept := by
  obtain ⟨⟨addition, path⟩ | path, short⟩ := call
  · obtain ⟨copied, copies⟩ := exists_copyDevfsName path short
    have isPath := copyDevfsName_chars copies
    obtain ⟨⟨result, next⟩, ran⟩ : ∃ outcome, addition.run path devfs = some outcome := by
      cases addition with
      | mkdir =>
        rw [DevfsAddition.run, devfsMkdir, copies]
        exact exists_devfsNodeAdd _ (isPath ▸ short) devfs
      | device type ops priv =>
        rw [DevfsAddition.run, devfsAddDevice, copies]
        exact exists_devfsNodeAdd _ (isPath ▸ short) devfs
    refine ⟨next, by rw [run, ran]; rfl, ?_⟩
    rcases DevfsAddition.run_cases kept.toIsTree ran with
      ⟨_, _, _, _, _, _, addable, placed, isDir⟩ | ⟨_, unplaced⟩
    · exact placed.kept addable (isDir kept.rootDir) kept
    · exact unplaced.kept kept
  · refine ⟨_, rfl, ?_⟩
    rcases devfsNodeRemove_cases kept.toIsTree
      (Prod.mk.eta (p := devfsNodeRemove path devfs)).symm with
      ⟨node, _, _, _, unlinked⟩ | ⟨_, same⟩
    · exact unlinked.kept kept
    · rw [same]
      exact kept

/-! ## Printing the tree -/

theorem isSome_mapM {Item Value : Type} {f : Item → Option Value} {items : List Item}
    (each : ∀ item ∈ items, (f item).isSome) : (items.mapM f).isSome := by
  induction items with
  | nil => rfl
  | cons item items ih =>
    rw [forall_mem_cons] at each
    rw [mapM_cons, bind_eq_bind, isSome_bind, ← some_get each.1,
      any_some, bind_eq_bind, isSome_bind, ← some_get (ih each.2)]
    rfl

/-- A child has a greater index than its parent, so the recursion runs out of indices. -/
theorem isSome_dumpNode {devfs : Devfs Hook} (tree : devfs.IsTree) {fuel : Nat}
    {index : DevfsIndex} (enough : devfsMaxNodes ≤ index.val + fuel) (indent : List U8)
    (isLast : Bool) : (dumpNode devfs fuel index indent isLast).isSome := by
  induction fuel generalizing index indent isLast with
  | zero =>
    omega
  | succ fuel ih =>
    rw [dumpNode, bind_eq_bind, isSome_bind]
    apply (Option.any_eq_true _ _).mpr
    refine ⟨_, Option.get_mem (isSome_mapM fun entry member => ?_), rfl⟩
    have later := tree.later index entry.1 (fst_mem_of_mem_zipIdx member)
    exact ih (by omega) _ _

/--
After `devfs_init` any calls with short paths return and leave a tree in order, which
`devfs_dump` prints; an addition that fails leaves every node and their number as they are.
-/
theorem devfs_calls_inOrder (calls : List (ShortCall Hook)) :
    ∃ devfs : Devfs Hook,
      calls.foldlM (fun devfs call => (call.val.run devfs).map Prod.snd) devfsInit =
        some devfs ∧
      devfs.InOrder ∧ (∃ fuel lines, devfsDump devfs fuel = some lines) ∧
      ∀ addition path after, DevfsAddition.run path devfs addition = some (-1, after) →
        after.nodeCount = devfs.nodeCount ∧
          ∀ index, index.val < devfs.nodeCount → after.nodes index = devfs.nodes index := by
  obtain ⟨devfs, reached, kept⟩ :=
    GuardedRun.exists_foldlM DevfsCall.exists_run calls devfsInit_kept
  have enough : devfsMaxNodes ≤ (0 : DevfsIndex).val + devfsMaxNodes := Nat.le_add_left _ _
  obtain ⟨lines, printed⟩ :=
    isSome_iff_exists.mp (isSome_dumpNode kept.toIsTree enough [] true)
  refine ⟨devfs, reached, kept.inOrder, ⟨_, lines, printed⟩, ?_⟩
  intro addition path after failed
  rcases DevfsAddition.run_cases kept.toIsTree failed with
    ⟨_, _, _, _, done, _⟩ | ⟨_, unplaced⟩
  · cases done
  · exact ⟨unplaced.count, fun index counted => unplaced.nodes_eq counted⟩

end XKern
