import XKern.DevfsPath
import XKern.NameForest

namespace XKern

open NameForest List Function

/-!
# The device tree

Model of `bsd/devfs/devfs.c`: a table of nodes, each with the indices of its
children.  A driver's hooks are opaque; what a call on a handle comes to is
either a return value or the hook that is called and the node it gets.  Log
messages are left out.
-/

/-- `DEVFS_MAX_NODES`. -/
def devfsMaxNodes : Nat := 128

instance : NeZero devfsMaxNodes := ⟨by decide⟩

/-- `DEVFS_MAX_CHILDREN`. -/
def devfsMaxChildren : Nat := 32

/-- An index into `g_nodes`. -/
abbrev DevfsIndex := Fin devfsMaxNodes

/-- `enum devfs_node_type`. -/
inductive DevfsNodeType
  | dir
  | block
  | char
  | symlink
  deriving Repr, DecidableEq

/-- `enum devfs_dev_class`. -/
inductive DevfsDevClass
  | unknown
  | cpu
  | storage
  | usb
  | hidKbd
  | hidMouse
  | graphics
  | audio
  | network
  | serial
  | pci
  | framebuffer
  deriving Repr, DecidableEq

/-- `struct devfs_ops`, as far as devfs calls it. -/
structure DevfsOps (Hook : Type) where
  name : List U8
  devclass : DevfsDevClass
  openHook : Option Hook
  closeHook : Option Hook
  readHook : Option Hook
  writeHook : Option Hook
  deriving DecidableEq

/-- A name in a node, cut by `strncpy`. -/
structure DevfsName where
  chars : List U8
  fits : chars.length < devfsNameMax - 1
  deriving DecidableEq

/--
`klibc.strncpy` with `BSD_DEVFS_NAME_MAX - 1`; `none` is the runaway copy of a
name that does not fit, as in `copyName`.
-/
def copyDevfsName (name : List U8) : Option DevfsName :=
  if fits : name.length < devfsNameMax - 1 then
    some ⟨name, fits⟩
  else
    none

/-- `struct devfs_node` in `g_nodes`; `child_count` is the length. -/
structure DevfsNode (Hook : Type) where
  name : DevfsName
  type : DevfsNodeType
  devclass : DevfsDevClass
  mode : U32
  size : U32
  rdev : U32
  ops : Option (DevfsOps Hook)
  priv : U64
  parent : DevfsIndex
  children : List DevfsIndex
  id : U32
  childrenLe : children.length ≤ devfsMaxChildren
  deriving DecidableEq

/-- `g_nodes`, `g_node_count` and `g_next_id`. -/
structure Devfs (Hook : Type) where
  nodes : DevfsIndex → DevfsNode Hook
  nodeCount : Nat
  nextId : U32
  countLe : nodeCount ≤ devfsMaxNodes

/-- The `struct devfs_node` that a caller hands to `devfs_node_add`. -/
structure NewDevfsNode (Hook : Type) where
  name : List U8
  type : DevfsNodeType
  devclass : DevfsDevClass
  mode : U32
  size : U32
  rdev : U32
  ops : Option (DevfsOps Hook)
  priv : U64

/-- `"dev"`. -/
def devName : List U8 := [0x64, 0x65, 0x76]

theorem devName_fits : devName.length < devfsNameMax - 1 := by
  decide

theorem emptyDevfsName_fits : ([] : List U8).length < devfsNameMax - 1 := by
  decide

section Table

variable {Hook : Type}

def DevfsNode.zero : DevfsNode Hook where
  name := ⟨[], emptyDevfsName_fits⟩
  type := .dir
  devclass := .unknown
  mode := 0
  size := 0
  rdev := 0
  ops := none
  priv := 0
  parent := 0
  children := []
  id := 0
  childrenLe := Nat.zero_le _

/-- The static table before `devfs_init`. -/
def Devfs.unset : Devfs Hook where
  nodes := fun _ => .zero
  nodeCount := 0
  nextId := 1
  countLe := Nat.zero_le _

/-- `devfs_init`, on any table. -/
def devfsInit : Devfs Hook where
  nodes := update (fun _ => DevfsNode.zero) 0
    { DevfsNode.zero with name := ⟨devName, devName_fits⟩, mode := 0o755, id := 1 }
  nodeCount := 1
  nextId := 2
  countLe := NeZero.one_le

namespace Devfs

/-- The nodes as a forest of names. -/
def forest (devfs : Devfs Hook) : Forest DevfsIndex (List U8) where
  name index := (devfs.nodes index).name.chars
  children index := (devfs.nodes index).children

@[simp]
theorem forest_children (devfs : Devfs Hook) (index : DevfsIndex) :
    devfs.forest.children index = (devfs.nodes index).children :=
  rfl

def setNode (devfs : Devfs Hook) (index : DevfsIndex) (node : DevfsNode Hook) :
    Devfs Hook :=
  { devfs with nodes := update devfs.nodes index node }

@[simp]
theorem setNode_self (devfs : Devfs Hook) (index : DevfsIndex) (node : DevfsNode Hook) :
    (devfs.setNode index node).nodes index = node :=
  update_self ..

theorem setNode_of_ne (devfs : Devfs Hook) {index other : DevfsIndex} (different : other ≠ index)
    (node : DevfsNode Hook) :
    (devfs.setNode index node).nodes other = devfs.nodes other :=
  update_of_ne different ..

end Devfs

/-- `find_child`. -/
def findChild (devfs : Devfs Hook) (parent : DevfsIndex) (name : List U8) :
    Option DevfsIndex :=
  devfs.forest.child parent name

/-- The loop of `devfs_node_add` that finds the parent. -/
def findParent (devfs : Devfs Hook) :
    DevfsIndex → List (List U8) → Option DevfsIndex
  | index, [] => some index
  | index, component :: rest => do
      let child ← findChild devfs index component
      if (devfs.nodes child).type = .dir then
        findParent devfs child rest
      else
        none

/-- A new last child, if there is room. -/
def DevfsNode.addChild (node : DevfsNode Hook) (index : DevfsIndex) :
    Option (DevfsNode Hook) :=
  if room : node.children.length < devfsMaxChildren then
    some { node with
      children := node.children ++ [index]
      childrenLe := by
        rw [length_append, length_singleton]
        exact room }
  else
    none

def NewDevfsNode.node (new : NewDevfsNode Hook) (name : DevfsName) (parent : DevfsIndex)
    (id : U32) : DevfsNode Hook where
  name := name
  type := new.type
  devclass := new.devclass
  mode := new.mode
  size := new.size
  rdev := new.rdev
  ops := new.ops
  priv := new.priv
  parent := parent
  children := []
  id := id
  childrenLe := Nat.zero_le _

/--
The end of `devfs_node_add`: take a slot, fill it and link it.  When the
parent has no room the slot is given back, but not the id.
-/
def devfsPlace (new : NewDevfsNode Hook) (name : DevfsName) (parent : DevfsIndex)
    (devfs : Devfs Hook)
    (room : devfs.nodeCount < devfsMaxNodes) : Int × Devfs Hook :=
  let slot : DevfsIndex := ⟨devfs.nodeCount, room⟩
  let filled :=
    { devfs.setNode slot (new.node name parent devfs.nextId) with
      nextId := devfs.nextId + 1 }
  match (filled.nodes parent).addChild slot with
  | some linked =>
      (0, { filled.setNode parent linked with
        nodeCount := devfs.nodeCount + 1
        countLe := room })
  | none => (-1, filled)

/-- `devfs_node_add`.  The outer `none` is a runaway copy of a long name. -/
def devfsNodeAdd (new : NewDevfsNode Hook) (devfs : Devfs Hook) :
    Option (Int × Devfs Hook) :=
  if room : devfs.nodeCount < devfsMaxNodes then do
    let norm := normalizePath new.name
    let _ ← copyDevfsName norm
    let path := afterRoot (devfs.nodes 0).name.chars (components (parentPath norm))
    match findParent devfs 0 path with
    | none => return (-1, devfs)
    | some parent =>
        if (findChild devfs parent (pathLeaf norm)).isSome then
          return (-1, devfs)
        else
          let name ← copyDevfsName (pathLeaf norm)
          return devfsPlace new name parent devfs room
  else
    some (-1, devfs)

/-- `devfs_node_find`. -/
def devfsNodeFind (devfs : Devfs Hook) (path : List U8) : Option DevfsIndex :=
  let norm := normalizePath path
  if norm = [slash] ∨ norm = slash :: devName then
    some 0
  else
    devfs.forest.resolve 0
      (afterRoot (devfs.nodes 0).name.chars (components norm))

/-- Drop a link to a child. -/
def DevfsNode.dropChild (node : DevfsNode Hook) (index : DevfsIndex) :
    DevfsNode Hook :=
  { node with
    children := node.children.erase index
    childrenLe := length_erase_le.trans node.childrenLe }

/-- `devfs_node_remove`; the path is normalised here and by the search. -/
def devfsNodeRemove (path : List U8) (devfs : Devfs Hook) : Int × Devfs Hook :=
  match devfsNodeFind devfs (normalizePath path) with
  | none => (-1, devfs)
  | some index =>
      if index = 0 then
        (-1, devfs)
      else
        let parent := (devfs.nodes index).parent
        (0, devfs.setNode parent ((devfs.nodes parent).dropChild index))

/-- `devfs_node_find_id`: the first node of that id below `g_node_count`. -/
def devfsNodeFindId (devfs : Devfs Hook) (id : U32) : Option DevfsIndex :=
  (finRange devfsMaxNodes).find? fun index =>
    index.val < devfs.nodeCount ∧ (devfs.nodes index).id = id

/-- `devfs_mkdir`. -/
def devfsMkdir (path : List U8) (devfs : Devfs Hook) : Option (Int × Devfs Hook) := do
  let name ← copyDevfsName path
  devfsNodeAdd
    { name := name.chars, type := .dir, devclass := .unknown, mode := 0o755,
      size := 0, rdev := 0, ops := none, priv := 0 } devfs

/-- `devfs_add_device`. -/
def devfsAddDevice (path : List U8) (type : DevfsNodeType) (ops : Option (DevfsOps Hook))
    (priv : U64)
    (devfs : Devfs Hook) : Option (Int × Devfs Hook) := do
  let name ← copyDevfsName path
  devfsNodeAdd
    { name := name.chars, type, devclass := (ops.map DevfsOps.devclass).getD .unknown,
      mode := 0o660, size := 0, rdev := 0, ops, priv } devfs

/-! ## Handles -/

/-- How a call of the file interface ends. -/
inductive DevfsOutcome (Hook : Type)
  | returned (value : Int)
  /-- The call ends in a driver's hook for this node. -/
  | hook (called : Hook) (node : DevfsIndex)
  deriving DecidableEq

/-- The body of `default_open` and its siblings on a node that is not null. -/
def defaultCall (hook : DevfsOps Hook → Option Hook) (missing : Int) (devfs : Devfs Hook)
    (node : DevfsIndex) : DevfsOutcome Hook :=
  match (devfs.nodes node).ops.bind hook with
  | some called => .hook called node
  | none => .returned missing

/-- `default_open`. -/
def defaultOpen : Devfs Hook → DevfsIndex → DevfsOutcome Hook :=
  defaultCall DevfsOps.openHook 0

/-- `default_close`. -/
def defaultClose : Devfs Hook → DevfsIndex → DevfsOutcome Hook :=
  defaultCall DevfsOps.closeHook 0

/-- `default_read`. -/
def defaultRead : Devfs Hook → DevfsIndex → DevfsOutcome Hook :=
  defaultCall DevfsOps.readHook (-1)

/-- `default_write`. -/
def defaultWrite : Devfs Hook → DevfsIndex → DevfsOutcome Hook :=
  defaultCall DevfsOps.writeHook (-1)

/-- `devfs_vfs_open`. -/
def devfsVfsOpen (devfs : Devfs Hook) (path : List U8) : DevfsOutcome Hook :=
  match devfsNodeFind devfs path with
  | none => .returned (-1)
  | some node =>
      if (devfs.nodes node).type = .dir then
        .returned (-2)
      else
        defaultOpen devfs node

/-- The body of `devfs_vfs_close` and its siblings: the handle is an id. -/
def devfsVfsCall (call : Devfs Hook → DevfsIndex → DevfsOutcome Hook) (devfs : Devfs Hook)
    (fd : Int) : DevfsOutcome Hook :=
  match devfsNodeFindId devfs (BitVec.ofInt 32 fd) with
  | none => .returned (-1)
  | some node => call devfs node

/-- `devfs_vfs_close`. -/
def devfsVfsClose : Devfs Hook → Int → DevfsOutcome Hook :=
  devfsVfsCall defaultClose

/-- `devfs_vfs_read`; the buffer is handed on, with offset 0. -/
def devfsVfsRead : Devfs Hook → Int → DevfsOutcome Hook :=
  devfsVfsCall defaultRead

/-- `devfs_vfs_write`; the buffer is handed on, with offset 0. -/
def devfsVfsWrite : Devfs Hook → Int → DevfsOutcome Hook :=
  devfsVfsCall defaultWrite

end Table

end XKern
