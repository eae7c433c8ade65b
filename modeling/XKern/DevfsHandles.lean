import XKern.DevfsLookup

namespace XKern

/-!
# Handles of the device tree

`devfs_vfs_open` returns the status of the open hook, and the other calls take
that number for the id of a node.
-/

variable {Hook : Type}

/-- The value that is returned in the end, given what the hooks return. -/
def DevfsOutcome.value (drivers : Hook → DevfsIndex → Int) : DevfsOutcome Hook → Int
  | returned value => value
  | hook called node => drivers called node

/-- The hook of a node, if it has operations with that hook. -/
def DevfsNode.hook (node : DevfsNode Hook)
    (select : DevfsOps Hook → Option Hook) : Option Hook :=
  node.ops.bind select

/-- Each call on the handle runs the node's own hook, or fails if it has none. -/
structure HandleAgrees (devfs : Devfs Hook) (node : DevfsIndex) (fd : Int) : Prop where
  read : devfsVfsRead devfs fd = defaultCall DevfsOps.readHook (-1) devfs node
  write : devfsVfsWrite devfs fd = defaultCall DevfsOps.writeHook (-1) devfs node
  close : devfsVfsClose devfs fd = defaultCall DevfsOps.closeHook (-1) devfs node

section Calls

variable {devfs : Devfs Hook} {node : DevfsIndex}

theorem returned_eq_defaultCall_iff (select : DevfsOps Hook → Option Hook) (value missing : Int) :
    .returned value = defaultCall select missing devfs node ↔
      (devfs.nodes node).hook select = none ∧ value = missing := by
  rw [defaultCall, DevfsNode.hook]
  cases (devfs.nodes node).ops.bind select <;> simp

theorem defaultCall_eq_iff (select : DevfsOps Hook → Option Hook) (value missing : Int)
    (other : DevfsIndex) :
    defaultCall select value devfs other = defaultCall select missing devfs node ↔
      (devfs.nodes node).hook select = none ∧
          (devfs.nodes other).hook select = none ∧ value = missing ∨
        other = node ∧ ((devfs.nodes node).hook select).isSome := by
  simp only [defaultCall, DevfsNode.hook]
  by_cases same : other = node
  · rw [same]
    cases (devfs.nodes node).ops.bind select <;> simp
  · cases (devfs.nodes node).ops.bind select <;>
      cases (devfs.nodes other).ops.bind select <;> simp [same]

theorem devfsVfsOpen_eq_defaultOpen {path : List U8} (found : devfsNodeFind devfs path = some node)
    (notDir : (devfs.nodes node).type ≠ .dir) :
    devfsVfsOpen devfs path = defaultOpen devfs node := by
  simp only [devfsVfsOpen, found, if_neg notDir]

theorem defaultOpen_value_eq_zero {drivers : Hook → DevfsIndex → Int} (zeroOnSuccess : ∀ called,
      (devfs.nodes node).hook DevfsOps.openHook = some called →
      0 ≤ drivers called node → drivers called node = 0)
    (opened : 0 ≤ (defaultOpen devfs node).value drivers) :
    (defaultOpen devfs node).value drivers = 0 := by
  rw [defaultOpen, defaultCall] at opened ⊢
  cases hook : (devfs.nodes node).ops.bind DevfsOps.openHook with
  | none => rfl
  | some called =>
    rw [hook] at opened
    exact zeroOnSuccess called hook opened

theorem handleAgrees_zero_iff : HandleAgrees devfs node 0 ↔ devfsNodeFindId devfs 0 = none ∧
          (devfs.nodes node).hook DevfsOps.readHook = none ∧
          (devfs.nodes node).hook DevfsOps.writeHook = none ∧
          (devfs.nodes node).hook DevfsOps.closeHook = none ∨
        devfsNodeFindId devfs 0 = some node ∧
          ((devfs.nodes node).hook DevfsOps.closeHook).isSome := by
  have fields : HandleAgrees devfs node 0 ↔
      devfsVfsRead devfs 0 = defaultCall DevfsOps.readHook (-1) devfs node ∧
      devfsVfsWrite devfs 0 = defaultCall DevfsOps.writeHook (-1) devfs node ∧
      devfsVfsClose devfs 0 = defaultCall DevfsOps.closeHook (-1) devfs node :=
    ⟨fun agrees => ⟨agrees.read, agrees.write, agrees.close⟩,
      fun ⟨read, write, close⟩ => ⟨read, write, close⟩⟩
  rw [fields, devfsVfsRead, devfsVfsWrite, devfsVfsClose]
  simp only [devfsVfsCall, show BitVec.ofInt 32 0 = (0 : U32) from rfl]
  cases devfsNodeFindId devfs 0 with
  | none => simp [returned_eq_defaultCall_iff]
  | some other =>
    simp only [defaultRead, defaultWrite, defaultClose, defaultCall_eq_iff]
    -- a missing close hook gives 0, not -1
    constructor
    · rintro ⟨_, _, ⟨_, _, impossible⟩ | ⟨rfl, present⟩⟩
      · cases impossible
      · exact Or.inr ⟨rfl, present⟩
    · rintro (⟨impossible, _⟩ | ⟨same, present⟩)
      · cases impossible
      · cases same
        refine ⟨?_, ?_, Or.inr ⟨rfl, present⟩⟩
        · cases (devfs.nodes node).hook DevfsOps.readHook <;> simp
        · cases (devfs.nodes node).hook DevfsOps.writeHook <;> simp

/--
A handle from `devfs_vfs_open` acts on the opened node exactly when either no
node has the id 0 and the opened one lacks all three hooks, or the opened node
is itself the one with id 0 and has a close hook.
-/
theorem devfsVfsOpen_agrees_iff {path : List U8} {drivers : Hook → DevfsIndex → Int}
    (found : devfsNodeFind devfs path = some node) (notDir : (devfs.nodes node).type ≠ .dir)
    (zeroOnSuccess : ∀ called,
      (devfs.nodes node).hook DevfsOps.openHook = some called →
      0 ≤ drivers called node → drivers called node = 0)
    (opened : 0 ≤ (devfsVfsOpen devfs path).value drivers) :
    HandleAgrees devfs node ((devfsVfsOpen devfs path).value drivers) ↔
      devfsNodeFindId devfs 0 = none ∧
          (devfs.nodes node).hook DevfsOps.readHook = none ∧
          (devfs.nodes node).hook DevfsOps.writeHook = none ∧
          (devfs.nodes node).hook DevfsOps.closeHook = none ∨
        devfsNodeFindId devfs 0 = some node ∧
          ((devfs.nodes node).hook DevfsOps.closeHook).isSome := by
  rw [devfsVfsOpen_eq_defaultOpen found notDir] at opened ⊢
  rw [defaultOpen_value_eq_zero zeroOnSuccess opened]
  exact handleAgrees_zero_iff

end Calls

def readableOps : DevfsOps Unit where
  name := []
  devclass := .unknown
  openHook := none
  closeHook := none
  readHook := some ()
  writeHook := none

def deviceTree (ops : Option (DevfsOps Unit)) : Devfs Unit :=
  ((devfsAddDevice devicePath .char ops 0 devfsInit).map Prod.snd).getD devfsInit

/-- A device without operations. -/
theorem bareDevice_agrees :
    devfsNodeFind (deviceTree none) devicePath = some 1 ∧
      HandleAgrees (deviceTree none) 1
        ((devfsVfsOpen (deviceTree none) devicePath).value fun _ _ => 0) :=
  ⟨by decide, (devfsVfsOpen_agrees_iff (by decide) (by decide)
    (fun _ _ _ => rfl) (by decide)).mpr (by decide)⟩

/-- The handle of a device that can be read does not read it. -/
theorem readableDevice_not_read :
    devfsNodeFind (deviceTree (some readableOps)) devicePath = some 1 ∧
      devfsVfsOpen (deviceTree (some readableOps)) devicePath = .returned 0 ∧
      devfsVfsRead (deviceTree (some readableOps)) 0 = .returned (-1) ∧
      defaultRead (deviceTree (some readableOps)) 1 = .hook () 1 ∧
      ¬ HandleAgrees (deviceTree (some readableOps)) 1 0 := by
  refine ⟨by decide, by decide, by decide, by decide, ?_⟩
  intro agrees
  have impossible := agrees.read
  revert impossible
  decide

end XKern
