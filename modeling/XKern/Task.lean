import XKern.PagingClone
import XKern.StackCpu

namespace XKern

open StackCpu

/-!
# Tasks

Model of the task table of `bsd/kern/init_ram_getty/proc.c` and of the calls
that create a task.  The task stacks are static memory of the kernel image,
which the frame allocator never hands out, so their words are kept apart from
the frames of `Machine`.
-/

/-- `PROC_MAX_TASKS`. -/
def procMaxTasks : Nat := 32

instance : NeZero procMaxTasks := ⟨by decide⟩

/-- `TASK_STACK_SIZE`. -/
def taskStackSize : U64 := 8192

/-- `TASK_NAME_MAX`. -/
def taskNameMax : Nat := 32

/-- The addresses that the linker fixes; the image is linked at 1 MiB. -/
structure KernelSymbols where
  irq0Resume : U64
  taskStacks : U64
  linkedAt : 0x100000 ≤ irq0Resume.toNat

theorem sampleResume_linkedAt : 0x100000 ≤ (0x100202 : U64).toNat := by
  decide

/-- `struct xkern_fd`. -/
structure XkernFd where
  type : U32
  data : U64
  size : U32
  pos : U32
  deriving Repr, DecidableEq

/-- `TASK_RUNNING` and its siblings. -/
inductive TaskState
  | running
  | zombie
  | new
  | waiting
  deriving Repr, DecidableEq

/-- The name of a task, cut at its limit. -/
structure TaskName where
  chars : List U8
  fits : chars.length < taskNameMax - 1

theorem emptyName_fits : ([] : List U8).length < taskNameMax - 1 := by
  decide

/--
`klibc.strncpy(t->name, name, TASK_NAME_MAX - 1)`.  On a longer name the count
wraps below zero and the padding loop clears the next 4 GiB, the kernel
included; that is `none`.
-/
def copyName (name : List U8) : Option TaskName :=
  if fits : name.length < taskNameMax - 1 then
    some ⟨name, fits⟩
  else
    none

/-- `struct task`. -/
structure Task where
  sp : U64
  cr3 : U64
  pid : U32
  name : TaskName
  stack : U64
  state : TaskState
  ticks : U32
  arg : U64
  vforkParent : U32
  fd : Fin 16 → XkernFd
  procbuf : Fin 1024 → U8

/-- The task table, the stacks and the memory that the task calls change. -/
structure Kernel where
  machine : Machine
  stackWords : Word → Word
  tasks : Fin procMaxTasks → Task
  taskCount : Nat
  curTask : Option (Fin procMaxTasks)
  syscallFrame : U64
  countLe : taskCount ≤ procMaxTasks

/-- `g_task_stacks[slot]`. -/
def KernelSymbols.stackOf (symbols : KernelSymbols) (slot : Nat) : U64 :=
  symbols.taskStacks + .ofNat 64 slot * taskStackSize

def Kernel.setTask (kernel : Kernel) (slot : Fin procMaxTasks)
    (task : Task) : Kernel :=
  { kernel with tasks := Function.update kernel.tasks slot task }

/-- `fs_task_init`: no open files besides the console on the first three. -/
def fsTaskInit (task : Task) : Task :=
  { task with
    fd := fun i =>
      { type := if i.val < 3 then 2 else 0, data := 0, size := 0, pos := 0 } }

/-- The new record in the first free slot, under a space of its own. -/
def Kernel.addTask (kernel : Kernel) (room : kernel.taskCount < procMaxTasks)
    (task : Task) : Kernel :=
  { kernel.setTask ⟨kernel.taskCount, room⟩ task with
    taskCount := kernel.taskCount + 1
    countLe := room }

/--
`task_alloc`: the slot of the new task, if there is one.  The outer `none` is
the runaway copy of a long name.
-/
def taskAlloc (symbols : KernelSymbols) (name : List U8) (arg : U64)
    (kernel : Kernel) : Option (Option (Fin procMaxTasks) × Kernel) :=
  if room : kernel.taskCount < procMaxTasks then
    match pagingClonePd kernel.machine with
    | (cr3, machine) =>
        if cr3 = 0 then
          some (none, { kernel with machine })
        else do
          let name ← copyName name
          let slot : Fin procMaxTasks := ⟨kernel.taskCount, room⟩
          let task := fsTaskInit
            { kernel.tasks slot with
              pid := BitVec.ofNat 32 kernel.taskCount
              name
              stack := symbols.stackOf kernel.taskCount
              cr3
              sp := 0
              state := .new
              ticks := 0
              arg }
          return (some slot, { kernel with machine }.addTask room task)
  else
    some (none, kernel)

/-! ## Stack frames -/

/-- The words of `task_set_entry`, in the order in which they are pushed. -/
def entryFrame (symbols : KernelSymbols)
    (stackTop entry argc argv : U64) : List Word :=
  -- the frame for iretq: ss, rsp, rflags, cs, rip
  [0x10, stackTop, 0x202, 0x08, entry] ++
    -- rax, rcx, rdx, rbx, rbp, rsi, rdi, r8 to r15
    [0, 0, 0, 0, 0, argv, argc, 0, 0, 0, 0, 0, 0, 0, 0] ++
    [symbols.irq0Resume]

/-- `task_set_entry` for a task pointer that is not null. -/
def taskSetEntry (symbols : KernelSymbols) (task : Task) (entry argc argv : U64)
    (stackWords : Word → Word) : Task × (Word → Word) :=
  let top : Stack := { words := stackWords, sp := task.stack + taskStackSize }
  let built := top.pushAll
    (entryFrame symbols (task.stack + taskStackSize) entry argc argv)
  ({ task with sp := built.sp, state := .running }, built.words)

/-- `task_create`. -/
def taskCreate (symbols : KernelSymbols) (name : List U8) (entry arg : U64)
    (kernel : Kernel) : Option (Option (Fin procMaxTasks) × Kernel) := do
  match ← taskAlloc symbols name arg kernel with
  | (none, kernel) => return (none, kernel)
  | (some slot, kernel) =>
      let (task, stackWords) :=
        taskSetEntry symbols (kernel.tasks slot) entry 0 0 kernel.stackWords
      return (some slot, { kernel.setTask slot task with stackWords })

/--
The child's frame in `task_vfork`: the saved frame `f` with zero for `rax`,
read word by word, and the resume address.
-/
def pushVforkFrame (symbols : KernelSymbols) (f : U64) (stack : Stack) : Stack :=
  let iret := stack.pushCopies f [19, 18, 17, 16, 15]
  let regs := (iret.push 0).pushCopies f
    [13, 12, 11, 10, 9, 8, 7, 6, 5, 4, 3, 2, 1, 0]
  regs.push symbols.irq0Resume

/--
`task_vfork`.  `none` is a null `g_cur_task`, which a system call does not
have.
-/
def taskVfork (symbols : KernelSymbols) (kernel : Kernel) :
    Option (U32 × Kernel) :=
  if room : kernel.taskCount < procMaxTasks then
    match pagingVforkClone kernel.machine with
    | (cr3, machine) =>
        if cr3 = 0 then
          some (-1, { kernel with machine })
        else do
          let parentSlot ← kernel.curTask
          let parent := kernel.tasks parentSlot
          let stack := symbols.stackOf kernel.taskCount
          let built := pushVforkFrame symbols kernel.syscallFrame
            { words := kernel.stackWords, sp := stack + taskStackSize }
          let child : Task :=
            { parent with
              pid := BitVec.ofNat 32 kernel.taskCount
              stack
              cr3
              sp := built.sp
              state := .running
              ticks := 0
              arg := 0
              vforkParent := parent.pid }
          let created :=
            { kernel with machine, stackWords := built.words }.addTask room child
          return (child.pid,
            created.setTask parentSlot
              { created.tasks parentSlot with state := .waiting })
  else
    some (-1, kernel)

end XKern
