import XKern.Argv
import XKern.BootTables
import XKern.Elf
import XKern.Ramfs

namespace XKern

/-!
# Task calls

The rest of `bsd/kern/init_ram_getty/proc.c`, and `spawn_task` with
`cmd_spawn` of `script.c`.  A call that stops at a fault, that panics or whose
name copy runs away does not return; that is `none`.
-/

section Calls

def Kernel.setState (kernel : Kernel) (slot : Fin procMaxTasks)
    (state : TaskState) : Kernel :=
  kernel.setTask slot { kernel.tasks slot with state }

/-- `task_find`. -/
def taskFind (kernel : Kernel) (pid : U32) : Option (Fin procMaxTasks) :=
  if known : pid.toNat < kernel.taskCount then
    some ⟨pid.toNat, lt_of_lt_of_le known kernel.countLe⟩
  else
    none

/-- The block of `task_exit` and `task_exec` that makes the parent runnable. -/
def wakeParent (slot : Fin procMaxTasks) (kernel : Kernel) : Kernel :=
  let vforkParent := (kernel.tasks slot).vforkParent
  if vforkParent = 0 then
    kernel
  else
    match taskFind kernel vforkParent with
    | none => kernel
    | some p =>
        if (kernel.tasks p).state = .waiting then
          kernel.setState p .running
        else
          kernel

/-! ## Scheduling -/

/-- The loop of `sched_tick`: the next runnable task after `slot`, going round. -/
def nextRunnable (kernel : Kernel) (slot : Fin procMaxTasks) :
    Option (Fin procMaxTasks) :=
  let candidates := (List.range' 1 (kernel.taskCount - 1)).map fun i =>
    let s := slot.val + i
    .ofNat procMaxTasks
      (if s ≥ kernel.taskCount then s - kernel.taskCount else s)
  candidates.find? fun t => (kernel.tasks t).state = .running

/-- `sched_tick`. -/
def schedTick (kernel : Kernel) : Option Kernel := do
  let slot ← kernel.curTask
  let task := kernel.tasks slot
  let ticked := kernel.setTask slot { task with ticks := task.ticks + 1 }
  if kernel.taskCount = 0 then
    none
  else
    match nextRunnable kernel slot with
    | some t => some { ticked with curTask := some t }
    | none => if task.state = .running then some ticked else none

/--
`sched_switch`: the stack pointer is saved, and CR3 is loaded if another task
comes up.
-/
def schedSwitch (sp : U64) (kernel : Kernel) : Option Kernel := do
  let slot ← kernel.curTask
  let saved := kernel.setTask slot { kernel.tasks slot with sp }
  let ticked ← schedTick saved
  let next ← ticked.curTask
  if next = slot then
    return ticked
  else
    return { ticked with
      machine := pagingLoadCr3 (ticked.tasks next).cr3 ticked.machine }

/-- `task_exit`, up to the loop of `hlt`. -/
def taskExit (kernel : Kernel) : Option Kernel := do
  let slot ← kernel.curTask
  return wakeParent slot (kernel.setState slot .zombie)

/-! ## Programs -/

/-- Run a program of memory management; a fault ends the run. -/
def Kernel.run {Value : Type} (program : KernelM Value) (kernel : Kernel) :
    Option (Value × Kernel) :=
  match program kernel.machine with
  | .ok value machine => some (value, { kernel with machine })
  | .error _ _ => none

/-- `task_set_entry` on a task of the table. -/
def Kernel.setEntry (symbols : KernelSymbols) (slot : Fin procMaxTasks) (entry argc argv : U64)
    (kernel : Kernel) : Kernel :=
  let (task, stackWords) :=
    taskSetEntry symbols (kernel.tasks slot) entry argc argv kernel.stackWords
  { kernel.setTask slot task with stackWords }

/-- `task_exec`, once the image has been loaded into `newCr3`. -/
def taskExecLoaded (symbols : KernelSymbols) (slot : Fin procMaxTasks) (newCr3 entry : U64)
    (argline : Option (List U8))
    (kernel : Kernel) : Option (Int × Kernel) := do
  let task := kernel.tasks slot
  let oldCr3 := task.cr3
  let moved := kernel.setTask slot
    { task with cr3 := newCr3, stack := symbols.stackOf task.pid.toNat }
  let (argv, kernel) ← moved.run (taskBuildArgv allocAndMap newCr3 task.name argline)
  match argv with
  | none =>
      return (-1, kernel.setTask slot { kernel.tasks slot with cr3 := oldCr3 })
  | some (argv, argc) =>
      return (0, wakeParent slot (kernel.setEntry symbols slot entry argc argv))

/-- `task_exec` for a valid image. -/
def taskExecValid (symbols : KernelSymbols) (slot : Fin procMaxTasks) (img : ElfImage)
    (argline : Option (List U8))
    (kernel : Kernel) : Option (Int × Kernel) :=
  match pagingClonePd kernel.machine with
  | (newCr3, machine) =>
      if newCr3 = 0 then
        some (-1, { kernel with machine })
      else do
        let (loaded, kernel) ← { kernel with machine }.run (elfLoadPd allocAndMap newCr3 img)
        match loaded with
        | none => return (-1, kernel)
        | some image =>
            taskExecLoaded symbols slot newCr3 image.entry argline kernel

/-- `task_exec`. -/
def taskExec (symbols : KernelSymbols) (fs : Ramfs ElfImage) (path : List U8)
    (argline : Option (List U8))
    (kernel : Kernel) : Option (Int × Kernel) := do
  let slot ← kernel.curTask
  match ramfsLookup fs path with
  | none => return (-1, kernel)
  | some f =>
      if !elfValid f.data then
        return (-1, kernel)
      else
        taskExecValid symbols slot f.data argline kernel

/-! ## Spawning -/

/-- `SCRIPT_DATA_MAX`. -/
def scriptDataMax : Nat := 8

/-- `g_script_data`; the count is the length. -/
structure ScriptData where
  paths : List RamfsName
  bounded : paths.length ≤ scriptDataMax

/-- The addresses of `script_task_main` and `g_script_data`. -/
structure ScriptSymbols extends KernelSymbols where
  scriptTaskMain : U64
  scriptData : U64

/-- The kernel with the scripts of launchd. -/
structure Launchd where
  kernel : Kernel
  scripts : ScriptData

/-- `cmd_spawn`; a full table is logged, and the result is 0 all the same. -/
def cmdSpawn (symbols : ScriptSymbols) (path : List U8) (launchd : Launchd) :
    Option (Int × Launchd) :=
  if room : launchd.scripts.paths.length < scriptDataMax then
    if fits : path.length < ramfsNameMax - 1 then do
      let d := symbols.scriptData +
        .ofNat 64 (ramfsNameMax * launchd.scripts.paths.length)
      let (_, kernel) ← taskCreate symbols.toKernelSymbols path
        symbols.scriptTaskMain d launchd.kernel
      return (0, {
        kernel
        scripts := {
          paths := launchd.scripts.paths ++ [⟨path, fits⟩]
          bounded := by simpa using room } })
    else
      none
  else
    some (0, launchd)

/--
`spawn_task` for a valid image.  `argc` is not set when `task_build_argv`
fails; `stale` is what it holds then.
-/
def spawnElf (symbols : KernelSymbols) (img : ElfImage) (path : List U8)
    (argline : Option (List U8)) (stale : U64)
    (kernel : Kernel) : Option (Int × Kernel) := do
  match ← taskAlloc symbols path 0 kernel with
  | (none, kernel) => return (-1, kernel)
  | (some slot, kernel) =>
      let (loaded, kernel) ← kernel.run (elfLoadPd allocAndMap (kernel.tasks slot).cr3 img)
      match loaded with
      | none => return (-1, kernel.setState slot .zombie)
      | some image =>
          let task := kernel.tasks slot
          let (built, kernel) ←
            kernel.run (taskBuildArgv allocAndMap task.cr3 task.name argline)
          let (argv, argc) := built.getD (0, stale)
          return (0, kernel.setEntry symbols slot image.entry argc argv)

/-- `spawn_task`. -/
def spawnTask (symbols : ScriptSymbols) (fs : Ramfs ElfImage) (path : List U8)
    (argline : Option (List U8)) (stale : U64)
    (launchd : Launchd) : Option (Int × Launchd) :=
  match ramfsLookup fs path with
  | none => some (-1, launchd)
  | some f =>
      if elfValid f.data then do
        let (result, kernel) ← spawnElf symbols.toKernelSymbols f.data path
          argline stale launchd.kernel
        return (result, { launchd with kernel })
      else
        cmdSpawn symbols path launchd

end Calls

/-! ## What the calls come to -/

@[simp] theorem Kernel.addTask_same (kernel : Kernel) (room : kernel.taskCount < procMaxTasks)
    (task : Task) :
    (kernel.addTask room task).tasks ⟨kernel.taskCount, room⟩ = task :=
  Function.update_self _ _ _

/-- The record that `task_alloc` puts into the table, as far as it matters. -/
structure AllocatedTask
    (kernel : Kernel)
    (room : kernel.taskCount < procMaxTasks)
    (name : List U8)
    (task : Task) : Prop where
  nameFits : name.length < taskNameMax - 1
  cr3 : task.cr3 = (pagingClonePd kernel.machine).1
  pid : task.pid = .ofNat 32 kernel.taskCount
  state : task.state = .new
  vforkParent : task.vforkParent = (kernel.tasks ⟨kernel.taskCount, room⟩).vforkParent

theorem taskAlloc_cases {symbols : KernelSymbols} {name : List U8} {arg : U64}
    {kernel after : Kernel} {outcome : Option (Fin procMaxTasks)}
    (allocated : taskAlloc symbols name arg kernel = some (outcome, after)) :
    (outcome = none ∧ ¬ kernel.taskCount < procMaxTasks ∧ after = kernel) ∨
      (outcome = none ∧ kernel.taskCount < procMaxTasks ∧ (pagingClonePd kernel.machine).1 = 0 ∧
        after = { kernel with machine := (pagingClonePd kernel.machine).2 }) ∨
      ∃ (room : kernel.taskCount < procMaxTasks) (task : Task),
        AllocatedTask kernel room name task ∧ (pagingClonePd kernel.machine).1 ≠ 0 ∧
          outcome = some ⟨kernel.taskCount, room⟩ ∧
          after = { kernel with machine := (pagingClonePd kernel.machine).2 }.addTask
            room task := by
  unfold taskAlloc at allocated
  split at allocated
  · rename_i room
    dsimp only at allocated
    split at allocated
    · rename_i failed
      cases allocated
      exact .inr (.inl ⟨rfl, room, failed, rfl⟩)
    · rename_i cloned
      rw [copyName] at allocated
      split at allocated
      · rename_i nameFits
        cases allocated
        refine .inr (.inr ⟨room, _, ?_, cloned, rfl, rfl⟩)
        exact {
          nameFits
          cr3 := rfl
          pid := rfl
          state := rfl
          vforkParent := rfl
        }
      · cases allocated
  · rename_i full
    cases allocated
    exact .inl ⟨rfl, full, rfl⟩

theorem taskAlloc_added {kernel : Kernel} (symbols : KernelSymbols) {name : List U8} (arg : U64)
    (room : kernel.taskCount < procMaxTasks) (cloned : (pagingClonePd kernel.machine).1 ≠ 0)
    (nameFits : name.length < taskNameMax - 1) :
    ∃ task, AllocatedTask kernel room name task ∧ taskAlloc symbols name arg kernel =
        some (some ⟨kernel.taskCount, room⟩,
          { kernel with machine := (pagingClonePd kernel.machine).2 }.addTask room task) := by
  obtain ⟨⟨outcome, after⟩, allocated⟩ :
      ∃ result, taskAlloc symbols name arg kernel = some result := by
    rw [taskAlloc, dif_pos room]
    dsimp only
    rw [if_neg cloned, copyName, dif_pos nameFits]
    exact ⟨_, rfl⟩
  rcases taskAlloc_cases allocated with
    ⟨_, full, _⟩ | ⟨_, _, failed, _⟩ | ⟨_, task, isTask, _, rfl, rfl⟩
  · exact (full room).elim
  · exact (cloned failed).elim
  · exact ⟨task, isTask, allocated⟩

theorem Kernel.run_eq_some {Value : Type} {program : KernelM Value} {kernel after : Kernel}
    {value : Value} (ran : kernel.run program = some (value, after)) :
    ∃ machine, program kernel.machine = .ok value machine ∧ after = { kernel with machine } := by
  unfold Kernel.run at ran
  split at ran
  · rename_i isOk
    cases ran
    exact ⟨_, isOk, rfl⟩
  · cases ran

/-! ## A kernel at work -/

def plainTask (slot : Fin procMaxTasks) : Task where
  sp := 0
  cr3 := 0x200000
  pid := .ofNat 32 slot
  name := ⟨[], emptyName_fits⟩
  stack := 0x180000 + .ofNat 64 slot * taskStackSize
  state := .running
  ticks := 0
  arg := 0
  vforkParent := 0
  fd := fun _ => ⟨0, 0, 0, 0⟩
  procbuf := fun _ => 0

/-- The idle task and init, with init running and eight free frames. -/
def plainKernel : Kernel where
  machine :=
    { sampleMachine 0x83 with
      pmm := ⟨[0x900000, 0x901000, 0x902000, 0x903000, 0x904000, 0x905000,
        0x906000, 0x907000], 0, eightFrames_bounded⟩ }
  stackWords := fun _ => 0
  tasks := plainTask
  taskCount := 2
  curTask := some 1
  syscallFrame := 0x181F60
  countLe := by decide

def plainSymbols : ScriptSymbols where
  irq0Resume := 0x100202
  taskStacks := 0x180000
  linkedAt := sampleResume_linkedAt
  scriptTaskMain := 0x108000
  scriptData := 0x178000

end XKern
