import XKern.Task

namespace XKern

open StackCpu List Option

/-!
# Dispatching a task

The trampolines of `osfmk/x86_64/isr.asm` as code blocks.  `sched_switch`
suspends a task by pushing its callee-saved registers, and
`sched_switch.resume` pops them again and returns.  A new task is entered
through the same `.resume`, on a frame that `task_set_entry` or `task_vfork`
laid out in C.
-/

/-- The registers of `POPALL`, in the order in which they are popped. -/
def frameRegs : List Reg :=
  [.r15, .r14, .r13, .r12, .r11, .r10, .r9, .r8,
    .rdi, .rsi, .rbp, .rbx, .rdx, .rcx, .rax]

/-- The registers that `sched_switch.resume` pops. -/
def calleeSaved : List Reg :=
  [.r15, .r14, .r13, .r12, .rbp, .rbx]

/-- `sched_switch.resume`. -/
def resumeCode : List Instr :=
  calleeSaved.map .pop ++ [.ret]

/-- `irq0_resume`: signal the end of the interrupt, `POPALL`, `iretq`. -/
def irq0ResumeCode : List Instr :=
  [.storeDevice 0xFEE000B0 0, .movLow .rax 0x20, .out 0x20 .rax] ++
    frameRegs.map .pop ++ [.iretq]

/-- The code that a return from `sched_switch.resume` is meant to reach. -/
def codeAt (symbols : KernelSymbols) (address : U64) : Option (List Instr) :=
  if address = symbols.irq0Resume then some irq0ResumeCode else none

/--
The first dispatch of a task: load `rsp` from `t->sp`, run
`sched_switch.resume` and then `irq0_resume`, if that is where it returns to.
-/
def firstDispatch (symbols : KernelSymbols) (cpu : Cpu) (task : Task)
    (stackWords : Word → Word) : Option Cpu :=
  let resumed := run resumeCode
    { cpu with stack := { words := stackWords, sp := task.sp } }
  (codeAt symbols resumed.rip).map fun code => run code resumed

/-- The registers in the order of the `FRAME_*` indices. -/
def frameOf (cpu : Cpu) : List Word :=
  frameRegs.map cpu.regs ++ [cpu.rip, cpu.cs, cpu.rflags, cpu.stack.sp, cpu.ss]

/-! ## The code blocks -/

theorem run_resumeCode (cpu : Cpu) : run resumeCode cpu = { cpu with
        regs := popped cpu calleeSaved
        rip := cpu.stack.slot 6
        stack := cpu.stack.drop 7 } := by
  rw [resumeCode, run_append, run_pop (by decide)]
  simp only [run_cons, run_nil, exec, Stack.slot_drop, Stack.drop_drop]
  rfl

theorem frameOf_popAll (cpu : Cpu) : frameOf (run (frameRegs.map .pop ++ [.iretq]) cpu) =
      (range 20).map cpu.stack.slot := by
  rw [run_append, run_pop (by decide)]
  simp only [run_cons, run_nil, exec, frameOf, Stack.slot_drop]
  rw [map_popped (by decide)]
  rfl

theorem frameOf_irq0Resume (cpu : Cpu) :
    frameOf (run irq0ResumeCode cpu) = (range 20).map cpu.stack.slot := by
  rw [irq0ResumeCode, append_assoc, run_append, frameOf_popAll]
  rfl

theorem firstDispatch_frame (symbols : KernelSymbols) (cpu : Cpu) (task : Task) {stack : Stack}
    (loaded : stack.sp = task.sp) :
    (firstDispatch symbols cpu task stack.words).map frameOf =
      if stack.slot 6 = symbols.irq0Resume then
        some ((range 20).map fun index => stack.slot (7 + index))
      else
        none := by
  rw [firstDispatch, run_resumeCode, codeAt, ← loaded]
  change Option.map frameOf (Option.map _ (if stack.slot 6 = symbols.irq0Resume then _ else _)) = _
  split
  · rw [map_some, map_some, frameOf_irq0Resume]
    have shifted : (stack.drop 7).slot = fun index => stack.slot (7 + index) :=
      funext fun index => stack.slot_drop 7 index
    rw [← shifted]
  · rfl

/-! ## New tasks -/

/-- A task starts at its entry point, as `task_set_entry` lays it out. -/
structure EntersAt (task : Task) (entry argc argv : U64) (after : Cpu) : Prop where
  rip : after.rip = entry
  rdi : after.regs .rdi = argc
  rsi : after.regs .rsi = argv
  rsp : after.stack.sp = task.stack + taskStackSize
  cs : after.cs = 0x08
  rflags : after.rflags = 0x202

theorem firstDispatch_taskSetEntry (symbols : KernelSymbols) (cpu : Cpu) (task : Task)
    (entry argc argv : U64) (stackWords : Word → Word) :
    let ready := taskSetEntry symbols task entry argc argv stackWords
    firstDispatch symbols cpu ready.1 ready.2 = none := by
  intro ready
  let stack : Stack := { words := ready.2, sp := ready.1.sp }
  have seventh : stack.slot 6 = 0 := by
    change Stack.slot (Stack.pushAll _ _) 6 = 0
    rw [Stack.slot_pushAll _ _ (by decide)]
    rfl
  have apart : (0 : U64) ≠ symbols.irq0Resume := by
    intro same
    have linkedAt := symbols.linkedAt
    rw [← same] at linkedAt
    exact absurd linkedAt (by decide)
  have frame := firstDispatch_frame symbols cpu ready.1 (rfl : stack.sp = _)
  rw [seventh, if_neg apart, map_eq_none_iff] at frame
  exact frame

/-! ## Children of vfork -/

/-- The top of the stack of the next task. -/
def Kernel.childTop (symbols : KernelSymbols) (kernel : Kernel) : U64 :=
  symbols.stackOf kernel.taskCount + taskStackSize

/-- `f[index]` of the system call's saved frame. -/
def Kernel.frameWord (kernel : Kernel) (index : Nat) : Word :=
  kernel.stackWords (kernel.syscallFrame + .ofNat 64 (8 * index))

/-- The registers of the child: those of the parent, with zero in `rax`. -/
def Kernel.childRegisters (kernel : Kernel) : List Word :=
  ((range 20).map kernel.frameWord).set 14 0

/-- The six words above the stack of the next task. -/
def Kernel.aboveChild (symbols : KernelSymbols) (kernel : Kernel) : List Word :=
  (range 6).map fun index =>
    kernel.stackWords (kernel.childTop symbols + .ofNat 64 (8 * index))

/-- The saved frame lies outside the words that the child's frame is put into. -/
def Kernel.FrameApart (symbols : KernelSymbols) (kernel : Kernel) : Prop :=
  ∀ index < 20, ∀ k < 21,
    kernel.syscallFrame + .ofNat 64 (8 * index) ≠
      kernel.childTop symbols - BitVec.ofNat 64 (8 * (k + 1))

variable {symbols : KernelSymbols} {kernel : Kernel}

theorem pushVforkFrame_eq (apart : kernel.FrameApart symbols) :
    let top : Stack :=
      { words := kernel.stackWords, sp := kernel.childTop symbols }
    pushVforkFrame symbols kernel.syscallFrame top =
      top.pushAll (kernel.childRegisters.reverse ++ [symbols.irq0Resume]) := by
  intro top
  have copies : ∀ (pushed : List Word) (indices : List Nat),
      (∀ index ∈ indices, index < 20) → pushed.length + indices.length ≤ 21 →
      (top.pushAll pushed).pushCopies kernel.syscallFrame indices =
        top.pushAll (pushed ++ indices.map fun index =>
          top.words (kernel.syscallFrame + BitVec.ofNat 64 (8 * index))) := by
    intro pushed indices inFrame short
    apply Stack.pushCopies_eq
    intro index member k small
    exact apart index (inFrame index member) k (by omega)
  have iret := copies [] [19, 18, 17, 16, 15] (by decide) (by decide)
  have regs := copies (([19, 18, 17, 16, 15].map fun index =>
      top.words (kernel.syscallFrame + BitVec.ofNat 64 (8 * index))) ++ [0])
    [13, 12, 11, 10, 9, 8, 7, 6, 5, 4, 3, 2, 1, 0] (by decide)
    (by simp)
  rw [Stack.pushAll_append, ← nil_append (map _ _), ← iret] at regs
  change Stack.push (Stack.pushCopies (Stack.pushAll (Stack.pushCopies
    (top.pushAll []) kernel.syscallFrame [19, 18, 17, 16, 15]) [0])
    kernel.syscallFrame _) _ = _
  rw [regs]
  rfl

theorem slots_pushVforkFrame (apart : kernel.FrameApart symbols) :
    let stack := pushVforkFrame symbols kernel.syscallFrame
      { words := kernel.stackWords, sp := kernel.childTop symbols }
    (range 26).map (fun index => stack.slot (1 + index)) =
      kernel.childRegisters ++ kernel.aboveChild symbols := by
  intro stack
  have slots : ∀ index ∈ range 26, stack.slot (1 + index) =
      (kernel.childRegisters.reverse ++ [symbols.irq0Resume]).reverse.getD (1 + index) (Stack.slot
          { words := kernel.stackWords, sp := kernel.childTop symbols }
          (1 + index - 21)) := by
    intro index member
    have small := mem_range.mp member
    rw [show stack = _ from pushVforkFrame_eq apart, Stack.slot_pushAll _ _ (by omega)]
    simp [Kernel.childRegisters]
  rw [map_congr_left slots]
  rfl

theorem taskVfork_child (symbols : KernelSymbols) (kernel : Kernel) {parent : Fin procMaxTasks}
    (room : kernel.taskCount < procMaxTasks) (current : kernel.curTask = some parent)
    (cloned : (pagingVforkClone kernel.machine).1 ≠ 0) :
    ∃ after, taskVfork symbols kernel = some (BitVec.ofNat 32 kernel.taskCount, after) ∧
        Stack.mk after.stackWords (after.tasks ⟨kernel.taskCount, room⟩).sp =
          pushVforkFrame symbols kernel.syscallFrame
            { words := kernel.stackWords, sp := kernel.childTop symbols } := by
  simp only [taskVfork, dif_pos room, if_neg cloned, current]
  refine ⟨_, rfl, ?_⟩
  simp only [Kernel.setTask, Kernel.addTask]
  by_cases isParent : ⟨kernel.taskCount, room⟩ = parent
  · subst isParent
    simp [Kernel.childTop]
  · simp [Function.update_of_ne isParent, Kernel.childTop]

theorem firstDispatch_child (cpu : Cpu) (apart : kernel.FrameApart symbols) {child : Task}
    {stackWords : Word → Word}
    (built : Stack.mk stackWords child.sp = pushVforkFrame symbols kernel.syscallFrame
        { words := kernel.stackWords, sp := kernel.childTop symbols }) :
    (firstDispatch symbols cpu child stackWords).map frameOf =
      if kernel.frameWord 5 = symbols.irq0Resume then
        some ((kernel.childRegisters ++ kernel.aboveChild symbols).drop 6)
      else
        none := by
  have slots := slots_pushVforkFrame apart
  rw [← built] at slots
  have sixth : Stack.slot { words := stackWords, sp := child.sp } 6 = kernel.frameWord 5 := by
    have both := congrArg (fun words => words[5]?) slots
    exact Option.some.inj both
  have frame := firstDispatch_frame symbols cpu child
    (rfl : (Stack.mk stackWords child.sp).sp = child.sp)
  rw [frame, sixth, ← slots]
  rfl

/-! ## When a first dispatch arrives -/

/--
No task that `task_set_entry` prepared enters its entry point.  A child of
`task_vfork` resumes with its parent's registers exactly when the parent saved
the address of `irq0_resume` in `r10` and the child's registers, continued by
the six words above its stack, repeat every six words.
-/
theorem firstDispatch_arrives_iff (symbols : KernelSymbols) (cpu : Cpu) :
    (∀ task entry argc argv stackWords,
      let ready := taskSetEntry symbols task entry argc argv stackWords
      ¬ ∃ after, firstDispatch symbols cpu ready.1 ready.2 = some after ∧
        EntersAt task entry argc argv after) ∧
    (∀ (kernel : Kernel)
        (parent : Fin procMaxTasks)
        (room : kernel.taskCount < procMaxTasks),
      kernel.curTask = some parent →
      (pagingVforkClone kernel.machine).1 ≠ 0 →
      kernel.FrameApart symbols →
      ∃ after,
        taskVfork symbols kernel =
            some (BitVec.ofNat 32 kernel.taskCount, after) ∧
          ((∃ resumed,
              firstDispatch symbols cpu (after.tasks ⟨kernel.taskCount, room⟩)
                  after.stackWords = some resumed ∧
                frameOf resumed = kernel.childRegisters) ↔
            kernel.frameWord 5 = symbols.irq0Resume ∧
              (kernel.childRegisters ++ kernel.aboveChild symbols).drop 6 =
                kernel.childRegisters)) := by
  refine ⟨?_, ?_⟩
  · rintro task entry argc argv stackWords ready ⟨after, dispatched, _⟩
    rw [firstDispatch_taskSetEntry] at dispatched
    cases dispatched
  · intro kernel parent room current cloned apart
    obtain ⟨after, created, built⟩ := taskVfork_child symbols kernel room current cloned
    refine ⟨after, created, ?_⟩
    have frame := firstDispatch_child cpu apart built
    constructor
    · rintro ⟨resumed, dispatched, registers⟩
      rw [dispatched, map_some, registers] at frame
      split at frame
      · rename_i resumeAddress
        exact ⟨resumeAddress, (Option.some.inj frame).symm⟩
      · cases frame
    · rintro ⟨resumeAddress, repeats⟩
      rw [if_pos resumeAddress, repeats] at frame
      exact map_eq_some_iff.mp frame

/-- A kernel whose `irq0_resume` could also be a value of `rflags`. -/
def sampleSymbols : KernelSymbols where
  irq0Resume := 0x100202
  taskStacks := 0x180000
  linkedAt := sampleResume_linkedAt

def sampleTask : Task where
  sp := 0
  cr3 := 0x200000
  pid := 0
  name := ⟨[], emptyName_fits⟩
  stack := 0x180000
  state := .running
  ticks := 0
  arg := 0
  vforkParent := 0
  fd := fun _ => ⟨0, 0, 0, 0⟩
  procbuf := fun _ => 0

/-- A system call of the first task, with its frame at `frame`. -/
def sampleKernel (frame : U64) (stackWords : Word → Word) : Kernel where
  machine := sampleMachine 0x83
  stackWords
  tasks := fun _ => sampleTask
  taskCount := 1
  curTask := some 0
  syscallFrame := frame
  countLe := by decide

/-- Stack memory that repeats six words: rsp, ss, rax, rip, cs, rflags. -/
def repeatingWords (address : Word) : Word :=
  [0x181FF0, 0x10, 0, 0x8048000, 0x08, 0x100202].getD
    ((address - 0x181F50).toNat % 48 / 8) 0

def clearedCpu : Cpu where
  regs := fun _ => 0
  stack := { words := fun _ => 0, sp := 0 }
  rip := 0
  cs := 0
  rflags := 0
  ss := 0
  devices := []

/-- A child whose registers repeat. -/
theorem firstDispatch_arrives_iff_repeating :
    ∃ after,
      taskVfork sampleSymbols (sampleKernel 0x181F50 repeatingWords) =
          some (1, after) ∧
        ∃ resumed,
          firstDispatch sampleSymbols clearedCpu (after.tasks 1)
              after.stackWords = some resumed ∧
            frameOf resumed = (sampleKernel 0x181F50 repeatingWords).childRegisters := by
  have apart : (sampleKernel 0x181F50 repeatingWords).FrameApart sampleSymbols := by
    unfold Kernel.FrameApart
    decide
  obtain ⟨after, created, arrives⟩ := (firstDispatch_arrives_iff sampleSymbols clearedCpu).2
      (sampleKernel 0x181F50 repeatingWords) 0 (by decide) rfl (by decide) apart
  exact ⟨after, created, arrives.mpr (by decide)⟩

/--
A new task with entry point 0x8048000, and the child of a call whose saved
registers are all zero: neither dispatch reaches `irq0_resume`.
-/
theorem firstDispatch_lost :
    let ready :=
      taskSetEntry sampleSymbols sampleTask 0x8048000 1 0x8100000 fun _ => 0
    (¬ ∃ after, firstDispatch sampleSymbols clearedCpu ready.1 ready.2 =
        some after ∧ EntersAt sampleTask 0x8048000 1 0x8100000 after) ∧
      ∃ after, taskVfork sampleSymbols (sampleKernel 0x181F50 fun _ => 0) = some (1, after) ∧
          ¬ ∃ resumed, firstDispatch sampleSymbols clearedCpu (after.tasks 1)
                after.stackWords = some resumed ∧
              frameOf resumed = (sampleKernel 0x181F50 fun _ => 0).childRegisters := by
  intro ready
  refine ⟨?_, ?_⟩
  · rintro ⟨after, dispatched, _⟩
    rw [firstDispatch_taskSetEntry] at dispatched
    cases dispatched
  · have apart : (sampleKernel 0x181F50 fun _ => 0).FrameApart sampleSymbols := by
      unfold Kernel.FrameApart
      decide
    obtain ⟨after, created, built⟩ :=
      taskVfork_child sampleSymbols (sampleKernel 0x181F50 fun _ => 0) (by decide) rfl (by decide)
    refine ⟨after, created, ?_⟩
    rintro ⟨resumed, dispatched, _⟩
    have frame := firstDispatch_child clearedCpu apart built
    rw [if_neg (by decide)] at frame
    have nowhere := map_eq_none_iff.mp frame
    cases dispatched.symm.trans nowhere

end XKern
