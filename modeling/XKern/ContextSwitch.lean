import Mathlib.Logic.Relation
import XKern.Dispatch

namespace XKern

open StackCpu List Function

/-!
# Switching between tasks

The calls of `sched_switch` by several tasks, each on a stack of its own.  While a task
is suspended the other ones compute, call and are suspended in turn; its six registers
and its return address wait on its stack.
-/

/-- The pushes at the start of `sched_switch`. -/
def suspendCode : List Instr :=
  calleeSaved.reverse.map .push

/-- The word at an address lies in `g_task_stacks[slot]`. -/
def InStack (symbols : KernelSymbols) (slot : Fin procMaxTasks) (address : Word) : Prop :=
  (address - symbols.taskStacks).toNat / taskStackSize.toNat = slot.val

instance (symbols : KernelSymbols) (slot : Fin procMaxTasks) (address : Word) :
    Decidable (InStack symbols slot address) :=
  inferInstanceAs (Decidable (_ = _))

/-- A task has stored to no stack but its own; the rest of memory may have changed. -/
def OwnStackOnly (symbols : KernelSymbols) (slot : Fin procMaxTasks)
    (before after : Word → Word) : Prop :=
  ∀ other ≠ slot, ∀ address, InStack symbols other address → after address = before address

/-- A memory holds the frame that a task left at `sp` when it called `sched_switch`. -/
structure Suspended
    (symbols : KernelSymbols)
    (slot : Fin procMaxTasks)
    (caller : Cpu)
    (words : Word → Word)
    (sp : Word) : Prop where
  pushed : sp = (run suspendCode caller).stack.sp
  inStack : ∀ index < 7, InStack symbols slot (sp + .ofNat 64 (8 * index))
  frame : ∀ index < 7, words (sp + .ofNat 64 (8 * index)) =
    (run suspendCode caller).stack.slot index

/-- The processor goes on behind a call of `sched_switch`. -/
structure Resumes (caller resumed : Cpu) : Prop where
  rip : resumed.rip = caller.stack.slot 0
  sp : resumed.stack.sp = caller.stack.sp + 8
  regs : ∀ reg ∈ calleeSaved, resumed.regs reg = caller.regs reg

variable {symbols : KernelSymbols} {slot : Fin procMaxTasks} {caller cpu : Cpu} {sp : Word}
  {words : Word → Word}

/-- `sched_switch.resume` on the frame of a suspended task; the registers may hold
anything. -/
theorem Suspended.resumes (suspended : Suspended symbols slot caller words sp) (cpu : Cpu) :
    Resumes caller (run resumeCode { cpu with stack := { words, sp } }) := by
  have slots : ∀ index < 7, words (sp + .ofNat 64 (8 * index)) =
      (calleeSaved.map caller.regs).getD index (caller.stack.slot (index - 6)) := by
    intro index small
    rw [suspended.frame index small, suspendCode, run_push,
      Stack.slot_pushAll _ _ (by omega), map_reverse, reverse_reverse]
    rfl
  rw [run_resumeCode]
  refine ⟨slots 6 (by decide), ?_, ?_⟩
  · change sp + 56 = _
    rw [suspended.pushed, suspendCode, run_push, Stack.sp_pushAll]
    change caller.stack.sp - 48 + 56 = caller.stack.sp + 8
    bv_omega
  · intro reg member
    have position : calleeSaved.idxOf reg < 6 := idxOf_lt_length_of_mem member
    change popped _ calleeSaved reg = _
    rw [popped, if_pos member]
    change words _ = _
    rw [slots _ (by omega), getD_eq_getElem _ _ (by rwa [length_map]), getElem_map,
      getElem_idxOf]

/-- Another task leaves the frame alone. -/
theorem Suspended.keep {other : Fin procMaxTasks} {after : Word → Word}
    (suspended : Suspended symbols slot caller words sp) (apart : slot ≠ other)
    (own : OwnStackOnly symbols other words after) :
    Suspended symbols slot caller after sp where
  pushed := suspended.pushed
  inStack := suspended.inStack
  frame := fun index small => by
    rw [own slot apart _ (suspended.inStack index small), suspended.frame index small]

/-! ## The system -/

/-- The tasks that take turns.  The kernel does not keep `callers`: the processor as it was
when a suspended task called `sched_switch`. -/
structure SwitchSystem where
  cpu : Cpu
  current : Fin procMaxTasks
  /-- `t->sp`. -/
  saved : Fin procMaxTasks → Word
  callers : Fin procMaxTasks → Option Cpu

namespace SwitchSystem

/-- The current task has pushed its registers, `sched_tick` has picked `next`, and its stack
pointer is loaded. -/
def suspend (system : SwitchSystem) (next : Fin procMaxTasks) (cpu : Cpu) : SwitchSystem where
  cpu
  current := next
  saved := update system.saved system.current (run suspendCode system.cpu).stack.sp
  callers := update (update system.callers system.current (some system.cpu)) next none

/-- `sched_tick` has come back to `sched_switch`: what was pushed is in the stack of the task
and still there, and no other stack was touched. -/
structure Ticked (symbols : KernelSymbols) (system : SwitchSystem) (words : Word → Word) :
    Prop where
  suspended : Suspended symbols system.current system.cpu words
    (run suspendCode system.cpu).stack.sp
  own : OwnStackOnly symbols system.current system.cpu.stack.words words

/-- What can happen next. -/
inductive Step (symbols : KernelSymbols) (system : SwitchSystem) : SwitchSystem → Prop
  /-- The current task computes on its stack. -/
  | work
      (cpu : Cpu)
      (own : OwnStackOnly symbols system.current system.cpu.stack.words cpu.stack.words) :
      Step symbols system { system with cpu }
  /-- The first dispatch of a task. -/
  | enter
      {words : Word → Word}
      (ticked : Ticked symbols system words)
      (next : Fin procMaxTasks)
      (other : next ≠ system.current)
      (isNew : system.callers next = none)
      (cpu : Cpu)
      (own : OwnStackOnly symbols next words cpu.stack.words) :
      Step symbols system (system.suspend next cpu)
  /-- `sched_switch.resume` of a suspended task. -/
  | resume
      {words : Word → Word}
      (ticked : Ticked symbols system words)
      (next : Fin procMaxTasks)
      (other : next ≠ system.current)
      (cpu : Cpu) :
      Step symbols system
        (system.suspend next
          (run resumeCode { cpu with stack := { words, sp := system.saved next } }))

/-- The frames of all suspended tasks are on their stacks. -/
def Inv (symbols : KernelSymbols) (system : SwitchSystem) : Prop :=
  ∀ slot caller, system.callers slot = some caller →
    slot ≠ system.current ∧
      Suspended symbols slot caller system.cpu.stack.words (system.saved slot)

variable {start system after : SwitchSystem}

theorem Inv.suspend (inv : system.Inv symbols) (ticked : Ticked symbols system words)
    {next : Fin procMaxTasks} (own : OwnStackOnly symbols next words cpu.stack.words) :
    (system.suspend next cpu).Inv symbols := by
  intro slot caller isCaller
  simp only [SwitchSystem.suspend] at isCaller ⊢
  by_cases isNext : slot = next
  · rw [isNext, update_self] at isCaller
    cases isCaller
  refine ⟨isNext, ?_⟩
  rw [update_of_ne isNext] at isCaller
  by_cases isCurrent : slot = system.current
  · subst isCurrent
    rw [update_self] at isCaller ⊢
    cases isCaller
    exact ticked.suspended.keep isNext own
  · rw [update_of_ne isCurrent] at isCaller ⊢
    exact ((inv slot caller isCaller).2.keep isCurrent ticked.own).keep isNext own

theorem words_resumeCode (cpu : Cpu) : (run resumeCode cpu).stack.words = cpu.stack.words := by
  rw [run_resumeCode]
  rfl

theorem Inv.step (inv : system.Inv symbols) (step : Step symbols system after) :
    after.Inv symbols := by
  cases step with
  | work cpu own =>
    intro slot caller isCaller
    obtain ⟨notCurrent, suspended⟩ := inv slot caller isCaller
    exact ⟨notCurrent, suspended.keep notCurrent own⟩
  | enter ticked next other isNew cpu own => exact inv.suspend ticked own
  | resume ticked next other cpu =>
    refine inv.suspend ticked fun _ _ address _ => ?_
    rw [words_resumeCode]

theorem inv_of_steps (fresh : ∀ slot, start.callers slot = none)
    (run : Relation.ReflTransGen (Step symbols) start system) : system.Inv symbols := by
  induction run with
  | refl => exact fun slot caller isCaller => nomatch (fresh slot).symm.trans isCaller
  | tail _ step ih => exact ih.step step

/-- Whatever the tasks did in the meantime, and in whatever order they took turns, a task
that is resumed goes on behind its own call, with its own registers. -/
theorem resumes_own_call (fresh : ∀ slot, start.callers slot = none)
    (run : Relation.ReflTransGen (Step symbols) start system) (step : Step symbols system after)
    (resumed : system.callers after.current = some caller) :
    Resumes caller after.cpu := by
  obtain ⟨notCurrent, suspended⟩ := inv_of_steps fresh run _ _ resumed
  cases step with
  | work cpu own => exact absurd rfl notCurrent
  | enter ticked next other isNew cpu own => exact nomatch isNew.symm.trans resumed
  | resume ticked next other cpu =>
    exact (suspended.keep notCurrent ticked.own).resumes cpu

/-- With room for the pushes, a `sched_tick` that stores nothing comes back. -/
theorem Ticked.of_room
    (room : ∀ index < 7, InStack symbols system.current
      ((run suspendCode system.cpu).stack.sp + .ofNat 64 (8 * index))) :
    Ticked symbols system (run suspendCode system.cpu).stack.words where
  suspended := ⟨rfl, room, fun _ _ => rfl⟩
  own := by
    intro other apart address inOther
    rw [suspendCode, run_push]
    refine Stack.words_pushAll _ _ fun k small same => apart (Fin.ext (inOther.symm.trans ?_))
    have isSlot := room (5 - k) (by omega)
    rw [suspendCode, run_push, Stack.sp_pushAll] at isSlot
    have small : k < 6 := small
    have place : system.cpu.stack.sp - BitVec.ofNat 64 (8 * 6) + BitVec.ofNat 64 (8 * (5 - k)) =
        system.cpu.stack.sp - BitVec.ofNat 64 (8 * (k + 1)) := by
      bv_omega
    rw [same, ← place]
    exact isSlot

/-- A processor on a stack, with the same word in every register and in all memory. -/
def uniformCpu (word sp : Word) : Cpu :=
  { clearedCpu with regs := fun _ => word, stack := { words := fun _ => word, sp } }

/-- The first task is about to call `sched_switch`. -/
def firstTurn : SwitchSystem where
  cpu := uniformCpu 0x11 0x181F00
  current := 0
  saved := fun _ => 0
  callers := fun _ => none

/-- The second task has been entered. -/
def secondTurn : SwitchSystem :=
  firstTurn.suspend 1 { uniformCpu 0x22 0 with
    stack := { words := (run suspendCode firstTurn.cpu).stack.words, sp := 0x183F00 } }

/-- The second task has computed and stored a word on its stack. -/
def busyTurn : SwitchSystem :=
  { secondTurn with cpu := { uniformCpu 0x33 0 with
      stack := { words := update secondTurn.cpu.stack.words 0x183E00 0x33, sp := 0x183F00 } } }

/-- The first task gets its registers back after the turn of the second. -/
theorem firstTurn_resumed :
    ∃ after, Step sampleSymbols busyTurn after ∧ after.current = 0 ∧
      Resumes (uniformCpu 0x11 0x181F00) after.cpu := by
  have entered : Step sampleSymbols firstTurn secondTurn :=
    .enter (.of_room (by decide)) 1 (by decide) rfl _ fun _ _ _ _ => rfl
  have worked : Step sampleSymbols secondTurn busyTurn := by
    refine .work _ fun other apart address inOther => update_of_ne ?_ _ _
    rintro rfl
    exact apart (Fin.ext inOther.symm)
  have switched := Step.resume (.of_room (by decide) : Ticked sampleSymbols busyTurn _) 0
    (by decide) (uniformCpu 0x44 0)
  exact ⟨_, switched, rfl, resumes_own_call (fun _ => rfl)
    (.tail (.single entered) worked) switched rfl⟩

end SwitchSystem

end XKern
