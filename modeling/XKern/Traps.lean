import XKern.Dispatch

namespace XKern

open StackCpu List

/-!
# The system call gate and the page-fault handler

`syscall_handler` and `exc14_handler` of `osfmk/x86_64/isr.asm` as code blocks
around a call of a C function.  The processor pushes the frame for `iretq`
before either of them runs, and for a page fault an error code below it.
-/

/--
The processor enters a handler: `sp` is where the frame is pushed, `code` the
error code if the vector has one.
-/
def interrupt (cpu : Cpu) (sp : Word) (code : List Word) : Cpu :=
  { cpu with
    stack := .pushAll { words := cpu.stack.words, sp }
      ([cpu.ss, cpu.stack.sp, cpu.rflags, cpu.cs, cpu.rip] ++ code) }

/-- `PUSHALL`. -/
def pushAllCode : List Instr :=
  frameRegs.reverse.map .push

/-- `POPALL` and `iretq`. -/
def popAllCode : List Instr :=
  frameRegs.map .pop ++ [.iretq]

/-- After `PUSHALL` the stack holds the registers and what was pushed before. -/
theorem slots_pushAllCode (cpu : Cpu) (sp : Word) (code : List Word) (short : code.length ≤ 1) :
    (range (20 + code.length)).map
        (run pushAllCode (interrupt cpu sp code)).stack.slot =
      frameRegs.map cpu.regs ++ code.reverse ++
        [cpu.rip, cpu.cs, cpu.rflags, cpu.stack.sp, cpu.ss] := by
  let words := ([cpu.ss, cpu.stack.sp, cpu.rflags, cpu.cs, cpu.rip] ++ code) ++
    (frameRegs.map cpu.regs).reverse
  have pushed : (run pushAllCode (interrupt cpu sp code)).stack =
      .pushAll { words := cpu.stack.words, sp } words := by
    rw [Stack.pushAll_append, ← map_reverse]
    exact congrArg Cpu.stack (run_push frameRegs.reverse _)
  have count : words.length = 20 + code.length := by
    simp [words, frameRegs]
    omega
  rw [pushed, ← count, Stack.slots_pushAll _ (by omega)]
  simp [words]

/-! ## System calls -/

/-- The cases of `syscall_dispatch`. -/
inductive Syscall
  | sysExit | sysGetpid | sysWrite | sysSleep | sysRead | sysSpawn | sysOpen
  | sysClose | sysLseek | sysStat | sysAccess | sysGetdents | sysUname
  | sysGettime | sysBrk | sysGetuid | sysGetgid | sysGetppid | sysVfork
  | sysExec | sysWait
  deriving Repr, DecidableEq

/-- The case of a number; `none` falls through to `return (u32)-1`. -/
def syscallCase (num : U32) : Option Syscall :=
  [.sysExit, .sysGetpid, .sysWrite, .sysSleep, .sysRead, .sysSpawn, .sysOpen,
    .sysClose, .sysLseek, .sysStat, .sysAccess, .sysGetdents, .sysUname,
    .sysGettime, .sysBrk, .sysGetuid, .sysGetgid, .sysGetppid, .sysVfork,
    .sysExec, .sysWait][num.toNat]?

/-- The arguments of `syscall_dispatch`. -/
structure DispatchCall where
  num : U32
  a1 : U64
  a2 : U64
  a3 : U64
  deriving Repr, DecidableEq

/-- `XKERN_EXEC_MAGIC`. -/
def xkernExecMagic : U32 := 0x55550001

/-- What the stub `syscall` asks for with `int $0x80`. -/
def requested (cpu : Cpu) : DispatchCall where
  num := (cpu.regs .rax).setWidth 32
  a1 := cpu.regs .rdi
  a2 := cpu.regs .rsi
  a3 := cpu.regs .rdx

/-- What a function with the prototype of `syscall_dispatch` receives. -/
def received (cpu : Cpu) : DispatchCall where
  num := (cpu.regs .rdi).setWidth 32
  a1 := cpu.regs .rsi
  a2 := cpu.regs .rdx
  a3 := cpu.regs .rcx

/-- `syscall_handler` up to its call; `rsp` after `PUSHALL` is the saved frame. -/
def syscallEntryCode : List Instr :=
  pushAllCode ++ [.load .rdi 8, .load .rsi 9, .load .rdx 12, .load .rcx 14]

/-- `syscall_handler` after its call; `none` is the jump to `.exec_enter`. -/
def syscallReturn (cpu : Cpu) : Option Cpu :=
  let stored := exec cpu (.store 14 .rax)
  if stored.regs .rax = xkernExecMagic.setWidth 64 then
    none
  else
    some (run popAllCode stored)

/--
The gate does what the stub asks for: `syscall_dispatch` runs the case of the
number with the arguments of the stub, and a result other than the magic one
ends up in `rax`, with everything else as it was.
-/
structure SyscallAgrees (cpu : Cpu) (sp : Word) : Prop where
  runs :
    syscallCase (received (run syscallEntryCode (interrupt cpu sp []))).num =
      syscallCase (requested cpu).num
  a1 : (received (run syscallEntryCode (interrupt cpu sp []))).a1 =
    cpu.regs .rdi
  a2 : (received (run syscallEntryCode (interrupt cpu sp []))).a2 =
    cpu.regs .rsi
  a3 : (received (run syscallEntryCode (interrupt cpu sp []))).a3 =
    cpu.regs .rdx
  returns : ∀ (returned : Cpu) (result : U32),
    Call calleeSaved 20 (run syscallEntryCode (interrupt cpu sp [])) returned →
    returned.regs .rax = result.setWidth 64 →
    result ≠ xkernExecMagic →
    ∃ after, syscallReturn returned = some after ∧
      frameOf after = (frameOf cpu).set 14 (result.setWidth 64)

theorem run_syscallEntryCode (cpu : Cpu) :
    let entered := run pushAllCode cpu
    (run syscallEntryCode cpu).stack = entered.stack ∧
      received (run syscallEntryCode cpu) =
        { num := (entered.stack.slot 8).setWidth 32
          a1 := entered.stack.slot 9
          a2 := entered.stack.slot 12
          a3 := entered.stack.slot 14 } := by
  rw [syscallEntryCode, run_append]
  simp [run_cons, exec, received]

theorem slots_syscallEntry (cpu : Cpu) (sp : Word) :
    (range 20).map
        (run syscallEntryCode (interrupt cpu sp [])).stack.slot =
      frameOf cpu := by
  have slots := slots_pushAllCode cpu sp [] (by decide)
  rw [(run_syscallEntryCode _).1]
  simpa [frameOf] using slots

theorem received_syscallEntry (cpu : Cpu) (sp : Word) :
    received (run syscallEntryCode (interrupt cpu sp [])) =
      { num := (cpu.regs .rdi).setWidth 32
        a1 := cpu.regs .rsi
        a2 := cpu.regs .rdx
        a3 := cpu.regs .rax } := by
  have slots := slots_syscallEntry cpu sp
  rw [(run_syscallEntryCode _).1] at slots
  have at8 := Option.some.inj (congrArg (fun words => words[8]?) slots)
  have at9 := Option.some.inj (congrArg (fun words => words[9]?) slots)
  have at12 := Option.some.inj (congrArg (fun words => words[12]?) slots)
  have at14 := Option.some.inj (congrArg (fun words => words[14]?) slots)
  rw [(run_syscallEntryCode _).2, at8, at9, at12, at14]

theorem syscallReturn_frame {cpu returned : Cpu} {sp : Word}
    (called : Call calleeSaved 20
      (run syscallEntryCode (interrupt cpu sp [])) returned)
    {result : U32} (value : returned.regs .rax = result.setWidth 64)
    (ordinary : result ≠ xkernExecMagic) :
    ∃ after, syscallReturn returned = some after ∧
      frameOf after = (frameOf cpu).set 14 (result.setWidth 64) := by
  have notMagic : returned.regs .rax ≠ xkernExecMagic.setWidth 64 := by
    rw [value]
    intro same
    apply ordinary
    bv_omega
  refine ⟨_, if_neg notMagic, ?_⟩
  rw [popAllCode, frameOf_popAll, ← slots_syscallEntry cpu sp]
  have slots : ∀ index ∈ range 20,
      (exec returned (.store 14 .rax)).stack.slot index =
        if index = 14 then result.setWidth 64 else
          (run syscallEntryCode (interrupt cpu sp [])).stack.slot index := by
    intro index member
    have small := mem_range.mp member
    change (returned.stack.setSlot 14 _).slot index = _
    rw [Stack.slot_setSlot _ _ (by decide) (by omega), value, called.slots index small]
  rw [map_congr_left slots]
  rfl

/--
The gate agrees with the stub exactly when all three arguments are equal to
the word in `rax`.
-/
theorem syscallAgrees_iff (cpu : Cpu) (sp : Word) :
    SyscallAgrees cpu sp ↔
      cpu.regs .rdi = cpu.regs .rax ∧ cpu.regs .rsi = cpu.regs .rax ∧
        cpu.regs .rdx = cpu.regs .rax := by
  constructor
  · intro agrees
    have first := agrees.a1
    have second := agrees.a2
    have third := agrees.a3
    rw [received_syscallEntry] at first second third
    dsimp only at first second third
    exact ⟨by rw [← first, ← second, third], by rw [← second, third], third.symm⟩
  · rintro ⟨first, second, third⟩
    refine {
      runs := ?_
      a1 := ?_
      a2 := ?_
      a3 := ?_
      returns := fun returned result called value ordinary =>
        syscallReturn_frame called value ordinary
    }
    · rw [received_syscallEntry, requested, first]
    · rw [received_syscallEntry, first, second]
    · rw [received_syscallEntry, second, third]
    · rw [received_syscallEntry, third]

/-- `sys_write(1, 0x8048100, 5)`. -/
def writeCall : Cpu where
  regs := fun reg =>
    match reg with
    | .rax => 2
    | .rdi => 1
    | .rsi => 0x8048100
    | .rdx => 5
    | _ => 0
  stack := { words := fun _ => 0, sp := 0x181FF0 }
  rip := 0x8048000
  cs := 0x08
  rflags := 0x202
  ss := 0x10
  devices := []

/-- A write to the console runs `SYS_GETPID`. -/
theorem writeCall_runs_getpid :
    syscallCase (requested writeCall).num = some .sysWrite ∧
      syscallCase
          (received (run syscallEntryCode (interrupt writeCall 0x181FF0 []))).num =
        some .sysGetpid ∧
      ¬ SyscallAgrees writeCall 0x181FF0 := by
  have misread := received_syscallEntry writeCall 0x181FF0
  refine ⟨by decide, by rw [misread]; decide, ?_⟩
  intro agrees
  have runs := agrees.runs
  rw [misread] at runs
  exact absurd runs (by decide)

/-! ## Page faults -/

/-- `exc14_handler` up to its call of `exc_page_fault`. -/
def exc14EntryCode (cr2 : Word) : List Instr :=
  pushAllCode ++ [.load .rdi 15, .mov .rsi cr2, .moveSp (-8)]

/-- `exc14_handler` after the call. -/
def exc14ExitCode : List Instr :=
  .moveSp 16 :: popAllCode

/--
The handler is transparent: it reports the interrupted address and `cr2`, and
whatever the C function does within its rights, the interrupted code goes on
with its registers.
-/
structure FaultTransparent (cpu : Cpu) (sp code cr2 : Word) : Prop where
  reportsRip : (run (exc14EntryCode cr2) (interrupt cpu sp [code])).regs .rdi =
    cpu.rip
  reportsCr2 : (run (exc14EntryCode cr2) (interrupt cpu sp [code])).regs .rsi =
    cr2
  resumes : ∀ returned,
    Call calleeSaved 22 (run (exc14EntryCode cr2) (interrupt cpu sp [code]))
      returned →
    frameOf (run exc14ExitCode returned) = frameOf cpu

theorem run_exc14EntryCode (cpu : Cpu) (cr2 : Word) :
    let entered := run pushAllCode cpu
    let calling := run (exc14EntryCode cr2) cpu
    calling.regs .rdi = entered.stack.slot 15 ∧ calling.regs .rsi = cr2 ∧
      ∀ index, calling.stack.slot (index + 1) = entered.stack.slot index := by
  intro entered calling
  have whole : calling = run [.load .rdi 15, .mov .rsi cr2, .moveSp (-8)] entered :=
    run_append _ _ cpu
  rw [whole]
  refine ⟨by simp [run_cons, exec], by simp [run_cons, exec], ?_⟩
  intro index
  have address : entered.stack.sp + -8 + BitVec.ofNat 64 (8 * (index + 1)) =
      entered.stack.sp + BitVec.ofNat 64 (8 * index) := by
    rw [mul_add, BitVec.ofNat_add]
    bv_omega
  simp only [run_cons, run_nil, exec, Stack.slot, address]

/-- The error code is taken for the address and popped among the registers. -/
theorem exc14_frame {cpu returned : Cpu} {sp code cr2 : Word}
    (called : Call calleeSaved 22
      (run (exc14EntryCode cr2) (interrupt cpu sp [code])) returned) :
    frameOf (run exc14ExitCode returned) =
      (frameRegs.map cpu.regs).drop 1 ++
        [code, cpu.rip, cpu.cs, cpu.rflags, cpu.stack.sp, cpu.ss] := by
  have slots := slots_pushAllCode cpu sp [code] le_rfl
  obtain ⟨_, _, padded⟩ := run_exc14EntryCode (interrupt cpu sp [code]) cr2
  have moved : (exec returned (.moveSp 16)).stack = returned.stack.drop 2 := rfl
  have shifted : ∀ index ∈ range 20,
      (exec returned (.moveSp 16)).stack.slot index =
        (run pushAllCode (interrupt cpu sp [code])).stack.slot (1 + index) := by
    intro index member
    have small := mem_range.mp member
    rw [moved, Stack.slot_drop, called.slots _ (by omega),
      show 2 + index = 1 + index + 1 by omega, padded]
  rw [exc14ExitCode, run_cons, popAllCode, frameOf_popAll, map_congr_left shifted]
  have tail := congrArg (drop 1) slots
  exact tail

/--
The handler is transparent exactly when the interrupted address and all fifteen
registers are equal to the error code.
-/
theorem faultTransparent_iff (cpu : Cpu) (sp code cr2 : Word) :
    FaultTransparent cpu sp code cr2 ↔ cpu.rip = code ∧ ∀ reg, cpu.regs reg = code := by
  have slots := slots_pushAllCode cpu sp [code] le_rfl
  have sixteenth := Option.some.inj (congrArg (fun words => words[15]?) slots)
  obtain ⟨first, second, _⟩ := run_exc14EntryCode (interrupt cpu sp [code]) cr2
  constructor
  · intro transparent
    have sameRip : code = cpu.rip := by
      rw [← transparent.reportsRip, first]
      exact sixteenth.symm
    have frame := transparent.resumes _ (.refl _ _ _)
    rw [exc14_frame (.refl _ _ _)] at frame
    -- Each register is the next one popped, and the last is the error code.
    simp only [frameOf, frameRegs, map_cons, map_nil, drop_one,
      tail_cons, cons_append, nil_append, cons.injEq]
      at frame
    refine ⟨sameRip.symm, ?_⟩
    intro reg
    cases reg <;> simp_all
  · rintro ⟨sameRip, sameRegs⟩
    refine ⟨?_, second, ?_⟩
    · rw [first, sameRip]
      exact sixteenth
    · intro returned called
      rw [exc14_frame called]
      simp [frameOf, frameRegs, sameRegs]

/-- A user program touches an unmapped page with 7 in `rax`. -/
def faultingCpu : Cpu where
  regs := fun reg => if reg = .rax then 7 else 0
  stack := { words := fun _ => 0, sp := 0x181FF0 }
  rip := 0x8048000
  cs := 0x08
  rflags := 0x202
  ss := 0x10
  devices := []

/-- The handler reports address 6 and resumes with the 7 in `rcx`. -/
theorem faultingCpu_not_resumed :
    (run (exc14EntryCode 0x10000) (interrupt faultingCpu 0x181FF0 [6])).regs .rdi =
        6 ∧
      (∀ returned,
        Call calleeSaved 22
          (run (exc14EntryCode 0x10000) (interrupt faultingCpu 0x181FF0 [6]))
          returned →
        (frameOf (run exc14ExitCode returned))[13]? = some 7) ∧
      ¬ FaultTransparent faultingCpu 0x181FF0 6 0x10000 := by
  have slots := slots_pushAllCode faultingCpu 0x181FF0 [6] le_rfl
  have sixteenth := Option.some.inj (congrArg (fun words => words[15]?) slots)
  have first := (run_exc14EntryCode (interrupt faultingCpu 0x181FF0 [6]) 0x10000).1
  refine ⟨first.trans sixteenth, ?_, ?_⟩
  · intro returned called
    rw [exc14_frame called]
    rfl
  · intro transparent
    have reported := transparent.reportsRip
    rw [first.trans sixteenth] at reported
    exact absurd reported (by decide)

end XKern
