import Mathlib.Data.BitVec
import Mathlib.Data.List.GetD
import Mathlib.Data.List.Nodup

namespace XKern.StackCpu

open List BitVec Function

/-!
# A processor with a downward stack

Words are pushed below the stack pointer and popped from it.  The code blocks
considered here only move words between the stack and registers, write to
devices and transfer control at their end.  All stack accesses of a block are
a multiple of eight bytes apart, so memory is a function from word addresses.
-/

abbrev Word := BitVec 64

/-- The general registers besides `rsp`. -/
inductive Reg
  | rax | rcx | rdx | rbx | rbp | rsi | rdi
  | r8 | r9 | r10 | r11 | r12 | r13 | r14 | r15
  deriving Repr, DecidableEq

/-- A store to a device. -/
inductive DeviceWrite
  | mmio (address value : Word)
  | port (port : BitVec 16) (value : BitVec 8)
  deriving Repr, DecidableEq

/-- Memory and the stack pointer. -/
structure Stack where
  words : Word → Word
  sp : Word

namespace Stack

/-- `push`, and a store through a pointer that is decremented first. -/
def push (stack : Stack) (word : Word) : Stack where
  words := fun address =>
    if address = stack.sp - 8 then word else stack.words address
  sp := stack.sp - 8

def pushAll (stack : Stack) (words : List Word) : Stack :=
  words.foldl push stack

/-- The word that `index` pops uncover. -/
def slot (stack : Stack) (index : Nat) : Word :=
  stack.words (stack.sp + .ofNat 64 (8 * index))

/-- Move the stack pointer past `count` words. -/
def drop (stack : Stack) (count : Nat) : Stack :=
  { stack with sp := stack.sp + .ofNat 64 (8 * count) }

/-- Replace the word that `index` pops uncover. -/
def setSlot (stack : Stack) (index : Nat) (word : Word) : Stack :=
  { stack with
    words := update stack.words
      (stack.sp + .ofNat 64 (8 * index)) word }

theorem drop_drop (stack : Stack) (first second : Nat) :
    (stack.drop first).drop second = stack.drop (first + second) := by
  simp only [drop, Nat.mul_add, ofNat_add, BitVec.add_assoc]

theorem slot_drop (stack : Stack) (count index : Nat) :
    (stack.drop count).slot index = stack.slot (count + index) := by
  simp only [slot, drop, Nat.mul_add, ofNat_add, BitVec.add_assoc]

@[simp] theorem slot_push_zero (stack : Stack) (word : Word) :
    (stack.push word).slot 0 = word := by
  simp [slot, push]

theorem slot_setSlot (stack : Stack) (word : Word) {index other : Nat} (bound : index < 2 ^ 61)
    (otherBound : other < 2 ^ 61) :
    (stack.setSlot index word).slot other = if other = index then word else stack.slot other := by
  simp only [slot, setSlot, update_apply]
  by_cases same : other = index
  · rw [if_pos same, same, if_pos rfl]
  · have apart : stack.sp + .ofNat 64 (8 * other) ≠
        stack.sp + .ofNat 64 (8 * index) := by
      bv_omega
    rw [if_neg same, if_neg apart]

theorem slot_push_succ (stack : Stack) (word : Word) {index : Nat} (bound : index + 1 < 2 ^ 61) :
    (stack.push word).slot (index + 1) = stack.slot index := by
  have address : stack.sp - 8 + .ofNat 64 (8 * (index + 1)) =
      stack.sp + .ofNat 64 (8 * index) := by
    bv_omega
  have different : stack.sp + .ofNat 64 (8 * index) ≠ stack.sp - 8 := by
    bv_omega
  simp only [slot, push, address]
  rw [if_neg different]

theorem pushAll_append (stack : Stack) (first second : List Word) :
    stack.pushAll (first ++ second) = (stack.pushAll first).pushAll second :=
  foldl_append

theorem sp_pushAll (stack : Stack) (words : List Word) :
    (stack.pushAll words).sp = stack.sp - .ofNat 64 (8 * words.length) := by
  induction words using reverseRecOn with
  | nil =>
    simp [pushAll]
  | append_singleton words word ih =>
    rw [pushAll_append]
    change (stack.pushAll words).sp - 8 = _
    rw [ih, length_append, length_singleton, Nat.mul_add, ofNat_add]
    bv_omega

theorem slot_pushAll (stack : Stack) (words : List Word) {index : Nat} (bound : index < 2 ^ 61) :
    (stack.pushAll words).slot index =
      words.reverse.getD index (stack.slot (index - words.length)) := by
  induction words using reverseRecOn generalizing index with
  | nil =>
    simp [pushAll]
  | append_singleton words word ih =>
    rw [pushAll_append]
    change ((stack.pushAll words).push word).slot index = _
    cases index with
    | zero =>
      simp
    | succ index =>
      rw [slot_push_succ _ _ bound, ih (by omega)]
      simp [Nat.add_sub_add_right]

theorem slots_pushAll (stack : Stack) {words : List Word} (bound : words.length ≤ 2 ^ 61) :
    (range words.length).map (stack.pushAll words).slot = words.reverse := by
  apply ext_getElem (by simp)
  intro index inRange inWords
  rw [length_reverse] at inWords
  rw [getElem_map, getElem_range, slot_pushAll _ _ (by omega), getD_eq_getElem]

/-- Push words that are read through a pointer just before each push. -/
def pushCopies (stack : Stack) (source : Word) (indices : List Nat) : Stack :=
  indices.foldl
    (fun current index =>
      current.push (current.words (source + .ofNat 64 (8 * index))))
    stack

theorem words_pushAll (stack : Stack) (words : List Word) {address : Word}
    (apart : ∀ k < words.length, address ≠ stack.sp - .ofNat 64 (8 * (k + 1))) :
    (stack.pushAll words).words address = stack.words address := by
  induction words using reverseRecOn with
  | nil =>
    rfl
  | append_singleton words word ih =>
    rw [length_append, length_singleton] at apart
    have different : address ≠ (stack.pushAll words).sp - 8 := by
      have last := apart words.length (by omega)
      rw [sp_pushAll]
      rw [Nat.mul_add, ofNat_add] at last
      bv_omega
    rw [pushAll_append]
    change (if address = (stack.pushAll words).sp - 8 then word
      else (stack.pushAll words).words address) = _
    rw [if_neg different]
    exact ih fun k small => apart k (by omega)

/-- Copies from words apart from the pushed ones are copies of the old words. -/
theorem pushCopies_eq (stack : Stack) (pushed : List Word) (source : Word) (indices : List Nat)
    (apart : ∀ index ∈ indices, ∀ k < pushed.length + indices.length,
      source + .ofNat 64 (8 * index) ≠ stack.sp - .ofNat 64 (8 * (k + 1))) :
    (stack.pushAll pushed).pushCopies source indices =
      stack.pushAll (pushed ++ indices.map fun index =>
        stack.words (source + .ofNat 64 (8 * index))) := by
  induction indices generalizing pushed with
  | nil =>
    simp [pushCopies]
  | cons index indices ih =>
    have unchanged := stack.words_pushAll pushed fun k small =>
      apart index mem_cons_self k (by omega)
    have later := ih
      (pushed ++ [stack.words (source + .ofNat 64 (8 * index))])
      (by
        intro other member k small
        apply apart other (mem_cons_of_mem _ member)
        simp only [length_append, length_cons, length_nil] at small ⊢
        omega)
    rw [List.append_assoc, singleton_append] at later
    rw [map_cons, ← later, pushAll_append]
    change ((stack.pushAll pushed).push
      ((stack.pushAll pushed).words _)).pushCopies source indices = _
    rw [unchanged]
    rfl

end Stack

/-- The state of the processor. -/
structure Cpu where
  regs : Reg → Word
  stack : Stack
  rip : Word
  cs : Word
  rflags : Word
  ss : Word
  devices : List DeviceWrite

/-- The instructions of the stubs. -/
inductive Instr
  | push (reg : Reg)
  | pop (reg : Reg)
  | movLow (reg : Reg) (byte : BitVec 8)
  /-- A move of a value that is not in a general register. -/
  | mov (reg : Reg) (value : Word)
  /-- `mov reg, [rsp + 8*index]`. -/
  | load (reg : Reg) (index : Nat)
  /-- `mov [rsp + 8*index], reg`. -/
  | store (index : Nat) (reg : Reg)
  /-- `add rsp, bytes`. -/
  | moveSp (bytes : Word)
  | storeDevice (address value : Word)
  | out (port : BitVec 16) (reg : Reg)
  | ret
  | iretq
  deriving Repr, DecidableEq

/-- The effect of one instruction; `rip` is tracked at control transfers only. -/
def exec (cpu : Cpu) : Instr → Cpu
  | .push reg => { cpu with stack := cpu.stack.push (cpu.regs reg) }
  | .pop reg =>
      { cpu with
        regs := update cpu.regs reg (cpu.stack.slot 0)
        stack := cpu.stack.drop 1 }
  | .movLow reg byte =>
      { cpu with
        regs := update cpu.regs reg
          ((cpu.regs reg &&& ~~~(0xFF : Word)) ||| byte.setWidth 64) }
  | .mov reg value =>
      { cpu with regs := update cpu.regs reg value }
  | .load reg index =>
      { cpu with regs := update cpu.regs reg (cpu.stack.slot index) }
  | .store index reg =>
      { cpu with stack := cpu.stack.setSlot index (cpu.regs reg) }
  | .moveSp bytes =>
      { cpu with stack := { cpu.stack with sp := cpu.stack.sp + bytes } }
  | .storeDevice address value =>
      { cpu with devices := cpu.devices ++ [.mmio address value] }
  | .out port reg =>
      { cpu with
        devices := cpu.devices ++ [.port port ((cpu.regs reg).setWidth 8)] }
  | .ret => { cpu with rip := cpu.stack.slot 0, stack := cpu.stack.drop 1 }
  | .iretq =>
      { cpu with
        rip := cpu.stack.slot 0
        cs := cpu.stack.slot 1
        rflags := cpu.stack.slot 2
        stack := { cpu.stack with sp := cpu.stack.slot 3 }
        ss := cpu.stack.slot 4 }

def run (code : List Instr) (cpu : Cpu) : Cpu :=
  code.foldl exec cpu

@[simp] theorem run_nil (cpu : Cpu) : run [] cpu = cpu :=
  rfl

theorem run_cons (instr : Instr) (code : List Instr) (cpu : Cpu) :
    run (instr :: code) cpu = run code (exec cpu instr) :=
  rfl

theorem run_append (first second : List Instr) (cpu : Cpu) :
    run (first ++ second) cpu = run second (run first cpu) :=
  foldl_append

theorem run_push (regs : List Reg) (cpu : Cpu) : run (regs.map .push) cpu =
      { cpu with stack := cpu.stack.pushAll (regs.map cpu.regs) } := by
  induction regs generalizing cpu with
  | nil =>
    rfl
  | cons reg regs ih =>
    rw [map_cons, run_cons, ih]
    rfl

/-- The registers after popping `regs`, the first one first. -/
def popped (cpu : Cpu) (regs : List Reg) (reg : Reg) : Word :=
  if reg ∈ regs then cpu.stack.slot (regs.idxOf reg) else cpu.regs reg

theorem run_pop {regs : List Reg} (distinct : regs.Nodup) (cpu : Cpu) : run (regs.map .pop) cpu =
      { cpu with
        regs := popped cpu regs
        stack := cpu.stack.drop regs.length } := by
  induction regs generalizing cpu with
  | nil =>
    have sameRegs : popped cpu [] = cpu.regs := by
      funext reg
      simp [popped]
    simp [sameRegs, Stack.drop]
  | cons first regs ih =>
    have notLater : first ∉ regs := (nodup_cons.mp distinct).1
    rw [map_cons, run_cons, ih (nodup_cons.mp distinct).2]
    have sameRegs : popped (exec cpu (.pop first)) regs = popped cpu (first :: regs) := by
      funext reg
      by_cases isFirst : reg = first
      · subst isFirst
        simp [popped, exec, notLater]
      · have apart : first ≠ reg := fun same => isFirst same.symm
        simp [popped, exec, isFirst, Stack.slot_drop, idxOf_cons_ne _ apart, add_comm]
    rw [sameRegs]
    simp only [exec, Stack.drop_drop, length_cons, add_comm 1]

theorem map_popped {regs : List Reg} (distinct : regs.Nodup) (cpu : Cpu) :
    regs.map (popped cpu regs) = (range regs.length).map cpu.stack.slot := by
  apply ext_getElem (by simp)
  intro index inRegs inRange
  simp only [getElem_map, getElem_range, popped]
  rw [if_pos (getElem_mem _), distinct.idxOf_getElem]

/--
A call that returns under a calling convention: the callee gives back the
registers in `saved`, the stack pointer and the next `words` words above it.
-/
structure Call
    (saved : List Reg)
    (words : Nat)
    (before after : Cpu) : Prop where
  regs : ∀ reg ∈ saved, after.regs reg = before.regs reg
  sp : after.stack.sp = before.stack.sp
  slots : ∀ index < words, after.stack.slot index = before.stack.slot index

theorem Call.refl (saved : List Reg) (words : Nat) (cpu : Cpu) : Call saved words cpu cpu :=
  ⟨fun _ _ => rfl, rfl, fun _ _ => rfl⟩

end XKern.StackCpu
