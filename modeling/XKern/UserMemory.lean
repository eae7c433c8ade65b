import XKern.FaultTriple
import XKern.PagingClone

namespace XKern

/-!
# Filling an address space

The steps from which the ELF loader and the argument builder are made: map a
new frame, store through the tables of the active space, and switch CR3 for
the duration of a call.  A call that stops at a fault leaves the machine as it
is at that point, since the exception stubs only return to the faulting
instruction.
-/

/-- How a program may stop. -/
inductive Fault
  | outsideImage
  | pageFault
  | endlessLoop
  deriving Repr, DecidableEq

/-- Programs of memory management. -/
abbrev KernelM := EStateM Fault Machine

/-- `paging_alloc_and_map`: the new frame, or zero. -/
def pagingAllocAndMap (va : U64) (flags : U32) (machine : Machine) :
    U64 × Machine :=
  match pmmAlloc machine.pmm with
  | (phys, pmm) =>
      if phys = 0 then
        (0, { machine with pmm })
      else
        (phys, pagingMapPage va phys flags { machine with pmm })

/-- A model of `paging_alloc_and_map` as a program. -/
abbrev AllocAndMap := U64 → U32 → KernelM U64

/-- `paging_alloc_and_map` with its edits on physical memory, which cannot fault. -/
def allocAndMap : AllocAndMap :=
  fun va flags => modifyGet (pagingAllocAndMap va flags)

/--
`for (; v < end; v += PAGE_SIZE) if (!paging_alloc_and_map(v, flags)) ...`:
whether all pages got a frame.
-/
def mapPages (alloc : AllocAndMap) (flags : U32) (stop : U64) : Nat → U64 → KernelM Bool
  | 0, _ => throw .endlessLoop
  | fuel + 1, v =>
      if v < stop then do
        let phys ← alloc v flags
        if phys = 0 then
          return false
        else
          mapPages alloc flags stop fuel (v + pageSize)
      else
        return true

/-- Store a byte in its word. -/
def Memory.writeByte (memory : Memory) (phys : U64) (byte : U8) : Memory :=
  let lane := 8 * (phys &&& 7).toNat
  let word := memory (ptPtr phys) (tableIndex 3 phys)
  memory.write (ptPtr phys) (tableIndex 3 phys)
    ((word &&& ~~~((0xFF : U64) <<< lane)) ||| (byte.setWidth 64 <<< lane))

/-- A store through the active tables. -/
def storeVirt (write : Memory → U64 → Memory) (va : U64) : KernelM Unit := do
  let machine ← get
  match walk machine.memory machine.cr3 va with
  | none => throw .pageFault
  | some translation =>
      set { machine with memory := write machine.memory translation.phys }

theorem storeVirt_eq (write : Memory → U64 → Memory) (va : U64) (machine : Machine) :
    storeVirt write va machine = match walk machine.memory machine.cr3 va with
      | none => .error .pageFault machine
      | some translation =>
        .ok () { machine with
          memory := write machine.memory translation.phys } := by
  change (match walk machine.memory machine.cr3 va with
    | none => throw .pageFault
    | some translation =>
      set { machine with memory := write machine.memory translation.phys } :
      KernelM Unit) machine = _
  cases walk machine.memory machine.cr3 va <;> rfl

def storeByte (va : U64) (byte : U8) : KernelM Unit :=
  storeVirt (fun memory phys => memory.writeByte phys byte) va

def storeWord (va word : U64) : KernelM Unit :=
  storeVirt
    (fun memory phys => memory.write (ptPtr phys) (tableIndex 3 phys) word) va

/-- Store half a word. -/
def Memory.writeHalf (memory : Memory) (phys : U64) (half : U32) : Memory :=
  let lane := 8 * (phys &&& 4).toNat
  let word := memory (ptPtr phys) (tableIndex 3 phys)
  memory.write (ptPtr phys) (tableIndex 3 phys)
    ((word &&& ~~~((0xFFFFFFFF : U64) <<< lane)) ||| (half.setWidth 64 <<< lane))

/-- Stores of consecutive bytes. -/
def storeBytes : List U8 → U64 → KernelM Unit
  | [], _ => return ()
  | byte :: bytes, va => do
      storeByte va byte
      storeBytes bytes (va + 1)

theorem add_ofNat_succ (va : U64) (k : Nat) :
    va + .ofNat 64 (k + 1) = va + 1 + .ofNat 64 k := by
  rw [Nat.add_comm, BitVec.ofNat_add, ← BitVec.add_assoc]
  rfl

/-! ## The accesses of `memcpy` and `memset` -/

/-- `unsigned char`, `u32` and `u64`. -/
inductive AccessWidth
  | byte
  | half
  | word
  deriving Repr, DecidableEq

namespace AccessWidth

def size : AccessWidth → Nat
  | .byte => 1
  | .half => 4
  | .word => 8

/-- The store of an access. -/
def write (value : U64) (memory : Memory) (phys : U64) : AccessWidth → Memory
  | .byte => memory.writeByte phys (value.setWidth 8)
  | .half => memory.writeHalf phys (value.setWidth 32)
  | .word => memory.write (ptPtr phys) (tableIndex 3 phys) value

/-- `*p = value`, with one translation: an aligned access lies in one page. -/
def store (va value : U64) (width : AccessWidth) : KernelM Unit :=
  storeVirt (fun memory phys => width.write value memory phys) va

/-- The bytes that a sequence of accesses covers. -/
def total (widths : List AccessWidth) : Nat :=
  (widths.map size).sum

end AccessWidth

/-- Words as long as both pointers are aligned, then `u32`s likewise, then bytes. -/
def memcpyWidths (d s : U64) (n : Nat) : List AccessWidth :=
  let words := if (d ||| s) &&& 7 = 0 then n / 8 else 0
  let left := n - 8 * words
  let halves := if (d ||| s) &&& 3 = 0 then left / 4 else 0
  .replicate words .word ++ .replicate halves .half ++ .replicate (left - 4 * halves) .byte

/-- `u32`s if the pointer is aligned, then bytes. -/
def memsetWidths (p : U64) (n : Nat) : List AccessWidth :=
  let halves := if p &&& 3 = 0 then n / 4 else 0
  .replicate halves .half ++ .replicate (n - 4 * halves) .byte

/-- Accesses one after the other, each with a load before its store. -/
def moveAccesses (load : U64 → Nat → KernelM U64) : List AccessWidth → U64 → U64 → KernelM Unit
  | [], _, _ => return ()
  | width :: rest, va, offset => do
      let value ← load offset width.size
      width.store va value
      moveAccesses load rest (va + .ofNat 64 width.size) (offset + .ofNat 64 width.size)

/-- `memset(p, 0, n)`. -/
def memsetZero (p : U64) (n : Nat) : KernelM Unit :=
  moveAccesses (fun _ _ => return 0) (memsetWidths p n) p 0

section Accesses

open AccessWidth

@[simp] theorem total_nil : total [] = 0 := rfl

@[simp] theorem total_cons (width : AccessWidth) (rest : List AccessWidth) :
    total (width :: rest) = width.size + total rest :=
  rfl

@[simp] theorem total_append (first second : List AccessWidth) :
    total (first ++ second) = total first + total second := by
  rw [total, List.map_append, List.sum_append]
  rfl

@[simp] theorem total_replicate (count : Nat) (width : AccessWidth) :
    total (.replicate count width) = count * width.size := by
  rw [total, List.map_replicate, List.sum_replicate, smul_eq_mul]

theorem total_memcpyWidths (d s : U64) (n : Nat) : total (memcpyWidths d s n) = n := by
  simp only [memcpyWidths, total_append, total_replicate, size]
  split <;> split <;> omega

theorem total_memsetWidths (p : U64) (n : Nat) : total (memsetWidths p n) = n := by
  simp only [memsetWidths, total_append, total_replicate, size]
  split <;> omega

theorem add_ofNat_add (va : U64) (first second : Nat) :
    va + .ofNat 64 (first + second) = va + .ofNat 64 first + .ofNat 64 second := by
  rw [BitVec.ofNat_add, BitVec.add_assoc]

/-- An access changes one page. -/
theorem AccessWidth.write_other_page (width : AccessWidth) (value : U64) (memory : Memory)
    {phys other : U64} (different : other ≠ ptPtr phys) :
    width.write value memory phys other = memory other := by
  funext index
  cases width <;> exact Memory.write_other_page _ _ _ _ different

end Accesses

/-- Run a program with another CR3. -/
def withCr3 {Value : Type} (cr3 : U64) (program : KernelM Value) :
    KernelM Value := do
  let oldCr3 := (← get).cr3
  modify (pagingLoadCr3 cr3)
  let value ← program
  modify (pagingLoadCr3 oldCr3)
  return value

theorem withCr3_eq {Value : Type} (cr3 : U64) (program : KernelM Value) (machine : Machine) :
    withCr3 cr3 program machine =
      match program (pagingLoadCr3 cr3 machine) with
      | .ok value after => .ok value (pagingLoadCr3 machine.cr3 after)
      | .error fault after => .error fault after := by
  change EStateM.bind program _ _ = _
  rw [EStateM.bind]
  cases program (pagingLoadCr3 cr3 machine) <;> rfl

end XKern
