import XKern.PagingClone

namespace XKern

/-!
# The address translation of the DMA layer

`dma_virt_to_phys` returns addresses below 4 GiB as they are and otherwise
walks the tables with loads through the recursive slot.  Those loads go
through the hardware walk themselves; `none` is a load that faults, from which
the exception stubs only return to the faulting instruction.
-/

/-- The word at a virtual address. -/
def readVirt (machine : Machine) (va : U64) : Option U64 :=
  (walk machine.memory machine.cr3 va).map fun translation =>
    machine.memory (ptPtr translation.phys) (tableIndex 3 translation.phys)

/-- `t[i]` for a virtual table pointer. -/
def readEntry (machine : Machine) (table : U64) (index : Fin 512) :
    Option U64 :=
  readVirt machine (table + .ofNat 64 (8 * index.val))

/-- `rec_pml4`, without the sign extension that `recva` does. -/
def recPml4 : U64 :=
  ((511 : U64) <<< 39) ||| ((511 : U64) <<< 30) ||| ((511 : U64) <<< 21) |||
    ((511 : U64) <<< 12)

/-- `internal_virt_to_phys`. -/
def internalVirtToPhys (machine : Machine) (va : U64) : Option U64 :=
  if va < 0x100000000 then
    some va
  else do
    let a := pml4Index va
    let b := pdptIndex va
    let d := ptIndex va
    let pml4e ← readEntry machine recPml4 511
    if ¬ Present pml4e then
      return 0
    let pdpte ← readEntry machine (pml4e &&& ~~~ptFlagMask) a
    if ¬ Present pdpte then
      return 0
    let pde ← readEntry machine (pdpte &&& ~~~ptFlagMask) b
    if ¬ Present pde then
      return 0
    if pde &&& 0x080 ≠ 0 then
      return (pde &&& ~~~(((1 : U64) <<< 21) - 1)) |||
        (va &&& (((1 : U64) <<< 21) - 1))
    let pte ← readEntry machine (pde &&& ~~~ptFlagMask) d
    if ¬ Present pte then
      return 0
    return (pte &&& ~~~ptFlagMask) ||| (va &&& ptFlagMask)

/-- `dma_virt_to_phys`. -/
def dmaVirtToPhys (machine : Machine) (va : U64) : Option U64 :=
  internalVirtToPhys machine va

def bootedMachine (image : BootImage) (rest : Memory) (pmm : Pmm) : Machine :=
  pagingInit { pmm, memory := bootMemory image rest, cr3 := image.pml4 }

theorem readVirt_noncanonical (machine : Machine) {va : U64} (noncanonical : ¬ Canonical va) :
    readVirt machine va = none := by
  rw [readVirt, walk, if_neg noncanonical, Option.map_none]

theorem readEntry_recPml4 (machine : Machine) : readEntry machine recPml4 511 = none :=
  readVirt_noncanonical machine (by decide)

theorem dmaVirtToPhys_low (machine : Machine) {va : U64} (low : va < 0x100000000) :
    dmaVirtToPhys machine va = some va := by
  rw [dmaVirtToPhys, internalVirtToPhys, if_pos low]

theorem dmaVirtToPhys_high (machine : Machine) {va : U64} (high : ¬ va < 0x100000000) :
    dmaVirtToPhys machine va = none := by
  rw [dmaVirtToPhys, internalVirtToPhys, if_neg high]
  simp [readEntry_recPml4]

/--
After any sequence of mappings the two translations of an address in a 4 KiB
page agree exactly when the address is below 4 GiB and mapped to itself, and
an unmapped address at or above 4 GiB never gives zero.
-/
theorem dmaVirtToPhys_agrees_iff (image : BootImage) (rest : Memory) (pmm : Pmm)
    (calls : List MapCall) (va : U64) :
    let machine := pagingMapPages calls (bootedMachine image rest pmm)
    (∀ translation,
      walk machine.memory machine.cr3 va = some translation →
      translation.pageBits = 12 →
      (dmaVirtToPhys machine va = some translation.phys ↔
        va < 0x100000000 ∧ translation.phys = va)) ∧
      (walk machine.memory machine.cr3 va = none → ¬ va < 0x100000000 →
        dmaVirtToPhys machine va ≠ some 0) := by
  intro machine
  constructor
  · intro translation _ _
    by_cases low : va < 0x100000000
    · rw [dmaVirtToPhys_low machine low, Option.some.injEq]
      exact ⟨fun same => ⟨low, same.symm⟩, fun identity => identity.2.symm⟩
    · rw [dmaVirtToPhys_high machine low]
      exact ⟨nofun, fun identity => (low identity.1).elim⟩
  · intro _ high
    rw [dmaVirtToPhys_high machine high]
    exact nofun

def samplePmm : Pmm :=
  ⟨[0x900000, 0x901000, 0x902000, 0x903000, 0x904000, 0x905000], 0, by decide⟩

/--
A page at 4 GiB and a remapped page at 4 MiB: the tables map both to 0xE0000000,
but the DMA layer faults on the first and returns the second unchanged.  For
the unmapped address 8 GiB it faults instead of returning zero.
-/
theorem dmaVirtToPhys_disagrees :
    let calls : List MapCall :=
      [⟨0x100000000, 0xE0000000, 0x3⟩, ⟨0x400000, 0xE0000000, 0x3⟩]
    let machine := pagingMapPages calls (bootedMachine sampleImage (fun _ _ => 0) samplePmm)
    (walk machine.memory machine.cr3 0x100000008).map
        (fun translation => (translation.phys, translation.pageBits)) =
      some (0xE0000008, 12) ∧
    dmaVirtToPhys machine 0x100000008 = none ∧
    (walk machine.memory machine.cr3 0x400008).map
        (fun translation => (translation.phys, translation.pageBits)) =
      some (0xE0000008, 12) ∧
    dmaVirtToPhys machine 0x400008 = some 0x400008 ∧
    walk machine.memory machine.cr3 0x200000000 = none ∧
    dmaVirtToPhys machine 0x200000000 = none := by
  refine ⟨?_, ?_, ?_, ?_, ?_, ?_⟩
  · decide
  · exact dmaVirtToPhys_high _ (by decide)
  · decide
  · exact dmaVirtToPhys_low _ (by decide)
  · decide
  · exact dmaVirtToPhys_high _ (by decide)

end XKern
