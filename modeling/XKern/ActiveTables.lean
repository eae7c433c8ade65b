import XKern.UserMemory

namespace XKern

open RadixStore FaultTriple List

/-!
# Page tables through the active mapping

`pt_ptr` turns the physical address of a table into a pointer, and the processor
translates that pointer like any other one.  The definitions in `Active` are
those of `paging.c` with every load and store of an entry made through the
tables of the active space.  An address that these do not map is a page fault,
and one that they map elsewhere reads and writes another frame.
-/

namespace Active

/-- `t[index]`. -/
def loadEntry (t : U64) (index : Fin 512) : KernelM U64 := do
  let machine ← get
  match walk machine.memory machine.cr3 (Memory.wordAddress t index) with
  | none => throw .pageFault
  | some translation =>
      return machine.memory (ptPtr translation.phys) (tableIndex 3 translation.phys)

/-- `t[index] = word`. -/
def storeEntry (t : U64) (index : Fin 512) (word : U64) : KernelM Unit :=
  storeWord (Memory.wordAddress t index) word

/-- `for (i ...) t[i] = word(i)` over the given indices. -/
def storeEntries (t : U64) (word : Fin 512 → KernelM U64) : List (Fin 512) → KernelM Unit
  | [] => return ()
  | i :: rest => do
      let entry ← word i
      storeEntry t i entry
      storeEntries t word rest

/-- `pmm_alloc`. -/
def allocFrame : KernelM U64 :=
  modifyGet fun machine => ((pmmAlloc machine.pmm).1,
    { machine with pmm := (pmmAlloc machine.pmm).2 })

/-- `zero_page_table`. -/
def zeroPageTable (phys : U64) : KernelM Unit :=
  storeEntries (ptPtr phys) (fun _ => return 0) (finRange 512)

/-- An allocation branch of `paging_map_page`; `false` is its early `return`. -/
def newTable (table : U64) (index : Fin 512) : KernelM Bool := do
  let t ← allocFrame
  if t = 0 then
    return false
  else do
    zeroPageTable t
    storeEntry table index (t ||| pagePresent ||| pageWrite)
    return true

/-- The split branch of `paging_map_page`. -/
def splitLeaf (table : U64) (index : Fin 512) (flags : U32) : KernelM Bool := do
  let t ← allocFrame
  let leaf ← loadEntry table index
  if t = 0 then
    return false
  else do
    zeroPageTable t
    storeEntries (ptPtr t) (fun i => return splitEntry leaf flags i) (finRange 512)
    storeEntry table index
      (t ||| pagePresent ||| pageWrite ||| (leafFlags leaf &&& ~~~pagePresent))
    return true

/-- A level of the walk: a missing table is made. -/
def ensureTable (table : U64) (index : Fin 512) : KernelM Bool := do
  let entry ← loadEntry table index
  if Present entry then
    return true
  else
    newTable table index

/-- The third level: a missing table is allocated and a 2 MiB leaf is split. -/
def ensurePageTable (table : U64) (index : Fin 512) (flags : U32) : KernelM Bool := do
  let entry ← loadEntry table index
  if ¬ Present entry then
    newTable table index
  else if IsLarge entry then
    splitLeaf table index flags
  else
    return true

/-- `paging_map_page`. -/
def pagingMapPage (virtualAddr physicalAddr : U64) (flags : U32) : KernelM Unit := do
  let a := pml4Index virtualAddr
  let b := pdptIndex virtualAddr
  let c := pdIndex virtualAddr
  let d := ptIndex virtualAddr
  let pml4 := ptPtr (← get).cr3
  if !(← ensureTable pml4 a) then
    return ()
  else do
    let pdpt := ptPtr (← loadEntry pml4 a)
    if !(← ensureTable pdpt b) then
      return ()
    else do
      let pd := ptPtr (← loadEntry pdpt b)
      if !(← ensurePageTable pd c flags) then
        return ()
      else do
        let pt := ptPtr (← loadEntry pd c)
        storeEntry pt d (leafEntry physicalAddr flags)

/-- A sequence of `paging_map_page` calls. -/
def pagingMapPages : List MapCall → KernelM Unit
  | [] => return ()
  | call :: calls => do
      pagingMapPage call.virtualAddr call.physicalAddr call.flags
      pagingMapPages calls

/-- `paging_alloc_and_map`: the new frame, or zero. -/
def pagingAllocAndMap : AllocAndMap :=
  fun va flags => do
    let phys ← allocFrame
    if phys = 0 then
      return 0
    else do
      pagingMapPage va phys flags
      return phys

/-- `paging_clone_pd`: the new PML4, or zero. -/
def pagingClonePd : KernelM U64 := do
  let newPml4 ← allocFrame
  if newPml4 = 0 then
    return 0
  else do
    let dst := ptPtr newPml4
    let src := ptPtr (← get).cr3
    zeroPageTable newPml4
    storeEntries dst (loadEntry src) ((finRange 512).filter fun i => 256 ≤ i.val ∧ i.val < 511)
    storeEntry dst 0 (← loadEntry src 0)
    storeEntry dst 511 (newPml4 ||| pagePresent ||| pageWrite)
    return newPml4

/-- `paging_vfork_clone`: the new PML4, or zero. -/
def pagingVforkClone : KernelM U64 := do
  let newPml4 ← allocFrame
  if newPml4 = 0 then
    return 0
  else do
    let src := ptPtr (← get).cr3
    let dst := ptPtr newPml4
    storeEntries dst (loadEntry src) ((finRange 512).filter fun i => i.val < 511)
    storeEntry dst 511 (newPml4 ||| pagePresent ||| pageWrite)
    return newPml4

end Active

/-! ## The frame behind a page -/

/-- The words of the page `t` are those of the frame `target` under the tables of `root`. -/
def LeadsTo (memory : Memory) (root t target : U64) : Prop :=
  ∀ index, ∃ translation,
    walk memory root (Memory.wordAddress t index) = some translation ∧
      ptPtr translation.phys = target ∧ tableIndex 3 translation.phys = index

/-- Memory after the words at `indices` of a page have been written. -/
def Memory.fillAt (memory : Memory) (page : U64) (indices : List (Fin 512))
    (words : Fin 512 → U64) : Memory :=
  fun otherPage index =>
    if otherPage = page ∧ index ∈ indices then words index else memory otherPage index

section WordAddress

variable {t : U64}

theorem toNat_wordAddress (isTable : IsTable t) (index : Fin 512) :
    (Memory.wordAddress t index).toNat = t.toNat + 8 * index.val := by
  have bounds := (isTable_iff t).mp isTable
  have small := index.isLt
  rw [Memory.wordAddress, BitVec.toNat_add, BitVec.toNat_ofNat]
  omega

theorem toNat_ptPtr (va : U64) : (ptPtr va).toNat = va.toNat / 4096 * 4096 := by
  rw [ptPtr, ptFlagMask_eq_mask, LowBits.toNat_and_not_mask (by decide)]
  omega

/-- The word at an address of a table page is the word of that index. -/
theorem ptPtr_wordAddress (isTable : IsTable t) (index : Fin 512) :
    ptPtr (Memory.wordAddress t index) = t ∧
      tableIndex 3 (Memory.wordAddress t index) = index := by
  have bounds := (isTable_iff t).mp isTable
  have value := toNat_wordAddress isTable index
  have small := index.isLt
  constructor
  · apply BitVec.eq_of_toNat_eq
    rw [toNat_ptPtr, value]
    omega
  · apply Fin.ext
    rw [val_tableIndex, value]
    omega

theorem pml4Index_wordAddress (isTable : IsTable t) (index : Fin 512) :
    pml4Index (Memory.wordAddress t index) = pml4Index t := by
  have bounds := (isTable_iff t).mp isTable
  have value := toNat_wordAddress isTable index
  have small := index.isLt
  apply Fin.ext
  rw [pml4Index, val_tableIndex, val_tableIndex, value]
  omega

end WordAddress

variable {roots : Set U64} {machine later : Machine} {t target : U64}

section Accesses

variable (leads : LeadsTo machine.memory machine.cr3 t target)

include leads

theorem loadEntry_eq (index : Fin 512) :
    Active.loadEntry t index machine = .ok (machine.memory target index) machine := by
  obtain ⟨translation, translated, rfl, isIndex⟩ := leads index
  have unfolded : Active.loadEntry t index machine =
      match walk machine.memory machine.cr3 (Memory.wordAddress t index) with
      | none => .error .pageFault machine
      | some translation =>
        .ok (machine.memory (ptPtr translation.phys) (tableIndex 3 translation.phys)) machine := by
    change (match walk machine.memory machine.cr3 (Memory.wordAddress t index) with
      | none => throw .pageFault
      | some translation =>
        return machine.memory (ptPtr translation.phys) (tableIndex 3 translation.phys) :
        KernelM U64) machine = _
    cases walk machine.memory machine.cr3 (Memory.wordAddress t index) <;> rfl
  rw [unfolded, translated]
  simp only [isIndex]

theorem storeEntry_eq (index : Fin 512) (word : U64) :
    Active.storeEntry t index word machine =
      .ok () { machine with memory := machine.memory.write target index word } := by
  obtain ⟨translation, translated, rfl, isIndex⟩ := leads index
  rw [Active.storeEntry, storeWord, storeVirt_eq, translated]
  simp only [isIndex]

/-- Writing to a page that is no table leaves pages where they are. -/
theorem LeadsTo.dataStep {frame : U64} (step : DataStep frame machine later)
    (wellFormed : WellFormed roots machine) (current : ptPtr machine.cr3 ∈ roots)
    (unreached : Unreached tableLink machine.memory roots frame) (isTable : IsTable t)
    (ordinary : pml4Index t ≠ 511) :
    LeadsTo later.memory later.cr3 t target := by
  intro index
  obtain ⟨translation, translated, place⟩ := leads index
  refine ⟨translation, ?_, place⟩
  rw [step.cr3, ← walk_ptPtr, step.walk_eq wellFormed unreached current
    (by rw [pml4Index_wordAddress isTable]; exact ordinary), walk_ptPtr, translated]

end Accesses

theorem DataStep.refl (frame : U64) (machine : Machine) : DataStep frame machine machine :=
  ⟨rfl, rfl, fun _ _ => rfl⟩

theorem DataStep.write (machine : Machine) (page : U64) (index : Fin 512) (word : U64) :
    DataStep page machine { machine with memory := machine.memory.write page index word } :=
  ⟨rfl, rfl, fun _ different => funext fun _ => Memory.write_other_page _ _ _ _ different⟩

theorem DataStep.fill (machine : Machine) (page : U64) (words : Fin 512 → U64) :
    DataStep page machine { machine with memory := machine.memory.fill page words } :=
  ⟨rfl, rfl, fun _ different => funext fun _ => Memory.fill_other _ _ _ different⟩

theorem DataStep.fillAt (machine : Machine) (page : U64) (indices : List (Fin 512))
    (words : Fin 512 → U64) :
    DataStep page machine { machine with memory := machine.memory.fillAt page indices words } :=
  ⟨rfl, rfl, fun _ different => funext fun _ => if_neg fun here => different here.1⟩

theorem DataStep.trans {frame : U64} {first second third : Machine}
    (before : DataStep frame first second) (after : DataStep frame second third) :
    DataStep frame first third where
  pmm := after.pmm.trans before.pmm
  cr3 := after.cr3.trans before.cr3
  elsewhere := fun other different =>
    (after.elsewhere other different).trans (before.elsewhere other different)

/-- A loop over entries of a page that leads to a frame outside all tables. -/
theorem storeEntries_eq (leads : LeadsTo machine.memory machine.cr3 t target)
    (wellFormed : WellFormed roots machine) (current : ptPtr machine.cr3 ∈ roots)
    (unreached : Unreached tableLink machine.memory roots target) (isTable : IsTable t)
    (ordinary : pml4Index t ≠ 511) {word : Fin 512 → KernelM U64} {value : Fin 512 → U64}
    (indices : List (Fin 512))
    (words : ∀ later, DataStep target machine later → ∀ i ∈ indices,
      word i later = .ok (value i) later) :
    Active.storeEntries t word indices machine =
      .ok () { machine with memory := machine.memory.fillAt target indices value } := by
  induction indices generalizing machine with
  | nil =>
    have same : machine.memory.fillAt target [] value = machine.memory := by
      funext page index
      simp [Memory.fillAt]
    rw [same]
    rfl
  | cons i rest ih =>
    have step := DataStep.write machine target i (value i)
    rw [Active.storeEntries, bind_of_ok (words machine (.refl target machine) i mem_cons_self),
      bind_of_ok (storeEntry_eq leads i (value i)),
      ih (leads.dataStep step wellFormed current unreached isTable ordinary)
        (step.wellFormed wellFormed unreached) (by rw [step.cr3]; exact current)
        (step.keeps_unreached unreached unreached)
        (fun later after j member => words later (step.trans after) j (mem_cons_of_mem _ member))]
    congr 2
    funext page index
    simp only [Memory.fillAt, Memory.write, mem_cons]
    grind

end XKern
