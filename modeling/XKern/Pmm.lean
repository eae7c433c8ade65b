import XKern.LowBits
import XKern.WordLoop

namespace XKern

open List BitVec

/-!
# The physical frame allocator

Model of `osfmk/vm/pmm.c`.  The free frames are the entries
`pmm_stack[0 .. pmm_stack_top)`, kept here as a list in array order, so the
top of the stack is the last element.  The bound of the array is part of the
state.  Arithmetic on addresses is `u64` modulo `2^64`.

The two `for` loops over pages are `WordLoop.forWords`; `none` is a call that
never returns.
-/

abbrev U64 := BitVec 64

abbrev U32 := BitVec 32

abbrev U16 := BitVec 16

abbrev U8 := BitVec 8

/-! Arrays of a fixed size are functions on `Fin`, whose literals need these. -/

instance neZero_four : NeZero 4 := ⟨by decide⟩

instance neZero_five : NeZero 5 := ⟨by decide⟩

instance neZero_eight : NeZero 8 := ⟨by decide⟩

instance neZero_sixteen : NeZero 16 := ⟨by decide⟩

instance neZero_sixtyFour : NeZero 64 := ⟨by decide⟩

/-- `PAGE_SIZE` of `include/pmm.h`. -/
def pageSize : U64 := 4096

/-- `PMM_STACK_SIZE`. -/
def pmmStackSize : Nat := 65536

/-- `PMM_MAX_ADDR`: frames are collected below 3 GiB. -/
def pmmMaxAddr : U64 := 0xC0000000

/-- `PMM_TOP_GUARD`: the top 16 MiB of a large range are not served. -/
def pmmTopGuard : U64 := 16 <<< 20

/-- `MULTIBOOT_MEMORY_AVAILABLE`. -/
def multibootMemoryAvailable : U32 := 1

/--
The number of pages in the 64-bit address space: a page loop that is still
running after this many rounds is back where it started.
-/
def pageLoopFuel : Nat := 2 ^ 52

/-- The state of `pmm.c`. -/
structure Pmm where
  stack : List U64
  totalMemory : U64
  bounded : stack.length ≤ pmmStackSize

theorem oneFrame_bounded : ([0x1000] : List U64).length ≤ pmmStackSize := by
  decide

/-- `struct e820_entry`. -/
structure E820Entry where
  base : U64
  length : U64
  type : U32
  attr : U32
  deriving Repr, DecidableEq

/--
The linker symbols `_kernel_start` and `_kernel_end`.  The image is linked at
1 MiB and addressed by 32-bit relocations, so it ends below 4 GiB.
-/
structure KernelImage where
  kernelStart : U64
  kernelEnd : U64
  linkedLow : kernelEnd.toNat < 2 ^ 32

/-- `pmm_free`: zero is ignored and a full stack drops the frame. -/
def pmmFree (pmm : Pmm) (addr : U64) : Pmm :=
  if addr = 0 then
    pmm
  else if room : pmm.stack.length < pmmStackSize then
    { pmm with
      stack := pmm.stack ++ [addr]
      bounded := by simpa using room }
  else
    pmm

/-- `pmm_alloc`: the popped frame, or zero when the stack is empty. -/
def pmmAlloc (pmm : Pmm) : U64 × Pmm :=
  match pmm.stack.getLast? with
  | none => (0, pmm)
  | some addr =>
      (addr,
        { pmm with
          stack := pmm.stack.dropLast
          bounded := by
            have bounded := pmm.bounded
            rw [length_dropLast]
            omega })

/--
The inner loop of `pmm_reserve`: the first entry equal to `a` is overwritten
by the popped top entry.
-/
def removeFrame (stack : List U64) (a : U64) : List U64 :=
  match stack.findIdx? (· == a) with
  | none => stack
  | some index => (stack.set index (stack.getLastD 0)).dropLast

theorem length_removeFrame_le (stack : List U64) (a : U64) :
    (removeFrame stack a).length ≤ stack.length := by
  unfold removeFrame
  split
  · exact le_refl _
  · simp

/-- One round of the outer loop of `pmm_reserve`. -/
def pmmReserveFrame (a : U64) (pmm : Pmm) : Pmm :=
  { pmm with
    stack := removeFrame pmm.stack a
    bounded := (length_removeFrame_le pmm.stack a).trans pmm.bounded }

/-- `pmm_reserve`. -/
def pmmReserve (pmm : Pmm) (addr size : U64) : Option Pmm :=
  let start := addr &&& ~~~(pageSize - 1)
  let stop := addr + size
  WordLoop.forWords pageSize stop pmmReserveFrame pageLoopFuel start pmm

/-- `pmm_is_kernel_region`. -/
def pmmIsKernelRegion (image : KernelImage) (addr : U64) : Bool :=
  image.kernelStart ≤ addr && addr < image.kernelEnd

namespace E820Entry

/-- `length` after clipping the entry at `PMM_MAX_ADDR`. -/
def clippedLength (entry : E820Entry) : U64 :=
  if pmmMaxAddr < entry.base + entry.length then
    pmmMaxAddr - entry.base
  else
    entry.length

/-- `start`: the base rounded up to a page. -/
def start (entry : E820Entry) : U64 :=
  (entry.base + pageSize - 1) &&& ~~~(pageSize - 1)

/-- `stop` before the top guard: the clipped end rounded down to a page. -/
def stop (entry : E820Entry) : U64 :=
  (entry.base + entry.clippedLength) &&& ~~~(pageSize - 1)

/-- `stop` after the top guard has been taken off a large range. -/
def guardedStop (entry : E820Entry) : U64 :=
  if pmmTopGuard * 2 < entry.stop - entry.start then
    entry.stop - pmmTopGuard
  else
    entry.stop

end E820Entry

/-- The body of the page loop of `pmm_init`. -/
def pmmInitFrame (image : KernelImage) (addr : U64) (pmm : Pmm) : Pmm :=
  if pmmIsKernelRegion image addr then
    pmm
  else
    pmmFree pmm addr

/-- One round of the entry loop of `pmm_init`. -/
def pmmInitEntry (image : KernelImage) (pmm : Pmm) (entry : E820Entry) :
    Option Pmm :=
  if pmmMaxAddr ≤ entry.base then
    some pmm
  else if entry.type = multibootMemoryAvailable then
    match WordLoop.forWords pageSize entry.guardedStop
        (pmmInitFrame image) pageLoopFuel entry.start pmm with
    | none => none
    | some pmm =>
        some { pmm with
          totalMemory := pmm.totalMemory + entry.clippedLength }
  else
    some pmm

/-- `pmm_init` on the `count` entries of the map. -/
def pmmInit (image : KernelImage) (map : List E820Entry) :
    Option Pmm :=
  map.foldlM (pmmInitEntry image)
    { stack := [], totalMemory := 0, bounded := by simp [pmmStackSize] }

/-- `pmm_get_free_pages`. -/
def pmmGetFreePages (pmm : Pmm) : Nat :=
  pmm.stack.length

/-- The address of a frame that can be allocated. -/
structure IsFrame (addr : U64) : Prop where
  nonzero : addr ≠ 0
  aligned : addr.toNat % 4096 = 0

/-- A stack of distinct frames: the state in which the allocator is used. -/
structure Pmm.Valid (pmm : Pmm) : Prop where
  nodup : pmm.stack.Nodup
  frames : ∀ frame ∈ pmm.stack, IsFrame frame

/-! ## Page arithmetic -/

@[simp] theorem toNat_pageSize : pageSize.toNat = 4096 :=
  rfl

@[simp] theorem toNat_pmmMaxAddr : pmmMaxAddr.toNat = 0xC0000000 :=
  rfl

@[simp] theorem toNat_pmmTopGuard : pmmTopGuard.toNat = 0x1000000 :=
  rfl

theorem toNat_pageFloor (addr : U64) :
    (addr &&& ~~~(pageSize - 1)).toNat = addr.toNat - addr.toNat % 4096 :=
  LowBits.toNat_and_not_mask (by decide : 12 ≤ 64) addr

/-! ## One specification for each operation -/

theorem pmmFree_stack (pmm : Pmm) (addr : U64) : (pmmFree pmm addr).stack =
      if addr = 0 then pmm.stack
      else (pmm.stack ++ [addr]).take pmmStackSize := by
  have bounded := pmm.bounded
  unfold pmmFree
  split
  · rfl
  · split
    · rw [take_of_length_le]
      simpa
    · rw [take_append_of_le_length (by omega), take_of_length_le (by omega)]

variable {pmm : Pmm} {addr size : U64}

theorem pmmAlloc_nil (empty : pmm.stack = []) : pmmAlloc pmm = (0, pmm) := by
  unfold pmmAlloc
  simp [empty]

theorem pmmAlloc_concat {rest : List U64} {top : U64} (shape : pmm.stack = rest ++ [top]) :
    (pmmAlloc pmm).1 = top ∧ (pmmAlloc pmm).2.stack = rest := by
  have last : pmm.stack.getLast? = some top := by simp [shape]
  unfold pmmAlloc
  split
  · simp_all
  · rename_i addr isLast
    have same : addr = top := by simpa [last] using isLast.symm
    exact ⟨same, by simp [shape]⟩

theorem pmmAlloc_mem (nonzero : (pmmAlloc pmm).1 ≠ 0) : (pmmAlloc pmm).1 ∈ pmm.stack := by
  rcases eq_nil_or_concat pmm.stack with empty | ⟨rest, top, shape⟩
  · rw [pmmAlloc_nil empty] at nonzero
    exact (nonzero rfl).elim
  · rw [concat_eq_append] at shape
    rw [(pmmAlloc_concat shape).1, shape]
    simp

theorem pmmFree_pmmAlloc (pmm : Pmm) (frames : ∀ frame ∈ pmm.stack, frame ≠ 0) :
    (pmmFree (pmmAlloc pmm).2 (pmmAlloc pmm).1).stack = pmm.stack := by
  rw [pmmFree_stack]
  rcases eq_nil_or_concat pmm.stack with empty | ⟨rest, top, shape⟩
  · rw [pmmAlloc_nil empty, if_pos rfl]
  · rw [concat_eq_append] at shape
    obtain ⟨topValue, restValue⟩ := pmmAlloc_concat shape
    have topNonzero : top ≠ 0 := frames top (by simp [shape])
    rw [topValue, restValue, if_neg topNonzero, ← shape, take_of_length_le pmm.bounded]

/-! ## Removing frames from the stack -/

private theorem findIdx?_frame_none {stack : List U64} {a : U64} (absent : a ∉ stack) :
    stack.findIdx? (· == a) = none := by
  rw [findIdx?_eq_none_iff]
  intro frame member
  simp only [beq_eq_false_iff_ne]
  exact fun same => absent (same ▸ member)

theorem removeFrame_perm (stack : List U64) (a : U64) :
    (removeFrame stack a).Perm (stack.erase a) := by
  by_cases member : a ∈ stack
  · obtain ⟨before, after, shape, first⟩ := eq_append_cons_of_mem member
    subst stack
    have found : (before ++ a :: after).findIdx? (· == a) = some before.length := by
      simp [findIdx?_append, findIdx?_frame_none first, findIdx?_cons]
    simp only [removeFrame, found]
    rw [erase_append_right _ first, erase_cons_head]
    rcases eq_nil_or_concat after with
      isNil | ⟨middle, top, isConcat⟩
    · simp [isNil]
    · rw [concat_eq_append] at isConcat
      have last : (before ++ a :: after).getLastD 0 = top := by
        rw [isConcat, ← List.cons_append, ← List.append_assoc, getLastD_concat]
      rw [last, isConcat, set_append_right _ _ (by omega),
        Nat.sub_self, set_cons_zero, ← List.cons_append,
        ← List.append_assoc, dropLast_concat]
      exact (perm_append_singleton top middle).symm.append_left before
  · simp only [removeFrame, findIdx?_frame_none member]
    rw [erase_of_not_mem member]

theorem foldl_removeFrame_perm (stack pages : List U64) :
    (pages.foldl removeFrame stack).Perm (stack.diff pages) := by
  induction pages generalizing stack with
  | nil => simp
  | cons page rest ih =>
    rw [foldl_cons, diff_cons]
    exact (ih (removeFrame stack page)).trans
      ((removeFrame_perm stack page).diff_right rest)

/-- The pages that the outer loop of `pmm_reserve` visits. -/
def reservedPages (addr size : U64) : List U64 :=
  WordLoop.progression pageSize (addr &&& ~~~(pageSize - 1))
    ((addr.toNat % 4096 + size.toNat + 4095) / 4096)

theorem mem_reservedPages {frame : U64} (room : addr.toNat + size.toNat + 4096 ≤ 2 ^ 64)
    (aligned : frame.toNat % 4096 = 0) :
    frame ∈ reservedPages addr size ↔ frame.toNat < addr.toNat + size.toNat ∧
        addr.toNat < frame.toNat + 4096 := by
  have floor := toNat_pageFloor addr
  rw [reservedPages, WordLoop.mem_progression]
  · rw [floor, toNat_pageSize]
    constructor
    · rintro ⟨index, indexLt, value⟩
      omega
    · rintro ⟨below, above⟩
      refine ⟨(frame.toNat - (addr.toNat - addr.toNat % 4096)) / 4096, ?_, ?_⟩
      · omega
      · omega
  · rw [floor, toNat_pageSize]
    omega
  · decide

theorem foldl_pmmReserveFrame_stack (pages : List U64) (pmm : Pmm) :
    (pages.foldl (fun current page => pmmReserveFrame page current) pmm).stack =
      pages.foldl removeFrame pmm.stack := by
  induction pages generalizing pmm with
  | nil => rfl
  | cons page rest ih =>
    rw [foldl_cons, ih]
    rfl

theorem pmmReserve_stack (pmm : Pmm) (room : addr.toNat + size.toNat + 4096 ≤ 2 ^ 64) :
    ∃ final, pmmReserve pmm addr size = some final ∧
        final.stack = (reservedPages addr size).foldl removeFrame pmm.stack := by
  have floor := toNat_pageFloor addr
  have stop : (addr + size).toNat = addr.toNat + size.toNat := by
    rw [toNat_add, Nat.mod_eq_of_lt (by omega)]
  refine ⟨_, WordLoop.forWords_eq_foldl pmmReserveFrame pmm
    ((addr.toNat % 4096 + size.toNat + 4095) / 4096) ?_ ?_ ?_ ?_,
    foldl_pmmReserveFrame_stack _ pmm⟩
  · intro index indexLt
    rw [floor, stop, toNat_pageSize]
    omega
  · rw [floor, stop, toNat_pageSize]
    omega
  · rw [floor, toNat_pageSize]
    omega
  · rw [pageLoopFuel]
    omega

/-- The page at `frame` meets the range of `size` bytes at `addr`. -/
def MeetsRange (addr size frame : U64) : Prop :=
  frame.toNat < addr.toNat + size.toNat ∧ addr.toNat < frame.toNat + 4096

theorem pmmReserve_spec (valid : pmm.Valid) (room : addr.toNat + size.toNat + 4096 ≤ 2 ^ 64) :
    ∃ final, pmmReserve pmm addr size = some final ∧ final.stack.Nodup ∧
        ∀ frame, frame ∈ final.stack ↔ frame ∈ pmm.stack ∧ ¬ MeetsRange addr size frame := by
  obtain ⟨final, returns, stack⟩ := pmmReserve_stack pmm room
  have perm := foldl_removeFrame_perm pmm.stack (reservedPages addr size)
  rw [← stack] at perm
  refine ⟨final, returns, perm.nodup_iff.mpr valid.nodup.diff, ?_⟩
  intro frame
  rw [perm.mem_iff, valid.nodup.mem_sdiff_iff]
  apply and_congr_right
  intro onStack
  rw [mem_reservedPages room (valid.frames frame onStack).aligned, MeetsRange]

/-- A page loop that has not ended with this fuel never ends. -/
theorem pageLoop_none_forever {State : Type} {body : U64 → State → State} {start stop : U64}
    {state : State} (running : WordLoop.forWords pageSize stop body pageLoopFuel start state = none)
    (fuel : Nat) :
    WordLoop.forWords pageSize stop body fuel start state = none :=
  WordLoop.forWords_none_forever (by decide) (by decide) running fuel state

/--
A range that ends in the last page of the address space makes the loop of
`pmm_reserve` run over the top and start again at zero, for ever.
-/
theorem pmmReserve_never_returns (pmm : Pmm) (inRange : addr.toNat + size.toNat < 2 ^ 64)
    (lastPage : 2 ^ 64 < addr.toNat + size.toNat + 4096) (fuel : Nat) :
    WordLoop.forWords pageSize (addr + size) pmmReserveFrame fuel
      (addr &&& ~~~(pageSize - 1)) pmm = none := by
  have floor := toNat_pageFloor addr
  rw [WordLoop.forWords_eq_none_iff]
  intro index _
  have stop : (addr + size).toNat = addr.toNat + size.toNat := by
    rw [toNat_add, Nat.mod_eq_of_lt inRange]
  have value : (WordLoop.counterAt pageSize
      (addr &&& ~~~(pageSize - 1)) index).toNat % 4096 = 0 := by
    simp only [WordLoop.counterAt, toNat_add, toNat_mul, toNat_ofNat, floor, toNat_pageSize]
    omega
  rw [lt_def, stop]
  omega

end XKern
