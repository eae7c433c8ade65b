import XKern.Machine

namespace XKern

open List BitVec

/-!
# DMA buffers

Model of `dma_alloc` and `dma_free` of `osfmk/dma/dma.cpp`.  A buffer of any
size is backed by the one frame that `pmm_alloc` returned, while `dma_free`
returns one frame for every page of the buffer.  `dmaAlloc_owns_iff` is the
exact condition under which the buffer owns its frames.
-/

/-- `struct dma_buffer`; a null `virt` is zero. -/
structure DmaBuffer where
  virt : U64
  phys : U64
  size : U64
  deriving Repr, DecidableEq

def DmaBuffer.null : DmaBuffer :=
  ⟨0, 0, 0⟩

/-- `dma::align_up`. -/
def alignUp (size align : U64) : U64 :=
  (size + align - 1) &&& ~~~(align - 1)

/-- The loop over at most eight attempts to find an aligned frame. -/
def dmaAttempts (align allocSize : U64) :
    Nat → Machine → Option DmaBuffer × Machine
  | 0, machine => (none, machine)
  | attempts + 1, machine =>
      let (firstPhys, pmm) := pmmAlloc machine.pmm
      if firstPhys = 0 then
        (some .null, { machine with pmm })
      else if firstPhys &&& (align - 1) = 0 then
        (some ⟨firstPhys, firstPhys, allocSize⟩,
          { machine with
            pmm
            memory := machine.memory.clear firstPhys allocSize })
      else
        dmaAttempts align allocSize attempts
          { machine with pmm := pmmFree pmm firstPhys }

/-- The end of `dma_alloc`: any frame. -/
def dmaAllocAny (allocSize : U64) (machine : Machine) : DmaBuffer × Machine :=
  let (phys, pmm) := pmmAlloc machine.pmm
  if phys = 0 then
    (.null, { machine with pmm })
  else
    (⟨phys, phys, allocSize⟩,
      { machine with pmm, memory := machine.memory.clear phys allocSize })

/-- `dma_alloc`. -/
def dmaAlloc (machine : Machine) (size align : U64) :
    DmaBuffer × Machine :=
  if size = 0 then
    (.null, machine)
  else
    let pages := alignUp size pageSize / pageSize
    let allocSize := pages * pageSize
    if pageSize < align then
      match dmaAttempts align allocSize 8 machine with
      | (some buffer, machine) => (buffer, machine)
      | (none, machine) => dmaAllocAny allocSize machine
    else
      dmaAllocAny allocSize machine

/-- `dma_free`, with the buffer it leaves behind. -/
def dmaFree (machine : Machine) (buffer : DmaBuffer) : DmaBuffer × Machine :=
  if buffer.virt = 0 then
    (buffer, machine)
  else
    let pages := buffer.size / pageSize
    let base := buffer.phys &&& ~~~(pageSize - 1)
    (.null,
      { machine with
        pmm := (range pages.toNat).foldl
          (fun pmm index =>
            pmmFree pmm (base + BitVec.ofNat 64 index * pageSize))
          machine.pmm })

/-! ## What the two calls do -/

/-- The size that `dma_alloc` gives to a buffer. -/
def dmaAllocSize (size : U64) : U64 :=
  alignUp size pageSize / pageSize * pageSize

variable {machine : Machine} {rest : List U64} {top size : U64}

theorem dmaAllocAny_concat (shape : machine.pmm.stack = rest ++ [top]) (nonzero : top ≠ 0)
    (allocSize : U64) :
    (dmaAllocAny allocSize machine).1 = ⟨top, top, allocSize⟩ ∧
      (dmaAllocAny allocSize machine).2.pmm.stack = rest := by
  obtain ⟨topValue, restValue⟩ := pmmAlloc_concat shape
  simp only [dmaAllocAny, topValue, if_neg nonzero]
  exact ⟨trivial, restValue⟩

/--
The attempts always pop the same top frame: they return it when it has the
alignment, and otherwise leave the stack as it was.
-/
theorem dmaAttempts_concat (shape : machine.pmm.stack = rest ++ [top])
    (frames : ∀ frame ∈ machine.pmm.stack, frame ≠ 0) (align allocSize : U64) (attempts : Nat) :
    ((dmaAttempts align allocSize attempts machine).1 = none ∧
        (dmaAttempts align allocSize attempts machine).2.pmm.stack = rest ++ [top]) ∨
      ((dmaAttempts align allocSize attempts machine).1 = some ⟨top, top, allocSize⟩ ∧
        (dmaAttempts align allocSize attempts machine).2.pmm.stack = rest) := by
  induction attempts generalizing machine with
  | zero => exact Or.inl ⟨rfl, shape⟩
  | succ attempts ih =>
    have nonzero : top ≠ 0 := frames top (by simp [shape])
    have restored := pmmFree_pmmAlloc machine.pmm frames
    obtain ⟨topValue, restValue⟩ := pmmAlloc_concat shape
    rw [topValue] at restored
    simp only [dmaAttempts, topValue, if_neg nonzero]
    by_cases aligned : top &&& (align - 1) = 0
    · rw [if_pos aligned]
      exact Or.inr ⟨rfl, restValue⟩
    · rw [if_neg aligned]
      apply ih
      · exact restored.trans shape
      · intro frame member
        exact frames frame (restored ▸ member)

theorem dmaAlloc_concat (shape : machine.pmm.stack = rest ++ [top])
    (frames : ∀ frame ∈ machine.pmm.stack, frame ≠ 0) (positive : size ≠ 0) (align : U64) :
    (dmaAlloc machine size align).1 = ⟨top, top, dmaAllocSize size⟩ ∧
      (dmaAlloc machine size align).2.pmm.stack = rest := by
  have nonzero : top ≠ 0 := frames top (by simp [shape])
  unfold dmaAlloc
  rw [if_neg positive]
  by_cases large : pageSize < align
  · simp only [if_pos large]
    rcases dmaAttempts_concat shape frames align (dmaAllocSize size) 8 with
      ⟨missed, sameStack⟩ | ⟨found, popped⟩
    · rw [dmaAllocSize] at missed sameStack
      split
      · rename_i buffer other result
        rw [result] at missed
        cases missed
      · rename_i other result
        rw [result] at sameStack
        exact dmaAllocAny_concat sameStack nonzero _
    · rw [dmaAllocSize] at found popped
      split
      · rename_i buffer other result
        rw [result] at found popped
        cases found
        exact ⟨rfl, popped⟩
      · rename_i other result
        rw [result] at found
        cases found
  · simp only [if_neg large]
    exact dmaAllocAny_concat shape nonzero _

theorem dmaAlloc_nil (empty : machine.pmm.stack = []) (size align : U64) :
    dmaAlloc machine size align = (.null, machine) := by
  have noFrame := pmmAlloc_nil empty
  unfold dmaAlloc
  split
  · rfl
  · simp only [dmaAttempts, dmaAllocAny, noFrame, if_true]
    split <;> rfl

theorem toNat_dmaAllocSize (size : U64) : (dmaAllocSize size).toNat =
      (size.toNat + 4095) % 2 ^ 64 / 4096 * 4096 := by
  have rounded : (alignUp size pageSize).toNat =
      (size.toNat + 4095) % 2 ^ 64 - (size.toNat + 4095) % 2 ^ 64 % 4096 := by
    rw [alignUp, toNat_pageFloor]
    have sum : (size + pageSize - 1).toNat = (size.toNat + 4095) % 2 ^ 64 := by
      rw [pageSize]
      bv_omega
    rw [sum]
  rw [dmaAllocSize, toNat_mul, toNat_udiv, rounded, toNat_pageSize]
  omega

theorem dmaFree_one_page (isFrame : IsFrame top) (room : machine.pmm.stack.length < pmmStackSize)
    (onePage : size.toNat = 4096) :
    (dmaFree machine ⟨top, top, size⟩).2.pmm.stack = machine.pmm.stack ++ [top] := by
  have pages : (size / pageSize).toNat = 1 := by
    rw [toNat_udiv, onePage, toNat_pageSize]
  have base : top &&& ~~~(pageSize - 1) = top := by
    apply eq_of_toNat_eq
    rw [toNat_pageFloor, isFrame.aligned, Nat.sub_zero]
  simp only [dmaFree, if_neg isFrame.nonzero, pages, range_one, foldl_cons, foldl_nil, base]
  rw [zero_mul, BitVec.add_zero, pmmFree_stack,
    if_neg isFrame.nonzero, take_of_length_le (by simpa using room)]

theorem dmaFree_no_page (machine : Machine) (top : U64) (noPage : size.toNat = 0) :
    (dmaFree machine ⟨top, top, size⟩).2.pmm.stack = machine.pmm.stack := by
  have pages : (size / pageSize).toNat = 0 := by
    rw [toNat_udiv, noPage, Nat.zero_div]
  unfold dmaFree
  split
  · rfl
  · simp only [pages, range_zero, foldl_nil]

/-! ## When a buffer owns its frames -/

def IsPowerOfTwo (align : U64) : Prop :=
  ∃ exponent, align.toNat = 2 ^ exponent

/--
What `dma_alloc` and `dma_free` promise together: the frames of a buffer come
off the free stack, the buffer has its alignment, and freeing it puts the
stack back, up to order.
-/
structure DmaOwnsFrames
    (machine : Machine)
    (size align : U64) : Prop where
  frames :
    (dmaAlloc machine size align).1.virt ≠ 0 →
    ∀ index,
      index * 4096 < (dmaAlloc machine size align).1.size.toNat →
      (∃ frame ∈ machine.pmm.stack,
        frame.toNat =
          (dmaAlloc machine size align).1.phys.toNat + index * 4096) ∧
      ∀ frame ∈ (dmaAlloc machine size align).2.pmm.stack,
        frame.toNat ≠
          (dmaAlloc machine size align).1.phys.toNat + index * 4096
  aligned :
    (dmaAlloc machine size align).1.virt ≠ 0 →
    IsPowerOfTwo align →
    (dmaAlloc machine size align).1.phys.toNat % align.toNat = 0
  restored :
    (dmaFree (dmaAlloc machine size align).2
      (dmaAlloc machine size align).1).2.pmm.stack.Perm machine.pmm.stack

/-- The frame on top of the stack is all that the buffer needs. -/
def TopFrameSuffices (machine : Machine) (size align : U64) : Prop :=
  ∀ top, machine.pmm.stack.getLast? = some top →
    size.toNat ≤ 4096 ∧ (IsPowerOfTwo align → top.toNat % align.toNat = 0)

theorem topFrameSuffices_of_owns (valid : machine.pmm.Valid) {align : U64} (positive : size ≠ 0)
    (owns : DmaOwnsFrames machine size align) :
    TopFrameSuffices machine size align := by
  intro top isLast
  obtain ⟨rest, shape⟩ := getLast?_eq_some_iff.mp isLast
  have topFrame : IsFrame top := valid.frames top (by simp [shape])
  obtain ⟨buffer, after⟩ := dmaAlloc_concat shape
    (fun frame member => (valid.frames frame member).nonzero) positive align
  obtain ⟨frames, aligned, restored⟩ := owns
  rw [buffer] at frames aligned restored
  rw [after] at frames
  dsimp only at frames aligned
  refine ⟨?_, aligned topFrame.nonzero⟩
  by_contra large
  have allocated := toNat_dmaAllocSize size
  by_cases wraps : 2 ^ 64 ≤ size.toNat + 4095
  · -- the rounded size wraps to zero, so the frame is never given back
    rw [dmaFree_no_page _ top (by omega), after] at restored
    have lengths := restored.length_eq
    rw [shape, length_append, length_singleton] at lengths
    omega
  · -- the second page of the buffer is not the popped frame
    obtain ⟨⟨second, wasFree, value⟩, notAfter⟩ := frames topFrame.nonzero 1 (by omega)
    rw [shape, mem_append, mem_singleton] at wasFree
    rcases wasFree with inRest | isTop
    · exact notAfter second inRest value
    · rw [isTop] at value
      omega

theorem owns_of_topFrameSuffices (valid : machine.pmm.Valid) {align : U64} (positive : size ≠ 0)
    (enough : TopFrameSuffices machine size align) :
    DmaOwnsFrames machine size align := by
  rcases eq_nil_or_concat machine.pmm.stack with
    empty | ⟨rest, top, shape⟩
  · have failed := dmaAlloc_nil empty size align
    exact {
      frames := by
        intro virt
        rw [failed] at virt
        exact (virt rfl).elim
      aligned := by
        intro virt
        rw [failed] at virt
        exact (virt rfl).elim
      restored := by
        rw [failed]
        exact List.Perm.refl _
    }
  · rw [concat_eq_append] at shape
    obtain ⟨onePage, topAligned⟩ := enough top (by simp [shape])
    have topFrame : IsFrame top := valid.frames top (by simp [shape])
    obtain ⟨buffer, after⟩ := dmaAlloc_concat shape
      (fun frame member => (valid.frames frame member).nonzero) positive align
    have sizePos : 0 < size.toNat := by
      rcases eq_zero_or_pos size.toNat with zero | pos
      · exact (positive (eq_of_toNat_eq zero)).elim
      · exact pos
    have allocated : (dmaAllocSize size).toNat = 4096 := by
      rw [toNat_dmaAllocSize]
      omega
    have nodup := valid.nodup
    rw [shape, nodup_append] at nodup
    exact {
      frames := by
        intro _ index indexLt
        rw [buffer] at indexLt ⊢
        rw [after]
        have first : index = 0 := by
          rw [allocated] at indexLt
          omega
        subst first
        refine ⟨⟨top, by simp [shape], by simp⟩, ?_⟩
        intro frame inRest same
        refine nodup.2.2 frame inRest top (by simp) ?_
        exact eq_of_toNat_eq (by simpa using same)
      aligned := by
        intro _ power
        rw [buffer]
        exact topAligned power
      restored := by
        have bounded := machine.pmm.bounded
        rw [shape, length_append, length_singleton] at bounded
        rw [buffer, dmaFree_one_page topFrame (by rw [after]; omega) allocated, after, shape]
    }

/--
A DMA buffer owns its frames exactly when the free stack is empty, so that no
buffer is returned, or the request fits into the top frame and that frame has
the requested alignment.
-/
theorem dmaAlloc_owns_iff (machine : Machine) (valid : machine.pmm.Valid) (size align : U64)
    (positive : size ≠ 0) :
    DmaOwnsFrames machine size align ↔ TopFrameSuffices machine size align :=
  ⟨topFrameSuffices_of_owns valid positive, owns_of_topFrameSuffices valid positive⟩

def oneFrameMachine : Machine where
  pmm :=
    { stack := [0x1000], totalMemory := 0, bounded := oneFrame_bounded }
  memory := fun _ _ => 0
  cr3 := 0

theorem oneFrameMachine_valid : oneFrameMachine.pmm.Valid where
  nodup := by decide
  frames := by
    intro frame member
    have isFrame : frame = 0x1000 := by
      simpa [oneFrameMachine] using member
    exact isFrame ▸ ⟨by decide, by decide⟩

/-- The criterion for a request of 64 bytes with 64-byte alignment. -/
theorem dmaAlloc_owns_iff_small_request :
    (64 : U64) ≠ 0 ∧
      (DmaOwnsFrames oneFrameMachine 64 64 ↔ TopFrameSuffices oneFrameMachine 64 64) :=
  ⟨by decide, dmaAlloc_owns_iff oneFrameMachine oneFrameMachine_valid 64 64 (by decide)⟩

/-- A buffer of two pages is backed by the single frame of the stack. -/
theorem dmaAlloc_two_pages_unowned :
    (dmaAlloc oneFrameMachine 0x2000 0x1000).1 = ⟨0x1000, 0x1000, 0x2000⟩ ∧
      ¬ DmaOwnsFrames oneFrameMachine 0x2000 0x1000 := by
  refine ⟨by decide, ?_⟩
  intro owns
  have fits := topFrameSuffices_of_owns oneFrameMachine_valid (by decide) owns
  exact absurd (fits 0x1000 rfl).1 (by decide)

end XKern
