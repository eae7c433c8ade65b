import XKern.Machine

namespace XKern

open List

/-!
# The kernel heap behind `operator new`

Model of the bump allocator of `libkern/libcpp/runtime.cpp`.  The heap grows by
frames from `pmm_alloc`; `supply` is the sequence of results of the calls to
come, with zero for a failed one, and `frames` records the frames obtained so
far.  `heap_grow` moves `heap_end` to the end of each new frame and leaves
`heap_ptr` where it is, as if the frame continued the current span.
-/

/-- The statics of `runtime.cpp`, with the frames taken and still to come. -/
structure Heap where
  heapPtr : U64
  heapEnd : U64
  heapPhys : U64
  heapPages : U64
  supply : List U64
  frames : List U64
  deriving Repr, DecidableEq

def Heap.initial (supply : List U64) : Heap :=
  ⟨0, 0, 0, 0, supply, []⟩

/-- `HEAP_ALIGN`. -/
def heapAlign : U32 := 16

/-- `PAGE_SZ`. -/
def pageSz : U32 := 4096

/-- A new page becomes the end of the span, and its start if it is the first. -/
def heapAddPage (heap : Heap) (page : U64) (supply : List U64) : Heap where
  heapPtr := if heap.heapPtr = 0 then page else heap.heapPtr
  heapEnd := page + pageSize
  heapPhys := if heap.heapPtr = 0 then page else heap.heapPhys
  heapPages := heap.heapPages + 1
  supply := supply
  frames := heap.frames ++ [page]

/-- The loop of `heap_grow`; `false` when `pmm_alloc` fails. -/
def heapGrowPages : Nat → Heap → Bool × Heap
  | 0, heap => (true, heap)
  | pages + 1, heap =>
      match heap.supply with
      | [] => (false, heap)
      | page :: supply =>
          if page = 0 then
            (false, { heap with supply })
          else
            heapGrowPages pages (heapAddPage heap page supply)

/-- `pages`: the page count of `heap_grow`. -/
def heapGrowCount (need : U32) : U32 :=
  if (need + pageSz - 1) / pageSz < 1 then 1 else (need + pageSz - 1) / pageSz

/-- `heap_grow`: null, or the bump pointer. -/
def heapGrow (heap : Heap) (need : U32) : U64 × Heap :=
  match heapGrowPages (heapGrowCount need).toNat heap with
  | (false, heap) => (0, heap)
  | (true, heap) => (heap.heapPtr, heap)

def heapTake (heap : Heap) (aligned : U32) : U64 × Heap :=
  (heap.heapPtr,
    { heap with heapPtr := heap.heapPtr + aligned.setWidth 64 })

/-- `aligned`: the size rounded up to `HEAP_ALIGN`. -/
def heapAlignedSize (size : U32) : U32 :=
  (size + heapAlign - 1) &&& ~~~(heapAlign - 1)

/-- `heap_alloc`. -/
def heapAlloc (heap : Heap) (size : U32) : U64 × Heap :=
  let aligned := heapAlignedSize size
  if heap.heapPtr = 0 ∨
      (heap.heapEnd - heap.heapPtr).setWidth 32 < aligned then
    match heapGrow heap aligned with
    | (grown, heap) =>
        if grown = 0 then (0, heap) else heapTake heap aligned
  else
    heapTake heap aligned

structure HeapBlock where
  start : U64
  size : U32
  deriving Repr, DecidableEq

/-- The non-null blocks returned by a sequence of `heap_alloc` calls. -/
def heapAllocs (heap : Heap) : List U32 → List HeapBlock × Heap
  | [] => ([], heap)
  | size :: sizes =>
      match heapAlloc heap size with
      | (start, heap) =>
          match heapAllocs heap sizes with
          | (blocks, final) =>
              (if start = 0 then blocks else ⟨start, size⟩ :: blocks, final)

namespace HeapBlock

def stop (block : HeapBlock) : Nat :=
  block.start.toNat + block.size.toNat

/-- Every byte of the block lies in one of the frames. -/
def Inside (block : HeapBlock) (frames : List U64) : Prop :=
  ∀ byte, block.start.toNat ≤ byte → byte < block.stop →
    ∃ frame ∈ frames, frame.toNat ≤ byte ∧ byte < frame.toNat + 4096

/-- The blocks have no byte in common. -/
def Apart (first second : HeapBlock) : Prop :=
  ∀ byte, first.start.toNat ≤ byte → byte < first.stop →
    ¬ (second.start.toNat ≤ byte ∧ byte < second.stop)

end HeapBlock

/-- All blocks lie in the frames of the heap and are pairwise disjoint. -/
def HeapSafe (supply : List U64) (sizes : List U32) : Prop :=
  (∀ block ∈ (heapAllocs (Heap.initial supply) sizes).1,
    block.Inside (heapAllocs (Heap.initial supply) sizes).2.frames) ∧
  (heapAllocs (Heap.initial supply) sizes).1.Pairwise HeapBlock.Apart

/-- The frames among the results of `pmm_alloc`. -/
def suppliedFrames (supply : List U64) : List U64 :=
  supply.filter (· != 0)

/--
The results of `pmm_alloc`: zeros, and distinct frames with physical addresses
of at most 52 bits.
-/
structure FrameSupply (supply : List U64) : Prop where
  nodup : (suppliedFrames supply).Nodup
  aligned : ∀ frame ∈ supply, frame.toNat % 4096 = 0
  physical : ∀ frame ∈ supply, frame.toNat < 2 ^ 52

/-- Each frame follows the one before. -/
def Contiguous (frames : List U64) : Prop :=
  frames.IsChain fun first second => second = first + pageSize

/-! ## Contiguous frames keep the heap one span -/

/--
`count` of the `total` contiguous frames from `base` on have been obtained and
form the span in which the bump pointer lies.
-/
structure HeapSpan
    (base : U64)
    (total count : Nat)
    (heap : Heap) : Prop where
  countLe : count ≤ total
  frames : heap.frames = WordLoop.progression pageSize base count
  rest : suppliedFrames heap.supply =
    WordLoop.progression pageSize
      (WordLoop.counterAt pageSize base count) (total - count)
  unused : count = 0 → heap.heapPtr = 0
  ptrGe : 0 < count → base.toNat ≤ heap.heapPtr.toNat
  ptrLe : 0 < count → heap.heapPtr.toNat ≤ heap.heapEnd.toNat
  stop : 0 < count → heap.heapEnd.toNat = base.toNat + count * 4096

theorem toNat_heapAlignedSize {size : U32} (small : size.toNat < 2 ^ 31) :
    (heapAlignedSize size).toNat = (size.toNat + 15) / 16 * 16 := by
  have sum : (size + heapAlign - 1).toNat = size.toNat + 15 := by
    rw [heapAlign]
    bv_omega
  have floor := LowBits.toNat_and_not_mask (by decide : 4 ≤ 32) (size + heapAlign - 1)
  rw [sum] at floor
  rw [heapAlignedSize, show heapAlign - 1 = LowBits.mask 32 4 from rfl, floor]
  omega

theorem heapGrowCount_enough {need : U32} (small : need.toNat ≤ 2 ^ 31) :
    1 ≤ (heapGrowCount need).toNat ∧ need.toNat ≤ (heapGrowCount need).toNat * 4096 := by
  have count : ((need + pageSz - 1) / pageSz).toNat = (need.toNat + 4095) / 4096 := by
    rw [BitVec.toNat_udiv]
    have sum : (need + pageSz - 1).toNat = need.toNat + 4095 := by
      rw [pageSz]
      bv_omega
    rw [sum]
    rfl
  have one : (1 : U32).toNat = 1 := rfl
  unfold heapGrowCount
  split
  · rename_i belowOne
    rw [BitVec.lt_def, count, one] at belowOne
    rw [one]
    omega
  · rename_i notBelow
    rw [BitVec.lt_def, count, one] at notBelow
    rw [count]
    omega

variable {heap : Heap} {supply : List U64} {page : U64}

section Span

variable {base : U64} {total : Nat}

theorem HeapSpan.ptr_eq_zero_iff {count : Nat} (span : HeapSpan base total count heap)
    (baseNonzero : base ≠ 0) :
    heap.heapPtr = 0 ↔ count = 0 := by
  refine ⟨?_, span.unused⟩
  intro null
  by_contra positive
  have ptrGe := span.ptrGe (by omega)
  rw [null] at ptrGe
  exact baseNonzero (BitVec.eq_of_toNat_eq (by simpa using ptrGe))

theorem HeapSpan.next_frame {count : Nat} (span : HeapSpan base total count heap)
    (shape : heap.supply = page :: supply) (nonzero : page ≠ 0) :
    count < total ∧ page = WordLoop.counterAt pageSize base count ∧ suppliedFrames supply =
        WordLoop.progression pageSize (WordLoop.counterAt pageSize base (count + 1))
          (total - (count + 1)) := by
  have rest := span.rest
  have countLe := span.countLe
  rw [shape, suppliedFrames, filter_cons_of_pos (by simpa using nonzero)]
    at rest
  cases remaining : total - count with
  | zero =>
    rw [remaining] at rest
    simp [WordLoop.progression] at rest
  | succ later =>
    rw [remaining, WordLoop.progression_succ, List.cons.injEq,
      ← WordLoop.counterAt_one, WordLoop.counterAt_add] at rest
    refine ⟨by omega, rest.1, ?_⟩
    rw [suppliedFrames, rest.2]
    congr 1
    omega

theorem HeapSpan.addPage (baseNonzero : base ≠ 0) (room : base.toNat + total * 4096 < 2 ^ 64)
    {count : Nat} (span : HeapSpan base total count heap) (shape : heap.supply = page :: supply)
    (nonzero : page ≠ 0) :
    HeapSpan base total (count + 1) (heapAddPage heap page supply) := by
  obtain ⟨countLt, isNext, later⟩ := span.next_frame shape nonzero
  have pageValue : page.toNat = base.toNat + count * 4096 := by
    have fits : base.toNat + count * pageSize.toNat < 2 ^ 64 := by
      rw [toNat_pageSize]
      lia
    rw [isNext, WordLoop.toNat_counterAt fits, toNat_pageSize]
  have pageEnd : (page + pageSize).toNat = base.toNat + (count + 1) * 4096 := by
    rw [BitVec.toNat_add, pageValue, toNat_pageSize, Nat.mod_eq_of_lt (by omega)]
    omega
  have bounds : base.toNat ≤ (heapAddPage heap page supply).heapPtr.toNat ∧
      (heapAddPage heap page supply).heapPtr.toNat ≤ (page + pageSize).toNat := by
    simp only [heapAddPage]
    rw [pageEnd]
    split
    · rw [pageValue]
      omega
    · rename_i used
      have countPos : 0 < count := by
        rw [span.ptr_eq_zero_iff baseNonzero] at used
        omega
      have ptrGe := span.ptrGe countPos
      have ptrLe := span.ptrLe countPos
      have stop := span.stop countPos
      omega
  exact {
    countLe := countLt
    frames := by
      rw [WordLoop.progression_concat, ← span.frames, ← isNext]
      rfl
    rest := later
    unused := by omega
    ptrGe := fun _ => bounds.1
    ptrLe := fun _ => bounds.2
    stop := fun _ => pageEnd
  }

theorem HeapSpan.grow (baseNonzero : base ≠ 0) (room : base.toNat + total * 4096 < 2 ^ 64)
    (pages : Nat) {count : Nat} (span : HeapSpan base total count heap) :
    ∃ added, HeapSpan base total (count + added) (heapGrowPages pages heap).2 ∧
        ((heapGrowPages pages heap).1 = true → added = pages) ∧
        (heap.heapPtr ≠ 0 → (heapGrowPages pages heap).2.heapPtr = heap.heapPtr) ∧
        (heap.heapPtr = 0 → 0 < added → (heapGrowPages pages heap).2.heapPtr = base) := by
  induction pages generalizing count heap with
  | zero => exact ⟨0, span, fun _ => rfl, fun _ => rfl, by omega⟩
  | succ pages ih =>
    cases shape : heap.supply with
    | nil =>
      refine ⟨0, ?_⟩
      simp only [heapGrowPages, shape]
      exact ⟨span, by simp, by simp, by omega⟩
    | cons page supply =>
      by_cases null : page = 0
      · refine ⟨0, ?_⟩
        simp only [heapGrowPages, shape, if_pos null]
        refine ⟨?_, by simp, by simp, by omega⟩
        have rest := span.rest
        rw [shape, null, suppliedFrames, filter_cons_of_neg (by simp)] at rest
        exact { span with rest }
      · have step := span.addPage baseNonzero room shape null
        obtain ⟨added, grown, all, sameLater, _⟩ := ih step
        have used : (heapAddPage heap page supply).heapPtr ≠ 0 := by
          rw [Ne, step.ptr_eq_zero_iff baseNonzero]
          omega
        refine ⟨added + 1, ?_⟩
        simp only [heapGrowPages, shape, if_neg null]
        refine ⟨?_, ?_, ?_, ?_⟩
        · rwa [add_assoc, add_comm 1] at grown
        · intro success
          rw [all success]
        · intro wasUsed
          rw [sameLater used, heapAddPage, if_neg wasUsed]
        · intro unused _
          have first := (span.ptr_eq_zero_iff baseNonzero).mp unused
          have isNext := (span.next_frame shape null).2.1
          rw [sameLater used, heapAddPage, if_pos unused, isNext, first, WordLoop.counterAt_zero]

theorem HeapSpan.take {count : Nat} (span : HeapSpan base total count heap) (countPos : 0 < count)
    (aligned : U32) (fits : heap.heapPtr.toNat + aligned.toNat ≤ heap.heapEnd.toNat) :
    HeapSpan base total count (heapTake heap aligned).2 ∧ (heapTake heap aligned).2.heapPtr.toNat =
        heap.heapPtr.toNat + aligned.toNat := by
  have moved : (heapTake heap aligned).2.heapPtr.toNat = heap.heapPtr.toNat + aligned.toNat := by
    simp only [heapTake, BitVec.toNat_add, BitVec.toNat_setWidth]
    omega
  refine ⟨?_, moved⟩
  exact {
    countLe := span.countLe
    frames := span.frames
    rest := span.rest
    unused := by omega
    ptrGe := fun _ => by
      have ptrGe := span.ptrGe countPos
      omega
    ptrLe := fun _ => by
      rw [moved]
      exact fits
    stop := span.stop
  }

theorem HeapSpan.heapGrow (baseNonzero : base ≠ 0) (room : base.toNat + total * 4096 < 2 ^ 64)
    {count : Nat} (span : HeapSpan base total count heap) (need : U32)
    (small : need.toNat ≤ 2 ^ 31) :
    ∃ later, HeapSpan base total later (heapGrow heap need).2 ∧
        heap.heapPtr.toNat ≤ (heapGrow heap need).2.heapPtr.toNat ∧
        ((heapGrow heap need).1 ≠ 0 → 0 < later ∧
          (heapGrow heap need).2.heapPtr.toNat + need.toNat ≤
            (heapGrow heap need).2.heapEnd.toNat) := by
  obtain ⟨pagesPos, pagesEnough⟩ := heapGrowCount_enough small
  obtain ⟨added, grown, all, sameUsed, sameFresh⟩ :=
    span.grow baseNonzero room (heapGrowCount need).toNat
  have monotone : heap.heapPtr.toNat ≤
      (heapGrowPages (heapGrowCount need).toNat heap).2.heapPtr.toNat := by
    by_cases used : heap.heapPtr = 0
    · rw [used]
      exact Nat.zero_le _
    · rw [sameUsed used]
  refine ⟨count + added, ?_⟩
  simp only [XKern.heapGrow]
  cases result : heapGrowPages (heapGrowCount need).toNat heap with
  | mk success after =>
    rw [result] at grown all sameUsed sameFresh monotone
    cases success with
    | false => exact ⟨grown, monotone, fun nonzero => (nonzero rfl).elim⟩
    | true =>
      have addedAll := all rfl
      refine ⟨grown, monotone, fun _ => ⟨by omega, ?_⟩⟩
      have stop := grown.stop (by omega)
      dsimp only at sameUsed sameFresh stop ⊢
      by_cases used : heap.heapPtr = 0
      · have first := (span.ptr_eq_zero_iff baseNonzero).mp used
        rw [sameFresh used (by omega), stop, first]
        omega
      · have countPos : 0 < count := by
          rw [span.ptr_eq_zero_iff baseNonzero] at used
          omega
        have ptrLe := span.ptrLe countPos
        have oldStop := span.stop countPos
        rw [sameUsed used, stop]
        omega

theorem HeapSpan.alloc (baseNonzero : base ≠ 0) (room : base.toNat + total * 4096 < 2 ^ 64)
    {count : Nat} (span : HeapSpan base total count heap) {size : U32}
    (small : size.toNat < 2 ^ 31) :
    ∃ later, HeapSpan base total later (heapAlloc heap size).2 ∧
        heap.heapPtr.toNat ≤ (heapAlloc heap size).2.heapPtr.toNat ∧
        ((heapAlloc heap size).1 ≠ 0 → 0 < later ∧ base.toNat ≤ (heapAlloc heap size).1.toNat ∧
          heap.heapPtr.toNat ≤ (heapAlloc heap size).1.toNat ∧
          (heapAlloc heap size).1.toNat + size.toNat ≤ (heapAlloc heap size).2.heapPtr.toNat) := by
  have alignedValue := toNat_heapAlignedSize small
  by_cases short : heap.heapPtr = 0 ∨
      (heap.heapEnd - heap.heapPtr).setWidth 32 < heapAlignedSize size
  · obtain ⟨later, grown, monotone, fits⟩ :=
      span.heapGrow baseNonzero room (heapAlignedSize size) (by omega)
    refine ⟨later, ?_⟩
    simp only [heapAlloc, if_pos short]
    by_cases failed : (XKern.heapGrow heap (heapAlignedSize size)).1 = 0
    · rw [if_pos failed]
      exact ⟨grown, monotone, fun nonzero => (nonzero rfl).elim⟩
    · rw [if_neg failed]
      obtain ⟨laterPos, fits⟩ := fits failed
      obtain ⟨taken, moved⟩ := grown.take laterPos _ fits
      refine ⟨taken, by omega, fun _ => ⟨laterPos, ?_⟩⟩
      have ptrGe := grown.ptrGe laterPos
      rw [moved]
      simp only [heapTake]
      omega
  · refine ⟨count, ?_⟩
    simp only [heapAlloc, if_neg short]
    rw [not_or, span.ptr_eq_zero_iff baseNonzero, BitVec.lt_def,
      BitVec.toNat_setWidth, BitVec.toNat_sub] at short
    have countPos : 0 < count := by omega
    have ptrLe := span.ptrLe countPos
    have ptrGe := span.ptrGe countPos
    obtain ⟨taken, moved⟩ := span.take countPos (heapAlignedSize size) (by omega)
    refine ⟨taken, by omega, fun _ => ⟨countPos, ?_⟩⟩
    rw [moved]
    simp only [heapTake]
    omega

theorem HeapSpan.allocs (baseNonzero : base ≠ 0) (room : base.toNat + total * 4096 < 2 ^ 64)
    {count : Nat} (span : HeapSpan base total count heap) {sizes : List U32}
    (small : ∀ size ∈ sizes, size.toNat < 2 ^ 31) :
    ∃ later, HeapSpan base total later (heapAllocs heap sizes).2 ∧
        heap.heapPtr.toNat ≤ (heapAllocs heap sizes).2.heapPtr.toNat ∧
        (∀ block ∈ (heapAllocs heap sizes).1, 0 < later ∧ base.toNat ≤ block.start.toNat ∧
          heap.heapPtr.toNat ≤ block.start.toNat ∧
          block.stop ≤ (heapAllocs heap sizes).2.heapPtr.toNat) ∧
        (heapAllocs heap sizes).1.Pairwise
          (fun first second => first.stop ≤ second.start.toNat) := by
  induction sizes generalizing count heap with
  | nil => exact ⟨count, span, le_refl _, by simp [heapAllocs]⟩
  | cons size sizes ih =>
    obtain ⟨middle, first, firstLe, firstBlock⟩ :=
      span.alloc baseNonzero room (small size mem_cons_self)
    obtain ⟨later, last, lastLe, laterBlocks, laterOrder⟩ := ih first
        (fun other member => small other (mem_cons_of_mem _ member))
    refine ⟨later, ?_⟩
    simp only [heapAllocs]
    by_cases null : (heapAlloc heap size).1 = 0
    · rw [if_pos null]
      refine ⟨last, by omega, ?_, laterOrder⟩
      intro block member
      obtain ⟨laterPos, baseLe, ptrLe, stopLe⟩ := laterBlocks block member
      exact ⟨laterPos, baseLe, by omega, stopLe⟩
    · rw [if_neg null]
      obtain ⟨middlePos, baseLe, ptrLe, stopLe⟩ := firstBlock null
      have laterPos : 0 < later := by
        by_contra zero
        have unused := last.unused (by omega)
        rw [unused] at lastLe
        simp only [BitVec.ofNat_eq_ofNat, BitVec.toNat_ofNat] at lastLe
        apply null
        apply BitVec.eq_of_toNat_eq
        simp only [BitVec.ofNat_eq_ofNat, BitVec.toNat_ofNat]
        omega
      refine ⟨last, by omega, ?_, ?_⟩
      · intro block member
        rcases mem_cons.mp member with isFirst | isLater
        · subst isFirst
          exact ⟨laterPos, baseLe, ptrLe, stopLe.trans lastLe⟩
        · obtain ⟨_, baseLe, ptrLe, stopLe⟩ := laterBlocks block isLater
          exact ⟨laterPos, baseLe, by omega, stopLe⟩
      · rw [pairwise_cons]
        refine ⟨?_, laterOrder⟩
        intro block member
        obtain ⟨_, _, ptrLe, _⟩ := laterBlocks block member
        exact stopLe.trans ptrLe

end Span

/-! ## A contiguous supply makes the heap safe -/

theorem Contiguous.eq_progression {base : U64} {rest : List U64}
    (contiguous : Contiguous (base :: rest)) :
    base :: rest = WordLoop.progression pageSize base (rest.length + 1) := by
  induction rest generalizing base with
  | nil => simp [WordLoop.progression]
  | cons next rest ih =>
    obtain ⟨follows, later⟩ := isChain_cons_cons.mp contiguous
    have tail := ih later
    rw [length_cons, WordLoop.progression_succ, ← follows, ← tail]

theorem progression_room {base : U64} {count : Nat}
    (physical : ∀ frame ∈ WordLoop.progression pageSize base count, frame.toNat < 2 ^ 52) :
    base.toNat + count * 4096 < 2 ^ 64 := by
  induction count with
  | zero =>
    have baseLt := base.isLt
    omega
  | succ count ih =>
    rw [WordLoop.progression_concat] at physical
    have room := ih (fun frame member => physical frame (mem_append_left _ member))
    have last := physical (WordLoop.counterAt pageSize base count) (by simp)
    have fits : base.toNat + count * pageSize.toNat < 2 ^ 64 := by
      rw [toNat_pageSize]
      exact room
    rw [WordLoop.toNat_counterAt fits, toNat_pageSize] at last
    lia

theorem HeapSpan.inside {base : U64} {total count : Nat}
    (room : base.toNat + total * 4096 < 2 ^ 64) (span : HeapSpan base total count heap)
    {block : HeapBlock} (countPos : 0 < count) (startGe : base.toNat ≤ block.start.toNat)
    (stopLe : block.stop ≤ heap.heapPtr.toNat) :
    block.Inside heap.frames := by
  intro byte byteGe byteLt
  have ptrLe := span.ptrLe countPos
  have stop := span.stop countPos
  have countLe := span.countLe
  have indexLt : (byte - base.toNat) / 4096 < count := by omega
  have fits : base.toNat + (byte - base.toNat) / 4096 * pageSize.toNat < 2 ^ 64 := by
    rw [toNat_pageSize]
    lia
  have value := WordLoop.toNat_counterAt fits
  rw [toNat_pageSize] at value
  refine ⟨WordLoop.counterAt pageSize base ((byte - base.toNat) / 4096), ?_, by omega, by omega⟩
  rw [span.frames, WordLoop.progression]
  exact mem_map.mpr ⟨_, mem_range.mpr indexLt, rfl⟩

theorem heapSafe_of_contiguous (valid : FrameSupply supply)
    (contiguous : Contiguous (suppliedFrames supply)) {sizes : List U32}
    (small : ∀ size ∈ sizes, size.toNat < 2 ^ 31) :
    HeapSafe supply sizes := by
  obtain ⟨base, total, baseNonzero, room, span⟩ : ∃ base total,
      base ≠ 0 ∧ base.toNat + total * 4096 < 2 ^ 64 ∧
        HeapSpan base total 0 (Heap.initial supply) := by
    cases shape : suppliedFrames supply with
    | nil =>
      refine ⟨1, 0, by decide, by decide, ?_⟩
      exact {
        countLe := le_refl _
        frames := rfl
        rest := shape
        unused := fun _ => rfl
        ptrGe := by omega
        ptrLe := by omega
        stop := by omega
      }
    | cons base rest =>
      rw [shape] at contiguous
      have progression := contiguous.eq_progression
      have members : ∀ frame ∈ base :: rest, frame ∈ supply ∧ frame ≠ 0 := by
        intro frame member
        rw [← shape, suppliedFrames, mem_filter] at member
        exact ⟨member.1, by simpa using member.2⟩
      refine ⟨base, rest.length + 1, (members base (by simp)).2, ?_, ?_⟩
      · apply progression_room
        intro frame member
        rw [← progression] at member
        exact valid.physical frame (members frame member).1
      · exact {
          countLe := Nat.zero_le _
          frames := rfl
          rest := by
            rw [WordLoop.counterAt_zero, Nat.sub_zero, ← progression]
            exact shape
          unused := fun _ => rfl
          ptrGe := by omega
          ptrLe := by omega
          stop := by omega
        }
  obtain ⟨later, last, _, blocks, order⟩ := span.allocs baseNonzero room small
  constructor
  · intro block member
    obtain ⟨laterPos, startGe, _, stopLe⟩ := blocks block member
    exact last.inside room laterPos startGe stopLe
  · refine order.imp ?_
    intro first second ordered byte _ firstLt secondRange
    omega

/-! ## A gap in the supply makes a run of page-sized requests unsafe -/

theorem heapAlloc_page (shape : heap.supply = page :: supply)
    (usedUp : heap.heapPtr = heap.heapEnd) :
    heapAlloc heap 4096 =
      if page = 0 then (0, { heap with supply })
      else heapTake (heapAddPage heap page supply) 4096 := by
  have short : heap.heapPtr = 0 ∨
      (heap.heapEnd - heap.heapPtr).setWidth 32 < heapAlignedSize 4096 := by
    right
    rw [usedUp, sub_self]
    decide
  have grown : heapGrowPages (heapGrowCount (heapAlignedSize 4096)).toNat heap =
      if page = 0 then (false, { heap with supply })
      else (true, heapAddPage heap page supply) := by
    rw [show (heapGrowCount (heapAlignedSize 4096)).toNat = 1 by decide]
    simp only [heapGrowPages, shape]
  simp only [heapAlloc, if_pos short, heapGrow, grown]
  by_cases null : page = 0
  · simp only [if_pos null]
    rfl
  · have used : (heapAddPage heap page supply).heapPtr ≠ 0 := by
      simp only [heapAddPage]
      split
      · exact null
      · assumption
    simp only [if_neg null, if_neg used]
    rfl

/-- The bump pointer stands at the end of `last`, the highest frame so far. -/
structure HeapFull (last : U64) (heap : Heap) : Prop where
  ptr : heap.heapPtr = last + pageSize
  stop : heap.heapEnd = last + pageSize
  nonzero : last + pageSize ≠ 0
  highest : ∀ frame ∈ heap.frames, frame.toNat ≤ last.toNat

theorem toNat_add_pageSize {frame : U64} (physical : frame.toNat < 2 ^ 52) :
    (frame + pageSize).toNat = frame.toNat + 4096 := by
  rw [BitVec.toNat_add, toNat_pageSize]
  omega

theorem add_pageSize_ne_zero {frame : U64} (physical : frame.toNat < 2 ^ 52) :
    frame + pageSize ≠ 0 := by
  intro wrapped
  have value := toNat_add_pageSize physical
  rw [wrapped] at value
  simp at value

theorem HeapFull.next {last : U64} (full : HeapFull last heap)
    (lastPhysical : last.toNat < 2 ^ 52) (pagePhysical : page.toNat < 2 ^ 52)
    (follows : page = last + pageSize) (supply : List U64) :
    HeapFull page (heapTake (heapAddPage heap page supply) 4096).2 := by
  have pageValue := toNat_add_pageSize lastPhysical
  rw [← follows] at pageValue
  refine ⟨?_, rfl, add_pageSize_ne_zero pagePhysical, ?_⟩
  · have used : heap.heapPtr ≠ 0 := full.ptr ▸ full.nonzero
    simp only [heapTake, heapAddPage, if_neg used]
    rw [full.ptr, ← follows]
    rfl
  · intro frame member
    rcases mem_append.mp member with old | new
    · have bound := full.highest frame old
      omega
    · rw [List.mem_singleton.mp new]

theorem HeapFull.escapes {last : U64} (full : HeapFull last heap)
    (lastPhysical : last.toNat < 2 ^ 52) (lastAligned : last.toNat % 4096 = 0)
    (pageAligned : page.toNat % 4096 = 0) (gap : page ≠ last + pageSize) (supply : List U64) :
    ¬ HeapBlock.Inside ⟨last + pageSize, 4096⟩
      (heapTake (heapAddPage heap page supply) 4096).2.frames := by
  intro inside
  have startValue := toNat_add_pageSize lastPhysical
  obtain ⟨frame, member, frameLe, frameGt⟩ := inside (last + pageSize).toNat (le_refl _)
      (Nat.lt_add_of_pos_right (by show 0 < (4096 : U32).toNat; decide))
  rcases mem_append.mp member with old | new
  · have bound := full.highest frame old
    omega
  · rw [List.mem_singleton.mp new] at frameLe frameGt
    exact gap (BitVec.eq_of_toNat_eq (by omega))

/-- A run of page-sized requests hands out a block outside the frames. -/
def PageRunEscapes (heap : Heap) : Prop :=
  ∃ count, ∃ block ∈ (heapAllocs heap (replicate count 4096)).1,
    ¬ block.Inside (heapAllocs heap (replicate count 4096)).2.frames

theorem PageRunEscapes.of_later (later : PageRunEscapes (heapAlloc heap 4096).2) :
    PageRunEscapes heap := by
  obtain ⟨count, block, member, escapes⟩ := later
  refine ⟨count + 1, block, ?_, escapes⟩
  simp only [replicate_succ, heapAllocs]
  split
  · exact member
  · exact mem_cons_of_mem _ member

theorem HeapFull.pageRunEscapes {last : U64} (shape : heap.supply = supply)
    (full : HeapFull last heap) (physical : ∀ frame ∈ last :: supply, frame.toNat < 2 ^ 52)
    (aligned : ∀ frame ∈ last :: supply, frame.toNat % 4096 = 0)
    (gap : ¬ Contiguous (last :: suppliedFrames supply)) :
    PageRunEscapes heap := by
  induction supply generalizing last heap with
  | nil => exact (gap (isChain_singleton last)).elim
  | cons page supply ih =>
    have alloc := heapAlloc_page shape (full.ptr.trans full.stop.symm)
    have lastPhysical := physical last mem_cons_self
    by_cases null : page = 0
    · rw [if_pos null] at alloc
      rw [suppliedFrames, filter_cons_of_neg (by simp [null])] at gap
      apply PageRunEscapes.of_later
      rw [alloc]
      refine ih rfl ⟨full.ptr, full.stop, full.nonzero, full.highest⟩ ?_ ?_ gap
      · intro frame member
        exact physical frame (by grind)
      · intro frame member
        exact aligned frame (by grind)
    · rw [if_neg null] at alloc
      rw [suppliedFrames, filter_cons_of_pos (by simpa using null)]
        at gap
      by_cases follows : page = last + pageSize
      · apply PageRunEscapes.of_later
        rw [alloc]
        refine ih rfl
          (full.next lastPhysical (physical page (by simp)) follows supply)
          (fun frame member => physical frame (mem_cons_of_mem _ member))
          (fun frame member => aligned frame (mem_cons_of_mem _ member))
          ?_
        intro rest
        exact gap (isChain_cons_cons.mpr ⟨follows, rest⟩)
      · -- The request is served at the old end, but the frame lies elsewhere.
        have start : (heapTake (heapAddPage heap page supply) 4096).1 = last + pageSize := by
          simp only [heapTake, heapAddPage, full.ptr, if_neg full.nonzero]
        refine ⟨1, ⟨last + pageSize, 4096⟩, ?_, ?_⟩
        · simp only [replicate_one, heapAllocs, alloc, start, if_neg full.nonzero, mem_singleton]
        · simp only [replicate_one, heapAllocs, alloc]
          exact full.escapes lastPhysical (aligned last mem_cons_self)
            (aligned page (by simp)) follows supply

theorem pageRunEscapes_of_gap (physical : ∀ frame ∈ supply, frame.toNat < 2 ^ 52)
    (aligned : ∀ frame ∈ supply, frame.toNat % 4096 = 0)
    (gap : ¬ Contiguous (suppliedFrames supply)) :
    PageRunEscapes (Heap.initial supply) := by
  induction supply with
  | nil => exact (gap isChain_nil).elim
  | cons page supply ih =>
    have alloc : heapAlloc (Heap.initial (page :: supply)) 4096 = _ := heapAlloc_page rfl rfl
    apply PageRunEscapes.of_later
    by_cases null : page = 0
    · rw [if_pos null] at alloc
      rw [suppliedFrames, filter_cons_of_neg (by simp [null])] at gap
      rw [alloc]
      exact ih (fun frame member => physical frame (mem_cons_of_mem _ member))
        (fun frame member => aligned frame (mem_cons_of_mem _ member))
        gap
    · rw [if_neg null] at alloc
      rw [suppliedFrames, filter_cons_of_pos (by simpa using null)]
        at gap
      rw [alloc]
      refine HeapFull.pageRunEscapes rfl ?_ physical aligned gap
      exact {
        ptr := rfl
        stop := rfl
        nonzero := add_pageSize_ne_zero (physical page mem_cons_self)
        highest := by simp [heapTake, heapAddPage, Heap.initial]
      }

/--
The heap is safe for every sequence of requests exactly when `pmm_alloc` hands
out its frames in ascending order without a gap.
-/
theorem heap_safe_iff_contiguous (supply : List U64) (valid : FrameSupply supply) :
    (∀ sizes : List U32, (∀ size ∈ sizes, size.toNat < 2 ^ 31) →
        HeapSafe supply sizes) ↔
      Contiguous (suppliedFrames supply) := by
  constructor
  · intro safe
    by_contra gap
    obtain ⟨count, block, member, escapes⟩ := pageRunEscapes_of_gap valid.physical valid.aligned gap
    refine escapes ((safe _ ?_).1 block member)
    intro size sizeMember
    rw [eq_of_mem_replicate sizeMember]
    decide
  · intro contiguous sizes small
    exact heapSafe_of_contiguous valid contiguous small

/-- Two frames, one behind the other. -/
theorem heap_safe_iff_two_ascending :
    Contiguous (suppliedFrames [0x1000, 0x2000]) ∧
      ∀ sizes : List U32, (∀ size ∈ sizes, size.toNat < 2 ^ 31) →
        HeapSafe [0x1000, 0x2000] sizes := by
  have contiguous : Contiguous (suppliedFrames [0x1000, 0x2000]) := by
    simp [Contiguous, suppliedFrames, pageSize]
  refine ⟨contiguous, (heap_safe_iff_contiguous [0x1000, 0x2000] ?_).mpr contiguous⟩
  exact {
    nodup := by decide
    aligned := by simp
    physical := by simp
  }

/--
Two descending frames and two page-sized requests: the second block starts at
the end of the first frame, which the heap never obtained.
-/
theorem heap_unsafe_two_descending :
    FrameSupply [0x2000, 0x1000] ∧
      (heapAllocs (Heap.initial [0x2000, 0x1000]) [4096, 4096]).1 =
        [⟨0x2000, 4096⟩, ⟨0x3000, 4096⟩] ∧
      (heapAllocs (Heap.initial [0x2000, 0x1000]) [4096, 4096]).2.frames =
        [0x2000, 0x1000] ∧
      ¬ HeapSafe [0x2000, 0x1000] [4096, 4096] := by
  refine ⟨⟨by decide, by simp, by simp⟩, by decide, by decide, ?_⟩
  intro safe
  obtain ⟨frame, member, frameLe, frameGt⟩ :=
    safe.1 ⟨0x3000, 4096⟩ (by decide) 0x3000 (by decide) (by decide)
  have frames : frame = 0x2000 ∨ frame = 0x1000 := by
    rw [show (heapAllocs (Heap.initial [0x2000, 0x1000]) [4096, 4096]).2.frames =
      [0x2000, 0x1000] by decide] at member
    simpa using member
  rcases frames with rfl | rfl
  · exact absurd frameGt (by decide)
  · exact absurd frameGt (by decide)

end XKern
