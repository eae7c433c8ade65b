import XKern.Pmm

namespace XKern

open List

/-!
# The frame pool after boot

`pmm_init` pushes, entry by entry, the pages of the memory map that it takes
for usable RAM.  The first part computes the bounds of the page loop of one
entry; the second shows that the stack is the list of all offered frames cut
off at the capacity of the stack.

The loop of one entry stays inside the entry unless the entry is a `Runaway`:
its rounded end lies below its rounded start and below the top guard, so that
`stop -= PMM_TOP_GUARD` wraps around and the loop goes on to the top of the
address space.
-/

variable {entry : E820Entry} {addr : U64}

namespace E820Entry

/-- The map entry is RAM that `pmm_init` looks at. -/
def Usable (entry : E820Entry) : Prop :=
  entry.type = multibootMemoryAvailable ∧ entry.base < pmmMaxAddr

instance (entry : E820Entry) : Decidable entry.Usable :=
  inferInstanceAs (Decidable (_ ∧ _))

/-- The entry whose page loop runs to the top of the address space. -/
def Runaway (entry : E820Entry) : Prop :=
  entry.Usable ∧ entry.stop < entry.start ∧ entry.stop < pmmTopGuard

instance (entry : E820Entry) : Decidable entry.Runaway :=
  inferInstanceAs (Decidable (_ ∧ _))

/-- The entries do not overlap. -/
def Disjoint (first second : E820Entry) : Prop :=
  first.base.toNat + first.length.toNat ≤ second.base.toNat ∨
    second.base.toNat + second.length.toNat ≤ first.base.toNat ∨
    first.length.toNat = 0 ∨ second.length.toNat = 0

/-- The page at `addr` lies inside the entry. -/
def HoldsPage (entry : E820Entry) (addr : U64) : Prop :=
  entry.base.toNat ≤ addr.toNat ∧
    addr.toNat + 4096 ≤ entry.base.toNat + entry.length.toNat

/-! ## The bounds of the page loop -/

theorem toNat_start (low : entry.base < pmmMaxAddr) :
    entry.start.toNat = (entry.base.toNat + 4095) / 4096 * 4096 := by
  rw [BitVec.lt_def, toNat_pmmMaxAddr] at low
  have sum : (entry.base + pageSize - 1).toNat = entry.base.toNat + 4095 := by
    rw [pageSize]
    bv_omega
  rw [start, toNat_pageFloor, sum]
  omega

theorem toNat_clippedEnd (low : entry.base < pmmMaxAddr) :
    (entry.base + entry.clippedLength).toNat =
      if 2 ^ 64 ≤ entry.base.toNat + entry.length.toNat then
        entry.base.toNat + entry.length.toNat - 2 ^ 64
      else
        min (entry.base.toNat + entry.length.toNat) 0xC0000000 := by
  have lengthLt := entry.length.isLt
  have sum : (entry.base + entry.length).toNat =
      if 2 ^ 64 ≤ entry.base.toNat + entry.length.toNat then
        entry.base.toNat + entry.length.toNat - 2 ^ 64
      else
        entry.base.toNat + entry.length.toNat := by
    rw [BitVec.toNat_add]
    split <;> omega
  rw [BitVec.lt_def, toNat_pmmMaxAddr] at low
  unfold clippedLength
  by_cases clipped : pmmMaxAddr < entry.base + entry.length
  · have whole : entry.base + (pmmMaxAddr - entry.base) = pmmMaxAddr := by
      rw [add_sub_cancel]
    rw [if_pos clipped, whole, toNat_pmmMaxAddr]
    rw [BitVec.lt_def, sum, toNat_pmmMaxAddr] at clipped
    split at clipped <;> split <;> omega
  · rw [if_neg clipped, sum]
    rw [BitVec.lt_def, sum, toNat_pmmMaxAddr] at clipped
    split at clipped <;> split <;> omega

theorem guardedStop_cases (low : entry.base < pmmMaxAddr) :
    (entry.start ≤ entry.stop ∧ entry.start.toNat ≤ entry.guardedStop.toNat ∧
        entry.guardedStop.toNat ≤ entry.stop.toNat ∧
        entry.stop.toNat ≤ 0xC0000000 ∧
        entry.stop.toNat ≤ entry.base.toNat + entry.length.toNat) ∨
      (entry.stop < entry.start ∧ pmmTopGuard ≤ entry.stop ∧
        entry.guardedStop.toNat < entry.start.toNat) ∨
      (entry.stop < entry.start ∧ entry.stop < pmmTopGuard ∧
        entry.guardedStop.toNat + 0x1000000 = 2 ^ 64 + entry.stop.toNat) := by
  have startValue := toNat_start low
  have endValue := toNat_clippedEnd low
  have stopValue : entry.stop.toNat = _ := toNat_pageFloor (entry.base + entry.clippedLength)
  have guardValue : (pmmTopGuard * 2).toNat = 0x2000000 := rfl
  rw [BitVec.lt_def, toNat_pmmMaxAddr] at low
  have stopLe : entry.stop.toNat ≤ 0xC0000000 := by
    rw [stopValue]
    split at endValue <;> omega
  unfold guardedStop
  simp only [BitVec.lt_def, BitVec.le_def, toNat_pmmTopGuard, guardValue, BitVec.toNat_sub]
  by_cases ordered : entry.start.toNat ≤ entry.stop.toNat
  · refine .inl ⟨ordered, ?_⟩
    split at endValue
    · omega
    · split
      · rw [BitVec.toNat_sub, toNat_pmmTopGuard]
        omega
      · omega
  · refine .inr ?_
    rw [if_pos (by omega), BitVec.toNat_sub, toNat_pmmTopGuard]
    omega

theorem guardedStop_aligned (entry : E820Entry) : entry.guardedStop.toNat % 4096 = 0 := by
  have stopValue : entry.stop.toNat = _ := toNat_pageFloor (entry.base + entry.clippedLength)
  unfold guardedStop
  split
  · rw [BitVec.toNat_sub, toNat_pmmTopGuard]
    omega
  · omega

theorem start_aligned (entry : E820Entry) : entry.start.toNat % 4096 = 0 := by
  rw [start, toNat_pageFloor]
  omega

end E820Entry

/-! ## The stack is the list of offered frames, cut off at its capacity -/

/-- The test that a page passes before `pmm_init` pushes it. -/
def offered (image : KernelImage) (addr : U64) : Bool :=
  !pmmIsKernelRegion image addr && addr != 0

/-- The rounds of the page loop. -/
def E820Entry.rounds (entry : E820Entry) : Nat :=
  (entry.guardedStop.toNat - entry.start.toNat) / 4096

/-- The frames that the page loop of one entry offers to the stack. -/
def offeredFrames (image : KernelImage) (entry : E820Entry) : List U64 :=
  if entry.Usable then
    (WordLoop.progression pageSize entry.start entry.rounds).filter
      (offered image)
  else
    []

private theorem take_take_append (limit : Nat) (first second : List U64) :
    (first.take limit ++ second).take limit = (first ++ second).take limit := by
  simp only [take_append, take_take, length_take, min_self]
  congr 2
  omega

theorem pmmInitFrame_stack (image : KernelImage) (page : U64) (pmm : Pmm) :
    (pmmInitFrame image page pmm).stack =
      if offered image page then
        (pmm.stack ++ [page]).take pmmStackSize
      else
        pmm.stack := by
  unfold pmmInitFrame offered
  cases pmmIsKernelRegion image page with
  | true => simp
  | false => by_cases null : page = 0 <;> simp [pmmFree_stack, null]

theorem foldl_pmmInitFrame_stack (image : KernelImage) (pages : List U64) (pmm : Pmm) : (pages.foldl
        (fun current page => pmmInitFrame image page current) pmm).stack =
      (pmm.stack ++ pages.filter (offered image)).take pmmStackSize := by
  induction pages generalizing pmm with
  | nil =>
    rw [filter_nil, append_nil, take_of_length_le pmm.bounded]
    rfl
  | cons page rest ih =>
    rw [foldl_cons, ih, pmmInitFrame_stack]
    cases isOffered : offered image page with
    | true =>
      rw [if_pos rfl, take_take_append, append_assoc, filter_cons_of_pos isOffered]
      rfl
    | false =>
      rw [if_neg (by simp), filter_cons_of_neg (by simp [isOffered])]

theorem pmmInitEntry_stack (image : KernelImage) (pmm : Pmm) (entry : E820Entry) : ∃ next,
      pmmInitEntry image pmm entry = some next ∧ next.stack =
          (pmm.stack ++ offeredFrames image entry).take pmmStackSize := by
  have unchanged : pmm.stack = pmm.stack.take pmmStackSize := (take_of_length_le pmm.bounded).symm
  have startAligned := entry.start_aligned
  have stopAligned := entry.guardedStop_aligned
  by_cases high : pmmMaxAddr ≤ entry.base
  · have notUsable : ¬ entry.Usable := by
      intro usable
      exact absurd usable.2 (BitVec.not_lt.mpr high)
    refine ⟨pmm, by rw [pmmInitEntry, if_pos high], ?_⟩
    simpa [offeredFrames, notUsable] using unchanged
  · by_cases available : entry.type = multibootMemoryAvailable
    · have usable : entry.Usable := ⟨available, BitVec.not_le.mp high⟩
      have loop : WordLoop.forWords pageSize entry.guardedStop
          (pmmInitFrame image) pageLoopFuel entry.start pmm = _ :=
        WordLoop.forWords_eq_foldl (pmmInitFrame image) pmm entry.rounds (by
            intro index indexLt
            rw [E820Entry.rounds] at indexLt
            rw [toNat_pageSize]
            omega)
          (by
            rw [E820Entry.rounds, toNat_pageSize]
            omega)
          (by
            rw [E820Entry.rounds, toNat_pageSize]
            omega)
          (by
            rw [E820Entry.rounds, pageLoopFuel]
            omega)
      refine ⟨_, by rw [pmmInitEntry, if_neg high, if_pos available, loop], ?_⟩
      rw [foldl_pmmInitFrame_stack, offeredFrames, if_pos usable]
    · have notUsable : ¬ entry.Usable := fun usable => available usable.1
      refine ⟨pmm, by rw [pmmInitEntry, if_neg high, if_neg available], ?_⟩
      simpa [offeredFrames, notUsable] using unchanged

/-- `pmm_init` ends, with the offered frames up to the capacity of the stack. -/
theorem pmmInit_stack (image : KernelImage) (map : List E820Entry) : ∃ pmm,
      pmmInit image map = some pmm ∧ pmm.stack =
          (map.flatMap (offeredFrames image)).take pmmStackSize := by
  have general : ∀ start : Pmm, ∃ pmm, map.foldlM (pmmInitEntry image) start = some pmm ∧
        pmm.stack = (start.stack ++ map.flatMap (offeredFrames image)).take pmmStackSize := by
    induction map with
    | nil =>
      intro start
      refine ⟨start, rfl, ?_⟩
      simpa using (take_of_length_le start.bounded).symm
    | cons entry rest ih =>
      intro start
      obtain ⟨next, step, nextStack⟩ := pmmInitEntry_stack image start entry
      obtain ⟨pmm, run, stack⟩ := ih next
      refine ⟨pmm, ?_, ?_⟩
      · rw [foldlM_cons, step]
        exact run
      · rw [stack, nextStack, take_take_append, flatMap_cons, append_assoc]
  obtain ⟨pmm, run, stack⟩ := general _
  exact ⟨pmm, run, by simpa using stack⟩

/-! ## Which frames an entry offers -/

variable {image : KernelImage}

theorem mem_offeredFrames (member : addr ∈ offeredFrames image entry) :
    entry.Usable ∧ offered image addr = true ∧ entry.start.toNat ≤ addr.toNat ∧
      addr.toNat + 4096 ≤ entry.guardedStop.toNat ∧
      addr.toNat % 4096 = 0 := by
  have startAligned := entry.start_aligned
  have stopAligned := entry.guardedStop_aligned
  unfold offeredFrames at member
  split at member
  · rename_i usable
    obtain ⟨inLoop, isOffered⟩ := mem_filter.mp member
    rw [WordLoop.mem_progression
      (by rw [E820Entry.rounds, toNat_pageSize]; omega) (by decide)] at inLoop
    obtain ⟨index, indexLt, value⟩ := inLoop
    rw [E820Entry.rounds] at indexLt
    rw [toNat_pageSize] at value
    exact ⟨usable, isOffered, by omega, by omega, by omega⟩
  · simp at member

theorem nodup_offeredFrames (image : KernelImage) (entry : E820Entry) :
    (offeredFrames image entry).Nodup := by
  have stopLt := entry.guardedStop.isLt
  have startLt := entry.start.isLt
  unfold offeredFrames
  split
  · refine List.Nodup.filter _ (WordLoop.nodup_progression ?_ (by decide))
    rw [E820Entry.rounds, toNat_pageSize]
    omega
  · exact nodup_nil

theorem holdsPage_of_tame (tame : ¬ entry.Runaway) (member : addr ∈ offeredFrames image entry) :
    entry.HoldsPage addr ∧ addr.toNat + 4096 ≤ 0xC0000000 := by
  obtain ⟨usable, _, startLe, stopGe, _⟩ := mem_offeredFrames member
  have startValue := E820Entry.toNat_start usable.2
  rcases E820Entry.guardedStop_cases usable.2 with
    ⟨_, _, guardedLe, stopLow, stopInside⟩ |
    ⟨_, _, guardedLow⟩ |
    ⟨inverted, low, _⟩
  · exact ⟨⟨by omega, by omega⟩, by omega⟩
  · omega
  · exact (tame ⟨usable, inverted, low⟩).elim

theorem offered_of_high (high : 2 ^ 32 ≤ addr.toNat) : offered image addr = true := by
  have linkedLow := image.linkedLow
  have notNull : addr ≠ 0 := by
    rintro rfl
    simp at high
  have notKernel : ¬ addr < image.kernelEnd := by
    rw [BitVec.lt_def]
    omega
  simpa [offered, pmmIsKernelRegion, notKernel] using notNull

theorem runaway_fills (image : KernelImage) (runaway : entry.Runaway) :
    pmmStackSize ≤ (offeredFrames image entry).length := by
  obtain ⟨usable, inverted, low⟩ := runaway
  have startValue := E820Entry.toNat_start usable.2
  have baseLow := usable.2
  rw [BitVec.lt_def, toNat_pmmMaxAddr] at baseLow
  have guarded : entry.guardedStop.toNat + 0x1000000 = 2 ^ 64 + entry.stop.toNat := by
    rcases E820Entry.guardedStop_cases usable.2 with
      ⟨ordered, _⟩ | ⟨_, atLeast, _⟩ | ⟨_, _, value⟩
    · exact (BitVec.not_le.mpr inverted ordered).elim
    · exact (BitVec.not_le.mpr low atLeast).elim
    · exact value
  have rounds : 2 ^ 20 + pmmStackSize ≤ entry.rounds := by
    rw [E820Entry.rounds, pmmStackSize]
    omega
  -- every page past the first 2^20 of the loop lies above 4 GiB
  have tail : ((WordLoop.progression pageSize entry.start entry.rounds).drop
      (2 ^ 20)).filter (offered image) =
        (WordLoop.progression pageSize entry.start entry.rounds).drop (2 ^ 20) := by
    rw [filter_eq_self]
    intro addr member
    simp only [WordLoop.progression, ← map_drop, mem_map] at member
    obtain ⟨index, indexMember, rfl⟩ := member
    rw [mem_iff_getElem] at indexMember
    obtain ⟨position, positionLt, value⟩ := indexMember
    simp only [length_drop, length_range] at positionLt
    simp only [getElem_drop, getElem_range] at value
    apply offered_of_high
    rw [E820Entry.rounds] at positionLt
    rw [WordLoop.toNat_counterAt] <;> rw [toNat_pageSize] <;> omega
  rw [offeredFrames, if_pos usable]
  calc pmmStackSize ≤ ((WordLoop.progression pageSize entry.start entry.rounds).drop
          (2 ^ 20)).length := by
        rw [length_drop, WordLoop.length_progression]
        omega
    _ = (((WordLoop.progression pageSize entry.start entry.rounds).drop
          (2 ^ 20)).filter (offered image)).length := by
        rw [tail]
    _ ≤ ((WordLoop.progression pageSize entry.start entry.rounds).filter (offered image)).length :=
        ((drop_sublist _ _).filter _).length_le

theorem nodup_flatMap_offeredFrames (image : KernelImage) {map : List E820Entry}
    (disjoint : map.Pairwise E820Entry.Disjoint) (tame : ∀ entry ∈ map, ¬ entry.Runaway) :
    (map.flatMap (offeredFrames image)).Nodup := by
  rw [nodup_flatMap]
  refine ⟨fun entry _ => nodup_offeredFrames image entry, ?_⟩
  refine disjoint.imp_of_mem ?_
  intro first second firstMember secondMember apart addr inFirst inSecond
  obtain ⟨firstLow, firstHigh⟩ := (holdsPage_of_tame (tame first firstMember) inFirst).1
  obtain ⟨secondLow, secondHigh⟩ := (holdsPage_of_tame (tame second secondMember) inSecond).1
  rcases apart with firstBelow | secondBelow | firstEmpty | secondEmpty
  · omega
  · omega
  · omega
  · omega

/-! ## Soundness of the pool -/

/-- What every address on the stack has to satisfy after `pmm_init`. -/
structure PoolSound
    (image : KernelImage)
    (map : List E820Entry)
    (stack : List U64) : Prop where
  nonzero : ∀ addr ∈ stack, addr ≠ 0
  aligned : ∀ addr ∈ stack, addr.toNat % 4096 = 0
  once : stack.Nodup
  inside : ∀ addr ∈ stack, ∃ entry ∈ map,
    entry.type = multibootMemoryAvailable ∧ entry.HoldsPage addr
  below : ∀ addr ∈ stack, addr.toNat + 4096 ≤ pmmMaxAddr.toNat
  outsideKernel : ∀ addr ∈ stack, pmmIsKernelRegion image addr = false

/--
The frames with which a first runaway entry fills up the stack happen to be
pages of available entries below `PMM_MAX_ADDR` that no earlier entry offers.
-/
def RunawayHarmless (image : KernelImage) (map : List E820Entry) : Prop :=
  ∀ before entry after,
    map = before ++ entry :: after →
    (∀ earlier ∈ before, ¬ earlier.Runaway) →
    entry.Runaway →
    ∀ addr ∈ (offeredFrames image entry).take
        (pmmStackSize - (before.flatMap (offeredFrames image)).length),
      (∃ holder ∈ map,
        holder.type = multibootMemoryAvailable ∧ holder.HoldsPage addr) ∧
      addr.toNat + 4096 ≤ pmmMaxAddr.toNat ∧
      addr ∉ before.flatMap (offeredFrames image)

theorem flatMap_offeredFrames_frame {map : List E820Entry}
    (member : addr ∈ map.flatMap (offeredFrames image)) :
    addr ≠ 0 ∧ addr.toNat % 4096 = 0 ∧ pmmIsKernelRegion image addr = false := by
  obtain ⟨entry, _, inEntry⟩ := mem_flatMap.mp member
  obtain ⟨_, isOffered, _, _, aligned⟩ := mem_offeredFrames inEntry
  simp only [offered, Bool.and_eq_true, Bool.not_eq_true', bne_iff_ne]
    at isOffered
  exact ⟨isOffered.2, aligned, isOffered.1⟩

/-- The frames of tame entries lie inside available entries, below the limit. -/
theorem flatMap_offeredFrames_inside {map : List E820Entry}
    (tame : ∀ entry ∈ map, ¬ entry.Runaway) (member : addr ∈ map.flatMap (offeredFrames image)) :
    (∃ entry ∈ map, entry.type = multibootMemoryAvailable ∧ entry.HoldsPage addr) ∧
      addr.toNat + 4096 ≤ pmmMaxAddr.toNat := by
  obtain ⟨entry, entryMember, inEntry⟩ := mem_flatMap.mp member
  obtain ⟨holds, low⟩ := holdsPage_of_tame (tame entry entryMember) inEntry
  have usable := (mem_offeredFrames inEntry).1
  exact ⟨⟨entry, entryMember, usable.1, holds⟩, low⟩

theorem exists_first_runaway {map : List E820Entry} (some : ¬ ∀ entry ∈ map, ¬ entry.Runaway) :
    ∃ before entry after, map = before ++ entry :: after ∧ (∀ earlier ∈ before, ¬ earlier.Runaway) ∧
        entry.Runaway := by
  induction map with
  | nil => simp at some
  | cons head rest ih =>
    by_cases headRuns : head.Runaway
    · exact ⟨[], head, rest, rfl, by simp, headRuns⟩
    · have inRest : ¬ ∀ entry ∈ rest, ¬ entry.Runaway := by
        intro tame
        apply some
        intro entry member
        rcases mem_cons.mp member with isHead | inRest
        · exact isHead ▸ headRuns
        · exact tame entry inRest
      obtain ⟨before, entry, after, shape, tame, runs⟩ := ih inRest
      refine ⟨head :: before, entry, after, by rw [shape]; rfl, ?_, runs⟩
      intro earlier member
      rcases mem_cons.mp member with isHead | inBefore
      · exact isHead ▸ headRuns
      · exact tame earlier inBefore

theorem take_of_first_runaway (image : KernelImage) (before after : List E820Entry)
    (runs : entry.Runaway) :
    ((before ++ entry :: after).flatMap (offeredFrames image)).take pmmStackSize =
      (before.flatMap (offeredFrames image)).take pmmStackSize ++ (offeredFrames image entry).take
          (pmmStackSize - (before.flatMap (offeredFrames image)).length) := by
  have fills := runaway_fills image runs
  rw [flatMap_append, flatMap_cons, take_append, take_append_of_le_length (by omega)]

theorem runawayHarmless_of_sound {map : List E820Entry}
    (sound : PoolSound image map ((map.flatMap (offeredFrames image)).take pmmStackSize)) :
    RunawayHarmless image map := by
  intro before entry after shape _ runs addr member
  have split := take_of_first_runaway image before after runs
  rw [← shape] at split
  rw [split] at sound
  have onStack := mem_append_right ((before.flatMap (offeredFrames image)).take pmmStackSize) member
  refine ⟨sound.inside addr onStack, sound.below addr onStack, ?_⟩
  intro earlier
  have room : (before.flatMap (offeredFrames image)).length ≤ pmmStackSize := by
    by_contra full
    rw [Nat.sub_eq_zero_of_le (by omega)] at member
    simp at member
  have once := sound.once
  rw [take_of_length_le room] at once
  exact (List.nodup_append.mp once).2.2 addr earlier addr member rfl

theorem inside_of_runawayHarmless {map : List E820Entry} (harmless : RunawayHarmless image map)
    (member : addr ∈ (map.flatMap (offeredFrames image)).take pmmStackSize) :
    (∃ entry ∈ map, entry.type = multibootMemoryAvailable ∧ entry.HoldsPage addr) ∧
      addr.toNat + 4096 ≤ pmmMaxAddr.toNat := by
  by_cases tame : ∀ entry ∈ map, ¬ entry.Runaway
  · exact flatMap_offeredFrames_inside tame (mem_of_mem_take member)
  · obtain ⟨before, entry, after, shape, tameBefore, runs⟩ := exists_first_runaway tame
    have here := harmless before entry after shape tameBefore runs
    rw [shape, take_of_first_runaway image before after runs] at member
    rcases mem_append.mp member with early | late
    · obtain ⟨⟨holder, holderMember, holds⟩, low⟩ :=
        flatMap_offeredFrames_inside tameBefore (mem_of_mem_take early)
      refine ⟨⟨holder, ?_, holds⟩, low⟩
      rw [shape]
      exact mem_append_left _ holderMember
    · exact ⟨(here addr late).1, (here addr late).2.1⟩

theorem nodup_of_runawayHarmless {map : List E820Entry}
    (disjoint : map.Pairwise E820Entry.Disjoint) (harmless : RunawayHarmless image map) :
    ((map.flatMap (offeredFrames image)).take pmmStackSize).Nodup := by
  by_cases tame : ∀ entry ∈ map, ¬ entry.Runaway
  · exact (nodup_flatMap_offeredFrames image disjoint tame).sublist (take_sublist _ _)
  · obtain ⟨before, entry, after, shape, tameBefore, runs⟩ := exists_first_runaway tame
    have here := harmless before entry after shape tameBefore runs
    rw [shape] at disjoint
    have nodupBefore := nodup_flatMap_offeredFrames image
      (pairwise_append.mp disjoint).1 tameBefore
    rw [shape, take_of_first_runaway image before after runs, nodup_append]
    refine ⟨nodupBefore.sublist (take_sublist _ _),
      (nodup_offeredFrames image entry).sublist (take_sublist _ _), ?_⟩
    intro early earlyMember late lateMember same
    subst same
    exact (here early lateMember).2.2 (mem_of_mem_take earlyMember)

/--
After `pmm_init` on a map of disjoint entries the stack is sound exactly when
no runaway entry does harm.
-/
theorem pmmInit_sound_iff (image : KernelImage) (map : List E820Entry)
    (disjoint : map.Pairwise E820Entry.Disjoint) :
    ∃ pmm,
      pmmInit image map = some pmm ∧
        (PoolSound image map pmm.stack ↔ RunawayHarmless image map) := by
  obtain ⟨pmm, run, stack⟩ := pmmInit_stack image map
  refine ⟨pmm, run, ?_⟩
  rw [stack]
  constructor
  · exact runawayHarmless_of_sound
  · intro harmless
    exact {
      nonzero := fun addr member =>
        (flatMap_offeredFrames_frame (mem_of_mem_take member)).1
      aligned := fun addr member =>
        (flatMap_offeredFrames_frame (mem_of_mem_take member)).2.1
      once := nodup_of_runawayHarmless disjoint harmless
      inside := fun addr member =>
        (inside_of_runawayHarmless harmless member).1
      below := fun addr member =>
        (inside_of_runawayHarmless harmless member).2
      outsideKernel := fun addr member =>
        (flatMap_offeredFrames_frame (mem_of_mem_take member)).2.2
    }

def smallImage : KernelImage where
  kernelStart := 0x100000
  kernelEnd := 0x200000
  linkedLow := by decide

/-- The criterion at a map with low memory and the memory above 1 MiB. -/
theorem pmmInit_sound_iff_pc_map :
    [(⟨0, 0x9FC00, 1, 0⟩ : E820Entry), ⟨0x100000, 0x7EF0000, 1, 0⟩].Pairwise
        E820Entry.Disjoint ∧
      ∃ pmm,
        pmmInit smallImage
            [⟨0, 0x9FC00, 1, 0⟩, ⟨0x100000, 0x7EF0000, 1, 0⟩] = some pmm ∧
          (PoolSound smallImage
              [⟨0, 0x9FC00, 1, 0⟩, ⟨0x100000, 0x7EF0000, 1, 0⟩] pmm.stack ↔
            RunawayHarmless smallImage
              [⟨0, 0x9FC00, 1, 0⟩, ⟨0x100000, 0x7EF0000, 1, 0⟩]) := by
  have disjoint : [(⟨0, 0x9FC00, 1, 0⟩ : E820Entry), ⟨0x100000, 0x7EF0000, 1, 0⟩].Pairwise
        E820Entry.Disjoint := by
    simp [E820Entry.Disjoint]
  exact ⟨disjoint, pmmInit_sound_iff smallImage _ disjoint⟩

/--
A single available entry of sixteen bytes at `0x1001` holds no page at all,
yet `pmm_init` pushes the page at `0x2000` and goes on from there.
-/
theorem pmmInit_unsound_subpage_entry :
    [(⟨0x1001, 0x10, 1, 0⟩ : E820Entry)].Pairwise E820Entry.Disjoint ∧
      ∃ pmm,
        pmmInit smallImage [⟨0x1001, 0x10, 1, 0⟩] = some pmm ∧
          0x2000 ∈ pmm.stack ∧
          ¬ PoolSound smallImage [⟨0x1001, 0x10, 1, 0⟩] pmm.stack := by
  refine ⟨pairwise_singleton _ _, ?_⟩
  obtain ⟨pmm, run, stack⟩ := pmmInit_stack smallImage [⟨0x1001, 0x10, 1, 0⟩]
  have pushed : 0x2000 ∈ pmm.stack := by
    have rounds : (⟨0x1001, 0x10, 1, 0⟩ : E820Entry).rounds = (2 ^ 52 - 4098) + 1 := by
      decide
    have start : (⟨0x1001, 0x10, 1, 0⟩ : E820Entry).start = 0x2000 := by
      decide
    rw [stack, flatMap_singleton, offeredFrames,
      if_pos (by decide), rounds, WordLoop.progression_succ, start,
      filter_cons_of_pos (by decide),
      show pmmStackSize = 65535 + 1 from rfl, take_succ_cons]
    exact mem_cons_self
  refine ⟨pmm, run, pushed, ?_⟩
  intro sound
  obtain ⟨entry, member, _, holds⟩ := sound.inside _ pushed
  rw [mem_singleton] at member
  rw [member] at holds
  exact absurd holds (by simp [E820Entry.HoldsPage])

end XKern
