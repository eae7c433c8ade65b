import XKern.PagingMap

namespace XKern

open RadixStore List Option

/-!
# Cloning an address space

`paging_clone_pd`, `paging_vfork_clone` and `paging_init` all pop a frame, fill
it with copies of slots of the current PML4 and give it its own recursive
entry.  They differ in the slots that are copied.  The flag handling of
`cli_save` and `if_restore` has no effect on memory and is left out.
-/

/-- The contents of a new PML4 that copies the slots in `keep`. -/
def rootSlots (memory : Memory) (cr3 newPml4 : U64) (keep : Fin 512 → Bool)
    (i : Fin 512) : U64 :=
  if i = 511 then newPml4 ||| pagePresent ||| pageWrite
  else if keep i then memory (ptPtr cr3) i
  else 0

/-- The slots that a new task shares: the identity tree and the kernel half. -/
def sharedSlot (i : Fin 512) : Bool :=
  i = 0 || 256 ≤ i.val

/-- Memory after `paging_clone_pd` filled the new PML4. -/
def clonedMemory (memory : Memory) (cr3 newPml4 : U64) : Memory :=
  let zeroed := zeroPageTable memory newPml4
  zeroed.fill (ptPtr newPml4) (rootSlots zeroed cr3 newPml4 sharedSlot)

/-- `paging_clone_pd`: the new PML4, or zero. -/
def pagingClonePd (machine : Machine) : U64 × Machine :=
  match pmmAlloc machine.pmm with
  | (newPml4, pmm) =>
      if newPml4 = 0 then
        (0, { machine with pmm })
      else
        (newPml4,
          { machine with
            pmm
            memory := clonedMemory machine.memory machine.cr3 newPml4 })

/-- `paging_vfork_clone`: the new PML4, or zero. -/
def pagingVforkClone (machine : Machine) : U64 × Machine :=
  match pmmAlloc machine.pmm with
  | (newPml4, pmm) =>
      if newPml4 = 0 then
        (0, { machine with pmm })
      else
        (newPml4,
          { machine with
            pmm
            memory := machine.memory.fill (ptPtr newPml4)
              (rootSlots machine.memory machine.cr3 newPml4 fun _ => true) })

/-- `paging_init`; the result of `pmm_alloc` is not checked. -/
def pagingInit (machine : Machine) : Machine :=
  match pmmAlloc machine.pmm with
  | (newPml4, pmm) =>
      pagingLoadCr3 newPml4
        { machine with
          pmm
          memory := clonedMemory machine.memory machine.cr3 newPml4 }

/-! ## A new root -/

/-- A frame is popped and becomes a PML4 that copies slots of the current one. -/
structure RootStep
    (keep : Fin 512 → Bool)
    (fresh : U64)
    (before after : Machine) : Prop where
  stack : before.pmm.stack = after.pmm.stack ++ [fresh]
  elsewhere : ∀ other, other ≠ fresh → after.memory other = before.memory other
  slots : ∀ i, after.memory fresh i =
    rootSlots before.memory before.cr3 fresh keep i

variable {roots : Set U64} {fresh va : U64} {before after : Machine}

namespace RootStep

variable {keep : Fin 512 → Bool}

section

variable (step : RootStep keep fresh before after)

include step

theorem fresh_mem : fresh ∈ before.pmm.stack := by
  rw [step.stack]
  simp

theorem freshTable (wellFormed : WellFormed roots before) : IsTable fresh :=
  (isTable_iff _).mpr ⟨(wellFormed.valid.frames _ step.fresh_mem).aligned,
    wellFormed.spareLow _ step.fresh_mem⟩

theorem unreached (wellFormed : WellFormed roots before) :
    Unreached tableLink before.memory roots fresh :=
  wellFormed.spare fresh step.fresh_mem

theorem slot_cases (i : Fin 512) :
    after.memory fresh i = before.memory (ptPtr before.cr3) i ∨
      tableLink 0 i (after.memory fresh i) = none := by
  rw [step.slots, rootSlots]
  split
  · rename_i recursive
    right
    simp [tableLink, recursive]
  · split
    · exact .inl rfl
    · exact .inr (tableLink_absent _ _ (by decide))

theorem sameAlong (wellFormed : WellFormed roots before) {root : U64} (member : root ∈ roots)
    (query : List (Fin 512)) :
    SameAlong tableLink before.memory after.memory 0 root query :=
  sameAlong_of_unreached (step.unreached wellFormed) step.elsewhere member query

theorem tableAt_fresh (wellFormed : WellFormed roots before) (current : ptPtr before.cr3 ∈ roots)
    {path : List (Fin 512)} {found : U64}
    (reached : tableAt tableLink after.memory fresh path = some found) :
    (path = [] ∧ found = fresh) ∨
      (path ≠ [] ∧ tableAt tableLink before.memory (ptPtr before.cr3) path = some found) :=
  tableAt_fresh_root (step.unreached wellFormed) step.elsewhere current step.slot_cases reached

theorem wellFormed (wellFormed : WellFormed roots before) (current : ptPtr before.cr3 ∈ roots) :
    WellFormed (insert fresh roots) after := by
  have unreached := step.unreached wellFormed
  have nodup := wellFormed.valid.nodup
  rw [step.stack] at nodup
  have stackSubset : ∀ frame ∈ after.pmm.stack, frame ∈ before.pmm.stack := by
    intro frame member
    rw [step.stack]
    exact mem_append_left _ member
  -- Apart from the new root itself, every table is one of an old space.
  have origin : ∀ root ∈ insert fresh roots, ∀ path found,
      tableAt tableLink after.memory root path = some found →
      (path = [] ∧ found = fresh) ∨ ∃ old ∈ roots,
          tableAt tableLink before.memory old path = some found ∧
            after.memory found = before.memory found := by
    intro root member path found reached
    have old : (path = [] ∧ found = fresh) ∨
        ∃ old ∈ roots, tableAt tableLink before.memory old path = some found := by
      rcases member with rfl | isOld
      · rcases step.tableAt_fresh wellFormed current reached with
          isFresh | ⟨_, shared⟩
        · exact .inl isFresh
        · exact .inr ⟨_, current, shared⟩
      · rw [tableAt, (step.sameAlong wellFormed isOld path).descend_eq] at reached
        exact .inr ⟨root, isOld, reached⟩
    rcases old with isFresh | ⟨old, isOld, reachedBefore⟩
    · exact .inl isFresh
    · refine .inr ⟨old, isOld, reachedBefore, step.elsewhere found ?_⟩
      rintro rfl
      exact unreached old isOld path reachedBefore
  exact {
    separated := separated_fresh_root wellFormed.separated unreached
      step.elsewhere current step.slot_cases
    rootTable := by
      rintro root (rfl | isOld)
      · exact step.freshTable wellFormed
      · exact wellFormed.rootTable root isOld
    linkedLow := by
      intro root member path found slot reached links
      rcases origin root member path found reached with
        ⟨rfl, rfl⟩ | ⟨old, isOld, reachedBefore, same⟩
      · rcases step.slot_cases slot with copied | empty
        · rw [copied] at links ⊢
          exact wellFormed.linkedLow _ current [] _ slot rfl links
        · exact (links empty).elim
      · rw [same] at links ⊢
        exact wellFormed.linkedLow old isOld path found slot reachedBefore links
    noHuge := by
      intro root member top found slot reached
      rcases origin root member [top] found reached with
        ⟨shape, _⟩ | ⟨old, isOld, reachedBefore, same⟩
      · simp at shape
      · rw [same]
        exact wellFormed.noHuge old isOld top found slot reachedBefore
    spare := by
      intro frame free root member path reached
      rcases origin root member path frame reached with
        ⟨_, rfl⟩ | ⟨old, isOld, reachedBefore, _⟩
      · exact (disjoint_of_nodup_append nodup) free (by simp)
      · exact wellFormed.spare frame (stackSubset frame free) old isOld path
          reachedBefore
    valid := {
      nodup := nodup.of_append_left
      frames := fun frame member =>
        wellFormed.valid.frames frame (stackSubset frame member)
    }
    spareLow := fun frame member =>
      wellFormed.spareLow frame (stackSubset frame member)
  }

end

variable (step : RootStep keep fresh before after) (wellFormed : WellFormed roots before)

include step wellFormed

theorem walk_old {root : U64} (member : root ∈ roots) (ordinary : pml4Index va ≠ 511) :
    walk after.memory root va = walk before.memory root va := by
  have rootTable := wellFormed.rootTable root member
  rw [walk_eq_translate rootTable ordinary, walk_eq_translate rootTable ordinary,
    (step.sameAlong wellFormed member (vaPath va)).trail_eq]

theorem walk_kept_slot (current : ptPtr before.cr3 ∈ roots) (ordinary : pml4Index va ≠ 511)
    (kept : keep (pml4Index va) = true) :
    walk after.memory fresh va = walk before.memory before.cr3 va := by
  have copied : after.memory fresh (pml4Index va) =
      before.memory (ptPtr before.cr3) (pml4Index va) := by
    rw [step.slots, rootSlots, if_neg ordinary, if_pos kept]
  rw [← walk_ptPtr before.memory, walk_eq_translate (step.freshTable wellFormed) ordinary,
    walk_eq_translate (wellFormed.rootTable _ current) ordinary, vaPath,
    (descend_copied (step.unreached wellFormed) step.elsewhere current copied _).2]

theorem walk_dropped_slot (ordinary : pml4Index va ≠ 511) (dropped : keep (pml4Index va) = false) :
    walk after.memory fresh va = none := by
  have zero : after.memory fresh (pml4Index va) = 0 := by
    rw [step.slots, rootSlots, if_neg ordinary, if_neg (by simp [dropped])]
  have stop : trail tableLink after.memory 0 fresh (vaPath va) = [0] := by
    rw [vaPath, trail_stop, zero]
    rw [zero]
    exact tableLink_absent _ _ (by decide)
  rw [walk_eq_translate (step.freshTable wellFormed) ordinary, stop]
  simp [translate]

end RootStep

section Calls

variable {machine : Machine}

theorem pagingClonePd_step (wellFormed : WellFormed roots machine)
    (current : ptPtr machine.cr3 ∈ roots) (free : machine.pmm.stack ≠ []) :
    (pagingClonePd machine).1 ≠ 0 ∧ (pagingClonePd machine).2.cr3 = machine.cr3 ∧
      RootStep sharedSlot (pagingClonePd machine).1 machine (pagingClonePd machine).2 := by
  obtain ⟨pml4, rest, fresh⟩ := wellFormed.freshFrame free
  have notCurrent := fresh.ne_table current (rfl : tableAt tableLink machine.memory _ [] = _)
  simp only [pagingClonePd, fresh.popped, if_neg fresh.nonzero]
  refine ⟨fresh.nonzero, trivial, ?_⟩
  exact {
    stack := fresh.stack
    elsewhere := by
      intro other different
      funext index
      simp only [clonedMemory, zeroPageTable, ptPtr_eq_self fresh.isTable]
      rw [Memory.fill_other _ _ _ different, Memory.fill_other _ _ _ different]
    slots := by
      intro i
      simp only [clonedMemory, zeroPageTable, ptPtr_eq_self fresh.isTable,
        Memory.fill_same, rootSlots, Memory.fill_other _ _ _ notCurrent.symm]
  }

theorem pagingVforkClone_step (wellFormed : WellFormed roots machine)
    (free : machine.pmm.stack ≠ []) :
    (pagingVforkClone machine).1 ≠ 0 ∧ (pagingVforkClone machine).2.cr3 = machine.cr3 ∧
      RootStep (fun _ => true) (pagingVforkClone machine).1 machine
        (pagingVforkClone machine).2 := by
  obtain ⟨pml4, rest, fresh⟩ := wellFormed.freshFrame free
  simp only [pagingVforkClone, fresh.popped, if_neg fresh.nonzero]
  refine ⟨fresh.nonzero, trivial, ?_⟩
  exact {
    stack := fresh.stack
    elsewhere := by
      intro other different
      funext index
      simp only [ptPtr_eq_self fresh.isTable]
      rw [Memory.fill_other _ _ _ different]
    slots := by
      intro i
      simp only [ptPtr_eq_self fresh.isTable, Memory.fill_same]
  }

end Calls

/-! ## Private slots -/

/-- The tables of a space in some PML4 slots belong to no other space. -/
def Private (memory : Memory) (space : U64) (slots : Set (Fin 512))
    (others : Set U64) : Prop :=
  ∀ path table, (∀ slot ∈ path.head?, slot ∈ slots) →
    tableAt tableLink memory space path = some table →
    Unreached tableLink memory others table

/-- The slots that spaces do not share. -/
def userSlots : Set (Fin 512) :=
  {slot | 1 ≤ slot.val ∧ slot.val ≤ 255}

theorem RootStep.private_userSlots (step : RootStep sharedSlot fresh before after)
    (wellFormed : WellFormed roots before) :
    Private after.memory fresh userSlots roots := by
  intro path table user reached root member query
  rw [tableAt, (step.sameAlong wellFormed member query).descend_eq]
  cases path with
  | nil =>
    rw [tableAt_nil, Option.some.injEq] at reached
    rw [← reached]
    exact step.unreached wellFormed root member query
  | cons slot rest =>
    have inUser : slot ∈ userSlots := user slot rfl
    have notRecursive : slot ≠ 511 := by
      rintro rfl
      exact absurd inUser.2 (by decide)
    have notShared : sharedSlot slot = false := by
      have notZero : slot ≠ 0 := by
        rintro rfl
        exact absurd inUser.1 (by decide)
      have below := inUser.2
      simp [sharedSlot, notZero]
      omega
    have zero : after.memory fresh slot = 0 := by
      rw [step.slots, rootSlots, if_neg notRecursive, if_neg (by simp [notShared])]
    rw [tableAt, descend, zero, tableLink_absent _ _ (by decide)] at reached
    simp at reached

theorem RootStep.keeps_private {others : Set U64} {keep : Fin 512 → Bool} {space : U64}
    {slots : Set (Fin 512)} (step : RootStep keep fresh before after)
    (wellFormed : WellFormed roots before) (spaceRoot : space ∈ roots)
    (otherRoots : others ⊆ roots) (current : ptPtr before.cr3 ∈ others)
    (isPrivate : Private before.memory space slots others) :
    Private after.memory space slots (insert fresh others) := by
  intro path table inside reached root member query otherReached
  rw [tableAt, (step.sameAlong wellFormed spaceRoot path).descend_eq] at reached
  rcases member with rfl | isOther
  · rcases step.tableAt_fresh wellFormed (otherRoots current) otherReached with
      ⟨_, rfl⟩ | ⟨_, shared⟩
    · exact step.unreached wellFormed space spaceRoot path reached
    · exact isPrivate path table inside reached _ current query shared
  · rw [tableAt, (step.sameAlong wellFormed (otherRoots isOther) query).descend_eq] at otherReached
    exact isPrivate path table inside reached root isOther query otherReached

section PrivateEdits

/-- The slots of a space are private to it, among the spaces of a well-formed machine. -/
structure PrivateSpace (roots others : Set U64) (space : U64) (slots : Set (Fin 512))
    (machine : Machine) : Prop where
  wellFormed : WellFormed roots machine
  spaceRoot : space ∈ roots
  otherRoots : others ⊆ roots
  isPrivate : Private machine.memory space slots others

/-- The other spaces translate as before. -/
def SameWalks (others : Set U64) (before after : Machine) : Prop :=
  ∀ root ∈ others, ∀ va, pml4Index va ≠ 511 →
    walk after.memory root va = walk before.memory root va

variable {others : Set U64} {owner space : U64} {slots : Set (Fin 512)} {flags : U32}
  {path : List (Fin 512)} {index : Fin 512} {table word : U64}

theorem HangStep.keeps_private (step : HangStep flags owner path index table fresh before after)
    (ownerRoot : owner ∈ roots) (held : PrivateSpace roots others space slots before) :
    PrivateSpace roots others space slots after := by
  obtain ⟨wellFormed, spaceRoot, otherRoots, isPrivate⟩ := held
  refine ⟨step.wellFormed wellFormed ownerRoot, spaceRoot, otherRoots, ?_⟩
  intro query found inside reached root member other otherReached
  have isRoot : root ∈ roots := otherRoots member
  rw [step.tableAt_iff wellFormed ownerRoot spaceRoot] at reached
  rw [step.tableAt_iff wellFormed ownerRoot isRoot] at otherReached
  rcases reached with old | ⟨reachesTable, isSlot, isFresh⟩
  · rcases otherReached with otherOld | ⟨_, _, rfl⟩
    · exact isPrivate query found inside old root member other otherOld
    · exact wellFormed.spare found step.fresh_mem space spaceRoot query old
  · rcases otherReached with otherOld | ⟨otherReachesTable, _, _⟩
    · rw [isFresh] at otherOld
      exact wellFormed.spare fresh step.fresh_mem root isRoot other otherOld
    · -- The new table stands below a private one.
      have tableInside : ∀ slot ∈ path.head?, slot ∈ slots := by
        intro slot isHead
        apply inside
        rw [isSlot, head?_append, mem_def.mp isHead]
        rfl
      exact isPrivate path table tableInside reachesTable root member path otherReachesTable

theorem LeafStep.keeps_private (step : LeafStep owner path index table word before after)
    (ownerRoot : owner ∈ roots) (held : PrivateSpace roots others space slots before) :
    PrivateSpace roots others space slots after := by
  obtain ⟨wellFormed, spaceRoot, otherRoots, isPrivate⟩ := held
  refine ⟨step.wellFormed wellFormed ownerRoot, spaceRoot, otherRoots, ?_⟩
  intro query found inside reached root member other
  rw [step.tableAt_eq wellFormed ownerRoot spaceRoot] at reached
  rw [step.tableAt_eq wellFormed ownerRoot (otherRoots member)]
  exact isPrivate query found inside reached root member other

theorem DataStep.keeps_private {frame : U64} (step : DataStep frame before after)
    (unreached : Unreached tableLink before.memory roots frame) (spaceRoot : space ∈ roots)
    (otherRoots : others ⊆ roots) (isPrivate : Private before.memory space slots others) :
    Private after.memory space slots others := by
  intro path table inside reached root member query
  rw [step.tableAt_eq unreached spaceRoot] at reached
  rw [step.tableAt_eq unreached (otherRoots member)]
  exact isPrivate path table inside reached root member query

/-- No other space reaches the table of a private path. -/
theorem PrivateSpace.unreached (held : PrivateSpace roots others space slots before)
    (reached : tableAt tableLink before.memory space path = some table)
    (inSlots : ∀ slot ∈ path.head?, slot ∈ slots) {root : U64} (member : root ∈ others) :
    tableAt tableLink before.memory root path ≠ some table :=
  held.isPrivate path table inSlots reached root member path

theorem HangStep.private_walk (step : HangStep flags space path index table fresh before after)
    (held : PrivateSpace roots others space slots before)
    (inSlots : ∀ slot ∈ path.head?, slot ∈ slots) :
    SameWalks others before after := by
  intro root member va ordinary
  apply step.walk_of_avoids held.wellFormed held.spaceRoot (held.otherRoots member) ordinary
  exact fun reached => (held.unreached step.reached inSlots member reached).elim

theorem LeafStep.private_walk (step : LeafStep space path index table word before after)
    (held : PrivateSpace roots others space slots before)
    (inSlots : ∀ slot ∈ path.head?, slot ∈ slots) :
    SameWalks others before after := by
  intro root member va ordinary
  apply step.walk_of_avoids held.wellFormed held.spaceRoot (held.otherRoots member) ordinary
  exact fun reached => (held.unreached step.reached inSlots member reached).elim

theorem head_of_tablePaths (onPath : path ++ [index] ∈ tablePaths va)
    (inSlots : pml4Index va ∈ slots) :
    ∀ slot ∈ path.head?, slot ∈ slots := by
  cases path with
  | nil => simp
  | cons first rest =>
    have isFirst : first = pml4Index va := by
      simp only [tablePaths, regionPath, cons_append, mem_cons,
        List.cons.injEq, not_mem_nil, or_false] at onPath
      rcases onPath with ⟨same, _⟩ | ⟨same, _⟩ | ⟨same, _⟩ <;> exact same
    intro slot member
    rw [head?_cons, mem_some] at member
    rw [← member, isFirst]
    exact inSlots

variable {hung : List (List (Fin 512))}

theorem HangRun.keeps_private (run : HangRun flags owner hung before after)
    (ownerRoot : owner ∈ roots) (held : PrivateSpace roots others space slots before) :
    PrivateSpace roots others space slots after := by
  induction run with
  | done => exact held
  | step step _ ih => exact ih (step.keeps_private ownerRoot held)

theorem HangRun.private_walk (run : HangRun flags space hung before after)
    (along : ∀ path ∈ hung, path ∈ tablePaths va) (inSlots : pml4Index va ∈ slots)
    (held : PrivateSpace roots others space slots before) :
    SameWalks others before after := by
  induction run with
  | done => exact fun _ _ _ _ => rfl
  | step step _ ih =>
    intro root member other ordinary
    rw [ih (fun path member => along path (mem_cons_of_mem _ member))
      (step.keeps_private held.spaceRoot held) root member other ordinary]
    exact step.private_walk held (head_of_tablePaths (along _ mem_cons_self) inSlots) root member
      other ordinary

theorem MapOutcome.keeps_private {pa : U64} (outcome : MapOutcome va pa flags before after)
    (ownerRoot : ptPtr before.cr3 ∈ roots)
    (held : PrivateSpace roots others space slots before) :
    PrivateSpace roots others space slots after := by
  cases outcome with
  | mapped run _ leaf => exact leaf.keeps_private ownerRoot (run.keeps_private ownerRoot held)
  | starved run => exact run.keeps_private ownerRoot held

theorem MapOutcome.private_walk {pa : U64} (outcome : MapOutcome va pa flags before after)
    (inSlots : pml4Index va ∈ slots)
    (held : PrivateSpace roots others (ptPtr before.cr3) slots before) :
    SameWalks others before after := by
  cases outcome with
  | mapped run along leaf =>
    have inSlotsLeaf : ∀ slot ∈ (regionPath va).head?, slot ∈ slots := by
      intro slot member
      rw [regionPath, head?_cons, mem_some] at member
      rw [← member]
      exact inSlots
    intro root member other ordinary
    rw [leaf.private_walk (run.keeps_private held.spaceRoot held) inSlotsLeaf root member other
      ordinary]
    exact run.private_walk along inSlots held root member other ordinary
  | starved run along => exact run.private_walk along inSlots held

end PrivateEdits

theorem pagingMapPages_private {others : Set U64} {slots : Set (Fin 512)}
    (notRecursive : 511 ∉ slots) (calls : List MapCall)
    (inSlots : ∀ call ∈ calls, pml4Index call.virtualAddr ∈ slots) {machine : Machine}
    (held : PrivateSpace roots others (ptPtr machine.cr3) slots machine) :
    SameWalks others machine (pagingMapPages calls machine) := by
  induction calls generalizing machine with
  | nil => exact fun _ _ _ _ => rfl
  | cons call calls ih =>
    have inside := inSlots call mem_cons_self
    have ordinary : pml4Index call.virtualAddr ≠ 511 := by
      intro recursive
      exact notRecursive (recursive ▸ inside)
    have outcome := pagingMapPage_outcome held.wellFormed held.spaceRoot ordinary
      call.physicalAddr call.flags
    have sameSpace := congrArg ptPtr outcome.cr3
    intro root member va vaOrdinary
    rw [← outcome.private_walk inside held root member va vaOrdinary]
    exact ih (fun later isLater => inSlots later (mem_cons_of_mem _ isLater))
      (by rw [sameSpace]; exact outcome.keeps_private held.spaceRoot held)
      root member va vaOrdinary

end XKern
