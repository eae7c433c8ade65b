import XKern.IdentityMap

namespace XKern

open RadixStore FaultTriple List BitVec Option

/-!
# Loading into one of several address spaces

What the mapping and the storing steps of a load into one space do to all
spaces.  The invariant `SpaceLoad` says that the user slots of the loaded space
stay its own, that every page mapped so far leads to a frame that is no table,
that the other spaces keep their translations apart from the mapped pages of
the slots they share, and that tables and free frames stay mapped to
themselves.  The mapping steps through the active mapping are therefore those
on physical memory.
-/

variable {roots : Set U64} {frame v : U64} {before after : Machine} {translation : Translation}

section Frames

variable {flags : U32} {owner : U64}

theorem HangStep.keeps_unreached {path : List (Fin 512)} {index : Fin 512} {table fresh : U64}
    (step : HangStep flags owner path index table fresh before after)
    (wellFormed : WellFormed roots before) (ownerRoot : owner ∈ roots)
    (taken : frame ∉ before.pmm.stack) (unreached : Unreached tableLink before.memory roots frame) :
    Unreached tableLink after.memory roots frame := by
  intro root member query reached
  rw [step.tableAt_iff wellFormed ownerRoot member] at reached
  rcases reached with old | ⟨_, _, rfl⟩
  · exact unreached root member query old
  · exact taken step.fresh_mem

variable {hung : List (List (Fin 512))}

theorem HangRun.stack_subset (run : HangRun flags owner hung before after) :
    ∀ free ∈ after.pmm.stack, free ∈ before.pmm.stack := by
  induction run with
  | done => exact fun _ member => member
  | step step _ ih =>
    intro free member
    rw [step.stack]
    exact mem_append_left _ (ih free member)

theorem HangRun.keeps_unreached (run : HangRun flags owner hung before after)
    (wellFormed : WellFormed roots before) (ownerRoot : owner ∈ roots)
    (taken : frame ∉ before.pmm.stack) (unreached : Unreached tableLink before.memory roots frame) :
    Unreached tableLink after.memory roots frame := by
  induction run with
  | done => exact unreached
  | step step _ ih =>
    apply ih (step.wellFormed wellFormed ownerRoot)
    · intro member
      apply taken
      rw [step.stack]
      exact mem_append_left _ member
    · exact step.keeps_unreached wellFormed ownerRoot taken unreached

theorem LeafStep.lands {root pt : U64}
    (leaf : LeafStep root (regionPath v) (ptIndex v) pt (leafEntry frame flags) before after)
    (wellFormed : WellFormed roots before) (rootMember : root ∈ roots)
    (ordinary : pml4Index v ≠ 511) (isTable : IsTable frame) {va : U64}
    (samePage : vaPath va = vaPath v) (translated : walk after.memory root va = some translation) :
    ptPtr translation.phys = frame ∧ translation.phys &&& ptFlagMask = va &&& ptFlagMask := by
  have canonical := canonical_of_walk translated
  have sameSlot : pml4Index va = pml4Index v := by
    simp only [vaPath, List.cons.injEq] at samePage
    exact samePage.1
  obtain ⟨words, here⟩ := leaf.walk_here wellFormed rootMember rootMember
    (sameSlot ▸ ordinary) canonical leaf.reached samePage.symm
    (present_leafEntry frame flags)
  rw [here, Option.some.injEq] at translated
  rw [← translated, phys_leafEntry, show frame &&& frameBits = frame from isTable]
  constructor
  · apply eq_of_getLsbD_eq
    intro index _
    have high := isTable.getLsbD index
    rw [getLsbD_ptPtr, getLsbD_or, getLsbD_and, ptFlagMask_eq_mask, LowBits.getLsbD_mask]
    grind
  · apply eq_of_getLsbD_eq
    intro index _
    have high := isTable.getLsbD index
    rw [getLsbD_and, getLsbD_or, getLsbD_and, ptFlagMask_eq_mask, LowBits.getLsbD_mask]
    grind

namespace MapOutcome

variable {va pa : U64}

variable (outcome : MapOutcome va pa flags before after)

include outcome

theorem stack_subset :
    ∀ free ∈ after.pmm.stack, free ∈ before.pmm.stack := by
  cases outcome with
  | mapped run _ leaf =>
    rw [leaf.pmm]
    exact run.stack_subset
  | starved run => exact run.stack_subset

theorem keeps_unreached (wellFormed : WellFormed roots before)
    (ownerRoot : ptPtr before.cr3 ∈ roots) (taken : frame ∉ before.pmm.stack)
    (unreached : Unreached tableLink before.memory roots frame) :
    Unreached tableLink after.memory roots frame := by
  cases outcome with
  | mapped run _ leaf =>
    have middle := run.keeps_unreached wellFormed ownerRoot taken unreached
    intro root member query
    rw [leaf.tableAt_eq (run.wellFormed wellFormed ownerRoot) ownerRoot member]
    exact middle root member query
  | starved run =>
    exact run.keeps_unreached wellFormed ownerRoot taken unreached

theorem lands (wellFormed : WellFormed roots before) (ownerRoot : ptPtr before.cr3 ∈ roots)
    (ordinary : pml4Index va ≠ 511) (isTable : IsTable pa) (left : after.pmm.stack ≠ [])
    {other : U64} (samePage : vaPath other = vaPath va)
    (translated : walk after.memory (ptPtr before.cr3) other = some translation) :
    ptPtr translation.phys = pa := by
  cases outcome with
  | mapped run _ leaf =>
    exact (leaf.lands (run.wellFormed wellFormed ownerRoot) ownerRoot ordinary
      isTable samePage translated).1
  | starved _ _ empty => exact (left empty).elim

end MapOutcome

end Frames

/-! ## The invariant of a load -/

/--
A load into `space` that starts at `start` and maps at most the pages of
`target`.  `roots` are all spaces and `building` those under construction.
-/
structure LoadSite where
  roots : Set U64
  building : Set U64
  space : U64
  start : Machine
  target : U64 → Prop
  /-- No page of a table or of a free frame is one that the load maps. -/
  apart : ∀ frame, Held roots start frame → ¬ target frame

variable {site : LoadSite} {mapped : U64 → Prop}

/-- The state of a load that has mapped the pages of `mapped`. -/
structure SpaceLoad
    (site : LoadSite)
    (mapped : U64 → Prop)
    (machine : Machine) : Prop where
  wellFormed : WellFormed site.roots machine
  buildingRoots : site.building ⊆ site.roots
  isBuilding : site.space ∈ site.building
  active : ptPtr machine.cr3 = site.space
  isPrivate : ∀ space ∈ site.building,
    Private machine.memory space userSlots (site.roots \ {space})
  ordinary : ∀ va, mapped va → pml4Index va ≠ 511
  lands : ∀ va, mapped va → ∀ translation,
    walk machine.memory site.space va = some translation →
    ptPtr translation.phys ∉ machine.pmm.stack ∧
      Unreached tableLink machine.memory site.roots (ptPtr translation.phys)
  kept : ∀ root ∈ site.roots, root ≠ site.space → ∀ va, pml4Index va ≠ 511 →
    (site.target va → pml4Index va ∈ userSlots) →
    (walk machine.memory root va).map Translation.phys =
      (walk site.start.memory root va).map Translation.phys
  identity : IdentityMapped site.roots machine
  held : ∀ frame, Held site.roots machine frame → Held site.roots site.start frame

/--
The invariant as long as a frame is free.  A mapping that finds no frame for a
table is silently left out, so that nothing is known after the last frame.
-/
def Loading (site : LoadSite) (mapped : U64 → Prop)
    (machine : Machine) : Prop :=
  machine.pmm.stack ≠ [] → SpaceLoad site mapped machine

/-- The program keeps the pages that are mapped; where it stops early, no page is promised. -/
abbrev KeepsPages {Value : Type} (site : LoadSite) (mapped : U64 → Prop) (program : KernelM Value) :
    Prop :=
  Triple (Loading site mapped) program (fun _ => Loading site mapped) (Loading site fun _ => False)

theorem WalkKept.phys_eq {flags : U32} {target va : U64} {before after : Option Translation}
    (kept : WalkKept flags target va before after) :
    after.map Translation.phys = before.map Translation.phys := by
  rcases kept with rfl | ⟨_, old, new, rfl, rfl, _, same⟩
  · rfl
  · rw [map_some, map_some, same.phys]

section Steps

variable {machine : Machine}

variable {fewer : U64 → Prop}

theorem SpaceLoad.weaken (load : SpaceLoad site mapped machine)
    (subset : ∀ va, fewer va → mapped va) :
    SpaceLoad site fewer machine :=
  { load with
    ordinary := fun va member => load.ordinary va (subset va member)
    lands := fun va member => load.lands va (subset va member) }

theorem Loading.weaken (load : Loading site mapped machine) (subset : ∀ va, fewer va → mapped va) :
    Loading site fewer machine :=
  fun left => (load left).weaken subset

theorem SpaceLoad.mapPage (load : SpaceLoad site mapped machine) {flags : U32}
    (inTarget : ∀ va, vaPath va = vaPath v → site.target va) (ordinary : pml4Index v ≠ 511)
    (isTable : IsTable frame) (taken : frame ∉ machine.pmm.stack)
    (unreached : Unreached tableLink machine.memory site.roots frame)
    (left : (pagingMapPage v frame flags machine).pmm.stack ≠ []) :
    SpaceLoad site (fun va => mapped va ∨ vaPath va = vaPath v)
      (pagingMapPage v frame flags machine) := by
  have spaceRoot : site.space ∈ site.roots := load.buildingRoots load.isBuilding
  have ownerRoot : ptPtr machine.cr3 ∈ site.roots := by
    rw [load.active]
    exact spaceRoot
  have outcome := pagingMapPage_outcome load.wellFormed ownerRoot ordinary frame flags
  have sameSlot : ∀ va, vaPath va = vaPath v → pml4Index va = pml4Index v := by
    intro va samePage
    simp only [vaPath, List.cons.injEq] at samePage
    exact samePage.1
  have stillTaken : ∀ other, other ∉ machine.pmm.stack →
      other ∉ (pagingMapPage v frame flags machine).pmm.stack :=
    fun other out member => out (outcome.stack_subset other member)
  exact {
    wellFormed := outcome.wellFormed load.wellFormed ownerRoot
    buildingRoots := load.buildingRoots
    isBuilding := load.isBuilding
    active := (congrArg ptPtr outcome.cr3).trans load.active
    isPrivate := fun unfinished member =>
      (outcome.keeps_private ownerRoot ⟨load.wellFormed, load.buildingRoots member,
        Set.sdiff_subset, load.isPrivate unfinished member⟩).isPrivate
    ordinary := by
      rintro va (wasMapped | samePage)
      · exact load.ordinary va wasMapped
      · rw [sameSlot va samePage]
        exact ordinary
    lands := by
      intro va member translation translated
      by_cases samePage : vaPath va = vaPath v
      · rw [← load.active] at translated
        rw [outcome.lands load.wellFormed ownerRoot ordinary isTable left samePage translated]
        exact ⟨stillTaken frame taken,
          outcome.keeps_unreached load.wellFormed ownerRoot taken unreached⟩
      · have wasMapped : mapped va := member.resolve_right samePage
        have same := (outcome.walkKept load.wellFormed ownerRoot spaceRoot
          (load.ordinary va wasMapped)
          (fun samePath => samePage samePath.symm)).phys_eq
        rw [translated, map_some] at same
        obtain ⟨old, wasTranslated, samePhys⟩ :=
          map_eq_some_iff.mp same.symm
        obtain ⟨oldTaken, oldUnreached⟩ :=
          load.lands va wasMapped old wasTranslated
        rw [← samePhys]
        exact ⟨stillTaken _ oldTaken, outcome.keeps_unreached load.wellFormed
          ownerRoot oldTaken oldUnreached⟩
    kept := by
      intro root member different va vaOrdinary user
      rw [← load.kept root member different va vaOrdinary user]
      by_cases samePage : vaPath va = vaPath v
      · have inUser : pml4Index v ∈ userSlots := by
          rw [← sameSlot va samePage]
          exact user (inTarget va samePage)
        have isPrivate := load.isPrivate site.space load.isBuilding
        rw [← load.active] at isPrivate different
        rw [outcome.private_walk inUser ⟨load.wellFormed, ownerRoot, Set.sdiff_subset, isPrivate⟩
          root ⟨member, different⟩ va vaOrdinary]
      · exact (outcome.walkKept load.wellFormed ownerRoot member vaOrdinary
          (fun samePath => samePage samePath.symm)).phys_eq
    identity := by
      apply outcome.identity load.wellFormed ownerRoot _ load.identity
      intro other isHeld samePage
      exact (site.apart other (load.held other isHeld) (inTarget other samePage)).elim
    held := fun other isHeld => load.held other (outcome.held load.wellFormed ownerRoot isHeld)
  }

theorem Loading.allocAndMap (load : Loading site mapped machine)
    (inTarget : ∀ va, vaPath va = vaPath v → site.target va) (ordinary : pml4Index v ≠ 511)
    (flags : U32) :
    Loading site (fun va => mapped va ∨ vaPath va = vaPath v)
      (pagingAllocAndMap v flags machine).2 := by
  intro left
  by_cases empty : machine.pmm.stack = []
  · rw [pagingAllocAndMap, pmmAlloc_nil empty] at left
    exact (left empty).elim
  · have now := load empty
    obtain ⟨frame, rest, fresh⟩ := now.wellFormed.freshFrame empty
    have restLoad : SpaceLoad site mapped { machine with pmm := rest } := { now with
        wellFormed := fresh.wellFormed now.wellFormed
        lands := by
          intro va member translation translated
          obtain ⟨oldTaken, oldUnreached⟩ :=
            now.lands va member translation translated
          exact ⟨fun again => oldTaken (fresh.subset again), oldUnreached⟩
        identity := now.identity.popped fun _ => fresh.subset
        held := fun other isHeld => now.held other (isHeld.imp_left fresh.subset) }
    simp only [pagingAllocAndMap, fresh.popped, if_neg fresh.nonzero] at left ⊢
    exact restLoad.mapPage inTarget ordinary fresh.isTable
      (fresh.not_left now.wellFormed) fresh.unreached left

theorem Loading.store (load : Loading site mapped machine) {va : U64} (isMapped : mapped va)
    (translated : walk machine.memory machine.cr3 va = some translation) {memory : Memory}
    (elsewhere : ∀ other, other ≠ ptPtr translation.phys → memory other = machine.memory other) :
    Loading site mapped { machine with memory } := by
  intro left
  have now := load left
  rw [← walk_ptPtr, now.active] at translated
  obtain ⟨taken, unreached⟩ := now.lands va isMapped translation translated
  have step : DataStep (ptPtr translation.phys) machine { machine with memory } :=
    ⟨rfl, rfl, elsewhere⟩
  exact {
    wellFormed := step.wellFormed now.wellFormed unreached
    buildingRoots := now.buildingRoots
    isBuilding := now.isBuilding
    active := now.active
    isPrivate := fun unfinished member =>
      step.keeps_private unreached (now.buildingRoots member) Set.sdiff_subset
        (now.isPrivate unfinished member)
    ordinary := now.ordinary
    lands := by
      intro other member found isFound
      rw [step.walk_eq now.wellFormed unreached
        (now.buildingRoots now.isBuilding) (now.ordinary other member)]
        at isFound
      obtain ⟨otherTaken, otherUnreached⟩ := now.lands other member found isFound
      exact ⟨otherTaken, step.keeps_unreached unreached otherUnreached⟩
    kept := by
      intro root member different other ordinary user
      rw [step.walk_eq now.wellFormed unreached member ordinary]
      exact now.kept root member different other ordinary user
    identity := step.identity now.wellFormed unreached now.identity
    held := fun other isHeld => now.held other (step.held unreached isHeld)
  }

end Steps

/-! ## Loops -/

/-- The page of `va` is one of those from `v` up to `stop`. -/
def Touches (v stop va : U64) : Prop :=
  ∃ page : U64, v ≤ page ∧ page < stop ∧ vaPath page = vaPath va

theorem Touches.cases {stop va : U64} (aligned : v.toNat % 4096 = 0)
    (room : stop.toNat + 4096 ≤ 2 ^ 64) (touches : Touches v stop va) :
    vaPath va = vaPath v ∨ Touches (v + pageSize) stop va := by
  obtain ⟨page, fromV, toStop, samePage⟩ := touches
  rw [le_def] at fromV
  have below := BitVec.lt_def.mp toStop
  by_cases later : v.toNat + 4096 ≤ page.toNat
  · refine .inr ⟨page, ?_, toStop, samePage⟩
    rw [le_def, toNat_add, toNat_pageSize]
    omega
  · left
    rw [← samePage]
    exact vaPath_eq_of_page_eq (by omega)

section Triples

theorem mapPages_triple (flags : U32) {stop : U64} (room : stop.toNat + 4096 ≤ 2 ^ 64)
    (fuel : Nat) (aligned : v.toNat % 4096 = 0)
    (inTarget : ∀ va, Touches v stop va → site.target va ∧ pml4Index va ≠ 511) :
    Triple (Loading site mapped) (mapPages allocAndMap flags stop fuel v)
      (fun allMapped machine => Loading site
        (fun va => mapped va ∨ (allMapped = true ∧ Touches v stop va)) machine)
      (Loading site fun _ => False) := by
  induction fuel generalizing v mapped with
  | zero => exact Triple.throw fun _ load => load.weaken nofun
  | succ fuel ih =>
    rw [mapPages]
    apply Triple.ite
    · intro below
      have here : ∀ va, vaPath va = vaPath v → site.target va ∧ pml4Index va ≠ 511 := by
        intro va samePage
        exact inTarget va ⟨v, BitVec.le_refl v, below, samePage.symm⟩
      have grown : Triple (Loading site mapped)
          (allocAndMap v flags)
          (fun _ => Loading site fun va => mapped va ∨ vaPath va = vaPath v)
          (Loading site fun _ => False) :=
        Triple.modifyGet fun machine load =>
          load.allocAndMap (fun va samePage => (here va samePage).1) (here v rfl).2 flags
      apply Triple.bind grown
      intro phys
      apply Triple.ite
      · intro _
        apply Triple.pure
        intro machine load
        exact load.weaken fun va member => Or.inl
          (member.resolve_right fun failed => Bool.false_ne_true failed.1)
      · intro _
        have noWrap : (v + pageSize).toNat = v.toNat + 4096 := by
          rw [lt_def] at below
          rw [toNat_add, toNat_pageSize]
          omega
        have restInTarget : ∀ va, Touches (v + pageSize) stop va →
            site.target va ∧ pml4Index va ≠ 511 := by
          rintro va ⟨page, fromNext, toStop, samePage⟩
          rw [le_def, noWrap] at fromNext
          exact inTarget va ⟨page, BitVec.le_def.mpr (by omega), toStop, samePage⟩
        apply (ih (by omega) restInTarget).weaken (fun _ load => load)
        intro allMapped machine load
        apply load.weaken
        rintro va (wasMapped | ⟨all, touches⟩)
        · exact Or.inl (Or.inl wasMapped)
        · rcases touches.cases aligned room with here | later
          · exact Or.inl (Or.inr here)
          · exact Or.inr ⟨all, later⟩
    · intro notBelow
      apply Triple.pure
      intro machine load
      apply load.weaken
      rintro va (wasMapped | ⟨_, page, fromV, toStop, _⟩)
      · exact wasMapped
      · rw [le_def] at fromV
        rw [lt_def] at toStop notBelow
        omega

theorem storeVirt_triple {write : Memory → U64 → Memory}
    (confined : ∀ memory phys other, other ≠ ptPtr phys → write memory phys other = memory other)
    {va : U64} (isMapped : mapped va) :
    KeepsPages site mapped (storeVirt write va) := by
  intro machine load
  rw [storeVirt_eq]
  cases translated : walk machine.memory machine.cr3 va with
  | none => exact load.weaken nofun
  | some translation =>
    exact load.store isMapped translated (confined machine.memory _)

theorem storeByte_triple {va : U64} (isMapped : mapped va) (byte : U8) :
    KeepsPages site mapped (storeByte va byte) := by
  apply storeVirt_triple _ isMapped
  intro memory phys other different
  funext index
  exact Memory.write_other_page _ _ _ _ different

theorem storeWord_triple {va : U64} (isMapped : mapped va) (word : U64) :
    KeepsPages site mapped (storeWord va word) := by
  apply storeVirt_triple _ isMapped
  intro memory phys other different
  funext index
  exact Memory.write_other_page _ _ _ _ different

/-- Accesses whose loads keep the pages and whose bytes lie in mapped pages. -/
theorem moveAccesses_triple {load : U64 → Nat → KernelM U64}
    (loads : ∀ offset size, KeepsPages site mapped (load offset size))
    (widths : List AccessWidth) {va offset : U64}
    (areMapped : ∀ k < AccessWidth.total widths, mapped (va + BitVec.ofNat 64 k)) :
    KeepsPages site mapped (moveAccesses load widths va offset) := by
  induction widths generalizing va offset with
  | nil => exact Triple.skip _
  | cons width rest ih =>
    rw [total_cons] at areMapped
    have positive : 0 < width.size := by cases width <;> decide
    have first : mapped va := by
      simpa using areMapped 0 (by omega)
    apply Triple.bind (loads offset width.size)
    intro value
    apply Triple.bind (storeVirt_triple
      (fun memory phys other different => width.write_other_page value memory different) first)
    intro _
    apply ih
    intro k small
    rw [← add_ofNat_add]
    exact areMapped (width.size + k) (by omega)

theorem storeBytes_triple (bytes : List U8) {va : U64}
    (areMapped : ∀ k < bytes.length, mapped (va + BitVec.ofNat 64 k)) :
    KeepsPages site mapped (storeBytes bytes va) := by
  induction bytes generalizing va with
  | nil => exact Triple.skip _
  | cons byte bytes ih =>
    have first : mapped va := by
      simpa using areMapped 0 (by simp)
    apply Triple.bind (storeByte_triple first byte)
    intro _
    apply ih
    intro k small
    have next := areMapped (k + 1) (by simp [small])
    rwa [add_ofNat_succ] at next

end Triples

/-! ## The mapping steps through the active mapping -/

/-- The load may map its pages, whatever happens to the frames. -/
structure Mappable (site : LoadSite) (machine : Machine) : Prop where
  direct : Direct site.roots machine
  held : ∀ frame, Held site.roots machine frame → Held site.roots site.start frame

theorem Mappable.allocAndMap {machine : Machine} (mappable : Mappable site machine)
    (inTarget : ∀ va, vaPath va = vaPath v → site.target va) (ordinary : pml4Index v ≠ 511)
    (flags : U32) :
    Mappable site (pagingAllocAndMap v flags machine).2 := by
  obtain ⟨direct, held⟩ := mappable
  have apart : ∀ frame, Held site.roots machine frame → vaPath frame ≠ vaPath v :=
    fun frame isHeld samePage => site.apart frame (held frame isHeld) (inTarget frame samePage)
  refine ⟨direct.allocAndMap ordinary apart flags, fun frame isHeld => held frame ?_⟩
  by_cases empty : machine.pmm.stack = []
  · rw [pagingAllocAndMap, pmmAlloc_nil empty] at isHeld
    exact isHeld
  · obtain ⟨phys, rest, fresh⟩ := direct.wellFormed.freshFrame empty
    have popped := direct.popped fresh
    simp only [pagingAllocAndMap, fresh.popped, if_neg fresh.nonzero] at isHeld
    have outcome := pagingMapPage_outcome popped.wellFormed popped.current ordinary phys flags
    exact (outcome.held popped.wellFormed popped.current isHeld).imp_left fresh.subset

theorem mapPages_agrees (flags : U32) {stop : U64} (room : stop.toNat + 4096 ≤ 2 ^ 64)
    (fuel : Nat)
    (inTarget : ∀ va, Touches v stop va → site.target va ∧ pml4Index va ≠ 511) :
    Agrees (Mappable site) (mapPages Active.pagingAllocAndMap flags stop fuel v)
      (mapPages allocAndMap flags stop fuel v) := by
  induction fuel generalizing v with
  | zero => exact .of_ends (Triple.throw fun _ mappable => mappable)
  | succ fuel ih =>
    rw [mapPages, mapPages]
    refine .ite (fun below => ?_) fun _ => .of_ends (Triple.skip _)
    have here : ∀ va, vaPath va = vaPath v → site.target va ∧ pml4Index va ≠ 511 :=
      fun va samePage => inTarget va ⟨v, BitVec.le_refl v, below, samePage.symm⟩
    have mapped : Agrees (Mappable site) (Active.pagingAllocAndMap v flags)
        (allocAndMap v flags) := fun machine mappable =>
      ⟨mappable.direct.pagingAllocAndMap_eq (here v rfl).2 flags,
        mappable.allocAndMap (fun va samePage => (here va samePage).1) (here v rfl).2 flags⟩
    refine mapped.bind fun phys => .ite (fun _ => .of_ends (Triple.skip _)) fun _ => ih ?_
    rintro va ⟨page, fromNext, toStop, samePage⟩
    rw [BitVec.lt_def] at below
    rw [le_def, toNat_add, toNat_pageSize] at fromNext
    exact inTarget va ⟨page, BitVec.le_def.mpr (by omega), toStop, samePage⟩

end XKern
