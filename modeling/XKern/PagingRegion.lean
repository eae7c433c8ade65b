import XKern.PagingMap

namespace XKern

open RadixStore List

/-!
# Sequences of `paging_map_page` calls

A sequence of calls takes one frame from the top of the stack for each table
that is missing on the way to one of its addresses, in whatever order, until
the stack is empty.  `paging_map_region` is such a sequence.
-/

theorem MapOutcome.growth {roots : Set U64} {va pa : U64} {flags : U32} {machine after : Machine}
    (outcome : MapOutcome va pa flags machine after) (wellFormed : WellFormed roots machine)
    (ownerRoot : ptPtr machine.cr3 ∈ roots) :
    ∃ hung popped, TableGrowth (ptPtr machine.cr3) hung popped machine after ∧
        (∀ path ∈ hung, path ∈ tablePaths va) ∧
        ((∀ path ∈ tablePaths va, tableAt tableLink after.memory (ptPtr machine.cr3) path ≠ none) ∨
          after.pmm.stack = []) := by
  cases outcome with
  | @mapped hung middle pt run along leaf =>
    obtain ⟨popped, growth⟩ := run.growth wellFormed ownerRoot
    have middleWellFormed := run.wellFormed wellFormed ownerRoot
    have total := growth.trans (leaf.growth middleWellFormed ownerRoot)
    rw [append_nil, nil_append] at total
    refine ⟨hung, popped, total, along, .inl ?_⟩
    intro path onPath
    rw [leaf.tableAt_eq middleWellFormed ownerRoot ownerRoot]
    exact tableAt_of_tablePaths leaf.reached onPath
  | @starved hung _ run along empty =>
    obtain ⟨popped, growth⟩ := run.growth wellFormed ownerRoot
    exact ⟨hung, popped, growth, along, .inr empty⟩

theorem pagingMapPages_growth {roots : Set U64} {machine : Machine}
    (wellFormed : WellFormed roots machine) (ownerRoot : ptPtr machine.cr3 ∈ roots)
    (calls : List MapCall) (ordinary : ∀ call ∈ calls, pml4Index call.virtualAddr ≠ 511) :
    ∃ hung popped, TableGrowth (ptPtr machine.cr3) hung popped machine
          (pagingMapPages calls machine) ∧
        WellFormed roots (pagingMapPages calls machine) ∧
        (∀ path ∈ hung, ∃ call ∈ calls, path ∈ tablePaths call.virtualAddr) ∧
        ((∀ call ∈ calls, ∀ path ∈ tablePaths call.virtualAddr,
            tableAt tableLink (pagingMapPages calls machine).memory
              (ptPtr machine.cr3) path ≠ none) ∨
          (pagingMapPages calls machine).pmm.stack = []) := by
  induction calls generalizing machine with
  | nil =>
    exact ⟨[], [], .refl _ machine, wellFormed, by simp, Or.inl (by simp)⟩
  | cons call calls ih =>
    have outcome := pagingMapPage_outcome wellFormed ownerRoot
      (ordinary call mem_cons_self) call.physicalAddr call.flags
    have sameRoot := congrArg ptPtr outcome.cr3
    obtain ⟨hung, popped, first, along, done⟩ := outcome.growth wellFormed ownerRoot
    obtain ⟨later, laterPopped, second, laterWellFormed, laterAlong, laterDone⟩ :=
      ih (outcome.wellFormed wellFormed ownerRoot) (sameRoot ▸ ownerRoot)
        (fun other member => ordinary other (mem_cons_of_mem _ member))
    rw [sameRoot] at second laterDone
    refine ⟨hung ++ later, laterPopped ++ popped, first.trans second, laterWellFormed, ?_, ?_⟩
    · intro path member
      rcases mem_append.mp member with inFirst | inLater
      · exact ⟨call, mem_cons_self, along path inFirst⟩
      · obtain ⟨other, isLater, onPath⟩ := laterAlong path inLater
        exact ⟨other, mem_cons_of_mem _ isLater, onPath⟩
    · rcases laterDone with complete | empty
      · rcases done with firstComplete | firstEmpty
        · left
          intro other member path onPath
          rcases mem_cons.mp member with rfl | isLater
          · intro missing
            exact firstComplete path onPath ((second.remaining path).mp missing).1
          · exact complete other isLater path onPath
        · right
          have shape := second.stack
          rw [firstEmpty] at shape
          exact (append_eq_nil_iff.mp shape.symm).1
      · exact Or.inr empty

/-- The frames that mapping the addresses takes: the top of the stack. -/
def framesTaken (machine : Machine) (vas : List U64) : List U64 :=
  machine.pmm.stack.drop
    (machine.pmm.stack.length -
      (missingTables machine.memory (ptPtr machine.cr3) vas).card)

theorem TableGrowth.popped_eq {machine after : Machine} {hung : List (List (Fin 512))}
    {popped vas : List U64} (growth : TableGrowth (ptPtr machine.cr3) hung popped machine after)
    (along : ∀ path ∈ hung, ∃ va ∈ vas, path ∈ tablePaths va)
    (done : (∀ va ∈ vas, ∀ path ∈ tablePaths va,
        tableAt tableLink after.memory (ptPtr machine.cr3) path ≠ none) ∨
      after.pmm.stack = []) :
    popped = framesTaken machine vas := by
  have subset : hung.toFinset ⊆ missingTables machine.memory (ptPtr machine.cr3) vas := by
    intro path member
    rw [mem_toFinset] at member
    exact mem_missingTables.mpr ⟨along path member, growth.missing path member⟩
  have count := Finset.card_le_card subset
  rw [toFinset_card_of_nodup growth.nodup, ← growth.length] at count
  rw [framesTaken, growth.stack, length_append]
  rcases done with complete | empty
  · have all : missingTables machine.memory (ptPtr machine.cr3) vas ⊆ hung.toFinset := by
      intro path member
      obtain ⟨⟨va, isVa, onPath⟩, missing⟩ := mem_missingTables.mp member
      by_contra notHung
      rw [mem_toFinset] at notHung
      exact complete va isVa path onPath ((growth.remaining path).mpr ⟨missing, notHung⟩)
    have exact_ := Finset.card_le_card all
    rw [toFinset_card_of_nodup growth.nodup, ← growth.length] at exact_
    rw [show after.pmm.stack.length + popped.length -
      (missingTables machine.memory (ptPtr machine.cr3) vas).card =
        after.pmm.stack.length by omega, drop_left]
  · rw [empty, length_nil, zero_add, Nat.sub_eq_zero_of_le count]
    simp

/-- The calls that `paging_map_region` makes. -/
def regionCalls (virtualAddr physicalAddr size : U64) (flags : U32) :
    List MapCall :=
  (WordLoop.progression pageSize virtualAddr ((size.toNat + 4095) / 4096)).map
    fun v => ⟨v, v + (physicalAddr - virtualAddr), flags⟩

theorem foldl_region (flags : U32) (count : Nat) (virtualAddr physicalAddr : U64)
    (machine : Machine) :
    ((WordLoop.progression pageSize virtualAddr count).foldl (fun (state : U64 × Machine) v =>
          (state.1 + pageSize, pagingMapPage v state.1 flags state.2))
        (physicalAddr, machine)).2 =
      pagingMapPages ((WordLoop.progression pageSize virtualAddr count).map
          fun v => ⟨v, v + (physicalAddr - virtualAddr), flags⟩) machine := by
  induction count generalizing virtualAddr physicalAddr machine with
  | zero => rfl
  | succ count ih =>
    have samePhysical : virtualAddr + (physicalAddr - virtualAddr) = physicalAddr := by ring
    have sameOffset : physicalAddr + pageSize - (virtualAddr + pageSize) =
        physicalAddr - virtualAddr := by ring
    rw [WordLoop.progression_succ, foldl_cons, ih,
      sameOffset, map_cons, pagingMapPages, pagingMapPages,
      foldl_cons, samePhysical]

theorem pagingMapRegion_eq {virtualAddr size : U64}
    (room : virtualAddr.toNat + size.toNat + 4096 ≤ 2 ^ 64) (physicalAddr : U64) (flags : U32)
    (machine : Machine) :
    pagingMapRegion virtualAddr physicalAddr size flags machine = some (pagingMapPages
        (regionCalls virtualAddr physicalAddr size flags) machine) := by
  have stop : (virtualAddr + size).toNat = virtualAddr.toNat + size.toNat := by
    rw [BitVec.toNat_add, Nat.mod_eq_of_lt (by omega)]
  rw [pagingMapRegion, WordLoop.forWords_eq_foldl _ _ ((size.toNat + 4095) / 4096)]
  · rw [Option.map_some, foldl_region]
    rfl
  · intro index indexLt
    rw [stop, toNat_pageSize]
    omega
  · rw [stop, toNat_pageSize]
    omega
  · rw [toNat_pageSize]
    omega
  · rw [pageLoopFuel]
    omega

end XKern
