import XKern.ActiveTables

namespace XKern

open RadixStore FaultTriple List

/-!
# Tables and free frames at their own address

The comment at `pt_ptr` relies on tables being "reachable through the identity
map".  `IdentityMapped` says this of the tables of all spaces and of the frames
from which tables are made.  On such machines the edits through the active
mapping are the edits on physical memory, and an edit keeps the property unless
it maps the page of a table or of a free frame elsewhere.
-/

/-- A frame that is free or holds a table of one of the spaces. -/
def Held (roots : Set U64) (machine : Machine) (frame : U64) : Prop :=
  frame ∈ machine.pmm.stack ∨
    ∃ root ∈ roots, ∃ path, tableAt tableLink machine.memory root path = some frame

/-- Every space maps the tables and the free frames to themselves, in PML4 slot 0. -/
structure IdentityMapped (roots : Set U64) (machine : Machine) : Prop where
  low : ∀ frame, Held roots machine frame → pml4Index frame = 0
  mapped : ∀ root ∈ roots, ∀ va, Held roots machine (ptPtr va) →
    (walk machine.memory root va).map Translation.phys = some va

/-- A mapping of `va` to `pa` moves no table and no free frame. -/
def SparesHeld (roots : Set U64) (machine : Machine) (va pa : U64) : Prop :=
  ∀ frame, Held roots machine frame → vaPath frame = vaPath va → pa &&& frameBits = frame

variable {roots : Set U64} {before after machine : Machine} {frame root table va pa : U64}
  {path : List (Fin 512)} {index : Fin 512} {flags : U32} {owner : U64}

theorem isTable_of_tableAt (wellFormed : WellFormed roots machine) (member : root ∈ roots)
    (reached : tableAt tableLink machine.memory root path = some table) :
    IsTable table := by
  rcases eq_nil_or_concat path with rfl | ⟨above, index, rfl⟩
  · rw [tableAt_nil, Option.some.injEq] at reached
    exact reached ▸ wellFormed.rootTable root member
  · rw [concat_eq_append] at reached
    obtain ⟨parent, found⟩ := tableAt_of_append reached
    rw [tableAt_concat found, tableLink] at reached
    split at reached
    · cases reached
    · rw [hardwareLink] at reached
      split at reached
      · obtain rfl := Option.some.inj reached
        rw [IsTable, BitVec.and_assoc, BitVec.and_self]
      · cases reached

namespace Held

theorem of_tableAt (member : root ∈ roots)
    (reached : tableAt tableLink machine.memory root path = some table) :
    Held roots machine table :=
  .inr ⟨root, member, path, reached⟩

theorem of_root (member : root ∈ roots) : Held roots machine root :=
  .inr ⟨root, member, [], rfl⟩

theorem isTable (held : Held roots machine frame) (wellFormed : WellFormed roots machine) :
    IsTable frame := by
  rcases held with free | ⟨root, member, path, reached⟩
  · exact (isTable_iff frame).mpr
      ⟨(wellFormed.valid.frames frame free).aligned, wellFormed.spareLow frame free⟩
  · exact isTable_of_tableAt wellFormed member reached

end Held

/-! ## What keeps the property -/

namespace IdentityMapped

/-- A change of memory that holds fewer frames and moves none of them. -/
theorem of_kept (identity : IdentityMapped roots before)
    (fewer : ∀ frame, Held roots after frame → Held roots before frame)
    (kept : ∀ root ∈ roots, ∀ va, Held roots after (ptPtr va) → pml4Index va ≠ 511 →
      (walk before.memory root va).map Translation.phys = some va →
      (walk after.memory root va).map Translation.phys = some va) :
    IdentityMapped roots after where
  low := fun frame held => identity.low frame (fewer frame held)
  mapped := by
    intro root member va held
    have slot : pml4Index va = pml4Index (ptPtr va) := by
      apply Fin.ext
      rw [pml4Index, val_tableIndex, val_tableIndex, toNat_ptPtr]
      omega
    apply kept root member va held
    · rw [slot, identity.low _ (fewer _ held)]
      decide
    · exact identity.mapped root member va (fewer _ held)

theorem leadsTo (identity : IdentityMapped roots machine) (wellFormed : WellFormed roots machine)
    (current : ptPtr machine.cr3 ∈ roots) (held : Held roots machine frame) :
    LeadsTo machine.memory machine.cr3 frame frame := by
  intro index
  obtain ⟨isPage, isIndex⟩ := ptPtr_wordAddress (held.isTable wellFormed) index
  obtain ⟨translation, translated, phys⟩ := Option.map_eq_some_iff.mp
    (identity.mapped _ current (Memory.wordAddress frame index) (by rw [isPage]; exact held))
  rw [walk_ptPtr] at translated
  exact ⟨translation, translated, by rw [phys, isPage], by rw [phys, isIndex]⟩

theorem ordinary (identity : IdentityMapped roots machine) (held : Held roots machine frame) :
    pml4Index frame ≠ 511 := by
  rw [identity.low frame held]
  decide

theorem canonical (identity : IdentityMapped roots machine) (wellFormed : WellFormed roots machine)
    (member : root ∈ roots) (held : Held roots machine frame) :
    Canonical frame := by
  have isSelf := ptPtr_eq_self (held.isTable wellFormed)
  obtain ⟨translation, translated, _⟩ := Option.map_eq_some_iff.mp
    (identity.mapped root member frame (by rw [isSelf]; exact held))
  exact canonical_of_walk translated

theorem loadCr3 (identity : IdentityMapped roots machine) (phys : U64) :
    IdentityMapped roots (pagingLoadCr3 phys machine) :=
  ⟨identity.low, identity.mapped⟩

/-- `pmm_alloc` only takes a frame away. -/
theorem popped {rest : Pmm} (identity : IdentityMapped roots machine)
    (subset : ∀ free ∈ rest.stack, free ∈ machine.pmm.stack) :
    IdentityMapped roots { machine with pmm := rest } :=
  identity.of_kept (fun frame held => held.imp_left (subset frame))
    fun _ _ _ _ _ mapped => mapped

end IdentityMapped

theorem DataStep.held (step : DataStep table before after)
    (unreached : Unreached tableLink before.memory roots table) (held : Held roots after frame) :
    Held roots before frame := by
  rcases held with free | ⟨root, member, path, reached⟩
  · exact .inl (step.pmm ▸ free)
  · rw [step.tableAt_eq unreached member] at reached
    exact .of_tableAt member reached

theorem DataStep.identity (step : DataStep table before after)
    (wellFormed : WellFormed roots before)
    (unreached : Unreached tableLink before.memory roots table)
    (identity : IdentityMapped roots before) :
    IdentityMapped roots after := by
  apply identity.of_kept fun frame held => step.held unreached held
  intro root member va _ ordinary mapped
  rw [step.walk_eq wellFormed unreached member ordinary]
  exact mapped

section Edits

variable {fresh word : U64}

theorem HangStep.held (step : HangStep flags owner path index table fresh before after)
    (wellFormed : WellFormed roots before) (ownerRoot : owner ∈ roots)
    (held : Held roots after frame) :
    Held roots before frame := by
  rcases held with free | ⟨root, member, query, reached⟩
  · left
    rw [step.stack]
    exact mem_append_left _ free
  · rw [step.tableAt_iff wellFormed ownerRoot member] at reached
    rcases reached with old | ⟨_, _, rfl⟩
    · exact .of_tableAt member old
    · exact .inl step.fresh_mem

theorem HangStep.identity (step : HangStep flags owner path index table fresh before after)
    (wellFormed : WellFormed roots before) (ownerRoot : owner ∈ roots)
    (identity : IdentityMapped roots before) :
    IdentityMapped roots after := by
  apply identity.of_kept fun frame held => step.held wellFormed ownerRoot held
  intro root member va _ ordinary mapped
  rcases step.walk_cases wellFormed ownerRoot member ordinary with
    same | ⟨_, _, _, old, new, isOld, isNew, _, kept⟩
  · rw [same]
    exact mapped
  · rw [isOld, Option.map_some] at mapped
    rw [isNew, Option.map_some, kept.phys]
    exact mapped

variable {hung : List (List (Fin 512))}

/-- New tables leave the old ones in place. -/
theorem HangRun.keeps_table (run : HangRun flags owner hung before after)
    (wellFormed : WellFormed roots before) (ownerRoot : owner ∈ roots) (member : root ∈ roots)
    (reached : tableAt tableLink before.memory root path = some table) :
    tableAt tableLink after.memory root path = some table := by
  induction run with
  | done => exact reached
  | step step _ ih =>
    exact ih (step.wellFormed wellFormed ownerRoot)
      ((step.tableAt_iff wellFormed ownerRoot member _ _).mpr (.inl reached))

theorem HangRun.held (run : HangRun flags owner hung before after)
    (wellFormed : WellFormed roots before) (ownerRoot : owner ∈ roots)
    (held : Held roots after frame) :
    Held roots before frame := by
  induction run with
  | done => exact held
  | step step _ ih =>
    exact step.held wellFormed ownerRoot (ih (step.wellFormed wellFormed ownerRoot) held)

theorem HangRun.identity (run : HangRun flags owner hung before after)
    (wellFormed : WellFormed roots before) (ownerRoot : owner ∈ roots)
    (identity : IdentityMapped roots before) :
    IdentityMapped roots after := by
  induction run with
  | done => exact identity
  | step step _ ih =>
    exact ih (step.wellFormed wellFormed ownerRoot) (step.identity wellFormed ownerRoot identity)

theorem LeafStep.held (step : LeafStep owner path index table word before after)
    (wellFormed : WellFormed roots before) (ownerRoot : owner ∈ roots)
    (held : Held roots after frame) :
    Held roots before frame := by
  rcases held with free | ⟨root, member, query, reached⟩
  · exact .inl (step.pmm ▸ free)
  · rw [step.tableAt_eq wellFormed ownerRoot member] at reached
    exact .of_tableAt member reached

theorem LeafStep.identity
    (step : LeafStep owner (regionPath va) (ptIndex va) table (leafEntry pa flags) before after)
    (wellFormed : WellFormed roots before) (ownerRoot : owner ∈ roots)
    (spares : SparesHeld roots before va pa) (identity : IdentityMapped roots before) :
    IdentityMapped roots after := by
  apply identity.of_kept fun frame held => step.held wellFormed ownerRoot held
  intro root member addr held ordinary mapped
  have heldBefore := step.held wellFormed ownerRoot held
  by_cases here : tableAt tableLink before.memory root (regionPath va) = some table ∧
      regionPath va ++ [ptIndex va] = vaPath addr
  · obtain ⟨reached, samePage⟩ := here
    obtain ⟨translation, translated, _⟩ := Option.map_eq_some_iff.mp mapped
    obtain ⟨words, walked⟩ := step.walk_here wellFormed ownerRoot member ordinary
      (canonical_of_walk translated) reached samePage (present_leafEntry pa flags)
    have sameFrame : vaPath (ptPtr addr) = vaPath va := by
      rw [show vaPath va = vaPath addr from samePage]
      exact vaPath_eq_of_page_eq (by rw [toNat_ptPtr]; omega)
    rw [walked, Option.map_some, phys_leafEntry, spares _ heldBefore sameFrame, ptPtr,
      ← BitVec.and_or_distrib_left, show ~~~ptFlagMask ||| ptFlagMask = BitVec.allOnes 64 by decide,
      BitVec.and_allOnes]
  · rw [step.walk_of_avoids wellFormed ownerRoot member ordinary
      fun reached samePage => here ⟨reached, samePage⟩]
    exact mapped

namespace MapOutcome

variable (outcome : MapOutcome va pa flags before after)

include outcome

theorem held (wellFormed : WellFormed roots before) (ownerRoot : ptPtr before.cr3 ∈ roots)
    (held : Held roots after frame) :
    Held roots before frame := by
  cases outcome with
  | mapped run _ leaf =>
    exact run.held wellFormed ownerRoot
      (leaf.held (run.wellFormed wellFormed ownerRoot) ownerRoot held)
  | starved run => exact run.held wellFormed ownerRoot held

theorem identity (wellFormed : WellFormed roots before) (ownerRoot : ptPtr before.cr3 ∈ roots)
    (spares : SparesHeld roots before va pa) (identity : IdentityMapped roots before) :
    IdentityMapped roots after := by
  cases outcome with
  | mapped run _ leaf =>
    apply leaf.identity (run.wellFormed wellFormed ownerRoot) ownerRoot
      (fun frame held => spares frame (run.held wellFormed ownerRoot held))
      (run.identity wellFormed ownerRoot identity)
  | starved run => exact run.identity wellFormed ownerRoot identity

end MapOutcome

end Edits

section NewRoot

variable {keep : Fin 512 → Bool} {fresh : U64}

theorem RootStep.held (step : RootStep keep fresh before after)
    (wellFormed : WellFormed roots before) (current : ptPtr before.cr3 ∈ roots)
    (held : Held (insert fresh roots) after frame) :
    Held roots before frame := by
  rcases held with free | ⟨root, member, query, reached⟩
  · left
    rw [step.stack]
    exact mem_append_left _ free
  · rcases member with rfl | isOld
    · rcases step.tableAt_fresh wellFormed current reached with ⟨_, rfl⟩ | ⟨_, shared⟩
      · exact .inl step.fresh_mem
      · exact .of_tableAt current shared
    · rw [tableAt, (step.sameAlong wellFormed isOld query).descend_eq] at reached
      exact .of_tableAt isOld reached

/-- A new root that shares slot 0 maps the same frames to themselves. -/
theorem RootStep.identity (step : RootStep keep fresh before after)
    (wellFormed : WellFormed roots before) (current : ptPtr before.cr3 ∈ roots)
    (sharesLow : keep 0 = true) (identity : IdentityMapped roots before) :
    IdentityMapped (insert fresh roots) after where
  low := fun frame held => identity.low frame (step.held wellFormed current held)
  mapped := by
    intro root member va held
    have heldBefore := step.held wellFormed current held
    have slot : pml4Index va = 0 := by
      rw [← identity.low _ heldBefore]
      apply Fin.ext
      rw [pml4Index, val_tableIndex, val_tableIndex, toNat_ptPtr]
      omega
    have ordinary : pml4Index va ≠ 511 := by
      rw [slot]
      decide
    rcases member with rfl | isOld
    · rw [step.walk_kept_slot wellFormed current ordinary (by rw [slot]; exact sharesLow),
        ← walk_ptPtr]
      exact identity.mapped _ current va heldBefore
    · rw [step.walk_old wellFormed isOld ordinary]
      exact identity.mapped root isOld va heldBefore

end NewRoot

/-! ## Edits through the active mapping -/

/-- The tables of the active space and the free frames can be used at their own address. -/
structure Direct (roots : Set U64) (machine : Machine) : Prop where
  wellFormed : WellFormed roots machine
  current : ptPtr machine.cr3 ∈ roots
  identity : IdentityMapped roots machine

theorem Memory.fillAt_finRange (memory : Memory) (page : U64) (words : Fin 512 → U64) :
    memory.fillAt page (finRange 512) words = memory.fill page words := by
  funext otherPage index
  simp [Memory.fillAt, Memory.fill]

theorem allocFrame_eq {rest : Pmm} (popped : pmmAlloc machine.pmm = (frame, rest)) :
    Active.allocFrame machine = .ok frame { machine with pmm := rest } := by
  change EStateM.Result.ok (pmmAlloc machine.pmm).1
    { machine with pmm := (pmmAlloc machine.pmm).2 } = _
  rw [popped]

namespace FreshFrame

variable {rest : Pmm} {later : Machine}

variable (fresh : FreshFrame roots machine frame rest) (direct : Direct roots machine)
  (step : DataStep frame { machine with pmm := rest } later)

include fresh

theorem ptPtr_eq : ptPtr frame = frame :=
  ptPtr_eq_self fresh.isTable

theorem held : Held roots machine frame :=
  .inl (by rw [fresh.stack]; simp)

include direct step

/-- While the new frame is filled, the held frames can still be used. -/
theorem leadsTo (held : Held roots machine table) :
    LeadsTo later.memory later.cr3 table table := by
  have leads : LeadsTo { machine with pmm := rest }.memory { machine with pmm := rest }.cr3
      table table := direct.identity.leadsTo direct.wellFormed direct.current held
  exact leads.dataStep step (fresh.wellFormed direct.wellFormed) direct.current fresh.unreached
    (held.isTable direct.wellFormed) (direct.identity.ordinary held)

theorem storeEntries_eq (word : Fin 512 → KernelM U64) (value : Fin 512 → U64)
    (indices : List (Fin 512))
    (words : ∀ final, DataStep frame { machine with pmm := rest } final → ∀ i ∈ indices,
      word i final = .ok (value i) final) :
    Active.storeEntries frame word indices later =
      .ok () { later with memory := later.memory.fillAt frame indices value } := by
  have held := fresh.held
  apply XKern.storeEntries_eq (fresh.leadsTo direct step held)
    (step.wellFormed (fresh.wellFormed direct.wellFormed) fresh.unreached)
    (by rw [step.cr3]; exact direct.current)
    (step.keeps_unreached fresh.unreached fresh.unreached) fresh.isTable
    (direct.identity.ordinary held)
  exact fun final after => words final (step.trans after)

theorem storeAll_eq (value : Fin 512 → U64) :
    Active.storeEntries frame (fun i => return value i) (finRange 512) later =
      .ok () { later with memory := later.memory.fill frame value } := by
  rw [← Memory.fillAt_finRange]
  exact fresh.storeEntries_eq direct step _ value _ fun _ _ _ _ => rfl

/-- While the new frame is filled, the root of the active space can be read. -/
theorem loadRoot_eq (index : Fin 512) : Active.loadEntry (ptPtr machine.cr3) index later =
      .ok (machine.memory (ptPtr machine.cr3) index) later := by
  have notRoot := fresh.ne_table direct.current (rfl : tableAt tableLink machine.memory _ [] = _)
  rw [XKern.loadEntry_eq (fresh.leadsTo direct step (.of_root direct.current)),
    step.elsewhere _ notRoot.symm]

/-- Slots of the active space are copied to the new frame. -/
theorem copyRoot_eq (indices : List (Fin 512)) :
    Active.storeEntries frame (Active.loadEntry (ptPtr machine.cr3)) indices later =
      .ok () { later with
        memory := later.memory.fillAt frame indices (machine.memory (ptPtr machine.cr3)) } :=
  fresh.storeEntries_eq direct step _ _ _ fun _ step i _ => fresh.loadRoot_eq direct step i

end FreshFrame

/-- The result of an ensuring step, as the programs report it. -/
def reported : Except Machine Machine → EStateM.Result Fault Machine Bool
  | .ok after => .ok true after
  | .error after => .ok false after

theorem vforkMemory_eq (memory : Memory) (cr3 pml4 : U64) :
    (memory.fillAt pml4 ((finRange 512).filter fun i => i.val < 511) (memory (ptPtr cr3))).write
        pml4 511 (pml4 ||| pagePresent ||| pageWrite) =
      memory.fill pml4 (rootSlots memory cr3 pml4 fun _ => true) := by
  funext page index
  have last : index ≠ 511 ↔ index.val < 511 := by
    rw [ne_eq, Fin.ext_iff]
    change ¬ index.val = 511 ↔ _
    omega
  simp only [Memory.fillAt, Memory.write, Memory.fill, rootSlots, mem_filter, mem_finRange,
    true_and, decide_eq_true_eq]
  grind

theorem clonedMemory_eq {memory : Memory} {cr3 pml4 : U64} (notRoot : pml4 ≠ ptPtr cr3)
    (isTable : IsTable pml4) :
    ((((memory.fill pml4 fun _ => 0).fillAt pml4
        ((finRange 512).filter fun i => 256 ≤ i.val ∧ i.val < 511) (memory (ptPtr cr3))).write
          pml4 0 (memory (ptPtr cr3) 0)).write pml4 511 (pml4 ||| pagePresent ||| pageWrite)) =
      clonedMemory memory cr3 pml4 := by
  funext page index
  have last : index ≠ 511 ↔ index.val < 511 := by
    rw [ne_eq, Fin.ext_iff]
    change ¬ index.val = 511 ↔ _
    omega
  simp only [clonedMemory, zeroPageTable, ptPtr_eq_self isTable, Memory.fillAt, Memory.write,
    Memory.fill, rootSlots, sharedSlot, mem_filter, mem_finRange, true_and, decide_eq_true_eq,
    Bool.or_eq_true]
  grind

namespace Direct

variable (direct : Direct roots machine)

include direct

theorem loadEntry_eq (held : Held roots machine table) (index : Fin 512) :
    Active.loadEntry table index machine = .ok (machine.memory table index) machine :=
  XKern.loadEntry_eq (direct.identity.leadsTo direct.wellFormed direct.current held) index

theorem newTable_eq (held : Held roots machine table) (index : Fin 512) :
    Active.newTable table index machine = reported (newTable table index machine) := by
  rw [Active.newTable, newTable]
  by_cases empty : machine.pmm.stack = []
  · have popped := pmmAlloc_nil empty
    rw [bind_of_ok (allocFrame_eq popped), popped]
    rfl
  · obtain ⟨t, rest, fresh⟩ := direct.wellFormed.freshFrame empty
    have start := DataStep.refl t { machine with pmm := rest }
    have zeroed := start.trans (DataStep.fill _ t fun _ => 0)
    rw [bind_of_ok (allocFrame_eq fresh.popped), fresh.popped, if_neg fresh.nonzero,
      Active.zeroPageTable, fresh.ptPtr_eq,
      bind_of_ok (fresh.storeAll_eq direct start fun _ => 0),
      bind_of_ok (storeEntry_eq (fresh.leadsTo direct zeroed held) index _)]
    simp only [if_neg fresh.nonzero, zeroPageTable, fresh.ptPtr_eq]
    rfl

theorem splitLeaf_eq (held : Held roots machine table) (index : Fin 512) (flags : U32) :
    Active.splitLeaf table index flags machine =
      reported (splitLeaf table index flags machine) := by
  rw [Active.splitLeaf, splitLeaf]
  by_cases empty : machine.pmm.stack = []
  · have popped := pmmAlloc_nil empty
    rw [bind_of_ok (allocFrame_eq popped), bind_of_ok (direct.loadEntry_eq held index), popped]
    rfl
  · obtain ⟨t, rest, fresh⟩ := direct.wellFormed.freshFrame empty
    have start := DataStep.refl t { machine with pmm := rest }
    have leaf := XKern.loadEntry_eq (fresh.leadsTo direct start held) index
    have zeroed := start.trans (DataStep.fill _ t fun _ => 0)
    have filled := zeroed.trans
      (DataStep.fill _ t (splitEntry (machine.memory table index) flags))
    rw [bind_of_ok (allocFrame_eq fresh.popped), bind_of_ok leaf, fresh.popped,
      if_neg fresh.nonzero, Active.zeroPageTable, fresh.ptPtr_eq,
      bind_of_ok (fresh.storeAll_eq direct start fun _ => 0),
      bind_of_ok (fresh.storeAll_eq direct zeroed _),
      bind_of_ok (storeEntry_eq (fresh.leadsTo direct filled held) index _)]
    simp only [if_neg fresh.nonzero, zeroPageTable, fresh.ptPtr_eq]
    rfl

theorem ensureTable_eq (held : Held roots machine table) (index : Fin 512) :
    Active.ensureTable table index machine = reported (ensureTable table index machine) := by
  rw [Active.ensureTable, bind_of_ok (direct.loadEntry_eq held index), ensureTable]
  split
  · rfl
  · exact direct.newTable_eq held index

theorem ensurePageTable_eq (held : Held roots machine table) (index : Fin 512) (flags : U32) :
    Active.ensurePageTable table index flags machine =
      reported (ensurePageTable table index flags machine) := by
  rw [Active.ensurePageTable, bind_of_ok (direct.loadEntry_eq held index), ensurePageTable]
  split
  · exact direct.newTable_eq held index
  · split
    · exact direct.splitLeaf_eq held index flags
    · rfl

omit direct in
theorem of_run {hung : List (List (Fin 512))} (direct : Direct roots before)
    (run : HangRun flags (ptPtr before.cr3) hung before after) :
    Direct roots after where
  wellFormed := run.wellFormed direct.wellFormed direct.current
  current := by
    rw [run.cr3]
    exact direct.current
  identity := run.identity direct.wellFormed direct.current direct.identity

omit direct in
/-- After a level has been ensured, its table and the one below it can be used. -/
theorem of_ensured (direct : Direct roots before)
    (reached : tableAt tableLink before.memory (ptPtr before.cr3) path = some table)
    (ensured : Ensured flags (ptPtr before.cr3) path index table before (.ok after)) :
    Direct roots after ∧ Held roots after table ∧
      tableAt tableLink after.memory (ptPtr after.cr3) (path ++ [index]) =
        some (ptPtr (after.memory table index)) := by
  obtain ⟨⟨hung, run, _⟩, below⟩ := ensured
  refine ⟨direct.of_run run, ?_, ?_⟩
  · exact .of_tableAt direct.current
      (run.keeps_table direct.wellFormed direct.current direct.current reached)
  · rw [run.cr3]
    exact below

/-- The edits of `paging_map_page` through the active mapping are those on physical memory. -/
theorem pagingMapPage_eq (ordinary : pml4Index va ≠ 511) (pa : U64) (flags : U32) :
    Active.pagingMapPage va pa flags machine = .ok () (pagingMapPage va pa flags machine) := by
  have read : (get : KernelM Machine) machine = .ok machine machine := rfl
  have top : tableAt tableLink machine.memory (ptPtr machine.cr3) [] =
      some (ptPtr machine.cr3) := rfl
  have first := ensureTable_ensured flags (pml4Index va) direct.wellFormed direct.current
    top (by simp) (fun _ => ordinary)
  have runsFirst := direct.ensureTable_eq (.of_root direct.current) (pml4Index va)
  rw [Active.pagingMapPage, bind_of_ok read, pagingMapPage, mapPage]
  -- First level: the slot of the PML4.
  cases firstResult : ensureTable (ptPtr machine.cr3) (pml4Index va) machine with
  | error stuck =>
    rw [firstResult] at runsFirst
    rw [bind_of_ok runsFirst]
    rfl
  | ok one =>
    rw [firstResult] at first runsFirst
    obtain ⟨directOne, heldOne, reachedOne⟩ := direct.of_ensured top first
    have second := ensureTable_ensured flags (pdptIndex va) directOne.wellFormed
      directOne.current reachedOne (by simp) (by simp)
    have runsSecond := directOne.ensureTable_eq (.of_tableAt directOne.current reachedOne)
      (pdptIndex va)
    rw [bind_of_ok runsFirst, FaultTriple.ok_bind]
    simp only [Bool.not_true, Bool.false_eq_true, if_false]
    rw [bind_of_ok (directOne.loadEntry_eq heldOne _)]
    -- Second level: the slot of the PDPT.
    cases secondResult : ensureTable (ptPtr (one.memory (ptPtr machine.cr3) (pml4Index va)))
        (pdptIndex va) one with
    | error stuck =>
      rw [secondResult] at runsSecond
      rw [bind_of_ok runsSecond]
      rfl
    | ok two =>
      rw [secondResult] at second runsSecond
      obtain ⟨directTwo, heldTwo, reachedTwo⟩ := directOne.of_ensured reachedOne second
      have third := ensurePageTable_ensured flags (pdIndex va) directTwo.wellFormed
        directTwo.current reachedTwo (by simp)
      have runsThird := directTwo.ensurePageTable_eq (.of_tableAt directTwo.current reachedTwo)
        (pdIndex va) flags
      rw [bind_of_ok runsSecond, FaultTriple.ok_bind]
      simp only [Bool.not_true, Bool.false_eq_true, if_false]
      rw [bind_of_ok (directTwo.loadEntry_eq heldTwo _)]
      -- Third level: the slot of the PD, which may hold a leaf.
      cases thirdResult : ensurePageTable (ptPtr (two.memory
            (ptPtr (one.memory (ptPtr machine.cr3) (pml4Index va)))
            (pdptIndex va)))
          (pdIndex va) flags two with
      | error stuck =>
        rw [thirdResult] at runsThird
        rw [bind_of_ok runsThird]
        rfl
      | ok three =>
        rw [thirdResult] at third runsThird
        obtain ⟨directThree, heldThree, reachedThree⟩ := directTwo.of_ensured reachedTwo third
        have leads := directThree.identity.leadsTo directThree.wellFormed directThree.current
          (.of_tableAt directThree.current reachedThree)
        rw [bind_of_ok runsThird, FaultTriple.ok_bind]
        simp only [Bool.not_true, Bool.false_eq_true, if_false]
        rw [bind_of_ok (directThree.loadEntry_eq heldThree _), storeEntry_eq leads]
        rfl

theorem mapPage (ordinary : pml4Index va ≠ 511) (spares : SparesHeld roots machine va pa)
    (flags : U32) :
    Direct roots (pagingMapPage va pa flags machine) := by
  have outcome := pagingMapPage_outcome direct.wellFormed direct.current ordinary pa flags
  exact {
    wellFormed := outcome.wellFormed direct.wellFormed direct.current
    current := by
      rw [outcome.cr3]
      exact direct.current
    identity := outcome.identity direct.wellFormed direct.current spares direct.identity
  }

omit direct in
theorem popped {rest : Pmm} (direct : Direct roots machine)
    (fresh : FreshFrame roots machine frame rest) :
    Direct roots { machine with pmm := rest } :=
  ⟨fresh.wellFormed direct.wellFormed, direct.current,
    direct.identity.popped fun _ => fresh.subset⟩

theorem pagingAllocAndMap_eq (ordinary : pml4Index va ≠ 511) (flags : U32) :
    Active.pagingAllocAndMap va flags machine = allocAndMap va flags machine := by
  have taken : allocAndMap va flags machine =
      .ok (pagingAllocAndMap va flags machine).1 (pagingAllocAndMap va flags machine).2 := rfl
  rw [taken, Active.pagingAllocAndMap, pagingAllocAndMap]
  by_cases empty : machine.pmm.stack = []
  · have popped := pmmAlloc_nil empty
    rw [bind_of_ok (allocFrame_eq popped), popped]
    rfl
  · obtain ⟨phys, rest, fresh⟩ := direct.wellFormed.freshFrame empty
    rw [bind_of_ok (allocFrame_eq fresh.popped), fresh.popped, if_neg fresh.nonzero,
      bind_of_ok ((direct.popped fresh).pagingMapPage_eq ordinary phys flags)]
    simp only [if_neg fresh.nonzero]
    rfl

/-- Mapping a new frame at a page that is neither a table's nor a free frame's. -/
theorem allocAndMap (ordinary : pml4Index va ≠ 511)
    (apart : ∀ frame, Held roots machine frame → vaPath frame ≠ vaPath va) (flags : U32) :
    Direct roots (pagingAllocAndMap va flags machine).2 := by
  by_cases empty : machine.pmm.stack = []
  · rw [pagingAllocAndMap, pmmAlloc_nil empty]
    exact direct
  · obtain ⟨phys, rest, fresh⟩ := direct.wellFormed.freshFrame empty
    simp only [pagingAllocAndMap, fresh.popped, if_neg fresh.nonzero]
    apply (direct.popped fresh).mapPage ordinary
    intro frame held samePage
    exact (apart frame (held.imp_left fresh.subset) samePage).elim

theorem pagingMapPages_eq (calls : List MapCall)
    (inUser : ∀ call ∈ calls, pml4Index call.virtualAddr ∈ userSlots) :
    Active.pagingMapPages calls machine = .ok () (pagingMapPages calls machine) := by
  induction calls generalizing machine with
  | nil => rfl
  | cons call calls ih =>
    have user := inUser call mem_cons_self
    have ordinary : pml4Index call.virtualAddr ≠ 511 := by
      intro recursive
      rw [recursive] at user
      exact absurd user.2 (by decide)
    -- Tables and free frames lie in slot 0, outside the user slots.
    have spares : SparesHeld roots machine call.virtualAddr call.physicalAddr := by
      intro frame held samePage
      simp only [vaPath, List.cons.injEq] at samePage
      rw [← samePage.1, direct.identity.low frame held] at user
      exact absurd user.1 (by decide)
    rw [Active.pagingMapPages, bind_of_ok (direct.pagingMapPage_eq ordinary _ _),
      ih (direct.mapPage ordinary spares call.flags)
        fun later member => inUser later (mem_cons_of_mem _ member)]
    rfl

/-! ## The clone calls -/

theorem pagingVforkClone_eq :
    Active.pagingVforkClone machine =
      .ok (pagingVforkClone machine).1 (pagingVforkClone machine).2 := by
  rw [Active.pagingVforkClone, pagingVforkClone]
  by_cases empty : machine.pmm.stack = []
  · have popped := pmmAlloc_nil empty
    rw [bind_of_ok (allocFrame_eq popped), popped]
    rfl
  · obtain ⟨pml4, rest, fresh⟩ := direct.wellFormed.freshFrame empty
    have start := DataStep.refl pml4 { machine with pmm := rest }
    have read : (get : KernelM Machine) { machine with pmm := rest } =
        .ok { machine with pmm := rest } { machine with pmm := rest } := rfl
    have filled : DataStep pml4 { machine with pmm := rest } _ :=
      start.trans (DataStep.fillAt { machine with pmm := rest } pml4
        ((finRange 512).filter fun i => i.val < 511) (machine.memory (ptPtr machine.cr3)))
    rw [bind_of_ok (allocFrame_eq fresh.popped), fresh.popped, if_neg fresh.nonzero,
      bind_of_ok read, fresh.ptPtr_eq, bind_of_ok (fresh.copyRoot_eq direct start _),
      bind_of_ok (storeEntry_eq (fresh.leadsTo direct filled fresh.held) 511 _)]
    simp only [if_neg fresh.nonzero, fresh.ptPtr_eq, ← vforkMemory_eq]
    rfl

theorem pagingClonePd_eq :
    Active.pagingClonePd machine =
      .ok (pagingClonePd machine).1 (pagingClonePd machine).2 := by
  rw [Active.pagingClonePd, pagingClonePd]
  by_cases empty : machine.pmm.stack = []
  · have popped := pmmAlloc_nil empty
    rw [bind_of_ok (allocFrame_eq popped), popped]
    rfl
  · obtain ⟨pml4, rest, fresh⟩ := direct.wellFormed.freshFrame empty
    have start := DataStep.refl pml4 { machine with pmm := rest }
    have notRoot := fresh.ne_table direct.current (rfl : tableAt tableLink machine.memory _ [] = _)
    have read : (get : KernelM Machine) { machine with pmm := rest } =
        .ok { machine with pmm := rest } { machine with pmm := rest } := rfl
    have zeroed := start.trans (DataStep.fill _ pml4 fun _ => 0)
    have half := zeroed.trans (DataStep.fillAt _ pml4
      ((finRange 512).filter fun i => 256 ≤ i.val ∧ i.val < 511)
      (machine.memory (ptPtr machine.cr3)))
    have low := half.trans (DataStep.write _ pml4 0 (machine.memory (ptPtr machine.cr3) 0))
    rw [bind_of_ok (allocFrame_eq fresh.popped), fresh.popped, if_neg fresh.nonzero,
      bind_of_ok read, Active.zeroPageTable, fresh.ptPtr_eq,
      bind_of_ok (fresh.storeAll_eq direct start fun _ => 0),
      bind_of_ok (fresh.copyRoot_eq direct zeroed _), bind_of_ok (fresh.loadRoot_eq direct half 0),
      bind_of_ok (storeEntry_eq (fresh.leadsTo direct half fresh.held) 0 _),
      bind_of_ok (storeEntry_eq (fresh.leadsTo direct low fresh.held) 511 _)]
    simp only [if_neg fresh.nonzero, ← clonedMemory_eq notRoot fresh.isTable]
    rfl

end Direct

end XKern
