import XKern.ActivePaging
import XKern.Argv
import XKern.ElfLoad

namespace XKern

open FaultTriple List BitVec

/-!
# The address spaces of tasks

Tasks are created by cloning the current space and filling the clone, or by
`vfork`, which shares the whole space.  Calls for different tasks may
interleave.  A clone is only filled until its task is started: `spawn_task`
and `task_exec` load the image and build the arguments before
`task_set_entry`, and a task can only call `vfork` while it runs.
-/

/-- A space under construction, or one of a task that can run. -/
inductive SpaceState
  | building
  | live
  deriving Repr, DecidableEq

/-- A space that was made for a task. -/
structure AddressSpace where
  pml4 : U64
  state : SpaceState
  deriving Repr, DecidableEq

/-- The machine and the spaces on it. -/
structure Spaces where
  machine : Machine
  spaces : List AddressSpace

/-- What a space under construction is filled with. -/
inductive Fill
  | elf (img : ElfImage)
  | argv (name : TaskName) (argline : Option (List U8))

namespace Fill

/-- `elf_load_pd` or `task_build_argv` for the task with this PML4. -/
def run (alloc : AllocAndMap) (pml4 : U64) : Fill → KernelM Unit
  | .elf img => do
      let _ ← elfLoadPd alloc pml4 img
      return ()
  | .argv name argline => do
      let _ ← taskBuildArgv alloc pml4 name argline
      return ()

/-- The page of `va` is one that the call maps. -/
def Maps : Fill → U64 → Prop
  | .elf img => img.Maps
  | .argv name argline => ArgvMaps name argline

def Ordinary : Fill → Prop
  | .elf img => img.Ordinary
  | .argv _ _ => True

end Fill

/-- The calls of `paging.c` from which spaces are made. -/
structure Paging where
  clonePd : KernelM U64
  vforkClone : KernelM U64
  allocAndMap : AllocAndMap

/-- The calls as the processor executes them, through the active mapping. -/
def Paging.active : Paging where
  clonePd := Active.pagingClonePd
  vforkClone := Active.pagingVforkClone
  allocAndMap := Active.pagingAllocAndMap

/-- The calls with their edits on physical memory. -/
def Paging.physical : Paging where
  clonePd := modifyGet pagingClonePd
  vforkClone := modifyGet pagingVforkClone
  allocAndMap := XKern.allocAndMap

/-- The calls that make, fill, start or switch spaces. -/
inductive SpaceAction
  /-- `paging_clone_pd`, by `task_alloc` or `task_exec`. -/
  | clone
  /-- `paging_vfork_clone`, by `task_vfork`. -/
  | vfork
  | fill (target : Nat) (fill : Fill)
  /-- `task_set_entry`. -/
  | start (target : Nat)
  /-- A switch to the space of another task. -/
  | switch (target : Nat)

namespace Spaces

variable {space : AddressSpace}

/-- Note the new space, unless there is none. -/
def add (system : Spaces) (state : SpaceState) : EStateM.Result Fault Machine U64 → Option Spaces
  | .error _ _ => none
  | .ok pml4 machine =>
      if pml4 = 0 then
        some { system with machine }
      else
        some { machine, spaces := system.spaces ++ [{ pml4, state }] }

/-- `none` is a call that faults or that the kernel does not make. -/
def step (paging : Paging) (system : Spaces) : SpaceAction → Option Spaces
  | .clone => system.add .building (paging.clonePd system.machine)
  | .vfork => system.add .live (paging.vforkClone system.machine)
  | .fill target fill => do
      let space ← system.spaces[target]?
      if space.state = .building then
        match fill.run paging.allocAndMap space.pml4 system.machine with
        | .ok _ machine => some { system with machine }
        | .error _ _ => none
      else
        none
  | .start target => do
      let space ← system.spaces[target]?
      return { system with
        spaces := system.spaces.set target { space with state := .live } }
  | .switch target => do
      let space ← system.spaces[target]?
      if space.state = .live then
        some { system with
          machine := pagingLoadCr3 space.pml4 system.machine }
      else
        none

def roots (system : Spaces) : Set U64 :=
  {pml4 | ∃ space ∈ system.spaces, space.pml4 = pml4}

def building (system : Spaces) : Set U64 :=
  {pml4 | ∃ space ∈ system.spaces,
    space.state = .building ∧ space.pml4 = pml4}

/-- What holds between any two calls. -/
structure Inv (system : Spaces) : Prop where
  distinct : (system.spaces.map AddressSpace.pml4).Nodup
  wellFormed : WellFormed system.roots system.machine
  current : ∃ space ∈ system.spaces,
    space.state = .live ∧ space.pml4 = ptPtr system.machine.cr3
  isPrivate : ∀ space ∈ system.building,
    Private system.machine.memory space userSlots (system.roots \ {space})
  identity : IdentityMapped system.roots system.machine

theorem building_subset (system : Spaces) : system.building ⊆ system.roots := by
  rintro pml4 ⟨space, member, _, same⟩
  exact ⟨space, member, same⟩

namespace Inv

variable {system : Spaces}

theorem space_eq (inv : system.Inv) {other : AddressSpace} (member : space ∈ system.spaces)
    (otherMember : other ∈ system.spaces) (same : space.pml4 = other.pml4) :
    space = other :=
  inj_on_of_nodup_map inv.distinct member otherMember same

theorem current_root (inv : system.Inv) : ptPtr system.machine.cr3 ∈ system.roots := by
  obtain ⟨space, member, _, same⟩ := inv.current
  exact ⟨space, member, same⟩

theorem direct (inv : system.Inv) : Direct system.roots system.machine :=
  ⟨inv.wellFormed, inv.current_root, inv.identity⟩

theorem current_not_building (inv : system.Inv) {space : U64}
    (unfinished : space ∈ system.building) :
    ptPtr system.machine.cr3 ≠ space := by
  rintro rfl
  obtain ⟨live, liveMember, isLive, samePml4⟩ := inv.current
  obtain ⟨building, member, isBuilding, same⟩ := unfinished
  rw [inv.space_eq liveMember member (samePml4.trans same.symm)] at isLive
  rw [isBuilding] at isLive
  cases isLive

end Inv

/-! ## Clone calls -/

theorem roots_append (system : Spaces) (machine : Machine) (space : AddressSpace) :
    roots { machine, spaces := system.spaces ++ [space] } = insert space.pml4 system.roots := by
  ext pml4
  simp only [roots, Set.mem_ofPred_eq, Set.mem_insert_iff, mem_append, mem_singleton]
  constructor
  · rintro ⟨other, old | rfl, same⟩
    · exact .inr ⟨other, old, same⟩
    · exact .inl same.symm
  · rintro (rfl | ⟨other, old, same⟩)
    · exact ⟨space, .inr rfl, rfl⟩
    · exact ⟨other, .inl old, same⟩

theorem Inv.add {system : Spaces} (inv : system.Inv) {keep : Fin 512 → Bool} {fresh : U64}
    {after : Machine} (step : RootStep keep fresh system.machine after)
    (sameCr3 : after.cr3 = system.machine.cr3) (sharesLow : keep 0 = true) (state : SpaceState)
    (isPrivate : state = .building → Private after.memory fresh userSlots system.roots) :
    Inv { machine := after
          spaces := system.spaces ++ [{ pml4 := fresh, state }] } := by
  have freshRoot : fresh ∉ system.roots := fun member =>
    step.unreached inv.wellFormed fresh member [] rfl
  have newRoots := roots_append system after { pml4 := fresh, state }
  exact {
    distinct := by
      rw [map_append, map_singleton, nodup_append]
      refine ⟨inv.distinct, nodup_singleton _, ?_⟩
      rintro pml4 isOld other isFresh rfl
      obtain ⟨space, member, same⟩ := List.mem_map.mp isOld
      rw [mem_singleton] at isFresh
      exact freshRoot ⟨space, member, same.trans isFresh⟩
    wellFormed := by
      rw [newRoots]
      exact step.wellFormed inv.wellFormed inv.current_root
    current := by
      obtain ⟨space, member, isLive, same⟩ := inv.current
      exact ⟨space, mem_append_left _ member, isLive, by
        rw [same, ← sameCr3]⟩
    isPrivate := by
      rintro pml4 ⟨space, member, isBuilding, rfl⟩
      rw [newRoots]
      rcases List.mem_append.mp member with old | isNew
      · have unfinished : space.pml4 ∈ system.building :=
          ⟨space, old, isBuilding, rfl⟩
        have notFresh : fresh ≠ space.pml4 := by
          rintro same
          exact freshRoot ⟨space, old, same.symm⟩
        rw [← Set.insert_sdiff_singleton_comm notFresh]
        exact step.keeps_private inv.wellFormed
          (system.building_subset unfinished) Set.sdiff_subset
          ⟨inv.current_root, inv.current_not_building unfinished⟩
          (inv.isPrivate _ unfinished)
      · rw [List.mem_singleton.mp isNew] at isBuilding ⊢
        rw [Set.insert_sdiff_self_of_notMem freshRoot]
        exact isPrivate isBuilding
    identity := by
      rw [newRoots]
      exact step.identity inv.wellFormed inv.current_root sharesLow inv.identity
  }

/-- The frames that one system holds are held by another as well. -/
def HoldsNoMore (after before : Spaces) : Prop :=
  ∀ frame, Held after.roots after.machine frame → Held before.roots before.machine frame

theorem Inv.holdsNoMore_add {system : Spaces} (inv : system.Inv) {keep : Fin 512 → Bool}
    {fresh : U64} {after : Machine} (step : RootStep keep fresh system.machine after)
    (state : SpaceState) :
    HoldsNoMore { machine := after, spaces := system.spaces ++ [{ pml4 := fresh, state }] }
      system := by
  intro frame held
  rw [roots_append] at held
  exact step.held inv.wellFormed inv.current_root held

theorem Inv.clone {system after : Spaces} (inv : system.Inv)
    (taken : system.step .physical .clone = some after) (left : after.machine.pmm.stack ≠ []) :
    after.Inv ∧ HoldsNoMore after system := by
  change system.add .building (.ok (pagingClonePd system.machine).1
    (pagingClonePd system.machine).2) = some after at taken
  have free : system.machine.pmm.stack ≠ [] := by
    intro empty
    rw [pagingClonePd, pmmAlloc_nil empty] at taken
    obtain rfl := Option.some.inj taken
    exact left empty
  obtain ⟨returns, sameCr3, step⟩ := pagingClonePd_step inv.wellFormed inv.current_root free
  rw [Spaces.add, if_neg returns] at taken
  obtain rfl := Option.some.inj taken
  exact ⟨inv.add step sameCr3 rfl .building fun _ => step.private_userSlots inv.wellFormed,
    inv.holdsNoMore_add step .building⟩

theorem Inv.vfork {system after : Spaces} (inv : system.Inv)
    (taken : system.step .physical .vfork = some after) (left : after.machine.pmm.stack ≠ []) :
    after.Inv ∧ HoldsNoMore after system := by
  change system.add .live (.ok (pagingVforkClone system.machine).1
    (pagingVforkClone system.machine).2) = some after at taken
  have free : system.machine.pmm.stack ≠ [] := by
    intro empty
    rw [pagingVforkClone, pmmAlloc_nil empty] at taken
    obtain rfl := Option.some.inj taken
    exact left empty
  obtain ⟨returns, sameCr3, step⟩ := pagingVforkClone_step inv.wellFormed free
  rw [Spaces.add, if_neg returns] at taken
  obtain rfl := Option.some.inj taken
  refine ⟨inv.add step sameCr3 rfl .live ?_, inv.holdsNoMore_add step .live⟩
  intro isBuilding
  cases isBuilding

/-! ## Filling a space -/

/-- The call maps no page of a table or of a free frame. -/
def Apart (system : Spaces) (fill : Fill) : Prop :=
  ∀ frame, Held system.roots system.machine frame → ¬ fill.Maps frame

/-- The load of a fill into one of the spaces. -/
def site {system : Spaces} (space : AddressSpace) {fill : Fill} (apart : system.Apart fill) :
    LoadSite where
  roots := system.roots
  building := system.building
  space := space.pml4
  start := system.machine
  target := fill.Maps
  apart := apart

/-- What a load leaves behind in all spaces. -/
structure Filled (site : LoadSite) (machine : Machine) : Prop where
  wellFormed : WellFormed site.roots machine
  isPrivate : ∀ space ∈ site.building,
    Private machine.memory space userSlots (site.roots \ {space})
  kept : ∀ root ∈ site.roots, root ≠ site.space → ∀ va, pml4Index va ≠ 511 →
    (site.target va → pml4Index va ∈ userSlots) →
    (walk machine.memory root va).map Translation.phys =
      (walk site.start.memory root va).map Translation.phys
  identity : IdentityMapped site.roots machine
  held : ∀ frame, Held site.roots machine frame → Held site.roots site.start frame

theorem Filled.loadCr3 {site : LoadSite} {machine : Machine} (filled : Filled site machine)
    (phys : U64) :
    Filled site (pagingLoadCr3 phys machine) :=
  ⟨filled.wellFormed.loadCr3 phys, filled.isPrivate, filled.kept,
    filled.identity.loadCr3 phys, filled.held⟩

/-- The program fills a space of the system as long as frames are left. -/
abbrev Fills {Value : Type} {system : Spaces} (space : AddressSpace) {fill : Fill}
    (apart : system.Apart fill) (program : KernelM Value) : Prop :=
  Triple (fun machine => machine = system.machine) program
    (fun _ machine => machine.cr3 = system.machine.cr3 ∧
      (machine.pmm.stack ≠ [] → Filled (site space apart) machine))
    (fun machine => machine.pmm.stack ≠ [] → Filled (site space apart) machine)

/-- A program that keeps the invariant of a load, under the CR3 of the space. -/
theorem Inv.withCr3 {system : Spaces} (inv : system.Inv) (member : space ∈ system.spaces)
    (unfinished : space.state = .building) {fill : Fill} (apart : system.Apart fill)
    {Value : Type} {program : KernelM Value}
    (keeps : KeepsPages (site space apart) (fun _ => False) program) :
    Fills space apart (XKern.withCr3 space.pml4 program) := by
  have isRoot : space.pml4 ∈ system.roots := ⟨space, member, rfl⟩
  have begins : Loading (site space apart) (fun _ => False)
      (pagingLoadCr3 space.pml4 system.machine) := fun _ => {
    wellFormed := inv.wellFormed.loadCr3 space.pml4
    buildingRoots := system.building_subset
    isBuilding := ⟨space, member, unfinished, rfl⟩
    active := ptPtr_eq_self (inv.wellFormed.rootTable space.pml4 isRoot)
    isPrivate := inv.isPrivate
    ordinary := nofun
    lands := nofun
    kept := fun _ _ _ _ _ _ => rfl
    identity := inv.identity.loadCr3 space.pml4
    held := fun _ held => held
  }
  have ends : ∀ machine, Loading (site space apart) (fun _ => False) machine →
      machine.pmm.stack ≠ [] → Filled (site space apart) machine :=
    fun machine load left => ⟨(load left).wellFormed, (load left).isPrivate, (load left).kept,
      (load left).identity, (load left).held⟩
  rintro machine rfl
  have outcome := keeps (pagingLoadCr3 space.pml4 system.machine) begins
  rw [withCr3_eq]
  cases result : program (pagingLoadCr3 space.pml4 system.machine) with
  | ok value after =>
    rw [result] at outcome
    exact ⟨rfl, fun left => (ends after outcome left).loadCr3 _⟩
  | error fault after =>
    rw [result] at outcome
    exact ends after outcome

theorem Inv.unfilled {system : Spaces} (inv : system.Inv) (space : AddressSpace) {fill : Fill}
    (apart : system.Apart fill) :
    Filled (site space apart) system.machine :=
  ⟨inv.wellFormed, inv.isPrivate, fun _ _ _ _ _ _ => rfl, inv.identity, fun _ held => held⟩

theorem Inv.fill {system : Spaces} (inv : system.Inv) (member : space ∈ system.spaces)
    (unfinished : space.state = .building) {fill : Fill} (ordinary : fill.Ordinary)
    (apart : system.Apart fill) :
    Fills space apart (fill.run allocAndMap space.pml4) := by
  have skipped : ∀ Value : Type, ∀ value : Value,
      Fills space apart (pure value : KernelM Value) := by
    intro Value value
    apply Triple.pure
    rintro machine rfl
    exact ⟨rfl, fun _ => inv.unfilled space apart⟩
  cases fill with
  | elf img =>
    exact Triple.bind (Triple.ite (fun _ => skipped _ none) fun _ =>
        inv.withCr3 member unfinished apart (elfLoad_triple ordinary fun _ maps => maps))
      fun _ => Triple.skip _
  | argv name argline =>
    exact Triple.bind (Triple.ite (fun _ => skipped _ none) fun _ =>
        inv.withCr3 member unfinished apart (fillArgv_triple fun _ maps => maps))
      fun _ => Triple.skip _

/-- A load through the active mapping is the load on physical memory. -/
theorem Inv.fill_active {system : Spaces} (inv : system.Inv) (member : space ∈ system.spaces)
    {fill : Fill} (ordinary : fill.Ordinary) (apart : system.Apart fill) :
    fill.run Active.pagingAllocAndMap space.pml4 system.machine =
      fill.run allocAndMap space.pml4 system.machine := by
  have isRoot : space.pml4 ∈ system.roots := ⟨space, member, rfl⟩
  have mappable : Mappable (site space apart) (pagingLoadCr3 space.pml4 system.machine) := {
    direct := ⟨inv.wellFormed.loadCr3 space.pml4, by
      change ptPtr space.pml4 ∈ _
      rw [ptPtr_eq_self (inv.wellFormed.rootTable space.pml4 isRoot)]
      exact isRoot, inv.identity.loadCr3 space.pml4⟩
    held := fun _ held => held
  }
  cases fill with
  | elf img =>
    apply bind_congr_run
    rw [elfLoadPd, elfLoadPd]
    split
    · rfl
    · rw [withCr3_eq, withCr3_eq, elfLoad_active ordinary (fun _ maps => maps) mappable]
  | argv name argline =>
    apply bind_congr_run
    rw [taskBuildArgv, taskBuildArgv]
    split
    · rfl
    · rw [withCr3_eq, withCr3_eq, fillArgv_active (fun _ maps => maps) mappable]

/-! ## Starting a task -/

theorem Inv.start {system after : Spaces} (inv : system.Inv) {target : Nat}
    (isTarget : system.spaces[target]? = some space)
    (isAfter : after = { system with
      spaces := system.spaces.set target { space with state := .live } }) :
    after.Inv ∧ HoldsNoMore after system := by
  subst isAfter
  have samePml4s : (system.spaces.set target { space with state := .live }).map AddressSpace.pml4 =
        system.spaces.map AddressSpace.pml4 := by
    obtain ⟨bound, _⟩ := List.getElem?_eq_some_iff.mp isTarget
    apply ext_getElem?
    intro index
    rw [getElem?_map, getElem?_map]
    by_cases isIndex : target = index
    · subst isIndex
      rw [getElem?_set_self bound, isTarget]
      rfl
    · rw [getElem?_set_ne isIndex]
  have sameRoots : roots { system with
      spaces := system.spaces.set target { space with state := .live } } = system.roots := by
    ext pml4
    change (∃ other ∈ _, _) ↔ ∃ other ∈ _, _
    rw [← mem_map, ← mem_map, samePml4s]
  refine ⟨?_, fun frame held => by rwa [sameRoots] at held⟩
  exact {
    distinct := by
      rw [samePml4s]
      exact inv.distinct
    wellFormed := by
      rw [sameRoots]
      exact inv.wellFormed
    current := by
      obtain ⟨live, member, isLive, same⟩ := inv.current
      obtain ⟨index, found⟩ := mem_iff_getElem?.mp member
      by_cases isIndex : target = index
      · subst isIndex
        rw [isTarget, Option.some.injEq] at found
        subst found
        obtain ⟨bound, _⟩ := List.getElem?_eq_some_iff.mp isTarget
        exact ⟨{ space with state := .live }, mem_set bound _, rfl, same⟩
      · refine ⟨live, mem_iff_getElem?.mpr ⟨index, ?_⟩, isLive, same⟩
        rw [getElem?_set_ne isIndex]
        exact found
    isPrivate := by
      rintro pml4 ⟨other, member, isBuilding, rfl⟩
      rw [sameRoots]
      rcases mem_or_eq_of_mem_set member with old | rfl
      · exact inv.isPrivate _ ⟨other, old, isBuilding, rfl⟩
      · cases isBuilding
    identity := by
      rw [sameRoots]
      exact inv.identity
  }

/-! ## Runs -/

/-- What the calls of the kernel are assumed to respect. -/
def Admissible (system : Spaces) : SpaceAction → Prop
  | .fill _ fill => fill.Ordinary ∧ system.Apart fill
  | _ => True

theorem Admissible.later {before after : Spaces} {action : SpaceAction}
    (admissible : Admissible before action) (fewer : HoldsNoMore after before) :
    Admissible after action := by
  cases action with
  | fill target fill =>
    exact ⟨admissible.1, fun frame held => admissible.2 frame (fewer frame held)⟩
  | clone => trivial
  | vfork => trivial
  | start target => trivial
  | switch target => trivial

theorem Inv.step {system after : Spaces} (inv : system.Inv) {action : SpaceAction}
    (admissible : Admissible system action) (taken : system.step .physical action = some after)
    (left : after.machine.pmm.stack ≠ []) :
    after.Inv ∧ HoldsNoMore after system := by
  cases action with
  | clone => exact inv.clone taken left
  | vfork => exact inv.vfork taken left
  | fill target fill =>
    obtain ⟨ordinary, apart⟩ := admissible
    obtain ⟨space, isTarget, taken⟩ := Option.bind_eq_some_iff.mp taken
    have member := mem_of_getElem? isTarget
    split at taken
    · rename_i unfinished
      have outcome := inv.fill member unfinished ordinary apart system.machine rfl
      split at taken
      · rename_i value machine result
        obtain rfl := Option.some.inj taken
        change Fill.run allocAndMap _ _ _ = _ at result
        rw [result] at outcome
        obtain ⟨sameCr3, filled⟩ := outcome
        refine ⟨?_, (filled left).held⟩
        exact {
          distinct := inv.distinct
          wellFormed := (filled left).wellFormed
          current := by
            obtain ⟨live, isSpace, isLive, same⟩ := inv.current
            exact ⟨live, isSpace, isLive, by rw [same, sameCr3]⟩
          isPrivate := (filled left).isPrivate
          identity := (filled left).identity
        }
      · cases taken
    · cases taken
  | start target =>
    obtain ⟨space, isTarget, taken⟩ := Option.bind_eq_some_iff.mp taken
    exact inv.start isTarget (Option.some.inj taken).symm
  | switch target =>
    obtain ⟨space, isTarget, taken⟩ := Option.bind_eq_some_iff.mp taken
    have member := mem_of_getElem? isTarget
    split at taken
    · rename_i isLive
      obtain rfl := Option.some.inj taken
      have isRoot : space.pml4 ∈ system.roots := ⟨space, member, rfl⟩
      refine ⟨?_, fun _ held => held⟩
      exact {
        distinct := inv.distinct
        wellFormed := inv.wellFormed.loadCr3 space.pml4
        current := ⟨space, member, isLive,
          (ptPtr_eq_self (inv.wellFormed.rootTable _ isRoot)).symm⟩
        isPrivate := inv.isPrivate
        identity := inv.identity.loadCr3 space.pml4
      }
    · cases taken

/-- A call through the active mapping is the call on physical memory. -/
theorem Inv.step_active {system : Spaces} (inv : system.Inv) {action : SpaceAction}
    (admissible : Admissible system action) :
    system.step .active action = system.step .physical action := by
  cases action with
  | clone =>
    have same : Paging.active.clonePd system.machine = Paging.physical.clonePd system.machine :=
      inv.direct.pagingClonePd_eq
    rw [Spaces.step, Spaces.step, same]
  | vfork =>
    have same : Paging.active.vforkClone system.machine =
        Paging.physical.vforkClone system.machine :=
      inv.direct.pagingVforkClone_eq
    rw [Spaces.step, Spaces.step, same]
  | fill target fill =>
    rw [Spaces.step, Spaces.step]
    cases isTarget : system.spaces[target]? with
    | none => simp only [Option.bind_eq_bind, Option.bind_none]
    | some space =>
      have same : fill.run Paging.active.allocAndMap space.pml4 system.machine =
          fill.run Paging.physical.allocAndMap space.pml4 system.machine :=
        inv.fill_active (mem_of_getElem? isTarget) admissible.1 admissible.2
      simp only [Option.bind_eq_bind, Option.bind_some, same]
  | start target => rw [Spaces.step, Spaces.step]
  | switch target => rw [Spaces.step, Spaces.step]

/--
The systems that the calls lead to from a kernel with one space whose tables and
free frames are mapped to themselves, as long as images are ordinary, no load
maps a page of a table or of a free frame, and the free frames do not run out.
-/
inductive Reachable : Spaces → Prop
  | boot
      {machine : Machine}
      (wellFormed : WellFormed {ptPtr machine.cr3} machine)
      (identity : IdentityMapped {ptPtr machine.cr3} machine) :
      Reachable
        { machine, spaces := [{ pml4 := ptPtr machine.cr3, state := .live }] }
  | call
      {before after : Spaces}
      {action : SpaceAction}
      (reached : Reachable before)
      (admissible : Admissible before action)
      (taken : before.step .active action = some after)
      (left : after.machine.pmm.stack ≠ []) :
      Reachable after

theorem Reachable.inv {system : Spaces} (reached : system.Reachable) : system.Inv := by
  induction reached with
  | @boot machine wellFormed identity =>
    have oneRoot : roots (.mk machine [⟨ptPtr machine.cr3, .live⟩]) =
          {ptPtr machine.cr3} := by
      ext pml4
      simp [roots, eq_comm]
    exact {
      distinct := by simp
      wellFormed := by
        rw [oneRoot]
        exact wellFormed
      current := ⟨_, mem_singleton_self _, rfl, rfl⟩
      isPrivate := by
        rintro pml4 ⟨space, member, isBuilding, _⟩
        rw [List.mem_singleton.mp member] at isBuilding
        cases isBuilding
      identity := by
        rw [oneRoot]
        exact identity
    }
  | call _ admissible taken left ih =>
    rw [ih.step_active admissible] at taken
    exact (ih.step admissible taken left).1

/-- Several calls; `none` also when one of them takes the last free frame. -/
def steps (paging : Paging) (system : Spaces) : List SpaceAction → Option Spaces
  | [] => some system
  | action :: rest => do
      let after ← system.step paging action
      if after.machine.pmm.stack = [] then
        none
      else
        after.steps paging rest

/-- Calls that are admissible at the start stay so, and lead to a reachable system. -/
theorem Reachable.steps {system final : Spaces} (reached : system.Reachable)
    {actions : List SpaceAction} (admissible : ∀ action ∈ actions, Admissible system action)
    (taken : system.steps .physical actions = some final) :
    system.steps .active actions = some final ∧ final.Reachable ∧ HoldsNoMore final system := by
  induction actions generalizing system with
  | nil =>
    obtain rfl := Option.some.inj taken
    exact ⟨rfl, reached, fun _ held => held⟩
  | cons action rest ih =>
    have here := admissible action mem_cons_self
    obtain ⟨after, first, taken⟩ := Option.bind_eq_some_iff.mp taken
    split at taken
    · cases taken
    · rename_i left
      have active := (reached.inv.step_active here).trans first
      obtain ⟨_, fewer⟩ := reached.inv.step here first left
      obtain ⟨later, isReachable, fewerLater⟩ := ih (reached.call here active left)
        (fun other member => (admissible other (mem_cons_of_mem _ member)).later fewer) taken
      refine ⟨?_, isReachable, fun frame held => fewer frame (fewerLater frame held)⟩
      rw [Spaces.steps, active]
      change (if after.machine.pmm.stack = [] then none else after.steps .active rest) = _
      rw [if_neg left, later]

end Spaces

open Spaces

end XKern
