import XKern.LoadInvariant
import XKern.TaskCalls

namespace XKern

open FaultTriple List
open Option (bind_eq_bind bind_eq_some_iff)

/-!
# Frames of failed process creation

A call that creates or replaces a process takes its first frame for the new
PML4 and gives no frame back when a later part fails.  So the number of free
frames is kept exactly by those failures that come before that frame.
-/

/-! ## Frames are only taken -/

theorem length_pmmAlloc_le (pmm : Pmm) : (pmmAlloc pmm).2.stack.length ≤ pmm.stack.length := by
  unfold pmmAlloc
  split
  · exact le_refl _
  · rw [length_dropLast]
    exact Nat.sub_le _ _

/-- Wherever an edit of the tables ends, at most `count` frames are free. -/
def FramesAtMost (count : Nat) : Except Machine Machine → Prop
  | .ok machine => machine.pmm.stack.length ≤ count
  | .error machine => machine.pmm.stack.length ≤ count

section Edits

variable {count : Nat} {machine : Machine}

theorem FramesAtMost.bind {first : Except Machine Machine} {next : Machine → Except Machine Machine}
    (bound : FramesAtMost count first)
    (later : ∀ machine, machine.pmm.stack.length ≤ count → FramesAtMost count (next machine)) :
    FramesAtMost count (first >>= next) := by
  cases first with
  | ok machine => exact later machine bound
  | error machine => exact bound

section

variable (bound : machine.pmm.stack.length ≤ count) (table : U64) (index : Fin 512)

include bound table index

theorem newTable_frames : FramesAtMost count (newTable table index machine) := by
  have taken := (length_pmmAlloc_le machine.pmm).trans bound
  unfold newTable
  dsimp only
  split <;> exact taken

theorem splitLeaf_frames (flags : U32) :
    FramesAtMost count (splitLeaf table index flags machine) := by
  have taken := (length_pmmAlloc_le machine.pmm).trans bound
  unfold splitLeaf
  dsimp only
  split <;> exact taken

theorem ensureTable_frames : FramesAtMost count (ensureTable table index machine) := by
  unfold ensureTable
  split
  · exact bound
  · exact newTable_frames bound table index

theorem ensurePageTable_frames (flags : U32) :
    FramesAtMost count (ensurePageTable table index flags machine) := by
  unfold ensurePageTable
  split
  · exact newTable_frames bound table index
  · split
    · exact splitLeaf_frames bound table index flags
    · exact bound

end

theorem pagingMapPage_frames (bound : machine.pmm.stack.length ≤ count) (va pa : U64)
    (flags : U32) :
    (pagingMapPage va pa flags machine).pmm.stack.length ≤ count := by
  have edited : FramesAtMost count (mapPage va pa flags machine) := by
    unfold mapPage
    refine (ensureTable_frames bound _ _).bind fun machine bound => ?_
    refine (ensureTable_frames bound _ _).bind fun machine bound => ?_
    refine (ensurePageTable_frames bound _ _ _).bind fun machine bound => ?_
    exact bound
  unfold pagingMapPage
  split
  · rename_i isOk
    rw [isOk] at edited
    exact edited
  · rename_i isError
    rw [isError] at edited
    exact edited

end Edits

theorem frames_loadInvariant (count : Nat) :
    LoadInvariant fun machine => machine.pmm.stack.length ≤ count where
  maps := by
    intro v flags machine bound
    have taken := (length_pmmAlloc_le machine.pmm).trans bound
    unfold pagingAllocAndMap
    dsimp only
    split
    · exact taken
    · exact pagingMapPage_frames taken _ _ _
  stores := fun machine memory bound => bound
  switches := fun cr3 machine bound => bound

theorem Keeps.frames_le {Value : Type} {program : KernelM Value} {machine after : Machine}
    {value : Value}
    (keeps : ∀ count, Keeps (fun machine => machine.pmm.stack.length ≤ count) program)
    (ran : program machine = .ok value after) :
    after.pmm.stack.length ≤ machine.pmm.stack.length := by
  have bound := keeps machine.pmm.stack.length machine (le_refl _)
  rw [ran] at bound
  exact bound

/-- The top of the stack is not a frame: the clone calls take it and fail. -/
def CloneLoses (machine : Machine) : Prop :=
  machine.pmm.stack.getLast? = some 0

theorem pagingClonePd_frames (machine : Machine) :
    (pagingClonePd machine).2.pmm.stack.length = machine.pmm.stack.length - 1 := by
  have taken : (pmmAlloc machine.pmm).2.stack.length = machine.pmm.stack.length - 1 := by
    unfold pmmAlloc
    split
    · rename_i empty
      rw [getLast?_eq_none_iff.mp empty]
      rfl
    · exact length_dropLast
  unfold pagingClonePd
  dsimp only
  split <;> exact taken

theorem pagingVforkClone_frames (machine : Machine) :
    (pagingVforkClone machine).2.pmm.stack.length = machine.pmm.stack.length - 1 := by
  have same : (pagingVforkClone machine).2.pmm = (pagingClonePd machine).2.pmm := by
    unfold pagingVforkClone pagingClonePd
    dsimp only
    split <;> rfl
  rw [same, pagingClonePd_frames]

theorem pmmAlloc_eq_zero_iff (pmm : Pmm) :
    (pmmAlloc pmm).1 = 0 ↔ pmm.stack = [] ∨ pmm.stack.getLast? = some 0 := by
  unfold pmmAlloc
  split
  · rename_i empty
    simp [getLast?_eq_none_iff.mp empty]
  · rename_i addr isTop
    have filled : pmm.stack ≠ [] := by
      intro empty
      rw [empty] at isTop
      cases isTop
    simp [isTop, filled]

theorem pagingClonePd_eq_zero_iff (machine : Machine) : (pagingClonePd machine).1 = 0 ↔
      machine.pmm.stack = [] ∨ CloneLoses machine := by
  rw [CloneLoses, ← pmmAlloc_eq_zero_iff]
  unfold pagingClonePd
  dsimp only
  split
  · rename_i failed
    exact iff_of_true rfl failed
  · exact Iff.rfl

theorem pagingVforkClone_eq_zero_iff (machine : Machine) : (pagingVforkClone machine).1 = 0 ↔
      machine.pmm.stack = [] ∨ CloneLoses machine := by
  rw [CloneLoses, ← pmmAlloc_eq_zero_iff]
  unfold pagingVforkClone
  dsimp only
  split
  · rename_i failed
    exact iff_of_true rfl failed
  · exact Iff.rfl

theorem CloneLoses.length_pos {machine : Machine} (loses : CloneLoses machine) :
    0 < machine.pmm.stack.length := by
  rw [CloneLoses, getLast?_eq_some_iff] at loses
  obtain ⟨rest, whole⟩ := loses
  rw [whole, length_append]
  exact Nat.lt_add_left _ zero_lt_one

theorem length_pos_of_clone {machine : Machine} (cloned : (pagingClonePd machine).1 ≠ 0) :
    0 < machine.pmm.stack.length := by
  rw [Ne, pagingClonePd_eq_zero_iff, not_or] at cloned
  exact List.length_pos_iff.mpr cloned.1

/-! ## Failures that lose frames -/

/-- The clone succeeds and `elf_load_pd` refuses the image. -/
def LoadRejects (img : ElfImage) (machine : Machine) : Prop :=
  (pagingClonePd machine).1 ≠ 0 ∧
    ∃ after, elfLoadPd allocAndMap (pagingClonePd machine).1 img (pagingClonePd machine).2 =
      .ok none after

/-- The image is loaded and there is no room for the arguments. -/
def ArgvFails (img : ElfImage) (name : TaskName) (argline : Option (List U8))
    (machine : Machine) : Prop :=
  (pagingClonePd machine).1 ≠ 0 ∧
    ∃ image middle after,
      elfLoadPd allocAndMap (pagingClonePd machine).1 img (pagingClonePd machine).2 =
          .ok (some image) middle ∧
        taskBuildArgv allocAndMap (pagingClonePd machine).1 name argline middle = .ok none after

/-- `task_exec` fails after it took a frame. -/
def ExecFailsLate (fs : Ramfs ElfImage) (path : List U8) (argline : Option (List U8))
    (kernel : Kernel) : Prop :=
  ∃ slot f, kernel.curTask = some slot ∧ ramfsLookup fs path = some f ∧
    elfValid f.data = true ∧
    (CloneLoses kernel.machine ∨ LoadRejects f.data kernel.machine ∨
      ArgvFails f.data (kernel.tasks slot).name argline kernel.machine)

/-- `spawn_task` fails after it took a frame. -/
def SpawnFailsLate (fs : Ramfs ElfImage) (path : List U8)
    (kernel : Kernel) : Prop :=
  ∃ f, ramfsLookup fs path = some f ∧ elfValid f.data = true ∧
    kernel.taskCount < procMaxTasks ∧
    (CloneLoses kernel.machine ∨
      (path.length < taskNameMax - 1 ∧ LoadRejects f.data kernel.machine))

/-- `task_vfork` fails after it took a frame. -/
def VforkFailsLate (kernel : Kernel) : Prop :=
  kernel.taskCount < procMaxTasks ∧ CloneLoses kernel.machine

/-! ## The calls -/

/-- A failed `task_exec` keeps the number of free frames and the record. -/
def ExecConserves (symbols : KernelSymbols) (fs : Ramfs ElfImage) (path : List U8)
    (argline : Option (List U8))
    (kernel : Kernel) : Prop :=
  ∀ after, taskExec symbols fs path argline kernel = some (-1, after) →
    pmmGetFreePages after.machine.pmm = pmmGetFreePages kernel.machine.pmm ∧
      ∀ slot ∈ kernel.curTask, after.tasks slot = kernel.tasks slot

/-- A failed `spawn_task` keeps the number of free frames. -/
def SpawnConserves (symbols : ScriptSymbols) (fs : Ramfs ElfImage) (path : List U8)
    (argline : Option (List U8)) (stale : U64)
    (launchd : Launchd) : Prop :=
  ∀ after, spawnTask symbols fs path argline stale launchd = some (-1, after) →
    pmmGetFreePages after.kernel.machine.pmm =
      pmmGetFreePages launchd.kernel.machine.pmm

/-- A failed `task_vfork` keeps the number of free frames. -/
def VforkConserves (symbols : KernelSymbols) (kernel : Kernel) : Prop :=
  ∀ after, taskVfork symbols kernel = some (-1, after) →
    pmmGetFreePages after.machine.pmm = pmmGetFreePages kernel.machine.pmm

theorem pagingClonePd_empty {machine : Machine} (empty : machine.pmm.stack = []) :
    pmmGetFreePages (pagingClonePd machine).2.pmm = pmmGetFreePages machine.pmm := by
  rw [pmmGetFreePages, pmmGetFreePages, pagingClonePd_frames, empty]
  rfl

variable {fs : Ramfs ElfImage} {path : List U8} {argline : Option (List U8)}

section Exec

variable {symbols : KernelSymbols} {kernel : Kernel}

theorem taskExecLoaded_failure {slot : Fin procMaxTasks} {newCr3 entry : U64} {after : Kernel}
    (failed : taskExecLoaded symbols slot newCr3 entry argline kernel = some (-1, after)) :
    ∃ machine, taskBuildArgv allocAndMap newCr3 (kernel.tasks slot).name argline
      kernel.machine = .ok none machine := by
  rw [taskExecLoaded, bind_eq_bind, bind_eq_some_iff] at failed
  obtain ⟨⟨argv, middle⟩, isBuilt, failed⟩ := failed
  obtain ⟨machine, ran, rfl⟩ := Kernel.run_eq_some isBuilt
  cases argv with
  | none => exact ⟨machine, ran⟩
  | some built => cases failed

theorem taskExecLoaded_fails {slot : Fin procMaxTasks} {newCr3 entry : U64} {machine : Machine}
    (built : taskBuildArgv allocAndMap newCr3 (kernel.tasks slot).name argline
      kernel.machine = .ok none machine) :
    taskExecLoaded symbols slot newCr3 entry argline kernel = some (-1,
        { kernel with machine }.setTask slot { kernel.tasks slot with
            stack := symbols.stackOf (kernel.tasks slot).pid.toNat }) := by
  simp [taskExecLoaded, Kernel.run, Kernel.setTask, built]

theorem taskExec_failure {after : Kernel}
    (failed : taskExec symbols fs path argline kernel = some (-1, after)) :
    after = kernel ∨ (kernel.machine.pmm.stack = [] ∧
        after = { kernel with machine := (pagingClonePd kernel.machine).2 }) ∨
      ExecFailsLate fs path argline kernel := by
  rw [taskExec, bind_eq_bind, bind_eq_some_iff] at failed
  obtain ⟨slot, isCurrent, failed⟩ := failed
  split at failed
  · cases failed
    exact .inl rfl
  · rename_i f isFile
    split at failed
    · cases failed
      exact .inl rfl
    · rename_i valid
      have isValid : elfValid f.data = true := by simpa using valid
      rw [taskExecValid] at failed
      dsimp only at failed
      split at failed
      · rename_i cloneFailed
        cases failed
        rcases (pagingClonePd_eq_zero_iff _).mp cloneFailed with empty | loses
        · exact .inr (.inl ⟨empty, rfl⟩)
        · exact .inr (.inr ⟨slot, f, isCurrent, isFile, isValid, .inl loses⟩)
      · rename_i cloned
        right; right
        refine ⟨slot, f, isCurrent, isFile, isValid, .inr ?_⟩
        rw [bind_eq_bind, bind_eq_some_iff] at failed
        obtain ⟨⟨loaded, middle⟩, isLoaded, failed⟩ := failed
        obtain ⟨machine, ran, rfl⟩ := Kernel.run_eq_some isLoaded
        cases loaded with
        | none => exact .inl ⟨cloned, machine, ran⟩
        | some image =>
          obtain ⟨final, built⟩ := taskExecLoaded_failure failed
          exact .inr ⟨cloned, image, machine, final, ran, built⟩

theorem taskExec_late (symbols : KernelSymbols) (late : ExecFailsLate fs path argline kernel) :
    ∃ after, taskExec symbols fs path argline kernel = some (-1, after) ∧
      after.machine.pmm.stack.length < kernel.machine.pmm.stack.length := by
  obtain ⟨slot, f, isCurrent, isFile, isValid, late⟩ := late
  have frames := pagingClonePd_frames kernel.machine
  have reached : taskExec symbols fs path argline kernel =
      taskExecValid symbols slot f.data argline kernel := by
    simp [taskExec, isCurrent, isFile, isValid]
  rw [reached, taskExecValid]
  dsimp only
  rcases late with
    loses | ⟨cloned, final, ran⟩ | ⟨cloned, image, middle, final, ran, built⟩
  · have filled := loses.length_pos
    rw [if_pos ((pagingClonePd_eq_zero_iff _).mpr (Or.inr loses))]
    exact ⟨_, rfl, by dsimp only; omega⟩
  · have filled := length_pos_of_clone cloned
    have fewer := Keeps.frames_le (fun count => (frames_loadInvariant count).elfLoadPd _ f.data) ran
    rw [if_neg cloned]
    simp only [Kernel.run, ran]
    exact ⟨_, rfl, by dsimp only; omega⟩
  · have filled := length_pos_of_clone cloned
    have fewer := Keeps.frames_le (fun count => (frames_loadInvariant count).elfLoadPd _ f.data) ran
    have evenFewer := Keeps.frames_le
      (fun count => (frames_loadInvariant count).taskBuildArgv _ _ argline) built
    rw [if_neg cloned]
    simp only [Kernel.run, ran]
    refine ⟨_, taskExecLoaded_fails built, ?_⟩
    dsimp only [Kernel.setTask]
    omega

theorem execConserves_iff : ExecConserves symbols fs path argline kernel ↔
      ¬ ExecFailsLate fs path argline kernel := by
  constructor
  · intro conserves late
    obtain ⟨after, failed, fewer⟩ := taskExec_late symbols late
    exact ne_of_lt fewer (conserves after failed).1
  · intro notLate after failed
    rcases taskExec_failure failed with rfl | ⟨empty, rfl⟩ | late
    · exact ⟨rfl, fun slot _ => rfl⟩
    · exact ⟨pagingClonePd_empty empty, fun slot _ => rfl⟩
    · exact (notLate late).elim

end Exec

section Spawn

variable {symbols : ScriptSymbols} {stale : U64} {launchd : Launchd}

theorem cmdSpawn_result {after : Launchd}
    (failed : cmdSpawn symbols path launchd = some (-1, after)) :
    False := by
  unfold cmdSpawn at failed
  split at failed
  · split at failed
    · rw [bind_eq_bind, bind_eq_some_iff] at failed
      obtain ⟨_, _, failed⟩ := failed
      cases failed
    · cases failed
  · cases failed

theorem spawnTask_failure {after : Launchd}
    (failed : spawnTask symbols fs path argline stale launchd = some (-1, after)) :
    after.kernel.machine = launchd.kernel.machine ∨ (launchd.kernel.machine.pmm.stack = [] ∧
        after.kernel.machine = (pagingClonePd launchd.kernel.machine).2) ∨
      SpawnFailsLate fs path launchd.kernel := by
  unfold spawnTask at failed
  split at failed
  · cases failed
    exact .inl rfl
  · rename_i f isFile
    split at failed
    · rename_i isValid
      rw [bind_eq_bind, bind_eq_some_iff] at failed
      obtain ⟨⟨result, kernel⟩, spawned, failed⟩ := failed
      cases failed
      rw [spawnElf, bind_eq_bind, bind_eq_some_iff] at spawned
      obtain ⟨⟨outcome, middle⟩, allocated, spawned⟩ := spawned
      rcases taskAlloc_cases allocated with
        ⟨rfl, _, rfl⟩ | ⟨rfl, room, cloneFailed, rfl⟩ | ⟨room, task, isTask, cloned, rfl, rfl⟩
      · cases spawned
        exact .inl rfl
      · cases spawned
        rcases (pagingClonePd_eq_zero_iff _).mp cloneFailed with empty | loses
        · exact .inr (.inl ⟨empty, rfl⟩)
        · exact .inr (.inr ⟨f, isFile, isValid, room, .inl loses⟩)
      · dsimp only at spawned
        rw [bind_eq_bind, bind_eq_some_iff] at spawned
        obtain ⟨⟨loaded, final⟩, isLoaded, spawned⟩ := spawned
        obtain ⟨machine, ran, rfl⟩ := Kernel.run_eq_some isLoaded
        rw [Kernel.addTask_same, isTask.cr3] at ran
        cases loaded with
        | none =>
          exact .inr (.inr ⟨f, isFile, isValid, room,
            .inr ⟨isTask.nameFits, cloned, machine, ran⟩⟩)
        | some image =>
          dsimp only at spawned
          rw [bind_eq_bind, bind_eq_some_iff] at spawned
          obtain ⟨_, _, spawned⟩ := spawned
          cases spawned
    · exact (cmdSpawn_result failed).elim

theorem spawnTask_late (late : SpawnFailsLate fs path launchd.kernel) :
    ∃ after, spawnTask symbols fs path argline stale launchd = some (-1, after) ∧
      after.kernel.machine.pmm.stack.length < launchd.kernel.machine.pmm.stack.length := by
  obtain ⟨f, isFile, isValid, room, late⟩ := late
  have frames := pagingClonePd_frames launchd.kernel.machine
  rcases late with loses | ⟨nameFits, cloned, machine, ran⟩
  · have filled := loses.length_pos
    have failed := (pagingClonePd_eq_zero_iff _).mpr (Or.inr loses)
    refine ⟨{ launchd with kernel := { launchd.kernel with
      machine := (pagingClonePd launchd.kernel.machine).2 } }, ?_, ?_⟩
    · simp [spawnTask, spawnElf, taskAlloc, isFile, isValid, room, failed]
    · dsimp only
      omega
  · have filled := length_pos_of_clone cloned
    have fewer := Keeps.frames_le (fun count => (frames_loadInvariant count).elfLoadPd _ f.data) ran
    obtain ⟨task, isTask, allocated⟩ :=
      taskAlloc_added symbols.toKernelSymbols 0 room cloned nameFits
    rw [← isTask.cr3] at ran
    obtain ⟨after, spawned, sameMachine⟩ :
        ∃ after, spawnElf symbols.toKernelSymbols f.data path argline stale
          launchd.kernel = some (-1, after) ∧ after.machine = machine := by
      rw [spawnElf, allocated]
      simp [Kernel.run, Kernel.addTask, Kernel.setTask, Kernel.setState, ran]
    refine ⟨{ launchd with kernel := after }, ?_, ?_⟩
    · simp [spawnTask, isFile, isValid, spawned]
    · dsimp only
      rw [sameMachine]
      omega

theorem spawnConserves_iff : SpawnConserves symbols fs path argline stale launchd ↔
      ¬ SpawnFailsLate fs path launchd.kernel := by
  constructor
  · intro conserves late
    obtain ⟨after, failed, fewer⟩ := spawnTask_late late
    exact ne_of_lt fewer (conserves after failed)
  · intro notLate after failed
    rcases spawnTask_failure failed with same | ⟨empty, same⟩ | late
    · rw [same]
    · rw [same]
      exact pagingClonePd_empty empty
    · exact (notLate late).elim

end Spawn

theorem vforkConserves_iff (symbols : KernelSymbols) (kernel : Kernel) :
    VforkConserves symbols kernel ↔ ¬ VforkFailsLate kernel := by
  unfold VforkConserves VforkFailsLate taskVfork
  by_cases room : kernel.taskCount < procMaxTasks
  · rw [dif_pos room]
    dsimp only
    by_cases failed : (pagingVforkClone kernel.machine).1 = 0
    · have lost := pagingVforkClone_frames kernel.machine
      rw [if_pos failed]
      rw [pagingVforkClone_eq_zero_iff] at failed
      constructor
      · rintro conserves ⟨_, loses⟩
        have same : (pagingVforkClone kernel.machine).2.pmm.stack.length =
            kernel.machine.pmm.stack.length := conserves _ rfl
        have filled := loses.length_pos
        omega
      · intro notLate after isAfter
        cases isAfter
        have empty := failed.resolve_right fun loses => notLate ⟨room, loses⟩
        rw [pmmGetFreePages, pmmGetFreePages, lost, empty]
        rfl
    · rw [if_neg failed]
      rw [pagingVforkClone_eq_zero_iff, not_or] at failed
      refine iff_of_true ?_ fun late => failed.2 late.2
      intro after isAfter
      rw [bind_eq_bind, bind_eq_some_iff] at isAfter
      obtain ⟨slot, _, isAfter⟩ := isAfter
      -- The result is a pid below 32.
      have isPid := congrArg Prod.fst (Option.some.inj isAfter)
      dsimp only at isPid
      have value := congrArg BitVec.toNat isPid
      rw [BitVec.toNat_ofNat] at value
      have bound : kernel.taskCount < 32 := room
      simp only [BitVec.reduceNeg, BitVec.reduceToNat] at value
      omega
  · rw [dif_neg room]
    refine iff_of_true ?_ fun late => room late.1
    intro after isAfter
    cases isAfter
    rfl

/--
Process creation keeps the number of free frames on failure, and `task_exec`
the record of the task, exactly when no call fails late.
-/
theorem processCreation_conserves_iff (symbols : ScriptSymbols) (fs : Ramfs ElfImage)
    (path : List U8) (argline : Option (List U8)) (stale : U64) (launchd : Launchd) :
    (SpawnConserves symbols fs path argline stale launchd ↔
        ¬ SpawnFailsLate fs path launchd.kernel) ∧
      (ExecConserves symbols.toKernelSymbols fs path argline launchd.kernel ↔
        ¬ ExecFailsLate fs path argline launchd.kernel) ∧
      (VforkConserves symbols.toKernelSymbols launchd.kernel ↔ ¬ VforkFailsLate launchd.kernel) :=
  ⟨spawnConserves_iff, execConserves_iff, vforkConserves_iff _ _⟩

/-- A header that is valid and announces no program headers. -/
def headerOnly : ElfImage where
  base := 0x400000
  bytes := [0x7F, 0x45, 0x4C, 0x46, 2, 1] ++ replicate 10 0 ++ [2, 0, 62, 0] ++
    replicate 44 0
  fits := by decide

/-- The file `a` with that header. -/
def headerFs : Ramfs ElfImage where
  files := [{ name := ⟨[0x61], by decide⟩, data := headerOnly }]
  bounded := by decide

/-- `task_exec` of that file returns -1 and keeps the frame of the clone. -/
theorem exec_headerOnly_loses_frame :
    (∃ after,
      taskExec plainSymbols.toKernelSymbols headerFs [0x61] none plainKernel =
          some (-1, after) ∧
        pmmGetFreePages plainKernel.machine.pmm = 8 ∧
        pmmGetFreePages after.machine.pmm = 7) ∧
      ¬ ExecConserves plainSymbols.toKernelSymbols headerFs [0x61] none
        plainKernel := by
  have outcome : (taskExec plainSymbols.toKernelSymbols headerFs [0x61] none
      plainKernel).map (fun result =>
        (result.1, pmmGetFreePages result.2.machine.pmm)) = some (-1, 7) := by
    decide
  obtain ⟨⟨result, after⟩, failed, values⟩ := Option.map_eq_some_iff.mp outcome
  obtain ⟨isFailure, left⟩ := Prod.mk.inj values
  dsimp only at isFailure left
  subst isFailure
  refine ⟨⟨after, failed, rfl, left⟩, fun conserves => ?_⟩
  have same := (conserves after failed).1
  rw [left] at same
  exact absurd same (by decide)

end XKern
