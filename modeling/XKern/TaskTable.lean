import XKern.TaskCalls

namespace XKern

open BitVec List Option Function

/-!
# What the task calls do to the task table

The part of the task table that scheduling depends on: which tasks there are,
their states, their `vfork` parents and which of them is current.  Each call of
the kernel comes to a few edits of this table, whatever it does to memory.
-/

/-- What the calls of tasks read of the table. -/
@[ext]
structure TaskTable where
  count : Nat
  cur : Option (Fin procMaxTasks)
  pid : Fin procMaxTasks → U32
  state : Fin procMaxTasks → TaskState
  vforkParent : Fin procMaxTasks → U32

def Kernel.table (kernel : Kernel) : TaskTable where
  count := kernel.taskCount
  cur := kernel.curTask
  pid := fun slot => (kernel.tasks slot).pid
  state := fun slot => (kernel.tasks slot).state
  vforkParent := fun slot => (kernel.tasks slot).vforkParent

namespace TaskTable

def setState (table : TaskTable) (slot : Fin procMaxTasks)
    (state : TaskState) : TaskTable :=
  { table with state := update table.state slot state }

/-- Add a task at the end of the table. -/
def add (table : TaskTable) (slot : Fin procMaxTasks) (state : TaskState)
    (vforkParent : U32) : TaskTable :=
  { table with
    count := table.count + 1
    pid := update table.pid slot (.ofNat 32 slot)
    state := update table.state slot state
    vforkParent := update table.vforkParent slot vforkParent }

/-- `slot` is the task with this pid. -/
def Finds (table : TaskTable) (pid : U32) (slot : Fin procMaxTasks) : Prop :=
  slot.val < table.count ∧ pid.toNat = slot.val

/-- When `slot` exits or executes a program, `parent` is made runnable. -/
structure Wakes (table : TaskTable) (slot parent : Fin procMaxTasks) : Prop where
  isParent : table.vforkParent slot ≠ 0
  found : table.Finds (table.vforkParent slot) parent
  waits : table.state parent = .waiting
  other : parent ≠ slot

end TaskTable

/-! ## Edits of the kernel -/

variable {slot other : Fin procMaxTasks} {task : Task} {before : TaskTable} {own : TaskState}

section Edits

variable {kernel : Kernel}

theorem taskFind_eq_some_iff {pid : U32} :
    taskFind kernel pid = some slot ↔ kernel.table.Finds pid slot := by
  unfold taskFind TaskTable.Finds
  split
  · rename_i known
    rw [Option.some.injEq, Fin.ext_iff]
    dsimp only [Kernel.table]
    constructor
    · intro same
      exact ⟨same ▸ known, same⟩
    · exact fun found => found.2
  · rename_i unknown
    refine iff_of_false nofun ?_
    rintro ⟨known, same⟩
    exact unknown (same ▸ known)

theorem table_setTask (slot : Fin procMaxTasks) (samePid : task.pid = (kernel.tasks slot).pid)
    (sameParent : task.vforkParent = (kernel.tasks slot).vforkParent) :
    (kernel.setTask slot task).table = kernel.table.setState slot task.state := by
  unfold Kernel.setTask Kernel.table TaskTable.setState
  congr 1
  · funext other
    by_cases same : other = slot <;> simp [same, samePid]
  · funext other
    by_cases same : other = slot <;> simp [same]
  · funext other
    by_cases same : other = slot <;> simp [same, sameParent]

theorem TaskTable.setState_same (table : TaskTable) (slot : Fin procMaxTasks) :
    table.setState slot (table.state slot) = table := by
  unfold TaskTable.setState
  rw [update_eq_self]

theorem table_setState (slot : Fin procMaxTasks) (state : TaskState) :
    (kernel.setState slot state).table = kernel.table.setState slot state :=
  table_setTask slot rfl rfl

theorem table_setEntry (symbols : KernelSymbols) (slot : Fin procMaxTasks) (entry argc argv : U64) :
    (kernel.setEntry symbols slot entry argc argv).table = kernel.table.setState slot .running := by
  obtain ⟨task, isTask⟩ : ∃ task, task =
    taskSetEntry symbols (kernel.tasks slot) entry argc argv kernel.stackWords := ⟨_, rfl⟩
  have samePid : task.1.pid = (kernel.tasks slot).pid := by rw [isTask, taskSetEntry]
  have sameParent : task.1.vforkParent = (kernel.tasks slot).vforkParent := by
    rw [isTask, taskSetEntry]
  have isState : task.1.state = .running := by rw [isTask, taskSetEntry]
  unfold Kernel.setEntry
  rw [← isTask, ← isState]
  exact table_setTask slot samePid sameParent

theorem table_addTask (room : kernel.taskCount < procMaxTasks)
    (isPid : task.pid = BitVec.ofNat 32 kernel.taskCount) :
    (kernel.addTask room task).table =
      kernel.table.add ⟨kernel.taskCount, room⟩ task.state task.vforkParent := by
  unfold Kernel.addTask Kernel.setTask Kernel.table TaskTable.add
  congr 1
  · funext other
    by_cases same : other = ⟨kernel.taskCount, room⟩ <;> simp [same, isPid]
  · funext other
    by_cases same : other = ⟨kernel.taskCount, room⟩ <;> simp [same]
  · funext other
    by_cases same : other = ⟨kernel.taskCount, room⟩ <;> simp [same]

end Edits

namespace TaskTable

variable {table : TaskTable}

theorem setState_self (slot : Fin procMaxTasks) (state : TaskState) :
    (table.setState slot state).state slot = state :=
  update_self _ _ _

theorem setState_of_ne (different : other ≠ slot) (state : TaskState) :
    (table.setState slot state).state other = table.state other :=
  update_of_ne different _ _

theorem Finds.unique {pid : U32} (found : table.Finds pid slot)
    (alsoFound : table.Finds pid other) :
    slot = other :=
  Fin.ext (found.2.symm.trans alsoFound.2)

theorem add_of_ne {child : Fin procMaxTasks} (different : other ≠ child) (state : TaskState)
    (vforkParent : U32) :
    (table.add child state vforkParent).state other = table.state other ∧
      (table.add child state vforkParent).pid other = table.pid other ∧
      (table.add child state vforkParent).vforkParent other = table.vforkParent other :=
  ⟨update_of_ne different _ _, update_of_ne different _ _,
    update_of_ne different _ _⟩

theorem add_vforkParent_self (child : Fin procMaxTasks) (state : TaskState) (vforkParent : U32) :
    (table.add child state vforkParent).vforkParent child = vforkParent :=
  update_self _ _ _

theorem Finds.add {pid : U32} {child : Fin procMaxTasks} (found : table.Finds pid slot)
    (state : TaskState) (vforkParent : U32) :
    (table.add child state vforkParent).Finds pid slot :=
  ⟨Nat.lt_succ_of_lt found.1, found.2⟩

end TaskTable

/-! ## Leaving a shared space -/

/--
`slot` goes into the state `own` and the parent that waits for it is made
runnable.
-/
structure Finishes
    (slot : Fin procMaxTasks)
    (own : TaskState)
    (before after : TaskTable) : Prop where
  count : after.count = before.count
  cur : after.cur = before.cur
  pid : after.pid = before.pid
  vforkParent : after.vforkParent = before.vforkParent
  own : after.state slot = own
  woken : ∀ parent, before.Wakes slot parent → after.state parent = .running
  kept : ∀ other, other ≠ slot → ¬ before.Wakes slot other →
    after.state other = before.state other

theorem Finishes.zombie {own : TaskState} {after : TaskTable}
    (finishes : Finishes slot own before after)
    (different : other ≠ slot) (isZombie : before.state other = .zombie) :
    after.state other = .zombie := by
  rw [finishes.kept other different, isZombie]
  intro wakes
  cases wakes.waits.symm.trans isZombie

/-- The tasks are the same ones, and none of them has become a new one. -/
structure SameTasks (before after : TaskTable) : Prop where
  count : after.count = before.count
  pid : after.pid = before.pid
  vforkParent : after.vforkParent = before.vforkParent
  notNew : ∀ other, before.state other ≠ .new → after.state other ≠ .new

theorem SameTasks.setState (table : TaskTable) (slot : Fin procMaxTasks) {state : TaskState}
    (started : state ≠ .new) :
    SameTasks table (table.setState slot state) where
  count := rfl
  pid := rfl
  vforkParent := rfl
  notNew := by
    intro other notNew
    by_cases same : other = slot
    · rwa [same, TaskTable.setState_self]
    · rwa [TaskTable.setState_of_ne same]

theorem Finishes.sameTasks {own : TaskState} {after : TaskTable}
    (finishes : Finishes slot own before after)
    (started : own ≠ .new) :
    SameTasks before after where
  count := finishes.count
  pid := finishes.pid
  vforkParent := finishes.vforkParent
  notNew := by
    intro other notNew
    by_cases same : other = slot
    · rwa [same, finishes.own]
    · by_cases wakes : before.Wakes slot other
      · rw [finishes.woken other wakes]
        decide
      · rwa [finishes.kept other same wakes]

theorem Finishes.waited {own : TaskState} {after : TaskTable}
    (finishes : Finishes slot own before after)
    (awake : own ≠ .waiting) (waits : after.state other = .waiting) :
    ¬ before.Wakes slot other ∧ before.state other = .waiting := by
  have notWoken : ¬ before.Wakes slot other := by
    intro wakes
    cases (finishes.woken other wakes).symm.trans waits
  have notSlot : other ≠ slot := by
    rintro rfl
    exact awake (finishes.own.symm.trans waits)
  exact ⟨notWoken, (finishes.kept other notSlot notWoken).symm.trans waits⟩

theorem Finishes.alone (own : TaskState) (nobody : ∀ parent, ¬ before.Wakes slot parent) :
    Finishes slot own before (before.setState slot own) where
  count := rfl
  cur := rfl
  pid := rfl
  vforkParent := rfl
  own := update_self _ _ _
  woken := fun parent wakes => (nobody parent wakes).elim
  kept := fun _ different _ => update_of_ne different _ _

theorem Finishes.waking {parent : Fin procMaxTasks} (own : TaskState)
    (wakes : before.Wakes slot parent) :
    Finishes slot own before ((before.setState slot own).setState parent .running) where
  count := rfl
  cur := rfl
  pid := rfl
  vforkParent := rfl
  own := by
    change update (update _ _ _) _ _ _ = _
    rw [update_of_ne wakes.other.symm, update_self]
  woken := by
    intro other alsoWakes
    rw [alsoWakes.found.unique wakes.found]
    exact update_self _ _ _
  kept := by
    intro other notSlot notWoken
    have notParent : other ≠ parent := by
      rintro rfl
      exact notWoken wakes
    change update (update _ _ _) _ _ _ = _
    rw [update_of_ne notParent, update_of_ne notSlot]

theorem wakeParent_finishes {kernel : Kernel} (isTable : kernel.table = before.setState slot own)
    (awake : own ≠ .waiting) :
    Finishes slot own before (wakeParent slot kernel).table := by
  have unwoken : (∀ parent, ¬ before.Wakes slot parent) →
      Finishes slot own before kernel.table := by
    intro nobody
    rw [isTable]
    exact Finishes.alone own nobody
  have sameParent : (kernel.tasks slot).vforkParent = before.vforkParent slot :=
    congrFun (congrArg TaskTable.vforkParent isTable) slot
  have sameCount : kernel.table.count = before.count := by
    rw [isTable]
    rfl
  have states : ∀ other, (kernel.tasks other).state = update before.state slot own other :=
    congrFun (congrArg TaskTable.state isTable)
  unfold wakeParent
  dsimp only
  rw [sameParent]
  split
  · rename_i none
    exact unwoken fun parent wakes => wakes.isParent none
  · rename_i isParent
    split
    · rename_i missing
      apply unwoken
      intro parent wakes
      have found := wakes.found
      rw [TaskTable.Finds, ← sameCount] at found
      rw [taskFind_eq_some_iff.mpr found] at missing
      cases missing
    · rename_i p isFound
      rw [taskFind_eq_some_iff, TaskTable.Finds, sameCount] at isFound
      split
      · rename_i waits
        have different : p ≠ slot := by
          rintro rfl
          rw [states, update_self] at waits
          exact awake waits
        rw [states, update_of_ne different] at waits
        rw [table_setState, isTable]
        exact Finishes.waking own ⟨isParent, isFound, waits, different⟩
      · rename_i awakeParent
        apply unwoken
        intro parent wakes
        obtain rfl : parent = p := wakes.found.unique isFound
        rw [states, update_of_ne wakes.other] at awakeParent
        exact awakeParent wakes.waits

/-! ## Calls -/

section Calls

variable {symbols : KernelSymbols} {kernel after : Kernel}

/-- A call that adds at most one task, in a state other than waiting. -/
def Spawns (before after : TaskTable) : Prop :=
  after = before ∨
    ∃ slot state, slot.val = before.count ∧ state ≠ .waiting ∧
      after = before.add slot state (before.vforkParent slot)

variable {outcome : Option (Fin procMaxTasks)} {result : Int} {path : List U8}

theorem taskAlloc_table {name : List U8} {arg : U64}
    (allocated : taskAlloc symbols name arg kernel = some (outcome, after)) :
    (outcome = none ∧ after.table = kernel.table) ∨ ∃ slot : Fin procMaxTasks, outcome = some slot ∧
        slot.val = kernel.table.count ∧
        after.table = kernel.table.add slot .new (kernel.table.vforkParent slot) := by
  rcases taskAlloc_cases allocated with
    ⟨rfl, _, rfl⟩ | ⟨rfl, _, _, rfl⟩ | ⟨room, task, isTask, _, rfl, rfl⟩
  · exact Or.inl ⟨rfl, rfl⟩
  · exact Or.inl ⟨rfl, rfl⟩
  · refine Or.inr ⟨_, rfl, rfl, ?_⟩
    rw [← isTask.state]
    refine (table_addTask room isTask.pid).trans ?_
    rw [isTask.vforkParent]
    rfl

theorem TaskTable.add_setState (table : TaskTable) (slot : Fin procMaxTasks)
    (state final : TaskState) (vforkParent : U32) :
    (table.add slot state vforkParent).setState slot final = table.add slot final vforkParent := by
  unfold TaskTable.setState TaskTable.add
  rw [update_idem]

theorem taskCreate_table {name : List U8} {entry arg : U64}
    (created : taskCreate symbols name entry arg kernel = some (outcome, after)) :
    Spawns kernel.table after.table := by
  rw [taskCreate, bind_eq_bind, bind_eq_some_iff] at created
  obtain ⟨⟨allocation, middle⟩, allocated, created⟩ := created
  rcases taskAlloc_table allocated with ⟨rfl, same⟩ | ⟨slot, rfl, isNew, added⟩
  · cases created
    exact Or.inl same
  · refine Or.inr ⟨slot, .running, isNew, by decide, ?_⟩
    cases created
    rw [← TaskTable.add_setState _ _ .new, ← added]
    exact table_setEntry symbols slot entry 0 0

variable {argline : Option (List U8)} {fs : Ramfs ElfImage}

theorem spawnElf_table {img : ElfImage} {stale : U64}
    (spawned : spawnElf symbols img path argline stale kernel = some (result, after)) :
    Spawns kernel.table after.table := by
  rw [spawnElf, bind_eq_bind, bind_eq_some_iff] at spawned
  obtain ⟨⟨allocation, middle⟩, allocated, spawned⟩ := spawned
  rcases taskAlloc_table allocated with ⟨rfl, same⟩ | ⟨slot, rfl, isNew, added⟩
  · cases spawned
    exact Or.inl same
  · dsimp only at spawned
    rw [bind_eq_bind, bind_eq_some_iff] at spawned
    obtain ⟨⟨loaded, final⟩, isLoaded, spawned⟩ := spawned
    obtain ⟨machine, _, rfl⟩ := Kernel.run_eq_some isLoaded
    cases loaded with
    | none =>
      cases spawned
      refine Or.inr ⟨slot, .zombie, isNew, by decide, ?_⟩
      rw [table_setState, ← TaskTable.add_setState _ _ .new, ← added]
      rfl
    | some image =>
      dsimp only at spawned
      rw [bind_eq_bind, bind_eq_some_iff] at spawned
      obtain ⟨⟨built, last⟩, isBuilt, spawned⟩ := spawned
      obtain ⟨_, _, rfl⟩ := Kernel.run_eq_some isBuilt
      cases spawned
      refine Or.inr ⟨slot, .running, isNew, by decide, ?_⟩
      rw [table_setEntry, ← TaskTable.add_setState _ _ .new, ← added]
      rfl

theorem spawnTask_table {symbols : ScriptSymbols} {stale : U64} {launchd after : Launchd}
    (spawned : spawnTask symbols fs path argline stale launchd = some (result, after)) :
    Spawns launchd.kernel.table after.kernel.table := by
  unfold spawnTask at spawned
  split at spawned
  · cases spawned
    exact Or.inl rfl
  · split at spawned
    · rw [bind_eq_bind, bind_eq_some_iff] at spawned
      obtain ⟨⟨_, kernel⟩, spawnedElf, spawned⟩ := spawned
      cases spawned
      exact spawnElf_table spawnedElf
    · unfold cmdSpawn at spawned
      split at spawned
      · split at spawned
        · rw [bind_eq_bind, bind_eq_some_iff] at spawned
          obtain ⟨_, created, spawned⟩ := spawned
          cases spawned
          exact taskCreate_table created
        · cases spawned
      · cases spawned
        exact Or.inl rfl

theorem taskExit_table (exited : taskExit kernel = some after) :
    ∃ slot, kernel.table.cur = some slot ∧ Finishes slot .zombie kernel.table after.table := by
  rw [taskExit, bind_eq_bind, bind_eq_some_iff] at exited
  obtain ⟨slot, isCurrent, exited⟩ := exited
  cases exited
  exact ⟨slot, isCurrent, wakeParent_finishes (table_setState slot .zombie) (by decide)⟩

theorem table_setTask_same (slot : Fin procMaxTasks)
    (samePid : task.pid = (kernel.tasks slot).pid)
    (sameState : task.state = (kernel.tasks slot).state)
    (sameParent : task.vforkParent = (kernel.tasks slot).vforkParent) :
    (kernel.setTask slot task).table = kernel.table := by
  rw [table_setTask slot samePid sameParent, sameState]
  exact TaskTable.setState_same kernel.table slot

theorem taskExecLoaded_table {newCr3 entry : U64}
    (executed : taskExecLoaded symbols slot newCr3 entry argline kernel = some (result, after)) :
    (result = -1 ∧ after.table = kernel.table) ∨
      (result = 0 ∧ Finishes slot .running kernel.table after.table) := by
  rw [taskExecLoaded, bind_eq_bind, bind_eq_some_iff] at executed
  obtain ⟨⟨argv, middle⟩, isBuilt, executed⟩ := executed
  obtain ⟨machine, _, rfl⟩ := Kernel.run_eq_some isBuilt
  have moved : (kernel.setTask slot { kernel.tasks slot with
        cr3 := newCr3
        stack := symbols.stackOf (kernel.tasks slot).pid.toNat }).table =
        kernel.table :=
    table_setTask_same slot rfl rfl rfl
  cases argv with
  | none =>
    cases executed
    refine Or.inl ⟨rfl, ?_⟩
    rw [← moved]
    exact table_setTask_same slot rfl rfl rfl
  | some built =>
    cases executed
    refine Or.inr ⟨rfl, wakeParent_finishes ?_ (by decide)⟩
    rw [table_setEntry]
    exact congrArg (fun table => table.setState slot .running) moved

theorem taskExec_table (executed : taskExec symbols fs path argline kernel = some (result, after)) :
    ∃ slot, kernel.table.cur = some slot ∧ ((result = -1 ∧ after.table = kernel.table) ∨
        (result = 0 ∧ Finishes slot .running kernel.table after.table)) := by
  rw [taskExec, bind_eq_bind, bind_eq_some_iff] at executed
  obtain ⟨slot, isCurrent, executed⟩ := executed
  refine ⟨slot, isCurrent, ?_⟩
  split at executed
  · cases executed
    exact Or.inl ⟨rfl, rfl⟩
  · split at executed
    · cases executed
      exact Or.inl ⟨rfl, rfl⟩
    · rw [taskExecValid] at executed
      dsimp only at executed
      split at executed
      · cases executed
        exact Or.inl ⟨rfl, rfl⟩
      · rw [bind_eq_bind, bind_eq_some_iff] at executed
        obtain ⟨⟨loaded, middle⟩, isLoaded, executed⟩ := executed
        obtain ⟨machine, _, rfl⟩ := Kernel.run_eq_some isLoaded
        cases loaded with
        | none =>
          cases executed
          exact Or.inl ⟨rfl, rfl⟩
        | some image =>
          dsimp only at executed
          have outcome := taskExecLoaded_table executed
          exact outcome

theorem taskVfork_table {pid : U32} (forked : taskVfork symbols kernel = some (pid, after)) :
    (pid = -1 ∧ after.table = kernel.table) ∨
      ∃ slot child : Fin procMaxTasks, kernel.table.cur = some slot ∧
        child.val = kernel.table.count ∧ pid ≠ -1 ∧
        after.table = (kernel.table.add child .running (kernel.table.pid slot)).setState slot
            .waiting := by
  unfold taskVfork at forked
  split at forked
  · rename_i room
    dsimp only at forked
    split at forked
    · cases forked
      exact Or.inl ⟨rfl, rfl⟩
    · rw [bind_eq_bind, bind_eq_some_iff] at forked
      obtain ⟨slot, isCurrent, forked⟩ := forked
      have isPid := congrArg Prod.fst (Option.some.inj forked)
      have isAfter := congrArg Prod.snd (Option.some.inj forked)
      dsimp only at isPid isAfter
      refine Or.inr ⟨slot, ⟨kernel.taskCount, room⟩, isCurrent, rfl, ?_, ?_⟩
      · rw [← isPid]
        intro failed
        have value := congrArg BitVec.toNat failed
        rw [toNat_ofNat] at value
        have bound : kernel.taskCount < 32 := room
        simp only [reduceNeg, reduceToNat] at value
        omega
      · rw [← isAfter]
        change (Kernel.setState _ slot .waiting).table = _
        rw [table_setState]
        apply congrArg fun table => TaskTable.setState table slot .waiting
        apply table_addTask
        rfl
  · cases forked
    exact Or.inl ⟨rfl, rfl⟩

theorem nextRunnable_cases {next : Fin procMaxTasks}
    (isNext : nextRunnable kernel slot = some next) :
    kernel.table.state next = .running ∧
      (slot.val < kernel.table.count → next.val < kernel.table.count) := by
  unfold nextRunnable at isNext
  refine ⟨of_decide_eq_true (find?_some isNext :), ?_⟩
  intro inTable
  obtain ⟨i, member, isCandidate⟩ := List.mem_map.mp (mem_of_find?_eq_some isNext)
  rw [mem_range'_1] at member
  have countLe := kernel.countLe
  change slot.val < kernel.taskCount at inTable
  rw [← isCandidate]
  change _ % procMaxTasks < kernel.taskCount
  split
  · rw [Nat.mod_eq_of_lt (by omega)]
    omega
  · rw [Nat.mod_eq_of_lt (by omega)]
    omega

theorem schedTick_table (ticked : schedTick kernel = some after) :
    ∃ slot next, kernel.table.cur = some slot ∧ kernel.table.state next = .running ∧
      (slot.val < kernel.table.count → next.val < kernel.table.count) ∧
      after.table = { kernel.table with cur := some next } := by
  rw [schedTick, bind_eq_bind, bind_eq_some_iff] at ticked
  obtain ⟨slot, isCurrent, ticked⟩ := ticked
  dsimp only at ticked
  have counted : (kernel.setTask slot
      { kernel.tasks slot with ticks := (kernel.tasks slot).ticks + 1 }).table = kernel.table :=
    table_setTask_same slot rfl rfl rfl
  split at ticked
  · cases ticked
  · split at ticked
    · rename_i next isNext
      obtain ⟨running, inTable⟩ := nextRunnable_cases isNext
      cases ticked
      exact ⟨slot, next, isCurrent, running, inTable,
        congrArg (fun table => { table with cur := some next }) counted⟩
    · split at ticked
      · rename_i running
        cases ticked
        refine ⟨slot, slot, isCurrent, running, id, ?_⟩
        rw [counted, ← isCurrent]
        rfl
      · cases ticked

theorem schedSwitch_table {sp : U64} (switched : schedSwitch sp kernel = some after) :
    ∃ slot next, kernel.table.cur = some slot ∧ kernel.table.state next = .running ∧
      (slot.val < kernel.table.count → next.val < kernel.table.count) ∧
      after.table = { kernel.table with cur := some next } := by
  rw [schedSwitch, bind_eq_bind, bind_eq_some_iff] at switched
  obtain ⟨slot, isCurrent, switched⟩ := switched
  rw [bind_eq_bind, bind_eq_some_iff] at switched
  obtain ⟨ticked, isTicked, switched⟩ := switched
  rw [bind_eq_some_iff] at switched
  obtain ⟨next, isNext, switched⟩ := switched
  have saved : (kernel.setTask slot { kernel.tasks slot with sp }).table = kernel.table :=
    table_setTask_same slot rfl rfl rfl
  have moved := schedTick_table isTicked
  rw [saved] at moved
  split at switched
  · cases switched
    exact moved
  · cases switched
    exact moved

end Calls

end XKern
