import XKern.GuardedRun
import XKern.TaskTable

namespace XKern

open GuardedRun Option Function

/-!
# The task system

The calls of the task table as the steps of one system.  Every call is made by
the current task; a timer tick may come between any two of them, and between
the test and the block of `task_wait`, since the gate of `int 0x80` leaves
interrupts on.  The system also notes what the kernel does not: which children
of `task_vfork` still share the space of their parent, which tasks have exited
and where a task is in `task_wait`.
-/

/-- Where a task is in `task_wait`. -/
inductive WaitPhase
  | outside
  /-- At the head of the loop. -/
  | checking (pid : U32)
  /-- The awaited task was found and was not a zombie. -/
  | blocking (pid : U32)
  /-- The state was set, and the task is in `sched_switch`. -/
  | blocked (pid : U32)
  deriving Repr, DecidableEq

/-- The kernel and what it does not note. -/
structure TaskSystem where
  launchd : Launchd
  phase : Fin procMaxTasks → WaitPhase
  /-- Children of `task_vfork` that have neither executed a program nor exited. -/
  sharing : Fin procMaxTasks → Bool
  /-- Tasks that have called `task_exit`. -/
  exited : Fin procMaxTasks → Bool

/-- The calls of a task. -/
inductive TaskCall
  | alloc (name : List U8) (arg : U64)
  | setEntry (target : Fin procMaxTasks) (entry argc argv : U64)
  | create (name : List U8) (entry arg : U64)
  | spawn (path : List U8) (argline : Option (List U8)) (stale : U64)
  | vfork (frame : U64)
  | exec (path : List U8) (argline : Option (List U8))
  | exit
  | wait (pid : U32)

/-- The steps of the system. -/
inductive TaskAction
  /-- `sched_switch`, from the timer or from `task_wait`. -/
  | tick (sp : U64)
  | call (call : TaskCall)
  /-- `task_wait` looks for the awaited task. -/
  | check
  /-- `task_wait` sets the state of the caller. -/
  | block
  /-- `task_wait` goes on after `sched_switch`. -/
  | resume

variable {symbols : ScriptSymbols} {fs : Ramfs ElfImage} {before after : TaskSystem}

namespace TaskSystem

def kernel (system : TaskSystem) : Kernel :=
  system.launchd.kernel

def table (system : TaskSystem) : TaskTable :=
  system.kernel.table

def withKernel (system : TaskSystem) (kernel : Kernel) : TaskSystem :=
  { system with launchd := { system.launchd with kernel } }

/-- Move a task in `task_wait`. -/
def setPhase (system : TaskSystem) (slot : Fin procMaxTasks)
    (phase : WaitPhase) : TaskSystem :=
  { system with phase := update system.phase slot phase }

/-- The child no longer shares a space. -/
def unshare (system : TaskSystem) (slot : Fin procMaxTasks) : TaskSystem :=
  { system with sharing := update system.sharing slot false }

/-- A call of the task in `slot`. -/
def runCall (symbols : ScriptSymbols) (fs : Ramfs ElfImage) (slot : Fin procMaxTasks)
    (system : TaskSystem) : TaskCall → Option TaskSystem
  | .alloc name arg => do
      let (_, kernel) ← taskAlloc symbols.toKernelSymbols name arg system.kernel
      return system.withKernel kernel
  | .setEntry target entry argc argv =>
      -- The kernel starts only a task that it has just allocated.
      if system.table.state target = .new ∧ target.val < system.table.count then
        some (system.withKernel
          (system.kernel.setEntry symbols.toKernelSymbols target entry argc argv))
      else
        none
  | .create name entry arg => do
      let (_, kernel) ←
        taskCreate symbols.toKernelSymbols name entry arg system.kernel
      return system.withKernel kernel
  | .spawn path argline stale => do
      let (_, launchd) ← spawnTask symbols fs path argline stale system.launchd
      return { system with launchd }
  | .vfork frame => do
      let (pid, kernel) ← taskVfork symbols.toKernelSymbols
        { system.kernel with syscallFrame := frame }
      return { system.withKernel kernel with
        sharing := fun child => system.sharing child ||
          (decide (child.val = system.table.count) && decide (pid ≠ -1)) }
  | .exec path argline => do
      let (result, kernel) ←
        taskExec symbols.toKernelSymbols fs path argline system.kernel
      if result = 0 then
        return (system.withKernel kernel).unshare slot
      else
        return system.withKernel kernel
  | .exit => do
      let kernel ← taskExit system.kernel
      return { (system.withKernel kernel).unshare slot with
        exited := update system.exited slot true }
  | .wait pid => some (system.setPhase slot (.checking pid))

/-- One step, by the current task. -/
def step (symbols : ScriptSymbols) (fs : Ramfs ElfImage) (system : TaskSystem)
    (action : TaskAction) : Option TaskSystem := do
  let slot ← system.table.cur
  match action with
  | .tick sp =>
      let kernel ← schedSwitch sp system.kernel
      return system.withKernel kernel
  | .call call =>
      if system.phase slot = .outside ∧ system.table.state slot ≠ .zombie then
        system.runCall symbols fs slot call
      else
        none
  | .check =>
      match system.phase slot with
      | .checking pid =>
          match taskFind system.kernel pid with
          | none => some (system.setPhase slot .outside)
          | some child =>
              if system.table.state child = .zombie then
                some (system.setPhase slot .outside)
              else
                some (system.setPhase slot (.blocking pid))
      | _ => none
  | .block =>
      match system.phase slot with
      | .blocking pid =>
          some ((system.withKernel (system.kernel.setState slot .waiting)).setPhase
            slot (.blocked pid))
      | _ => none
  | .resume =>
      match system.phase slot with
      | .blocked pid =>
          -- The scheduler comes back to runnable tasks only.
          if system.table.state slot = .running then
            some ((system.withKernel
              (system.kernel.setState slot .running)).setPhase slot (.checking pid))
          else
            none
      | _ => none

def start (launchd : Launchd) : TaskSystem where
  launchd
  phase := fun _ => .outside
  sharing := fun _ => false
  exited := fun _ => false

/-! ## What a step can do -/

/-- What is noted stays the same. -/
structure SameHistory (before after : TaskSystem) : Prop where
  phase : after.phase = before.phase
  sharing : after.sharing = before.sharing
  exited : after.exited = before.exited

/-- Steps that end no task and block none. -/
def Quiet : TaskAction → Prop
  | .call .exit => False
  | .call (.exec _ _) => False
  | .block => False
  | _ => True

/-- What a step of the task in `slot` does to the table and the history. -/
inductive Moves
    (symbols : ScriptSymbols)
    (fs : Ramfs ElfImage)
    (before : TaskSystem)
    (slot : Fin procMaxTasks)
    (after : TaskSystem) : TaskAction → Prop
  | switches
      {action : TaskAction}
      (quiet : Quiet action)
      (history : SameHistory before after)
      (next : Fin procMaxTasks)
      (running : before.table.state next = .running)
      (inTable : slot.val < before.table.count → next.val < before.table.count)
      (table : after.table = { before.table with cur := some next }) :
      Moves symbols fs before slot after action
  | spawns
      {action : TaskAction}
      (quiet : Quiet action)
      (history : SameHistory before after)
      (table : Spawns before.table after.table) :
      Moves symbols fs before slot after action
  | starts
      {action : TaskAction}
      (quiet : Quiet action)
      (history : SameHistory before after)
      (target : Fin procMaxTasks)
      (isNew : before.table.state target = .new)
      (table : after.table = before.table.setState target .running) :
      Moves symbols fs before slot after action
  | vforks
      {action : TaskAction}
      (quiet : Quiet action)
      (outside : before.phase slot = .outside)
      (alive : before.table.state slot ≠ .zombie)
      (child : Fin procMaxTasks)
      (isNext : child.val = before.table.count)
      (table : after.table =
        (before.table.add child .running (before.table.pid slot)).setState slot
          .waiting)
      (phase : after.phase = before.phase)
      (sharing : after.sharing = update before.sharing child true)
      (exited : after.exited = before.exited) :
      Moves symbols fs before slot after action
  | proceeds
      {action : TaskAction}
      (quiet : Quiet action)
      (phase : WaitPhase)
      (alive : before.phase slot = .outside → before.table.state slot ≠ .zombie)
      (awake : ∀ pid, phase ≠ .blocked pid)
      (table : after.table = before.table)
      (isPhase : after.phase = update before.phase slot phase)
      (sharing : after.sharing = before.sharing)
      (exited : after.exited = before.exited) :
      Moves symbols fs before slot after action
  | execFails
      {path : List U8}
      {argline : Option (List U8)}
      (failed : ¬ ∃ kernel, taskExec symbols.toKernelSymbols fs path argline
        before.kernel = some (0, kernel))
      (history : SameHistory before after)
      (table : after.table = before.table) :
      Moves symbols fs before slot after (.call (.exec path argline))
  | execs
      {path : List U8}
      {argline : Option (List U8)}
      (succeeded : ∃ kernel, taskExec symbols.toKernelSymbols fs path argline
        before.kernel = some (0, kernel))
      (alive : before.table.state slot ≠ .zombie)
      (finishes : Finishes slot .running before.table after.table)
      (phase : after.phase = before.phase)
      (sharing : after.sharing = update before.sharing slot false)
      (exited : after.exited = before.exited) :
      Moves symbols fs before slot after (.call (.exec path argline))
  | exits
      (outside : before.phase slot = .outside)
      (finishes : Finishes slot .zombie before.table after.table)
      (phase : after.phase = before.phase)
      (sharing : after.sharing = update before.sharing slot false)
      (exited : after.exited = update before.exited slot true) :
      Moves symbols fs before slot after (.call .exit)
  | blocks
      (pid : U32)
      (blocking : before.phase slot = .blocking pid)
      (table : after.table = before.table.setState slot .waiting)
      (phase : after.phase = update before.phase slot (.blocked pid))
      (sharing : after.sharing = before.sharing)
      (exited : after.exited = before.exited) :
      Moves symbols fs before slot after .block

section Inversion

theorem runCall_moves {slot : Fin procMaxTasks} {call : TaskCall}
    (isCurrent : before.table.cur = some slot) (outside : before.phase slot = .outside)
    (alive : before.table.state slot ≠ .zombie)
    (ran : before.runCall symbols fs slot call = some after) :
    Moves symbols fs before slot after (.call call) := by
  cases call with
  | alloc name arg =>
    rw [runCall, bind_eq_bind, bind_eq_some_iff] at ran
    obtain ⟨⟨outcome, kernel⟩, allocated, ran⟩ := ran
    cases ran
    refine .spawns trivial ⟨rfl, rfl, rfl⟩ ?_
    rcases taskAlloc_table allocated with ⟨_, unchanged⟩ | ⟨new, _, isNew, added⟩
    · exact .inl unchanged
    · exact .inr ⟨new, .new, isNew, by decide, added⟩
  | setEntry target entry argc argv =>
    rw [runCall] at ran
    split at ran
    · rename_i isNew
      cases ran
      exact .starts trivial ⟨rfl, rfl, rfl⟩ target isNew.1
        (table_setEntry symbols.toKernelSymbols target entry argc argv)
    · cases ran
  | create name entry arg =>
    rw [runCall, bind_eq_bind, bind_eq_some_iff] at ran
    obtain ⟨⟨outcome, kernel⟩, created, ran⟩ := ran
    cases ran
    exact .spawns trivial ⟨rfl, rfl, rfl⟩ (taskCreate_table created)
  | spawn path argline stale =>
    rw [runCall, bind_eq_bind, bind_eq_some_iff] at ran
    obtain ⟨⟨result, launchd⟩, spawned, ran⟩ := ran
    cases ran
    exact .spawns trivial ⟨rfl, rfl, rfl⟩ (spawnTask_table spawned)
  | vfork frame =>
    rw [runCall, bind_eq_bind, bind_eq_some_iff] at ran
    obtain ⟨⟨pid, kernel⟩, forked, ran⟩ := ran
    cases ran
    rcases taskVfork_table forked with
      ⟨rfl, unchanged⟩ | ⟨current, child, isCur, isNext, succeeded, table⟩
    · refine .spawns trivial ⟨rfl, ?_, rfl⟩ (.inl unchanged)
      funext child
      simp
    · cases isCurrent.symm.trans isCur
      refine .vforks trivial outside alive child isNext table rfl ?_ rfl
      have isLast : child.val = before.table.count := isNext
      funext other
      by_cases isChild : other = child
      · dsimp only
        rw [isChild, update_self, decide_eq_true isLast, decide_eq_true succeeded]
        exact Bool.or_true _
      · have notLast : other.val ≠ before.table.count := by
          rw [← isLast]
          exact fun same => isChild (Fin.ext same)
        simp [isChild, notLast]
  | exec path argline =>
    rw [runCall, bind_eq_bind, bind_eq_some_iff] at ran
    obtain ⟨⟨result, kernel⟩, executed, ran⟩ := ran
    obtain ⟨current, isCur, outcome⟩ := taskExec_table executed
    cases isCurrent.symm.trans isCur
    rcases outcome with ⟨rfl, unchanged⟩ | ⟨rfl, finishes⟩
    · cases ran
      refine .execFails ?_ ⟨rfl, rfl, rfl⟩ unchanged
      rintro ⟨other, succeeded⟩
      rw [executed] at succeeded
      cases succeeded
    · cases ran
      exact .execs ⟨kernel, executed⟩ alive finishes rfl rfl rfl
  | exit =>
    rw [runCall, bind_eq_bind, bind_eq_some_iff] at ran
    obtain ⟨kernel, exited, ran⟩ := ran
    obtain ⟨current, isCur, finishes⟩ := taskExit_table exited
    cases isCurrent.symm.trans isCur
    cases ran
    exact .exits outside finishes rfl rfl rfl
  | wait pid =>
    cases ran
    exact .proceeds trivial (.checking pid) (fun _ => alive) nofun rfl rfl rfl rfl

theorem step_moves {action : TaskAction} (taken : before.step symbols fs action = some after) :
    ∃ slot, before.table.cur = some slot ∧ Moves symbols fs before slot after action := by
  rw [step, bind_eq_bind, bind_eq_some_iff] at taken
  obtain ⟨slot, isCurrent, taken⟩ := taken
  refine ⟨slot, isCurrent, ?_⟩
  cases action with
  | tick sp =>
    dsimp only at taken
    rw [bind_eq_bind, bind_eq_some_iff] at taken
    obtain ⟨kernel, switched, taken⟩ := taken
    obtain ⟨current, next, isCur, running, inTable, table⟩ := schedSwitch_table switched
    cases isCurrent.symm.trans isCur
    cases taken
    exact .switches trivial ⟨rfl, rfl, rfl⟩ next running inTable table
  | call call =>
    dsimp only at taken
    split at taken
    · rename_i callable
      exact runCall_moves isCurrent callable.1 callable.2 taken
    · cases taken
  | check =>
    dsimp only at taken
    split at taken
    · rename_i pid checking
      have inWait : before.phase slot = .outside → before.table.state slot ≠ .zombie := by
        intro outside
        cases checking.symm.trans outside
      split at taken
      · cases taken
        exact .proceeds trivial .outside inWait nofun rfl rfl rfl rfl
      · split at taken
        · cases taken
          exact .proceeds trivial .outside inWait nofun rfl rfl rfl rfl
        · cases taken
          exact .proceeds trivial (.blocking _) inWait nofun rfl rfl rfl rfl
    · cases taken
  | block =>
    dsimp only at taken
    split at taken
    · rename_i pid blocking
      cases taken
      exact .blocks pid blocking (table_setState slot .waiting) rfl rfl rfl
    · cases taken
  | resume =>
    dsimp only at taken
    split at taken
    · split at taken
      · rename_i running
        cases taken
        refine .proceeds trivial (.checking _) (fun _ => ?_) nofun ?_ rfl rfl rfl
        · rw [running]
          decide
        · refine (table_setState slot .running).trans ?_
          rw [← running]
          exact TaskTable.setState_same before.table slot
      · cases taken
    · cases taken

end Inversion

/-! ## The invariant -/

/-- What holds in every state. -/
structure Inv (system : TaskSystem) : Prop where
  current : ∃ slot, system.table.cur = some slot ∧
    slot.val < system.table.count ∧ system.table.state slot ≠ .new
  pids : ∀ slot : Fin procMaxTasks, slot.val < system.table.count →
    system.table.pid slot = .ofNat 32 slot
  phases : ∀ slot, system.phase slot ≠ .outside → slot.val < system.table.count
  sharing : ∀ slot, system.sharing slot = true → slot.val < system.table.count
  exited : ∀ slot, system.exited slot = true →
    slot.val < system.table.count ∧ system.table.state slot = .zombie ∧
      system.phase slot = .outside
  sharedParent : ∀ child, system.sharing child = true →
    ∃ parent, system.table.Finds (system.table.vforkParent child) parent ∧
      system.table.state parent ≠ .new

/-- The kernel when `sched_boot` starts the idle task. -/
structure Booted (kernel : Kernel) : Prop where
  current : ∃ slot, kernel.table.cur = some slot ∧
    slot.val < kernel.table.count ∧ kernel.table.state slot = .running
  pids : ∀ slot : Fin procMaxTasks, slot.val < kernel.table.count →
    kernel.table.pid slot = .ofNat 32 slot

theorem start_inv {launchd : Launchd} (booted : Booted launchd.kernel) : (start launchd).Inv where
  current := by
    obtain ⟨slot, isCurrent, inTable, running⟩ := booted.current
    refine ⟨slot, isCurrent, inTable, ?_⟩
    intro isNew
    cases running.symm.trans isNew
  pids := booted.pids
  phases := fun slot moved => (moved rfl).elim
  sharing := nofun
  exited := nofun
  sharedParent := nofun

section Steps

variable {slot : Fin procMaxTasks} {action : TaskAction}

theorem Inv.same (inv : before.Inv) (tasks : SameTasks before.table after.table)
    (current : ∃ slot, after.table.cur = some slot ∧
      slot.val < before.table.count ∧ before.table.state slot ≠ .new)
    (phases : ∀ other, after.phase other ≠ .outside → other.val < before.table.count)
    (sharing : ∀ other, after.sharing other = true → before.sharing other = true)
    (exited : ∀ other, after.exited other = true →
      other.val < before.table.count ∧ after.table.state other = .zombie ∧
        after.phase other = .outside) :
    after.Inv where
  current := by
    obtain ⟨slot, isCurrent, inTable, started⟩ := current
    exact ⟨slot, isCurrent, tasks.count ▸ inTable, tasks.notNew slot started⟩
  pids := by
    intro other inTable
    rw [tasks.pid]
    exact inv.pids other (tasks.count ▸ inTable)
  phases := fun other moved => tasks.count ▸ phases other moved
  sharing := fun other shares =>
    tasks.count ▸ inv.sharing other (sharing other shares)
  exited := fun other gone => tasks.count ▸ exited other gone
  sharedParent := by
    intro child shares
    obtain ⟨parent, found, started⟩ := inv.sharedParent child (sharing child shares)
    rw [tasks.vforkParent]
    exact ⟨parent, ⟨tasks.count ▸ found.1, found.2⟩, tasks.notNew parent started⟩

theorem Inv.grown (inv : before.Inv) {child : Fin procMaxTasks} {vforkParent : U32}
    (isNext : child.val = before.table.count) (count : after.table.count = before.table.count + 1)
    (cur : after.table.cur = before.table.cur)
    (pid : after.table.pid = update before.table.pid child (.ofNat 32 child))
    (isParent : after.table.vforkParent =
      update before.table.vforkParent child vforkParent)
    (notNew : ∀ other, other ≠ child → before.table.state other ≠ .new →
      after.table.state other ≠ .new)
    (zombies : ∀ other, other ≠ child → before.exited other = true →
      after.table.state other = .zombie)
    (phase : after.phase = before.phase) (exited : after.exited = before.exited)
    (sharing : ∀ other, other ≠ child → after.sharing other = true → before.sharing other = true)
    (sharedChild : after.sharing child = true → ∃ parent, before.table.Finds vforkParent parent ∧
        before.table.state parent ≠ .new) :
    after.Inv := by
  have old : ∀ {other : Fin procMaxTasks}, other.val < before.table.count → other ≠ child := by
    rintro other inTable rfl
    exact lt_irrefl _ (isNext ▸ inTable)
  have kept : ∀ {other : Fin procMaxTasks}, other.val < before.table.count →
      other.val < after.table.count := by
    intro other inTable
    rw [count]
    exact Nat.lt_succ_of_lt inTable
  exact {
    current := by
      obtain ⟨current, isCurrent, inTable, started⟩ := inv.current
      exact ⟨current, cur.trans isCurrent, kept inTable, notNew current (old inTable) started⟩
    pids := by
      intro other inTable
      rw [pid]
      by_cases isChild : other = child
      · rw [isChild, update_self]
      · rw [update_of_ne isChild]
        rw [count, Nat.lt_succ_iff_lt_or_eq] at inTable
        apply inv.pids other
        exact inTable.resolve_right fun last =>
          isChild (Fin.ext (last.trans isNext.symm))
    phases := by
      intro other moved
      exact kept (inv.phases other (phase ▸ moved))
    sharing := by
      intro other shares
      by_cases isChild : other = child
      · rw [isChild, count, isNext]
        exact Nat.lt_succ_self _
      · exact kept (inv.sharing other (sharing other isChild shares))
    exited := by
      intro other gone
      rw [exited] at gone
      obtain ⟨inTable, _, outside⟩ := inv.exited other gone
      exact ⟨kept inTable, zombies other (old inTable) gone, phase ▸ outside⟩
    sharedParent := by
      intro other shares
      rw [isParent]
      by_cases isChild : other = child
      · rw [isChild] at shares
        obtain ⟨parent, found, started⟩ := sharedChild shares
        rw [isChild, update_self]
        exact ⟨parent, ⟨kept found.1, found.2⟩, notNew parent (old found.1) started⟩
      · obtain ⟨parent, found, started⟩ :=
          inv.sharedParent other (sharing other isChild shares)
        rw [update_of_ne isChild]
        exact ⟨parent, ⟨kept found.1, found.2⟩, notNew parent (old found.1) started⟩
  }

theorem Inv.finds_own (inv : before.Inv) (inTable : slot.val < before.table.count) :
    before.table.Finds (before.table.pid slot) slot := by
  refine ⟨inTable, ?_⟩
  rw [inv.pids slot inTable, BitVec.toNat_ofNat]
  have bound : slot.val < 32 := slot.isLt
  omega

theorem Inv.sameHistory (inv : before.Inv) (tasks : SameTasks before.table after.table)
    (current : ∃ slot, after.table.cur = some slot ∧
      slot.val < before.table.count ∧ before.table.state slot ≠ .new)
    (zombies : ∀ other, before.table.state other = .zombie → after.table.state other = .zombie)
    (history : SameHistory before after) :
    after.Inv := by
  refine inv.same tasks current (history.phase ▸ inv.phases) (history.sharing ▸ fun _ => id) ?_
  intro other gone
  rw [history.exited] at gone
  obtain ⟨inTable, isZombie, outside⟩ := inv.exited other gone
  exact ⟨inTable, zombies other isZombie, history.phase ▸ outside⟩

theorem forall_current_iff (isCurrent : before.table.cur = some slot)
    {property : Fin procMaxTasks → Prop} :
    (∀ current ∈ before.table.cur, property current) ↔ property slot := by
  rw [isCurrent]
  exact ⟨fun all => all slot rfl, fun holds _ member => Option.some.inj member ▸ holds⟩

theorem sharing_of_update_false {sharing : Fin procMaxTasks → Bool} {other : Fin procMaxTasks}
    (shares : update sharing slot false other = true) :
    other ≠ slot ∧ sharing other = true := by
  by_cases same : other = slot
  · rw [same, update_self] at shares
    cases shares
  · rw [update_of_ne same] at shares
    exact ⟨same, shares⟩

/-- The current task goes on in `task_wait` and changes at most its own state. -/
theorem Inv.waits (inv : before.Inv) (inTable : slot.val < before.table.count)
    (started : before.table.state slot ≠ .new) (stays : before.exited slot ≠ true)
    (tasks : SameTasks before.table after.table) (isCurrent : after.table.cur = some slot)
    (others : ∀ other, other ≠ slot → after.table.state other = before.table.state other)
    {phase : WaitPhase} (isPhase : after.phase = update before.phase slot phase)
    (sharing : after.sharing = before.sharing) (exited : after.exited = before.exited) :
    after.Inv := by
  refine inv.same tasks ⟨slot, isCurrent, inTable, started⟩ ?_ (sharing ▸ fun _ => id) ?_
  · intro other moved
    by_cases same : other = slot
    · exact same ▸ inTable
    · rw [isPhase, update_of_ne same] at moved
      exact inv.phases other moved
  · intro other gone
    rw [exited] at gone
    have different : other ≠ slot := by
      rintro rfl
      exact stays gone
    rw [others other different, isPhase, update_of_ne different]
    exact inv.exited other gone

theorem Inv.finishes (inv : before.Inv) (isCurrent : before.table.cur = some slot)
    (inTable : slot.val < before.table.count) (started : before.table.state slot ≠ .new)
    {own : TaskState} (ownStarted : own ≠ .new)
    (finishes : Finishes slot own before.table after.table) (phase : after.phase = before.phase)
    (sharing : after.sharing = update before.sharing slot false)
    (others : ∀ other, other ≠ slot → after.exited other = true → before.exited other = true)
    (itself : after.exited slot = true → own = .zombie ∧ before.phase slot = .outside) :
    after.Inv := by
  refine inv.same (finishes.sameTasks ownStarted)
    ⟨slot, finishes.cur.trans isCurrent, inTable, started⟩ (phase ▸ inv.phases) ?_ ?_
  · rw [sharing]
    exact fun other shares => (sharing_of_update_false shares).2
  · intro other gone
    rw [phase]
    by_cases same : other = slot
    · rw [same] at gone ⊢
      exact ⟨inTable, finishes.own.trans (itself gone).1, (itself gone).2⟩
    · obtain ⟨otherInTable, isZombie, outside⟩ := inv.exited other (others other same gone)
      exact ⟨otherInTable, finishes.zombie same isZombie, outside⟩

theorem Inv.moves (inv : before.Inv) (isCurrent : before.table.cur = some slot)
    (move : Moves symbols fs before slot after action) :
    after.Inv := by
  obtain ⟨current, isCur, inTable, started⟩ := inv.current
  cases isCurrent.symm.trans isCur
  have unchanged : SameTasks before.table before.table := ⟨rfl, rfl, rfl, fun _ => id⟩
  cases move with
  | switches _ history next running nextInTable table =>
    refine inv.sameHistory ?_ ⟨next, ?_, nextInTable inTable, ?_⟩ ?_ history
    · rw [table]
      exact ⟨rfl, rfl, rfl, fun _ => id⟩
    · rw [table]
    · rw [running]
      decide
    · rw [table]
      exact fun _ => id
  | spawns _ history table =>
    rcases table with same | ⟨child, state, isNext, _, added⟩
    · exact inv.sameHistory (same ▸ unchanged)
        ⟨slot, same ▸ isCurrent, inTable, started⟩ (same ▸ fun _ => id) history
    · refine inv.grown isNext (by rw [added]; rfl) (by rw [added]; rfl)
        (by rw [added]; rfl) (by rw [added]; rfl) ?_ ?_ history.phase
        history.exited (history.sharing ▸ fun _ _ => id) ?_
      · intro other notChild notNew
        rwa [added, (TaskTable.add_of_ne notChild _ _).1]
      · intro other notChild gone
        rw [added, (TaskTable.add_of_ne notChild _ _).1]
        exact (inv.exited other gone).2.1
      · intro shares
        rw [history.sharing] at shares
        exact (lt_irrefl _ (isNext ▸ inv.sharing child shares)).elim
  | starts _ history target isNew table =>
    refine inv.sameHistory ?_ ⟨slot, ?_, inTable, started⟩ ?_ history
    · rw [table]
      exact .setState before.table target (by decide)
    · rw [table]
      exact isCurrent
    · intro other isZombie
      rwa [table, TaskTable.setState_of_ne]
      rintro rfl
      cases isZombie.symm.trans isNew
  | vforks _ outside alive child isNext table phase sharing exited =>
    refine inv.grown isNext (by rw [table]; rfl) (by rw [table]; rfl)
      (by rw [table]; rfl) (by rw [table]; rfl) ?_ ?_ phase exited ?_ ?_
    · intro other notChild notNew
      rw [table]
      apply (SameTasks.setState _ slot (by decide)).notNew other
      rwa [(TaskTable.add_of_ne notChild _ _).1]
    · intro other notChild gone
      have isZombie := (inv.exited other gone).2.1
      rwa [table, TaskTable.setState_of_ne, (TaskTable.add_of_ne notChild _ _).1]
      rintro rfl
      exact alive isZombie
    · intro other notChild shares
      rwa [sharing, update_of_ne notChild] at shares
    · exact fun _ => ⟨slot, inv.finds_own inTable, started⟩
  | proceeds _ phase alive awake table isPhase sharing exited =>
    refine inv.waits inTable started ?_ (table ▸ unchanged) (table ▸ isCurrent)
      (fun _ _ => by rw [table]) isPhase sharing exited
    intro gone
    obtain ⟨_, isZombie, outside⟩ := inv.exited slot gone
    exact alive outside isZombie
  | execFails _ history table =>
    exact inv.sameHistory (table ▸ unchanged)
      ⟨slot, table ▸ isCurrent, inTable, started⟩ (table ▸ fun _ => id) history
  | execs _ alive finishes phase sharing exited =>
    refine inv.finishes isCurrent inTable started (by decide) finishes phase sharing
      (exited ▸ fun _ _ => id) ?_
    intro gone
    rw [exited] at gone
    exact (alive (inv.exited slot gone).2.1).elim
  | exits outside finishes phase sharing exited =>
    refine inv.finishes isCurrent inTable started (by decide) finishes phase sharing
      ?_ fun _ => ⟨rfl, outside⟩
    intro other different gone
    rwa [exited, update_of_ne different] at gone
  | blocks pid blocking table phase sharing exited =>
    refine inv.waits inTable started ?_ ?_ ?_ ?_ phase sharing exited
    · intro gone
      cases blocking.symm.trans (inv.exited slot gone).2.2
    · rw [table]
      exact .setState before.table slot (by decide)
    · rw [table]
      exact isCurrent
    · intro other different
      rw [table, TaskTable.setState_of_ne different]

theorem Inv.step (inv : before.Inv) (taken : before.step symbols fs action = some after) :
    after.Inv := by
  obtain ⟨slot, isCurrent, move⟩ := step_moves taken
  exact inv.moves isCurrent move

end Steps

def plainLaunchd : Launchd where
  kernel := plainKernel
  scripts := ⟨[], by decide⟩

theorem plainLaunchd_booted : Booted plainLaunchd.kernel where
  current := ⟨1, rfl, by decide, rfl⟩
  pids := fun _ _ => rfl

/-- The invariant over whole runs. -/
theorem inv_of_run {launchd : Launchd} {trace : List (TaskSystem × TaskAction)} {final : TaskSystem}
    (booted : Booted launchd.kernel) (run : Run (step symbols fs) (start launchd) trace final) :
    final.Inv :=
  run.invariant (start_inv booted) fun _ _ _ inv => inv.step

/-- A child of init runs and exits, and the timer goes on. -/
def childActions : List TaskAction :=
  [.call (.vfork 0x600000), .tick 0x181000, .call .exit, .tick 0x182000]

/-- The run of these actions. -/
theorem childActions_inv :
    ∃ trace final, trace.map Prod.snd = childActions ∧
      Run (step plainSymbols (.empty _)) (start plainLaunchd) trace final ∧
      final.exited 2 = true ∧ final.table.count = 3 ∧ final.Inv := by
  have ran : (childActions.foldlM (step plainSymbols (.empty _)) (start plainLaunchd)).map
      (fun final => (final.exited 2, final.table.count)) = some (true, 3) := by
    decide
  obtain ⟨trace, final, names, run, outcome⟩ := Run.exists_of_outcome ran
  obtain ⟨exited, count⟩ := Prod.mk.inj outcome
  exact ⟨trace, final, names, run, exited, count, inv_of_run plainLaunchd_booted run⟩

end TaskSystem

end XKern
