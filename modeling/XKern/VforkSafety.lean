import XKern.TaskSystem

namespace XKern

open GuardedRun Function

/-!
# The space of a vfork parent

While a child of `task_vfork` has neither executed a program nor exited, it runs
on the stack of its parent, and the parent must not run.  Nothing counts the
children of a parent, so an exit or an exec that makes the parent runnable does
so for the other children as well.  A run keeps the parents still exactly when
no such step is taken while another child shares the space.
-/

namespace TaskSystem

/-- The parents of the children that still share their space do not run. -/
def VforkSafe (system : TaskSystem) : Prop :=
  ∀ child parent, system.sharing child = true →
    system.table.Finds (system.table.vforkParent child) parent →
    system.table.state parent ≠ .running

/-- The parent that `slot` wakes has no other child in its space. -/
def WakesAlone (system : TaskSystem) (slot : Fin procMaxTasks) : Prop :=
  ∀ parent child, system.table.Wakes slot parent → child ≠ slot →
    system.sharing child = true →
    ¬ system.table.Finds (system.table.vforkParent child) parent

/-- No other task shares the space of `slot` as its child. -/
def SharedByNone (system : TaskSystem) (slot : Fin procMaxTasks) : Prop :=
  ∀ child, child ≠ slot → system.sharing child = true →
    ¬ system.table.Finds (system.table.vforkParent child) slot

/-- `task_exec` of this file goes through. -/
def ExecSucceeds (symbols : ScriptSymbols) (fs : Ramfs ElfImage) (path : List U8)
    (argline : Option (List U8))
    (system : TaskSystem) : Prop :=
  ∃ kernel, taskExec symbols.toKernelSymbols fs path argline system.kernel =
    some (0, kernel)

/-- The steps that make no parent run too early. -/
def VforkAllowed (symbols : ScriptSymbols) (fs : Ramfs ElfImage)
    (system : TaskSystem) : TaskAction → Prop
  | .call .exit => ∀ slot ∈ system.table.cur, system.WakesAlone slot
  | .call (.exec path argline) =>
      system.ExecSucceeds symbols fs path argline →
        ∀ slot ∈ system.table.cur, system.WakesAlone slot ∧ system.SharedByNone slot
  | _ => True

section Judged

variable {symbols : ScriptSymbols} {fs : Ramfs ElfImage} {before after : TaskSystem}
  {slot : Fin procMaxTasks} {action : TaskAction}

theorem vforkAllowed_of_quiet (quiet : Quiet action) : VforkAllowed symbols fs before action := by
  unfold VforkAllowed
  split
  · exact quiet.elim
  · exact quiet.elim
  · trivial

theorem VforkSafe.same (safe : before.VforkSafe) (tasks : SameTasks before.table after.table)
    (sharing : after.sharing = before.sharing)
    (still : ∀ child parent, before.sharing child = true →
      before.table.Finds (before.table.vforkParent child) parent →
      after.table.state parent = .running →
      before.table.state parent = .running) :
    after.VforkSafe := by
  intro child parent shares found running
  rw [sharing] at shares
  rw [tasks.vforkParent, TaskTable.Finds, tasks.count] at found
  exact safe child parent shares found (still child parent shares found running)

theorem Inv.found_of_add (inv : before.Inv) {child new parent : Fin procMaxTasks}
    {state : TaskState} {vforkParent : U32} (isNext : new.val = before.table.count)
    (shares : before.sharing child = true)
    (found : (before.table.add new state vforkParent).Finds
      ((before.table.add new state vforkParent).vforkParent child) parent) :
    before.table.Finds (before.table.vforkParent child) parent ∧ parent ≠ new := by
  have inTable := inv.sharing child shares
  have notNew : ∀ {other : Fin procMaxTasks}, other.val < before.table.count → other ≠ new := by
    rintro other inTable rfl
    exact lt_irrefl _ (isNext ▸ inTable)
  rw [(TaskTable.add_of_ne (notNew inTable) state vforkParent).2.2] at found
  obtain ⟨old, oldFound, _⟩ := inv.sharedParent child shares
  have isOld : parent = old := found.unique (oldFound.add state vforkParent)
  rw [isOld]
  exact ⟨oldFound, notNew oldFound.1⟩

theorem VforkSafe.spawns (inv : before.Inv) (safe : before.VforkSafe)
    (sharing : after.sharing = before.sharing) (table : Spawns before.table after.table) :
    after.VforkSafe := by
  rcases table with same | ⟨new, state, isNext, _, added⟩
  · intro child parent
    rw [same, sharing]
    exact safe child parent
  · intro child parent shares found
    rw [sharing] at shares
    rw [added] at found ⊢
    obtain ⟨oldFound, notNew⟩ := inv.found_of_add isNext shares found
    rw [(TaskTable.add_of_ne notNew _ _).1]
    exact safe child parent shares oldFound

theorem VforkSafe.vforks (inv : before.Inv) (safe : before.VforkSafe)
    (inTable : slot.val < before.table.count) {new : Fin procMaxTasks}
    (isNext : new.val = before.table.count)
    (table : after.table =
      (before.table.add new .running (before.table.pid slot)).setState slot .waiting)
    (sharing : after.sharing = update before.sharing new true) :
    after.VforkSafe := by
  intro child parent shares found
  rw [table] at found ⊢
  change (before.table.add new .running (before.table.pid slot)).Finds
    ((before.table.add new .running (before.table.pid slot)).vforkParent child)
    parent at found
  by_cases isSlot : parent = slot
  · rw [isSlot, TaskTable.setState_self]
    decide
  · rw [TaskTable.setState_of_ne isSlot]
    by_cases isNew : child = new
    · -- The parent of the new child is the caller.
      rw [isNew, TaskTable.add_vforkParent_self] at found
      have own : (before.table.add new .running (before.table.pid slot)).Finds
          (before.table.pid slot) slot :=
        (inv.finds_own inTable).add _ _
      exact (isSlot (found.unique own)).elim
    · rw [sharing, update_of_ne isNew] at shares
      obtain ⟨oldFound, notNew⟩ := inv.found_of_add isNext shares found
      rw [(TaskTable.add_of_ne notNew _ _).1]
      exact safe child parent shares oldFound

theorem vforkSafe_finishes_iff (safe : before.VforkSafe) {own : TaskState}
    (finishes : Finishes slot own before.table after.table)
    (sharing : after.sharing = update before.sharing slot false) :
    after.VforkSafe ↔ before.WakesAlone slot ∧ (own = .running → before.SharedByNone slot) := by
  constructor
  · intro safeAfter
    have atRest : ∀ child parent, child ≠ slot → before.sharing child = true →
        before.table.Finds (before.table.vforkParent child) parent →
        after.table.state parent ≠ .running := by
      intro child parent other shares found
      apply safeAfter child parent
      · rwa [sharing, update_of_ne other]
      · rwa [finishes.vforkParent, TaskTable.Finds, finishes.count]
    constructor
    · intro parent child wakes other shares found
      exact atRest child parent other shares found (finishes.woken parent wakes)
    · intro isRunning child other shares found
      exact atRest child slot other shares found (finishes.own.trans isRunning)
  · rintro ⟨alone, unshared⟩ child parent shares found
    rw [sharing] at shares
    obtain ⟨other, shares⟩ := sharing_of_update_false shares
    rw [finishes.vforkParent, TaskTable.Finds, finishes.count] at found
    by_cases isSlot : parent = slot
    · rw [isSlot] at found ⊢
      rw [finishes.own]
      exact fun isRunning => unshared isRunning child other shares found
    · have notWoken : ¬ before.table.Wakes slot parent :=
        fun wakes => alone parent child wakes other shares found
      rw [finishes.kept parent isSlot notWoken]
      exact safe child parent shares found

theorem vforkSafe_moves_iff (inv : before.Inv) (safe : before.VforkSafe)
    (isCurrent : before.table.cur = some slot) (move : Moves symbols fs before slot after action) :
    after.VforkSafe ↔ VforkAllowed symbols fs before action := by
  obtain ⟨current, isCur, inTable, _⟩ := inv.current
  cases isCurrent.symm.trans isCur
  cases move with
  | switches quiet history next running nextInTable table =>
    refine iff_of_true ?_ (vforkAllowed_of_quiet quiet)
    apply safe.same _ history.sharing
    · rw [table]
      exact fun _ _ _ _ => id
    · rw [table]
      exact ⟨rfl, rfl, rfl, fun _ => id⟩
  | spawns quiet history table =>
    exact iff_of_true (safe.spawns inv history.sharing table) (vforkAllowed_of_quiet quiet)
  | starts quiet history target isNew table =>
    refine iff_of_true ?_ (vforkAllowed_of_quiet quiet)
    apply safe.same (table ▸ SameTasks.setState before.table target (by decide)) history.sharing
    intro child parent shares found
    obtain ⟨known, isKnown, started⟩ := inv.sharedParent child shares
    rw [found.unique isKnown, table, TaskTable.setState_of_ne]
    · exact id
    · rintro rfl
      exact started isNew
  | vforks quiet outside alive child isNext table phase sharing exited =>
    exact iff_of_true (safe.vforks inv inTable isNext table sharing) (vforkAllowed_of_quiet quiet)
  | proceeds quiet phase alive awake table isPhase sharing exited =>
    refine iff_of_true ?_ (vforkAllowed_of_quiet quiet)
    intro child parent
    rw [table, sharing]
    exact safe child parent
  | execFails failed history table =>
    refine iff_of_true ?_ fun succeeded => (failed succeeded).elim
    intro child parent
    rw [table, history.sharing]
    exact safe child parent
  | execs succeeded alive finishes phase sharing exited =>
    rw [vforkSafe_finishes_iff safe finishes sharing, VforkAllowed, forall_current_iff isCurrent]
    constructor
    · exact fun both _ => ⟨both.1, both.2 rfl⟩
    · exact fun allowed => ⟨(allowed succeeded).1, fun _ => (allowed succeeded).2⟩
  | exits outside finishes phase sharing exited =>
    rw [vforkSafe_finishes_iff safe finishes sharing, VforkAllowed, forall_current_iff isCurrent]
    exact and_iff_left nofun
  | blocks pid blocking table phase sharing exited =>
    refine iff_of_true ?_ trivial
    apply safe.same (table ▸ SameTasks.setState before.table slot (by decide)) sharing
    intro child parent shares found running
    by_cases isSlot : parent = slot
    · rw [isSlot, table, TaskTable.setState_self] at running
      cases running
    · rwa [table, TaskTable.setState_of_ne isSlot] at running

end Judged

/--
In a run from a booted kernel the parents are at rest in every state exactly when
every step is allowed where it is taken.
-/
theorem vforkSafe_throughout_iff {symbols : ScriptSymbols} {fs : Ramfs ElfImage} {launchd : Launchd}
    {trace : List (TaskSystem × TaskAction)} {final : TaskSystem} (booted : Booted launchd.kernel)
    (run : Run (step symbols fs) (start launchd) trace final) :
    Throughout VforkSafe trace final ↔ AllAllowed (VforkAllowed symbols fs) trace := by
  apply run.throughout_iff (start_inv booted)
  · exact nofun
  · exact fun state action next inv taken => inv.step taken
  · intro state action next inv safe taken
    obtain ⟨slot, isCurrent, move⟩ := step_moves taken
    exact vforkSafe_moves_iff inv safe isCurrent move

/-- Init forks a child, and the child exits. -/
theorem oneChild_vforkSafe_iff :
    ∃ trace final,
      Run (step plainSymbols (.empty ElfImage)) (start plainLaunchd) trace
          final ∧
        trace.map Prod.snd =
          [.call (.vfork 0x181F60), .tick 0x181F00, .call .exit] ∧
        (Throughout VforkSafe trace final ↔
          AllAllowed (VforkAllowed plainSymbols (.empty ElfImage)) trace) := by
  have outcome : (List.foldlM (step plainSymbols (.empty ElfImage)) (start plainLaunchd)
      [.call (.vfork 0x181F60), .tick 0x181F00, .call .exit]).map (fun _ => ()) = some () := by
    decide
  obtain ⟨trace, final, names, run, _⟩ := Run.exists_of_outcome outcome
  exact ⟨trace, final, run, names, vforkSafe_throughout_iff plainLaunchd_booted run⟩

/--
Init is still current after its first fork and forks again; the exit of the
first child makes it runnable, although the second child is in its space.
-/
theorem twoChildren_parent_runs :
    Booted plainLaunchd.kernel ∧
      ∃ trace final,
        Run (step plainSymbols (.empty ElfImage)) (start plainLaunchd) trace
            final ∧
          trace.map Prod.snd =
            [.call (.vfork 0x181F60), .call (.vfork 0x181F60), .tick 0x181F00,
              .call .exit] ∧
          final.sharing 3 = true ∧
          final.table.Finds (final.table.vforkParent 3) 1 ∧
          final.table.state 1 = .running ∧
          ¬ VforkSafe final := by
  have outcome : (List.foldlM (step plainSymbols (.empty ElfImage)) (start plainLaunchd)
      [.call (.vfork 0x181F60), .call (.vfork 0x181F60), .tick 0x181F00,
        .call .exit]).map (fun system =>
          (system.sharing 3, system.table.count, system.table.vforkParent 3,
            system.table.state 1)) = some (true, 4, 1, .running) := by
    decide
  obtain ⟨trace, final, names, run, values⟩ := Run.exists_of_outcome outcome
  simp only [Prod.mk.injEq] at values
  obtain ⟨shares, count, vforkParent, running⟩ := values
  have found : final.table.Finds (final.table.vforkParent 3) 1 := by
    rw [TaskTable.Finds, count, vforkParent]
    decide
  exact ⟨plainLaunchd_booted, trace, final, run, names, shares, found, running,
    fun safe => safe 3 1 shares found running⟩

end TaskSystem

end XKern
