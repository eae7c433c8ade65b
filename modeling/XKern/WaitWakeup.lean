import XKern.TaskSystem

namespace XKern

open GuardedRun Function

/-!
# Wake-ups of task_wait

`task_exit` makes the `vfork` parent of the exiting task runnable, not the tasks
that wait for it, and `task_wait` goes to sleep on a test that may be out of
date.  A run loses no wake-up exactly when every exit finds only its own parent
asleep on it and no task goes to sleep on one that has exited meanwhile.
-/

namespace TaskSystem

/-- Nobody sleeps in `task_wait` on a task whose exit has made it a zombie. -/
def NoLostWakeup (system : TaskSystem) : Prop :=
  ∀ waiter pid target, system.phase waiter = .blocked pid →
    system.table.state waiter = .waiting → system.table.Finds pid target →
    system.exited target = true → system.table.state target ≠ .zombie

/-- Every task that sleeps on `slot` is the parent that its exit wakes. -/
def WaitersWoken (system : TaskSystem) (slot : Fin procMaxTasks) : Prop :=
  ∀ waiter pid, system.phase waiter = .blocked pid →
    system.table.state waiter = .waiting → system.table.Finds pid slot →
    system.table.Wakes slot waiter

/-- The task that `slot` is about to sleep on is still there. -/
def TestHolds (system : TaskSystem) (slot : Fin procMaxTasks) : Prop :=
  ∀ pid target, system.phase slot = .blocking pid →
    system.table.Finds pid target → system.exited target = false

/-- The steps that lose no wakeup. -/
def WaitAllowed (system : TaskSystem) : TaskAction → Prop
  | .call .exit => ∀ slot ∈ system.table.cur, system.WaitersWoken slot
  | .block => ∀ slot ∈ system.table.cur, system.TestHolds slot
  | _ => True

section Judged

variable {symbols : ScriptSymbols} {fs : Ramfs ElfImage} {before after : TaskSystem}
  {slot : Fin procMaxTasks} {action : TaskAction}

theorem waitAllowed_of_quiet (quiet : Quiet action) : before.WaitAllowed action := by
  unfold WaitAllowed
  split
  · exact quiet.elim
  · exact quiet.elim
  · trivial

variable (inv : before.Inv)

include inv

theorem Inv.noLostWakeup_iff : before.NoLostWakeup ↔
      ∀ waiter pid target, before.phase waiter = .blocked pid →
        before.table.state waiter = .waiting → before.table.Finds pid target →
        before.exited target = false := by
  constructor
  · intro noLoss waiter pid target blocked waits found
    cases gone : before.exited target with
    | false => rfl
    | true =>
      exact (noLoss waiter pid target blocked waits found gone (inv.exited target gone).2.1).elim
  · intro there waiter pid target blocked waits found gone
    rw [there waiter pid target blocked waits found] at gone
    cases gone

theorem NoLostWakeup.kept (invAfter : after.Inv) (noLoss : before.NoLostWakeup)
    (asleep : ∀ waiter pid, after.phase waiter = .blocked pid →
      after.table.state waiter = .waiting →
      before.phase waiter = .blocked pid ∧ before.table.state waiter = .waiting)
    (exited : after.exited = before.exited) :
    after.NoLostWakeup := by
  rw [inv.noLostWakeup_iff] at noLoss
  rw [invAfter.noLostWakeup_iff]
  intro waiter pid target blocked waits finds
  rw [exited]
  obtain ⟨blockedBefore, waitedBefore⟩ := asleep waiter pid blocked waits
  cases gone : before.exited target with
  | false => rfl
  | true =>
    have foundBefore : before.table.Finds pid target := ⟨(inv.exited target gone).1, finds.2⟩
    rw [noLoss waiter pid target blockedBefore waitedBefore foundBefore] at gone
    cases gone

theorem NoLostWakeup.grown (invAfter : after.Inv) (noLoss : before.NoLostWakeup)
    {new : Fin procMaxTasks} (isNext : new.val = before.table.count)
    (asleep : ∀ waiter pid, waiter ≠ new → before.phase waiter = .blocked pid →
      after.table.state waiter = .waiting → before.table.state waiter = .waiting)
    (phase : after.phase = before.phase) (exited : after.exited = before.exited) :
    after.NoLostWakeup := by
  apply NoLostWakeup.kept inv invAfter noLoss _ exited
  intro waiter pid blocked waits
  rw [phase] at blocked
  refine ⟨blocked, asleep waiter pid ?_ blocked waits⟩
  rintro rfl
  have inTable := inv.phases waiter (by rw [blocked]; exact nofun)
  exact lt_irrefl _ (isNext ▸ inTable)

theorem noLostWakeup_exits_iff (invAfter : after.Inv) (noLoss : before.NoLostWakeup)
    (outside : before.phase slot = .outside)
    (finishes : Finishes slot .zombie before.table after.table)
    (phase : after.phase = before.phase)
    (exited : after.exited = update before.exited slot true) :
    after.NoLostWakeup ↔ before.WaitersWoken slot := by
  have other : ∀ {waiter pid}, before.phase waiter = .blocked pid → waiter ≠ slot := by
    rintro waiter pid blocked rfl
    cases blocked.symm.trans outside
  have sameFinds : ∀ pid target, after.table.Finds pid target ↔ before.table.Finds pid target := by
    intro pid target
    rw [TaskTable.Finds, finishes.count]
    rfl
  rw [inv.noLostWakeup_iff] at noLoss
  rw [invAfter.noLostWakeup_iff, phase, exited]
  constructor
  · intro there waiter pid blocked waits found
    by_contra notWoken
    have asleep : after.table.state waiter = .waiting := by
      rw [finishes.kept waiter (other blocked) notWoken, waits]
    have alive := there waiter pid slot blocked asleep ((sameFinds pid slot).mpr found)
    rw [update_self] at alive
    cases alive
  · intro woken waiter pid target blocked asleep found
    rw [sameFinds] at found
    obtain ⟨notWoken, asleep⟩ := finishes.waited (by decide) asleep
    have different : target ≠ slot := by
      rintro rfl
      exact notWoken (woken waiter pid blocked asleep found)
    rw [update_of_ne different]
    exact noLoss waiter pid target blocked asleep found

theorem noLostWakeup_blocks_iff (invAfter : after.Inv) (noLoss : before.NoLostWakeup) {pid : U32}
    (blocking : before.phase slot = .blocking pid)
    (table : after.table = before.table.setState slot .waiting)
    (phase : after.phase = update before.phase slot (.blocked pid))
    (exited : after.exited = before.exited) :
    after.NoLostWakeup ↔ before.TestHolds slot := by
  rw [inv.noLostWakeup_iff] at noLoss
  rw [invAfter.noLostWakeup_iff, table, phase, exited]
  constructor
  · intro there other target isBlocking found
    cases blocking.symm.trans isBlocking
    exact there slot pid target (update_self _ _ _)
      (TaskTable.setState_self slot .waiting) found
  · intro holds waiter other target blocked waits found
    by_cases isSlot : waiter = slot
    · rw [isSlot, update_self] at blocked
      cases blocked
      exact holds pid target blocking found
    · rw [update_of_ne isSlot] at blocked
      rw [TaskTable.setState_of_ne isSlot] at waits
      exact noLoss waiter other target blocked waits found

theorem noLostWakeup_moves_iff (noLoss : before.NoLostWakeup)
    (isCurrent : before.table.cur = some slot) (move : Moves symbols fs before slot after action) :
    after.NoLostWakeup ↔ before.WaitAllowed action := by
  have invAfter := inv.moves isCurrent move
  cases move with
  | switches quiet history next running nextInTable table =>
    refine iff_of_true ?_ (waitAllowed_of_quiet quiet)
    apply NoLostWakeup.kept inv invAfter noLoss _ history.exited
    rw [table, history.phase]
    exact fun _ _ => And.intro
  | spawns quiet history table =>
    refine iff_of_true ?_ (waitAllowed_of_quiet quiet)
    rcases table with same | ⟨child, state, isNext, _, added⟩
    · apply NoLostWakeup.kept inv invAfter noLoss _ history.exited
      rw [same, history.phase]
      exact fun _ _ => And.intro
    · apply NoLostWakeup.grown inv invAfter noLoss isNext _ history.phase history.exited
      intro waiter pid old _ waits
      rwa [added, (TaskTable.add_of_ne old _ _).1] at waits
  | starts quiet history target isNew table =>
    refine iff_of_true ?_ (waitAllowed_of_quiet quiet)
    apply NoLostWakeup.kept inv invAfter noLoss _ history.exited
    intro waiter pid blocked waits
    rw [history.phase] at blocked
    refine ⟨blocked, ?_⟩
    by_cases isTarget : waiter = target
    · rw [table, isTarget, TaskTable.setState_self] at waits
      cases waits
    · rwa [table, TaskTable.setState_of_ne isTarget] at waits
  | vforks quiet outside alive child isNext table phase sharing exited =>
    refine iff_of_true ?_ (waitAllowed_of_quiet quiet)
    apply NoLostWakeup.grown inv invAfter noLoss isNext _ phase exited
    intro waiter pid old blocked waits
    -- The parent waits as well, but outside of `task_wait`.
    have notSlot : waiter ≠ slot := by
      rintro rfl
      cases blocked.symm.trans outside
    rwa [table, TaskTable.setState_of_ne notSlot, (TaskTable.add_of_ne old _ _).1]
      at waits
  | proceeds quiet phase alive awake table isPhase sharing exited =>
    refine iff_of_true ?_ (waitAllowed_of_quiet quiet)
    apply NoLostWakeup.kept inv invAfter noLoss _ exited
    intro waiter pid blocked waits
    rw [table] at waits
    by_cases isSlot : waiter = slot
    · rw [isPhase, isSlot, update_self] at blocked
      exact (awake pid blocked).elim
    · rw [isPhase, update_of_ne isSlot] at blocked
      exact ⟨blocked, waits⟩
  | execFails failed history table =>
    refine iff_of_true ?_ trivial
    apply NoLostWakeup.kept inv invAfter noLoss _ history.exited
    rw [table, history.phase]
    exact fun _ _ => And.intro
  | execs succeeded alive finishes phase sharing exited =>
    refine iff_of_true ?_ trivial
    apply NoLostWakeup.kept inv invAfter noLoss _ exited
    intro waiter pid blocked waits
    rw [phase] at blocked
    exact ⟨blocked, (finishes.waited (by decide) waits).2⟩
  | exits outside finishes phase sharing exited =>
    rw [noLostWakeup_exits_iff inv invAfter noLoss outside finishes phase exited,
      WaitAllowed, forall_current_iff isCurrent]
  | blocks pid blocking table phase sharing exited =>
    rw [noLostWakeup_blocks_iff inv invAfter noLoss blocking table phase exited,
      WaitAllowed, forall_current_iff isCurrent]

end Judged

/--
In a run from a booted kernel no wake-up is lost in any state exactly when every
step is allowed where it is taken.
-/
theorem noLostWakeup_throughout_iff {symbols : ScriptSymbols} {fs : Ramfs ElfImage}
    {launchd : Launchd} {trace : List (TaskSystem × TaskAction)} {final : TaskSystem}
    (booted : Booted launchd.kernel) (run : Run (step symbols fs) (start launchd) trace final) :
    Throughout NoLostWakeup trace final ↔ AllAllowed WaitAllowed trace := by
  apply run.throughout_iff (start_inv booted)
  · exact nofun
  · exact fun state action next inv taken => inv.step taken
  · intro state action next inv noLoss taken
    obtain ⟨slot, isCurrent, move⟩ := step_moves taken
    exact noLostWakeup_moves_iff inv noLoss isCurrent move

/-- Init forks a child, waits for it and is woken by its exit. -/
theorem forkedChild_noLostWakeup_iff :
    ∃ trace final,
      Run (step plainSymbols (.empty ElfImage)) (start plainLaunchd) trace
          final ∧
        trace.map Prod.snd =
          [.call (.vfork 0x181F60), .call (.wait 2), .check, .block, .tick 0x181F00,
            .call .exit] ∧
        (Throughout NoLostWakeup trace final ↔ AllAllowed WaitAllowed trace) := by
  have outcome : (List.foldlM (step plainSymbols (.empty ElfImage)) (start plainLaunchd)
      [.call (.vfork 0x181F60), .call (.wait 2), .check, .block, .tick 0x181F00,
        .call .exit]).map (fun _ => ()) = some () := by
    decide
  obtain ⟨trace, final, names, run, _⟩ := Run.exists_of_outcome outcome
  exact ⟨trace, final, run, names, noLostWakeup_throughout_iff plainLaunchd_booted run⟩

/--
Init waits for a task that `task_create` made.  The task has no `vfork` parent,
so its exit leaves init asleep.
-/
theorem createdTask_wakeup_lost :
    Booted plainLaunchd.kernel ∧
      ∃ trace final,
        Run (step plainSymbols (.empty ElfImage)) (start plainLaunchd) trace
            final ∧
          trace.map Prod.snd =
            [.call (.create [0x61] 0x400000 0), .call (.wait 2), .check, .block,
              .tick 0x181F00, .call .exit] ∧
          final.phase 1 = .blocked 2 ∧
          final.table.state 1 = .waiting ∧
          final.table.state 2 = .zombie ∧
          ¬ NoLostWakeup final := by
  have outcome : (List.foldlM (step plainSymbols (.empty ElfImage)) (start plainLaunchd)
      [.call (.create [0x61] 0x400000 0), .call (.wait 2), .check, .block,
        .tick 0x181F00, .call .exit]).map (fun system =>
          (system.phase 1, system.table.count, system.table.state 1,
            system.exited 2, system.table.state 2)) =
        some (.blocked 2, 3, .waiting, true, .zombie) := by
    decide
  obtain ⟨trace, final, names, run, values⟩ := Run.exists_of_outcome outcome
  simp only [Prod.mk.injEq] at values
  obtain ⟨blocked, count, waits, gone, isZombie⟩ := values
  have found : final.table.Finds 2 2 := by
    rw [TaskTable.Finds, count]
    decide
  exact ⟨plainLaunchd_booted, trace, final, run, names, blocked, waits, isZombie,
    fun noLoss => noLoss 1 2 2 blocked waits found gone isZombie⟩

end TaskSystem

end XKern
