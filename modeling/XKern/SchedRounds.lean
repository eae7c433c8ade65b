import Mathlib.Data.List.Rotate
import XKern.TaskCalls

namespace XKern

open List Nat Option

/-!
# Rounds of the scheduler

`sched_tick` goes round the table, so as long as no state changes the running tasks come up
one after the other.  The tasks to come are the table rotated to the slot behind the current
one; each tick rotates it on to the task that comes up.
-/

def tableSlots (count : Nat) : List (Fin procMaxTasks) :=
  (range count).map (.ofNat procMaxTasks)

/-- The slots of the tasks that run. -/
def Kernel.runningTasks (kernel : Kernel) : List (Fin procMaxTasks) :=
  (tableSlots kernel.taskCount).filter fun t => (kernel.tasks t).state = .running

/-- Some calls of `sched_tick`, with the tasks that they select. -/
def schedTicks : Nat → Kernel → Option (List (Fin procMaxTasks) × Kernel)
  | 0, kernel => some ([], kernel)
  | ticks + 1, kernel => do
      let next ← schedTick kernel
      let selected ← next.curTask
      let (later, final) ← schedTicks ticks next
      return (selected :: later, final)

/-- The running tasks in the order in which they come up after `slot`. -/
def upcoming (count : Nat) (running : Fin procMaxTasks → Bool) (slot : Fin procMaxTasks) :
    List (Fin procMaxTasks) :=
  ((tableSlots count).rotate (slot.val + 1)).filter running

/-- Count one tick for each time a task is named. -/
def tickAll (ticked : List (Fin procMaxTasks)) (tasks : Fin procMaxTasks → Task)
    (t : Fin procMaxTasks) : Task :=
  { tasks t with ticks := (tasks t).ticks + .ofNat 32 (ticked.count t) }

section Round

variable {count : Nat} {running : Fin procMaxTasks → Bool} {slot x : Fin procMaxTasks}
  {rest : List (Fin procMaxTasks)} {kernel : Kernel}

theorem nodup_tableSlots (small : count ≤ procMaxTasks) : (tableSlots count).Nodup := by
  refine Nodup.map_on (fun i isSlot j isOther same => ?_) nodup_range
  have sameVal := congrArg Fin.val same
  rw [mem_range] at isSlot isOther
  change i % procMaxTasks = j % procMaxTasks at sameVal
  rwa [mod_eq_of_lt (by omega), mod_eq_of_lt (by omega)] at sameVal

theorem rotate_tableSlots (inTable : slot.val < count) :
    (tableSlots count).rotate (slot.val + 1) =
      (range' 1 (count - 1)).map (fun i => .ofNat procMaxTasks
        (if slot.val + i ≥ count then slot.val + i - count else slot.val + i)) ++ [slot] := by
  refine ext_getElem (by simp [tableSlots]; omega) fun i inFirst inSecond => ?_
  have inside : i < count := by simpa [tableSlots] using inFirst
  simp only [getElem_rotate, tableSlots, getElem_map, getElem_range, length_map, length_range]
  by_cases isLast : i = count - 1
  · have wraps : i + (slot.val + 1) = slot.val + count := by omega
    rw [wraps, add_mod_right, mod_eq_of_lt inTable, getElem_append_right (by simp; omega)]
    apply Fin.ext
    simp
  · rw [getElem_append_left (by simp; omega), getElem_map, getElem_range']
    congr 1
    split
    · rw [mod_eq_sub_mod (by omega), mod_eq_of_lt (by omega)]
      omega
    · rw [mod_eq_of_lt (by omega)]
      omega

/-- The tasks to come after the next one: it goes to the end. -/
theorem upcoming_next (small : count ≤ procMaxTasks)
    (isUpcoming : upcoming count running slot = x :: rest) :
    x.val < count ∧ running x = true ∧ upcoming count running x = rest ++ [x] := by
  obtain ⟨front, back, isTable, skipped, isRunning, rfl⟩ := filter_eq_cons_iff.mp isUpcoming
  have lengths := congrArg length isTable
  simp only [length_rotate, length_append, length_cons, tableSlots, length_map,
    length_range] at lengths
  have isX : .ofNat procMaxTasks ((front.length + (slot.val + 1)) % count) = x := by
    have atFront : ((tableSlots count).rotate (slot.val + 1))[front.length]? = some x := by
      rw [isTable, getElem?_append_right le_rfl, Nat.sub_self]
      rfl
    rw [getElem?_rotate (by simp [tableSlots]; omega)] at atFront
    simpa [tableSlots, mod_lt _ (show 0 < count by omega)] using atFront
  have xVal : x.val = (front.length + (slot.val + 1)) % count := by
    have below := mod_lt (front.length + (slot.val + 1)) (show count > 0 by omega)
    rw [← isX]
    exact mod_eq_of_lt (by omega)
  refine ⟨by rw [xVal]; exact mod_lt _ (by omega), isRunning, ?_⟩
  have turned : (tableSlots count).rotate (x.val + 1) =
      ((tableSlots count).rotate (slot.val + 1)).rotate (front.length + 1) := by
    have length : (tableSlots count).length = count := by simp [tableSlots]
    rw [rotate_rotate, ← rotate_mod, ← rotate_mod (n := slot.val + 1 + (front.length + 1)),
      length, xVal, mod_add_mod]
    congr 2
    omega
  have split : front ++ x :: back = (front ++ [x]) ++ back := by simp
  rw [upcoming, turned, isTable, split,
    show front.length + 1 = (front ++ [x]).length by simp, rotate_append_length_eq,
    filter_append, filter_append, filter_eq_nil_iff.mpr skipped]
  simp [isRunning]

theorem upcoming_eq (inTable : slot.val < kernel.taskCount)
    (isRunning : (kernel.tasks slot).state = .running) :
    upcoming kernel.taskCount (fun t => (kernel.tasks t).state = .running) slot =
      ((range' 1 (kernel.taskCount - 1)).map (fun i => .ofNat procMaxTasks
        (if slot.val + i ≥ kernel.taskCount then slot.val + i - kernel.taskCount
          else slot.val + i))).filter (fun t => (kernel.tasks t).state = .running) ++ [slot] := by
  rw [upcoming, rotate_tableSlots inTable, filter_append]
  simp [isRunning]

/-- A tick selects the first of the tasks to come. -/
theorem schedTick_upcoming (isCurrent : kernel.curTask = some slot)
    (inTable : slot.val < kernel.taskCount) (isRunning : (kernel.tasks slot).state = .running)
    (isUpcoming : upcoming kernel.taskCount
      (fun t => (kernel.tasks t).state = .running) slot = x :: rest) :
    schedTick kernel = some { kernel with
      tasks := tickAll [slot] kernel.tasks, curTask := some x } := by
  have ticked : (kernel.setTask slot
      { kernel.tasks slot with ticks := (kernel.tasks slot).ticks + 1 }).tasks =
        tickAll [slot] kernel.tasks := by
    funext t
    by_cases same : t = slot
    · simp [same, Kernel.setTask, tickAll]
    · simp [Kernel.setTask, Function.update_of_ne same, tickAll, Ne.symm same]
  rw [upcoming_eq inTable isRunning] at isUpcoming
  rw [schedTick, isCurrent, bind_eq_bind, bind_some, if_neg (by omega), nextRunnable,
    ← head?_filter]
  generalize filter _ _ = others at isUpcoming ⊢
  cases others with
  | nil =>
    cases isUpcoming
    simp only [head?_nil, if_pos isRunning, ← ticked, ← isCurrent]
    rfl
  | cons first others =>
    cases isUpcoming
    simp only [head?_cons, ← ticked]
    rfl

theorem tickAll_cons (ticked : List (Fin procMaxTasks)) (tasks : Fin procMaxTasks → Task) :
    tickAll ticked (tickAll [slot] tasks) = tickAll (slot :: ticked) tasks := by
  funext t
  simp only [tickAll, add_assoc, ← BitVec.ofNat_add, ← count_append]
  rfl

theorem schedTicks_upcoming {first : List (Fin procMaxTasks)}
    (isCurrent : kernel.curTask = some slot) (inTable : slot.val < kernel.taskCount)
    (isRunning : (kernel.tasks slot).state = .running)
    (isUpcoming : upcoming kernel.taskCount
      (fun t => (kernel.tasks t).state = .running) slot = first ++ rest) :
    schedTicks first.length kernel = some (first, { kernel with
      tasks := tickAll (slot :: first).dropLast kernel.tasks
      curTask := some (first.getLastD slot) }) := by
  induction first generalizing slot rest kernel with
  | nil =>
    have none : tickAll [] kernel.tasks = kernel.tasks := by
      funext t
      simp [tickAll]
    rw [length_nil, schedTicks, dropLast_singleton, none, getLastD_nil, ← isCurrent]
  | cons x first ih =>
    rw [cons_append] at isUpcoming
    obtain ⟨xInTable, xRunning, next⟩ := upcoming_next kernel.countLe isUpcoming
    rw [length_cons, schedTicks, schedTick_upcoming isCurrent inTable isRunning isUpcoming]
    dsimp only [bind_eq_bind, bind_some]
    rw [append_assoc] at next
    have later : schedTicks first.length
        { kernel with tasks := tickAll [slot] kernel.tasks, curTask := some x } = _ :=
      ih rfl xInTable (of_decide_eq_true xRunning) next
    rw [later, bind_some]
    dsimp only
    rw [tickAll_cons, getLastD_cons]
    rfl

end Round

/--
With the current task in the table, `sched_tick` panics exactly if there is no current or no
running task; and if the current task runs, as many ticks as there are running tasks select
each of them once, end with the current one and count one tick for each.
-/
theorem sched_tick_fair (kernel : Kernel)
    (inTable : ∀ slot, kernel.curTask = some slot → slot.val < kernel.taskCount) :
    (schedTick kernel = none ↔ kernel.curTask = none ∨ kernel.runningTasks = []) ∧
    ∀ slot, kernel.curTask = some slot → (kernel.tasks slot).state = .running →
      ∃ selected, selected.Nodup ∧ selected.Perm kernel.runningTasks ∧
        schedTicks kernel.runningTasks.length kernel = some (selected, { kernel with
          tasks := fun t => if t ∈ kernel.runningTasks then
            { kernel.tasks t with ticks := (kernel.tasks t).ticks + 1 }
          else kernel.tasks t }) := by
  have order : ∀ slot : Fin procMaxTasks, (upcoming kernel.taskCount
      (fun t => (kernel.tasks t).state = .running) slot).Perm kernel.runningTasks :=
    fun slot => (rotate_perm _ _).filter _
  have nodup : kernel.runningTasks.Nodup := (nodup_tableSlots kernel.countLe).filter _
  constructor
  · cases isCurrent : kernel.curTask with
    | none => simp [schedTick, isCurrent]
    | some slot =>
      have inside := inTable slot isCurrent
      have sameEmpty : kernel.runningTasks = [] ↔ upcoming kernel.taskCount
          (fun t => (kernel.tasks t).state = .running) slot = [] := by
        rw [← length_eq_zero_iff, ← (order slot).length_eq, length_eq_zero_iff]
      rw [sameEmpty]
      by_cases isRunning : (kernel.tasks slot).state = .running
      · have someTask := upcoming_eq inside isRunning
        obtain ⟨x, rest, isUpcoming⟩ := exists_cons_of_ne_nil
          (show upcoming _ _ slot ≠ [] by rw [someTask]; simp)
        rw [schedTick_upcoming isCurrent inside isRunning isUpcoming, isUpcoming]
        simp
      · rw [schedTick, isCurrent, bind_eq_bind, bind_some, if_neg (by omega),
          upcoming, rotate_tableSlots inside, filter_append, nextRunnable, ← head?_filter]
        generalize filter _ (map _ _) = others
        cases others <;> simp [isRunning]
  · intro slot isCurrent isRunning
    have inside := inTable slot isCurrent
    have ends := upcoming_eq inside isRunning
    have rounds := schedTicks_upcoming isCurrent inside isRunning (append_nil _).symm
    have isPerm := order slot
    rw [isPerm.length_eq] at rounds
    rw [ends] at rounds isPerm
    generalize filter _ _ = others at rounds isPerm
    have ticked : tickAll (slot :: others) kernel.tasks = fun t =>
        if t ∈ kernel.runningTasks then
          { kernel.tasks t with ticks := (kernel.tasks t).ticks + 1 }
        else kernel.tasks t := by
      funext t
      rw [tickAll, ((perm_append_singleton slot others).symm.trans isPerm).count_eq, nodup.count]
      split <;> simp
    rw [← cons_append, dropLast_concat, ticked, getLastD_concat, ← isCurrent] at rounds
    exact ⟨_, isPerm.nodup_iff.mpr nodup, isPerm, rounds⟩

/-- Init and the idle task take turns. -/
theorem plainKernel_fair :
    (schedTick plainKernel = none ↔
        plainKernel.curTask = none ∨ plainKernel.runningTasks = []) ∧
      ∃ selected final, selected.Nodup ∧ selected.Perm [0, 1] ∧
        schedTicks 2 plainKernel = some (selected, final) ∧ (final.tasks 0).ticks = 1 := by
  have running : plainKernel.runningTasks = [0, 1] := by decide
  obtain ⟨panics, rounds⟩ := sched_tick_fair plainKernel (by decide)
  obtain ⟨selected, nodup, isPerm, ticked⟩ := rounds 1 rfl rfl
  rw [running] at isPerm ticked
  exact ⟨panics, selected, _, nodup, isPerm, ticked, by simp [plainKernel, plainTask]⟩

end XKern
