import Mathlib.Tactic

namespace XKern.GuardedRun

open List

/-!
# Runs judged step by step

A system takes actions one after the other.  If an invariant tells of every
single step whether it keeps a property, then the property holds throughout a
run exactly when each of its steps is one that keeps it.
-/

variable {State Action : Type}

/-- A run with the states in which its actions were taken, and its last state. -/
inductive Run (step : State → Action → Option State) (start : State) :
    List (State × Action) → State → Prop
  | start : Run step start [] start
  | step
      {trace : List (State × Action)}
      {state next : State}
      {action : Action}
      (run : Run step start trace state)
      (taken : step state action = some next) :
      Run step start (trace ++ [(state, action)]) next

/-- The property holds in every state of the run. -/
def Throughout (property : State → Prop) (trace : List (State × Action))
    (final : State) : Prop :=
  (∀ taken ∈ trace, property taken.1) ∧ property final

/-- Every action of a run was allowed where it was taken. -/
def AllAllowed (allowed : State → Action → Prop)
    (trace : List (State × Action)) : Prop :=
  ∀ taken ∈ trace, allowed taken.1 taken.2

variable {step : State → Action → Option State} {start final : State}
  {trace : List (State × Action)}

theorem allAllowed_concat (allowed : State → Action → Prop) (trace : List (State × Action))
    (state : State) (action : Action) :
    AllAllowed allowed (trace ++ [(state, action)]) ↔
      AllAllowed allowed trace ∧ allowed state action := by
  simp [AllAllowed, or_imp, forall_and]

theorem throughout_concat (property : State → Prop) (trace : List (State × Action))
    (state next : State) (action : Action) :
    Throughout property (trace ++ [(state, action)]) next ↔
      Throughout property trace state ∧ property next := by
  simp [Throughout, or_imp, forall_and]

namespace Run

variable {inv safe : State → Prop} {allowed : State → Action → Prop}

theorem invariant (run : Run step start trace final) (atStart : inv start)
    (keeps : ∀ state action next, inv state → step state action = some next → inv next) :
    inv final := by
  induction run with
  | start => exact atStart
  | step run taken ih =>
    exact keeps _ _ _ ih taken

theorem throughout_iff (run : Run step start trace final) (atStart : inv start)
    (safeStart : safe start)
    (keeps : ∀ state action next, inv state → step state action = some next → inv next)
    (judged : ∀ state action next, inv state → safe state →
      step state action = some next → (safe next ↔ allowed state action)) :
    Throughout safe trace final ↔ AllAllowed allowed trace := by
  induction run with
  | start =>
    refine iff_of_true ⟨?_, safeStart⟩ ?_
    · exact fun _ member => (not_mem_nil member).elim
    · exact fun _ member => (not_mem_nil member).elim
  | @step trace state next action run taken ih =>
    have isInv := run.invariant atStart keeps
    rw [throughout_concat, allAllowed_concat, ← ih]
    apply and_congr_right
    intro throughout
    exact judged state action next isInv throughout.2 taken

/-- If the invariant lets every action be taken, then any actions make a run. -/
theorem exists_throughout
    (takes : ∀ state action, inv state → ∃ next, step state action = some next ∧ inv next)
    (actions : List Action) (run : Run step start trace final)
    (throughout : Throughout inv trace final) :
    ∃ later last, later.map Prod.snd = actions ∧ Run step start (trace ++ later) last ∧
      Throughout inv (trace ++ later) last := by
  induction actions generalizing trace final with
  | nil => exact ⟨[], final, rfl, by rwa [append_nil], by rwa [append_nil]⟩
  | cons action actions ih =>
    obtain ⟨next, taken, nextInv⟩ := takes final action throughout.2
    obtain ⟨later, last, names, whole, holds⟩ := ih (run.step taken)
      ((throughout_concat inv trace final next action).mpr ⟨throughout, nextInv⟩)
    refine ⟨(final, action) :: later, last, by rw [map_cons, names], ?_, ?_⟩
    · rwa [append_assoc] at whole
    · rwa [append_assoc] at holds

/-- Actions that are taken one after the other make a run. -/
theorem exists_of_foldlM {middle : State} {actions : List Action}
    (run : Run step start trace middle) (taken : actions.foldlM step middle = some final) :
    ∃ later, later.map Prod.snd = actions ∧ Run step start (trace ++ later) final := by
  induction actions generalizing trace middle with
  | nil =>
    cases taken
    exact ⟨[], rfl, by rwa [append_nil]⟩
  | cons action actions ih =>
    rw [foldlM_cons, Option.bind_eq_bind, Option.bind_eq_some_iff] at taken
    obtain ⟨next, first, rest⟩ := taken
    obtain ⟨later, names, whole⟩ := ih (run.step first) rest
    refine ⟨(middle, action) :: later, by rw [map_cons, names], ?_⟩
    rwa [append_assoc] at whole

/-- Actions after which something is seen make a run. -/
theorem exists_of_outcome {Seen : Type} {seen : Seen} {see : State → Seen} {actions : List Action}
    (outcome : (actions.foldlM step start).map see = some seen) :
    ∃ trace final, trace.map Prod.snd = actions ∧ Run step start trace final ∧
      see final = seen := by
  obtain ⟨final, taken, isSeen⟩ := Option.map_eq_some_iff.mp outcome
  obtain ⟨trace, names, run⟩ := Run.start.exists_of_foldlM taken
  exact ⟨trace, final, names, run, isSeen⟩

end Run

theorem throughout_start {property : State → Prop} (atStart : property start) :
    Throughout property ([] : List (State × Action)) start :=
  ⟨fun _ member => (not_mem_nil member).elim, atStart⟩

/-- Actions that the invariant allows, whichever they are, can all be taken. -/
theorem exists_foldlM {inv : State → Prop}
    (keeps : ∀ state action, inv state → ∃ next, step state action = some next ∧ inv next)
    (actions : List Action) (atStart : inv start) :
    ∃ final, actions.foldlM step start = some final ∧ inv final := by
  induction actions generalizing start with
  | nil => exact ⟨start, rfl, atStart⟩
  | cons action actions ih =>
    obtain ⟨next, taken, nextInv⟩ := keeps start action atStart
    obtain ⟨final, isFinal, finalInv⟩ := ih nextInv
    refine ⟨final, ?_, finalInv⟩
    rw [foldlM_cons, taken]
    exact isFinal

end XKern.GuardedRun
