import Mathlib.Tactic

namespace XKern.FaultTriple

/-!
# Triples for programs that may fault

A program works on a state and either returns a value or stops at a fault; in
both cases there is a state at the end.  A triple therefore has two
postconditions.  The rules follow the structure of a program, and an invariant
that holds at every fault as well as at the end is stated with one predicate
for both.
-/

variable {Fault State Value Result : Type}

/-- From `pre` the program returns with `post` or stops with `crash`. -/
def Triple (pre : State → Prop) (program : EStateM Fault State Value) (post : Value → State → Prop)
    (crash : State → Prop) : Prop :=
  ∀ state, pre state →
    match program state with
    | .ok value after => post value after
    | .error _ after => crash after

/-- The same holds at the end and at a fault. -/
abbrev Ends (pre : State → Prop) (program : EStateM Fault State Value) (post : State → Prop) :
    Prop :=
  Triple pre program (fun _ => post) post

/-- The state at the end, of whatever kind. -/
def finalState (program : EStateM Fault State Value) (state : State) : State :=
  match program state with
  | .ok _ after => after
  | .error _ after => after

/-- A result that does not depend on the state, as a program. -/
def lift (result : Except Fault Value) : EStateM Fault State Value :=
  fun state =>
    match result with
    | .ok value => .ok value state
    | .error fault => .error fault state

variable {program : EStateM Fault State Value} {result : Except Fault Value} {bad : Fault → Prop}
  {fault : Fault} {value : Value} {condition : Prop}

section Inversion

variable {next : Value → EStateM Fault State Result} {state after : State}

theorem bind_eq_error_iff : (program >>= next) state = .error fault after ↔
      program state = .error fault after ∨ ∃ value middle, program state = .ok value middle ∧
          next value middle = .error fault after := by
  change EStateM.bind program next state = _ ↔ _
  rw [EStateM.bind]
  cases program state with
  | ok value middle => simp
  | error fault middle => simp

theorem bind_of_ok {middle : State} (ran : program state = .ok value middle) :
    (program >>= next) state = next value middle := by
  change EStateM.bind program next state = _
  rw [EStateM.bind, ran]

theorem bind_of_error (stopped : program state = .error fault after) :
    (program >>= next) state = .error fault after := by
  change EStateM.bind program next state = _
  rw [EStateM.bind, stopped]

theorem bind_congr_run {other : EStateM Fault State Value} {start : State}
    (same : program state = other start) :
    (program >>= next) state = (other >>= next) start := by
  change EStateM.bind program next state = EStateM.bind other next start
  rw [EStateM.bind, EStateM.bind, same]

theorem finalState_of_ok (ran : program state = .ok value after) :
    finalState program state = after := by
  rw [finalState, ran]

theorem finalState_of_error (stopped : program state = .error fault after) :
    finalState program state = after := by
  rw [finalState, stopped]

theorem finalState_bind_of_ok (ran : program state = .ok value after) :
    finalState (program >>= next) state = finalState (next value) after := by
  rw [finalState, bind_of_ok ran]
  rfl

theorem lift_ok_bind (value : Value) (next : Value → EStateM Fault State Result) :
    (lift (.ok value) >>= next) = next value :=
  rfl

theorem lift_error_bind (fault : Fault) (next : Value → EStateM Fault State Result) :
    (lift (.error fault) >>= next) = lift (.error fault) :=
  rfl

end Inversion

section Results

variable {next : Value → Except Fault Result}

theorem ok_bind (value : Value) (next : Value → Except Fault Result) :
    (.ok value >>= next) = next value :=
  rfl

theorem error_bind (fault : Fault) (next : Value → Except Fault Result) :
    (.error fault >>= next) = .error fault :=
  rfl

theorem result_bind_eq_ok_iff {final : Result} :
    (result >>= next) = .ok final ↔ ∃ value, result = .ok value ∧ next value = .ok final := by
  cases result with
  | ok value => simp [ok_bind]
  | error fault => simp [error_bind]

theorem result_bind_eq_error_iff : (result >>= next) = .error fault ↔
      result = .error fault ∨ ∃ value, result = .ok value ∧ next value = .error fault := by
  cases result with
  | ok value => simp [ok_bind]
  | error other => simp [error_bind]

end Results

namespace Triple

variable {pre : State → Prop} {post : Value → State → Prop} {crash : State → Prop}

theorem pure (holds : ∀ state, pre state → post value state) :
    Triple pre (Pure.pure value : EStateM Fault State Value) post crash :=
  holds

theorem skip (value : Value) :
    Triple pre (Pure.pure value : EStateM Fault State Value) (fun _ => pre) crash :=
  pure fun _ => id

theorem throw (holds : ∀ state, pre state → crash state) :
    Triple pre (MonadExcept.throw fault : EStateM Fault State Value) post crash :=
  holds

theorem bind {middle : Value → State → Prop} {next : Value → EStateM Fault State Result}
    {final : Result → State → Prop} (first : Triple pre program middle crash)
    (second : ∀ value, Triple (middle value) (next value) final crash) :
    Triple pre (program >>= next) final crash := by
  intro state holds
  have step := first state holds
  change match EStateM.bind program next state with
    | .ok value after => final value after
    | .error _ after => crash after
  rw [EStateM.bind]
  cases outcome : program state with
  | ok value after =>
    rw [outcome] at step
    exact second value after step
  | error fault after =>
    rw [outcome] at step
    exact step

theorem lift {invariant : State → Prop} (result : Except Fault Value) :
    Ends invariant (lift result) invariant := by
  intro state holds
  cases result with
  | ok value => exact holds
  | error fault => exact holds

theorem modifyGet {update : State → Value × State}
    (holds : ∀ state, pre state → post (update state).1 (update state).2) :
    Triple pre (MonadStateOf.modifyGet update : EStateM Fault State Value) post crash :=
  holds

theorem ite [Decidable condition] {yes no : EStateM Fault State Value}
    (whenTrue : condition → Triple pre yes post crash)
    (whenFalse : ¬ condition → Triple pre no post crash) :
    Triple pre (if condition then yes else no) post crash := by
  split
  · exact whenTrue ‹_›
  · exact whenFalse ‹_›

theorem weaken {strong : State → Prop} {narrow : Value → State → Prop}
    (triple : Triple pre program narrow crash) (before : ∀ state, strong state → pre state)
    (after : ∀ value state, narrow value state → post value state) :
    Triple strong program post crash := by
  intro state holds
  have step := triple state (before state holds)
  cases outcome : program state with
  | ok value final =>
    rw [outcome] at step
    exact after value final step
  | error fault final =>
    rw [outcome] at step
    exact step

/-- A fact that does not depend on the state moves out of the precondition. -/
theorem assume {fact : Prop} (triple : fact → Triple pre program post crash) :
    Triple (fun state => pre state ∧ fact) program post crash :=
  fun state holds => triple holds.2 state holds.1

/-- What holds where the program ends is a predicate of both postconditions. -/
theorem of_final (holds : ∀ state, pre state → crash (finalState program state)) :
    Ends pre program crash := by
  intro state start
  have ended := holds state start
  rw [finalState] at ended
  cases outcome : program state with
  | ok value after =>
    rw [outcome] at ended
    exact ended
  | error fault after =>
    rw [outcome] at ended
    exact ended

theorem final (triple : Ends pre program crash) {state : State}
    (holds : pre state) :
    crash (finalState program state) := by
  have step := triple state holds
  rw [finalState]
  cases outcome : program state with
  | ok value after =>
    rw [outcome] at step
    exact step
  | error fault after =>
    rw [outcome] at step
    exact step

end Triple

/-! ## Faults that do not occur -/

/-- The result is none of these faults. -/
def Spares (bad : Fault → Prop) (result : Except Fault Value) : Prop :=
  ∀ fault, result = .error fault → ¬ bad fault

/-- No run ends in one of these faults. -/
def Avoids (bad : Fault → Prop) (program : EStateM Fault State Value) : Prop :=
  ∀ state fault after, program state = .error fault after → ¬ bad fault

namespace Spares

theorem ok (value : Value) : Spares bad (.ok value : Except Fault Value) :=
  fun _ faults => by cases faults

theorem error (good : ¬ bad fault) : Spares bad (.error fault : Except Fault Value) := by
  intro other faults
  cases faults
  exact good

theorem bind {next : Value → Except Fault Result} (first : Spares bad result)
    (second : ∀ value, Spares bad (next value)) :
    Spares bad (result >>= next) := by
  intro fault faults
  obtain stopped | ⟨value, -, stopped⟩ := result_bind_eq_error_iff.mp faults
  · exact first fault stopped
  · exact second value fault stopped

theorem ite [Decidable condition] {yes no : Except Fault Value}
    (whenTrue : condition → Spares bad yes) (whenFalse : ¬ condition → Spares bad no) :
    Spares bad (if condition then yes else no) := by
  split
  · exact whenTrue ‹_›
  · exact whenFalse ‹_›

end Spares

namespace Avoids

theorem pure (value : Value) : Avoids bad (Pure.pure value : EStateM Fault State Value) :=
  fun _ _ _ faults => by cases faults

theorem throw (good : ¬ bad fault) :
    Avoids bad (MonadExcept.throw fault : EStateM Fault State Value) := by
  intro state other after faults
  cases faults
  exact good

theorem lift (spares : Spares bad result) :
    Avoids bad (lift result : EStateM Fault State Value) := by
  intro state fault after faults
  cases result with
  | ok value => cases faults
  | error other =>
    cases faults
    exact spares _ rfl

theorem modifyGet (update : State → Value × State) :
    Avoids bad (MonadStateOf.modifyGet update : EStateM Fault State Value) :=
  fun _ _ _ faults => by cases faults

theorem bind {next : Value → EStateM Fault State Result} (first : Avoids bad program)
    (second : ∀ value, Avoids bad (next value)) :
    Avoids bad (program >>= next) := by
  intro state fault after faults
  obtain stopped | ⟨value, middle, -, stopped⟩ := bind_eq_error_iff.mp faults
  · exact first _ _ _ stopped
  · exact second value _ _ _ stopped

theorem ite [Decidable condition] {yes no : EStateM Fault State Value}
    (whenTrue : condition → Avoids bad yes) (whenFalse : ¬ condition → Avoids bad no) :
    Avoids bad (if condition then yes else no) := by
  split
  · exact whenTrue ‹_›
  · exact whenFalse ‹_›

end Avoids

/-! ## Programs that agree -/

/-- From a state with the invariant both programs do the same, and the invariant is kept. -/
def Agrees (inv : State → Prop) (first second : EStateM Fault State Value) : Prop :=
  ∀ state, inv state → first state = second state ∧ inv (finalState second state)

namespace Agrees

variable {inv : State → Prop} {first second : EStateM Fault State Value}

theorem of_ends (keeps : Ends inv program inv) : Agrees inv program program :=
  fun _ holds => ⟨rfl, keeps.final holds⟩

theorem bind {next other : Value → EStateM Fault State Result} (start : Agrees inv first second)
    (rest : ∀ value, Agrees inv (next value) (other value)) :
    Agrees inv (first >>= next) (second >>= other) := by
  intro state holds
  obtain ⟨same, kept⟩ := start state holds
  rw [bind_congr_run same]
  cases ran : second state with
  | ok value after =>
    rw [finalState_of_ok ran] at kept
    rw [bind_of_ok ran, finalState_bind_of_ok ran, bind_of_ok ran]
    exact rest value after kept
  | error fault after =>
    rw [finalState_of_error ran] at kept
    rw [bind_of_error ran, finalState_of_error (bind_of_error ran), bind_of_error ran]
    exact ⟨rfl, kept⟩

theorem ite [Decidable condition] {yes no otherYes otherNo : EStateM Fault State Value}
    (whenTrue : condition → Agrees inv yes otherYes)
    (whenFalse : ¬ condition → Agrees inv no otherNo) :
    Agrees inv (if condition then yes else no) (if condition then otherYes else otherNo) := by
  split
  · exact whenTrue ‹_›
  · exact whenFalse ‹_›

end Agrees

end XKern.FaultTriple
