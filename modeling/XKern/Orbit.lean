import Mathlib.Data.Fintype.EquivFin
import Mathlib.Tactic

namespace XKern.Orbit

/-!
# Loops whose next state depends on the current one only

A loop that either stops or moves to a next state visits the states of its
orbit.  Over finitely many states it stops exactly when no state is visited
twice.
-/

variable {State : Type} (next : State → Option State)

/-- The state after `count` rounds, if the loop has not stopped before. -/
def orbit (start : State) : Nat → Option State
  | 0 => some start
  | count + 1 => (orbit start count).bind next

theorem orbit_add (start : State) (first second : Nat) : orbit next start (first + second) =
      (orbit next start first).bind fun state => orbit next state second := by
  induction second with
  | zero =>
    cases orbit next start first <;> rfl
  | succ second ih =>
    rw [← add_assoc, orbit, ih, Option.bind_assoc]
    rfl

theorem orbit_succ (start : State) (count : Nat) : orbit next start (count + 1) =
      (next start).bind fun state => orbit next state count := by
  rw [add_comm, orbit_add]
  rfl

theorem orbit_none_of_le {start : State} {count later : Nat}
    (stopped : orbit next start count = none) (le : count ≤ later) :
    orbit next start later = none := by
  rw [← Nat.add_sub_cancel' le, orbit_add, stopped]
  rfl

theorem exists_last {start : State} {count : Nat} (stopped : orbit next start count = none) :
    ∃ last state, last < count ∧ orbit next start last = some state ∧ next state = none := by
  induction count with
  | zero => cases stopped
  | succ count ih =>
    cases reached : orbit next start count with
    | none =>
      obtain ⟨last, state, before, isLast⟩ := ih reached
      exact ⟨last, state, Nat.lt_succ_of_lt before, isLast⟩
    | some state =>
      rw [orbit, reached] at stopped
      exact ⟨count, state, Nat.lt_succ_self count, reached, stopped⟩

theorem last_unique {start state other : State} {first second : Nat}
    (atFirst : orbit next start first = some state) (stops : next state = none)
    (atSecond : orbit next start second = some other) (alsoStops : next other = none) :
    first = second := by
  have stopped : orbit next start (first + 1) = none := by
    rw [orbit, atFirst]
    exact stops
  have alsoStopped : orbit next start (second + 1) = none := by
    rw [orbit, atSecond]
    exact alsoStops
  rcases lt_trichotomy first second with less | same | more
  · rw [orbit_none_of_le next stopped less] at atSecond
    cases atSecond
  · exact same
  · rw [orbit_none_of_le next alsoStopped more] at atFirst
    cases atFirst

/-- No state comes twice. -/
def VisitsOnce (start : State) : Prop :=
  ∀ first second state,
    orbit next start first = some state →
    orbit next start second = some state →
    first = second

theorem runs_of_repeat {start state : State} {first second : Nat} (before : first < second)
    (atFirst : orbit next start first = some state)
    (atSecond : orbit next start second = some state) (count : Nat) :
    orbit next start count ≠ none := by
  have shift : ∀ later, orbit next start (second + later) = orbit next start (first + later) := by
    intro later
    rw [orbit_add, orbit_add, atFirst, atSecond]
  -- From the second visit on, each round repeats an earlier one.
  induction count using Nat.strong_induction_on with
  | h count ih =>
    intro stopped
    rcases lt_or_ge second count with after | early
    · have earlier := shift (count - second)
      rw [Nat.add_sub_cancel' (le_of_lt after), stopped] at earlier
      exact ih (first + (count - second)) (by omega) earlier.symm
    · rw [orbit_none_of_le next stopped early] at atSecond
      cases atSecond

theorem stops_iff_visitsOnce [Finite State] (start : State) :
    (∃ count, orbit next start count = none) ↔ VisitsOnce next start := by
  constructor
  · rintro ⟨count, stopped⟩ first second state atFirst atSecond
    rcases lt_trichotomy first second with less | same | more
    · exact (runs_of_repeat next less atFirst atSecond count stopped).elim
    · exact same
    · exact (runs_of_repeat next more atSecond atFirst count stopped).elim
  · intro once
    by_contra runs
    have visited : ∀ count, ∃ state, orbit next start count = some state := by
      intro count
      apply Option.ne_none_iff_exists'.mp
      intro stopped
      exact runs ⟨count, stopped⟩
    choose states isState using visited
    apply not_injective_infinite_finite states
    intro first second same
    apply once first second (states first) (isState first)
    rw [same]
    exact isState second

end XKern.Orbit
