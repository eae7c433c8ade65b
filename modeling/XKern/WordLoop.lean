import Mathlib.Data.BitVec
import Mathlib.Tactic

namespace XKern.WordLoop

open List BitVec Nat

/-!
# Counted loops over machine words

The loop `for (x = start; x < stop; x += step) body(x)` on unsigned words of
any width.  The counter wraps around, so the loop may run past the top of the
word range and never end.  `forWords` runs it with a bound on the number of
tests of the guard and returns `none` when that bound is reached.

`forWords_eq_none_iff` says when this happens, `forWords_none_forever` that a
bound of one full period of the counter is as good as no bound, and
`forWords_eq_foldl` what a loop that ends computes.
-/

variable {width : Nat} {State : Type}

/-- Run the loop, testing the guard at most `fuel` times. -/
def forWords (step stop : BitVec width) (body : BitVec width → State → State) :
    Nat → BitVec width → State → Option State
  | 0, _, _ => none
  | fuel + 1, counter, state =>
      if counter < stop then
        forWords step stop body fuel (counter + step) (body counter state)
      else
        some state

/-- The value of the counter after `index` rounds. -/
def counterAt (step start : BitVec width) (index : Nat) : BitVec width :=
  start + .ofNat width index * step

@[simp] theorem counterAt_zero (step start : BitVec width) :
    counterAt step start 0 = start := by
  simp [counterAt]

theorem counterAt_add (step start : BitVec width) (first second : Nat) :
    counterAt step (counterAt step start first) second = counterAt step start (first + second) := by
  simp only [counterAt, ofNat_add]
  ring

theorem counterAt_one (step start : BitVec width) : counterAt step start 1 = start + step := by
  simp [counterAt]

variable {start step : BitVec width}

theorem toNat_counterAt {index : Nat} (room : start.toNat + index * step.toNat < 2 ^ width) :
    (counterAt step start index).toNat = start.toNat + index * step.toNat := by
  simp only [counterAt, toNat_add, toNat_mul, toNat_ofNat, mod_mul_mod, add_mod_mod]
  exact mod_eq_of_lt room

/-- The counter values of the first `count` rounds. -/
def progression (step start : BitVec width) (count : Nat) :
    List (BitVec width) :=
  (range count).map (counterAt step start)

@[simp] theorem length_progression (step start : BitVec width) (count : Nat) :
    (progression step start count).length = count := by
  simp [progression]

theorem progression_succ (step start : BitVec width) (count : Nat) :
    progression step start (count + 1) = start :: progression step (start + step) count := by
  simp only [progression, range_succ_eq_map, map_cons,
    counterAt_zero, map_map, List.cons.injEq, true_and]
  apply map_congr_left
  intro index _
  rw [Function.comp_apply, ← counterAt_one, counterAt_add, add_comm]

theorem progression_concat (step start : BitVec width) (count : Nat) :
    progression step start (count + 1) =
      progression step start count ++ [counterAt step start count] := by
  simp [progression, range_succ]

theorem mem_progression {word : BitVec width} {count : Nat}
    (room : start.toNat + count * step.toNat ≤ 2 ^ width) (stepPos : 0 < step.toNat) :
    word ∈ progression step start count ↔ ∃ index, index < count ∧
        word.toNat = start.toNat + index * step.toNat := by
  have value : ∀ index, index < count → (counterAt step start index).toNat =
        start.toNat + index * step.toNat := by
    intro index indexLt
    have below : (index + 1) * step.toNat ≤ count * step.toNat := mul_le_mul_right _ indexLt
    rw [Nat.succ_mul] at below
    exact toNat_counterAt (by omega)
  simp only [progression, mem_map, mem_range]
  constructor
  · rintro ⟨index, indexLt, rfl⟩
    exact ⟨index, indexLt, value index indexLt⟩
  · rintro ⟨index, indexLt, wordValue⟩
    refine ⟨index, indexLt, eq_of_toNat_eq ?_⟩
    rw [value index indexLt, wordValue]

theorem nodup_progression {count : Nat} (room : start.toNat + count * step.toNat ≤ 2 ^ width)
    (stepPos : 0 < step.toNat) :
    (progression step start count).Nodup := by
  refine List.Nodup.map_on ?_ nodup_range
  intro first firstLt second secondLt same
  rw [mem_range] at firstLt secondLt
  have firstLe : (first + 1) * step.toNat ≤ count * step.toNat := mul_le_mul_right _ firstLt
  have secondLe : (second + 1) * step.toNat ≤ count * step.toNat := mul_le_mul_right _ secondLt
  rw [Nat.succ_mul] at firstLe secondLe
  have values := congrArg BitVec.toNat same
  rw [toNat_counterAt (by omega), toNat_counterAt (by omega)] at values
  exact eq_of_mul_eq_mul_right stepPos (by omega)

theorem forWords_eq_none_iff (step stop : BitVec width) (body : BitVec width → State → State)
    (fuel : Nat) (start : BitVec width) (state : State) :
    forWords step stop body fuel start state = none ↔
      ∀ index, index < fuel → counterAt step start index < stop := by
  induction fuel generalizing start state with
  | zero => simp [forWords]
  | succ fuel ih =>
    by_cases guard : start < stop
    · simp only [forWords, guard, ↓reduceIte, ih]
      constructor
      · intro later index indexLt
        cases index with
        | zero => simpa using guard
        | succ index =>
          have step := later index (by omega)
          rwa [← counterAt_one, counterAt_add, add_comm] at step
      · intro all index indexLt
        rw [← counterAt_one, counterAt_add, add_comm]
        exact all (index + 1) (by omega)
    · simp only [forWords, guard, ↓reduceIte, reduceCtorEq, false_iff]
      intro all
      exact guard (by simpa using all 0 (by omega))

/--
A loop that is still running after one period of its counter never ends: no
larger bound changes the answer.
-/
theorem forWords_none_forever {stop : BitVec width} {body : BitVec width → State → State}
    {period : Nat} {state : State} (periodPos : 0 < period)
    (wraps : .ofNat width period * step = .ofNat width 0)
    (running : forWords step stop body period start state = none) (fuel : Nat) (other : State) :
    forWords step stop body fuel start other = none := by
  rw [forWords_eq_none_iff] at running ⊢
  intro index _
  have reduced : counterAt step start index = counterAt step start (index % period) := by
    have split := div_add_mod index period
    have vanish : .ofNat width (period * (index / period)) * step = .ofNat width 0 := by
      rw [ofNat_mul, mul_right_comm, wraps, zero_mul]
    rw [counterAt, counterAt, ← split, ofNat_add, add_mul, vanish]
    simp
  rw [reduced]
  exact running _ (mod_lt index periodPos)

/--
A loop whose counter meets the stop value before the top of the word range
folds its body over the counter values below it.
-/
theorem forWords_eq_foldl {stop : BitVec width} (body : BitVec width → State → State) {fuel : Nat}
    (state : State) (count : Nat)
    (inside : ∀ index, index < count → start.toNat + index * step.toNat < stop.toNat)
    (ends : stop.toNat ≤ start.toNat + count * step.toNat)
    (room : start.toNat + count * step.toNat < 2 ^ width) (enough : count < fuel) :
    forWords step stop body fuel start state = some ((progression step start count).foldl
        (fun current counter => body counter current) state) := by
  induction count generalizing fuel start state with
  | zero =>
    obtain ⟨fuel, rfl⟩ := exists_eq_succ_of_ne_zero (by omega : fuel ≠ 0)
    have guard : ¬ start < stop := by
      rw [lt_def]
      omega
    simp [forWords, guard, progression]
  | succ count ih =>
    obtain ⟨fuel, rfl⟩ := exists_eq_succ_of_ne_zero (by omega : fuel ≠ 0)
    have guard : start < stop := by
      have first := inside 0 (by omega)
      rw [lt_def]
      omega
    rw [Nat.succ_mul] at ends room
    have next : (start + step).toNat = start.toNat + step.toNat := by
      rw [toNat_add, mod_eq_of_lt (by omega)]
    rw [progression_succ, foldl_cons, forWords, if_pos guard]
    apply ih
    · intro index indexLt
      have later := inside (index + 1) (by omega)
      rw [Nat.succ_mul] at later
      omega
    · omega
    · omega
    · omega

end XKern.WordLoop
