import XKern.Pmm

namespace XKern.Tsc

open BitVec Nat

/-!
# The time base

`tsc.c`: conversions of the cycle counter with the calibrated frequency.  Every
function gets `g_tsc_freq` and the counter it reads; a division by zero is
`none`.
-/

/-- A division of the processor; `none` is its fault. -/
def divide (a b : U64) : Option U64 :=
  if b = 0 then none else some (a / b)

/-- `tsc_disable`. -/
def tscDisable (_ : U64) : U64 := 0

/-- What `tsc_us` and `tsc_ms` share: the cycles over the cycles of one unit. -/
def tscUnits (perSecond freq counter : U64) : Option U64 :=
  if freq = 0 then some 0 else divide counter (freq / perSecond)

/-- `tsc_us`. -/
def tscUs : U64 → U64 → Option U64 := tscUnits 1000000

/-- `tsc_ms`. -/
def tscMs : U64 → U64 → Option U64 := tscUnits 1000

/-- `tsc_ns`. -/
def tscNs (freq counter : U64) : Option U64 :=
  if freq = 0 then some 0 else divide (counter * 1000000000) freq

/-- The milliseconds that `tsc_task_end` prints. -/
def tscTaskEnd (freq start counter : U64) : Option U32 := do
  let elapsedMs ← divide (counter - start) (freq / 1000)
  return elapsedMs.setWidth 32

/-- The time is within one unit and one thousandth of `counter * perSecond / freq`; both sides are
multiplied by `1000 * freq`. -/
def Near (perSecond freq counter time : U64) : Prop :=
  let exact := counter.toNat * perSecond.toNat
  1000 * (time.toNat * freq.toNat) ≤ 1000 * freq.toNat + 1001 * exact ∧
    999 * exact ≤ 1000 * freq.toNat + 1000 * (time.toNat * freq.toNat)

/-- The clock returns, does not run backwards and is near the exact time. -/
def Converts (clock : U64 → U64 → Option U64) (perSecond freq c₁ c₂ : U64) : Prop :=
  ∃ t₁ t₂, clock freq c₁ = some t₁ ∧ clock freq c₂ = some t₂ ∧ t₁ ≤ t₂ ∧
    Near perSecond freq c₁ t₁ ∧ Near perSecond freq c₂ t₂

/-- For readings `c₁` and `c₂`: the three clocks convert, and nothing faults once disabled. -/
structure TimeBase (freq c₁ c₂ : U64) : Prop where
  ms : Converts tscMs 1000 freq c₁ c₂
  us : Converts tscUs 1000000 freq c₁ c₂
  ns : Converts tscNs 1000000000 freq c₁ c₂
  disabled : (tscMs (tscDisable freq) c₂).isSome ∧ (tscUs (tscDisable freq) c₂).isSome ∧
    (tscNs (tscDisable freq) c₂).isSome ∧ (tscTaskEnd (tscDisable freq) c₁ c₂).isSome

variable {freq perSecond c₁ c₂ : U64}

theorem toNat_div_spec (a : U64) {b : U64} (nonzero : b ≠ 0) :
    (a / b).toNat * b.toNat ≤ a.toNat ∧ a.toNat < (a / b).toNat * b.toNat + b.toNat := by
  have positive : 0 < b.toNat := pos_of_ne_zero (by simpa [← toNat_inj] using nonzero)
  have small := mod_lt a.toNat positive
  have whole := div_add_mod' a.toNat b.toNat
  rw [toNat_udiv]
  omega

/-- Cutting the divisor down to a multiple of the unit costs at most a thousandth of the time. -/
theorem near_div (nonzero : perSecond ≠ 0) (thousand : 1000 ≤ (freq / perSecond).toNat)
    (counter : U64) : Near perSecond freq counter (counter / (freq / perSecond)) := by
  have divisor : freq / perSecond ≠ 0 := by
    intro zero
    simp [zero] at thousand
  obtain ⟨cut, least⟩ := toNat_div_spec freq nonzero
  obtain ⟨below, above⟩ := toNat_div_spec counter divisor
  constructor
  · nlinarith [Nat.mul_le_mul_left (counter / (freq / perSecond)).toNat least.le,
      Nat.mul_le_mul_right perSecond.toNat below,
      Nat.mul_le_mul_left ((counter / (freq / perSecond)).toNat * perSecond.toNat) thousand]
  · nlinarith [Nat.mul_le_mul_right perSecond.toNat above.le,
      Nat.mul_le_mul_left ((counter / (freq / perSecond)).toNat + 1) cut]

theorem converts_units (nonzero : perSecond ≠ 0) (calibrated : freq ≠ 0)
    (thousand : 1000 ≤ (freq / perSecond).toNat) (ordered : c₁ ≤ c₂) :
    Converts (tscUnits perSecond) perSecond freq c₁ c₂ := by
  have divisor : freq / perSecond ≠ 0 := by
    intro zero
    simp [zero] at thousand
  refine ⟨_, _, ?_, ?_, ?_, near_div nonzero thousand c₁, near_div nonzero thousand c₂⟩
  · rw [tscUnits, if_neg calibrated, divide, if_neg divisor]
  · rw [tscUnits, if_neg calibrated, divide, if_neg divisor]
  · rw [le_def, toNat_udiv, toNat_udiv]
    exact Nat.div_le_div_right ordered

theorem converts_ns (calibrated : freq ≠ 0) (ordered : c₁ ≤ c₂)
    (fits : c₂.toNat * 1000000000 < 2 ^ 64) : Converts tscNs 1000000000 freq c₁ c₂ := by
  have product {c : U64} (below : c ≤ c₂) : (c * 1000000000).toNat = c.toNat * 1000000000 := by
    rw [toNat_mul]
    exact mod_eq_of_lt ((Nat.mul_le_mul_right _ below).trans_lt fits)
  have near {c : U64} (below : c ≤ c₂) : Near 1000000000 freq c (c * 1000000000 / freq) := by
    have spec := toNat_div_spec (c * 1000000000) calibrated
    rw [product below] at spec
    change _ ≤ _ + 1001 * (c.toNat * 1000000000) ∧ 999 * (c.toNat * 1000000000) ≤ _
    omega
  refine ⟨_, _, ?_, ?_, ?_, near ordered, near (BitVec.le_refl c₂)⟩
  · rw [tscNs, if_neg calibrated, divide, if_neg calibrated]
  · rw [tscNs, if_neg calibrated, divide, if_neg calibrated]
  · rw [le_def, toNat_udiv, toNat_udiv, product ordered, product (BitVec.le_refl c₂)]
    exact Nat.div_le_div_right (Nat.mul_le_mul_right _ ordered)

/-- Once the product has wrapped the nanoseconds are too few. -/
theorem fits_of_converts_ns (calibrated : freq ≠ 0) (low : freq.toNat < 2 ^ 62)
    (converts : Converts tscNs 1000000000 freq c₁ c₂) : c₂.toNat * 1000000000 < 2 ^ 64 := by
  obtain ⟨_, time, -, isTime, -, -, -, least⟩ := converts
  rw [tscNs, if_neg calibrated, divide, if_neg calibrated] at isTime
  cases isTime
  have counted := (toNat_div_spec (c₂ * 1000000000) calibrated).1
  rw [toNat_mul] at counted
  change 999 * (c₂.toNat * 1000000000) ≤ _ at least
  change _ ≤ c₂.toNat * 1000000000 % 2 ^ 64 at counted
  generalize c₂.toNat * 1000000000 = exact at *
  by_contra wraps
  have wrapped : 0 < exact / 2 ^ 64 := Nat.div_pos (by omega) (by decide)
  omega

/-- From 1 GHz on the conversions by division are right, the one by multiplication is right
until the product wraps and, below 2^62 Hz, not afterwards; and `tsc_task_end` faults
whenever the time base is disabled. -/
theorem timeBase_fails (freq c₁ c₂ : U64) (calibrated : 1000000000 ≤ freq) (ordered : c₁ ≤ c₂) :
    Converts tscMs 1000 freq c₁ c₂ ∧ Converts tscUs 1000000 freq c₁ c₂ ∧
      (c₂.toNat * 1000000000 < 2 ^ 64 → Converts tscNs 1000000000 freq c₁ c₂) ∧
      (freq.toNat < 2 ^ 62 → Converts tscNs 1000000000 freq c₁ c₂ →
        c₂.toNat * 1000000000 < 2 ^ 64) ∧
      ¬ TimeBase freq c₁ c₂ := by
  have nonzero : freq ≠ 0 := by
    rintro rfl
    exact absurd calibrated (by decide)
  have large : 1000000000 ≤ freq.toNat := calibrated
  refine ⟨converts_units (by decide) nonzero ?_ ordered,
    converts_units (by decide) nonzero ?_ ordered, converts_ns nonzero ordered,
    fits_of_converts_ns nonzero, fun right => ?_⟩
  · rw [toNat_udiv]
    change 1000 ≤ freq.toNat / 1000
    omega
  · rw [toNat_udiv]
    change 1000 ≤ freq.toNat / 1000000
    omega
  · simpa [tscTaskEnd, tscDisable, divide] using right.disabled

/-- A counter of 1 GHz. -/
theorem oneGigahertz_fails : ¬ TimeBase 1000000000 0 1 :=
  (timeBase_fails 1000000000 0 1 (by decide) (by decide)).2.2.2.2

/-- At 1 GHz the nanoseconds are back at 0 when the product has wrapped. -/
theorem oneGigahertz_wraps : tscTaskEnd (tscDisable 1000000000) 0 1 = none ∧
    tscNs 1000000000 18446744073 = some 18446744073 ∧ tscNs 1000000000 18446744074 = some 0 := by
  decide

end XKern.Tsc
