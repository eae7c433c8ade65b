import XKern.Pmm

namespace XKern.Libkern

open BitVec Nat

/-!
# 64-bit division

`udivdi3.c`: shift-and-subtract division and the four routines built on it.
Both loops run with a bound on the tests of their guards.  The negation of a
signed word wraps, as the `neg` instruction does: the minimum is its own
negation, and its magnitude once it is read as unsigned.
-/

/-- The first loop: double `den` while it is below `num` and its sign bit is clear. -/
def growLoop (num : U64) : Nat → U64 → U64 → Option (U64 × U64)
  | 0, _, _ => none
  | fuel + 1, den, qbit =>
      if 0 ≤ den.toInt ∧ den < num then growLoop num fuel (den <<< 1) (qbit <<< 1)
      else some (den, qbit)

/-- The conditional subtraction: what is left of `num`, and the quotient. -/
def subtractRound (num den qbit quot : U64) : U64 × U64 :=
  if den ≤ num then (num - den, quot ||| qbit) else (num, quot)

/-- The second loop: one bit of the quotient a round. -/
def divideLoop : Nat → U64 → U64 → U64 → U64 → Option (U64 × U64)
  | 0, _, _, _, _ => none
  | fuel + 1, num, den, qbit, quot =>
      if qbit = 0 then some (num, quot)
      else
        let (num, quot) := subtractRound num den qbit quot
        divideLoop fuel num (den >>> 1) (qbit >>> 1) quot

/-- `udivmoddi4`. -/
def udivmoddi4 (num den : U64) (mod : Bool) : Option U64 :=
  if den = 0 then some 0
  else do
    let (den, qbit) ← growLoop num 64 den 1
    let (num, quot) ← divideLoop 65 num den qbit 0
    return if mod then num else quot

/-- `__udivdi3`. -/
def udivdi3 (num den : U64) : Option U64 := udivmoddi4 num den false

/-- `__umoddi3`. -/
def umoddi3 (num den : U64) : Option U64 := udivmoddi4 num den true

/-- `__divdi3`. -/
def divdi3 (num den : U64) : Option U64 := do
  let (num, neg) := if num.toInt < 0 then (-num, true) else (num, false)
  let (den, neg) := if den.toInt < 0 then (-den, !neg) else (den, neg)
  let q ← udivdi3 num den
  return if neg then -q else q

/-- `__moddi3`. -/
def moddi3 (num den : U64) : Option U64 := do
  let (num, neg) := if num.toInt < 0 then (-num, true) else (num, false)
  let den := if den.toInt < 0 then -den else den
  let r ← umoddi3 num den
  return if neg then -r else r

/-- `den` and `qbit` are the divisor and 1, both shifted by `shift`. -/
structure Shifted (divisor shift : Nat) (den qbit : U64) : Prop where
  den_eq : den.toNat = divisor * 2 ^ shift
  qbit_eq : qbit.toNat = 2 ^ shift

variable {divisor shift fuel : Nat} {num den qbit quot : U64}

theorem Shifted.qbit_ne_zero (shifted : Shifted divisor shift den qbit) : qbit ≠ 0 := by
  rintro rfl
  exact (Nat.two_pow_pos shift).ne shifted.qbit_eq

theorem Shifted.double (shifted : Shifted divisor shift den qbit) (positive : 0 < divisor)
    (clear : 2 * den.toNat < 2 ^ 64) :
    Shifted divisor (shift + 1) (den <<< 1) (qbit <<< 1) := by
  have bound : qbit.toNat ≤ den.toNat := by
    rw [shifted.den_eq, shifted.qbit_eq]
    exact Nat.le_mul_of_pos_left _ positive
  constructor
  · rw [toNat_shiftLeft, Nat.shiftLeft_eq, mod_eq_of_lt (by omega), shifted.den_eq, mul_assoc,
      ← pow_add]
  · rw [toNat_shiftLeft, Nat.shiftLeft_eq, mod_eq_of_lt (by omega), shifted.qbit_eq, ← pow_add]

theorem Shifted.halve (shifted : Shifted divisor (shift + 1) den qbit) :
    Shifted divisor shift (den >>> 1) (qbit >>> 1) := by
  obtain ⟨den_eq, qbit_eq⟩ := shifted
  rw [pow_succ] at den_eq qbit_eq
  constructor
  · rw [toNat_ushiftRight, shiftRight_eq_div_pow, den_eq, ← mul_assoc]
    exact Nat.mul_div_cancel _ (by decide)
  · rw [toNat_ushiftRight, shiftRight_eq_div_pow, qbit_eq]
    exact Nat.mul_div_cancel _ (by decide)

/-- The first loop ends with a divisor of which `num` holds at most one copy. -/
theorem exists_growLoop (positive : 0 < divisor) (shifted : Shifted divisor shift den qbit)
    (enough : 64 ≤ shift + fuel) (low : shift < 64) :
    ∃ last den' qbit', growLoop num fuel den qbit = some (den', qbit') ∧ last < 64 ∧
      Shifted divisor last den' qbit' ∧ num.toNat < 2 * den'.toNat := by
  induction fuel generalizing shift den qbit with
  | zero => omega
  | succ fuel ih =>
    rw [growLoop]
    split
    next guard =>
      have clear : 2 * den.toNat < 2 ^ 64 := toInt_pos_iff.mp guard.1
      have doubled := shifted.double positive clear
      have : shift + 1 < 64 := by
        have fits := (qbit <<< 1).isLt
        rw [doubled.qbit_eq] at fits
        exact (Nat.pow_lt_pow_iff_right (by decide)).mp fits
      exact ih doubled (by omega) this
    next guard =>
      refine ⟨shift, den, qbit, rfl, low, shifted, ?_⟩
      rw [toInt_pos_iff, lt_def] at guard
      have := num.isLt
      have : 0 < den.toNat := by
        rw [shifted.den_eq]
        positivity
      omega

/-- One round keeps `quot * divisor + num` and makes `num` smaller than `den`. -/
theorem subtractRound_keeps (shifted : Shifted divisor shift den qbit)
    (below : num.toNat < 2 * den.toNat) (clear : 2 ^ (shift + 1) ∣ quot.toNat) :
    ∃ num' quot', subtractRound num den qbit quot = (num', quot') ∧ num'.toNat < den.toNat ∧
      2 ^ shift ∣ quot'.toNat ∧
      quot'.toNat * divisor + num'.toNat = quot.toNat * divisor + num.toNat := by
  have weaker : 2 ^ shift ∣ 2 ^ (shift + 1) := Nat.pow_dvd_pow 2 (le_succ shift)
  by_cases fits : den ≤ num
  · refine ⟨num - den, quot ||| qbit, if_pos fits, ?_⟩
    rw [le_def] at fits
    have left : (num - den).toNat = num.toNat - den.toNat := toNat_sub_of_le fits
    have set : (quot ||| qbit).toNat = quot.toNat + 2 ^ shift := by
      obtain ⟨high, quot_eq⟩ := clear
      rw [toNat_or, quot_eq, shifted.qbit_eq]
      exact (two_pow_add_eq_or_of_lt (Nat.pow_lt_pow_succ (by decide)) high).symm
    refine ⟨by omega, ?_, ?_⟩
    · rw [set]
      exact Nat.dvd_add (weaker.trans clear) (dvd_refl _)
    · rw [set, left, Nat.add_mul, mul_comm (2 ^ shift), ← shifted.den_eq]
      omega
  · exact ⟨num, quot, if_neg fits, BitVec.not_le.mp fits, weaker.trans clear, rfl⟩

/-- By induction on the bits of the quotient that are still to be found. -/
theorem exists_divideLoop (shifted : Shifted divisor shift den qbit)
    (below : num.toNat < 2 * den.toNat) (clear : 2 ^ (shift + 1) ∣ quot.toNat)
    (enough : shift + 1 < fuel) :
    ∃ rest result, divideLoop fuel num den qbit quot = some (rest, result) ∧
      rest.toNat < divisor ∧
      result.toNat * divisor + rest.toNat = quot.toNat * divisor + num.toNat := by
  induction shift generalizing fuel num den qbit quot with
  | zero =>
    obtain ⟨fuel, rfl⟩ : ∃ more, fuel = more + 2 := ⟨fuel - 2, by omega⟩
    obtain ⟨num', quot', round, smaller, -, kept⟩ := subtractRound_keeps shifted below clear
    have one : qbit = 1 := toNat_inj.mp shifted.qbit_eq
    refine ⟨num', quot', ?_, by simpa [shifted.den_eq] using smaller, kept⟩
    rw [divideLoop, if_neg shifted.qbit_ne_zero, round, one]
    rfl
  | succ shift ih =>
    obtain ⟨fuel, rfl⟩ : ∃ more, fuel = more + 1 := ⟨fuel - 1, by omega⟩
    obtain ⟨num', quot', round, smaller, clear', kept⟩ := subtractRound_keeps shifted below clear
    have halved := shifted.halve
    have below' : num'.toNat < 2 * (den >>> 1).toNat := by
      rw [shifted.den_eq, pow_succ, ← mul_assoc, ← halved.den_eq] at smaller
      omega
    rw [divideLoop, if_neg shifted.qbit_ne_zero, round, ← kept]
    exact ih halved below' clear' (by omega)

theorem udivmoddi4_eq (nonzero : den ≠ 0) (mod : Bool) :
    udivmoddi4 num den mod = some (if mod then num % den else num / den) := by
  have positive : 0 < den.toNat := by
    simpa [Nat.pos_iff_ne_zero, ← toNat_inj] using nonzero
  have unshifted : Shifted den.toNat 0 den 1 := ⟨by simp, rfl⟩
  obtain ⟨last, den', qbit', grown, low, shifted, below⟩ :
      ∃ last den' qbit', growLoop num 64 den 1 = some (den', qbit') ∧ _ :=
    exists_growLoop positive unshifted (by decide) (by decide)
  obtain ⟨rest, result, divided, smaller, kept⟩ :
      ∃ rest result, divideLoop 65 num den' qbit' 0 = some (rest, result) ∧ _ :=
    exists_divideLoop shifted below (by simp) (by omega)
  have split : rest.toNat + den.toNat * result.toNat = num.toNat := by
    rw [mul_comm, add_comm, kept]
    simp
  obtain ⟨quotient, remainder⟩ := (Nat.div_mod_unique positive).mpr ⟨split, smaller⟩
  have result_eq : result = num / den := by
    rw [← toNat_inj, toNat_udiv, quotient]
  have rest_eq : rest = num % den := by
    rw [← toNat_inj, toNat_umod, remainder]
  rw [udivmoddi4, if_neg nonzero, grown, ← result_eq, ← rest_eq]
  simp only [Option.bind_eq_bind, Option.bind_some, divided, pure]

theorem toInt_neg_iff_msb (word : U64) : word.toInt < 0 ↔ word.msb = true := by
  rw [msb_eq_toInt, decide_eq_true_iff]

theorem divdi3_eq (nonzero : den ≠ 0) : divdi3 num den = some (num.sdiv den) := by
  have : -den ≠ 0 := by simpa using nonzero
  simp only [divdi3, udivdi3, sdiv_eq, toInt_neg_iff_msb]
  cases num.msb <;> cases den.msb <;> simp [udivmoddi4_eq nonzero, udivmoddi4_eq this]

theorem moddi3_eq (nonzero : den ≠ 0) : moddi3 num den = some (num.srem den) := by
  have : -den ≠ 0 := by simpa using nonzero
  simp only [moddi3, umoddi3, srem_eq, toInt_neg_iff_msb]
  cases num.msb <;> cases den.msb <;> simp [udivmoddi4_eq nonzero, udivmoddi4_eq this]

/-- Each routine returns, with the quotient and the remainder of its operands. -/
theorem divisions_exact (num den : U64) (nonzero : den ≠ 0) :
    (udivdi3 num den).map BitVec.toNat = some (num.toNat / den.toNat) ∧
      (umoddi3 num den).map BitVec.toNat = some (num.toNat % den.toNat) ∧
      (¬(num = intMin 64 ∧ den = -1) →
        (divdi3 num den).map BitVec.toInt = some (num.toInt.tdiv den.toInt) ∧
          (moddi3 num den).map BitVec.toInt = some (num.toInt.tmod den.toInt)) := by
  refine ⟨by simp [udivdi3, udivmoddi4_eq nonzero], by simp [umoddi3, udivmoddi4_eq nonzero], ?_⟩
  intro regular
  have quotient := toInt_sdiv_of_ne_or_ne num den (not_and_or.mp regular)
  simp [divdi3_eq nonzero, moddi3_eq nonzero, quotient, toInt_srem]

/-- Division of -7 by 2. -/
theorem minusSeven_by_two : (divdi3 (-7) 2).map BitVec.toInt = some (-3) ∧
    (moddi3 (-7) 2).map BitVec.toInt = some (-1) :=
  (divisions_exact (-7) 2 (by decide)).2.2 (by decide)

end XKern.Libkern
