import Mathlib.Analysis.Complex.Trigonometric
import Mathlib.Analysis.SpecialFunctions.Pow.Real
import Mathlib.Data.List.GetD
import Mathlib.Data.Nat.Nth

namespace XKern.RealTables

open List Nat

/-!
# Digits of real constants

Tables of constants are often the leading digits of real numbers.  The digits of
a cube root are settled by comparing cubes.  Those of the sine of a whole number
are settled by a power of a Gaussian number close to the first one on the unit
circle.  Which numbers are the first ones with a property is settled by a search.
-/

/-! ## Cube roots -/

theorem cbrt_cubed (value : Nat) : ((value : ℝ) ^ (1 / 3 : ℝ)) ^ 3 = value := by
  rw [← Real.rpow_natCast, ← Real.rpow_mul (cast_nonneg value)]
  norm_num

theorem floor_fract_cbrt {value whole digits scale : Nat} (isDigits : digits < scale)
    (below : (whole * scale + digits) ^ 3 ≤ value * scale ^ 3)
    (above : value * scale ^ 3 < (whole * scale + digits + 1) ^ 3) :
    ⌊(scale : ℝ) * Int.fract ((value : ℝ) ^ (1 / 3 : ℝ))⌋₊ = digits := by
  have cubed := cbrt_cubed value
  have rootNonneg : 0 ≤ (value : ℝ) ^ (1 / 3 : ℝ) := by positivity
  generalize (value : ℝ) ^ (1 / 3 : ℝ) = root at cubed rootNonneg
  have scalePos : (0 : ℝ) < scale := by exact_mod_cast zero_lt_of_lt isDigits
  have scaled : (root * scale) ^ 3 = ((value * scale ^ 3 : Nat) : ℝ) := by
    rw [mul_pow, cubed]
    push_cast
    rfl
  have low : ((whole * scale + digits : Nat) : ℝ) ≤ root * scale := by
    refine le_of_pow_le_pow_left₀ (n := 3) (by decide) (by positivity) ?_
    rw [scaled]
    exact_mod_cast below
  have high : root * scale < ((whole * scale + digits + 1 : Nat) : ℝ) := by
    refine lt_of_pow_lt_pow_left₀ 3 (by positivity) ?_
    rw [scaled]
    exact_mod_cast above
  have digitsLe : (digits : ℝ) + 1 ≤ scale := by exact_mod_cast isDigits
  push_cast at low high
  have isWhole : ⌊root⌋ = whole := by
    rw [Int.floor_eq_iff]
    constructor
    · rw [Int.cast_natCast]
      refine le_of_mul_le_mul_right ?_ scalePos
      linarith [cast_nonneg (α := ℝ) digits]
    · rw [Int.cast_natCast]
      refine lt_of_mul_lt_mul_right ?_ scalePos.le
      linarith
  have fractional : (scale : ℝ) * Int.fract root = root * scale - whole * scale := by
    rw [Int.fract, isWhole, Int.cast_natCast]
    ring
  rw [floor_eq_iff (by positivity), fractional]
  constructor <;> linarith

/-! ## Sines -/

def gaussPow (re im : Int) : Nat → Int × Int
  | 0 => (1, 0)
  | n + 1 =>
      let power := gaussPow re im n
      (power.1 * re - power.2 * im, power.1 * im + power.2 * re)

theorem gaussPow_eq (re im : Int) (n : Nat) :
    ((gaussPow re im n).1 : ℂ) + (gaussPow re im n).2 * Complex.I = (re + im * Complex.I) ^ n := by
  induction n with
  | zero => simp [gaussPow]
  | succ n ih =>
    rw [pow_succ, ← ih, gaussPow]
    push_cast
    ring_nf
    rw [Complex.I_sq]
    ring

theorem gaussPow_im (re im : Int) (n : Nat) :
    (((re + im * Complex.I : ℂ)) ^ n).im = (gaussPow re im n).2 := by
  rw [← gaussPow_eq]
  simp

/-- Powers of numbers in the unit disc are not further apart than their exponent allows. -/
theorem norm_pow_sub_pow_le {z w : ℂ} (zLe : ‖z‖ ≤ 1) (wLe : ‖w‖ ≤ 1) (n : Nat) :
    ‖z ^ n - w ^ n‖ ≤ n * ‖z - w‖ := by
  induction n with
  | zero => simp
  | succ n ih =>
    have powLe : ‖w ^ n‖ ≤ 1 := by
      rw [norm_pow]
      exact pow_le_one₀ (norm_nonneg w) wLe
    calc ‖z ^ (n + 1) - w ^ (n + 1)‖ = ‖z * (z ^ n - w ^ n) + (z - w) * w ^ n‖ := by
          congr 1
          ring
      _ ≤ ‖z‖ * ‖z ^ n - w ^ n‖ + ‖z - w‖ * ‖w ^ n‖ := by
          rw [← norm_mul, ← norm_mul]
          exact norm_add_le _ _
      _ ≤ 1 * ‖z ^ n - w ^ n‖ + ‖z - w‖ * 1 := by gcongr
      _ ≤ (n + 1 : Nat) * ‖z - w‖ := by
          push_cast
          linarith

/-- Real part of the number at angle one, times 2^64. -/
def unitRe : Int :=
  9966818358784711825

/-- Imaginary part of the number at angle one, times 2^64. -/
def unitIm : Int :=
  15522399902203605024

/-- A number close to the one at angle one on the unit circle. -/
noncomputable def unit : ℂ :=
  (unitRe + unitIm * Complex.I) / (2 ^ 64 : Nat)

theorem norm_unit_le : ‖unit‖ ≤ 1 := by
  rw [← sq_le_one_iff₀ (norm_nonneg unit), ← Complex.normSq_eq_norm_sq]
  norm_num [unit, unitRe, unitIm, Complex.normSq_apply]

/-- The exponential series at the imaginary unit, split into its real and imaginary parts. -/
theorem sum_expSeries_I (n : Nat) : ∑ m ∈ Finset.range (2 * n), Complex.I ^ m / (m.factorial : ℂ) =
      (∑ m ∈ Finset.range n, (-1) ^ m / ((2 * m).factorial : ℝ) : ℝ) +
        (∑ m ∈ Finset.range n, (-1) ^ m / ((2 * m + 1).factorial : ℝ) : ℝ) * Complex.I := by
  induction n with
  | zero => simp
  | succ n ih =>
    have even : Complex.I ^ (2 * n) = (-1) ^ n := by
      rw [pow_mul, Complex.I_sq]
    rw [mul_succ, Finset.sum_range_succ, Finset.sum_range_succ, ih,
      Finset.sum_range_succ, Finset.sum_range_succ, pow_succ, even]
    push_cast
    ring

theorem norm_exp_sub_unit : ‖Complex.exp Complex.I - unit‖ ≤ 1 / 2 ^ 60 := by
  have series := Complex.exp_bound (x := Complex.I) (by simp) (n := 2 * 11) (by decide)
  rw [sum_expSeries_I] at series
  generalize reEq : (∑ m ∈ Finset.range 11, (-1) ^ m / ((2 * m).factorial : ℝ) : ℝ) = re at series
  generalize imEq : (∑ m ∈ Finset.range 11, (-1) ^ m / ((2 * m + 1).factorial : ℝ) : ℝ) = im
    at series
  have tail : ‖Complex.exp Complex.I - (re + im * Complex.I)‖ ≤ 1 / 2 ^ 62 := by
    refine series.trans ?_
    norm_num [factorial]
  have reClose : |re - unitRe / 2 ^ 64| ≤ 1 / 2 ^ 62 := by
    rw [← reEq, abs_le]
    norm_num [Finset.sum_range_succ, factorial, unitRe]
  have imClose : |im - unitIm / 2 ^ 64| ≤ 1 / 2 ^ 62 := by
    rw [← imEq, abs_le]
    norm_num [Finset.sum_range_succ, factorial, unitIm]
  have parts : (re + im * Complex.I - unit : ℂ) =
      ((re - unitRe / 2 ^ 64 : ℝ) : ℂ) + ((im - unitIm / 2 ^ 64 : ℝ) : ℂ) * Complex.I := by
    rw [unit]
    push_cast
    ring
  have rounding : ‖(re + im * Complex.I - unit : ℂ)‖ ≤ 1 / 2 ^ 61 := by
    refine (Complex.norm_le_abs_re_add_abs_im _).trans ?_
    rw [parts, Complex.add_re, Complex.add_im, Complex.re_ofReal_mul, Complex.im_ofReal_mul,
      Complex.ofReal_re, Complex.ofReal_im, Complex.I_re, Complex.I_im, mul_zero, mul_one,
      add_zero, zero_add]
    linarith
  calc ‖Complex.exp Complex.I - unit‖
      ≤ ‖Complex.exp Complex.I - (re + im * Complex.I)‖ + ‖(re + im * Complex.I - unit : ℂ)‖ :=
        norm_sub_le_norm_sub_add_norm_sub _ _ _
    _ ≤ 1 / 2 ^ 62 + 1 / 2 ^ 61 := add_le_add tail rounding
    _ ≤ 1 / 2 ^ 60 := by norm_num

theorem abs_sin_sub_le (n : Nat) :
    |Real.sin n - (gaussPow unitRe unitIm n).2 / 2 ^ (64 * n)| ≤ n / 2 ^ 60 := by
  have isPower : Real.sin n = (Complex.exp Complex.I ^ n).im := by
    rw [← Complex.exp_nat_mul, ← Complex.ofReal_natCast, Complex.exp_ofReal_mul_I_im]
  have isApprox : ((gaussPow unitRe unitIm n).2 : ℝ) / 2 ^ (64 * n) = (unit ^ n).im := by
    rw [unit, div_pow, ← Nat.cast_pow, ← pow_mul, Complex.div_natCast_im, ← gaussPow_im]
    push_cast
    rfl
  have onCircle : ‖Complex.exp Complex.I‖ ≤ 1 := by
    have isOne := Complex.norm_exp_ofReal_mul_I 1
    rw [Complex.ofReal_one, one_mul] at isOne
    exact isOne.le
  rw [isPower, isApprox, ← Complex.sub_im]
  calc |(Complex.exp Complex.I ^ n - unit ^ n).im| ≤ ‖Complex.exp Complex.I ^ n - unit ^ n‖ :=
        Complex.abs_im_le_norm _
    _ ≤ n * ‖Complex.exp Complex.I - unit‖ := norm_pow_sub_pow_le onCircle norm_unit_le n
    _ ≤ n * (1 / 2 ^ 60) := by
        gcongr
        exact norm_exp_sub_unit
    _ = n / 2 ^ 60 := by ring

/-- Leading binary digits of the absolute value of the sine of a whole number. -/
theorem floor_abs_sin {n digits : Nat} (below : 2 ^ 28 * digits * 2 ^ (64 * n) + n * 2 ^ (64 * n) ≤
      2 ^ 60 * (gaussPow unitRe unitIm n).2.natAbs)
    (above : 2 ^ 60 * (gaussPow unitRe unitIm n).2.natAbs + n * 2 ^ (64 * n) <
      2 ^ 28 * (digits + 1) * 2 ^ (64 * n)) :
    ⌊2 ^ 32 * |Real.sin n|⌋₊ = digits := by
  have close := abs_sin_sub_le n
  have scalePos : (0 : ℝ) < 2 ^ (64 * n) := by positivity
  have power : |((gaussPow unitRe unitIm n).2 : ℝ) / 2 ^ (64 * n)| * 2 ^ (64 * n) =
      (gaussPow unitRe unitIm n).2.natAbs := by
    rw [abs_div, abs_of_pos scalePos, div_mul_cancel₀ _ scalePos.ne', cast_natAbs, Int.cast_abs]
  generalize (gaussPow unitRe unitIm n).2.natAbs = approx at below above power
  generalize ((gaussPow unitRe unitIm n).2 : ℝ) / 2 ^ (64 * n) = quotient at close power
  have belowReal : (2 : ℝ) ^ 28 * digits * 2 ^ (64 * n) + n * 2 ^ (64 * n) ≤ 2 ^ 60 * approx := by
    exact_mod_cast below
  have aboveReal : (2 : ℝ) ^ 60 * approx + n * 2 ^ (64 * n) <
      2 ^ 28 * (digits + 1) * 2 ^ (64 * n) := by
    exact_mod_cast above
  have low : (2 : ℝ) ^ 28 * digits + n ≤ 2 ^ 60 * |quotient| := by
    refine le_of_mul_le_mul_right ?_ scalePos
    linarith
  have high : (2 : ℝ) ^ 60 * |quotient| + n < 2 ^ 28 * (digits + 1) := by
    refine lt_of_mul_lt_mul_right ?_ scalePos.le
    linarith
  have distance := (abs_abs_sub_abs_le (Real.sin n) quotient).trans close
  rw [abs_le] at distance
  rw [floor_eq_iff (by positivity)]
  constructor <;> linarith

/-! ## Numbers with a property -/

/-- The numbers with a property that are found below a bound are its first ones. -/
theorem nth_of_filter_range {p : Nat → Prop} [DecidablePred p] {bound t : Nat}
    (found : t < ((range bound).filter p).length) :
    nth p t = ((range bound).filter p).getD t 0 := by
  induction bound with
  | zero => exact absurd found (not_lt_zero t)
  | succ bound ih =>
    rw [range_succ, filter_append] at found ⊢
    by_cases early : t < ((range bound).filter p).length
    · rw [getD_append _ _ _ _ early, ih early]
    · have isCount : Nat.count p bound = ((range bound).filter p).length :=
        countP_eq_length_filter
      by_cases holds : p bound
      · rw [filter_singleton, decide_eq_true holds, cond_true] at found ⊢
        have isLast : t = ((range bound).filter p).length := by
          rw [length_append, length_singleton] at found
          omega
        rw [isLast, getD_append_right _ _ _ _ (Nat.le_refl _), Nat.sub_self, ← isCount,
          nth_count holds]
        rfl
      · rw [filter_singleton, decide_eq_false holds, cond_false, append_nil] at found
        exact absurd found early

end XKern.RealTables
