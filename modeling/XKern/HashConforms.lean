import XKern.HashStandards
import XKern.RealTables

namespace XKern

open List BitVec Nat

/-!
# Compression functions against the standards

The tables hold the constants of the standards and every step computes a step of
theirs.  The code of MD5 renames its variables after each step, where RFC 1321
renames the registers of its operations.
-/

/-! ## Words and rotations -/

theorem rotr_eq {n : Nat} (x : U32) (short : n < 32) : rotr x n = x.rotateRight n := by
  rw [rotr, rotateRight_def, mod_eq_of_lt short]

theorem readBe32_eq (block : Block) (t : Nat) :
    readBe32 block (t * 4) = Fips180.messageWord block t := by
  rw [mul_comm, readBe32, Fips180.messageWord, Fips180.bigEndian, byteAt, byteAt, byteAt,
    byteAt]
  grind

theorem readLe32_eq (block : Block) (k : Nat) :
    readLe32 block (k * 4) = Rfc1321.messageWord block k := by
  rw [mul_comm, readLe32, Rfc1321.messageWord, byteAt, byteAt, byteAt, byteAt]
  grind

theorem getD_map_range {i n : Nat} (f : Nat → U32) (less : i < n) :
    ((range n).map f).getD i 0 = f i := by
  rw [getD_eq_getElem _ _ (by rwa [length_map, length_range]), getElem_map, getElem_range]

/-- Filling the array computes a sequence that `extend` computes from its own start. -/
theorem expandWords_eq {extend : List U32 → Nat → U32} {schedule : Nat → U32}
    (isExtended : ∀ i, 16 ≤ i → extend ((range i).map schedule) i = schedule i) (count : Nat) :
    expandWords extend count ((range 16).map schedule) =
      (range (16 + count)).map schedule := by
  induction count with
  | zero => rfl
  | succ count ih =>
    rw [expandWords, range'_1_concat, foldl_append, ← expandWords,
      ih, foldl_cons, foldl_nil, isExtended _ (le_add_right _ _),
      ← add_assoc, range_succ, map_append, map_singleton]

/-! ## SHA-256 -/

/-- The primes below 312. -/
def firstPrimes : List Nat :=
  [ 2, 3, 5, 7, 11, 13, 17, 19, 23, 29, 31, 37, 41, 43, 47, 53,
    59, 61, 67, 71, 73, 79, 83, 89, 97, 101, 103, 107, 109, 113, 127, 131,
    137, 139, 149, 151, 157, 163, 167, 173, 179, 181, 191, 193, 197, 199, 211, 223,
    227, 229, 233, 239, 241, 251, 257, 263, 269, 271, 277, 281, 283, 293, 307, 311 ]

/-- No number up to 17 divides `n` properly. -/
def primeTest (n : Nat) : Bool :=
  decide (2 ≤ n) && (range' 2 16).all fun m => decide (n < m * m) || n % m != 0

theorem prime_iff_primeTest {n : Nat} (small : n < 18 * 18) : Nat.Prime n ↔ primeTest n = true := by
  rw [prime_def_le_sqrt, primeTest, Bool.and_eq_true, decide_eq_true_iff, all_eq_true]
  apply and_congr_right
  intro _
  constructor
  · intro undivided m inRange
    have atLeast := (mem_range'_1.mp inRange).1
    by_cases large : n < m * m
    · rw [decide_eq_true large, Bool.true_or]
    · have notDivides := undivided m atLeast (le_sqrt.mpr (Nat.le_of_not_lt large))
      rw [dvd_iff_mod_eq_zero] at notDivides
      rw [bne_iff_ne.mpr notDivides, Bool.or_true]
  · intro tested m atLeast belowRoot divides
    have square : m * m ≤ n := le_sqrt.mp belowRoot
    have few : m < 18 := by
      by_contra many
      have := mul_le_mul (Nat.le_of_not_lt many) (Nat.le_of_not_lt many)
      omega
    have passed := tested m (mem_range'_1.mpr ⟨atLeast, by omega⟩)
    rw [decide_eq_false (not_lt.mpr square), Bool.false_or, bne_iff_ne] at passed
    exact passed (mod_eq_zero_of_dvd divides)

theorem firstPrimes_eq : (range 312).filter primeTest = firstPrimes := by
  decide

theorem nth_prime {t : Nat} (less : t < 64) : nth Nat.Prime t = firstPrimes.getD t 0 := by
  have sameList : (range 312).filter Nat.Prime = firstPrimes := by
    rw [← firstPrimes_eq]
    apply filter_congr
    intro n inRange
    have small : n < 18 * 18 := lt_trans (mem_range.mp inRange) (by decide)
    rw [Bool.eq_iff_iff, decide_eq_true_iff, prime_iff_primeTest small]
  rw [RealTables.nth_of_filter_range (by rwa [sameList]), sameList]

theorem sha256K_digits : ∀ t < 64, ∃ whole < 8,
      (whole * 2 ^ 32 + (sha256K.getD t 0).toNat) ^ 3 ≤ firstPrimes.getD t 0 * (2 ^ 32) ^ 3 ∧
        firstPrimes.getD t 0 * (2 ^ 32) ^ 3 <
          (whole * 2 ^ 32 + (sha256K.getD t 0).toNat + 1) ^ 3 := by
  decide

theorem sha256K_eq {t : Nat} (less : t < 64) : sha256K.getD t 0 = Fips180.sha256Constant t := by
  obtain ⟨whole, -, below, above⟩ := sha256K_digits t less
  have digits := RealTables.floor_fract_cbrt (sha256K.getD t 0).isLt below above
  rw [Fips180.sha256Constant, nth_prime less]
  rw [cast_pow, Nat.cast_ofNat] at digits
  rw [digits, ofNat_toNat, setWidth_eq]

theorem ssig0_eq (x : U32) : ssig0 x = Fips180.lowerSigma0 x := by
  rw [ssig0, rotr_eq x (by decide), rotr_eq x (by decide), Fips180.lowerSigma0]

theorem ssig1_eq (x : U32) : ssig1 x = Fips180.lowerSigma1 x := by
  rw [ssig1, rotr_eq x (by decide), rotr_eq x (by decide), Fips180.lowerSigma1]

theorem bsig0_eq (x : U32) : bsig0 x = Fips180.upperSigma0 x := by
  rw [bsig0, rotr_eq x (by decide), rotr_eq x (by decide), rotr_eq x (by decide),
    Fips180.upperSigma0]

theorem bsig1_eq (x : U32) : bsig1 x = Fips180.upperSigma1 x := by
  rw [bsig1, rotr_eq x (by decide), rotr_eq x (by decide), rotr_eq x (by decide),
    Fips180.upperSigma1]

theorem sha256Words_eq (block : Block) :
    sha256Words block = (range 64).map (Fips180.sha256Schedule block) := by
  have start : (range 16).map (fun i => readBe32 block (i * 4)) =
      (range 16).map (Fips180.sha256Schedule block) := by
    refine map_congr_left fun t inRange => ?_
    rw [readBe32_eq, Fips180.sha256Schedule, if_pos (mem_range.mp inRange)]
  rw [sha256Words, start]
  refine expandWords_eq ?_ 48
  intro i late
  rw [sha256Word, getD_map_range _ (by omega), getD_map_range _ (by omega),
    getD_map_range _ (by omega), getD_map_range _ (by omega), ssig0_eq, ssig1_eq]
  conv_rhs => rw [Fips180.sha256Schedule, if_neg (not_lt.mpr late)]

theorem sha256Rounds_eq {count : Nat} (state : Fin 8 → U32) (block : Block) (few : count ≤ 64) :
    (range count).foldl (sha256Round (sha256Words block))
        { a := state 0, b := state 1, c := state 2, d := state 3,
          e := state 4, f := state 5, g := state 6, h := state 7 } =
      Fips180.sha256Variables state block count := by
  induction count with
  | zero => rfl
  | succ count ih =>
    rw [range_succ, foldl_append, ih (le_of_succ_le few),
      foldl_cons, foldl_nil, sha256Round, sha256Words_eq, getD_map_range _ few,
      sha256K_eq few, bsig0_eq, bsig1_eq]
    rfl

theorem sha256Transform_eq (state : Fin 8 → U32) (block : Block) :
    sha256Transform state block = Fips180.sha256Next state block := by
  rw [sha256Transform, sha256Rounds_eq state block (le_refl 64), Fips180.sha256Next]
  simp only [add_comm]

/-! ## MD5 -/

theorem md5T_digits : ∀ i < 64,
      2 ^ 28 * (md5T.getD i 0).toNat * 2 ^ (64 * (i + 1)) + (i + 1) * 2 ^ (64 * (i + 1)) ≤
          2 ^ 60 * (RealTables.gaussPow RealTables.unitRe RealTables.unitIm (i + 1)).2.natAbs ∧
        2 ^ 60 * (RealTables.gaussPow RealTables.unitRe RealTables.unitIm (i + 1)).2.natAbs +
            (i + 1) * 2 ^ (64 * (i + 1)) <
          2 ^ 28 * ((md5T.getD i 0).toNat + 1) * 2 ^ (64 * (i + 1)) := by
  decide +kernel

theorem md5T_eq {i : Nat} (less : i < 64) : md5T.getD i 0 = Rfc1321.sineConstant (i + 1) := by
  obtain ⟨below, above⟩ := md5T_digits i less
  rw [Rfc1321.sineConstant, RealTables.floor_abs_sin below above, ofNat_toNat, setWidth_eq]

/-- The variables of the code when the registers have been renamed so that `a` is `target`. -/
def md5View (registers : Fin 4 → U32) (target : Fin 4) : Md5Regs where
  a := registers target
  b := registers (target + 1)
  c := registers (target + 2)
  d := registers (target + 3)

/-- The code takes the words, amounts and functions of a round from `base` on. -/
structure RoundMatches (round : Rfc1321.Round) (base : Nat) : Prop where
  auxiliary : ∀ j < 16, ∀ b c d, md5F (base + j) b c d = round.auxiliary b c d
  order : ∀ j < 16, md5G (base + j) = round.order.getD j 0 ∧ md5G (base + j) < 16
  shifts : ∀ j < 16, md5S.getD (base + j) 0 = round.shifts.getD (j % 4) 0 ∧
    md5S.getD (base + j) 0 < 32
  within : base + 16 ≤ 64

theorem round1_matches : RoundMatches Rfc1321.round1 0 where
  auxiliary j less b c d := by
    rw [md5F, if_pos (by omega)]
    rfl
  order := by decide
  shifts := by decide
  within := by decide

theorem round2_matches : RoundMatches Rfc1321.round2 16 where
  auxiliary j less b c d := by
    rw [md5F, if_neg (by omega), if_pos (by omega), and_comm d b, and_comm _ c]
    rfl
  order := by decide
  shifts := by decide
  within := by decide

theorem round3_matches : RoundMatches Rfc1321.round3 32 where
  auxiliary j less b c d := by
    rw [md5F, if_neg (by omega), if_neg (by omega), if_pos (by omega)]
    rfl
  order := by decide
  shifts := by decide
  within := by decide

theorem round4_matches : RoundMatches Rfc1321.round4 48 where
  auxiliary j less b c d := by
    rw [md5F, if_neg (by omega), if_neg (by omega), if_neg (by omega)]
    rfl
  order := by decide
  shifts := by decide
  within := by decide

/-- An operation changes its target, which the code calls `b` from then on. -/
theorem md5View_update (registers : Fin 4 → U32) (target : Fin 4) (value : U32) :
    md5View (Function.update registers target value) (target - 1) =
      { a := registers (target + 3), b := value, c := registers (target + 1),
        d := registers (target + 2) } := by
  fin_cases target <;> rfl

theorem target_succ : ∀ j < 16, -Fin.ofNat 4 (j + 1) = -Fin.ofNat 4 j - 1 := by
  decide

section Md5Rounds

variable {round : Rfc1321.Round} {base : Nat} (block : Block)

/-- The array `w` of `md5_transform`. -/
def md5Words (block : Block) : List U32 :=
  (range 16).map fun i => readLe32 block (i * 4)

theorem md5Round_eq {j : Nat} (isRound : RoundMatches round base) (less : j < 16)
    (registers : Fin 4 → U32) (target : Fin 4) :
    md5Round (md5Words block) (md5View registers target) (base + j) =
      md5View (Rfc1321.operation block round.auxiliary target (round.order.getD j 0)
        (round.shifts.getD (j % 4) 0) (base + j + 1) registers) (target - 1) := by
  obtain ⟨orderEq, orderLt⟩ := isRound.order j less
  obtain ⟨shiftEq, shiftLt⟩ := isRound.shifts j less
  have constant : md5T.getD (base + j) 0 = Rfc1321.sineConstant (base + j + 1) :=
    md5T_eq (by have := isRound.within; omega)
  rw [Rfc1321.operation, md5View_update, ← orderEq, ← shiftEq, ← constant,
    ← isRound.auxiliary j less, rotateLeft_def, mod_eq_of_lt shiftLt, ← readLe32_eq,
    add_right_comm _ (readLe32 _ _), md5Round, md5Words, getD_map_range _ orderLt]
  rfl

theorem runRound_eq (isRound : RoundMatches round base) (registers : Fin 4 → U32) :
    (range 16).foldl (fun r j => md5Round (md5Words block) r (base + j))
        (md5View registers 0) =
      md5View (Rfc1321.runRound block round base registers) 0 := by
  have partly : ∀ count ≤ 16,
      (range count).foldl (fun r j => md5Round (md5Words block) r (base + j))
          (md5View registers 0) =
        md5View ((range count).foldl (fun registers j =>
          Rfc1321.operation block round.auxiliary (-Fin.ofNat 4 j) (round.order.getD j 0)
            (round.shifts.getD (j % 4) 0) (base + j + 1) registers) registers)
          (-Fin.ofNat 4 count) := by
    intro count few
    induction count with
    | zero => rfl
    | succ count ih =>
      have renamed : -Fin.ofNat 4 (count + 1) = -Fin.ofNat 4 count - 1 := target_succ count few
      rw [range_succ, foldl_append, foldl_append,
        ih (le_of_succ_le few), foldl_cons, foldl_nil,
        foldl_cons, foldl_nil, md5Round_eq block isRound few, renamed]
  exact partly 16 (le_refl 16)

end Md5Rounds

theorem md5Transform_eq (state : Fin 4 → U32) (block : Block) :
    md5Transform state block = Rfc1321.md5Next state block := by
  have steps : (range 64).foldl (md5Round (md5Words block)) (md5View state 0) =
      md5View (Rfc1321.runRound block Rfc1321.round4 48 (Rfc1321.runRound block Rfc1321.round3 32
        (Rfc1321.runRound block Rfc1321.round2 16
          (Rfc1321.runRound block Rfc1321.round1 0 state)))) 0 := by
    have split : range 64 = range 16 ++ (range 16).map (16 + ·) ++
        (range 16).map (32 + ·) ++ (range 16).map (48 + ·) := by decide
    rw [← runRound_eq block round4_matches, ← runRound_eq block round3_matches,
      ← runRound_eq block round2_matches, ← runRound_eq block round1_matches, split,
      foldl_append, foldl_append, foldl_append, foldl_map, foldl_map,
      foldl_map]
    simp only [zero_add]
  have unfolded : md5Transform state block =
      let r := (range 64).foldl (md5Round (md5Words block)) (md5View state 0)
      ![state 0 + r.a, state 1 + r.b, state 2 + r.c, state 3 + r.d] := rfl
  rw [unfolded, steps]
  funext i
  fin_cases i <;> exact add_comm _ _

/-- The compression functions of SHA-256 and MD5 compute the next states of the standards. -/
theorem transforms_conform :
    (∀ (state : Fin 8 → U32) (block : Block),
      sha256Transform state block = Fips180.sha256Next state block) ∧
    ∀ (state : Fin 4 → U32) (block : Block),
      md5Transform state block = Rfc1321.md5Next state block :=
  ⟨sha256Transform_eq, md5Transform_eq⟩

end XKern
