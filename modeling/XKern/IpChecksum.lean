import XKern.NetCalls
import XKern.OnesComplement

namespace XKern.Net

open OnesComplement PackedBytes List BitVec

/-!
# Byte order and checksums

The words of the headers are swapped when they are stored, so that the bytes of a header
have the highest byte of each field first.  `ip_checksum` is the complement of the
one's-complement sum of these words.
-/

/-! ## Byte order -/

theorem getLsbD_netHtons (x : U16) {i : Nat} (isBit : i < 16) :
    (netHtons x).getLsbD i = x.getLsbD ((i + 8) % 16) := by
  interval_cases i <;> simp [netHtons]

theorem getLsbD_netHtonl (x : U32) {i : Nat} (isBit : i < 32) :
    (netHtonl x).getLsbD i = x.getLsbD (8 * (3 - i / 8) + i % 8) := by
  interval_cases i <;> simp [netHtonl]

@[simp]
theorem netHtons_netHtons (x : U16) : netHtons (netHtons x) = x := by
  apply eq_of_getLsbD_eq
  intro i isBit
  rw [getLsbD_netHtons _ isBit, getLsbD_netHtons _ (Nat.mod_lt _ (by decide))]
  congr 1
  omega

@[simp]
theorem netHtonl_netHtonl (x : U32) : netHtonl (netHtonl x) = x := by
  apply eq_of_getLsbD_eq
  intro i isBit
  rw [getLsbD_netHtonl _ isBit, getLsbD_netHtonl _ (by omega)]
  congr 1
  omega

theorem toBytes_netHtons (x : U16) :
    toBytes 2 (netHtons x) = [(x >>> 8).setWidth 8, x.setWidth 8] := by
  rw [toBytes, toBytes, toBytes]
  congr 1
  · apply eq_of_getLsbD_eq
    intro i isBit
    rw [getLsbD_setWidth, getLsbD_setWidth, getLsbD_netHtons x (by omega),
      getLsbD_ushiftRight, Nat.mod_eq_of_lt (by omega), add_comm]
  · congr 1
    apply eq_of_getLsbD_eq
    intro i isBit
    rw [getLsbD_setWidth, getLsbD_setWidth, getLsbD_ushiftRight,
      getLsbD_netHtons x (by omega), show (8 + i + 8) % 16 = i by omega]

theorem toBytes_netHtonl (x : U32) : toBytes 4 (netHtonl x) =
      [(x >>> 24).setWidth 8, (x >>> 16).setWidth 8, (x >>> 8).setWidth 8, x.setWidth 8] := by
  have byte (k : Nat) (isByte : k < 4) :
      (netHtonl x >>> (8 * k)).setWidth 8 = (x >>> (8 * (3 - k))).setWidth 8 := by
    apply eq_of_getLsbD_eq
    intro i isBit
    rw [getLsbD_setWidth, getLsbD_setWidth, getLsbD_ushiftRight,
      getLsbD_ushiftRight, getLsbD_netHtonl x (by omega),
      show 8 * (3 - (8 * k + i) / 8) + (8 * k + i) % 8 = 8 * (3 - k) + i by omega]
  have first := byte 0 (by decide)
  have second := byte 1 (by decide)
  have third := byte 2 (by decide)
  have fourth := byte 3 (by decide)
  simp only [toBytes, ← shiftRight_add, List.cons.injEq, and_true]
  exact ⟨first, second, third, fourth⟩

theorem wordSum_netHtons (x : U16) : wordSum (toBytes 2 (netHtons x)) = x.toNat := by
  have := x.isLt
  rw [toBytes_netHtons, wordSum, wordSum, toNat_setWidth, toNat_setWidth,
    toNat_ushiftRight, Nat.shiftRight_eq_div_pow]
  omega

theorem wordSum_netHtonl (x : U32) :
    wordSum (toBytes 4 (netHtonl x)) = x.toNat / 65536 + x.toNat % 65536 := by
  have := x.isLt
  rw [toBytes_netHtonl, wordSum, wordSum, wordSum, toNat_setWidth, toNat_setWidth,
    toNat_setWidth, toNat_setWidth, toNat_ushiftRight,
    toNat_ushiftRight, toNat_ushiftRight, Nat.shiftRight_eq_div_pow,
    Nat.shiftRight_eq_div_pow, Nat.shiftRight_eq_div_pow]
  omega

/-! ## Checksums -/

theorem toNat_word (high low : U8) :
    ((high.setWidth 32 <<< 8) ||| low.setWidth 32 : U32).toNat = 256 * high.toNat + low.toNat := by
  have isSum : ((high.setWidth 32 <<< 8) ||| low.setWidth 32 : U32) =
      .ofNat 32 (256 * high.toNat + low.toNat) := by
    rw [← toNat_inj, toNat_or, toNat_shiftLeft, toNat_setWidth, toNat_setWidth, toNat_ofNat]
    have := high.isLt
    have := low.isLt
    rw [Nat.mod_eq_of_lt (by omega : high.toNat < 2 ^ 32), Nat.shiftLeft_eq,
      Nat.mod_eq_of_lt (by omega : high.toNat * 2 ^ 8 < 2 ^ 32),
      Nat.mod_eq_of_lt (by omega : low.toNat < 2 ^ 32),
      Nat.mod_eq_of_lt (by omega : 256 * high.toNat + low.toNat < 2 ^ 32),
      mul_comm high.toNat, Nat.two_pow_add_eq_or_of_lt (by omega : low.toNat < 2 ^ 8)]
  rw [isSum, toNat_ofNat]
  have := high.isLt
  have := low.isLt
  omega

theorem toNat_addWords (bytes : List U8) {sum : U32} (fits : sum.toNat + wordSum bytes < 2 ^ 32) :
    (addWords sum bytes).toNat = sum.toNat + wordSum bytes := by
  induction bytes using twoStepInduction generalizing sum with
  | nil => rfl
  | singleton high =>
    have isWord := toNat_word high 0
    rw [show (0 : U8).setWidth 32 = 0#32 from rfl, or_zero,
      show (0 : U8).toNat = 0 from rfl, add_zero] at isWord
    rw [addWords, wordSum, toNat_add, isWord]
    rw [wordSum] at fits
    omega
  | cons_cons high low rest ih _ =>
    rw [wordSum] at fits
    have isNext : (sum + ((high.setWidth 32 <<< 8) ||| low.setWidth 32)).toNat =
        sum.toNat + (256 * high.toNat + low.toNat) := by
      rw [toNat_add, toNat_word]
      omega
    rw [addWords, ih (by rw [isNext]; omega), isNext, wordSum]
    omega

theorem toNat_foldRound (sum : U32) :
    ((sum &&& (0xffff : U32)) + (sum >>> 16)).toNat = carryRound sum.toNat := by
  have := sum.isLt
  rw [toNat_add, toNat_and, toNat_ushiftRight, Nat.shiftRight_eq_div_pow,
    show (0xffff : U32).toNat = 2 ^ 16 - 1 from rfl, Nat.and_two_pow_sub_one_eq_mod, carryRound]
  omega

theorem shift_eq_zero_iff (sum : U32) : sum >>> 16 = 0 ↔ sum.toNat < 65536 := by
  rw [← toNat_inj, toNat_ushiftRight, Nat.shiftRight_eq_div_pow, show (0 : U32).toNat = 0 from rfl]
  omega

theorem foldLoop_succ (fuel : Nat) (sum : U32) : foldLoop (fuel + 1) sum =
      if sum.toNat < 65536 then sum
      else foldLoop fuel ((sum &&& (0xffff : U32)) + (sum >>> 16)) := by
  rw [foldLoop]
  by_cases small : sum.toNat < 65536
  · rw [if_pos ((shift_eq_zero_iff sum).mpr small), if_pos small]
  · rw [if_neg (fun isZero => small ((shift_eq_zero_iff sum).mp isZero)), if_neg small]

/-- The loop folds the sum; with more rounds allowed it would take no more. -/
theorem toNat_foldLoop (more : Nat) (sum : U32) :
    (foldLoop (3 + more) sum).toNat = fold sum.toNat := by
  have twice := carryRound_carryRound sum.isLt
  have first := toNat_foldRound sum
  have second := toNat_foldRound ((sum &&& (0xffff : U32)) + (sum >>> 16))
  have final : (foldLoop (1 + more)
      ((((sum &&& (0xffff : U32)) + (sum >>> 16)) &&& (0xffff : U32)) +
      (((sum &&& (0xffff : U32)) + (sum >>> 16)) >>> 16))).toNat = fold sum.toNat := by
    have small : ((((sum &&& (0xffff : U32)) + (sum >>> 16)) &&& (0xffff : U32)) +
        (((sum &&& (0xffff : U32)) + (sum >>> 16)) >>> 16)).toNat < 65536 := by
      rw [second, first, twice]
      exact fold_lt _
    rw [add_comm, foldLoop_succ, if_pos small, second, first, twice]
  rw [show 3 + more = (1 + more) + 1 + 1 by omega, foldLoop_succ]
  split
  · exact (fold_of_lt ‹_›).symm
  · rw [foldLoop_succ]
    split
    · rename_i small
      rw [first] at small ⊢
      rw [← fold_carryRound, fold_of_lt small]
    · exact final

theorem toNat_foldSum (sum : U32) : (foldSum sum).toNat = fold sum.toNat :=
  toNat_foldLoop 0 sum

theorem toNat_complement (sum : U32) :
    ((~~~ foldSum sum &&& (0xffff : U32)).setWidth 16 : U16).toNat = 65535 - fold sum.toNat := by
  have small := fold_lt sum.toNat
  rw [← toNat_foldSum] at small ⊢
  rw [toNat_setWidth, toNat_and, toNat_not,
    show (0xffff : U32).toNat = 2 ^ 16 - 1 from rfl, Nat.and_two_pow_sub_one_eq_mod]
  omega

theorem exists_ipChecksum {bytes : List U8} (short : bytes.length ≤ 65535) :
    ∃ complement : U16, ipChecksum bytes = netHtons complement ∧
      complement.toNat = 65535 - fold (wordSum bytes) := by
  have bound := wordSum_le bytes
  refine ⟨_, rfl, ?_⟩
  rw [toNat_complement, toNat_addWords bytes (by rw [show (0 : U32).toNat = 0 from rfl]; omega),
    show (0 : U32).toNat = 0 from rfl, zero_add]

theorem ipChecksum_eq_zero_iff {bytes : List U8} (short : bytes.length ≤ 65535) :
    ipChecksum bytes = 0 ↔ fold (wordSum bytes) = 65535 := by
  obtain ⟨complement, isChecksum, value⟩ := exists_ipChecksum short
  have small := fold_lt (wordSum bytes)
  have swapped : netHtons complement = 0 ↔ complement = 0 := by
    constructor
    · intro isZero
      rw [← netHtons_netHtons complement, isZero]
      rfl
    · rintro rfl
      rfl
  rw [isChecksum, swapped, ← toNat_inj, value, show (0 : U16).toNat = 0 from rfl]
  omega

/-- The checksum stored in a field of zeros makes the checksum of the whole 0. -/
theorem ipChecksum_stored (first second : List U8) (even : first.length % 2 = 0)
    (short : (first ++ ([0, 0] ++ second)).length ≤ 65535) :
    ipChecksum (first ++ (toBytes 2 (ipChecksum (first ++ ([0, 0] ++ second))) ++ second)) = 0 := by
  obtain ⟨complement, isChecksum, value⟩ := exists_ipChecksum short
  have sum (word : List U8) (isWord : word.length = 2) :
      wordSum (first ++ (word ++ second)) = wordSum first + wordSum second + wordSum word := by
    rw [wordSum_append even, wordSum_append (by omega)]
    omega
  have length : (first ++ (toBytes 2 (netHtons complement) ++ second)).length ≤ 65535 := by
    rw [length_append, length_append, length_toBytes]
    rwa [length_append, length_append] at short
  have zeros : wordSum (first ++ ([0, 0] ++ second)) = wordSum first + wordSum second :=
    sum [0, 0] rfl
  rw [isChecksum, ipChecksum_eq_zero_iff length, sum _ (length_toBytes 2 _), wordSum_netHtons,
    value, zeros]
  exact fold_add_complement _

end XKern.Net
