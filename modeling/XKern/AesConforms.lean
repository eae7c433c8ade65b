import XKern.AesStandard
import XKern.HashConforms

namespace XKern

open ByteField

/-!
# The block cipher against FIPS 197

The bytes of the code are elements of the field: `xtime` is the product with x, the
table `sbox` holds the affine image of the inverses, and a column is multiplied by
the polynomial of the standard.  The words of `key_expand` are those of the key
schedule for the three key sizes.
-/

/-! ## Bytes -/

theorem xtime_eq : ∀ x : U8, xtime x = (x <<< 1) ^^^ (if x.getLsbD 7 then 0x1b else 0) := by
  decide

theorem elem_xtime (x : U8) : elem (xtime x) = root * elem x := by
  rw [xtime_eq, elem_double]

theorem and_one_ne_zero : ∀ b : U8, (b &&& 1 ≠ 0) = (b.getLsbD 0 = true) := by
  decide

theorem elem_xmulStep (v : XmulVars) :
    elem (xmulStep v).p + elem (xmulStep v).a * elem (xmulStep v).b =
      elem v.p + elem v.a * elem v.b := by
  rw [elem_halve v.b, xmulStep]
  dsimp only
  rw [elem_xtime]
  simp only [and_one_ne_zero]
  cases v.b.getLsbD 0 <;> simp [elem_xor] <;> ring

theorem xmulStep_iterate_b (n : Nat) (v : XmulVars) : (xmulStep^[n] v).b = v.b >>> n := by
  induction n generalizing v with
  | zero => rfl
  | succ n ih =>
    rw [Function.iterate_succ_apply, ih, xmulStep, ← BitVec.shiftRight_add, add_comm]

theorem elem_xmul (a b : U8) : elem (xmul a b) = elem a * elem b := by
  have kept : ∀ n, elem (xmulStep^[n] { p := 0, a := a, b := b }).p +
      elem (xmulStep^[n] { p := 0, a := a, b := b }).a *
        elem (xmulStep^[n] { p := 0, a := a, b := b }).b = elem a * elem b := by
    intro n
    induction n with
    | zero => rw [Function.iterate_zero_apply, elem_zero, zero_add]
    | succ n ih =>
      rw [Function.iterate_succ_apply', elem_xmulStep, ih]
  have last := kept 8
  have shiftedOut : b >>> 8 = 0 := BitVec.ushiftRight_eq_zero (le_refl 8)
  rwa [xmulStep_iterate_b, shiftedOut, elem_zero, mul_zero, add_zero] at last

/-! ## Substitution -/

def affineInv (b : U8) : U8 :=
  b.rotateLeft 1 ^^^ b.rotateLeft 3 ^^^ b.rotateLeft 6 ^^^ 0x05

theorem sbox_affine :
    ∀ b : U8, Fips197.affine (affineInv (lookupByte sbox b)) = lookupByte sbox b := by
  decide +kernel

theorem sbox_inverse : ∀ b : U8, b ≠ 0 → xmul b (affineInv (lookupByte sbox b)) = 1 := by
  decide

theorem sbox_eq (b : U8) : lookupByte sbox b = Fips197.subByte b := by
  have inverse : Ring.inverse (elem b) = elem (affineInv (lookupByte sbox b)) := by
    by_cases zero : b = 0
    · rw [zero, elem_zero, Ring.inverse_zero]
      exact elem_zero.symm
    · have product : elem b * elem (affineInv (lookupByte sbox b)) = 1 := by
        rw [← elem_xmul, sbox_inverse b zero, elem_one]
      have isUnit : IsUnit (elem b) := IsUnit.of_mul_eq_one _ product
      have inverse := (Ring.inverse_mul_eq_iff_eq_mul _ 1 _ isUnit).mpr product.symm
      rwa [mul_one] at inverse
  rw [Fips197.subByte, inverse, byteOf_elem, sbox_affine]

/-! ## Columns -/

section Columns

open Polynomial

/-- The remainder of a product of two polynomials of degree three modulo x^4 + 1. -/
theorem mul_modByMonic (a0 a1 a2 a3 s0 s1 s2 s3 : Gf256) :
    ((C a3 * X ^ 3 + C a2 * X ^ 2 + C a1 * X + C a0) *
        (C s3 * X ^ 3 + C s2 * X ^ 2 + C s1 * X + C s0)) %ₘ (X ^ 4 + 1) =
      C (a3 * s0 + a2 * s1 + a1 * s2 + a0 * s3) * X ^ 3 +
        C (a2 * s0 + a1 * s1 + a0 * s2 - a3 * s3) * X ^ 2 +
        C (a1 * s0 + a0 * s1 - a3 * s2 - a2 * s3) * X +
        C (a0 * s0 - a3 * s1 - a2 * s2 - a1 * s3) := by
  have monic : (X ^ 4 + 1 : Gf256[X]).Monic := by monicity!
  refine (div_modByMonic_unique
    (C (a3 * s3) * X ^ 2 + C (a3 * s2 + a2 * s3) * X + C (a3 * s1 + a2 * s2 + a1 * s3)) _ monic
    ⟨?_, ?_⟩).2
  · simp only [map_add, map_sub, map_mul]
    ring
  · have four : (X ^ 4 + 1 : Gf256[X]).degree = 4 := by
      rw [← C_1, degree_X_pow_add_C (by decide)]
      rfl
    rw [four]
    exact degree_cubic_lt

theorem cubic_coeff (a b c d : Gf256) : (C a * X ^ 3 + C b * X ^ 2 + C c * X + C d).coeff 0 = d ∧
      (C a * X ^ 3 + C b * X ^ 2 + C c * X + C d).coeff 1 = c ∧
      (C a * X ^ 3 + C b * X ^ 2 + C c * X + C d).coeff 2 = b ∧
      (C a * X ^ 3 + C b * X ^ 2 + C c * X + C d).coeff 3 = a := by
  simp [coeff_X, coeff_C]

theorem elem_two : elem 0x02 = root := by
  have isXtime : (0x02 : U8) = xtime 0x01 := by decide
  rw [isXtime, elem_xtime, elem_one, mul_one]

theorem elem_three : elem 0x03 = root + 1 := by
  have isSum : (0x03 : U8) = 0x02 ^^^ 0x01 := by decide
  rw [isSum, elem_xor, elem_two, elem_one]

theorem elem_mixColumn (a : Fin 4 → U8) :
    elem (mixColumn a 0) = root * elem (a 0) - (root + 1) * elem (a 1) - elem (a 2) - elem (a 3) ∧
      elem (mixColumn a 1) = elem (a 0) + root * elem (a 1) - (root + 1) * elem (a 2) - elem (a 3) ∧
      elem (mixColumn a 2) = elem (a 0) + elem (a 1) + root * elem (a 2) - (root + 1) * elem (a 3) ∧
      elem (mixColumn a 3) =
        (root + 1) * elem (a 0) + elem (a 1) + elem (a 2) + root * elem (a 3) := by
  have two := two_eq_zero
  refine ⟨?_, ?_, ?_, ?_⟩
  · change elem (a 0 ^^^ (xtime (a 0 ^^^ a 1) ^^^ (a 0 ^^^ a 1 ^^^ a 2 ^^^ a 3))) = _
    simp only [elem_xor, elem_xtime]
    linear_combination (elem (a 0) + root * elem (a 1) + elem (a 1) + elem (a 2) + elem (a 3)) * two
  · change elem (a 1 ^^^ (xtime (a 1 ^^^ a 2) ^^^ (a 0 ^^^ a 1 ^^^ a 2 ^^^ a 3))) = _
    simp only [elem_xor, elem_xtime]
    linear_combination (elem (a 1) + root * elem (a 2) + elem (a 2) + elem (a 3)) * two
  · change elem (a 2 ^^^ (xtime (a 2 ^^^ a 3) ^^^ (a 0 ^^^ a 1 ^^^ a 2 ^^^ a 3))) = _
    simp only [elem_xor, elem_xtime]
    linear_combination (elem (a 2) + root * elem (a 3) + elem (a 3)) * two
  · change elem (a 3 ^^^ (xtime (a 3 ^^^ a 0) ^^^ (a 0 ^^^ a 1 ^^^ a 2 ^^^ a 3))) = _
    simp only [elem_xor, elem_xtime]
    linear_combination elem (a 3) * two

theorem mixColumn_eq (column : Fin 4 → U8) : mixColumn column = Fips197.mixColumn column := by
  obtain ⟨first, second, third, fourth⟩ := elem_mixColumn column
  funext r
  rw [Fips197.mixColumn, Fips197.mixPolynomial, Fips197.columnPolynomial, mul_modByMonic,
    elem_one, elem_two, elem_three, ← byteOf_elem (mixColumn column r)]
  simp only [one_mul]
  obtain ⟨zeroth, one, two, three⟩ := cubic_coeff
    ((root + 1) * elem (column 0) + elem (column 1) + elem (column 2) + root * elem (column 3))
    (elem (column 0) + elem (column 1) + root * elem (column 2) - (root + 1) * elem (column 3))
    (elem (column 0) + root * elem (column 1) - (root + 1) * elem (column 2) - elem (column 3))
    (root * elem (column 0) - (root + 1) * elem (column 1) - elem (column 2) - elem (column 3))
  match r with
  | 0 => exact congrArg byteOf (first.trans zeroth.symm)
  | 1 => exact congrArg byteOf (second.trans one.symm)
  | 2 => exact congrArg byteOf (third.trans two.symm)
  | 3 => exact congrArg byteOf (fourth.trans three.symm)

end Columns

/-! ## The state -/

theorem bytesOf_stateOf (block : AesBlock) : Fips197.bytesOf (Fips197.stateOf block) = block := by
  funext i
  fin_cases i <;> rfl

theorem stateOf_subBytes (s : AesBlock) :
    Fips197.stateOf (subBytes s) = Fips197.subBytes (Fips197.stateOf s) := by
  funext r c
  exact sbox_eq _

theorem stateOf_shiftRows (s : AesBlock) :
    Fips197.stateOf (shiftRows s) = Fips197.shiftRows (Fips197.stateOf s) := by
  funext r c
  fin_cases r <;> fin_cases c <;> rfl

theorem place_of_byte : ∀ r c : Fin 4, (Fin.ofNat 16 (r.val + 4 * c.val)).val / 4 = c.val ∧
      (Fin.ofNat 16 (r.val + 4 * c.val)).val % 4 = r.val ∧
      Fin.ofNat 4 (Fin.ofNat 16 (r.val + 4 * c.val)).val = r := by
  decide

theorem stateOf_mixColumns (s : AesBlock) :
    Fips197.stateOf (mixColumns s) = Fips197.mixColumns (Fips197.stateOf s) := by
  funext r c
  have column : columnOf s c.val = fun r => Fips197.stateOf s r c := by
    funext r
    rw [columnOf, Fips197.stateOf, mul_comm, add_comm]
  obtain ⟨isColumn, -, isRow⟩ := place_of_byte r c
  rw [Fips197.stateOf, mixColumns, mapColumns, isColumn, isRow, column, mixColumn_eq,
    Fips197.mixColumns]

def wordBytes (word : U32) : Fips197.Word :=
  fun r => wordByte word r

theorem stateOf_addRoundKey {rk : List U32} {w : Nat → Fips197.Word} {round : Nat}
    (same : ∀ i < rk.length, wordBytes (rk.getD i 0) = w i) (within : 4 * round + 4 ≤ rk.length)
    (s : AesBlock) :
    Fips197.stateOf (addRoundKey rk round s) = Fips197.addRoundKey w round (Fips197.stateOf s) := by
  funext r c
  obtain ⟨isColumn, isRow, -⟩ := place_of_byte r c
  have word := congrFun (same (4 * round + c.val) (by omega)) r
  rw [Fips197.stateOf, addRoundKey, isColumn, isRow, mul_comm round, Fips197.addRoundKey,
    ← word]
  rfl

/-! ## Key expansion -/

theorem packWord_bits (b0 b1 b2 b3 : U8) {i : Nat} (index : i < 8) :
    (packWord b0 b1 b2 b3).getLsbD (24 + i) = b0.getLsbD i ∧
      (packWord b0 b1 b2 b3).getLsbD (16 + i) = b1.getLsbD i ∧
      (packWord b0 b1 b2 b3).getLsbD (8 + i) = b2.getLsbD i ∧
      (packWord b0 b1 b2 b3).getLsbD (0 + i) = b3.getLsbD i := by
  simp only [packWord, BitVec.getLsbD_or, BitVec.getLsbD_shiftLeft, BitVec.getLsbD_setWidth]
  grind

theorem wordBytes_packWord (b0 b1 b2 b3 : U8) :
    wordBytes (packWord b0 b1 b2 b3) = ![b0, b1, b2, b3] := by
  funext r
  refine BitVec.eq_of_getLsbD_eq fun i index => ?_
  obtain ⟨top, upper, lower, bottom⟩ := packWord_bits b0 b1 b2 b3 index
  rw [wordBytes, wordByte, BitVec.getLsbD_setWidth, decide_eq_true index, Bool.true_and,
    BitVec.getLsbD_ushiftRight]
  match r with
  | 0 => exact top
  | 1 => exact upper
  | 2 => exact lower
  | 3 => exact bottom

theorem wordBytes_xor (a b : U32) :
    wordBytes (a ^^^ b) = Fips197.xorWord (wordBytes a) (wordBytes b) := by
  funext r
  rw [wordBytes, wordByte, BitVec.ushiftRight_xor_distrib, BitVec.setWidth_xor]
  rfl

theorem wordBytes_rotSubWord (temp : U32) :
    wordBytes (rotSubWord temp) = Fips197.subWord (Fips197.rotWord (wordBytes temp)) := by
  rw [rotSubWord, wordBytes_packWord]
  simp only [sbox_eq]
  funext r
  fin_cases r <;> rfl

theorem wordBytes_subWord (temp : U32) :
    wordBytes (subWord temp) = Fips197.subWord (wordBytes temp) := by
  rw [subWord, wordBytes_packWord]
  simp only [sbox_eq]
  funext r
  fin_cases r <;> rfl

theorem wordBytes_constant (b : U8) : wordBytes (b.setWidth 32 <<< 24) = ![b, 0, 0, 0] := by
  have packed : (b.setWidth 32 <<< 24 : U32) = packWord b 0 0 0 := by
    rw [packWord]
    grind
  rw [packed, wordBytes_packWord]

theorem elem_rcon (i : Nat) (few : i < 10) : elem (rcon.getD (i + 1) 0) = root ^ i := by
  have doubles : ∀ i < 9, rcon.getD (i + 2) 0 = xtime (rcon.getD (i + 1) 0) := by
    decide
  induction i with
  | zero => exact elem_one
  | succ i ih =>
    rw [doubles i (by omega), elem_xtime, ih (by omega), pow_succ']

theorem wordBytes_rcon {i : Nat} (first : 1 ≤ i) (last : i ≤ 10) :
    wordBytes ((rcon.getD i 0).setWidth 32 <<< 24) = Fips197.rcon i := by
  have power := elem_rcon (i - 1) (by omega)
  rw [Nat.sub_add_cancel first] at power
  rw [wordBytes_constant, Fips197.rcon, ← power, byteOf_elem]

theorem readAt_ok {width i : Nat} {values : List (BitVec width)} (fault : AesFault)
    (less : i < values.length) :
    readAt fault values i = .ok (values.getD i 0) := by
  rw [readAt, List.getElem?_eq_getElem less, List.getD_eq_getElem _ _ less]

theorem storeRoundKey_ok {rk : List U32} (room : rk.length < 60) (word : U32) :
    storeRoundKey rk word = .ok (rk ++ [word]) := by
  rw [storeRoundKey, if_pos room]

theorem foldlM_append (step : List U32 → Nat → Except AesFault (List U32))
    (property : List U32 → Prop) (start count : Nat)
    (appends : ∀ rk, start ≤ rk.length → rk.length < start + count → property rk →
      ∃ word, step rk rk.length = .ok (rk ++ [word]) ∧ property (rk ++ [word]))
    {rk : List U32} (filled : rk.length = start) (holds : property rk) :
    ∃ final, (List.range' start count).foldlM step rk = .ok final ∧
      final.length = start + count ∧ property final := by
  induction count generalizing start rk with
  | zero => exact ⟨rk, rfl, filled, holds⟩
  | succ count ih =>
    obtain ⟨word, stepped, next⟩ := appends rk filled.ge (by omega) holds
    have nextFilled : (rk ++ [word]).length = start + 1 := by
      rw [List.length_append, filled, List.length_singleton]
    obtain ⟨final, run, length, last⟩ := ih (start + 1)
      (fun rk late early => appends rk (by omega) (by omega)) nextFilled next
    refine ⟨final, ?_, by omega, last⟩
    rw [List.range'_succ, List.foldlM_cons, ← filled, stepped, filled]
    exact run

section KeyExpansion

variable {size : Fips197.KeySize} {key : List U8}

/-- The round keys are the words of the key schedule. -/
def Expanded (size : Fips197.KeySize) (key : List U8) (rk : List U32) : Prop :=
  ∀ i < rk.length, wordBytes (rk.getD i 0) = Fips197.keySchedule size key i

theorem Expanded.append {rk : List U32} {word : U32} (expanded : Expanded size key rk)
    (next : wordBytes word = Fips197.keySchedule size key rk.length) :
    Expanded size key (rk ++ [word]) := by
  intro i less
  rw [List.length_append, List.length_singleton] at less
  obtain earlier | last := lt_or_eq_of_le (Nat.lt_succ_iff.mp less)
  · rw [List.getD_append _ _ _ _ earlier, expanded i earlier]
  · rw [last, List.getD_append_right _ _ _ _ (Nat.le_refl _), Nat.sub_self]
    exact next

theorem loadKeyWord_expands (isKey : key.length = 4 * size.nk) {rk : List U32}
    (early : rk.length < size.nk) (room : rk.length < 60) (expanded : Expanded size key rk) :
    ∃ word, loadKeyWord key rk rk.length = .ok (rk ++ [word]) ∧
      Expanded size key (rk ++ [word]) := by
  refine ⟨packWord (key.getD (4 * rk.length) 0) (key.getD (4 * rk.length + 1) 0)
    (key.getD (4 * rk.length + 2) 0) (key.getD (4 * rk.length + 3) 0), ?_, expanded.append ?_⟩
  · rw [loadKeyWord, readAt_ok _ (by omega), readAt_ok _ (by omega), readAt_ok _ (by omega),
      readAt_ok _ (by omega)]
    exact storeRoundKey_ok room _
  · rw [wordBytes_packWord, Fips197.keySchedule, if_pos early]
    funext r
    fin_cases r <;> rfl

theorem scheduleTemp_expands {i : Nat} (late : size.nk ≤ i) (within : i < 4 * (size.nr + 1))
    (temp : U32) :
    ∃ word, scheduleTemp size.nk i temp = .ok word ∧ wordBytes word = if i % size.nk = 0 then
          Fips197.xorWord (Fips197.subWord (Fips197.rotWord (wordBytes temp)))
            (Fips197.rcon (i / size.nk))
        else if 6 < size.nk ∧ i % size.nk = 4 then
          Fips197.subWord (wordBytes temp)
        else
          wordBytes temp := by
  have positive := size.nk_pos
  have first : 1 ≤ i / size.nk := (Nat.one_le_div_iff positive).mpr late
  have last : i / size.nk ≤ 10 := by
    cases size <;> simp only [Fips197.KeySize.nk, Fips197.KeySize.nr] at within ⊢ <;> omega
  rw [scheduleTemp, if_neg (ne_of_gt positive)]
  by_cases whole : i % size.nk = 0
  · rw [if_pos whole, if_pos whole, readAt_ok _ (Nat.lt_succ_of_le last)]
    refine ⟨_, rfl, ?_⟩
    rw [wordBytes_xor, wordBytes_rotSubWord, wordBytes_rcon first last]
  · rw [if_neg whole, if_neg whole]
    by_cases half : 6 < size.nk ∧ i % size.nk = 4
    · rw [if_pos half, if_pos half]
      exact ⟨_, rfl, wordBytes_subWord temp⟩
    · rw [if_neg half, if_neg half]
      exact ⟨_, rfl, rfl⟩

theorem expandKeyWord_expands {rk : List U32} (late : size.nk ≤ rk.length)
    (within : rk.length < 4 * (size.nr + 1)) (expanded : Expanded size key rk) :
    ∃ word, expandKeyWord size.nk rk rk.length = .ok (rk ++ [word]) ∧
      Expanded size key (rk ++ [word]) := by
  have positive := size.nk_pos
  have room : rk.length < 60 := by
    cases size <;> simp only [Fips197.KeySize.nr] at within <;> omega
  obtain ⟨temp, isTemp, tempBytes⟩ := scheduleTemp_expands late within (rk.getD (rk.length - 1) 0)
  refine ⟨rk.getD (rk.length - size.nk) 0 ^^^ temp, ?_, expanded.append ?_⟩
  · rw [expandKeyWord, if_neg (by omega), readAt_ok _ (by omega), readAt_ok _ (by omega)]
    change (scheduleTemp size.nk rk.length _ >>= _) = _
    rw [isTemp]
    exact storeRoundKey_ok room _
  · rw [wordBytes_xor, tempBytes, expanded _ (by omega), expanded _ (by omega)]
    conv_rhs => rw [Fips197.keySchedule, if_neg (not_lt.mpr late)]

theorem keyExpand_expands (isKey : key.length = 4 * size.nk) :
    ∃ rk, keyExpand key = .ok (rk, size.nr) ∧ rk.length = 4 * (size.nr + 1) ∧
      Expanded size key rk := by
  have isNk : key.length / 4 = size.nk := by omega
  have isNr : size.nk + 6 = size.nr := by cases size <;> rfl
  have few : size.nk ≤ 8 := by cases size <;> decide
  have atStart : Expanded size key [] := fun i less => absurd less (Nat.not_lt_zero i)
  obtain ⟨loaded, isLoaded, loadedLength, loadedWords⟩ :=
    foldlM_append (loadKeyWord key) (Expanded size key) 0 size.nk
      (fun rk _ early expanded => loadKeyWord_expands isKey (by omega) (by omega) expanded)
      (List.length_nil) atStart
  obtain ⟨rk, isRk, rkLength, rkWords⟩ :=
    foldlM_append (expandKeyWord size.nk) (Expanded size key) size.nk (4 * (size.nr + 1) - size.nk)
      (fun rk late early expanded => expandKeyWord_expands late (by omega) expanded)
      (loadedLength.trans (zero_add _)) loadedWords
  refine ⟨rk, ?_, by omega, rkWords⟩
  rw [keyExpand, isNk, isNr, List.range_eq_range', isLoaded]
  change ((List.range' size.nk (4 * (size.nr + 1) - size.nk)).foldlM (expandKeyWord size.nk) loaded
    >>= _) = _
  rw [isRk]
  rfl

end KeyExpansion

/-! ## Blocks -/

section Blocks

variable {size : Fips197.KeySize} {key : List U8} {rk : List U32}

theorem encryptRounds_conform (expanded : Expanded size key rk) {count : Nat}
    (within : 4 * count + 4 ≤ rk.length) (state : AesBlock) :
    Fips197.stateOf ((List.range' 1 count).foldl (encryptRound rk) state) =
      Fips197.rounds (Fips197.keySchedule size key) (Fips197.stateOf state) count := by
  induction count with
  | zero => rfl
  | succ count ih =>
    rw [List.range'_1_concat, List.foldl_append, List.foldl_cons, List.foldl_nil, encryptRound,
      stateOf_addRoundKey expanded (by omega), stateOf_mixColumns, stateOf_shiftRows,
      stateOf_subBytes, ih (by omega), add_comm 1 count, Fips197.rounds]

theorem aesBlockEncrypt_conforms (expanded : Expanded size key rk)
    (filled : rk.length = 4 * (size.nr + 1)) (block : AesBlock) :
    aesBlockEncrypt rk size.nr block = Fips197.cipher size key block := by
  rw [← bytesOf_stateOf (aesBlockEncrypt rk size.nr block), aesBlockEncrypt,
    stateOf_addRoundKey expanded (by omega), stateOf_shiftRows, stateOf_subBytes,
    encryptRounds_conform expanded (by omega), stateOf_addRoundKey expanded (by omega),
    Fips197.cipher]

/-- With the round keys of a key of one of the three sizes, a block is encrypted as the
standard says. -/
theorem keyExpand_cipher (size : Fips197.KeySize) (key : List U8) (isKey : key.length = 4 * size.nk)
    (block : AesBlock) :
    ∃ rk nr, keyExpand key = .ok (rk, nr) ∧
      aesBlockEncrypt rk nr block = Fips197.cipher size key block := by
  obtain ⟨rk, isRk, filled, expanded⟩ := keyExpand_expands isKey
  exact ⟨rk, size.nr, isRk, aesBlockEncrypt_conforms expanded filled block⟩

/-- A block of zeros under a key of 24 zeros. -/
theorem zeroKey_cipher :
    ∃ rk nr, keyExpand (List.replicate 24 0) = .ok (rk, nr) ∧
      aesBlockEncrypt rk nr (fun _ => 0) =
        Fips197.cipher .aes192 (List.replicate 24 0) fun _ => 0 :=
  keyExpand_cipher .aes192 (List.replicate 24 0) List.length_replicate _

end Blocks

end XKern
