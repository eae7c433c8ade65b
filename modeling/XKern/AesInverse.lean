import XKern.AesConforms

namespace XKern

open ByteField

/-!
# Decryption of a block

Each transformation of the state is undone by its inverse, so that the rounds of
`aes_block_decrypt`, in their order, undo those of `aes_block_encrypt`, whatever
the round keys are.
-/

theorem addRoundKey_addRoundKey (rk : List U32) (round : Nat) (state : AesBlock) :
    addRoundKey rk round (addRoundKey rk round state) = state := by
  funext i
  rw [addRoundKey, addRoundKey, BitVec.xor_assoc, BitVec.xor_self, BitVec.xor_zero]

theorem invSbox_sbox : ∀ b : U8, lookupByte invSbox (lookupByte sbox b) = b := by
  decide +kernel

theorem subBytesInv_subBytes (state : AesBlock) : subBytesInv (subBytes state) = state := by
  funext i
  exact invSbox_sbox (state i)

theorem shiftRowsInv_shiftRows (state : AesBlock) : shiftRowsInv (shiftRows state) = state := by
  funext i
  fin_cases i <;> rfl

/-! ## Columns -/

theorem elem_factors : elem 0x0e = root ^ 3 + root ^ 2 + root ∧ elem 0x0b = root ^ 3 + root + 1 ∧
      elem 0x0d = root ^ 3 + root ^ 2 + 1 ∧ elem 0x09 = root ^ 3 + 1 := by
  have four : elem 0x04 = root ^ 2 := by
    have isXtime : (0x04 : U8) = xtime 0x02 := by decide
    rw [isXtime, elem_xtime, elem_two, sq]
  have eight : elem 0x08 = root ^ 3 := by
    have isXtime : (0x08 : U8) = xtime 0x04 := by decide
    rw [isXtime, elem_xtime, four, ← pow_succ']
  have fourteen : (0x0e : U8) = 0x08 ^^^ 0x04 ^^^ 0x02 := by decide
  have eleven : (0x0b : U8) = 0x08 ^^^ 0x02 ^^^ 0x01 := by decide
  have thirteen : (0x0d : U8) = 0x08 ^^^ 0x04 ^^^ 0x01 := by decide
  have nine : (0x09 : U8) = 0x08 ^^^ 0x01 := by decide
  refine ⟨?_, ?_, ?_, ?_⟩
  · rw [fourteen, elem_xor, elem_xor, eight, four, elem_two]
  · rw [eleven, elem_xor, elem_xor, eight, elem_two, elem_one]
  · rw [thirteen, elem_xor, elem_xor, eight, four, elem_one]
  · rw [nine, elem_xor, eight, elem_one]

theorem mixColumnInv_mixColumn (a : Fin 4 → U8) : mixColumnInv (mixColumn a) = a := by
  obtain ⟨first, second, third, fourth⟩ := elem_mixColumn a
  obtain ⟨fourteen, eleven, thirteen, nine⟩ := elem_factors
  have two := two_eq_zero
  funext r
  apply elem_injective
  -- the entries of the product of the two matrices are even but for a one in the diagonal
  match r with
  | 0 =>
    change elem (xmul _ 0x0e ^^^ xmul _ 0x0b ^^^ xmul _ 0x0d ^^^ xmul _ 0x09) = _
    rw [elem_xor, elem_xor, elem_xor, elem_xmul, elem_xmul, elem_xmul, elem_xmul, first, second,
      third, fourth, fourteen, eleven, thirteen, nine]
    linear_combination ((root ^ 4 + 2 * root ^ 3 + root ^ 2 + root + 1) * elem (a 0) + elem (a 1) -
        (root ^ 2 + root) * elem (a 2) -
        (2 * root ^ 3 + root ^ 2 + root + 1) * elem (a 3)) * two
  | 1 =>
    change elem (xmul _ 0x09 ^^^ xmul _ 0x0e ^^^ xmul _ 0x0b ^^^ xmul _ 0x0d) = _
    rw [elem_xor, elem_xor, elem_xor, elem_xmul, elem_xmul, elem_xmul, elem_xmul, first, second,
      third, fourth, fourteen, eleven, thirteen, nine]
    linear_combination ((root ^ 4 + 2 * root ^ 3 + root ^ 2 + 2 * root + 1) * elem (a 0) +
        (root ^ 3 + root ^ 2) * elem (a 1) - root ^ 3 * elem (a 2) -
        (root ^ 3 + root ^ 2 + root + 1) * elem (a 3)) * two
  | 2 =>
    change elem (xmul _ 0x0d ^^^ xmul _ 0x09 ^^^ xmul _ 0x0e ^^^ xmul _ 0x0b) = _
    rw [elem_xor, elem_xor, elem_xor, elem_xmul, elem_xmul, elem_xmul, elem_xmul, first, second,
      third, fourth, fourteen, eleven, thirteen, nine]
    linear_combination
      ((root ^ 4 + 2 * root ^ 3 + root ^ 2 + 2 * root + 1) * elem (a 0) + root * elem (a 1) -
        elem (a 2) - (2 * root ^ 3 + root ^ 2 + 1) * elem (a 3)) * two
  | 3 =>
    change elem (xmul _ 0x0b ^^^ xmul _ 0x0d ^^^ xmul _ 0x09 ^^^ xmul _ 0x0e) = _
    rw [elem_xor, elem_xor, elem_xor, elem_xmul, elem_xmul, elem_xmul, elem_xmul, first, second,
      third, fourth, fourteen, eleven, thirteen, nine]
    linear_combination ((root ^ 4 + 2 * root ^ 3 + 2 * root ^ 2 + root + 1) * elem (a 0) +
        root ^ 3 * elem (a 1) - (root ^ 3 + 1) * elem (a 2) -
        (root ^ 3 + root + 2) * elem (a 3)) * two

theorem mapColumns_mapColumns {f g : (Fin 4 → U8) → Fin 4 → U8} (undoes : ∀ a, g (f a) = a)
    (state : AesBlock) :
    mapColumns g (mapColumns f state) = state := by
  funext i
  have place : ∀ i : Fin 16, ∀ r : Fin 4,
      (Fin.ofNat 16 (i.val / 4 * 4 + r.val)).val / 4 = i.val / 4 ∧
        Fin.ofNat 4 (Fin.ofNat 16 (i.val / 4 * 4 + r.val)).val = r := by
    decide
  have column : columnOf (mapColumns f state) (i.val / 4) = f (columnOf state (i.val / 4)) := by
    funext r
    rw [columnOf, mapColumns, (place i r).1, (place i r).2]
  have back : ∀ i : Fin 16, Fin.ofNat 16 (i.val / 4 * 4 + (Fin.ofNat 4 i.val).val) = i := by
    decide
  rw [mapColumns, column, undoes, columnOf, back]

theorem mixColumnsInv_mixColumns (state : AesBlock) : mixColumnsInv (mixColumns state) = state :=
  mapColumns_mapColumns mixColumnInv_mixColumn state

/-! ## Rounds -/

theorem decryptRound_encryptRound (rk : List U32) (state : AesBlock) (i : Nat) :
    decryptRound rk (shiftRows (subBytes (encryptRound rk state i))) i =
      shiftRows (subBytes state) := by
  rw [decryptRound, shiftRowsInv_shiftRows, subBytesInv_subBytes, encryptRound,
    addRoundKey_addRoundKey, mixColumnsInv_mixColumns]

theorem decryptRounds_encryptRounds (rk : List U32) (rounds : List Nat) (state : AesBlock) :
    rounds.reverse.foldl (decryptRound rk)
        (shiftRows (subBytes (rounds.foldl (encryptRound rk) state))) =
      shiftRows (subBytes state) := by
  induction rounds generalizing state with
  | nil => rfl
  | cons round rounds ih =>
    rw [List.foldl_cons, List.reverse_cons, List.foldl_append, ih,
      List.foldl_cons, List.foldl_nil, decryptRound_encryptRound]

theorem aesBlockDecrypt_aesBlockEncrypt (rk : List U32) (nr : Nat) (block : AesBlock) :
    aesBlockDecrypt rk nr (aesBlockEncrypt rk nr block) = block := by
  rw [aesBlockDecrypt, aesBlockEncrypt, addRoundKey_addRoundKey, decryptRounds_encryptRounds,
    shiftRowsInv_shiftRows, subBytesInv_subBytes, addRoundKey_addRoundKey]

end XKern
