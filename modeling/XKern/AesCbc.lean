import XKern.AesInverse
import XKern.BlockScan

namespace XKern

open BlockScan List BitVec

/-!
# Round trip of `MODE_CBC`

The loops over the blocks of a buffer are scans.  Encryption scans the blocks of the
plaintext and one more that holds its rest and the padding; decryption undoes that
scan, and the last byte says how many bytes the padding has.
-/

/-! ## Buffers and blocks -/

def blockBytes (blocks : List AesBlock) : List U8 :=
  blocks.flatMap ofFn

theorem length_blockBytes (blocks : List AesBlock) :
    (blockBytes blocks).length = 16 * blocks.length := by
  induction blocks with
  | nil => rfl
  | cons block blocks ih =>
    rw [blockBytes, flatMap_cons, length_append, ← blockBytes, ih, length_ofFn, length_cons]
    omega

theorem blockBytes_append (blocks later : List AesBlock) :
    blockBytes (blocks ++ later) = blockBytes blocks ++ blockBytes later :=
  flatMap_append

variable {before rest input out : List U8} {off : Nat} {blocks : List AesBlock}

theorem blockAt_append (atOff : before.length = off) (block : AesBlock) (after : List U8) :
    blockAt (before ++ ofFn block ++ after) off = block := by
  funext i
  have inBlock : off + i.val < (before ++ ofFn block).length := by
    rw [length_append, length_ofFn, atOff]
    omega
  rw [blockAt, getD_append _ _ _ _ inBlock,
    getD_append_right _ _ _ _ (by omega), atOff, Nat.add_sub_cancel_left,
    getD_eq_getElem _ _ (by rw [length_ofFn]; exact i.isLt), List.getElem_ofFn]

theorem writeBytes_append (atOff : before.length = off) {bytes after : List U8}
    (room : bytes.length ≤ after.length) :
    writeBytes (before ++ after) off bytes = .ok (before ++ bytes ++ after.drop bytes.length) := by
  rw [writeBytes, if_pos (by rw [length_append]; omega), ← atOff, take_left, drop_length_add_append]

theorem writeBlock_append (atOff : before.length = off) (block : AesBlock) {after : List U8}
    (room : 16 ≤ after.length) :
    writeBlock (before ++ after) off block = .ok (before ++ ofFn block ++ after.drop 16) := by
  rw [writeBlock, writeBytes_append atOff (by rw [length_ofFn]; exact room), length_ofFn]

theorem ofFn_blockAt {bytes : List U8} (sixteen : bytes.length = 16) :
    ofFn (blockAt bytes 0) = bytes := by
  refine ext_getElem (by rw [length_ofFn, sixteen]) fun i _ less => ?_
  rw [List.getElem_ofFn, blockAt, zero_add, getD_eq_getElem _ _ less]

/-- The full blocks of the input and what stands behind them. -/
structure Splits (input : List U8) (blocks : List AesBlock) (rest : List U8) : Prop where
  isInput : input = blockBytes blocks ++ rest
  isRest : rest.length = input.length % 16

theorem Splits.length (splits : Splits input blocks rest) :
    input.length = 16 * blocks.length + rest.length := by
  rw [splits.isInput, length_append, length_blockBytes]

theorem Splits.count (splits : Splits input blocks rest) : input.length / 16 = blocks.length := by
  have length := splits.length
  have isRest := splits.isRest
  omega

theorem exists_splits (input : List U8) : ∃ blocks rest, Splits input blocks rest := by
  refine ⟨(BlockStream.blocks 16 input).map (blockAt · 0), BlockStream.rest 16 input, ?_,
    BlockStream.length_rest input⟩
  have bytes : blockBytes ((BlockStream.blocks 16 input).map (blockAt · 0)) =
      (BlockStream.blocks 16 input).flatten := by
    rw [blockBytes, flatMap_map, flatMap_def]
    congr 1
    conv_rhs => rw [← map_id (BlockStream.blocks 16 input)]
    exact map_congr_left fun block member =>
      ofFn_blockAt (BlockStream.length_of_mem_blocks member)
  rw [bytes, ← BlockStream.blocks_front (by decide),
    BlockStream.flatten_blocks (by decide) (BlockStream.dvd_length_front input),
    BlockStream.front_append_rest]

/-! ## The loops -/

theorem blockLoop_eq (continues : Nat → Bool) (step : AesBlock → AesBlock → AesBlock × AesBlock)
    {done : List U8} (isInput : input = done ++ blockBytes blocks ++ rest)
    (isOff : done.length = off) (goesOn : ∀ count < blocks.length, continues (off + 16 * count))
    (stops : continues (off + 16 * blocks.length) = false) (before after : List U8)
    (atOff : before.length = off) (room : 16 * blocks.length ≤ after.length) (prev : AesBlock) :
    blockLoop continues step input off prev (before ++ after) =
      .ok (off + 16 * blocks.length, (scan step prev blocks).2,
        before ++ blockBytes (scan step prev blocks).1 ++ after.drop (16 * blocks.length)) := by
  induction blocks generalizing off done prev before after with
  | nil =>
    have stopsHere : continues off = false := stops
    rw [blockLoop, stopsHere]
    simp [scan, blockBytes]
  | cons block blocks ih =>
    rw [length_cons] at goesOn stops room
    have goesOnHere : continues off = true := goesOn 0 (by omega)
    have nextInput : input = (done ++ ofFn block) ++ blockBytes blocks ++ rest := by
      rw [isInput, blockBytes, flatMap_cons, ← blockBytes, ← List.append_assoc]
    have isBlock : blockAt input off = block := by
      rw [nextInput, List.append_assoc]
      exact blockAt_append isOff block _
    have inside : off + 16 ≤ input.length := by
      rw [nextInput, length_append, length_append, length_append, length_ofFn, isOff]
      omega
    have nextGoesOn : ∀ count < blocks.length, continues (off + 16 + 16 * count) := by
      intro count less
      have later := goesOn (count + 1) (by omega)
      rwa [Nat.mul_succ, add_comm (16 * count), ← add_assoc] at later
    have nextStops : continues (off + 16 + 16 * blocks.length) = false := by
      rwa [Nat.mul_succ, add_comm (16 * blocks.length), ← add_assoc] at stops
    have next := ih nextInput
      (by rw [length_append, length_ofFn, isOff]) nextGoesOn nextStops
      (before ++ ofFn (step prev block).1) (after.drop 16)
      (by rw [length_append, length_ofFn, atOff])
      (by rw [length_drop]; omega) (step prev block).2
    rw [blockLoop, goesOnHere, if_pos rfl, dif_pos inside, isBlock,
      writeBlock_append atOff _ (by omega)]
    dsimp only
    rw [next, scan, blockBytes, blockBytes, flatMap_cons, drop_drop, length_cons,
      Nat.mul_succ, List.append_assoc before, add_assoc off, add_comm 16]

theorem blockLoop_start (continues : Nat → Bool)
    (step : AesBlock → AesBlock → AesBlock × AesBlock)
    (isInput : input = blockBytes blocks ++ rest)
    (goesOn : ∀ count < blocks.length, continues (16 * count))
    (stops : continues (16 * blocks.length) = false) (room : 16 * blocks.length ≤ out.length)
    (prev : AesBlock) :
    blockLoop continues step input 0 prev out =
      .ok (16 * blocks.length, (scan step prev blocks).2,
        blockBytes (scan step prev blocks).1 ++ out.drop (16 * blocks.length)) := by
  have loop := blockLoop_eq continues step isInput length_nil
    (fun count less => (zero_add (16 * count)).symm ▸ goesOn count less)
    ((zero_add (16 * blocks.length)).symm ▸ stops) [] out length_nil room prev
  rwa [zero_add] at loop

theorem blockLoop_fullBlocks (step : AesBlock → AesBlock → AesBlock × AesBlock)
    (splits : Splits input blocks rest) (short : input.length < 2 ^ 32 - 16)
    (room : 16 * blocks.length ≤ out.length) (prev : AesBlock) :
    blockLoop (fullBlock input) step input 0 prev out =
      .ok (16 * blocks.length, (scan step prev blocks).2,
        blockBytes (scan step prev blocks).1 ++ out.drop (16 * blocks.length)) := by
  have length := splits.length
  have isRest := splits.isRest
  have goesOn : ∀ count < blocks.length, fullBlock input (16 * count) := by
    intro count less
    rw [fullBlock, decide_eq_true_iff]
    omega
  have stops : fullBlock input (16 * blocks.length) = false := by
    rw [fullBlock, decide_eq_false_iff_not]
    omega
  exact blockLoop_start (fullBlock input) step splits.isInput goesOn stops room prev

theorem blockLoop_allBlocks (step : AesBlock → AesBlock → AesBlock × AesBlock)
    (room : 16 * blocks.length ≤ out.length) (prev : AesBlock) :
    blockLoop (· < (blockBytes blocks).length) step (blockBytes blocks) 0 prev out =
      .ok (16 * blocks.length, (scan step prev blocks).2,
        blockBytes (scan step prev blocks).1 ++ out.drop (16 * blocks.length)) := by
  have length := length_blockBytes blocks
  exact blockLoop_start (· < (blockBytes blocks).length) step (append_nil (blockBytes blocks)).symm
    (fun count less => decide_eq_true (by omega)) (decide_eq_false (by omega)) room prev

theorem aesCiphertextLen_ofNat {length : Nat} (short : length < 2 ^ 32 - 16) :
    aesCiphertextLen (.ofNat 32 length) = .ofNat 32 (16 * (length / 16 + 1)) := by
  apply eq_of_toNat_eq
  simp only [aesCiphertextLen, toNat_mul, toNat_add, toNat_udiv, toNat_ofNat, reduceToNat]
  omega

/-! ## The two directions -/

/-- What `MODE_CBC` puts out for a block of plaintext, and the next `prev`. -/
def cbcEncryptStep (cipher : AesBlock → AesBlock) (prev block : AesBlock) : AesBlock × AesBlock :=
  (cipher (xorBlock block prev), cipher (xorBlock block prev))

/-- What `MODE_ECB` puts out for a block. -/
def ecbStep (cipher : AesBlock → AesBlock) (prev block : AesBlock) : AesBlock × AesBlock :=
  (cipher block, prev)

/-- What `MODE_CBC` puts out for a block of ciphertext, and the next `prev`. -/
def cbcDecryptStep (decipher : AesBlock → AesBlock)
    (prev block : AesBlock) : AesBlock × AesBlock :=
  (xorBlock (decipher block) prev, block)

theorem xorBlock_xorBlock (a b : AesBlock) : xorBlock (xorBlock a b) b = a := by
  funext i
  rw [xorBlock, xorBlock, xor_assoc, BitVec.xor_self, xor_zero]

/-- The last block of the plaintext: the rest and the padding. -/
def padBlock (rest : List U8) : AesBlock :=
  fun i => if i.val < rest.length then rest.getD i.val 0 else .ofNat 8 (16 - rest.length)

theorem ofFn_padBlock (short : rest.length < 16) : ofFn (padBlock rest) =
      rest ++ List.replicate (16 - rest.length) (.ofNat 8 (16 - rest.length)) := by
  refine ext_getElem (by simp; omega) fun i _ less => ?_
  rw [List.getElem_ofFn, padBlock]
  by_cases inRest : i < rest.length
  · rw [if_pos inRest, getD_eq_getElem _ _ inRest, getElem_append_left inRest]
  · rw [if_neg inRest, getElem_append_right (Nat.le_of_not_lt inRest), List.getElem_replicate]

theorem Splits.drop (splits : Splits input blocks rest) :
    input.drop (16 * blocks.length) = rest := by
  rw [splits.isInput, ← length_blockBytes, drop_left]

theorem cbcPadBlock_eq (splits : Splits input blocks rest) :
    cbcPadBlock input (16 * blocks.length) = .ok (padBlock rest) := by
  rw [cbcPadBlock, ← splits.isRest, readBytes, if_pos (le_of_eq splits.length.symm),
    splits.drop, take_length]
  rfl

/-- The block behind the last full one is stored as the next block of the scan. -/
theorem writeBlock_last (step : AesBlock → AesBlock → AesBlock × AesBlock)
    (room : 16 * (blocks.length + 1) ≤ out.length) (prev last : AesBlock) :
    writeBlock (blockBytes (scan step prev blocks).1 ++ out.drop (16 * blocks.length))
        (16 * blocks.length) (step (scan step prev blocks).2 last).1 =
      .ok (blockBytes (scan step prev (blocks ++ [last])).1 ++
        out.drop (16 * (blocks.length + 1))) := by
  rw [writeBlock_append (by rw [length_blockBytes, length_scan]) _
    (by rw [length_drop]; omega), scan_concat, blockBytes_append, drop_drop,
    Nat.mul_succ]
  simp only [blockBytes, flatMap_singleton]

section Modes

variable {ctx : AesCtx} (isCbc : ctx.mode = .cbc)

include isCbc

theorem aesEncrypt_cbc (splits : Splits input blocks rest) (short : input.length < 2 ^ 32 - 16)
    (room : 16 * (blocks.length + 1) ≤ out.length) :
    aesEncrypt ctx input out = .ok (BitVec.ofNat 32 (16 * (blocks.length + 1)),
      blockBytes (scan (cbcEncryptStep (aesBlockEncrypt ctx.rk ctx.nr)) ctx.iv
        (blocks ++ [padBlock rest])).1 ++ out.drop (16 * (blocks.length + 1))) := by
  have length := splits.length
  let step := cbcEncryptStep (aesBlockEncrypt ctx.rk ctx.nr)
  have loop := blockLoop_fullBlocks step splits short (Nat.le_of_add_right_le room) ctx.iv
  rw [aesEncrypt]
  dsimp only
  rw [aesCiphertextLen_ofNat short, splits.count, if_neg (by rw [toNat_ofNat]; omega), isCbc]
  dsimp only
  change (blockLoop (fullBlock input) step input 0 ctx.iv out >>= _) = _
  rw [loop]
  change (cbcPadBlock input (16 * blocks.length) >>= _) = _
  rw [cbcPadBlock_eq splits]
  change (writeBlock _ _ (step (scan step ctx.iv blocks).2 (padBlock rest)).1 >>= _) = _
  rw [writeBlock_last step room]
  rfl

omit isCbc in
/-- Whole blocks, in the two modes that work on them. -/
theorem aesDecrypt_blocks {step : AesBlock → AesBlock → AesBlock × AesBlock}
    (isStep : ctx.mode = .cbc ∧ step = cbcDecryptStep (aesBlockDecrypt ctx.rk ctx.nr) ∨
      ctx.mode = .ecb ∧ step = ecbStep (aesBlockDecrypt ctx.rk ctx.nr))
    (nonempty : 0 < blocks.length) (room : 16 * blocks.length ≤ out.length) :
    aesDecrypt ctx (blockBytes blocks) out =
      let back := blockBytes (scan step ctx.iv blocks).1 ++ out.drop (16 * blocks.length)
      .ok (.ofNat 32 (unpaddedLen back (16 * blocks.length)), back) := by
  have length := length_blockBytes blocks
  have loop := blockLoop_allBlocks step room ctx.iv
  rw [aesDecrypt]
  dsimp only
  rw [if_neg (by omega)]
  obtain ⟨mode, rfl⟩ | ⟨mode, rfl⟩ := isStep
  all_goals
    rw [mode]
    exact (congrArg (· >>= _) loop).trans rfl

end Modes

theorem unpaddedLen_padded (blocks : List AesBlock) (short : rest.length < 16) (after : List U8) :
    unpaddedLen (blockBytes (blocks ++ [padBlock rest]) ++ after) (16 * (blocks.length + 1)) =
      16 * blocks.length + rest.length := by
  have before : 16 * (blocks.length + 1) - 1 = (blockBytes blocks).length + 15 := by
    rw [length_blockBytes]
    omega
  have inBytes : 16 * (blocks.length + 1) - 1 <
      (blockBytes (blocks ++ [padBlock rest])).length := by
    rw [length_blockBytes, length_append, length_singleton]
    omega
  have lastByte : (blockBytes (blocks ++ [padBlock rest]) ++ after).getD
      (16 * (blocks.length + 1) - 1) 0 = .ofNat 8 (16 - rest.length) := by
    rw [getD_append _ _ _ _ inBytes, blockBytes_append, before,
      getD_append_right _ _ _ _ (Nat.le_add_right _ _), Nat.add_sub_cancel_left]
    exact if_neg (show ¬ 15 < rest.length by omega)
  rw [unpaddedLen, lastByte, toNat_ofNat, if_pos (by omega)]
  omega

theorem cbcDecryptStep_cbcEncryptStep (rk : List U32) (nr : Nat) (prev block : AesBlock) :
    cbcDecryptStep (aesBlockDecrypt rk nr) prev
        (cbcEncryptStep (aesBlockEncrypt rk nr) prev block).1 =
      (block, (cbcEncryptStep (aesBlockEncrypt rk nr) prev block).2) := by
  rw [cbcDecryptStep, cbcEncryptStep, aesBlockDecrypt_aesBlockEncrypt, xorBlock_xorBlock]

theorem take_padded {tail : List U8} (blocks : List AesBlock) (short : tail.length < 16)
    (after : List U8) :
    (blockBytes (blocks ++ [padBlock tail]) ++ after).take (16 * blocks.length + tail.length) =
      blockBytes blocks ++ tail := by
  have length : 16 * blocks.length + tail.length = (blockBytes blocks ++ tail).length := by
    rw [length_append, length_blockBytes]
  rw [length, blockBytes_append, blockBytes, blockBytes, flatMap_singleton,
    ofFn_padBlock short, ← blockBytes, ← List.append_assoc, List.append_assoc, take_left]

/-- A mode whose steps are undone gives back the blocks and the tail it has padded. -/
theorem padded_roundTrip {ctx : AesCtx} {step undo : AesBlock → AesBlock → AesBlock × AesBlock}
    (undoes : ∀ prev block, undo prev (step prev block).1 = (block, (step prev block).2))
    {tail back : List U8}
    (encrypts : aesEncrypt ctx input out = .ok (.ofNat 32 (16 * (blocks.length + 1)),
      blockBytes (scan step ctx.iv (blocks ++ [padBlock tail])).1 ++
        out.drop (16 * (blocks.length + 1))))
    (decrypts : ∀ {blocks : List AesBlock}, 0 < blocks.length → 16 * blocks.length ≤ back.length →
      aesDecrypt ctx (blockBytes blocks) back = let plain := (scan undo ctx.iv blocks).1
        let text := blockBytes plain ++ back.drop (16 * blocks.length)
        .ok (.ofNat 32 (unpaddedLen text (16 * blocks.length)), text))
    (short : tail.length < 16) (few : 16 * (blocks.length + 1) < 2 ^ 32)
    (roomBack : 16 * (blocks.length + 1) ≤ back.length) :
    ∃ total count ciphertext plaintext, aesEncrypt ctx input out = .ok (total, ciphertext) ∧
        total.toNat = 16 * (blocks.length + 1) ∧
        aesDecrypt ctx (ciphertext.take total.toNat) back = .ok (count, plaintext) ∧
        count.toNat = 16 * blocks.length + tail.length ∧
        plaintext.take count.toNat = blockBytes blocks ++ tail := by
  let cipherBlocks := (scan step ctx.iv (blocks ++ [padBlock tail])).1
  have cipherLength : cipherBlocks.length = blocks.length + 1 := by
    rw [length_scan, length_append, length_singleton]
  have undone : (scan undo ctx.iv cipherBlocks).1 = blocks ++ [padBlock tail] :=
    congrArg Prod.fst (scan_undo undoes ctx.iv _)
  have taken : (blockBytes cipherBlocks ++ out.drop (16 * (blocks.length + 1))).take
      (16 * (blocks.length + 1)) = blockBytes cipherBlocks := by
    rw [← cipherLength, ← length_blockBytes, take_left]
  have totalNat : (BitVec.ofNat 32 (16 * (blocks.length + 1))).toNat =
      16 * (blocks.length + 1) := by
    rw [toNat_ofNat, Nat.mod_eq_of_lt few]
  have countNat : (BitVec.ofNat 32 (16 * blocks.length + tail.length)).toNat =
      16 * blocks.length + tail.length := by
    rw [toNat_ofNat, Nat.mod_eq_of_lt (by omega)]
  refine ⟨_, .ofNat 32 (16 * blocks.length + tail.length), _,
    blockBytes (blocks ++ [padBlock tail]) ++ back.drop (16 * (blocks.length + 1)),
    encrypts, totalNat, ?_, countNat, ?_⟩
  · rw [totalNat, taken, decrypts (by omega) (by omega), undone, cipherLength]
    dsimp only
    rw [unpaddedLen_padded blocks short]
  · rw [countNat, take_padded blocks short]

theorem cbc_roundTrip {ctx : AesCtx} (isCbc : ctx.mode = .cbc) {back : List U8}
    (short : input.length < 2 ^ 32 - 16) (room : 16 * (input.length / 16 + 1) ≤ out.length)
    (roomBack : 16 * (input.length / 16 + 1) ≤ back.length) :
    ∃ total count ciphertext plaintext, aesEncrypt ctx input out = .ok (total, ciphertext) ∧
        total.toNat = 16 * (input.length / 16 + 1) ∧
        aesDecrypt ctx (ciphertext.take total.toNat) back = .ok (count, plaintext) ∧
        count.toNat = input.length ∧ plaintext.take count.toNat = input := by
  obtain ⟨blocks, rest, splits⟩ := exists_splits input
  have length := splits.length
  have isRest := splits.isRest
  rw [splits.count] at room roomBack ⊢
  have padded := padded_roundTrip (cbcDecryptStep_cbcEncryptStep ctx.rk ctx.nr)
    (aesEncrypt_cbc isCbc splits short room) (aesDecrypt_blocks (.inl ⟨isCbc, rfl⟩)) (by omega)
    (by omega) roomBack
  rwa [← length, ← splits.isInput] at padded

/-- Decryption with the same key and iv gives the plaintext back. -/
theorem cryptoAes_roundTrip (size : Fips197.KeySize) (key : List U8)
    (isKey : key.length = 4 * size.nk) (iv : Option (List U8)) (input out back : List U8)
    (short : input.length < 2 ^ 32 - 16) (room : 16 * (input.length / 16 + 1) ≤ out.length)
    (roomBack : 16 * (input.length / 16 + 1) ≤ back.length) :
    ∃ total count ciphertext plaintext,
      cryptoAesEncrypt key iv input out = .ok (total, ciphertext) ∧
        total.toNat = 16 * (input.length / 16 + 1) ∧
        cryptoAesDecrypt key iv (ciphertext.take total.toNat) back = .ok (count, plaintext) ∧
        count.toNat = input.length ∧ plaintext.take count.toNat = input := by
  obtain ⟨rk, isRk, -, -⟩ := keyExpand_expands isKey
  obtain ⟨ctx, isCtx, isCbc⟩ :
      ∃ ctx, aesInit (algorithmFor key) .cbc key iv = .ok ctx ∧ ctx.mode = .cbc := by
    refine ⟨{ rk := rk, nr := size.nr, mode := .cbc, iv := initialIv iv }, ?_, rfl⟩
    rw [aesInit, isRk]
    rfl
  rw [cryptoAesEncrypt, isCtx]
  simp only [cryptoAesDecrypt, isCtx]
  exact cbc_roundTrip isCbc short room roomBack

/-- Two bytes, padded to one block. -/
theorem twoBytes_roundTrip :
    ∃ total count ciphertext plaintext,
      cryptoAesEncrypt (List.replicate 16 7) none [1, 2] (List.replicate 16 0) =
          .ok (total, ciphertext) ∧
        total.toNat = 16 * (2 / 16 + 1) ∧
        cryptoAesDecrypt (List.replicate 16 7) none (ciphertext.take total.toNat)
          (List.replicate 16 0) = .ok (count, plaintext) ∧
        count.toNat = 2 ∧ plaintext.take count.toNat = [1, 2] :=
  cryptoAes_roundTrip .aes128 (List.replicate 16 7) length_replicate none [1, 2]
    (List.replicate 16 0) (List.replicate 16 0) (by decide) (by decide) (by decide)

end XKern
