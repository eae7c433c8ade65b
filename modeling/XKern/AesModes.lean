import XKern.AesCbc

namespace XKern

open BlockScan List

/-!
# Round trips of `MODE_ECB` and `MODE_CTR`

`MODE_ECB` encrypts zeros in place of the bytes behind the last full block, and
`MODE_CTR` leaves the length as it is, which `aes_decrypt` accepts only if it is a
multiple of 16.
-/

/-! ## `MODE_ECB` -/

/-- The stores to `pad_buf` and the reads for it stay inside their arrays. -/
def PadFits (input : List U8) : Prop :=
  input.length % 16 ≤ 8 ∧ 16 ≤ input.length + input.length % 16

theorem ecbPadBlock_of_fits {input : List U8} (fits : PadFits input) :
    ecbPadBlock input = .ok (padBlock (replicate (input.length % 16) 0)) := by
  obtain ⟨short, long⟩ := fits
  have isPad : padBlock (replicate (input.length % 16) 0) = fun i =>
      if i.val < input.length % 16 then 0 else .ofNat 8 (16 - input.length % 16) := by
    funext i
    rw [padBlock, length_replicate]
    split
    · rename_i inTail
      rw [getD_replicate _ inTail]
    · rfl
  rw [ecbPadBlock, isPad]
  dsimp only
  rw [readBytes, if_pos (by omega), if_neg (by omega), readBytes, if_pos (by omega)]
  rfl

theorem ecbPadBlock_of_not_fits {input : List U8} (unfit : ¬ PadFits input) :
    ∃ fault, ecbPadBlock input = .error fault := by
  rw [ecbPadBlock]
  dsimp only
  rw [readBytes, if_pos (by omega)]
  by_cases short : 16 < 2 * (input.length % 16)
  · rw [if_pos short]
    exact ⟨_, rfl⟩
  · have outside : ¬ 0 + (16 - input.length % 16) ≤ input.length := by
      intro inside
      exact unfit ⟨by omega, by omega⟩
    rw [if_neg short, readBytes, if_neg outside]
    exact ⟨_, rfl⟩

section Ecb

variable {ctx : AesCtx} (isEcb : ctx.mode = .ecb)

include isEcb

theorem aesEncrypt_ecb {input rest out : List U8} {blocks : List AesBlock}
    (splits : Splits input blocks rest) (short : input.length < 2 ^ 32 - 16)
    (room : 16 * (blocks.length + 1) ≤ out.length) :
    aesEncrypt ctx input out = (do
      let padBuf ← ecbPadBlock input
      return (.ofNat 32 (16 * (blocks.length + 1)),
        blockBytes (scan (ecbStep (aesBlockEncrypt ctx.rk ctx.nr)) ctx.iv (blocks ++ [padBuf])).1 ++
          out.drop (16 * (blocks.length + 1)))) := by
  have length := splits.length
  let step := ecbStep (aesBlockEncrypt ctx.rk ctx.nr)
  have loop := blockLoop_fullBlocks step splits short (Nat.le_of_add_right_le room) ctx.iv
  rw [aesEncrypt]
  dsimp only
  rw [aesCiphertextLen_ofNat short, splits.count, if_neg (by rw [BitVec.toNat_ofNat]; omega),
    isEcb]
  dsimp only
  congr 1
  funext padBuf
  change (blockLoop (fullBlock input) step input 0 ctx.iv out >>= _) = _
  rw [loop]
  change (writeBlock _ _ (step (scan step ctx.iv blocks).2 padBuf).1 >>= _) = _
  rw [writeBlock_last step room]
  rfl

end Ecb

theorem ecbStep_ecbStep (rk : List U32) (nr : Nat) (prev block : AesBlock) :
    ecbStep (aesBlockDecrypt rk nr) prev (ecbStep (aesBlockEncrypt rk nr) prev block).1 =
      (block, (ecbStep (aesBlockEncrypt rk nr) prev block).2) := by
  rw [ecbStep, ecbStep, aesBlockDecrypt_aesBlockEncrypt]

/-- `aes_decrypt` gives back what `aes_encrypt` was given. -/
def ContextRoundTrips (ctx : AesCtx) (input out back : List U8) : Prop :=
  ∃ total ciphertext count plaintext,
    aesEncrypt ctx input out = .ok (total, ciphertext) ∧
      aesDecrypt ctx (ciphertext.take total.toNat) back = .ok (count, plaintext) ∧
      count.toNat = input.length ∧ plaintext.take count.toNat = input

/-- The bytes behind the last full block are zeros, and there are enough bytes for
`pad_buf`. -/
def ZeroTail (input : List U8) : Prop :=
  PadFits input ∧ ∀ byte ∈ input.drop (input.length - input.length % 16), byte = 0

theorem ecb_roundTrips_iff {ctx : AesCtx} (isEcb : ctx.mode = .ecb) {input out back : List U8}
    (short : input.length < 2 ^ 32 - 16) (room : 16 * (input.length / 16 + 1) ≤ out.length)
    (roomBack : 16 * (input.length / 16 + 1) ≤ back.length) :
    ContextRoundTrips ctx input out back ↔ ZeroTail input := by
  obtain ⟨blocks, rest, splits⟩ := exists_splits input
  have length := splits.length
  have isRest := splits.isRest
  rw [splits.count] at room roomBack
  have behind : input.drop (input.length - input.length % 16) = rest := by
    rw [← isRest, length, Nat.add_sub_cancel, splits.drop]
  have encrypts := aesEncrypt_ecb isEcb splits short room
  rw [ZeroTail, behind]
  by_cases fits : PadFits input
  · rw [ecbPadBlock_of_fits fits, ← isRest] at encrypts
    obtain ⟨total, count, ciphertext, plaintext, isCiphertext, -, isPlaintext, isCount, isText⟩ :=
      padded_roundTrip (ecbStep_ecbStep ctx.rk ctx.nr) encrypts
        (aesDecrypt_blocks (.inr ⟨isEcb, rfl⟩))
        (by rw [length_replicate]; omega) (by omega) roomBack
    rw [length_replicate, ← length] at isCount
    have isZeros : rest = replicate rest.length 0 ↔ ∀ byte ∈ rest, byte = 0 :=
      ⟨fun same byte member => eq_of_mem_replicate (same ▸ member),
        fun zeros => eq_replicate_of_mem zeros⟩
    constructor
    · rintro ⟨_, _, _, _, sameCiphertext, samePlaintext, -, isInputText⟩
      rw [isCiphertext] at sameCiphertext
      obtain ⟨rfl, rfl⟩ := Prod.mk.inj (Except.ok.inj sameCiphertext)
      rw [isPlaintext] at samePlaintext
      obtain ⟨rfl, rfl⟩ := Prod.mk.inj (Except.ok.inj samePlaintext)
      rw [isText, splits.isInput] at isInputText
      exact ⟨fits, isZeros.mp (append_cancel_left isInputText).symm⟩
    · rintro ⟨-, zeros⟩
      rw [← isZeros.mpr zeros, ← splits.isInput] at isText
      exact ⟨total, ciphertext, count, plaintext, isCiphertext, isPlaintext, isCount, isText⟩
  · obtain ⟨fault, fails⟩ := ecbPadBlock_of_not_fits fits
    rw [fails] at encrypts
    constructor
    · rintro ⟨_, _, _, _, isCiphertext, -⟩
      rw [encrypts] at isCiphertext
      cases isCiphertext
    · rintro ⟨isFit, -⟩
      exact absurd isFit fits

/-! ## `MODE_CTR` -/

/-- The bytes of the keystream, from `counter` on. -/
def keystreamBytes (keystream : AesBlock → AesBlock) : Nat → AesBlock → List U8
  | 0, _ => []
  | count + 1, counter =>
      ofFn (keystream counter) ++ keystreamBytes keystream count (incrementFrom 16 counter)

theorem length_keystreamBytes (keystream : AesBlock → AesBlock) (count : Nat) (counter : AesBlock) :
    (keystreamBytes keystream count counter).length = 16 * count := by
  induction count generalizing counter with
  | zero => rfl
  | succ count ih =>
    rw [keystreamBytes, length_append, length_ofFn, ih]
    omega

theorem xorBytes_xorBytes {bytes stream : List U8} (covered : bytes.length ≤ stream.length) :
    (bytes.zipWith (· ^^^ ·) stream).zipWith (· ^^^ ·) stream = bytes := by
  refine ext_getElem (by simp; omega) fun i _ _ => ?_
  rw [getElem_zipWith, getElem_zipWith, BitVec.xor_assoc, BitVec.xor_self, BitVec.xor_zero]

/-- A chunk takes its share of the keystream, and only the last one is short. -/
theorem xorBytes_append {first later block stream : List U8} (fits : first.length ≤ block.length)
    (lastIfShort : first.length = block.length ∨ later = []) :
    (first ++ later).zipWith (· ^^^ ·) (block ++ stream) =
      first.zipWith (· ^^^ ·) block ++ later.zipWith (· ^^^ ·) stream := by
  rcases lastIfShort with whole | rfl
  · exact zipWith_append whole
  · refine ext_getElem (by simp; omega) fun i _ _ => ?_
    simp only [append_nil, zipWith_nil_left, getElem_zipWith]
    rw [getElem_append_left]

theorem length_xorBlock {bytes : List U8} (short : bytes.length ≤ 16) (block : AesBlock) :
    (bytes.zipWith (· ^^^ ·) (ofFn block)).length = bytes.length := by
  rw [length_zipWith, length_ofFn]
  exact min_eq_left short

section Counter

variable (keystream : AesBlock → AesBlock) (counter : AesBlock) {input done : List U8} {off : Nat}

theorem counterLoop_step {first later before after : List U8}
    (isInput : input = done ++ (first ++ later))
    (firstLength : first.length = min 16 (first ++ later).length) (nonempty : 0 < first.length)
    (isOff : done.length = off) (atOff : before.length = off) (room : first.length ≤ after.length) :
    counterLoop keystream input off counter (before ++ after) =
      counterLoop keystream input (off + first.length) (incrementFrom 16 counter)
        (before ++ first.zipWith (· ^^^ ·) (ofFn (keystream counter)) ++
          after.drop first.length) := by
  have length : input.length = off + (first ++ later).length := by
    rw [isInput, length_append, isOff]
  have inside : off < input.length := by
    rw [length, length_append]
    omega
  have atRest : input.drop off = first ++ later := by
    rw [isInput, ← isOff, drop_left]
  have chunk : (if 16 < input.length - off then 16 else input.length - off) = first.length := by
    rw [length, Nat.add_sub_cancel_left]
    split <;> omega
  have bytesLength := length_xorBlock (show first.length ≤ 16 by omega) (keystream counter)
  rw [counterLoop, dif_pos inside, chunk, atRest]
  dsimp only
  rw [take_left, writeBytes_append atOff (by omega), bytesLength]

theorem counterLoop_eq (count : Nat) (before after : List U8) {rest : List U8}
    (isInput : input = done ++ rest) (isOff : done.length = off) (atOff : before.length = off)
    (covered : rest.length ≤ 16 * count) (room : rest.length ≤ after.length) :
    counterLoop keystream input off counter (before ++ after) =
      .ok (before ++ rest.zipWith (· ^^^ ·) (keystreamBytes keystream count counter) ++
        after.drop rest.length) := by
  induction count generalizing counter done rest before after off with
  | zero =>
    have isNil : rest = [] := eq_nil_of_length_eq_zero (by omega)
    subst isNil
    rw [counterLoop, dif_neg (by rw [isInput, length_append, length_nil]; omega)]
    simp
  | succ count ih =>
    by_cases nonempty : 0 < rest.length
    · obtain ⟨first, later, rfl, firstLength⟩ :
          ∃ first later, rest = first ++ later ∧ first.length = min 16 rest.length :=
        ⟨rest.take 16, rest.drop 16, (take_append_drop 16 rest).symm, length_take⟩
      have bytesLength := length_xorBlock (show first.length ≤ 16 by omega) (keystream counter)
      have lastIfShort : first.length = (ofFn (keystream counter)).length ∨ later = [] := by
        rw [length_ofFn]
        rw [length_append] at firstLength
        by_cases whole : first.length = 16
        · exact .inl whole
        · exact .inr (eq_nil_of_length_eq_zero (by omega))
      have fits : first.length ≤ (ofFn (keystream counter)).length := by
        rw [length_ofFn]
        omega
      rw [counterLoop_step keystream counter isInput firstLength (by omega) isOff atOff (by omega)]
      rw [length_append] at covered room firstLength
      rw [ih (incrementFrom 16 counter)
        (before ++ first.zipWith (· ^^^ ·) (ofFn (keystream counter)))
        (after.drop first.length) (isInput.trans (append_assoc _ _ _).symm)
        (by rw [length_append, isOff]) (by rw [length_append, atOff, bytesLength])
        (by omega) (by rw [length_drop]; omega), keystreamBytes,
        xorBytes_append fits lastIfShort, List.drop_drop, length_append]
      simp only [append_assoc]
    · have isNil : rest = [] := eq_nil_of_length_eq_zero (by omega)
      subst isNil
      rw [counterLoop, dif_neg (by rw [isInput, length_append, length_nil]; omega)]
      simp

end Counter

/-- `in` with the keystream of `ctx` added to it. -/
def counterText (ctx : AesCtx) (input : List U8) : List U8 :=
  input.zipWith (· ^^^ ·)
    (keystreamBytes (aesBlockEncrypt ctx.rk ctx.nr) input.length ctx.iv)

theorem length_counterText (ctx : AesCtx) (input : List U8) :
    (counterText ctx input).length = input.length := by
  rw [counterText, length_zipWith, length_keystreamBytes]
  omega

theorem counterText_counterText (ctx : AesCtx) (input : List U8) :
    counterText ctx (counterText ctx input) = input := by
  have covered : input.length ≤ (keystreamBytes (aesBlockEncrypt ctx.rk ctx.nr) input.length
      ctx.iv).length := by
    rw [length_keystreamBytes]
    omega
  conv_lhs => rw [counterText, length_counterText, counterText]
  exact xorBytes_xorBytes covered

theorem counterLoop_counterText (ctx : AesCtx) {input out : List U8}
    (room : input.length ≤ out.length) :
    counterLoop (aesBlockEncrypt ctx.rk ctx.nr) input 0 ctx.iv out =
      .ok (counterText ctx input ++ out.drop input.length) :=
  counterLoop_eq (aesBlockEncrypt ctx.rk ctx.nr) ctx.iv input.length [] out
    (nil_append input).symm rfl rfl (by omega) room

section Ctr

variable {ctx : AesCtx} (isCtr : ctx.mode = .ctr)

include isCtr

theorem aesEncrypt_ctr {input out : List U8} (short : input.length < 2 ^ 32 - 16)
    (room : 16 * (input.length / 16 + 1) ≤ out.length) :
    aesEncrypt ctx input out =
      .ok (.ofNat 32 input.length, counterText ctx input ++ out.drop input.length) := by
  rw [aesEncrypt]
  dsimp only
  rw [aesCiphertextLen_ofNat short, if_neg (by rw [BitVec.toNat_ofNat]; omega), isCtr]
  dsimp only
  rw [counterLoop_counterText ctx (by omega)]
  rfl

theorem aesDecrypt_ctr {input out : List U8} (nonempty : 0 < input.length)
    (whole : input.length % 16 = 0) (room : input.length ≤ out.length) :
    aesDecrypt ctx input out =
      .ok (.ofNat 32 input.length, counterText ctx input ++ out.drop input.length) := by
  rw [aesDecrypt]
  dsimp only
  rw [if_neg (by omega), isCtr]
  dsimp only
  rw [counterLoop_counterText ctx room]
  rfl

end Ctr

theorem ctr_roundTrips_iff {ctx : AesCtx} (isCtr : ctx.mode = .ctr) {input out back : List U8}
    (nonempty : 0 < input.length) (short : input.length < 2 ^ 32 - 16)
    (room : 16 * (input.length / 16 + 1) ≤ out.length)
    (roomBack : 16 * (input.length / 16 + 1) ≤ back.length) :
    ContextRoundTrips ctx input out back ↔ input.length % 16 = 0 := by
  have encrypts := aesEncrypt_ctr isCtr short room
  have isLength : (BitVec.ofNat 32 input.length).toNat = input.length := by
    rw [BitVec.toNat_ofNat]
    omega
  have taken : (counterText ctx input ++ out.drop input.length).take input.length =
      counterText ctx input :=
    take_left' (length_counterText ctx input)
  constructor
  · rintro ⟨_, _, count, _, isCiphertext, isPlaintext, isCount, -⟩
    rw [encrypts] at isCiphertext
    obtain ⟨rfl, rfl⟩ := Prod.mk.inj (Except.ok.inj isCiphertext)
    rw [isLength, taken] at isPlaintext
    by_contra notWhole
    -- the ciphertext is as long as the plaintext, and is refused
    rw [aesDecrypt] at isPlaintext
    dsimp only at isPlaintext
    rw [length_counterText, if_pos (.inr notWhole)] at isPlaintext
    obtain ⟨rfl, -⟩ := Prod.mk.inj (Except.ok.inj isPlaintext)
    have zero : (0 : U32).toNat = 0 := rfl
    omega
  · intro whole
    have length := length_counterText ctx input
    refine ⟨_, _, _, counterText ctx (counterText ctx input) ++ back.drop input.length, encrypts,
      ?_, isLength, ?_⟩
    · rw [isLength, taken, aesDecrypt_ctr isCtr (by omega) (by omega) (by omega), length]
    · rw [isLength, counterText_counterText, take_left]

/-! ## Both modes -/

/-- A context of `aes_init` for which `aes_decrypt` gives back what `aes_encrypt` was
given. -/
def RoundTrips (algorithm : CipherAlgorithm) (mode : AesMode) (key : List U8)
    (iv : Option (List U8))
    (input out back : List U8) : Prop :=
  ∃ ctx, aesInit algorithm mode key iv = .ok ctx ∧ ContextRoundTrips ctx input out back

theorem roundTrips_iff {size : Fips197.KeySize} {key : List U8} (isKey : key.length = 4 * size.nk)
    (algorithm : CipherAlgorithm) (mode : AesMode) (iv : Option (List U8))
    (input out back : List U8) :
    ∃ ctx, ctx.mode = mode ∧
      (RoundTrips algorithm mode key iv input out back ↔ ContextRoundTrips ctx input out back) := by
  obtain ⟨rk, isRk, -, -⟩ := keyExpand_expands isKey
  let ctx : AesCtx := { rk := rk, nr := size.nr, mode := mode, iv := initialIv iv }
  have isCtx : aesInit algorithm mode key iv = .ok ctx := by
    rw [aesInit, isRk]
    rfl
  refine ⟨ctx, rfl, ?_, fun roundTrips => ⟨ctx, isCtx, roundTrips⟩⟩
  rintro ⟨other, isOther, roundTrips⟩
  rw [isCtx] at isOther
  cases isOther
  exact roundTrips

/-- `MODE_ECB` keeps the plaintext exactly if what stands behind its last full block is
zeros, `MODE_CTR` exactly if nothing stands there. -/
theorem modes_roundTrip_iff (size : Fips197.KeySize) (key : List U8)
    (isKey : key.length = 4 * size.nk) (algorithm : CipherAlgorithm) (iv : Option (List U8))
    (input out back : List U8) (nonempty : 0 < input.length) (short : input.length < 2 ^ 32 - 16)
    (room : 16 * (input.length / 16 + 1) ≤ out.length)
    (roomBack : 16 * (input.length / 16 + 1) ≤ back.length) :
    (RoundTrips algorithm .ecb key iv input out back ↔ ZeroTail input) ∧
      (RoundTrips algorithm .ctr key iv input out back ↔ input.length % 16 = 0) := by
  obtain ⟨ecb, isEcb, ecbRoundTrips⟩ := roundTrips_iff isKey algorithm .ecb iv input out back
  obtain ⟨ctr, isCtr, ctrRoundTrips⟩ := roundTrips_iff isKey algorithm .ctr iv input out back
  rw [ecbRoundTrips, ctrRoundTrips]
  exact ⟨ecb_roundTrips_iff isEcb short room roomBack,
    ctr_roundTrips_iff isCtr nonempty short room roomBack⟩

/-- One block of ones. -/
theorem oneBlock_roundTrip_iff :
    (RoundTrips .aes128 .ecb (List.replicate 16 7) none (List.replicate 16 1)
        (List.replicate 32 0) (List.replicate 32 0) ↔ ZeroTail (List.replicate 16 1)) ∧
      (RoundTrips .aes128 .ctr (List.replicate 16 7) none (List.replicate 16 1)
        (List.replicate 32 0) (List.replicate 32 0) ↔
          (List.replicate 16 (1 : U8)).length % 16 = 0) :=
  modes_roundTrip_iff .aes128 (replicate 16 7) length_replicate .aes128 none
    (replicate 16 1) (replicate 32 0) (replicate 32 0) (by decide) (by decide)
    (by decide) (by decide)

/-- In `MODE_ECB` the byte behind a full block comes back as zero, and in `MODE_CTR` a
plaintext of one byte is not decrypted. -/
theorem oneByteMore_lost :
    ¬ RoundTrips .aes128 .ecb (List.replicate 16 7) none (List.replicate 16 0 ++ [1])
        (List.replicate 32 0) (List.replicate 32 0) ∧
      ¬ RoundTrips .aes128 .ctr (List.replicate 16 7) none [1] (List.replicate 16 0)
        (List.replicate 16 0) := by
  have isKey : (replicate 16 (7 : U8)).length = 4 * Fips197.KeySize.aes128.nk := length_replicate
  constructor
  · obtain ⟨ctx, isEcb, roundTrips⟩ := roundTrips_iff isKey .aes128 .ecb none
      (replicate 16 0 ++ [1]) (replicate 32 0) (replicate 32 0)
    rw [roundTrips, ecb_roundTrips_iff isEcb (by decide) (by decide) (by decide)]
    rintro ⟨-, zeros⟩
    exact absurd (zeros 1 (by decide)) (by decide)
  · obtain ⟨ctx, isCtr, roundTrips⟩ := roundTrips_iff isKey .aes128 .ctr none
      [1] (replicate 16 0) (replicate 16 0)
    rw [roundTrips, ctr_roundTrips_iff isCtr (by decide) (by decide) (by decide) (by decide)]
    decide

end XKern
