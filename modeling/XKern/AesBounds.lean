import XKern.AesModes
import XKern.FaultTriple

namespace XKern

open BlockScan FaultTriple List BitVec

/-!
# Bounds of the AES buffers

Which calls of `crypto_cipher.cpp` stay inside their arrays.  Key expansion does so
for 4 to 8 words of key.  Encryption is guarded by a length that wraps, and its
`MODE_ECB` reads and stores more than there is room for.  Decryption does not look at
the size of its output.
-/

/-- The call ends without an access outside an array and without a division by zero. -/
def Returns {Value : Type} (result : Except AesFault Value) : Prop :=
  ∃ value, result = .ok value

variable {Value : Type} {rk : List U32} {key out input : List U8} {i off : Nat}
  {algorithm : CipherAlgorithm} {iv : Option (List U8)}

theorem returns_ok (value : Value) : Returns (.ok value : Except AesFault Value) :=
  ⟨value, rfl⟩

theorem not_returns_error (fault : AesFault) :
    ¬ Returns (.error fault : Except AesFault Value) := by
  rintro ⟨value, isOk⟩
  cases isOk

/-! ## Key expansion -/

theorem exists_step_of_foldlM {Index : Type}
    {step : List U32 → Index → Except AesFault (List U32)} {indices : List Index}
    {final : List U32} (run : indices.foldlM step rk = .ok final) {i : Index}
    (member : i ∈ indices) :
    ∃ before after, step before i = .ok after := by
  induction indices generalizing rk with
  | nil => exact absurd member not_mem_nil
  | cons first indices ih =>
    rw [foldlM_cons] at run
    obtain ⟨next, stepped, rest⟩ := result_bind_eq_ok_iff.mp run
    rcases mem_cons.mp member with rfl | later
    · exact ⟨rk, next, stepped⟩
    · exact ih rest later

/-- A loop whose rounds append a word below the index 60 ends with at most 60 words. -/
theorem length_foldlM {Index : Type} {step : List U32 → Index → Except AesFault (List U32)}
    (appends : ∀ {rk i next}, step rk i = .ok next → next.length = rk.length + 1 ∧ rk.length < 60)
    {indices : List Index} {final : List U32} (few : rk.length ≤ 60)
    (run : indices.foldlM step rk = .ok final) :
    final.length = rk.length + indices.length ∧ final.length ≤ 60 := by
  induction indices generalizing rk with
  | nil =>
    cases run
    exact ⟨rfl, few⟩
  | cons first indices ih =>
    rw [foldlM_cons] at run
    obtain ⟨next, stepped, rest⟩ := result_bind_eq_ok_iff.mp run
    obtain ⟨nextLength, room⟩ := appends stepped
    obtain ⟨length, bound⟩ := ih (by omega) rest
    exact ⟨by rw [length_cons]; omega, bound⟩

theorem storeRoundKey_eq_ok {next : List U32} {word : U32}
    (stored : storeRoundKey rk word = .ok next) :
    next.length = rk.length + 1 ∧ rk.length < 60 := by
  rw [storeRoundKey] at stored
  split at stored
  · rename_i room
    cases stored
    exact ⟨by rw [length_append, length_singleton], room⟩
  · cases stored

theorem loadKeyWord_eq_ok {next : List U32} (loaded : loadKeyWord key rk i = .ok next) :
    next.length = rk.length + 1 ∧ rk.length < 60 := by
  rw [loadKeyWord] at loaded
  obtain ⟨b0, -, loaded⟩ := result_bind_eq_ok_iff.mp loaded
  obtain ⟨b1, -, loaded⟩ := result_bind_eq_ok_iff.mp loaded
  obtain ⟨b2, -, loaded⟩ := result_bind_eq_ok_iff.mp loaded
  obtain ⟨b3, -, loaded⟩ := result_bind_eq_ok_iff.mp loaded
  exact storeRoundKey_eq_ok loaded

theorem expandKeyWord_eq_ok {nk : Nat} {next : List U32}
    (expanded : expandKeyWord nk rk i = .ok next) :
    (next.length = rk.length + 1 ∧ rk.length < 60) ∧ i ≠ 0 ∧
      ∃ previous temp, scheduleTemp nk i previous = .ok temp := by
  rw [expandKeyWord] at expanded
  split at expanded
  · cases expanded
  · rename_i nonzero
    obtain ⟨previous, -, expanded⟩ := result_bind_eq_ok_iff.mp expanded
    obtain ⟨temp, isTemp, expanded⟩ := result_bind_eq_ok_iff.mp expanded
    obtain ⟨first, -, expanded⟩ := result_bind_eq_ok_iff.mp expanded
    exact ⟨storeRoundKey_eq_ok expanded, nonzero, previous, temp, isTemp⟩

theorem scheduleTemp_eq_ok {nk : Nat} {previous temp : U32}
    (isTemp : scheduleTemp nk i previous = .ok temp) (whole : i % nk = 0) :
    i / nk < 11 := by
  rw [scheduleTemp, if_pos whole] at isTemp
  split at isTemp
  · cases isTemp
  · obtain ⟨constant, isConstant, -⟩ := result_bind_eq_ok_iff.mp isTemp
    by_contra large
    have outside : rcon[i / nk]? = none := List.getElem?_eq_none (Nat.le_of_not_lt large)
    rw [readAt, outside] at isConstant
    cases isConstant

theorem scheduleTemp_returns {nk : Nat} (positive : 0 < nk) (below : i / nk < 11) (previous : U32) :
    ∃ temp, scheduleTemp nk i previous = .ok temp := by
  rw [scheduleTemp, if_neg (ne_of_gt positive)]
  split
  · rw [readAt_ok _ below]
    exact ⟨_, rfl⟩
  · split
    · exact ⟨_, rfl⟩
    · exact ⟨_, rfl⟩

/-- The lengths of a key with which `key_expand` stays inside its arrays. -/
def KeyFits (key : List U8) : Prop :=
  16 ≤ key.length ∧ key.length < 36

theorem keyExpand_of_fits (fits : KeyFits key) : Returns (keyExpand key) := by
  obtain ⟨long, short⟩ := fits
  obtain ⟨loaded, isLoaded, loadedLength, -⟩ :=
    foldlM_append (loadKeyWord key) (fun _ => True) 0 (key.length / 4) (fun rk _ early _ => by
        rw [loadKeyWord, readAt_ok _ (by omega), readAt_ok _ (by omega), readAt_ok _ (by omega),
          readAt_ok _ (by omega)]
        exact ⟨_, storeRoundKey_ok (by omega) _, trivial⟩)
      length_nil trivial
  obtain ⟨rk, isRk, -, -⟩ :=
    foldlM_append (expandKeyWord (key.length / 4)) (fun _ => True) (key.length / 4)
      (4 * (key.length / 4 + 6 + 1) - key.length / 4)
      (fun rk late early _ => by
        have below : rk.length / (key.length / 4) < 11 :=
          (Nat.div_lt_iff_lt_mul (by omega)).mpr (by omega)
        obtain ⟨temp, isTemp⟩ := scheduleTemp_returns (by omega) below (rk.getD (rk.length - 1) 0)
        rw [expandKeyWord, if_neg (by omega), readAt_ok _ (by omega), readAt_ok _ (by omega)]
        change ∃ word, (scheduleTemp (key.length / 4) rk.length _ >>= _) = _ ∧ _
        rw [isTemp]
        exact ⟨_, storeRoundKey_ok (by omega) _, trivial⟩)
      (loadedLength.trans (zero_add _)) trivial
  refine ⟨(rk, key.length / 4 + 6), ?_⟩
  rw [keyExpand, range_eq_range', isLoaded]
  change (foldlM (expandKeyWord (key.length / 4)) loaded _ >>= _) = _
  rw [isRk]
  rfl

theorem fits_of_keyExpand (returns : Returns (keyExpand key)) : KeyFits key := by
  obtain ⟨final, returns⟩ := returns
  rw [keyExpand] at returns
  obtain ⟨loaded, isLoaded, returns⟩ := result_bind_eq_ok_iff.mp returns
  obtain ⟨rk, isRk, -⟩ := result_bind_eq_ok_iff.mp returns
  obtain ⟨loadedLength, loadedFew⟩ := length_foldlM loadKeyWord_eq_ok
    (show ([] : List U32).length ≤ 60 by decide) isLoaded
  obtain ⟨rkLength, rkFew⟩ := length_foldlM (fun stepped => (expandKeyWord_eq_ok stepped).1)
    loadedFew isRk
  rw [length_nil, length_range] at loadedLength
  rw [length_range'] at rkLength
  have rounds {i : Nat} (late : key.length / 4 ≤ i) (early : i < 4 * (key.length / 4 + 6 + 1)) :
      i ≠ 0 ∧ (i % (key.length / 4) = 0 → i / (key.length / 4) < 11) := by
    obtain ⟨before, after, stepped⟩ := exists_step_of_foldlM isRk
      (mem_range'_1.mpr ⟨late, by omega⟩)
    obtain ⟨-, nonzero, previous, temp, isTemp⟩ := expandKeyWord_eq_ok stepped
    exact ⟨nonzero, scheduleTemp_eq_ok isTemp⟩
  refine ⟨?_, by omega⟩
  by_contra short
  -- with less than 4 words of key, some round asks for `rcon[11]`
  have nonzero := (rounds (le_refl _) (by omega)).1
  have eleven := (rounds (show key.length / 4 ≤ 11 * (key.length / 4) by omega) (by omega)).2
    (Nat.mul_mod_left 11 _)
  rw [Nat.mul_div_cancel _ (Nat.pos_of_ne_zero nonzero)] at eleven
  exact lt_irrefl 11 eleven

theorem aesInit_returns_iff (algorithm : CipherAlgorithm) (mode : AesMode) (key : List U8)
    (iv : Option (List U8)) :
    Returns (aesInit algorithm mode key iv) ↔ KeyFits key := by
  constructor
  · rintro ⟨ctx, isCtx⟩
    rw [aesInit] at isCtx
    obtain ⟨expanded, isExpanded, -⟩ := result_bind_eq_ok_iff.mp isCtx
    exact fits_of_keyExpand ⟨expanded, isExpanded⟩
  · intro fits
    obtain ⟨expanded, isExpanded⟩ := keyExpand_of_fits fits
    rw [aesInit, isExpanded]
    exact ⟨_, rfl⟩

theorem aesInit_mode {mode : AesMode} {ctx : AesCtx}
    (isCtx : aesInit algorithm mode key iv = .ok ctx) :
    ctx.mode = mode := by
  rw [aesInit] at isCtx
  obtain ⟨expanded, -, isCtx⟩ := result_bind_eq_ok_iff.mp isCtx
  cases isCtx
  rfl

/-! ## Loops -/

theorem writeBytes_eq_ok {next bytes : List U8} (written : writeBytes out off bytes = .ok next) :
    off + bytes.length ≤ out.length ∧ next.length = out.length := by
  rw [writeBytes] at written
  split at written
  · rename_i room
    cases written
    refine ⟨room, ?_⟩
    rw [length_append, length_append, length_take, length_drop]
    omega
  · cases written

theorem blockLoop_eq_ok {continues : Nat → Bool}
    {step : AesBlock → AesBlock → AesBlock × AesBlock} {next : List U8} {last : Nat}
    {prev final : AesBlock}
    (run : blockLoop continues step input off prev out = .ok (last, final, next))
    (inside : off ≤ out.length) :
    continues last = false ∧ last ≤ out.length := by
  fun_induction blockLoop continues step input off prev out with
  | case1 off prev out goesOn full written isWritten ih =>
    obtain ⟨room, length⟩ := writeBytes_eq_ok isWritten
    rw [length_ofFn] at room
    rw [length] at ih
    exact ih run room
  | case2 => cases run
  | case3 => cases run
  | case4 off prev out stops =>
    cases run
    exact ⟨by simpa using stops, inside⟩

/-- With a plaintext of almost 4 GiB the end of the next block wraps, and the loop goes on
until it reads outside `in`. -/
theorem blockLoop_wraps (step : AesBlock → AesBlock → AesBlock × AesBlock)
    (long : 2 ^ 32 - 16 ≤ input.length) (isLen : input.length < 2 ^ 32) (count : Nat)
    (low : 16 * count ≤ 2 ^ 32 - 16) (prev : AesBlock) (out : List U8) :
    ¬ Returns (blockLoop (fullBlock input) step input (16 * count) prev out) := by
  have goesOn : fullBlock input (16 * count) = true := by
    rw [fullBlock, decide_eq_true_iff]
    omega
  rw [blockLoop, goesOn, if_pos rfl]
  split
  · rename_i full
    split
    · rename_i written _
      have next := blockLoop_wraps step long isLen (count + 1) (by omega)
        (step prev (blockAt input (16 * count))).2 written
      rwa [Nat.mul_succ] at next
    · exact not_returns_error _
  · exact not_returns_error _
termination_by 2 ^ 32 - 16 * count

theorem counterLoop_eq_ok {keystream : AesBlock → AesBlock} {next : List U8} {counter : AesBlock}
    (run : counterLoop keystream input off counter out = .ok next) (inside : off ≤ out.length) :
    input.length ≤ out.length := by
  fun_induction counterLoop keystream input off counter out with
  | case1 off counter out goesOn chunk bytes written isWritten ih =>
    obtain ⟨room, length⟩ := writeBytes_eq_ok isWritten
    have bytesLength : bytes.length = chunk := by
      rw [length_zipWith, length_take, length_drop, length_ofFn]
      grind
    rw [length] at ih
    exact ih run (bytesLength ▸ room)
  | case2 => cases run
  | case3 off counter out stops => omega

/-! ## Encryption and decryption -/

/-- When `aes_encrypt` stays inside its arrays. -/
def EncryptFits (mode : AesMode) (input out : List U8) : Prop :=
  match mode with
  | .ecb =>
      input.length < 2 ^ 32 - 16 ∧ (out.length < 16 * (input.length / 16 + 1) ∨ PadFits input)
  | .cbc => input.length < 2 ^ 32 - 16
  | .ctr => input.length < 2 ^ 32 - 16 ∨ input.length ≤ out.length
  | .other => True

/-- When `aes_decrypt` stays inside its arrays. -/
def DecryptFits (mode : AesMode) (input out : List U8) : Prop :=
  mode = .other ∨ input.length % 16 ≠ 0 ∨ input.length ≤ out.length

theorem aesEncrypt_of_small (ctx : AesCtx) (short : input.length < 2 ^ 32 - 16)
    (small : out.length < 16 * (input.length / 16 + 1)) :
    aesEncrypt ctx input out = .ok (0, out) := by
  rw [aesEncrypt]
  dsimp only
  rw [aesCiphertextLen_ofNat short, if_pos]
  rw [toNat_ofNat]
  omega

theorem aesCiphertextLen_wraps {length : Nat} (long : 2 ^ 32 - 16 ≤ length)
    (isLen : length < 2 ^ 32) :
    aesCiphertextLen (.ofNat 32 length) = 0 := by
  apply eq_of_toNat_eq
  simp only [aesCiphertextLen, toNat_mul, toNat_add, toNat_udiv, toNat_ofNat, reduceToNat]
  omega

theorem aesEncrypt_short (ctx : AesCtx) (short : input.length < 2 ^ 32 - 16) :
    Returns (aesEncrypt ctx input out) ↔ EncryptFits ctx.mode input out := by
  obtain ⟨blocks, rest, splits⟩ := exists_splits input
  by_cases small : out.length < 16 * (input.length / 16 + 1)
  · rw [aesEncrypt_of_small ctx short small]
    refine iff_of_true (returns_ok _) ?_
    cases isMode : ctx.mode with
    | ecb => exact ⟨short, .inl small⟩
    | cbc => exact short
    | ctr => exact .inl short
    | other => exact trivial
  · have room : 16 * (input.length / 16 + 1) ≤ out.length := Nat.le_of_not_lt small
    cases isMode : ctx.mode with
    | ecb =>
      rw [aesEncrypt_ecb isMode splits short (splits.count ▸ room)]
      by_cases fits : PadFits input
      · rw [ecbPadBlock_of_fits fits]
        exact iff_of_true (returns_ok _) ⟨short, .inr fits⟩
      · obtain ⟨fault, fails⟩ := ecbPadBlock_of_not_fits fits
        rw [fails]
        exact iff_of_false (not_returns_error fault)
          fun encryptFits => encryptFits.2.elim small fits
    | cbc =>
      rw [aesEncrypt_cbc isMode splits short (splits.count ▸ room)]
      exact iff_of_true (returns_ok _) short
    | ctr =>
      rw [aesEncrypt_ctr isMode short room]
      exact iff_of_true (returns_ok _) (.inl short)
    | other =>
      rw [aesEncrypt]
      dsimp only
      rw [isMode, ite_self]
      exact iff_of_true (returns_ok _) trivial

theorem returns_bind_pure_iff {Result : Type} (result : Except AesFault Value)
    (finish : Value → Result) :
    Returns (result >>= fun value => pure (finish value)) ↔ Returns result := by
  constructor
  · rintro ⟨final, isFinal⟩
    obtain ⟨value, isValue, -⟩ := result_bind_eq_ok_iff.mp isFinal
    exact ⟨value, isValue⟩
  · rintro ⟨value, rfl⟩
    exact returns_ok _

theorem not_returns_bind {Result : Type} {result : Except AesFault Value}
    (fails : ¬ Returns result) (next : Value → Except AesFault Result) :
    ¬ Returns (result >>= next) := by
  rintro ⟨final, isFinal⟩
  obtain ⟨value, isValue, -⟩ := result_bind_eq_ok_iff.mp isFinal
  exact fails ⟨value, isValue⟩

theorem aesEncrypt_long (ctx : AesCtx) (long : 2 ^ 32 - 16 ≤ input.length)
    (isLen : input.length < 2 ^ 32) :
    Returns (aesEncrypt ctx input out) ↔ EncryptFits ctx.mode input out := by
  have wraps (step) (out) : ¬ Returns (blockLoop (fullBlock input) step input 0 ctx.iv out) :=
    blockLoop_wraps step long isLen 0 (Nat.zero_le _) ctx.iv out
  have notShort : ¬ input.length < 2 ^ 32 - 16 := not_lt.mpr long
  rw [aesEncrypt]
  dsimp only
  have enough : ¬ out.length < (0 : U32).toNat := Nat.not_lt_zero _
  rw [aesCiphertextLen_wraps long isLen, if_neg enough]
  cases isMode : ctx.mode with
  | ecb =>
    refine iff_of_false ?_ fun encryptFits => notShort encryptFits.1
    rintro ⟨final, isFinal⟩
    obtain ⟨padBuf, -, isFinal⟩ := result_bind_eq_ok_iff.mp isFinal
    exact not_returns_bind (wraps _ _) _ ⟨final, isFinal⟩
  | cbc => exact iff_of_false (not_returns_bind (wraps _ _) _) notShort
  | ctr =>
    constructor
    · rintro ⟨final, isFinal⟩
      obtain ⟨next, run, -⟩ := result_bind_eq_ok_iff.mp isFinal
      exact .inr (counterLoop_eq_ok run (Nat.zero_le _))
    · rintro (short | room)
      · exact absurd short notShort
      · dsimp only
        rw [counterLoop_counterText ctx room]
        exact returns_ok _
  | other => exact iff_of_true (returns_ok _) trivial

theorem aesEncrypt_returns_iff (ctx : AesCtx) (out : List U8) (isLen : input.length < 2 ^ 32) :
    Returns (aesEncrypt ctx input out) ↔ EncryptFits ctx.mode input out := by
  by_cases short : input.length < 2 ^ 32 - 16
  · exact aesEncrypt_short ctx short
  · exact aesEncrypt_long ctx (Nat.le_of_not_lt short) isLen

theorem aesDecrypt_returns_iff (ctx : AesCtx) (input out : List U8) :
    Returns (aesDecrypt ctx input out) ↔ DecryptFits ctx.mode input out := by
  rw [aesDecrypt]
  dsimp only
  by_cases refused : input.length = 0 ∨ input.length % 16 ≠ 0
  · rw [if_pos refused]
    refine iff_of_true (returns_ok _) (.inr ?_)
    exact refused.elim (fun empty => .inr (by omega)) .inl
  · obtain ⟨nonempty, whole⟩ : input.length ≠ 0 ∧ input.length % 16 = 0 := by omega
    obtain ⟨blocks, rest, isInput, isRest⟩ := exists_splits input
    have isNil : rest = [] := eq_nil_of_length_eq_zero (isRest.trans whole)
    rw [isNil, append_nil] at isInput
    have length : input.length = 16 * blocks.length := isInput ▸ length_blockBytes blocks
    have loop (step) : Returns (blockLoop (· < input.length) step input 0 ctx.iv out) ↔
        input.length ≤ out.length := by
      constructor
      · rintro ⟨⟨last, final, next⟩, run⟩
        obtain ⟨stops, inside⟩ := blockLoop_eq_ok run (Nat.zero_le _)
        exact (Nat.le_of_not_lt (of_decide_eq_false stops)).trans inside
      · intro room
        rw [isInput, blockLoop_allBlocks step (length ▸ room)]
        exact returns_ok _
    have fitsIff {mode : AesMode} (isMode : mode ≠ .other) :
        DecryptFits mode input out ↔ input.length ≤ out.length :=
      ⟨fun fits => fits.elim (absurd · isMode) fun fits => fits.elim (absurd whole) id,
        fun room => .inr (.inr room)⟩
    rw [if_neg refused]
    cases isMode : ctx.mode with
    | ecb =>
      rw [fitsIff (by decide), ← loop]
      exact returns_bind_pure_iff _ _
    | cbc =>
      rw [fitsIff (by decide), ← loop]
      exact returns_bind_pure_iff _ _
    | ctr =>
      rw [fitsIff (by decide)]
      refine (returns_bind_pure_iff _ _).trans ⟨?_, fun room => ?_⟩
      · rintro ⟨next, run⟩
        exact counterLoop_eq_ok run (Nat.zero_le _)
      · rw [counterLoop_counterText ctx room]
        exact returns_ok _
    | other => exact iff_of_true (returns_ok _) (.inl rfl)

/-! ## The calls -/

/-- The calls of the cipher interface. -/
inductive AesCall
  | init
      (algorithm : CipherAlgorithm)
      (mode : AesMode)
      (key : List U8)
      (iv : Option (List U8))
  | encrypt (ctx : AesCtx) (input out : List U8)
  | decrypt (ctx : AesCtx) (input out : List U8)
  | cryptoEncrypt (key : List U8) (iv : Option (List U8)) (input out : List U8)
  | cryptoDecrypt (key : List U8) (iv : Option (List U8)) (input out : List U8)

namespace AesCall

/-- The call stays inside its arrays and does not divide by zero. -/
def InBounds : AesCall → Prop
  | init algorithm mode key iv => Returns (aesInit algorithm mode key iv)
  | encrypt ctx input out => Returns (aesEncrypt ctx input out)
  | decrypt ctx input out => Returns (aesDecrypt ctx input out)
  | cryptoEncrypt key iv input out => Returns (cryptoAesEncrypt key iv input out)
  | cryptoDecrypt key iv input out => Returns (cryptoAesDecrypt key iv input out)

/-- `in_len` is a `u32`. -/
def HasLength : AesCall → Prop
  | init _ _ _ _ => True
  | encrypt _ input _ => input.length < 2 ^ 32
  | decrypt _ input _ => input.length < 2 ^ 32
  | cryptoEncrypt _ _ input _ => input.length < 2 ^ 32
  | cryptoDecrypt _ _ input _ => input.length < 2 ^ 32

/-- The lengths and the mode with which the call stays inside its arrays. -/
def Fits : AesCall → Prop
  | init _ _ key _ => KeyFits key
  | encrypt ctx input out => EncryptFits ctx.mode input out
  | decrypt ctx input out => DecryptFits ctx.mode input out
  | cryptoEncrypt key _ input out => KeyFits key ∧ EncryptFits .cbc input out
  | cryptoDecrypt key _ input out => KeyFits key ∧ DecryptFits .cbc input out

end AesCall

theorem aesInit_bind_returns_iff {mode : AesMode} {next : AesCtx → Except AesFault Value}
    {fits : Prop} (nextReturns : ∀ ctx, ctx.mode = mode → (Returns (next ctx) ↔ fits)) :
    Returns (aesInit algorithm mode key iv >>= next) ↔ KeyFits key ∧ fits := by
  rw [← aesInit_returns_iff algorithm mode key iv]
  constructor
  · rintro ⟨final, isFinal⟩
    obtain ⟨ctx, isCtx, isFinal⟩ := result_bind_eq_ok_iff.mp isFinal
    exact ⟨⟨ctx, isCtx⟩, (nextReturns ctx (aesInit_mode isCtx)).mp ⟨final, isFinal⟩⟩
  · rintro ⟨⟨ctx, isCtx⟩, nextFits⟩
    rw [isCtx]
    exact (nextReturns ctx (aesInit_mode isCtx)).mpr nextFits

/-- Which calls stay inside their arrays. -/
theorem aesCall_inBounds_iff (call : AesCall) (hasLength : call.HasLength) :
    call.InBounds ↔ call.Fits := by
  cases call with
  | init algorithm mode key iv => exact aesInit_returns_iff algorithm mode key iv
  | encrypt ctx input out => exact aesEncrypt_returns_iff ctx out hasLength
  | decrypt ctx input out => exact aesDecrypt_returns_iff ctx input out
  | cryptoEncrypt key iv input out =>
    exact aesInit_bind_returns_iff fun ctx isCbc =>
      isCbc ▸ aesEncrypt_returns_iff ctx out hasLength
  | cryptoDecrypt key iv input out =>
    exact aesInit_bind_returns_iff fun ctx isCbc =>
      isCbc ▸ aesDecrypt_returns_iff ctx input out

/-- One byte, padded to one block. -/
theorem oneByte_cryptoEncrypt_inBounds_iff :
    (AesCall.cryptoEncrypt (List.replicate 16 7) none [1] (List.replicate 16 0)).InBounds ↔
      (AesCall.cryptoEncrypt (List.replicate 16 7) none [1] (List.replicate 16 0)).Fits :=
  aesCall_inBounds_iff (.cryptoEncrypt (List.replicate 16 7) none [1] (List.replicate 16 0))
    (show [(1 : U8)].length < 2 ^ 32 by decide)

/-- `crypto_aes_decrypt` writes two blocks to an output of one, and a key of 12 bytes leads
to `rcon[11]`. -/
theorem calls_outOfBounds :
    ¬ (AesCall.cryptoDecrypt (List.replicate 16 7) none (List.replicate 32 0)
        (List.replicate 16 0)).InBounds ∧
      ¬ (AesCall.init .aes128 .cbc (List.replicate 12 7) none).InBounds := by
  constructor
  · intro inBounds
    have fits := ((aesInit_bind_returns_iff fun ctx isCbc =>
      isCbc ▸ aesDecrypt_returns_iff ctx (List.replicate 32 0) (List.replicate 16 0)).mp inBounds).2
    rcases fits with isOther | notWhole | room
    · cases isOther
    · exact notWhole (by decide)
    · exact absurd room (by decide)
  · intro inBounds
    have fits := (aesInit_returns_iff .aes128 .cbc (List.replicate 12 7) none).mp inBounds
    exact absurd fits.1 (by decide)

end XKern
