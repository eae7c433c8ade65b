import XKern.HashStream

namespace XKern

open BlockStream List BitVec Nat

/-!
# Padding of messages

The standards pad a message with a byte 0x80, zeros and its length in bits.  The
code absorbs the first two parts with an update, which counts them, and then
encodes the number of bits counted so far: the length field is that of a longer
message, for every message.
-/

/-! ## The standard padding -/

theorem exists_zeroCount (length : Nat) : ∃ zeros, (length + 1 + zeros) % 64 = 56 :=
  ⟨(119 - length % 64) % 64, by omega⟩

/-- The least number of zero bytes that brings the length to 56 modulo 64. -/
def zeroCount (length : Nat) : Nat :=
  Nat.find (exists_zeroCount length)

/-- The 64-bit length: big-endian for the SHA functions, little-endian for MD5. -/
def lengthField (kind : HashKind) (bits : Nat) : List U8 :=
  match kind with
  | .md5 => (range 8).map fun i => .ofNat 8 (bits / 256 ^ i)
  | .sha256 | .sha1 => (range 8).map fun i => .ofNat 8 (bits / 256 ^ (7 - i))

/-- The padded message of the standard. -/
def standardPadding (kind : HashKind) (message : List U8) : List U8 :=
  message ++ 0x80 :: List.replicate (zeroCount message.length) 0 ++
    lengthField kind (8 * message.length)

/-! ## The blocks that are fed to the compression function -/

/-- The hash that also notes its blocks. -/
def HashAlgorithm.recording (algorithm : HashAlgorithm) : HashAlgorithm where
  State := algorithm.State × List Block
  initial := (algorithm.initial, [])
  transform := fun state block => (algorithm.transform state.1 block, state.2 ++ [block])
  lenpad := algorithm.lenpad
  digest := fun state => algorithm.digest state.1

/-- The blocks that `init`, the updates and `final` feed to the compression function. -/
def fedBlocks (algorithm : HashAlgorithm) (start : HashCtx algorithm.recording.State)
    (chunks : List Chunk) : Option (List Block) := do
  let ctx ← hashUpdates algorithm.recording chunks (hashInit algorithm.recording start)
  let finished ← hashFinish algorithm.recording ctx
  return finished.state.2

/-- The blocks are those of the padded message. -/
def FeedsStandard (kind : HashKind) (start : HashCtx kind.algorithm.recording.State)
    (chunks : List Chunk) : Prop :=
  ∃ fed, fedBlocks kind.algorithm start chunks = some fed ∧
    fed.flatMap ofFn = standardPadding kind (chunkBytes chunks)

section Recording

variable {algorithm : HashAlgorithm}

theorem transformAll_recording (state : algorithm.recording.State) (fed : List (List U8)) :
    transformAll algorithm.recording state fed =
      (transformAll algorithm state.1 fed, state.2 ++ fed.map blockOf) := by
  induction fed generalizing state with
  | nil => exact Prod.ext rfl (append_nil _).symm
  | cons block fed ih =>
    have step : transformAll algorithm.recording state (block :: fed) =
        transformAll algorithm.recording
          (algorithm.recording.transform state (blockOf block)) fed := rfl
    rw [step, ih]
    refine Prod.ext rfl ?_
    simp [HashAlgorithm.recording]

theorem flatMap_ofFn_blockOf {fed : List (List U8)} (full : ∀ block ∈ fed, block.length = 64) :
    (fed.map blockOf).flatMap ofFn = fed.flatten := by
  rw [flatMap_map, flatMap_def]
  congr 1
  conv_rhs => rw [← map_id fed]
  exact map_congr_left fun block member => ofFn_blockOf (full block member)

/-- The message with the bytes that `final` absorbs. -/
def codePadding (algorithm : HashAlgorithm) (message : List U8) : List U8 :=
  message ++ hashPad.take (padLength message.length) ++
    algorithm.lenpad (.ofNat 64 (message.length + padLength message.length) * 8)

variable (eightBytes : ∀ bits, (algorithm.lenpad bits).length = 8)

include eightBytes

theorem dvd_length_codePadding (message : List U8) :
    64 ∣ (codePadding algorithm message).length := by
  have bounds := padLength_bounds message.length
  have padLength_le : padLength message.length ≤ hashPad.length := bounds.2.1
  rw [codePadding, length_append, length_append, eightBytes, length_take,
    min_eq_left padLength_le]
  omega

theorem fedBlocks_eq (start : HashCtx algorithm.recording.State) (chunks : List Chunk) :
    fedBlocks algorithm start chunks =
      some ((blocks 64 (codePadding algorithm (chunkBytes chunks))).map blockOf) := by
  obtain ⟨ctx, updated, absorbed⟩ := hashUpdates_absorbed (absorbed_hashInit start) chunks
  have recordedEight : ∀ bits, (algorithm.recording.lenpad bits).length = 8 := eightBytes
  obtain ⟨finished, done, finishedAbsorbed⟩ := hashFinish_absorbed recordedEight absorbed
  have recorded := congrArg Prod.snd finishedAbsorbed.state
  rw [transformAll_recording] at recorded
  rw [fedBlocks, updated, Option.bind_eq_bind, Option.bind_some, done]
  exact congrArg some recorded

theorem flatMap_fedBlocks (message : List U8) :
    ((blocks 64 (codePadding algorithm message)).map blockOf).flatMap ofFn =
      codePadding algorithm message := by
  rw [flatMap_ofFn_blockOf fun block member => length_of_mem_blocks member]
  exact flatten_blocks (by decide) (dvd_length_codePadding eightBytes message)

end Recording

/-! ## The length field -/

theorem lowBytes_eq (count : Nat) (bits : U64) : lowBytes count bits =
      (range count).map fun i => .ofNat 8 (bits.toNat / 256 ^ i) := by
  induction count generalizing bits with
  | zero => rfl
  | succ count ih =>
    rw [lowBytes, ih, range_succ_eq_map, map_cons, map_map]
    congr 1
    · apply eq_of_toNat_eq
      rw [toNat_setWidth, toNat_ofNat, Nat.pow_zero, Nat.div_one]
    · apply map_congr_left
      intro i _
      have power : 256 ^ (i + 1) = 2 ^ 8 * 256 ^ i := pow_succ'
      rw [Function.comp_apply, toNat_ushiftRight, shiftRight_eq_div_pow,
        Nat.div_div_eq_div_mul, succ_eq_add_one, power]

theorem lenpad_eq (kind : HashKind) (bits : U64) :
    kind.algorithm.lenpad bits = lengthField kind bits.toNat := by
  have low := lowBytes_eq 8 bits
  cases kind with
  | md5 => exact low
  | sha256 => exact congrArg List.reverse low
  | sha1 => exact congrArg List.reverse low

theorem lengthField_low {kind : HashKind} {bits other : Nat}
    (same : lengthField kind bits = lengthField kind other) :
    bits % 65536 = other % 65536 := by
  have bytes : BitVec.ofNat 8 bits = BitVec.ofNat 8 other ∧
      BitVec.ofNat 8 (bits / 256) = BitVec.ofNat 8 (other / 256) := by
    cases kind <;> simp_all [lengthField, range_succ]
  have low := congrArg BitVec.toNat bytes.1
  have next := congrArg BitVec.toNat bytes.2
  rw [toNat_ofNat, toNat_ofNat] at low next
  omega

/-- No message is padded as the standards say, however it is cut into updates. -/
theorem not_feedsStandard (kind : HashKind) (start : HashCtx kind.algorithm.recording.State)
    (chunks : List Chunk) :
    ¬ FeedsStandard kind start chunks := by
  rintro ⟨fed, isFed, standard⟩
  have bounds := padLength_bounds (chunkBytes chunks).length
  rw [fedBlocks_eq (length_lenpad kind), Option.some.injEq] at isFed
  rw [← isFed, flatMap_fedBlocks (length_lenpad kind), codePadding, standardPadding,
    lenpad_eq] at standard
  have sameEnd := (append_inj_right' standard (by cases kind <;> rfl))
  have low := lengthField_low sameEnd
  rw [toNat_mul, toNat_ofNat] at low
  simp only [reduceToNat] at low
  omega

/-- A context before `init`. -/
def blankCtx (algorithm : HashAlgorithm) : HashCtx algorithm.State :=
  ⟨algorithm.initial, 0, fun _ => 0, 0⟩

/-- The length field of the empty message says 448 bits. -/
theorem emptyMessage_lengthField :
    (fedBlocks sha256Algorithm (blankCtx _) []).map
        (fun fed => (fed.flatMap List.ofFn).drop 56) = some [0, 0, 0, 0, 0, 0, 1, 0xC0] ∧
      (standardPadding .sha256 []).drop 56 = [0, 0, 0, 0, 0, 0, 0, 0] ∧
      ¬ FeedsStandard .sha256 (blankCtx _) [] := by
  have isFed : (fedBlocks sha256Algorithm (blankCtx _) []).map
      (fun fed => (fed.flatMap ofFn).drop 56) = some [0, 0, 0, 0, 0, 0, 1, 0xC0] := by
    decide
  have zeros : zeroCount 0 = 55 := by
    rw [zeroCount, find_eq_iff]
    decide
  have standard : (standardPadding .sha256 []).drop 56 = [0, 0, 0, 0, 0, 0, 0, 0] := by
    rw [standardPadding, length_nil, zeros]
    decide
  refine ⟨isFed, standard, ?_⟩
  rintro ⟨fed, fedEq, fedStandard⟩
  have bytes : (fed.flatMap ofFn).drop 56 = [0, 0, 0, 0, 0, 0, 1, 0xC0] :=
    Option.some.inj ((congrArg (Option.map _) fedEq).symm.trans isFed)
  rw [fedStandard] at bytes
  exact absurd (standard.symm.trans bytes) (by decide)

end XKern
