import Mathlib.Data.List.GetD
import XKern.CryptoHash

namespace XKern

open BlockStream List BitVec Nat

/-!
# Hashing a message in pieces

A context stands for the bytes that it has taken in: the full blocks are in its
state and the rest is at the start of its buffer.  An update only extends these
bytes, however a message is cut into updates.
-/

/-! ## Buffers -/

def bufferStart (buf : Block) (count : Nat) : List U8 :=
  (ofFn buf).take count

theorem blockOf_take (data : List U8) : blockOf (data.take 64) = blockOf data := by
  funext i
  have below : i.val < 64 := i.isLt
  rw [blockOf, blockOf, getD_eq_getElem?_getD, getD_eq_getElem?_getD,
    getElem?_take_of_lt below]

theorem blockOf_ofFn (buf : Block) : blockOf (ofFn buf) = buf := by
  funext i
  rw [blockOf, getD_eq_getElem?_getD, List.getElem?_ofFn, dif_pos i.isLt]
  rfl

variable {data : List U8}

theorem ofFn_blockOf (full : data.length = 64) : ofFn (blockOf data) = data := by
  apply ext_getElem
  · rw [length_ofFn, full]
  · intro i _ inData
    rw [List.getElem_ofFn, blockOf, getD_eq_getElem _ _ inData]

theorem bufferStart_full (buf : Block) : bufferStart buf 64 = ofFn buf :=
  take_of_length_le (by rw [length_ofFn])

theorem copyToBuffer_start (buf : Block) {offset n : U32} (fits : offset.toNat + n.toNat ≤ 64)
    (enough : n.toNat ≤ data.length) :
    ∃ after, copyToBuffer buf offset data n = some after ∧
      bufferStart after (offset.toNat + n.toNat) =
        bufferStart buf offset.toNat ++ data.take n.toNat := by
  refine ⟨_, if_pos fits, ?_⟩
  apply ext_getElem
  · rw [bufferStart, bufferStart, length_append, length_take, length_take,
      length_take, length_ofFn, length_ofFn]
    omega
  · intro i inBuffer inParts
    rw [bufferStart, length_take] at inBuffer
    have below : i < offset.toNat + n.toNat := lt_of_lt_of_le inBuffer (min_le_left _ _)
    simp only [bufferStart, getElem_take, List.getElem_ofFn]
    by_cases old : i < offset.toNat
    · rw [getElem_append_left (by rw [length_take, length_ofFn]; omega),
        if_neg (by omega), getElem_take, List.getElem_ofFn]
    · have startLength : ((ofFn buf).take offset.toNat).length = offset.toNat := by
        rw [length_take, length_ofFn]
        omega
      rw [getElem_append_right (by omega), if_pos ⟨by omega, below⟩, getElem_take,
        getD_eq_getElem _ _ (by omega)]
      simp only [startLength]

/-! ## Contexts and the bytes they stand for -/

section Streams

variable (algorithm : HashAlgorithm)

/-- Transform the state by some blocks. -/
def transformAll (state : algorithm.State) (blocks : List (List U8)) : algorithm.State :=
  blocks.foldl (fun state block => algorithm.transform state (blockOf block)) state

variable {algorithm}

/-- The context has taken these bytes. -/
structure HoldsBytes (message : List U8) (ctx : HashCtx algorithm.State) : Prop where
  state : ctx.state = transformAll algorithm algorithm.initial (blocks 64 message)
  bufLen : ctx.bufLen.toNat = (rest 64 message).length
  buffered : bufferStart ctx.buf ctx.bufLen.toNat = rest 64 message

/-- The context has also counted them. -/
structure Absorbed (message : List U8) (ctx : HashCtx algorithm.State) : Prop
    extends HoldsBytes message ctx where
  totalLen : ctx.totalLen = .ofNat 64 message.length

theorem HoldsBytes.bufLen_lt {message : List U8} {ctx : HashCtx algorithm.State}
    (holds : HoldsBytes message ctx) : ctx.bufLen.toNat < 64 := by
  rw [holds.bufLen]
  exact length_rest_lt (by decide) message

theorem absorbed_hashInit (ctx : HashCtx algorithm.State) :
    Absorbed [] (hashInit algorithm ctx) where
  state := rfl
  bufLen := rfl
  buffered := rfl
  totalLen := rfl

theorem transformAll_append (state : algorithm.State) (first second : List (List U8)) :
    transformAll algorithm state (first ++ second) =
      transformAll algorithm (transformAll algorithm state first) second :=
  foldl_append

variable {len : U32}

theorem transformBlocks_eq {fuel : Nat} (state : algorithm.State) (enoughFuel : len.toNat ≤ fuel)
    (enough : len.toNat ≤ data.length) :
    ∃ data' len', transformBlocks algorithm fuel state data len =
        (transformAll algorithm state (blocks 64 (data.take len.toNat)), data', len') ∧
      len'.toNat = len.toNat % 64 ∧ len'.toNat ≤ data'.length ∧
      data'.take len'.toNat = rest 64 (data.take len.toNat) := by
  induction fuel generalizing state data len with
  | zero =>
    have none : len.toNat = 0 := le_zero.mp enoughFuel
    have nothing : data.take len.toNat = [] := by rw [none, take_zero]
    refine ⟨data, len, ?_, ?_, enough, ?_⟩
    · rw [nothing]
      rfl
    · rw [none]
    · rw [nothing]
      rfl
  | succ fuel ih =>
    rw [transformBlocks]
    by_cases full : len ≥ 64
    · have full' : 64 ≤ len.toNat := full
      have left : (len - 64).toNat = len.toNat - 64 := toNat_sub_of_le full
      have enoughLeft : (len - 64).toNat ≤ (data.drop 64).length := by
        rw [left, length_drop]
        omega
      obtain ⟨data', len', loop, length, enough', same⟩ := ih
        (algorithm.transform state (blockOf data)) (by omega) enoughLeft
      have split : data.take len.toNat = data.take 64 ++ (data.drop 64).take (len - 64).toNat := by
        rw [left, ← take_add]
        congr 1
        omega
      have firstLength : (data.take 64).length = 64 := by
        rw [length_take]
        omega
      have firstFull : 64 ∣ (data.take 64).length := by rw [firstLength]
      refine ⟨data', len', ?_, ?_, enough', ?_⟩
      · rw [if_pos full, loop, split, blocks_append firstFull (by decide),
          blocks_of_length_eq (by decide) firstLength, transformAll_append]
        simp only [transformAll, foldl_cons, foldl_nil, blockOf_take]
      · rw [length, left]
        omega
      · rw [same, split, rest_append firstFull (by decide)]
    · have few : len.toNat < 64 := not_le.mp full
      have shortLength : (data.take len.toNat).length < 64 := by
        rw [length_take]
        omega
      refine ⟨data, len, ?_, (mod_eq_of_lt few).symm, enough, ?_⟩
      · rw [if_neg full, blocks_of_lt shortLength]
        rfl
      · rw [rest_of_lt shortLength]

theorem blocks_rest_of_room {held : List U8} (room : held = [] ∨ held.length + data.length < 64) :
    blocks 64 (held ++ data) = blocks 64 data ∧ rest 64 (held ++ data) = held ++ rest 64 data := by
  rcases room with rfl | short
  · exact ⟨rfl, rfl⟩
  · have bothShort : (held ++ data).length < 64 := by rwa [length_append]
    have dataShort : data.length < 64 := by omega
    rw [blocks_of_lt bothShort, blocks_of_lt dataShort, rest_of_lt bothShort, rest_of_lt dataShort]
    exact ⟨rfl, rfl⟩

/-- The end of an update extends the bytes, when the buffer has room for them. -/
theorem absorbBlocks_holds {message : List U8} {ctx : HashCtx algorithm.State}
    (holds : HoldsBytes message ctx) (enough : len.toNat ≤ data.length)
    (room : ctx.bufLen.toNat = 0 ∨ ctx.bufLen.toNat + len.toNat < 64) :
    ∃ after, absorbBlocks algorithm ctx data len = some after ∧
      HoldsBytes (message ++ data.take len.toNat) after ∧ after.totalLen = ctx.totalLen := by
  obtain ⟨left, count, loop, length, enoughLeft, same⟩ := transformBlocks_eq ctx.state le_rfl enough
  have takenLength : (data.take len.toNat).length = len.toNat := by
    rw [length_take, min_eq_left enough]
  have heldRoom : rest 64 message = [] ∨
      (rest 64 message).length + (data.take len.toNat).length < 64 := by
    rw [← length_eq_zero_iff, ← holds.bufLen, takenLength]
    exact room
  obtain ⟨sameBlocks, sameRest⟩ := blocks_rest_of_room heldRoom
  have newState : transformAll algorithm ctx.state (blocks 64 (data.take len.toNat)) =
      transformAll algorithm algorithm.initial (blocks 64 (message ++ data.take len.toNat)) := by
    rw [blocks_append_rest (by decide), transformAll_append, ← holds.state, sameBlocks]
  have newRest : rest 64 (message ++ data.take len.toNat) =
      bufferStart ctx.buf ctx.bufLen.toNat ++ left.take count.toNat := by
    rw [rest_append_rest (by decide), sameRest, ← same, ← holds.buffered]
  have fits : ctx.bufLen.toNat + count.toNat < 64 := by
    have smaller := mod_le len.toNat 64
    omega
  have newLength : (rest 64 (message ++ data.take len.toNat)).length =
      ctx.bufLen.toNat + count.toNat := by
    rw [newRest, length_append, bufferStart, length_take, length_ofFn, length_take]
    omega
  rw [absorbBlocks, loop]
  dsimp only
  by_cases more : count ≠ 0
  · obtain ⟨buf, copied, start⟩ := copyToBuffer_start ctx.buf fits.le enoughLeft
    have newBufLen : (ctx.bufLen + count).toNat = ctx.bufLen.toNat + count.toNat := by
      rw [toNat_add]
      omega
    rw [if_pos more, copied]
    refine ⟨_, rfl, ?_, rfl⟩
    exact {
      state := newState
      bufLen := newBufLen.trans newLength.symm
      buffered := by rw [newBufLen, start, newRest] }
  · have isZero : count.toNat = 0 := by
      rw [not_not.mp more]
      rfl
    rw [if_neg more]
    refine ⟨_, rfl, ?_, rfl⟩
    rw [isZero, add_zero] at newLength
    rw [isZero, take_zero, append_nil] at newRest
    exact {
      state := newState
      bufLen := newLength.symm
      buffered := newRest.symm }

theorem HoldsBytes.filled {message : List U8} {ctx : HashCtx algorithm.State}
    (holds : HoldsBytes message ctx) {buf : Block} (full : (rest 64 message ++ data).length = 64)
    (isFull : ofFn buf = rest 64 message ++ data) (totalLen : U64) :
    HoldsBytes (message ++ data)
      ({ state := algorithm.transform ctx.state buf, totalLen, buf, bufLen := 0 } :
        HashCtx algorithm.State) := by
  have noRest : rest 64 (message ++ data) = [] := by
    rw [rest_append_rest (by decide), rest, full]
    exact drop_of_length_le full.le
  have oneBlock : blockOf (rest 64 message ++ data) = buf := by
    rw [← isFull, blockOf_ofFn]
  exact {
    state := by
      rw [blocks_append_rest (by decide), transformAll_append, ← holds.state,
        blocks_of_length_eq (by decide) full]
      simp only [transformAll, foldl_cons, foldl_nil, oneBlock]
    bufLen := by
      rw [noRest]
      rfl
    buffered := noRest.symm }

theorem hashUpdate_absorbed {message : List U8} {ctx : HashCtx algorithm.State}
    (absorbed : Absorbed message ctx) (enough : len.toNat ≤ data.length) :
    ∃ after, hashUpdate algorithm ctx data len = some after ∧
      Absorbed (message ++ data.take len.toNat) after := by
  have bound := absorbed.bufLen_lt
  have newTotal : ctx.totalLen + len.setWidth 64 =
      BitVec.ofNat 64 (message ++ data.take len.toNat).length := by
    rw [absorbed.totalLen, length_append, length_take, min_eq_left enough,
      ofNat_add, ofNat_toNat]
  have fill : (64 - ctx.bufLen).toNat = 64 - ctx.bufLen.toNat :=
    toNat_sub_of_le (le_of_lt bound)
  rw [hashUpdate]
  dsimp only
  split
  · rename_i filled
    have enoughFill : (64 - ctx.bufLen).toNat ≤ len.toNat := filled.2
    obtain ⟨buf, copied, start⟩ := copyToBuffer_start ctx.buf
      (by omega : ctx.bufLen.toNat + (64 - ctx.bufLen).toNat ≤ 64)
      (enoughFill.trans enough)
    have whole : ctx.bufLen.toNat + (64 - ctx.bufLen).toNat = 64 := by omega
    rw [whole, bufferStart_full, absorbed.buffered] at start
    have full : (rest 64 message ++ data.take (64 - ctx.bufLen).toNat).length = 64 := by
      rw [← start, length_ofFn]
    have left : (len - (64 - ctx.bufLen)).toNat = len.toNat - (64 - ctx.bufLen).toNat :=
      toNat_sub_of_le filled.2
    obtain ⟨after, done, holds, sameTotal⟩ := absorbBlocks_holds
      (absorbed.filled full start (ctx.totalLen + len.setWidth 64))
      (by rw [left, length_drop]; omega :
        (len - (64 - ctx.bufLen)).toNat ≤ (data.drop (64 - ctx.bufLen).toNat).length)
      (Or.inl rfl)
    have allData : message ++ data.take (64 - ctx.bufLen).toNat ++
        (data.drop (64 - ctx.bufLen).toNat).take (len - (64 - ctx.bufLen)).toNat =
          message ++ data.take len.toNat := by
      rw [List.append_assoc, ← take_add, left, Nat.add_sub_cancel' enoughFill]
    rw [copied]
    refine ⟨after, done, ?_⟩
    rw [allData] at holds
    exact { holds with totalLen := sameTotal.trans newTotal }
  · rename_i notFilled
    have room : ctx.bufLen.toNat = 0 ∨ ctx.bufLen.toNat + len.toNat < 64 := by
      by_cases empty : ctx.bufLen = 0
      · exact Or.inl (congrArg BitVec.toNat empty)
      · have short : len.toNat < (64 - ctx.bufLen).toNat :=
          not_le.mp fun enoughFill => notFilled ⟨empty, enoughFill⟩
        omega
    have holdsStill : HoldsBytes message
        ({ ctx with totalLen := ctx.totalLen + len.setWidth 64 } : HashCtx algorithm.State) :=
      ⟨absorbed.state, absorbed.bufLen, absorbed.buffered⟩
    obtain ⟨after, done, holds, sameTotal⟩ := absorbBlocks_holds holdsStill enough room
    exact ⟨after, done, { holds with totalLen := sameTotal.trans newTotal }⟩

end Streams

/-! ## Updates one after the other -/

/-- The bytes of one update; their number is a `u32`. -/
structure Chunk where
  bytes : List U8
  short : bytes.length < 2 ^ 32

def chunkBytes (chunks : List Chunk) : List U8 :=
  chunks.flatMap Chunk.bytes

/-- One update for each chunk. -/
def hashUpdates (algorithm : HashAlgorithm) (chunks : List Chunk)
    (ctx : HashCtx algorithm.State) : Option (HashCtx algorithm.State) :=
  chunks.foldlM
    (fun ctx chunk => hashUpdate algorithm ctx chunk.bytes (.ofNat 32 chunk.bytes.length))
    ctx

/-- The contexts agree up to unused bytes. -/
structure SameContents {State : Type} (first second : HashCtx State) : Prop where
  state : first.state = second.state
  totalLen : first.totalLen = second.totalLen
  bufLen : first.bufLen = second.bufLen
  buffered : bufferStart first.buf first.bufLen.toNat =
    bufferStart second.buf second.bufLen.toNat

section Updates

variable {algorithm : HashAlgorithm} {message : List U8} {ctx : HashCtx algorithm.State}

theorem hashUpdates_absorbed (absorbed : Absorbed message ctx) (chunks : List Chunk) :
    ∃ after, hashUpdates algorithm chunks ctx = some after ∧
      Absorbed (message ++ chunkBytes chunks) after := by
  induction chunks generalizing message ctx with
  | nil => exact ⟨ctx, rfl, by rwa [chunkBytes, flatMap_nil, append_nil]⟩
  | cons chunk chunks ih =>
    have length : (BitVec.ofNat 32 chunk.bytes.length).toNat = chunk.bytes.length := by
      rw [toNat_ofNat, mod_eq_of_lt chunk.short]
    obtain ⟨next, updated, nextAbsorbed⟩ := hashUpdate_absorbed absorbed length.le
    obtain ⟨after, done, afterAbsorbed⟩ := ih nextAbsorbed
    refine ⟨after, ?_, ?_⟩
    · rw [hashUpdates, foldlM_cons, updated]
      exact done
    · rw [length, take_length, List.append_assoc] at afterAbsorbed
      exact afterAbsorbed

theorem Absorbed.sameContents {other : HashCtx algorithm.State} (absorbed : Absorbed message ctx)
    (otherAbsorbed : Absorbed message other) :
    SameContents ctx other where
  state := absorbed.state.trans otherAbsorbed.state.symm
  totalLen := absorbed.totalLen.trans otherAbsorbed.totalLen.symm
  bufLen := eq_of_toNat_eq (absorbed.bufLen.trans otherAbsorbed.bufLen.symm)
  buffered := absorbed.buffered.trans otherAbsorbed.buffered.symm

/-- How many bytes of `pad` are absorbed. -/
def padLength (length : Nat) : Nat :=
  if length % 64 < 56 then 56 - length % 64 else 120 - length % 64

theorem padLength_bounds (length : Nat) :
    0 < padLength length ∧ padLength length ≤ 64 ∧ (length + padLength length) % 64 = 56 := by
  rw [padLength]
  split
  · omega
  · omega

/-- `final` absorbs `pad` and then the number of all bits, those of `pad` included. -/
theorem hashFinish_absorbed (eightBytes : ∀ bits, (algorithm.lenpad bits).length = 8)
    (absorbed : Absorbed message ctx) :
    ∃ after, hashFinish algorithm ctx = some after ∧
      Absorbed (message ++ hashPad.take (padLength message.length) ++
        algorithm.lenpad (.ofNat 64 (message.length + padLength message.length) * 8))
          after := by
  have bufLen : ctx.bufLen.toNat = message.length % 64 := by
    rw [absorbed.bufLen, length_rest]
  have bounds := padLength_bounds message.length
  have length : (if ctx.bufLen < 56 then 56 - ctx.bufLen else 120 - ctx.bufLen).toNat =
      padLength message.length := by
    rw [padLength, ← bufLen]
    split
    · rename_i few
      have few : ctx.bufLen.toNat < 56 := few
      rw [if_pos few]
      exact toNat_sub_of_le few.le
    · rename_i many
      have many : ¬ ctx.bufLen.toNat < 56 := many
      rw [if_neg many]
      exact toNat_sub_of_le (show ctx.bufLen.toNat ≤ 120 by omega)
  have enough : (if ctx.bufLen < 56 then 56 - ctx.bufLen else 120 - ctx.bufLen).toNat ≤
      hashPad.length := by
    rw [length]
    exact bounds.2.1
  obtain ⟨padded, updated, paddedAbsorbed⟩ := hashUpdate_absorbed absorbed enough
  rw [length] at paddedAbsorbed
  have total : padded.totalLen = .ofNat 64 (message.length + padLength message.length) := by
    rw [paddedAbsorbed.totalLen, length_append, length_take, min_eq_left (length ▸ enough)]
  obtain ⟨after, done, afterAbsorbed⟩ := hashUpdate_absorbed paddedAbsorbed
    (show (8 : U32).toNat ≤ (algorithm.lenpad (padded.totalLen * 8)).length by
      rw [eightBytes]
      decide)
  refine ⟨after, ?_, ?_⟩
  · rw [hashFinish, updated]
    exact done
  · have allBytes : (algorithm.lenpad (padded.totalLen * 8)).take (8 : U32).toNat =
        algorithm.lenpad (padded.totalLen * 8) :=
      take_of_length_le (eightBytes _).le
    rwa [allBytes, total] at afterAbsorbed

end Updates

theorem length_lowBytes (count : Nat) (bits : U64) : (lowBytes count bits).length = count := by
  induction count generalizing bits with
  | zero => rfl
  | succ count ih =>
    rw [lowBytes, length_cons, ih]

theorem length_lenpad (kind : HashKind) (bits : U64) : (kind.algorithm.lenpad bits).length = 8 := by
  cases kind with
  | sha256 => exact (length_reverse).trans (length_lowBytes 8 bits)
  | md5 => exact length_lowBytes 8 bits
  | sha1 => exact (length_reverse).trans (length_lowBytes 8 bits)

/--
However a message is cut into updates, the contexts agree in all that is used of
them, no update stores outside the buffer, and the digest is the same.
-/
theorem hashUpdates_chunkIndependent (kind : HashKind) (start other : HashCtx kind.algorithm.State)
    {first second : List Chunk} (sameBytes : chunkBytes first = chunkBytes second) :
    ∃ ctx otherCtx,
      hashUpdates kind.algorithm first (hashInit kind.algorithm start) = some ctx ∧
      hashUpdates kind.algorithm second (hashInit kind.algorithm other) = some otherCtx ∧
      SameContents ctx otherCtx ∧ ctx.bufLen.toNat < 64 ∧
      ∃ digest, hashFinal kind.algorithm ctx = some digest ∧
        hashFinal kind.algorithm otherCtx = some digest := by
  obtain ⟨ctx, updated, absorbed⟩ := hashUpdates_absorbed (absorbed_hashInit start) first
  obtain ⟨otherCtx, otherUpdated, otherAbsorbed⟩ :=
    hashUpdates_absorbed (absorbed_hashInit other) second
  rw [← sameBytes] at otherAbsorbed
  obtain ⟨finished, done, finishedAbsorbed⟩ := hashFinish_absorbed (length_lenpad kind) absorbed
  obtain ⟨otherFinished, otherDone, otherFinishedAbsorbed⟩ :=
    hashFinish_absorbed (length_lenpad kind) otherAbsorbed
  refine ⟨ctx, otherCtx, updated, otherUpdated, absorbed.sameContents otherAbsorbed,
    absorbed.bufLen_lt, kind.algorithm.digest finished.state, ?_, ?_⟩
  · rw [hashFinal, done]
    rfl
  · rw [hashFinal, otherDone, (finishedAbsorbed.sameContents otherFinishedAbsorbed).state]
    rfl

theorem oneByte_short (byte : U8) : [byte].length < 2 ^ 32 := by
  simp

theorem twoBytes_short (first second : U8) : [first, second].length < 2 ^ 32 := by
  simp

def byteChunk (byte : U8) : Chunk where
  bytes := [byte]
  short := oneByte_short byte

def twoByteChunk (first second : U8) : Chunk where
  bytes := [first, second]
  short := twoBytes_short first second

/-- `ab` in one update and in two. -/
theorem twoBytes_chunkIndependent :
    ∃ ctx otherCtx,
      hashUpdates sha256Algorithm [byteChunk 0x61, byteChunk 0x62]
        (hashInit sha256Algorithm ⟨fun _ => 0, 0, fun _ => 0, 0⟩) = some ctx ∧
      hashUpdates sha256Algorithm [twoByteChunk 0x61 0x62]
        (hashInit sha256Algorithm ⟨fun _ => 0, 0, fun _ => 7, 0⟩) = some otherCtx ∧
      SameContents ctx otherCtx ∧ ctx.bufLen.toNat < 64 ∧
      ∃ digest, hashFinal sha256Algorithm ctx = some digest ∧
        hashFinal sha256Algorithm otherCtx = some digest :=
  hashUpdates_chunkIndependent .sha256 _ _ (by decide)

end XKern
