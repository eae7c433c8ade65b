import XKern.HashPadding

namespace XKern

open BlockStream List Option

/-!
# HMAC

Model of `sha256_hash` and `hmac_sha256` in `bsd/crypto/crypto_hash.cpp`.  The
contexts are local variables without a value at first, so that they are arguments
here; nothing depends on them.  `hmac_sha256` uses one context twice, and the digest
of the first pass is kept in `mac`.
-/

/-- `sha256_ctx`. -/
abbrev Sha256Ctx := HashCtx sha256Algorithm.State

/-- `sha256_hash`, with what its context held before. -/
def sha256Hash (ctx : Sha256Ctx) (data : List U8) : Option (List U8) := do
  let ctx ← sha256Update (sha256Init ctx) data (.ofNat 32 data.length)
  sha256Final ctx

/-- One pass of `hmac_sha256`: `hctx` takes in a pad and some data, and its digest goes
to `mac`. -/
def hmacPass (hctx : Sha256Ctx) (pad data : List U8) : Option (Sha256Ctx × List U8) := do
  let hctx ← sha256Update (sha256Init hctx) pad 64
  let hctx ← sha256Update hctx data (.ofNat 32 data.length)
  let hctx ← hashFinish sha256Algorithm hctx
  return (hctx, sha256Algorithm.digest hctx.state)

/-- `key` after the first branch of `hmac_sha256`. -/
def hmacShortKey (keyCtx : Sha256Ctx) (key : List U8) : Option (List U8) :=
  if 64 < key.length then sha256Hash keyCtx key else some key

/-- `hmac_sha256`, with what `hctx` and the context of `sha256_hash` held before. -/
def hmacSha256 (hctx keyCtx : Sha256Ctx) (key data : List U8) : Option (List U8) := do
  let key ← hmacShortKey keyCtx key
  let kPad ← copyToBuffer (fun _ => 0) 0 key (.ofNat 32 key.length)
  let iPad := ofFn fun i => kPad i ^^^ 0x36
  let oPad := ofFn fun i => kPad i ^^^ 0x5c
  let (hctx, mac) ← hmacPass hctx iPad data
  let (_, mac) ← hmacPass hctx oPad mac
  return mac

/-! ## Digests -/

/-- SHA-256 as the code pads and computes it. -/
def sha256Digest (message : List U8) : List U8 :=
  sha256Algorithm.digest (transformAll sha256Algorithm sha256Algorithm.initial
    (blocks 64 (codePadding sha256Algorithm message)))

theorem length_sha256Digest (message : List U8) : (sha256Digest message).length = 32 := by
  have digestLength (state : Fin 8 → U32) : ((ofFn state).flatMap writeBe32).length = 32 := by
    rw [length_flatMap, map_ofFn]
    rfl
  exact digestLength _

variable {message data key : List U8}

theorem hashFinish_digest {ctx : Sha256Ctx} (absorbed : Absorbed message ctx) :
    ∃ after, hashFinish sha256Algorithm ctx = some after ∧
      sha256Algorithm.digest after.state = sha256Digest message := by
  obtain ⟨after, finished, holds⟩ := hashFinish_absorbed (length_lenpad .sha256) absorbed
  exact ⟨after, finished, congrArg sha256Algorithm.digest holds.state⟩

theorem absorbed_sha256Init (ctx : Sha256Ctx) : Absorbed [] (sha256Init ctx) :=
  absorbed_hashInit ctx

theorem sha256Update_whole {ctx : Sha256Ctx} (absorbed : Absorbed message ctx)
    (short : data.length < 2 ^ 32) :
    ∃ after, sha256Update ctx data (.ofNat 32 data.length) = some after ∧
      Absorbed (message ++ data) after := by
  have isLength : (BitVec.ofNat 32 data.length).toNat = data.length := by
    rw [BitVec.toNat_ofNat, Nat.mod_eq_of_lt short]
  obtain ⟨after, updated, next⟩ := hashUpdate_absorbed absorbed isLength.le
  rw [isLength, take_length] at next
  exact ⟨after, updated, next⟩

theorem sha256Hash_eq (ctx : Sha256Ctx) (short : message.length < 2 ^ 32) :
    sha256Hash ctx message = some (sha256Digest message) := by
  obtain ⟨updated, isUpdated, absorbed⟩ := sha256Update_whole (absorbed_sha256Init ctx) short
  obtain ⟨after, finished, digest⟩ := hashFinish_digest absorbed
  rw [sha256Hash, isUpdated]
  change sha256Final updated = _
  rw [sha256Final, hashFinal, finished, map_some, digest, nil_append]

theorem hmacPass_eq (hctx : Sha256Ctx) {pad : List U8} (isPad : pad.length = 64)
    (short : data.length < 2 ^ 32) :
    ∃ after, hmacPass hctx pad data = some (after, sha256Digest (pad ++ data)) := by
  have padShort : pad.length < 2 ^ 32 := by omega
  obtain ⟨padded, isPadded, paddedAbsorbed⟩ := sha256Update_whole
    (absorbed_sha256Init hctx) padShort
  obtain ⟨updated, isUpdated, absorbed⟩ := sha256Update_whole paddedAbsorbed short
  obtain ⟨after, finished, digest⟩ := hashFinish_digest absorbed
  have isBlock : BitVec.ofNat 32 pad.length = 64 := congrArg (BitVec.ofNat 32) isPad
  rw [isBlock] at isPadded
  refine ⟨after, ?_⟩
  simp only [hmacPass, isPadded, isUpdated, finished, bind_eq_bind, bind_some, digest,
    nil_append]
  rfl

/-! ## The construction -/

def zeroPadded (key : List U8) : List U8 :=
  key ++ replicate (64 - key.length) 0

/-- `k_pad`, of a key of any length. -/
def hmacKey (key : List U8) : List U8 :=
  zeroPadded (if 64 < key.length then sha256Digest key else key)

/-- The result of `hmac_sha256`. -/
def hmacDigest (key data : List U8) : List U8 :=
  sha256Digest ((hmacKey key).map (· ^^^ 0x5c) ++
    sha256Digest ((hmacKey key).map (· ^^^ 0x36) ++ data))

theorem length_shortened_le (key : List U8) :
    (if 64 < key.length then sha256Digest key else key).length ≤ 64 := by
  split
  · rw [length_sha256Digest]
    decide
  · omega

theorem copyToBuffer_zeroPadded (fits : key.length ≤ 64) :
    ∃ kPad, copyToBuffer (fun _ => 0) 0 key (.ofNat 32 key.length) = some kPad ∧
      ofFn kPad = zeroPadded key := by
  have isLength : (BitVec.ofNat 32 key.length).toNat = key.length := by
    rw [BitVec.toNat_ofNat]
    omega
  have zero : (0 : U32).toNat = 0 := rfl
  rw [copyToBuffer, isLength, zero, if_pos (by omega)]
  refine ⟨_, rfl, ?_⟩
  have length : (zeroPadded key).length = 64 := by
    rw [zeroPadded, length_append, length_replicate]
    omega
  refine ext_getElem (List.length_ofFn.trans length.symm) fun i inBuffer _ => ?_
  rw [length_ofFn] at inBuffer
  rw [List.getElem_ofFn]
  simp only [zeroPadded]
  by_cases inKey : i < key.length
  · rw [if_pos (by omega), getElem_append_left inKey, Nat.sub_zero, getD_eq_getElem _ _ inKey]
  · rw [if_neg (by omega), getElem_append_right (Nat.le_of_not_lt inKey), getElem_replicate]

theorem hmacSha256_eq (hctx keyCtx : Sha256Ctx) (keyShort : key.length < 2 ^ 32)
    (dataShort : data.length < 2 ^ 32) :
    hmacSha256 hctx keyCtx key data = some (hmacDigest key data) := by
  have shortened : hmacShortKey keyCtx key =
      some (if 64 < key.length then sha256Digest key else key) := by
    rw [hmacShortKey, sha256Hash_eq keyCtx keyShort]
    split <;> rfl
  have fits := length_shortened_le key
  obtain ⟨kPad, copied, isPadded⟩ := copyToBuffer_zeroPadded fits
  have pad (byte : U8) : (ofFn fun i => kPad i ^^^ byte) = (hmacKey key).map (· ^^^ byte) := by
    rw [hmacKey, ← isPadded, map_ofFn]
    rfl
  have padLength (byte : U8) : (ofFn fun i => kPad i ^^^ byte).length = 64 := length_ofFn
  obtain ⟨inner, isInner⟩ := hmacPass_eq hctx (padLength 0x36) dataShort
  have innerShort : (sha256Digest ((ofFn fun i => kPad i ^^^ 0x36) ++ data)).length < 2 ^ 32 := by
    rw [length_sha256Digest]
    decide
  obtain ⟨outer, isOuter⟩ := hmacPass_eq inner (padLength 0x5c) innerShort
  simp only [hmacSha256, shortened, copied, isInner, isOuter, bind_eq_bind, bind_some]
  rw [pad, pad]
  rfl

/-- `sha256_hash` gives this digest, whatever its context held. -/
def Hashes (message digest : List U8) : Prop :=
  ∀ ctx, sha256Hash ctx message = some digest

/-- The key that `hmac_sha256` is defined with: zeros behind the key, or behind its digest
if it is longer than a block. -/
def IsHmacKey (key padded : List U8) : Prop :=
  (key.length ≤ 64 ∧ padded = zeroPadded key) ∨
    (64 < key.length ∧ ∃ digest, Hashes key digest ∧ padded = zeroPadded digest)

theorem isHmacKey_hmacKey (short : key.length < 2 ^ 32) : IsHmacKey key (hmacKey key) := by
  rw [hmacKey]
  by_cases long : 64 < key.length
  · rw [if_pos long]
    exact .inr ⟨long, _, fun ctx => sha256Hash_eq ctx short, rfl⟩
  · rw [if_neg long]
    exact .inl ⟨Nat.le_of_not_lt long, rfl⟩

theorem length_hmacKey (key : List U8) : (hmacKey key).length = 64 := by
  have fits := length_shortened_le key
  rw [hmacKey, zeroPadded, length_append, length_replicate]
  omega

/-- `hmac_sha256` is the nested hash of the two pads. -/
theorem hmacSha256_construction (key data : List U8) (keyShort : key.length < 2 ^ 32 - 64)
    (dataShort : data.length < 2 ^ 32 - 64) :
    ∃ padded inner mac,
      IsHmacKey key padded ∧
        Hashes (padded.map (· ^^^ 0x36) ++ data) inner ∧
        Hashes (padded.map (· ^^^ 0x5c) ++ inner) mac ∧
        ∀ hctx keyCtx, hmacSha256 hctx keyCtx key data = some mac := by
  have innerShort : ((hmacKey key).map (· ^^^ 0x36) ++ data).length < 2 ^ 32 := by
    rw [length_append, length_map, length_hmacKey]
    omega
  have outerShort (inner : List U8) :
      ((hmacKey key).map (· ^^^ 0x5c) ++ sha256Digest inner).length < 2 ^ 32 := by
    rw [length_append, length_map, length_hmacKey, length_sha256Digest]
    decide
  exact ⟨hmacKey key, _, hmacDigest key data, isHmacKey_hmacKey (by omega),
    fun ctx => sha256Hash_eq ctx innerShort, fun ctx => sha256Hash_eq ctx (outerShort _),
    fun hctx keyCtx => hmacSha256_eq hctx keyCtx (by omega) (by omega)⟩

/-- A key of one byte. -/
theorem oneByteKey_construction :
    ∃ padded inner mac,
      IsHmacKey [7] padded ∧
        Hashes (padded.map (· ^^^ 0x36) ++ [1, 2]) inner ∧
        Hashes (padded.map (· ^^^ 0x5c) ++ inner) mac ∧
        ∀ hctx keyCtx, hmacSha256 hctx keyCtx [7] [1, 2] = some mac :=
  hmacSha256_construction [7] [1, 2] (by decide) (by decide)

end XKern
