import XKern.Hmac

namespace XKern

open List

/-!
# Derived keys

Model of `key_derive` in `bsd/crypto/crypto_key.cpp`, and PBKDF2 with the HMAC of the
library.  A password is the list of its characters, without the terminator.
-/

/-- `AES_256_KEY_SIZE`. -/
def aes256KeySize : Nat :=
  32

/-- `crypto_key`. -/
structure CryptoKey where
  data : List U8
  len : U32

/-- `accum[k2] ^= prev[k2]`, for all 32 bytes. -/
def xorDigest (accum prev : List U8) : List U8 :=
  accum.zipWith (· ^^^ ·) prev

/-- The loop over `j` in `key_derive`: `count` rounds. -/
def deriveRounds (hmac : List U8 → Option (List U8)) : Nat → List U8 → Option (List U8)
  | 0, accum => some accum
  | count + 1, accum => do
      let prev ← hmac accum
      deriveRounds hmac count (xorDigest accum prev)

/-- The body of the loop over `i` in `key_derive`: `block[i]`. -/
def deriveByte (hmac : List U8 → Option (List U8)) (iterations : U32) (i : Nat) : Option U8 := do
  let accum ← hmac [.ofNat 8 (i + 1)]
  let accum ← hmac accum
  let accum ← deriveRounds hmac (iterations.toNat - 1) accum
  return accum.foldl (· ^^^ ·) 0

/-- `key_derive`, which does not use `salt`. -/
def keyDerive (hctx keyCtx : Sha256Ctx) (k : CryptoKey) (password _salt : List U8)
    (keyLen iterations : U32) : Option CryptoKey := do
  let keyLen := if aes256KeySize < keyLen.toNat then .ofNat 32 aes256KeySize else keyLen
  let block ← (range keyLen.toNat).mapM
    (deriveByte (hmacSha256 hctx keyCtx password) iterations)
  return { data := block ++ k.data.drop keyLen.toNat, len := keyLen }

/-! ## PBKDF2 -/

/-- `INT (i)`: the four bytes of the number of a block, most significant first. -/
def blockNumber (i : Nat) : List U8 :=
  writeBe32 (.ofNat 32 i)

/-- `U_1 xor … xor U_c`, from `U_1` on; `count` is `c - 1`. -/
def pbkdf2Sum (prf : List U8 → List U8) : Nat → List U8 → List U8
  | 0, u => u
  | count + 1, u => xorDigest u (pbkdf2Sum prf count (prf u))

/-- The first block of PBKDF2, with the HMAC of the library. -/
def pbkdf2Block (password salt : List U8) (iterations : Nat) : List U8 :=
  pbkdf2Sum (hmacDigest password) (iterations - 1)
    (hmacDigest password (salt ++ blockNumber 1))

/-- `key_derive` gives the first bytes of PBKDF2. -/
def DerivesPbkdf2 (password salt : List U8) (keyLen iterations : U32) : Prop :=
  ∀ hctx keyCtx k, ∃ derived,
    keyDerive hctx keyCtx k password salt keyLen iterations = some derived ∧
      derived.len = keyLen ∧
      derived.data.take keyLen.toNat =
        (pbkdf2Block password salt iterations.toNat).take keyLen.toNat

/-! ## What `key_derive` computes -/

/-- `accum` after `count` rounds of the loop over `j`. -/
def accumulated (prf : List U8 → List U8) : Nat → List U8 → List U8
  | 0, accum => accum
  | count + 1, accum => accumulated prf count (xorDigest accum (prf accum))

/-- The byte `i` of a derived key. -/
def derivedByte (password : List U8) (iterations i : Nat) : U8 :=
  (accumulated (hmacDigest password) (iterations - 1)
    (hmacDigest password (hmacDigest password [.ofNat 8 (i + 1)]))).foldl (· ^^^ ·) 0

theorem length_hmacDigest (key data : List U8) : (hmacDigest key data).length = 32 :=
  length_sha256Digest _

section Returns

variable {hctx keyCtx : Sha256Ctx} {password : List U8} (short : password.length < 2 ^ 32)

include short

theorem hmacSha256_digest {data : List U8} (isDigest : data.length = 32) :
    hmacSha256 hctx keyCtx password data = some (hmacDigest password data) :=
  hmacSha256_eq hctx keyCtx short (isDigest.trans_lt (by decide))

theorem deriveRounds_eq (count : Nat) {accum : List U8} (isDigest : accum.length = 32) :
    deriveRounds (hmacSha256 hctx keyCtx password) count accum =
      some (accumulated (hmacDigest password) count accum) := by
  induction count generalizing accum with
  | zero => rfl
  | succ count ih =>
    have nextDigest : (xorDigest accum (hmacDigest password accum)).length = 32 := by
      rw [xorDigest, length_zipWith, isDigest, length_hmacDigest, min_self]
    rw [deriveRounds, hmacSha256_digest short isDigest]
    exact ih nextDigest

theorem deriveByte_eq (iterations : U32) (i : Nat) :
    deriveByte (hmacSha256 hctx keyCtx password) iterations i =
      some (derivedByte password iterations.toNat i) := by
  have oneByte : [BitVec.ofNat 8 (i + 1)].length < 2 ^ 32 := by
    rw [length_singleton]
    decide
  have isDigest := length_hmacDigest password
  rw [deriveByte, hmacSha256_eq hctx keyCtx short oneByte]
  change (hmacSha256 hctx keyCtx password _ >>= _) = _
  rw [hmacSha256_digest short (isDigest _)]
  change (deriveRounds (hmacSha256 hctx keyCtx password) _ _ >>= _) = _
  rw [deriveRounds_eq short _ (isDigest _)]
  rfl

theorem keyDerive_eq (k : CryptoKey) (salt : List U8) {keyLen : U32} (few : keyLen.toNat ≤ 32)
    (iterations : U32) :
    keyDerive hctx keyCtx k password salt keyLen iterations = some {
        data := (range keyLen.toNat).map (derivedByte password iterations.toNat) ++
          k.data.drop keyLen.toNat
        len := keyLen } := by
  have bytes : deriveByte (hmacSha256 hctx keyCtx password) iterations =
      fun i => some (derivedByte password iterations.toNat i) := by
    funext i
    exact deriveByte_eq short iterations i
  have clamped : ¬ aes256KeySize < keyLen.toNat := not_lt.mpr few
  rw [keyDerive, if_neg clamped, bytes]
  change (mapM (fun i => pure (derivedByte password iterations.toNat i)) _ >>= _) = _
  rw [mapM_pure]
  rfl

end Returns

theorem derivesPbkdf2_iff {password : List U8} (short : password.length < 2 ^ 32) (salt : List U8)
    {keyLen : U32} (few : keyLen.toNat ≤ 32) (iterations : U32) :
    DerivesPbkdf2 password salt keyLen iterations ↔
      (range keyLen.toNat).map (derivedByte password iterations.toNat) =
        (pbkdf2Block password salt iterations.toNat).take keyLen.toNat := by
  have taken (k : CryptoKey) :
      ((range keyLen.toNat).map (derivedByte password iterations.toNat) ++
        k.data.drop keyLen.toNat).take keyLen.toNat =
          (range keyLen.toNat).map (derivedByte password iterations.toNat) :=
    take_left' (by rw [length_map, length_range])
  constructor
  · intro derives
    obtain ⟨derived, isDerived, -, bytes⟩ :=
      derives (blankCtx sha256Algorithm) (blankCtx sha256Algorithm) { data := [], len := 0 }
    rw [keyDerive_eq short _ salt few] at isDerived
    cases isDerived
    rwa [taken] at bytes
  · intro same hctx keyCtx k
    exact ⟨_, keyDerive_eq short k salt few iterations, rfl, (taken k).trans same⟩

/-- The first HMAC of `key_derive` for the password "a". -/
def firstDigest : List U8 :=
  [41, 158, 233, 72, 176, 209, 2, 146, 25, 168, 10, 240, 12, 119, 234, 100, 117, 64, 192, 185,
    177, 22, 205, 241, 193, 215, 81, 166, 23, 145, 247, 231]

theorem hmacDigest_first : hmacDigest [0x61] [1] = firstDigest := by
  decide +kernel

theorem hmacDigest_second : (hmacDigest [0x61] firstDigest).foldl (· ^^^ ·) 0 = 164 := by
  decide +kernel

theorem pbkdf2Block_first : (pbkdf2Block [0x61] [] 1).getD 0 0 = 217 := by
  decide +kernel

theorem derivedByte_ne_pbkdf2 : derivedByte [0x61] 1 0 ≠ (pbkdf2Block [0x61] [] 1).getD 0 0 := by
  have isByte : derivedByte [0x61] 1 0 = 164 := by
    rw [← hmacDigest_second, ← hmacDigest_first]
    rfl
  rw [isByte, pbkdf2Block_first]
  decide

theorem first_of_map_eq_take {bytes : List U8} {byte : Nat → U8} {count : Nat}
    (positive : 0 < count) (same : (range count).map byte = bytes.take count) :
    byte 0 = bytes.getD 0 0 := by
  have first := congrArg (fun list => list[0]?) same
  simp only [getElem?_map, getElem?_range positive, Option.map_some,
    getElem?_take_of_lt positive] at first
  rw [getD_eq_getElem?_getD, ← first]
  rfl

theorem not_derivesPbkdf2 {keyLen : U32} (few : keyLen.toNat ≤ 32) (positive : 0 < keyLen.toNat) :
    ¬ DerivesPbkdf2 [0x61] [] keyLen 1 := by
  rw [derivesPbkdf2_iff (by decide) [] few 1]
  intro same
  exact derivedByte_ne_pbkdf2 (first_of_map_eq_take positive same)

/-- `key_derive` is PBKDF2 for all passwords, salts and iterations only where it derives
nothing. -/
theorem keyDerive_isPbkdf2_iff (keyLen : U32) (few : keyLen.toNat ≤ 32) :
    (∀ password salt iterations, 0 ∉ password → password.length < 2 ^ 32 - 64 →
        salt.length < 2 ^ 32 - 68 → 1 ≤ iterations.toNat →
          DerivesPbkdf2 password salt keyLen iterations) ↔
      keyLen = 0 := by
  constructor
  · intro derives
    by_contra nonzero
    have positive : 0 < keyLen.toNat :=
      pos_of_ne_zero fun isZero => nonzero (BitVec.eq_of_toNat_eq isZero)
    exact not_derivesPbkdf2 few positive
      (derives [0x61] [] 1 (by decide) (by decide) (by decide) (by decide))
  · rintro rfl password salt iterations - short - -
    rw [derivesPbkdf2_iff (by omega) salt few]
    rfl

/-- A key of one byte. -/
theorem keyOfOneByte_isPbkdf2_iff :
    (∀ password salt iterations, 0 ∉ password → password.length < 2 ^ 32 - 64 →
        salt.length < 2 ^ 32 - 68 → 1 ≤ iterations.toNat →
          DerivesPbkdf2 password salt 1 iterations) ↔
      (1 : U32) = 0 :=
  keyDerive_isPbkdf2_iff 1 (by decide)

/-- The first byte of a key is not the one of PBKDF2. -/
theorem oneByteKey_notPbkdf2 : ¬ DerivesPbkdf2 [0x61] [] 1 1 :=
  not_derivesPbkdf2 (by decide) (by decide)

end XKern
