import Mathlib.Data.List.GetD
import XKern.Pmm

namespace XKern

/-!
# Base64

Model of `crypto_base64_encode` and `crypto_base64_decode` in
`bsd/crypto/crypto_util.cpp`.  A buffer is the list of its bytes, so that its length is
`out_max` or `in_len`.  `none` is an access outside a buffer, or a loop without an end.
-/

/-- The character `=`. -/
def padChar : U8 := 0x3d

/-- `b64_table`. -/
def b64Table : List U8 :=
  [ 0x41, 0x42, 0x43, 0x44, 0x45, 0x46, 0x47, 0x48, 0x49, 0x4a, 0x4b, 0x4c, 0x4d, 0x4e, 0x4f, 0x50,
    0x51, 0x52, 0x53, 0x54, 0x55, 0x56, 0x57, 0x58, 0x59, 0x5a, 0x61, 0x62, 0x63, 0x64, 0x65, 0x66,
    0x67, 0x68, 0x69, 0x6a, 0x6b, 0x6c, 0x6d, 0x6e, 0x6f, 0x70, 0x71, 0x72, 0x73, 0x74, 0x75, 0x76,
    0x77, 0x78, 0x79, 0x7a, 0x30, 0x31, 0x32, 0x33, 0x34, 0x35, 0x36, 0x37, 0x38, 0x39, 0x2b, 0x2f ]

/-! ## Encoding -/

/-- `b64_table[(triple >> shift) & 0x3F]`. -/
def b64Char (triple : U32) (shift : Nat) : U8 :=
  b64Table.getD ((triple >>> shift) &&& 0x3F).toNat 0

/-- `triple` in `crypto_base64_encode`. -/
def packBytes (a b c : U8) : U32 :=
  (a.setWidth 32 <<< 16) ||| (b.setWidth 32 <<< 8) ||| c.setWidth 32

/-- The four characters for the bytes from `data[i]` on; bytes behind the end count as
zero. -/
def encodeGroup (data : List U8) (i : Nat) : List U8 :=
  let triple := packBytes (data.getD i 0) (data.getD (i + 1) 0) (data.getD (i + 2) 0)
  [ b64Char triple 18, b64Char triple 12,
    if i + 1 < data.length then b64Char triple 6 else padChar,
    if i + 2 < data.length then b64Char triple 0 else padChar ]

/-- `out[j++] = byte`. -/
def putByte (byte : U8) (state : List U8 × U32) : Option (List U8 × U32) :=
  if state.2.toNat < state.1.length then
    some (state.1.set state.2.toNat byte, state.2 + 1)
  else
    none

/-- The loop of `crypto_base64_encode`, with `out` and `j`. -/
def encodeLoop (data : List U8) (i : Nat) (state : List U8 × U32) : Option (List U8 × U32) :=
  if i < data.length then
    match (encodeGroup data i).foldlM (fun state byte => putByte byte state) state with
    | some state => encodeLoop data (i + 3) state
    | none => none
  else
    some state
termination_by data.length - i

/-- `crypto_base64_encode`: the length it returns, and `out`. -/
def cryptoBase64Encode (data out : List U8) : Option (U32 × List U8) :=
  let needed : U32 := ((.ofNat 32 data.length + 2) / 3) * 4 + 1
  if out.length < needed.toNat then
    some (0, out)
  else
    match encodeLoop data 0 (out, 0) with
    | some (out, j) => (putByte 0 (out, j)).map fun terminated => (j, terminated.1)
    | none => none

/-! ## Decoding -/

/-- `b64_dec`. -/
def b64Dec (c : U8) : Int :=
  if 0x41 ≤ c ∧ c ≤ 0x5a then
    c.toNat - 0x41
  else if 0x61 ≤ c ∧ c ≤ 0x7a then
    c.toNat - 0x61 + 26
  else if 0x30 ≤ c ∧ c ≤ 0x39 then
    c.toNat - 0x30 + 52
  else if c = 0x2b then
    62
  else if c = 0x2f then
    63
  else
    -1

/-- `a` and `b` in `crypto_base64_decode`: the value of `in[k]`, or 0. -/
def sextetOrZero (input : List U8) (k : Nat) : U32 :=
  if k < input.length then
    if b64Dec (input.getD k 0) < 0 then 0 else BitVec.ofInt 32 (b64Dec (input.getD k 0))
  else
    0

/-- `c` and `d` in `crypto_base64_decode`, as they are added to `triple`: nothing is added
for the value `-1`. -/
def sextetUnlessPad (input : List U8) (k : Nat) : U32 :=
  if k < input.length ∧ input.getD k 0 ≠ padChar ∧ 0 ≤ b64Dec (input.getD k 0) then
    BitVec.ofInt 32 (b64Dec (input.getD k 0))
  else
    0

/-- `triple` in `crypto_base64_decode`. -/
def packSextets (input : List U8) (i : Nat) : U32 :=
  (sextetOrZero input i <<< 18) ||| (sextetOrZero input (i + 1) <<< 12) |||
    (sextetUnlessPad input (i + 2) <<< 6) ||| sextetUnlessPad input (i + 3)

/-- `if (j < out_max) out[j++] = byte`. -/
def putIfRoom (byte : U8) (state : List U8 × U32) : List U8 × U32 :=
  if state.2.toNat < state.1.length then
    (state.1.set state.2.toNat byte, state.2 + 1)
  else
    state

/-- `if (j < out_max && in[k] != '=') out[j++] = byte`. -/
def putUnlessPad (input : List U8) (k : Nat) (byte : U8)
    (state : List U8 × U32) : Option (List U8 × U32) :=
  if state.2.toNat < state.1.length then
    match input[k]? with
    | some char => if char = padChar then some state else some (putIfRoom byte state)
    | none => none
  else
    some state

/-- The body of the loop of `crypto_base64_decode`. -/
def decodeGroup (input : List U8) (i : Nat)
    (state : List U8 × U32) : Option (List U8 × U32) := do
  let triple := packSextets input i
  let state := putIfRoom ((triple >>> 16).setWidth 8) state
  let state ← putUnlessPad input (i + 2) ((triple >>> 8).setWidth 8) state
  putUnlessPad input (i + 3) (triple.setWidth 8) state

/-- The loop of `crypto_base64_decode`, with `out` and `j`. -/
def decodeLoop (input : List U8) (i : Nat) (state : List U8 × U32) : Option (List U8 × U32) :=
  if i < input.length then
    match decodeGroup input i state with
    -- from `i = 2^32 - 4` on the counter goes back to 0
    | some state => if i + 4 < 2 ^ 32 then decodeLoop input (i + 4) state else none
    | none => none
  else
    some state
termination_by input.length - i

/-- `pad` in `crypto_base64_decode`. -/
def padCount (input : List U8) : U32 :=
  let last (distance : Nat) : U32 :=
    if 2 ≤ input.length ∧ input.getD (input.length - distance) 0 = padChar then 1 else 0
  last 1 + last 2

/-- `crypto_base64_decode`: the length it returns, and `out`. -/
def cryptoBase64Decode (input out : List U8) : Option (U32 × List U8) :=
  let needed : U32 := (.ofNat 32 input.length / 4) * 3 - padCount input
  if out.length < needed.toNat then
    some (0, out)
  else
    (decodeLoop input 0 (out, 0)).map fun state => (state.2, state.1)

end XKern

namespace XKern.Rfc4648

/-! ## The encoding of RFC 4648 -/

/-- The alphabet: upper-case letters, lower-case letters, digits, `+` and `/`. -/
def alphabet (value : BitVec 6) : U8 :=
  if value < 26 then
    0x41 + value.setWidth 8
  else if value < 52 then
    0x61 + (value - 26).setWidth 8
  else if value < 62 then
    0x30 + (value - 52).setWidth 8
  else if value = 62 then
    0x2b
  else
    0x2f

/-- The encoding: 24 bits at a time, and at the end 8 or 16 bits with zero bits behind
them and `=` for what is missing. -/
def encode : List U8 → List U8
  | [] => []
  | [a] =>
      let bits : BitVec 12 := a ++ 0#4
      [ alphabet (bits.extractLsb' 6 6), alphabet (bits.extractLsb' 0 6), padChar, padChar ]
  | [a, b] =>
      let bits : BitVec 18 := a ++ b ++ 0#2
      [ alphabet (bits.extractLsb' 12 6), alphabet (bits.extractLsb' 6 6),
        alphabet (bits.extractLsb' 0 6), padChar ]
  | a :: b :: c :: rest =>
      let bits : BitVec 24 := a ++ b ++ c
      alphabet (bits.extractLsb' 18 6) :: alphabet (bits.extractLsb' 12 6) ::
        alphabet (bits.extractLsb' 6 6) :: alphabet (bits.extractLsb' 0 6) :: encode rest

theorem length_encode (data : List U8) : (encode data).length = 4 * ((data.length + 2) / 3) := by
  induction data using encode.induct with
  | case1 => rfl
  | case2 a => simp [encode]
  | case3 a b => simp [encode]
  | case4 a b c rest ih =>
    simp only [encode, List.length_cons, ih]
    omega

end XKern.Rfc4648
