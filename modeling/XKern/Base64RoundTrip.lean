import XKern.Base64

namespace XKern

open Rfc4648 List BitVec Nat Option

/-!
# Round trip of Base64

Both loops go through groups of 24 bits, and the two short groups at the end are
groups with zero bytes behind them.  `crypto_base64_encode` writes the encoding of
RFC 4648, and `crypto_base64_decode` gives the bytes back.
-/

/-! ## Groups -/

def sextet (a b c : U8) (shift : Nat) : BitVec 6 :=
  (a ++ b ++ c : BitVec 24).extractLsb' shift 6

theorem b64Table_eq : ∀ value : BitVec 6, b64Table.getD value.toNat 0 = alphabet value := by
  decide

theorem b64Dec_alphabet : ∀ value : BitVec 6, b64Dec (alphabet value) = value.toNat := by
  decide

theorem alphabet_ne_padChar : ∀ value : BitVec 6, alphabet value ≠ padChar := by
  decide

theorem packBytes_eq (a b c : U8) : packBytes a b c = (a ++ b ++ c : BitVec 24).setWidth 32 := by
  rw [packBytes]
  grind

theorem b64Char_packBytes (a b c : U8) (shift : Nat) :
    b64Char (packBytes a b c) shift = alphabet (sextet a b c shift) := by
  have same : ((packBytes a b c >>> shift) &&& 0x3F).toNat = (sextet a b c shift).toNat := by
    rw [packBytes_eq, sextet, toNat_and, toNat_ushiftRight, toNat_setWidth, extractLsb'_toNat]
    have small := (a ++ b ++ c : BitVec 24).isLt
    rw [mod_eq_of_lt (by omega)]
    exact and_two_pow_sub_one_eq_mod _ 6
  rw [b64Char, same, b64Table_eq]

theorem packBytes_first (a b c : U8) : (packBytes a b c >>> 16).setWidth 8 = a := by
  rw [packBytes_eq]
  apply eq_of_getLsbD_eq
  intro i less
  simp only [getLsbD_setWidth, getLsbD_ushiftRight, getLsbD_append]
  grind

theorem packBytes_second (a b c : U8) : (packBytes a b c >>> 8).setWidth 8 = b := by
  rw [packBytes_eq]
  apply eq_of_getLsbD_eq
  intro i less
  simp only [getLsbD_setWidth, getLsbD_ushiftRight, getLsbD_append]
  grind

theorem packBytes_third (a b c : U8) : (packBytes a b c).setWidth 8 = c := by
  rw [packBytes_eq]
  grind

theorem sextets_eq (a b c : U8) :
    ((sextet a b c 18).setWidth 32 <<< 18) ||| ((sextet a b c 12).setWidth 32 <<< 12) |||
        ((sextet a b c 6).setWidth 32 <<< 6) ||| (sextet a b c 0).setWidth 32 =
      packBytes a b c := by
  rw [packBytes_eq, sextet, sextet, sextet, sextet]
  generalize (a ++ b ++ c : BitVec 24) = bits
  grind

theorem sextet_of_zero (a b : U8) : sextet a b 0 0 = 0 := by
  rw [sextet]
  grind

theorem sextet_of_zeros (a : U8) : sextet a 0 0 6 = 0 := by
  rw [sextet]
  grind

theorem encode_one (a : U8) : encode [a] =
      [alphabet (sextet a 0 0 18), alphabet (sextet a 0 0 12), padChar, padChar] := by
  have first : (a ++ 0#4 : BitVec 12).extractLsb' 6 6 = sextet a 0 0 18 := by
    rw [sextet]
    grind
  have second : (a ++ 0#4 : BitVec 12).extractLsb' 0 6 = sextet a 0 0 12 := by
    rw [sextet]
    grind
  rw [encode, first, second]

theorem encode_two (a b : U8) : encode [a, b] =
      [alphabet (sextet a b 0 18), alphabet (sextet a b 0 12), alphabet (sextet a b 0 6),
        padChar] := by
  have first : (a ++ b ++ 0#2 : BitVec 18).extractLsb' 12 6 = sextet a b 0 18 := by
    rw [sextet]
    grind
  have second : (a ++ b ++ 0#2 : BitVec 18).extractLsb' 6 6 = sextet a b 0 12 := by
    rw [sextet]
    grind
  have third : (a ++ b ++ 0#2 : BitVec 18).extractLsb' 0 6 = sextet a b 0 6 := by
    rw [sextet]
    grind
  rw [encode, first, second, third]

theorem encode_three (a b c : U8) (rest : List U8) : encode (a :: b :: c :: rest) =
      [alphabet (sextet a b c 18), alphabet (sextet a b c 12), alphabet (sextet a b c 6),
        alphabet (sextet a b c 0)] ++ encode rest := by
  rw [encode]
  rfl

/-! ## Buffers -/

/-- A buffer that is filled as far as `j`. -/
def filled (before after : List U8) : List U8 × U32 :=
  (before ++ after, .ofNat 32 before.length)

theorem toNat_filled {before : List U8} (short : before.length < 2 ^ 32) (after : List U8) :
    (filled before after).2.toNat = before.length := by
  rw [filled, toNat_ofNat, mod_eq_of_lt short]

theorem room_filled (before : List U8) (old : U8) (after : List U8) :
    before.length < (filled before (old :: after)).1.length := by
  rw [filled, length_append, length_cons]
  omega

theorem putIfRoom_filled {before : List U8} (short : before.length < 2 ^ 32) (old : U8)
    (after : List U8) (byte : U8) :
    putIfRoom byte (filled before (old :: after)) = filled (before ++ [byte]) after := by
  rw [putIfRoom, toNat_filled short, if_pos (room_filled before old after)]
  refine Prod.ext ?_ ?_
  · change (before ++ old :: after).set before.length byte = before ++ [byte] ++ after
    rw [set_append_right _ _ (Nat.le_refl _), Nat.sub_self, set_cons_zero,
      List.append_assoc, singleton_append]
  · change BitVec.ofNat 32 before.length + 1 = BitVec.ofNat 32 (before ++ [byte]).length
    rw [length_append, length_singleton, ofNat_add]
    rfl

theorem putByte_filled {before : List U8} (short : before.length < 2 ^ 32) (old : U8)
    (after : List U8) (byte : U8) :
    putByte byte (filled before (old :: after)) = some (filled (before ++ [byte]) after) := by
  have put := putIfRoom_filled short old after byte
  rw [putIfRoom, toNat_filled short, if_pos (room_filled before old after)] at put
  rw [putByte, toNat_filled short, if_pos (room_filled before old after), put]

theorem putBytes_filled (bytes before after : List U8)
    (short : before.length + bytes.length < 2 ^ 32) (room : bytes.length ≤ after.length) :
    bytes.foldlM (fun state byte => putByte byte state) (filled before after) =
      some (filled (before ++ bytes) (after.drop bytes.length)) := by
  induction bytes generalizing before after with
  | nil => simp
  | cons byte bytes ih =>
    rw [length_cons] at short room
    obtain ⟨old, after, rfl⟩ := exists_cons_of_length_pos (zero_lt_of_lt room)
    have next := ih (before ++ [byte]) after
      (by rw [length_append, length_singleton]; omega) (le_of_succ_le_succ room)
    rw [foldlM_cons, putByte_filled (by omega) old after byte, bind_eq_bind,
      bind_some, next, List.append_assoc, singleton_append, length_cons,
      drop_succ_cons]

/-! ## Encoding -/

theorem encodeGroup_eq (done rest : List U8) : encodeGroup (done ++ rest) done.length =
      [ alphabet (sextet (rest.getD 0 0) (rest.getD 1 0) (rest.getD 2 0) 18),
        alphabet (sextet (rest.getD 0 0) (rest.getD 1 0) (rest.getD 2 0) 12),
        if 1 < rest.length then
          alphabet (sextet (rest.getD 0 0) (rest.getD 1 0) (rest.getD 2 0) 6)
        else
          padChar,
        if 2 < rest.length then
          alphabet (sextet (rest.getD 0 0) (rest.getD 1 0) (rest.getD 2 0) 0)
        else
          padChar ] := by
  have byte (k : Nat) : (done ++ rest).getD (done.length + k) 0 = rest.getD k 0 := by
    rw [getD_append_right _ _ _ _ (Nat.le_add_right _ _), Nat.add_sub_cancel_left]
  have inside (k : Nat) : done.length + k < (done ++ rest).length ↔ k < rest.length := by
    rw [length_append]
    omega
  have first := byte 0
  rw [add_zero] at first
  simp only [encodeGroup, first, byte, inside, b64Char_packBytes]

theorem encodeLoop_step {data : List U8} {i : Nat} (inside : i < data.length) {chars : List U8}
    (group : encodeGroup data i = chars) {before after : List U8}
    (short : before.length + chars.length < 2 ^ 32) (room : chars.length ≤ after.length) :
    encodeLoop data i (filled before after) =
      encodeLoop data (i + 3) (filled (before ++ chars) (after.drop chars.length)) := by
  rw [encodeLoop, if_pos inside, group, putBytes_filled chars before after short room]

theorem encodeLoop_eq {data done rest : List U8} (isData : data = done ++ rest)
    (before after : List U8) (short : before.length + (encode rest).length < 2 ^ 32)
    (room : (encode rest).length ≤ after.length) :
    encodeLoop data done.length (filled before after) =
      some (filled (before ++ encode rest) (after.drop (encode rest).length)) := by
  have length : data.length = done.length + rest.length := by
    rw [isData, length_append]
  induction rest using encode.induct generalizing done before after with
  | case1 =>
    rw [length_nil] at length
    rw [encodeLoop, if_neg (by omega)]
    simp [encode]
  | case2 a =>
    rw [length_singleton] at length
    have group : encodeGroup data done.length = encode [a] := by
      rw [isData, encodeGroup_eq, encode_one]
      rfl
    rw [encodeLoop_step (by omega) group short room, encodeLoop, if_neg (by omega)]
  | case3 a b =>
    rw [length_cons, length_singleton] at length
    have group : encodeGroup data done.length = encode [a, b] := by
      rw [isData, encodeGroup_eq, encode_two]
      rfl
    rw [encodeLoop_step (by omega) group short room, encodeLoop, if_neg (by omega)]
  | case4 a b c rest ih =>
    have nextData : data = (done ++ [a, b, c]) ++ rest := by
      rw [isData, List.append_assoc]
      rfl
    rw [length_cons, length_cons, length_cons] at length
    have group : encodeGroup data done.length =
        [alphabet (sextet a b c 18), alphabet (sextet a b c 12), alphabet (sextet a b c 6),
          alphabet (sextet a b c 0)] := by
      rw [isData, encodeGroup_eq]
      simp
    rw [encode_three] at short room ⊢
    generalize [alphabet (sextet a b c 18), alphabet (sextet a b c 12),
      alphabet (sextet a b c 6), alphabet (sextet a b c 0)] = chars at group short room ⊢
    rw [length_append] at short room
    have nextLength : (done ++ [a, b, c]).length = done.length + 3 := length_append
    have next := ih nextData (before ++ chars) (after.drop chars.length)
      (by rw [length_append]; omega) (by rw [length_drop]; omega)
      (by rw [nextLength]; omega)
    rw [nextLength] at next
    rw [encodeLoop_step (by omega) group (by omega) (by omega), next, List.append_assoc,
      drop_drop, length_append]

theorem cryptoBase64Encode_eq {data out : List U8} (short : data.length < 2 ^ 31)
    (room : 4 * ((data.length + 2) / 3) + 1 ≤ out.length) :
    cryptoBase64Encode data out = some (.ofNat 32 (4 * ((data.length + 2) / 3)),
        encode data ++ 0 :: out.drop (4 * ((data.length + 2) / 3) + 1)) := by
  have needed : (((.ofNat 32 data.length + 2) / 3) * 4 + 1 : U32).toNat =
      4 * ((data.length + 2) / 3) + 1 := by
    simp only [toNat_add, toNat_mul, toNat_udiv, toNat_ofNat, reduceToNat]
    omega
  have length := length_encode data
  have loop := encodeLoop_eq (nil_append data).symm [] out (by rw [length_nil]; omega) (by omega)
  rw [length, nil_append, length_nil] at loop
  obtain ⟨old, after, isAfter⟩ := exists_cons_of_length_pos
    (show 0 < (out.drop (4 * ((data.length + 2) / 3))).length by rw [length_drop]; omega)
  have isRest : out.drop (4 * ((data.length + 2) / 3) + 1) = after := by
    rw [← drop_drop, isAfter, drop_one, tail_cons]
  have encodedShort : (encode data).length < 2 ^ 32 := by omega
  have terminated := putByte_filled encodedShort old after 0
  rw [isAfter] at loop
  rw [cryptoBase64Encode, needed, if_neg (by omega)]
  have start : (out, (0 : U32)) = filled [] out := rfl
  rw [start, loop]
  change (putByte 0 (filled (encode data) (old :: after))).map _ = _
  rw [terminated, isRest, ← length]
  change some (BitVec.ofNat 32 (encode data).length, encode data ++ [0] ++ after) = _
  rw [List.append_assoc, singleton_append]

/-! ## Decoding -/

theorem ofInt_alphabet (value : BitVec 6) :
    BitVec.ofInt 32 (b64Dec (alphabet value)) = value.setWidth 32 := by
  rw [b64Dec_alphabet, ofInt_natCast, ofNat_toNat]

variable {input : List U8} {i : Nat} {a b c : U8}

section Characters

variable {k : Nat}

theorem getD_of_getElem? {char : U8} (isChar : input[k]? = some char) :
    input.getD k 0 = char ∧ k < input.length := by
  refine ⟨?_, (List.getElem?_eq_some_iff.mp isChar).1⟩
  rw [getD_eq_getElem?_getD, isChar, getD_some]

theorem sextetOrZero_alphabet {value : BitVec 6} (isChar : input[k]? = some (alphabet value)) :
    sextetOrZero input k = value.setWidth 32 := by
  obtain ⟨char, inside⟩ := getD_of_getElem? isChar
  have isValue : ¬ b64Dec (alphabet value) < 0 := by
    rw [b64Dec_alphabet]
    omega
  rw [sextetOrZero, if_pos inside, char, if_neg isValue, ofInt_alphabet]

theorem sextetUnlessPad_alphabet {value : BitVec 6} (isChar : input[k]? = some (alphabet value)) :
    sextetUnlessPad input k = value.setWidth 32 := by
  obtain ⟨char, inside⟩ := getD_of_getElem? isChar
  have isValue : 0 ≤ b64Dec (alphabet value) := by
    rw [b64Dec_alphabet]
    omega
  rw [sextetUnlessPad, char, if_pos ⟨inside, alphabet_ne_padChar value, isValue⟩, ofInt_alphabet]

theorem sextetUnlessPad_padChar (isChar : input[k]? = some padChar) :
    sextetUnlessPad input k = 0 := by
  obtain ⟨char, -⟩ := getD_of_getElem? isChar
  rw [sextetUnlessPad, char, if_neg]
  exact fun notPad => notPad.2.1 rfl

variable {before : List U8} (short : before.length < 2 ^ 32)

include short

theorem putUnlessPad_alphabet {value : BitVec 6} (isChar : input[k]? = some (alphabet value))
    (byte old : U8) (after : List U8) :
    putUnlessPad input k byte (filled before (old :: after)) =
      some (filled (before ++ [byte]) after) := by
  rw [putUnlessPad, toNat_filled short, if_pos (room_filled before old after), isChar]
  dsimp only
  rw [if_neg (alphabet_ne_padChar value), putIfRoom_filled short]

omit short in
theorem putUnlessPad_padChar (isChar : input[k]? = some padChar) (byte : U8)
    (state : List U8 × U32) :
    putUnlessPad input k byte state = some state := by
  rw [putUnlessPad, isChar]
  dsimp only
  rw [if_pos rfl, ite_self]

end Characters

section Groups

variable (first : input[i]? = some (alphabet (sextet a b c 18)))
  (second : input[i + 1]? = some (alphabet (sextet a b c 12)))

include first second

variable (third : sextetUnlessPad input (i + 2) = (sextet a b c 6).setWidth 32)
  (fourth : sextetUnlessPad input (i + 3) = (sextet a b c 0).setWidth 32)

include third fourth

theorem packSextets_eq :
    packSextets input i = packBytes a b c := by
  rw [packSextets, sextetOrZero_alphabet first, sextetOrZero_alphabet second, third, fourth,
    sextets_eq]

/-- A group puts out its first byte, and then what the other characters say. -/
theorem decodeGroup_eq (before : List U8) (short : before.length < 2 ^ 32) (old : U8)
    (after : List U8) :
    decodeGroup input i (filled before (old :: after)) =
      (putUnlessPad input (i + 2) b (filled (before ++ [a]) after)).bind
        (putUnlessPad input (i + 3) c) := by
  rw [decodeGroup, packSextets_eq first second third fourth, packBytes_first, packBytes_second,
    packBytes_third, putIfRoom_filled short]
  rfl

end Groups

/-- These characters stand in `in` from `in[i]` on. -/
def CharsAt (input : List U8) (i : Nat) (chars : List U8) : Prop :=
  ∃ before after, input = before ++ chars ++ after ∧ before.length = i

theorem CharsAt.char {chars : List U8} {k : Nat} {char : U8} (charsAt : CharsAt input i chars)
    (isChar : chars[k]? = some char) :
    input[i + k]? = some char := by
  obtain ⟨before, after, rfl, rfl⟩ := charsAt
  have inside := (List.getElem?_eq_some_iff.mp isChar).1
  rw [List.append_assoc, getElem?_append_right (Nat.le_add_right _ _),
    Nat.add_sub_cancel_left, getElem?_append_left inside, isChar]

theorem CharsAt.first {chars : List U8} {char : U8} (charsAt : CharsAt input i (char :: chars)) :
    input[i]? = some char :=
  charsAt.char (k := 0) rfl

section EncodedGroups

variable (before : List U8) (short : before.length + 3 < 2 ^ 32)

include short

theorem decodeGroup_one (charsAt : CharsAt input i (encode [a])) (old : U8) (after : List U8) :
    decodeGroup input i (filled before (old :: after)) = some (filled (before ++ [a]) after) := by
  rw [encode_one] at charsAt
  have pad : input[i + 2]? = some padChar := charsAt.char rfl
  have pad' : input[i + 3]? = some padChar := charsAt.char rfl
  have third : sextetUnlessPad input (i + 2) = (sextet a 0 0 6).setWidth 32 := by
    rw [sextetUnlessPad_padChar pad, sextet_of_zeros]
    rfl
  have fourth : sextetUnlessPad input (i + 3) = (sextet a 0 0 0).setWidth 32 := by
    rw [sextetUnlessPad_padChar pad', sextet_of_zero]
    rfl
  rw [decodeGroup_eq charsAt.first (charsAt.char rfl) third fourth before (by omega),
    putUnlessPad_padChar pad, bind_some, putUnlessPad_padChar pad']

theorem decodeGroup_two (charsAt : CharsAt input i (encode [a, b])) (old old' : U8)
    (after : List U8) :
    decodeGroup input i (filled before (old :: old' :: after)) =
      some (filled (before ++ [a, b]) after) := by
  rw [encode_two] at charsAt
  have char : input[i + 2]? = some (alphabet (sextet a b 0 6)) := charsAt.char rfl
  have pad : input[i + 3]? = some padChar := charsAt.char rfl
  have third := sextetUnlessPad_alphabet char
  have fourth : sextetUnlessPad input (i + 3) = (sextet a b 0 0).setWidth 32 := by
    rw [sextetUnlessPad_padChar pad, sextet_of_zero]
    rfl
  have firstShort : (before ++ [a]).length < 2 ^ 32 := by
    rw [length_append, length_singleton]
    omega
  rw [decodeGroup_eq charsAt.first (charsAt.char rfl) third fourth before (by omega),
    putUnlessPad_alphabet firstShort char, bind_some, putUnlessPad_padChar pad,
    List.append_assoc, singleton_append]

theorem decodeGroup_three (charsAt : CharsAt input i
      [alphabet (sextet a b c 18), alphabet (sextet a b c 12), alphabet (sextet a b c 6),
        alphabet (sextet a b c 0)])
    (old old' old'' : U8) (after : List U8) :
    decodeGroup input i (filled before (old :: old' :: old'' :: after)) =
      some (filled (before ++ [a, b, c]) after) := by
  have char : input[i + 2]? = some (alphabet (sextet a b c 6)) := charsAt.char rfl
  have char' : input[i + 3]? = some (alphabet (sextet a b c 0)) := charsAt.char rfl
  have firstShort : (before ++ [a]).length < 2 ^ 32 := by
    rw [length_append, length_singleton]
    omega
  have secondShort : (before ++ [a] ++ [b]).length < 2 ^ 32 := by
    rw [length_append, length_append, length_singleton, length_singleton]
    omega
  rw [decodeGroup_eq charsAt.first (charsAt.char rfl) (sextetUnlessPad_alphabet char)
      (sextetUnlessPad_alphabet char') before (by omega),
    putUnlessPad_alphabet firstShort char, bind_some,
    putUnlessPad_alphabet secondShort char', List.append_assoc, List.append_assoc]
  rfl

end EncodedGroups

theorem decodeLoop_step (inside : i < input.length) (noWrap : i + 4 < 2 ^ 32)
    {state next : List U8 × U32} (group : decodeGroup input i state = some next) :
    decodeLoop input i state = decodeLoop input (i + 4) next := by
  rw [decodeLoop, if_pos inside, group]
  exact if_pos noWrap

theorem decodeLoop_eq {done rest : List U8} (isInput : input = done ++ encode rest)
    (inputShort : input.length < 2 ^ 32 - 4) (before after : List U8)
    (short : before.length + rest.length + 3 < 2 ^ 32) (room : rest.length ≤ after.length) :
    decodeLoop input done.length (filled before after) =
      some (filled (before ++ rest) (after.drop rest.length)) := by
  have length : input.length = done.length + (encode rest).length := by
    rw [isInput, length_append]
  rw [length_encode] at length
  induction rest using encode.induct generalizing done before after with
  | case1 =>
    rw [length_nil] at length
    rw [decodeLoop, if_neg (by omega), append_nil, length_nil, drop_zero]
  | case2 a =>
    rw [length_singleton] at length short room
    obtain ⟨old, after, rfl⟩ := exists_cons_of_length_pos room
    have charsAt : CharsAt input done.length (encode [a]) :=
      ⟨done, [], by rw [isInput, append_nil], rfl⟩
    have group := decodeGroup_one before (by omega) charsAt old after
    rw [decodeLoop_step (by omega) (by omega) group, decodeLoop, if_neg (by omega)]
    rfl
  | case3 a b =>
    rw [length_cons, length_singleton] at length short room
    obtain ⟨old, after, rfl⟩ := exists_cons_of_length_pos (zero_lt_of_lt room)
    obtain ⟨old', after, rfl⟩ := exists_cons_of_length_pos (le_of_succ_le_succ room)
    have charsAt : CharsAt input done.length (encode [a, b]) :=
      ⟨done, [], by rw [isInput, append_nil], rfl⟩
    have group := decodeGroup_two before (by omega) charsAt old old' after
    rw [decodeLoop_step (by omega) (by omega) group, decodeLoop, if_neg (by omega)]
    rfl
  | case4 a b c rest ih =>
    rw [length_cons, length_cons, length_cons] at length short room
    obtain ⟨old, after, rfl⟩ := exists_cons_of_length_pos (zero_lt_of_lt room)
    rw [length_cons] at room
    obtain ⟨old', after, rfl⟩ := exists_cons_of_length_pos (show 0 < after.length by omega)
    rw [length_cons] at room
    obtain ⟨old'', after, rfl⟩ := exists_cons_of_length_pos (show 0 < after.length by omega)
    rw [length_cons] at room
    rw [encode_three, ← List.append_assoc] at isInput
    have group := decodeGroup_three before (by omega) ⟨done, _, isInput, rfl⟩ old old' old'' after
    have next := ih isInput (before ++ [a, b, c]) after
      (by rw [length_append]; simp only [length_cons, length_nil]; omega)
      (by simpa using room)
      (by rw [length_append]; simp only [length_cons, length_nil]; omega)
    rw [length_append] at next
    rw [decodeLoop_step (by omega) (by omega) group]
    refine next.trans ?_
    rw [List.append_assoc]
    rfl

/-! ## The size test of `crypto_base64_decode` -/

theorem padCount_append (before : List U8) {later : List U8} (two : 2 ≤ later.length) :
    padCount (before ++ later) = padCount later := by
  have char (distance : Nat) (near : distance ≤ later.length) :
      (before ++ later).getD ((before ++ later).length - distance) 0 =
        later.getD (later.length - distance) 0 := by
    rw [length_append, Nat.add_sub_assoc near,
      getD_append_right _ _ _ _ (Nat.le_add_right _ _), Nat.add_sub_cancel_left]
  have long : 2 ≤ (before ++ later).length := by
    rw [length_append]
    omega
  simp only [padCount, char 1 (by omega), char 2 two, long, two]

theorem padCount_encode (data : List U8) :
    padCount (encode data) = .ofNat 32 ((3 - data.length % 3) % 3) := by
  induction data using encode.induct with
  | case1 => rfl
  | case2 a =>
    rw [encode_one]
    rfl
  | case3 a b =>
    simp only [encode_two, padCount, length_cons, length_nil]
    rw [if_pos ⟨by decide, rfl⟩, if_neg fun pad => alphabet_ne_padChar _ pad.2]
    rfl
  | case4 a b c rest ih =>
    have sameMod : (a :: b :: c :: rest).length % 3 = rest.length % 3 :=
      add_mod_right rest.length 3
    rw [encode_three, sameMod]
    cases rest with
    | nil =>
      have notPad := alphabet_ne_padChar (sextet a b c 6)
      have notPad' := alphabet_ne_padChar (sextet a b c 0)
      simp [encode, padCount, notPad, notPad']
    | cons first rest =>
      have two : 2 ≤ (encode (first :: rest)).length := by
        rw [length_encode, length_cons]
        omega
      rw [padCount_append _ two, ih]

theorem cryptoBase64Decode_encode {data back : List U8} (short : data.length < 2 ^ 31)
    (room : data.length ≤ back.length) :
    cryptoBase64Decode (encode data) back =
      some (.ofNat 32 data.length, data ++ back.drop data.length) := by
  have length := length_encode data
  have needed : ((.ofNat 32 (encode data).length / 4) * 3 - padCount (encode data)).toNat =
      data.length := by
    have quotient : (BitVec.ofNat 32 (4 * ((data.length + 2) / 3)) / 4 * 3).toNat =
        3 * ((data.length + 2) / 3) := by
      simp only [toNat_mul, toNat_udiv, toNat_ofNat, reduceToNat]
      rw [mod_eq_of_lt (a := 4 * ((data.length + 2) / 3)) (by omega),
        Nat.mul_div_cancel_left _ (by decide)]
      omega
    have pad : (BitVec.ofNat 32 ((3 - data.length % 3) % 3)).toNat = (3 - data.length % 3) % 3 :=
      mod_eq_of_lt (by omega)
    rw [padCount_encode, length, toNat_sub_of_le, quotient, pad]
    · omega
    · rw [le_def, quotient, pad]
      omega
  have loop := decodeLoop_eq (nil_append (encode data)).symm (by omega) [] back
    (by rw [length_nil]; omega) room
  have start : (back, (0 : U32)) = filled [] back := rfl
  rw [length_nil, nil_append] at loop
  rw [cryptoBase64Decode, needed, if_neg (by omega), start, loop]
  rfl

/-- What `crypto_base64_encode` writes is the encoding of RFC 4648, and
`crypto_base64_decode` undoes it. -/
theorem base64_roundTrip (data out back : List U8) (short : data.length < 2 ^ 31)
    (room : 4 * ((data.length + 2) / 3) + 1 ≤ out.length) (roomBack : data.length ≤ back.length) :
    ∃ total text count bytes,
      cryptoBase64Encode data out = some (total, text) ∧
        total.toNat = 4 * ((data.length + 2) / 3) ∧
        text.take (total.toNat + 1) = encode data ++ [0] ∧
        cryptoBase64Decode (text.take total.toNat) back = some (count, bytes) ∧
        count.toNat = data.length ∧ bytes.take count.toNat = data := by
  have length := length_encode data
  have totalNat : (BitVec.ofNat 32 (4 * ((data.length + 2) / 3))).toNat =
      4 * ((data.length + 2) / 3) := by
    rw [toNat_ofNat]
    omega
  have countNat : (BitVec.ofNat 32 data.length).toNat = data.length := by
    rw [toNat_ofNat]
    omega
  refine ⟨_, _, _, data ++ back.drop data.length, cryptoBase64Encode_eq short room, totalNat, ?_,
    ?_, countNat, ?_⟩
  · rw [totalNat, ← length, take_length_add_append]
    rfl
  · rw [totalNat, ← length, take_left, cryptoBase64Decode_encode short roomBack]
  · rw [countNat, take_left]

/-- Three bytes, without padding. -/
theorem threeBytes_roundTrip :
    ∃ total text count bytes,
      cryptoBase64Encode [0x4d, 0x61, 0x6e] (List.replicate 5 0) = some (total, text) ∧
        total.toNat = 4 * ((3 + 2) / 3) ∧
        text.take (total.toNat + 1) = encode [0x4d, 0x61, 0x6e] ++ [0] ∧
        cryptoBase64Decode (text.take total.toNat) (List.replicate 3 0) = some (count, bytes) ∧
        count.toNat = 3 ∧ bytes.take count.toNat = [0x4d, 0x61, 0x6e] :=
  base64_roundTrip [0x4d, 0x61, 0x6e] (List.replicate 5 0) (List.replicate 3 0) (by decide)
    (by decide) (by decide)

end XKern
