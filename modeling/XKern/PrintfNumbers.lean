import XKern.Printf
import Mathlib

namespace XKern.Libkern

open List BitVec Nat

/-!
# Numbers as text

What `print_num64` prints, compared with positional notation.  Digits are read back by
a definition of their own, and a field is a numeral with its sign and its padding.
-/

/-! ## Numerals -/

def digitValue (c : U8) : Nat :=
  if c ≤ 0x39 then c.toNat - 0x30 else if c ≤ 0x46 then c.toNat - 0x37 else c.toNat - 0x57

def readBack (base : Nat) (digits : List U8) : Nat :=
  digits.foldl (fun value c => value * base + digitValue c) 0

/-- The digits are the numeral of the value. -/
structure IsNumeral (base : Nat) (upper : Bool) (value : Nat) (digits : List U8) : Prop where
  nonempty : digits ≠ []
  inBase : ∀ c ∈ digits, ∃ digit < base, c = digitChar upper digit
  readsBack : readBack base digits = value

def numeral (base : Nat) (upper : Bool) (value : Nat) : List U8 :=
  if value = 0 then [0x30] else ((Nat.digits base value).map (digitChar upper)).reverse

variable {digit base value : Nat}

theorem digitValue_digitChar (upper : Bool) (small : digit < 16) :
    digitValue (digitChar upper digit) = digit := by
  have all : ∀ upper : Bool, ∀ digit < 16, digitValue (digitChar upper digit) = digit := by
    decide
  exact all upper digit small

theorem digitChar_ne_zero (upper : Bool) (small : digit < 16) (nonzero : digit ≠ 0) :
    digitChar upper digit ≠ 0x30 := by
  intro isZero
  have value := digitValue_digitChar upper small
  rw [isZero] at value
  exact nonzero value.symm

theorem digitChar_ne_minus (upper : Bool) (small : digit < 16) : digitChar upper digit ≠ 0x2d := by
  have all : ∀ upper : Bool, ∀ digit < 16, digitChar upper digit ≠ 0x2d := by decide
  exact all upper digit small

theorem readBack_reverse (upper : Bool) (few : base ≤ 16) {digits : List Nat}
    (inBase : ∀ digit ∈ digits, digit < base) :
    readBack base (digits.map (digitChar upper)).reverse = ofDigits base digits := by
  rw [readBack, foldl_reverse]
  induction digits with
  | nil => rfl
  | cons digit digits ih =>
    have small : digit < 16 := lt_of_lt_of_le (inBase digit mem_cons_self) few
    rw [map_cons, foldr_cons, digitValue_digitChar upper small,
      ih fun later isLater => inBase later (mem_cons_of_mem _ isLater),
      ofDigits_cons, mul_comm, add_comm]

theorem isNumeral_numeral (upper : Bool) (least : 2 ≤ base) (few : base ≤ 16) (value : Nat) :
    IsNumeral base upper value (numeral base upper value) := by
  have inBase {digit : Nat} (isDigit : digit ∈ Nat.digits base value) : digit < base :=
    digits_lt_base (by omega) isDigit
  rw [numeral]
  split
  · rename_i isZero
    refine ⟨cons_ne_nil _ _, ?_, ?_⟩
    · intro c isDigit
      refine ⟨0, by omega, (mem_singleton.mp isDigit).trans ?_⟩
      cases upper with
      | false => rfl
      | true => rfl
    · rw [isZero, readBack, foldl_cons, Nat.zero_mul]
      rfl
  · rename_i nonzero
    refine ⟨?_, ?_, ?_⟩
    · rw [ne_eq, reverse_eq_nil_iff, map_eq_nil_iff]
      exact digits_ne_nil_iff_ne_zero.mpr nonzero
    · intro c isChar
      rw [mem_reverse, mem_map] at isChar
      obtain ⟨digit, isDigit, rfl⟩ := isChar
      exact ⟨digit, inBase isDigit, rfl⟩
    · rw [readBack_reverse upper few fun digit isDigit => inBase isDigit, ofDigits_digits]

theorem head_digits {upper : Bool} (least : 2 ≤ base) (few : base ≤ 16) {c : U8} {later : List U8}
    (isText : ((Nat.digits base value).map (digitChar upper)).reverse = c :: later) :
    c ≠ 0x30 := by
  have nonempty : Nat.digits base value ≠ [] := by
    intro isEmpty
    rw [isEmpty] at isText
    cases isText
  have first : c = digitChar upper ((Nat.digits base value).getLast nonempty) := by
    rw [← dropLast_append_getLast nonempty, map_append, List.reverse_append] at isText
    exact (List.cons.inj isText).1.symm
  have positive : (Nat.digits base value).getLast nonempty ≠ 0 :=
    getLast_digit_ne_zero base (digits_ne_nil_iff_ne_zero.mp nonempty)
  have small : (Nat.digits base value).getLast nonempty < base :=
    digits_lt_base (by omega) (getLast_mem nonempty)
  rw [first]
  exact digitChar_ne_zero upper (by omega) positive

theorem head_numeral (upper : Bool) (least : 2 ≤ base) (few : base ≤ 16) (value : Nat) :
    (numeral base upper value).head? ≠ some 0x30 ∨ numeral base upper value = [0x30] := by
  by_cases isZero : value = 0
  · exact .inr (if_pos isZero)
  · left
    rw [numeral, if_neg isZero]
    intro isHead
    obtain ⟨later, isText⟩ := head?_eq_some_iff.mp isHead
    exact head_digits least few isText rfl

theorem length_numeral_le {count : Nat} (upper : Bool) (least : 2 ≤ base) (positive : 0 < count)
    (small : value < base ^ count) :
    (numeral base upper value).length ≤ count := by
  rw [numeral]
  split
  · exact positive
  · rw [length_reverse, length_map]
    exact (digits_length_le_iff least value).mpr small

/-! ## Digits in `tmp` -/

theorem digitLoop_eq {base : U64} (upper : Bool) (least : 2 ≤ base.toNat) (room : Nat) (val64 : U64)
    (enough : val64.toNat < 2 ^ room) :
    digitLoop base upper room val64 =
      some ((Nat.digits base.toNat val64.toNat).map (digitChar upper)) := by
  induction room generalizing val64 with
  | zero =>
    have isZero : val64 = 0 := eq_of_toNat_eq (by simpa using enough)
    rw [digitLoop, if_pos isZero, isZero]
    simp
  | succ room ih =>
    rw [digitLoop]
    split
    · rename_i isZero
      rw [isZero]
      simp
    · rename_i nonzero
      have positive : 0 < val64.toNat :=
        pos_of_ne_zero fun isZero => nonzero (eq_of_toNat_eq isZero)
      have smaller : (val64 / base).toNat < 2 ^ room := by
        rw [toNat_udiv]
        apply (div_lt_iff_lt_mul (by omega)).mpr
        calc val64.toNat < 2 ^ room * 2 := by rwa [← pow_succ]
          _ ≤ 2 ^ room * base.toNat := mul_le_mul_left _ least
      rw [ih _ smaller, digits_def' least positive, toNat_udiv, toNat_umod]
      rfl

theorem digitsTmp_eq {base : U64} (upper : Bool) (least : 2 ≤ base.toNat) (val64 : U64) :
    digitsTmp base upper val64 = some (numeral base.toNat upper val64.toNat).reverse := by
  rw [digitsTmp, numeral]
  by_cases isZero : val64 = 0
  · rw [if_pos isZero, isZero]
    rfl
  · have nonzero : val64.toNat ≠ 0 := fun same => isZero (eq_of_toNat_eq same)
    have enough : val64.toNat < 2 ^ 72 := lt_trans val64.isLt (by decide)
    rw [if_neg isZero, if_neg nonzero, reverse_reverse, digitLoop_eq upper least 72 val64 enough]

/-! ## Fields -/

/-- The sign and the digits of a number, padded on the left to a width. -/
def field (zero : Bool) (width : Nat) (negative : Bool) (digits : List U8) : List U8 :=
  let sign : List U8 := if negative then [0x2d] else []
  let pad := width - (sign.length + digits.length)
  if zero then
    sign ++ List.replicate pad 0x30 ++ digits
  else
    List.replicate pad 0x20 ++ sign ++ digits

theorem length_field (zero : Bool) (width : Nat) (negative : Bool) (digits : List U8) :
    (field zero width negative digits).length = max width (negative.toNat + digits.length) := by
  rw [field]
  cases zero <;> cases negative <;> simp <;> omega

theorem minus_mem_field (zero : Bool) (width : Nat) (digits : List U8) :
    0x2d ∈ field zero width true digits := by
  cases zero <;> simp [field]

theorem minus_not_mem_field (zero : Bool) (width : Nat) {upper : Bool} {digits : List U8}
    (few : base ≤ 16) (isNumeral : IsNumeral base upper value digits) :
    0x2d ∉ field zero width false digits := by
  have notDigit : 0x2d#8 ∉ digits := by
    intro isDigit
    obtain ⟨digit, small, same⟩ := isNumeral.inBase _ isDigit
    exact digitChar_ne_minus upper (lt_of_lt_of_le small few) same.symm
  cases zero <;> simpa [field] using notDigit

theorem isNumeral_zeros {digits : List U8} (least : 2 ≤ base)
    (isNumeral : IsNumeral base false value digits) (count : Nat) :
    IsNumeral base false value (List.replicate count 0x30 ++ digits) where
  nonempty := fun isEmpty => isNumeral.nonempty (append_eq_nil_iff.mp isEmpty).2
  inBase := by
    intro c isChar
    rcases mem_append.mp isChar with isZero | isDigit
    · exact ⟨0, by omega, eq_of_mem_replicate isZero⟩
    · exact isNumeral.inBase c isDigit
  readsBack := by
    have zeros : (List.replicate count (0x30 : U8)).foldl
        (fun value c => value * base + digitValue c) 0 = 0 := by
      induction count with
      | zero => rfl
      | succ count ih =>
        rw [List.replicate_succ, foldl_cons, Nat.zero_mul]
        exact ih
    rw [readBack, foldl_append, zeros]
    exact isNumeral.readsBack

def magnitude (sign : Bool) (val64 : U64) : Nat :=
  (if isNegative sign val64 then -val64 else val64).toNat

theorem toNat_padding {width : U32} (narrow : width.toNat < 2 ^ 31) (idx : Nat) (neg : Bool) :
    (padding width idx neg).toNat = width.toNat - (neg.toNat + idx) := by
  have isWidth : width.toInt = width.toNat := toInt_eq_toNat_of_lt (by omega)
  rw [padding, isWidth]
  split
  · omega
  · omega

theorem numberText_eq {base : U64} (val64 : U64) (upper sign : Bool) {width : U32} (zero : Bool)
    (least : 2 ≤ base.toNat) (narrow : width.toNat < 2 ^ 31) :
    numberText val64 base upper sign width zero =
      some (field zero width.toNat (isNegative sign val64)
        (numeral base.toNat upper (magnitude sign val64))) := by
  have signLength (neg : Bool) : (if neg then [0x2d] else [] : List U8).length = neg.toNat := by
    cases neg with
    | false => rfl
    | true => rfl
  rw [numberText, digitsTmp_eq upper least, field, Option.map_some, ← magnitude]
  dsimp only
  rw [reverse_reverse, length_reverse, signLength, ← toNat_padding narrow]
  cases zero with
  | false => rfl
  | true =>
    rw [if_pos rfl]
    by_cases padded : 0 < padding width (numeral base.toNat upper (magnitude sign val64)).length
        (isNegative sign val64)
    · rw [if_pos ⟨rfl, padded⟩]
    · have unpadded : (padding width (numeral base.toNat upper (magnitude sign val64)).length
          (isNegative sign val64)).toNat = 0 := by omega
      rw [if_neg fun both => padded both.2, unpadded, List.replicate_zero, List.replicate_zero,
        nil_append, append_nil]

theorem exists_numberText (val64 base : U64) (upper sign : Bool) (width : U32) (zero : Bool)
    (least : 2 ≤ base.toNat) :
    ∃ text, numberText val64 base upper sign width zero = some text := by
  rw [numberText, digitsTmp_eq upper least]
  exact ⟨_, rfl⟩

end XKern.Libkern
