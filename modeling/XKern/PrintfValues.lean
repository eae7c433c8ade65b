import XKern.PrintfTruncation

namespace XKern.Libkern

open Slices RecordedMemory List BitVec Nat

/-!
# Values as text

Which values `vsnprintf` renders as positional notation asks for.  `%d` without a length
modifier reads an `int` as unsigned, and `%p` reads half of a pointer and ignores the
width.
-/

/-! ## Formats of one value -/

/-- The sizes of arguments. -/
inductive ArgSize where
  | int
  | long
  | longLong

/-- The number of `l` for a size. -/
def ArgSize.lng : ArgSize → Nat
  | .int => 0
  | .long => 1
  | .longLong => 2

def ArgSize.signed (size : ArgSize) (bits : U64) : Int :=
  match size with
  | .int => (bits.setWidth 32).toInt
  | .long | .longLong => bits.toInt

def ArgSize.unsigned (size : ArgSize) (bits : U64) : Nat :=
  match size with
  | .int => (bits.setWidth 32).toNat
  | .long | .longLong => bits.toNat

/-- The conversions of numbers. -/
inductive ValueFormat where
  | d (size : ArgSize)
  | i (size : ArgSize)
  | u (size : ArgSize)
  | x (size : ArgSize)
  | upperX (size : ArgSize)
  | o (size : ArgSize)
  | b
  | p

namespace ValueFormat

def letter : ValueFormat → U8
  | .d _ => 0x64
  | .i _ => 0x69
  | .u _ => 0x75
  | .x _ => 0x78
  | .upperX _ => 0x58
  | .o _ => 0x6f
  | .b => 0x62
  | .p => 0x70

def lng : ValueFormat → Nat
  | .d size | .i size | .u size | .x size | .upperX size | .o size => size.lng
  | .b | .p => 0

def text (format : ValueFormat) : List U8 :=
  List.replicate format.lng 0x6c ++ [format.letter]

end ValueFormat

def widthText (width : Nat) : List U8 :=
  ((Nat.digits 10 width).map (digitChar false)).reverse

/-- What follows the `%`. -/
def valueDirective (zero : Bool) (width : Nat) (format : ValueFormat) : List U8 :=
  (if zero then [0x30] else []) ++ widthText width ++ format.text

/-! ## Reading a directive -/

theorem readNumber_append {digits : List Nat} (decimal : ∀ digit ∈ digits, digit < 10)
    {rest : List U8} (notDigit : ∀ c ∈ rest.head?, isDigit c = false) (value : Nat) :
    readNumber (.ofNat 32 value) (digits.map (digitChar false) ++ rest) =
      (.ofNat 32 (digits.foldl (fun value digit => value * 10 + digit) value), rest) := by
  induction digits generalizing value with
  | nil =>
    rw [map_nil, nil_append, foldl_nil]
    cases rest with
    | nil => rfl
    | cons c rest =>
      have isOther : isDigit c = false := notDigit c rfl
      rw [readNumber, isOther, if_neg Bool.false_ne_true]
  | cons digit digits ih =>
    have small : digit < 10 := decimal digit mem_cons_self
    have isDecimal : ∀ digit < 10, isDigit (digitChar false digit) = true ∧
        (digitChar false digit - 0x30).setWidth 32 = .ofNat 32 digit := by decide
    obtain ⟨isDigit, isValue⟩ := isDecimal digit small
    have next : BitVec.ofNat 32 value * 10 + BitVec.ofNat 32 digit =
        BitVec.ofNat 32 (value * 10 + digit) := by
      rw [ofNat_add, ofNat_mul]
      rfl
    rw [map_cons, List.cons_append, readNumber, if_pos isDigit, isValue, next,
      ih fun later isLater => decimal later (mem_cons_of_mem _ isLater)]
    rfl

theorem foldl_reverse_digits (width : Nat) :
    (Nat.digits 10 width).reverse.foldl (fun value digit => value * 10 + digit) 0 = width := by
  rw [foldl_reverse]
  conv_rhs => rw [← ofDigits_digits 10 width, ofDigits_eq_foldr]
  congr 1
  funext digit value
  rw [mul_comm, add_comm]
  rfl

theorem readNumber_widthText (width : Nat) {rest : List U8}
    (notDigit : ∀ c ∈ rest.head?, isDigit c = false) :
    readNumber 0 (widthText width ++ rest) = (.ofNat 32 width, rest) := by
  have decimal : ∀ digit ∈ (Nat.digits 10 width).reverse, digit < 10 :=
    fun digit isDigit => digits_lt_base (by decide) (mem_reverse.mp isDigit)
  have read := readNumber_append decimal notDigit 0
  rwa [map_reverse, foldl_reverse_digits] at read

theorem ValueFormat.head_text (format : ValueFormat) :
    ∃ c later, format.text = c :: later ∧ isDigit c = false ∧ c ≠ 0x2e := by
  cases format with
  | b => exact ⟨_, _, rfl, by decide, by decide⟩
  | p => exact ⟨_, _, rfl, by decide, by decide⟩
  | _ size => cases size <;> exact ⟨_, _, rfl, by decide, by decide⟩

theorem ValueFormat.readLength_text (format : ValueFormat) :
    readLength 0 format.text = (format.lng, [format.letter]) := by
  cases format with
  | b => rfl
  | p => rfl
  | _ size => cases size <;> rfl

theorem readZero_widthText (width : Nat) (format : ValueFormat) :
    readZero (widthText width ++ format.text) = (false, widthText width ++ format.text) := by
  have head : ∀ c ∈ (widthText width ++ format.text).head?, c ≠ 0x30 := by
    intro c isHead
    cases isText : widthText width with
    | nil =>
      obtain ⟨first, later, isFormat, notDigit, -⟩ := format.head_text
      rw [isText, nil_append, isFormat] at isHead
      cases isHead
      rintro rfl
      exact absurd notDigit (by decide)
    | cons first later =>
      rw [isText] at isHead
      cases isHead
      exact head_digits (by decide) (by decide) isText
  cases isText : widthText width ++ format.text with
  | nil => rfl
  | cons c later => exact if_neg (head c (by rw [isText]; rfl))

theorem readDirective_value (zero : Bool) (width : Nat) (format : ValueFormat) :
    readDirective (valueDirective zero width format) =
      ({ zero, width := BitVec.ofNat 32 width, prec := -1, lng := format.lng },
        [format.letter]) := by
  obtain ⟨c, later, isText, notDigit, notPoint⟩ := format.head_text
  have zeroRead : readZero (valueDirective zero width format) =
      (zero, widthText width ++ format.text) := by
    cases zero with
    | true => rfl
    | false => exact readZero_widthText width format
  have widthRead : readNumber 0 (widthText width ++ format.text) =
      (BitVec.ofNat 32 width, format.text) := by
    apply readNumber_widthText
    intro first isFirst
    rw [isText] at isFirst
    cases isFirst
    exact notDigit
  have precRead : readPrec format.text = (-1, format.text) := by
    rw [isText]
    exact if_neg notPoint
  rw [readDirective, zeroRead]
  dsimp only
  rw [widthRead]
  dsimp only
  rw [precRead]
  dsimp only
  rw [format.readLength_text]

variable {width : Nat} {format : ValueFormat} {zero : Bool} {args : List VaSlot} {n : U32}

theorem formatOutput_value {slot : VaSlot} {text : List U8}
    (isText : argumentText
      { zero, width := .ofNat 32 width, prec := -1, lng := format.lng } slot
        (conversion format.letter) = some text) :
    formatOutput (0x25 :: valueDirective zero width format) [slot] = some text := by
  have read := readDirective_value zero width format
  rw [formatOutput, formatRun, length_cons, formatLoop_conversion (congrArg Prod.snd read)
      (conversionText_of_argument (by rw [read]; exact isText) []), putAll_snoc, formatLoop_nil,
    nil_append]

/-! ## What should be printed -/

/-- A number in a field: its shortest numeral, with one `-` in front exactly if it is
negative, padded on the left with spaces, or with zeros behind the sign. -/
def IsField (zero : Bool) (width : Nat) (negative : Bool) (base : Nat) (upper : Bool) (value : Nat)
    (text : List U8) : Prop :=
  ∃ digits, IsNumeral base upper value digits ∧
    (digits.head? ≠ some 0x30 ∨ digits = [0x30]) ∧
    text = field zero width negative digits

/-- A pointer in a field: `0x` and its digits, of which the first may be zeros. -/
def IsPointerField (zero : Bool) (width value : Nat) (text : List U8) : Prop :=
  ∃ digits, IsNumeral 16 false value digits ∧
    (zero = true → width ≤ 2 + digits.length) ∧
    text = List.replicate (width - (2 + digits.length)) 0x20 ++ [0x30, 0x78] ++ digits

/-- The text is what C says for the conversion. -/
def Rendered (format : ValueFormat) (zero : Bool) (width : Nat) (bits : U64)
    (text : List U8) : Prop :=
  match format with
  | .d size | .i size =>
      IsField zero width (decide (size.signed bits < 0)) 10 false (size.signed bits).natAbs text
  | .u size => IsField zero width false 10 false (size.unsigned bits) text
  | .x size => IsField zero width false 16 false (size.unsigned bits) text
  | .upperX size => IsField zero width false 16 true (size.unsigned bits) text
  | .o size => IsField zero width false 8 false (size.unsigned bits) text
  | .b => IsField zero width false 2 false (bits.setWidth 32).toNat text
  | .p => IsPointerField zero width bits.toNat text

/-- The values that are printed as C says. -/
def Renderable (format : ValueFormat) (width : Nat) (bits : U64) : Prop :=
  match format with
  | .d size | .i size => size = .int → 0 ≤ (bits.setWidth 32).toInt
  | .u _ | .x _ | .upperX _ | .o _ | .b => True
  | .p => bits.toNat < 2 ^ 32 ∧ width ≤ 10

theorem isField_field {base : Nat} (zero : Bool) (width : Nat) (negative upper : Bool)
    (least : 2 ≤ base) (few : base ≤ 16) (value : Nat) :
    IsField zero width negative base upper value
      (field zero width negative (numeral base upper value)) :=
  ⟨_, isNumeral_numeral upper least few value, head_numeral upper least few value, rfl⟩

/-! ## What is printed -/

/-- The conversion prints a text that is the right one under a condition. -/
structure PrintsText
    (zero : Bool)
    (width : Nat)
    (format : ValueFormat)
    (slot : VaSlot)
    (text : List U8) : Prop where
  output : formatOutput (0x25 :: valueDirective zero width format) [slot] = some text
  short : text.length ≤ max width 65
  rendered : Rendered format zero width slot.bits text ↔ Renderable format width slot.bits

theorem printsText_field {slot : VaSlot} {val64 base : U64} {upper sign : Bool}
    (narrow : width < 2 ^ 31) (least : 2 ≤ base.toNat)
    (isArgument : argumentText
      { zero, width := .ofNat 32 width, prec := -1, lng := format.lng } slot
        (conversion format.letter) = numberText val64 base upper sign (.ofNat 32 width) zero)
    (isRendered : Rendered format zero width slot.bits (field zero width (isNegative sign val64)
        (numeral base.toNat upper (magnitude sign val64))) ↔ Renderable format width slot.bits) :
    ∃ text, PrintsText zero width format slot text := by
  have widthNat : (BitVec.ofNat 32 width).toNat = width := by
    rw [toNat_ofNat]
    omega
  have isText := numberText_eq val64 upper sign zero least
    (show (BitVec.ofNat 32 width).toNat < 2 ^ 31 by rwa [widthNat])
  rw [widthNat] at isText
  have small : magnitude sign val64 < base.toNat ^ 64 :=
    lt_of_lt_of_le (isLt _) (Nat.pow_le_pow_left least 64)
  have short := length_numeral_le upper least (by decide) small
  refine ⟨_, formatOutput_value (isArgument.trans isText), ?_, isRendered⟩
  rw [length_field]
  have := (isNegative sign val64).toNat_le
  omega

theorem rendered_unsigned (zero : Bool) (width : Nat) {base : Nat} (upper : Bool) (least : 2 ≤ base)
    (few : base ≤ 16) (val64 : U64) :
    IsField zero width false base upper val64.toNat (field zero width (isNegative false val64)
        (numeral base upper (magnitude false val64))) :=
  isField_field zero width false upper least few val64.toNat

theorem toNat_u32 (slot : VaSlot) : slot.u32.toNat = (slot.bits.setWidth 32).toNat := by
  rw [VaSlot.u32, toNat_setWidth]
  exact mod_eq_of_lt (lt_trans (isLt _) (by decide))

theorem toNat_sized (slot : VaSlot) (size : ArgSize) :
    (slot.sized size.lng).toNat = size.unsigned slot.bits := by
  cases size with
  | int => exact toNat_u32 slot
  | long => rfl
  | longLong => rfl

theorem magnitude_signed (bits : U64) : isNegative true bits = decide (bits.toInt < 0) ∧
      magnitude true bits = bits.toInt.natAbs := by
  refine ⟨rfl, ?_⟩
  rw [magnitude, isNegative, Bool.true_and]
  by_cases negative : bits.toInt < 0
  · rw [if_pos (decide_eq_true negative), toNat_neg]
    rw [toInt_eq_toNat_cond] at negative ⊢
    have := bits.isLt
    split at negative
    · omega
    · rename_i high
      rw [if_neg high]
      omega
  · rw [if_neg (by rwa [decide_eq_true_eq])]
    rw [toInt_eq_toNat_cond] at negative ⊢
    have := bits.isLt
    split at negative
    · rename_i low
      rw [if_pos low]
      omega
    · omega

theorem magnitude_u32 (slot : VaSlot) : isNegative true slot.u32 = false ∧
      magnitude true slot.u32 = (slot.bits.setWidth 32).toNat := by
  have isNat := toNat_u32 slot
  have positive : ¬ slot.u32.toInt < 0 := by
    rw [toInt_eq_toNat_of_lt (by omega)]
    omega
  have notNegative : isNegative true slot.u32 = false := decide_eq_false positive
  refine ⟨notNegative, ?_⟩
  rw [magnitude, notNegative, if_neg Bool.false_ne_true, isNat]

theorem rendered_int_iff (zero : Bool) (width : Nat) (v : U32) :
    IsField zero width (decide (v.toInt < 0)) 10 false v.toInt.natAbs
        (field zero width false (numeral 10 false v.toNat)) ↔
      0 ≤ v.toInt := by
  constructor
  · rintro ⟨digits, -, -, same⟩
    by_contra negative
    rw [decide_eq_true (show v.toInt < 0 by omega)] at same
    have minus := minus_mem_field zero width digits
    rw [← same] at minus
    exact minus_not_mem_field zero width (by decide)
      (isNumeral_numeral false (by decide) (by decide) v.toNat) minus
  · intro positive
    have isNat : v.toInt = v.toNat := by
      rw [toInt_eq_toNat_cond] at positive ⊢
      have := v.isLt
      split at positive
      · rename_i low
        exact if_pos low
      · omega
    rw [decide_eq_false (by omega), isNat, Int.natAbs_natCast]
    exact isField_field zero width false false (by decide) (by decide) v.toNat

theorem rendered_signed_iff (zero : Bool) (width : Nat) (slot : VaSlot) (size : ArgSize) :
    IsField zero width (decide (size.signed slot.bits < 0)) 10 false (size.signed slot.bits).natAbs
        (field zero width (isNegative true (slot.sized size.lng))
          (numeral 10 false (magnitude true (slot.sized size.lng)))) ↔
      (size = .int → 0 ≤ (slot.bits.setWidth 32).toInt) := by
  have wide : IsField zero width (decide (slot.bits.toInt < 0)) 10 false slot.bits.toInt.natAbs
      (field zero width (isNegative true slot.bits)
        (numeral 10 false (magnitude true slot.bits))) := by
    rw [(magnitude_signed slot.bits).1, (magnitude_signed slot.bits).2]
    exact isField_field zero width _ false (by decide) (by decide) _
  cases size with
  | int =>
    have narrow := magnitude_u32 slot
    change IsField zero width _ 10 false _ (field zero width (isNegative true slot.u32)
      (numeral 10 false (magnitude true slot.u32))) ↔ _
    rw [narrow.1, narrow.2, forall_prop_of_true rfl]
    exact rendered_int_iff zero width (slot.bits.setWidth 32)
  | long => exact iff_of_true wide nofun
  | longLong => exact iff_of_true wide nofun

def pointerDigits (bits : U64) : List U8 :=
  field true 8 false (numeral 16 false (bits.setWidth 32).toNat)

theorem length_pointerDigits (bits : U64) : (pointerDigits bits).length = 8 := by
  have few : (numeral 16 false (bits.setWidth 32).toNat).length ≤ 8 :=
    length_numeral_le false (by decide) (by decide) (lt_of_lt_of_le (isLt _) (by decide))
  rw [pointerDigits, length_field]
  exact max_eq_left (by rwa [Bool.toNat_false, zero_add])

theorem isNumeral_pointerDigits (bits : U64) :
    IsNumeral 16 false (bits.setWidth 32).toNat (pointerDigits bits) :=
  isNumeral_zeros (by decide) (isNumeral_numeral false (by decide) (by decide) _) _

theorem rendered_pointer_iff (zero : Bool) (width : Nat) (bits : U64) :
    IsPointerField zero width bits.toNat ([0x30, 0x78] ++ pointerDigits bits) ↔
      bits.toNat < 2 ^ 32 ∧ width ≤ 10 := by
  have length := length_pointerDigits bits
  have isNumeral := isNumeral_pointerDigits bits
  have isHalf : (bits.setWidth 32).toNat = bits.toNat % 2 ^ 32 := toNat_setWidth _ _
  constructor
  · rintro ⟨digits, isDigits, -, same⟩
    have noSpace : width - (2 + digits.length) = 0 := by
      by_contra spaces
      obtain ⟨count, isCount⟩ := exists_eq_succ_of_ne_zero spaces
      rw [isCount, List.replicate_succ] at same
      exact absurd (List.cons.inj same).1 (by decide)
    rw [noSpace, List.replicate_zero, nil_append] at same
    have isPointer : pointerDigits bits = digits := append_cancel_left same
    have value := isDigits.readsBack
    rw [← isPointer, isNumeral.readsBack] at value
    rw [← isPointer, length] at noSpace
    omega
  · rintro ⟨small, narrow⟩
    rw [isHalf, mod_eq_of_lt small] at isNumeral
    refine ⟨pointerDigits bits, isNumeral, fun _ => by omega, ?_⟩
    rw [length, Nat.sub_eq_zero_of_le narrow]
    rfl

theorem exists_printsText (zero : Bool) (narrow : width < 2 ^ 31) (format : ValueFormat)
    (slot : VaSlot) :
    ∃ text, PrintsText zero width format slot text := by
  have unsigned {base : Nat} {upper : Bool} {size : ArgSize} (least : 2 ≤ base) (few : base ≤ 16) :
      IsField zero width false base upper (size.unsigned slot.bits)
        (field zero width (isNegative false (slot.sized size.lng))
          (numeral base upper (magnitude false (slot.sized size.lng)))) := by
    rw [← toNat_sized]
    exact rendered_unsigned zero width upper least few _
  cases format with
  | d size =>
    exact printsText_field narrow (by decide) rfl (rendered_signed_iff zero width slot size)
  | i size =>
    exact printsText_field narrow (by decide) rfl (rendered_signed_iff zero width slot size)
  | u size =>
    exact printsText_field narrow (by decide) rfl
      (iff_of_true (unsigned (by decide) (by decide)) trivial)
  | x size =>
    exact printsText_field narrow (by decide) rfl
      (iff_of_true (unsigned (by decide) (by decide)) trivial)
  | upperX size =>
    exact printsText_field narrow (by decide) rfl
      (iff_of_true (unsigned (by decide) (by decide)) trivial)
  | o size =>
    exact printsText_field narrow (by decide) rfl
      (iff_of_true (unsigned (by decide) (by decide)) trivial)
  | b =>
    have isField := rendered_unsigned zero width false (show 2 ≤ 2 by decide) (by decide) slot.u32
    rw [toNat_u32] at isField
    exact printsText_field narrow (by decide) rfl (iff_of_true isField trivial)
  | p =>
    have least : 2 ≤ (16 : U64).toNat := by decide
    have isNumber := numberText_eq slot.u32 false false true least
      (show (8 : U32).toNat < 2 ^ 31 by decide)
    have isText : numberText slot.u32 16 false false 8 true = some (pointerDigits slot.bits) := by
      rw [isNumber, pointerDigits, ← toNat_u32]
      rfl
    refine ⟨[0x30, 0x78] ++ pointerDigits slot.bits, formatOutput_value ?_, ?_,
      rendered_pointer_iff zero width slot.bits⟩
    · change (numberText slot.u32 16 false false 8 true).map _ = _
      rw [isText]
      rfl
    · rw [length_append, length_pointerDigits]
      exact le_max_of_le_right (by decide)

/-! ## Values in a buffer -/

/-- A call leaves this text with a terminator in the buffer, and returns its length. -/
def Prints (buf : Nat) (n : U32) (fmt : List U8) (args : List VaSlot) (content : Nat → U8)
    (text : List U8) : Prop :=
  ∃ final, vsnprintf (some buf) n fmt args (.fresh content) [] =
      some ((text.length : Int), final) ∧
    slice final.ram.content buf (text.length + 1) = text ++ [0]

theorem prints_iff (buf : Nat) {fmt output : List U8}
    (isOutput : formatOutput fmt args = some output) (room : output.length < n.toNat)
    (short : output.length < 2 ^ 31) (content : Nat → U8) (text : List U8) :
    Prints buf n fmt args content text ↔ text = output := by
  obtain ⟨final, isFinal, truncated⟩ := vsnprintf_of_output buf n isOutput content []
  have isLength : intOfCount (min output.length n.toNat) = output.length := by
    rw [min_eq_left (le_of_lt room), intOfCount, if_pos short]
  have isMin : min output.length (n.toNat - 1) = output.length := by omega
  have isSlice : slice final.ram.content buf (output.length + 1) = output ++ [0] := by
    have isEnd := truncated.terminated (lt_of_le_of_lt (zero_le _) room)
    have characters := truncated.characters
    rw [isMin] at isEnd characters
    rw [slice_add]
    congr 1
    · apply ext_getElem?
      intro i
      by_cases inside : i < output.length
      · rw [getElem?_slice _ _ inside, characters i inside]
      · rw [List.getElem?_eq_none (by rw [length_slice]; omega), List.getElem?_eq_none (by omega)]
    · exact congrArg (fun c => [c]) isEnd
  rw [isLength] at isFinal
  constructor
  · rintro ⟨other, isOther, isText⟩
    obtain ⟨sameLength, sameFinal⟩ := Prod.mk.inj (Option.some.inj (isFinal.symm.trans isOther))
    rw [← sameFinal, ← Int.natCast_inj.mp sameLength, isSlice] at isText
    exact (append_cancel_right isText).symm
  · rintro rfl
    exact ⟨final, isFinal, isSlice⟩

theorem rendered_prints_iff (format : ValueFormat) (zero : Bool) (narrow : width < 2 ^ 31)
    (slot : VaSlot) (buf : Nat) (room : max width 65 < n.toNat) (content : Nat → U8) :
    (∃ text, Rendered format zero width slot.bits text ∧
        Prints buf n (0x25 :: valueDirective zero width format) [slot] content text) ↔
      Renderable format width slot.bits := by
  obtain ⟨printed, output, short, rendered⟩ := exists_printsText zero narrow format slot
  have prints := prints_iff buf output (lt_of_le_of_lt short room)
    (lt_of_le_of_lt short (max_lt narrow (by decide))) content
  rw [← rendered]
  constructor
  · rintro ⟨text, isRendered, isPrinted⟩
    rwa [(prints text).mp isPrinted] at isRendered
  · intro isRendered
    exact ⟨printed, isRendered, (prints printed).mpr rfl⟩

theorem width_le_of_rendered {bits : U64} {text : List U8}
    (rendered : Rendered format zero width bits text) :
    width ≤ text.length := by
  have ofField {negative upper : Bool} {base value : Nat}
      (isField : IsField zero width negative base upper value text) : width ≤ text.length := by
    obtain ⟨digits, -, -, rfl⟩ := isField
    rw [length_field]
    exact le_max_left _ _
  cases format with
  | p =>
    obtain ⟨digits, -, -, rfl⟩ := rendered
    rw [length_append, length_append, length_replicate]
    change width ≤ width - (2 + digits.length) + 2 + digits.length
    omega
  | _ => exact ofField rendered

theorem length_lt_of_prints {buf : Nat} {fmt text : List U8} {content : Nat → U8}
    (prints : Prints buf n fmt args content text) :
    text.length < 2 ^ 31 := by
  obtain ⟨final, isFinal, -⟩ := prints
  obtain ⟨printed, -, returned⟩ := Option.map_eq_some_iff.mp isFinal
  have isLength : printed.pos.toInt = text.length := congrArg Prod.fst returned
  have := printed.pos.toInt_lt
  omega

/-- Which values `vsnprintf` prints as it should, for all sizes, widths and flags. -/
theorem value_rendered_iff (format : ValueFormat) (zero : Bool) (width : Nat) (slot : VaSlot)
    (buf : Nat) (n : U32) (room : width < 2 ^ 31 → max width 65 < n.toNat) (content : Nat → U8) :
    (∃ text, Rendered format zero width slot.bits text ∧
        Prints buf n (0x25 :: valueDirective zero width format) [slot] content text) ↔
      width < 2 ^ 31 ∧ Renderable format width slot.bits := by
  constructor
  · intro prints
    obtain ⟨text, rendered, isPrinted⟩ := id prints
    have narrow : width < 2 ^ 31 :=
      lt_of_le_of_lt (width_le_of_rendered rendered) (length_lt_of_prints isPrinted)
    exact ⟨narrow,
      (rendered_prints_iff format zero narrow slot buf (room narrow) content).mp prints⟩
  · rintro ⟨narrow, renderable⟩
    exact (rendered_prints_iff format zero narrow slot buf (room narrow) content).mpr renderable

/-- `%3d` of 7. -/
theorem seven_rendered_iff :
    (∃ text, Rendered (.d .int) false 3 7 text ∧
        Prints 0x1000 128 (0x25 :: valueDirective false 3 (.d .int)) [⟨7, []⟩] (fun _ => 0) text) ↔
      3 < 2 ^ 31 ∧ Renderable (.d .int) 3 7 :=
  value_rendered_iff (.d .int) false 3 ⟨7, []⟩ 0x1000 128 (fun _ => by decide) fun _ => 0

/-- `%d` of -1 and `%p` of 2^32 are printed wrong. -/
theorem values_misrendered :
    (¬ ∃ text, Rendered (.d .int) false 0 0xffffffff text ∧
        Prints 0x1000 128 (0x25 :: valueDirective false 0 (.d .int)) [⟨0xffffffff, []⟩]
          (fun _ => 0) text) ∧
      ¬ ∃ text, Rendered .p false 0 0x100000000 text ∧
        Prints 0x1000 128 (0x25 :: valueDirective false 0 .p) [⟨0x100000000, []⟩]
          (fun _ => 0) text := by
  have narrow : 0 < 2 ^ 31 := by decide
  have room : max 0 65 < (128 : U32).toNat := by decide
  constructor
  · intro prints
    have positive := (rendered_prints_iff (.d .int) false narrow ⟨0xffffffff, []⟩ 0x1000 room
      fun _ => 0).mp prints rfl
    exact absurd positive (by decide)
  · intro prints
    have small := ((rendered_prints_iff .p false narrow ⟨0x100000000, []⟩ 0x1000 room
      fun _ => 0).mp prints).1
    exact absurd small (by decide)

end XKern.Libkern
