import XKern.MemoryCopy

namespace XKern.Libkern

open RecordedMemory

/-!
# Formatted output

Model of `vsnprintf` in `libkern/libkern/printf.c`, without the floating-point
conversions.  The characters that a conversion hands to `print_char` do not depend on
where they go, so that they are computed first and handed over afterwards.
-/

/-! ## Characters -/

/-- Where `print_char` puts a character: to `buf` while there is room for `n`, or to the
console for a null `buf`. -/
structure Target where
  buf : Option Nat
  n : U32

/-- Memory, what is on the console, and `pos`. -/
structure Printed where
  ram : Ram
  console : List U8
  pos : U32

/-- `print_char`. -/
def printChar (target : Target) (c : U8) (printed : Printed) : Printed :=
  match target.buf with
  | some buf =>
      if printed.pos < target.n then
        { printed with
          ram := printed.ram.store (buf + printed.pos.toNat) [c]
          pos := printed.pos + 1 }
      else
        printed
  | none =>
      { printed with
        console := printed.console ++ [c]
        pos := printed.pos + 1 }

/-! ## Strings and numbers -/

/-- The characters that `print_str` finds before the terminator.  There are none if the
memory ends before it. -/
def stringText : List U8 → Option (List U8)
  | [] => none
  | c :: s => if c = 0 then some [] else (stringText s).map (c :: ·)

/-- `"(null)"`, with its terminator. -/
def nullString : List U8 :=
  [0x28, 0x6e, 0x75, 0x6c, 0x6c, 0x29, 0]

/-- `digits_lower`. -/
def digitsLower : List U8 :=
  [0x30, 0x31, 0x32, 0x33, 0x34, 0x35, 0x36, 0x37, 0x38, 0x39,
    0x61, 0x62, 0x63, 0x64, 0x65, 0x66]

/-- `digits_upper`. -/
def digitsUpper : List U8 :=
  [0x30, 0x31, 0x32, 0x33, 0x34, 0x35, 0x36, 0x37, 0x38, 0x39,
    0x41, 0x42, 0x43, 0x44, 0x45, 0x46]

/-- `digits[digit]`. -/
def digitChar (upper : Bool) (digit : Nat) : U8 :=
  (if upper then digitsUpper else digitsLower).getD digit 0

/-- `while (val64 > 0)` in `print_num64`, for the entries left in `tmp`. -/
def digitLoop (base : U64) (upper : Bool) : Nat → U64 → Option (List U8)
  | 0, val64 => if val64 = 0 then some [] else none
  | room + 1, val64 =>
      if val64 = 0 then
        some []
      else
        (digitLoop base upper room (val64 / base)).map
          (digitChar upper (val64 % base).toNat :: ·)

/-- What `tmp` holds: the lowest digit is the first. -/
def digitsTmp (base : U64) (upper : Bool) (val64 : U64) : Option (List U8) :=
  if val64 = 0 then some [0x30] else digitLoop base upper 72 val64

/-- `neg` in `print_num64`. -/
def isNegative (sign : Bool) (val64 : U64) : Bool :=
  sign && decide (val64.toInt < 0)

/-- `pad` in `print_num64`. -/
def padding (width : U32) (idx : Nat) (neg : Bool) : Int :=
  if idx < width.toInt then width.toInt - idx - neg.toNat else 0

/-- The characters that `print_num64` hands to `print_char`. -/
def numberText (val64 base : U64) (upper sign : Bool) (width : U32)
    (zero : Bool) : Option (List U8) :=
  let neg := isNegative sign val64
  (digitsTmp base upper (if neg then -val64 else val64)).map fun tmp =>
    let minus : List U8 := if neg then [0x2d] else []
    let pad := padding width tmp.length neg
    if zero ∧ 0 < pad then
      minus ++ List.replicate pad.toNat 0x30 ++ tmp.reverse
    else
      List.replicate pad.toNat 0x20 ++ minus ++ tmp.reverse

/-! ## Directives -/

/-- What stands between `%` and the letter of a conversion; `prec` is -1 if there is
none. -/
structure Directive where
  zero : Bool
  width : U32
  prec : U32
  lng : Nat
deriving DecidableEq

/-- `*fmt >= '0' && *fmt <= '9'`. -/
def isDigit (c : U8) : Bool :=
  0x30 ≤ c && c ≤ 0x39

/-- The digits of a width or a precision. -/
def readNumber (value : U32) : List U8 → U32 × List U8
  | [] => (value, [])
  | c :: fmt =>
      if isDigit c then
        readNumber (value * 10 + (c - 0x30).setWidth 32) fmt
      else
        (value, c :: fmt)

/-- The flag `0`. -/
def readZero : List U8 → Bool × List U8
  | [] => (false, [])
  | c :: fmt => if c = 0x30 then (true, fmt) else (false, c :: fmt)

/-- The precision, -1 if there is none. -/
def readPrec : List U8 → U32 × List U8
  | [] => (-1, [])
  | c :: fmt => if c = 0x2e then readNumber 0 fmt else (-1, c :: fmt)

/-- The length modifiers: `l` is counted, `z` and `h` are skipped. -/
def readLength (lng : Nat) : List U8 → Nat × List U8
  | [] => (lng, [])
  | c :: fmt =>
      if c = 0x6c then
        readLength (lng + 1) fmt
      else if c = 0x7a ∨ c = 0x68 then
        readLength lng fmt
      else
        (lng, c :: fmt)

/-- The directive behind a `%`, and the format from its letter on. -/
def readDirective (fmt : List U8) : Directive × List U8 :=
  let zero := readZero fmt
  let width := readNumber 0 zero.2
  let prec := readPrec width.2
  let lng := readLength 0 prec.2
  ({ zero := zero.1, width := width.1, prec := prec.1, lng := lng.1 }, lng.2)

/-! ## Conversions -/

/-- The cases of the `switch`; `f`, `e` and `g` are not modelled further. -/
inductive Conversion where
  | signed
  | unsigned (base : U64) (upper : Bool)
  | binary
  | pointer
  | string
  | character
  | floating
  | percent
  | other
deriving DecidableEq

/-- What a letter asks for. -/
def conversion (letter : U8) : Conversion :=
  match letter with
  | 0x64 | 0x69 => .signed
  | 0x75 => .unsigned 10 false
  | 0x78 => .unsigned 16 false
  | 0x58 => .unsigned 16 true
  | 0x6f => .unsigned 8 false
  | 0x62 => .binary
  | 0x70 => .pointer
  | 0x73 => .string
  | 0x63 => .character
  | 0x66 | 0x46 | 0x65 | 0x45 | 0x67 | 0x47 => .floating
  | 0x25 => .percent
  | _ => .other

/-- An argument that is no `double`: its 64 bits, of which an `int` uses the lower half,
and the memory from that address on, as far as it may be read. -/
structure VaSlot where
  bits : U64
  string : List U8

/-- `va_arg(ap, u32)`, as an `unsigned long long`. -/
def VaSlot.u32 (slot : VaSlot) : U64 :=
  (slot.bits.setWidth 32).setWidth 64

/-- `val64` in the cases that look at `lng`. -/
def VaSlot.sized (slot : VaSlot) (lng : Nat) : U64 :=
  if 2 ≤ lng then slot.bits else if lng = 1 then slot.bits else slot.u32

/-- The string that `print_str` reads. -/
def VaSlot.text (slot : VaSlot) : Option (List U8) :=
  stringText (if slot.bits = 0 then nullString else slot.string)

/-- The characters of a conversion that takes an argument. -/
def argumentText (directive : Directive) (slot : VaSlot) : Conversion → Option (List U8)
  | .signed => numberText (slot.sized directive.lng) 10 false true directive.width directive.zero
  | .unsigned base upper =>
      numberText (slot.sized directive.lng) base upper false directive.width directive.zero
  | .binary => numberText slot.u32 2 false false directive.width directive.zero
  | .pointer => (numberText slot.u32 16 false false 8 true).map ([0x30, 0x78] ++ ·)
  | .string => slot.text
  | .character => some [slot.bits.setWidth 8]
  | .floating | .percent | .other => none

/-- The characters of a conversion, and the arguments behind those it takes. -/
def conversionText (directive : Directive) (letter : U8)
    (args : List VaSlot) : Option (List U8 × List VaSlot) :=
  match conversion letter with
  | .percent => some ([0x25], args)
  | .other => some ([0x25, letter], args)
  | taking =>
      match args with
      | [] => none
      | slot :: args => (argumentText directive slot taking).map fun text => (text, args)

/-! ## The loop over the format -/

section Loop

variable {State : Type} (put : U8 → State → State)

def putAll (text : List U8) (state : State) : State :=
  text.foldl (fun state c => put c state) state

/-- The loop of `vsnprintf`, for any `print_char`.  Every round takes a character of the
format, so that its length bounds the number of rounds. -/
def formatLoop : Nat → List U8 → List VaSlot → State → Option State
  | _, [], _, state => some state
  | 0, _ :: _, _, _ => none
  | fuel + 1, c :: fmt, args, state =>
      if c ≠ 0x25 then
        formatLoop fuel fmt args (put c state)
      else
        match readDirective fmt with
        -- `if (*fmt == '\0') break`
        | (_, []) => some state
        | (directive, letter :: fmt) =>
            match conversionText directive letter args with
            | none => none
            | some (text, args) => formatLoop fuel fmt args (putAll put text state)

def formatRun (fmt : List U8) (args : List VaSlot) (state : State) : Option State :=
  formatLoop put fmt.length fmt args state

end Loop

/-- What the call would produce with a buffer that has no end. -/
def formatOutput (fmt : List U8) (args : List VaSlot) : Option (List U8) :=
  formatRun (fun c output => output ++ [c]) fmt args []

/-- The terminator that `vsnprintf` stores. -/
def terminate (target : Target) (printed : Printed) : Printed :=
  match target.buf with
  | some buf =>
      if printed.pos < target.n then
        { printed with ram := printed.ram.store (buf + printed.pos.toNat) [0] }
      else if 0 < target.n then
        { printed with ram := printed.ram.store (buf + (target.n - 1).toNat) [0] }
      else
        printed
  | none => printed

/-- `vsnprintf`: the value returned is `pos` as an `int`. -/
def vsnprintf (buf : Option Nat) (n : U32) (fmt : List U8) (args : List VaSlot) (ram : Ram)
    (console : List U8) : Option (Int × Printed) :=
  let target : Target := { buf, n }
  (formatRun (printChar target) fmt args { ram, console, pos := 0 }).map fun printed =>
    (printed.pos.toInt, terminate target printed)

end XKern.Libkern
