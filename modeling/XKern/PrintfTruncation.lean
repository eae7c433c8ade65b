import XKern.PrintfNumbers

namespace XKern.Libkern

open RecordedMemory List BitVec Nat

/-!
# Truncated output

`vsnprintf` hands the characters of one output to `print_char`, whatever the target is,
and a buffer keeps those for which it has room.
-/

/-! ## One output for all targets -/

theorem length_readNumber (value : U32) (fmt : List U8) :
    (readNumber value fmt).2.length ≤ fmt.length := by
  induction fmt generalizing value with
  | nil => exact le_refl _
  | cons c fmt ih =>
    rw [readNumber]
    split
    · exact le_succ_of_le (ih _)
    · exact le_refl _

theorem length_readZero (fmt : List U8) : (readZero fmt).2.length ≤ fmt.length := by
  cases fmt with
  | nil => exact le_refl _
  | cons c fmt =>
    rw [readZero]
    split
    · exact le_succ _
    · exact le_refl _

theorem length_readPrec (fmt : List U8) : (readPrec fmt).2.length ≤ fmt.length := by
  cases fmt with
  | nil => exact le_refl _
  | cons c fmt =>
    rw [readPrec]
    split
    · exact le_succ_of_le (length_readNumber 0 fmt)
    · exact le_refl _

theorem length_readLength (lng : Nat) (fmt : List U8) :
    (readLength lng fmt).2.length ≤ fmt.length := by
  induction fmt generalizing lng with
  | nil => exact le_refl _
  | cons c fmt ih =>
    rw [readLength]
    split
    · exact le_succ_of_le (ih _)
    · split
      · exact le_succ_of_le (ih _)
      · exact le_refl _

theorem length_readDirective (fmt : List U8) : (readDirective fmt).2.length ≤ fmt.length :=
  calc (readDirective fmt).2.length
      ≤ (readPrec (readNumber 0 (readZero fmt).2).2).2.length := length_readLength _ _
    _ ≤ (readNumber 0 (readZero fmt).2).2.length := length_readPrec _
    _ ≤ (readZero fmt).2.length := length_readNumber _ _
    _ ≤ fmt.length := length_readZero fmt

variable {fmt : List U8} {letter : U8} {printed : Printed}

theorem length_of_letter {later : List U8} (isLetter : (readDirective fmt).2 = letter :: later) :
    later.length < fmt.length := by
  have shorter := length_readDirective fmt
  rwa [isLetter] at shorter

section Put

variable {State : Type} (put : U8 → State → State)

theorem putAll_append (first second : List U8) (state : State) :
    putAll put (first ++ second) state = putAll put second (putAll put first state) := by
  rw [putAll, foldl_append]
  rfl

theorem putAll_snoc (text output : List U8) :
    putAll (fun c output => output ++ [c]) text output = output ++ text := by
  induction text generalizing output with
  | nil => exact (append_nil output).symm
  | cons c text ih =>
    rw [putAll, foldl_cons]
    exact (ih (output ++ [c])).trans (List.append_assoc output [c] text)

theorem formatLoop_eq (fuel : Nat) (fmt : List U8) (args : List VaSlot) (output : List U8)
    (state : State) :
    formatLoop put fuel fmt args (putAll put output state) =
      (formatLoop (fun c output => output ++ [c]) fuel fmt args output).map
        fun output => putAll put output state := by
  induction fuel generalizing fmt args output with
  | zero =>
    cases fmt with
    | nil => rfl
    | cons c fmt => rfl
  | succ fuel ih =>
    cases fmt with
    | nil => rfl
    | cons c fmt =>
      rw [formatLoop, formatLoop]
      split
      · rw [← ih, putAll_append]
        rfl
      · split
        · rfl
        · split
          · rfl
          · rw [putAll_snoc, ← ih, putAll_append]

theorem formatRun_eq (fmt : List U8) (args : List VaSlot) (state : State) :
    formatRun put fmt args state =
      (formatOutput fmt args).map fun output => putAll put output state :=
  formatLoop_eq put fmt.length fmt args [] state

end Put

/-! ## Arguments that match a format -/

/-- The argument is one for the conversion. -/
def Accepts (slot : VaSlot) : Conversion → Prop
  | .signed | .unsigned _ _ | .binary | .pointer | .character => True
  | .string => slot.bits = 0 ∨ 0 ∈ slot.string
  | .floating | .percent | .other => False

/-- A format without floating-point conversions, and arguments for all others. -/
inductive Matches : List U8 → List VaSlot → Prop where
  | finished {args : List VaSlot} : Matches [] args
  | ordinary
      {c : U8}
      {fmt : List U8}
      {args : List VaSlot}
      (notPercent : c ≠ 0x25)
      (rest : Matches fmt args) :
      Matches (c :: fmt) args
  | cutOff
      {fmt : List U8}
      {args : List VaSlot}
      (isEnd : (readDirective fmt).2 = []) :
      Matches (0x25 :: fmt) args
  | plain
      {letter : U8}
      {fmt later : List U8}
      {args : List VaSlot}
      (isLetter : (readDirective fmt).2 = letter :: later)
      (isPlain : conversion letter = .percent ∨ conversion letter = .other)
      (rest : Matches later args) :
      Matches (0x25 :: fmt) args
  | taking
      {letter : U8}
      {fmt later : List U8}
      {slot : VaSlot}
      {args : List VaSlot}
      (isLetter : (readDirective fmt).2 = letter :: later)
      (accepts : Accepts slot (conversion letter))
      (rest : Matches later args) :
      Matches (0x25 :: fmt) (slot :: args)

theorem base_of_conversion {base : U64} {upper : Bool}
    (isUnsigned : conversion letter = .unsigned base upper) :
    2 ≤ base.toNat := by
  unfold conversion at isUnsigned
  split at isUnsigned <;> cases isUnsigned <;> decide

theorem exists_stringText {s : List U8} (terminated : 0 ∈ s) :
    ∃ text, stringText s = some text := by
  induction s with
  | nil => exact absurd terminated not_mem_nil
  | cons c s ih =>
    rw [stringText]
    split
    · exact ⟨_, rfl⟩
    · rename_i notEnd
      rcases mem_cons.mp terminated with isZero | later
      · exact absurd isZero.symm notEnd
      · obtain ⟨text, isText⟩ := ih later
        exact ⟨c :: text, by rw [isText]; rfl⟩

theorem exists_argumentText (directive : Directive) {slot : VaSlot}
    (accepts : Accepts slot (conversion letter)) :
    ∃ text, argumentText directive slot (conversion letter) = some text := by
  cases isCase : conversion letter with
  | signed => exact exists_numberText _ _ _ _ _ _ (by decide)
  | unsigned base upper => exact exists_numberText _ _ _ _ _ _ (base_of_conversion isCase)
  | binary => exact exists_numberText _ _ _ _ _ _ (by decide)
  | pointer =>
    obtain ⟨text, isText⟩ := exists_numberText slot.u32 16 false false 8 true (by decide)
    exact ⟨_, by rw [argumentText, isText]; rfl⟩
  | string =>
    rw [isCase] at accepts
    apply exists_stringText
    split
    · decide
    · rename_i nonnull
      exact accepts.resolve_left nonnull
  | character => exact ⟨_, rfl⟩
  | floating => exact (isCase ▸ accepts : Accepts slot .floating).elim
  | percent => exact (isCase ▸ accepts : Accepts slot .percent).elim
  | other => exact (isCase ▸ accepts : Accepts slot .other).elim

theorem conversionText_of_argument {directive : Directive} {slot : VaSlot} {text : List U8}
    (isText : argumentText directive slot (conversion letter) = some text) (args : List VaSlot) :
    conversionText directive letter (slot :: args) = some (text, args) := by
  rw [conversionText]
  cases isCase : conversion letter with
  | percent =>
    rw [isCase] at isText
    cases isText
  | other =>
    rw [isCase] at isText
    cases isText
  | _ =>
    rw [isCase] at isText
    simp only [isText, Option.map_some]

theorem conversionText_of_plain (directive : Directive)
    (isPlain : conversion letter = .percent ∨ conversion letter = .other) (args : List VaSlot) :
    ∃ text, conversionText directive letter args = some (text, args) := by
  rw [conversionText]
  rcases isPlain with isPercent | isOther
  · rw [isPercent]
    exact ⟨_, rfl⟩
  · rw [isOther]
    exact ⟨_, rfl⟩

section Formats

variable {State : Type} {put : U8 → State → State} {fuel : Nat} {args : List VaSlot}

theorem formatLoop_ordinary {c : U8} (notPercent : c ≠ 0x25) (fmt : List U8) (state : State) :
    formatLoop put (fuel + 1) (c :: fmt) args state =
      formatLoop put fuel fmt args (put c state) := by
  rw [formatLoop, if_pos notPercent]

theorem formatLoop_cutOff (isEnd : (readDirective fmt).2 = []) (state : State) :
    formatLoop put (fuel + 1) (0x25 :: fmt) args state = some state := by
  rcases isRead : readDirective fmt with ⟨directive, later⟩
  rw [isRead] at isEnd
  cases isEnd
  rw [formatLoop, if_neg (not_not_intro rfl), isRead]

theorem formatLoop_conversion {later text : List U8} {argsLeft : List VaSlot}
    (isLetter : (readDirective fmt).2 = letter :: later)
    (isText : conversionText (readDirective fmt).1 letter args = some (text, argsLeft))
    (state : State) :
    formatLoop put (fuel + 1) (0x25 :: fmt) args state =
      formatLoop put fuel later argsLeft (putAll put text state) := by
  rcases isRead : readDirective fmt with ⟨directive, rest⟩
  rw [isRead] at isLetter isText
  cases isLetter
  rw [formatLoop, if_neg (not_not_intro rfl), isRead]
  dsimp only
  rw [isText]

theorem formatLoop_fails {later : List U8} (isLetter : (readDirective fmt).2 = letter :: later)
    (noText : conversionText (readDirective fmt).1 letter args = none) (state : State) :
    formatLoop put (fuel + 1) (0x25 :: fmt) args state = none := by
  rcases isRead : readDirective fmt with ⟨directive, rest⟩
  rw [isRead] at isLetter noText
  cases isLetter
  rw [formatLoop, if_neg (not_not_intro rfl), isRead]
  dsimp only
  rw [noText]

theorem formatLoop_nil (state : State) : formatLoop put fuel [] args state = some state := by
  cases fuel with
  | zero => rfl
  | succ fuel => rfl

theorem exists_fuel {c : U8} (enough : (c :: fmt).length ≤ fuel) :
    ∃ left, fuel = left + 1 ∧ fmt.length ≤ left := by
  obtain ⟨left, rfl⟩ := Nat.exists_eq_add_of_le' (le_trans (succ_pos _) enough)
  exact ⟨left, rfl, le_of_succ_le_succ enough⟩

theorem exists_formatLoop (isMatch : Matches fmt args) (enough : fmt.length ≤ fuel)
    (state : State) :
    ∃ final, formatLoop put fuel fmt args state = some final := by
  induction isMatch generalizing fuel state with
  | finished => exact ⟨state, formatLoop_nil state⟩
  | ordinary notPercent _ ih =>
    obtain ⟨left, rfl, enoughLeft⟩ := exists_fuel enough
    rw [formatLoop_ordinary notPercent]
    exact ih enoughLeft _
  | cutOff isEnd =>
    obtain ⟨left, rfl, -⟩ := exists_fuel enough
    exact ⟨state, formatLoop_cutOff isEnd state⟩
  | plain isLetter isPlain _ ih =>
    obtain ⟨left, rfl, enoughLeft⟩ := exists_fuel enough
    obtain ⟨text, isText⟩ := conversionText_of_plain _ isPlain _
    have shorter := length_of_letter isLetter
    rw [formatLoop_conversion isLetter isText]
    exact ih (le_trans (le_of_lt shorter) enoughLeft) _
  | taking isLetter accepts _ ih =>
    obtain ⟨left, rfl, enoughLeft⟩ := exists_fuel enough
    obtain ⟨text, isText⟩ := exists_argumentText _ accepts
    have shorter := length_of_letter isLetter
    rw [formatLoop_conversion isLetter (conversionText_of_argument isText _)]
    exact ih (le_trans (le_of_lt shorter) enoughLeft) _

end Formats

theorem exists_formatOutput {args : List VaSlot} (isMatch : Matches fmt args) :
    ∃ output, formatOutput fmt args = some output :=
  exists_formatLoop isMatch (le_refl _) []

/-! ## Buffers -/

theorem putAll_buffer (buf : Nat) (n : U32) (text : List U8) (printed : Printed)
    (inside : printed.pos.toNat ≤ n.toNat) :
    Filled (buf + printed.pos.toNat) (text.take (n.toNat - printed.pos.toNat)) printed.ram
        (putAll (printChar { buf := some buf, n }) text printed).ram ∧
      (putAll (printChar { buf := some buf, n }) text printed).pos.toNat =
        min (printed.pos.toNat + text.length) n.toNat := by
  induction text generalizing printed with
  | nil =>
    rw [take_nil]
    exact ⟨filled_nil _ _, (min_eq_left inside).symm⟩
  | cons c text ih =>
    have isNext : putAll (printChar { buf := some buf, n }) (c :: text) printed =
        putAll (printChar { buf := some buf, n }) text
          (printChar { buf := some buf, n } c printed) := rfl
    rw [isNext, length_cons]
    by_cases room : printed.pos.toNat < n.toNat
    · have posNext : (printed.pos + 1).toNat = printed.pos.toNat + 1 := by
        have := n.isLt
        exact mod_eq_of_lt (show printed.pos.toNat + 1 < 2 ^ 32 by omega)
      have isPrinted : printChar { buf := some buf, n } c printed = { printed with
            ram := printed.ram.store (buf + printed.pos.toNat) [c]
            pos := printed.pos + 1 } :=
        if_pos room
      obtain ⟨filled, pos⟩ := ih (printChar { buf := some buf, n } c printed)
        (by rw [isPrinted]; dsimp only; omega)
      rw [isPrinted] at filled pos ⊢
      dsimp only at filled pos
      rw [posNext] at filled pos
      constructor
      · obtain ⟨left, isLeft⟩ := Nat.exists_eq_add_of_lt room
        have leftHere : n.toNat - printed.pos.toNat = left + 1 := by omega
        have leftNext : n.toNat - (printed.pos.toNat + 1) = left := by omega
        rw [leftHere, take_succ_cons]
        rw [leftNext] at filled
        exact (filled_store _ [c] printed.ram).append filled
      · rw [pos]
        omega
    · have isPrinted : printChar { buf := some buf, n } c printed = printed := if_neg room
      obtain ⟨filled, pos⟩ := ih printed inside
      have full : n.toNat - printed.pos.toNat = 0 := by omega
      rw [isPrinted]
      refine ⟨?_, by rw [pos]; omega⟩
      rw [full, take_zero] at filled ⊢
      exact filled

/-- Between a buffer before and after a call: the start of an output with a terminator
behind it, and nothing outside `buf[0]` to `buf[n-1]`. -/
structure Truncated (buf n : Nat) (output : List U8) (after : Ram) : Prop where
  within : ∀ address, after.Written address → buf ≤ address ∧ address < buf + n
  characters : ∀ i < min output.length (n - 1), output[i]? = some (after.content (buf + i))
  terminated : 0 < n → after.content (buf + min output.length (n - 1)) = 0
  nothing : n = 0 → ∀ address, ¬ after.Written address

/-- The `int` with the 32 bits of a count. -/
def intOfCount (count : Nat) : Int :=
  if count < 2 ^ 31 then count else count - 2 ^ 32

theorem toInt_of_toNat {pos : U32} {count : Nat} (isCount : pos.toNat = count) :
    pos.toInt = intOfCount count := by
  rw [toInt_eq_toNat_cond, isCount, intOfCount]
  by_cases small : count < 2 ^ 31
  · rw [if_pos small, if_pos (by omega)]
  · rw [if_neg small, if_neg (by omega)]
    rfl

/-- In a buffer with room for a byte, the terminator is behind the characters or at its
end. -/
theorem terminate_buffer {buf : Nat} {n : U32} {count : Nat}
    (isCount : printed.pos.toNat = min count n.toNat) (room : 0 < n.toNat) :
    (terminate { buf := some buf, n } printed).ram =
      printed.ram.store (buf + min count (n.toNat - 1)) [0] := by
  rw [terminate]
  dsimp only
  by_cases fits : printed.pos.toNat < n.toNat
  · have isEnd : printed.pos.toNat = min count (n.toNat - 1) := by omega
    rw [if_pos (show printed.pos < n from fits), isEnd]
  · have isEnd : (n - 1).toNat = min count (n.toNat - 1) := by
      have := n.isLt
      rw [toNat_sub_of_le (show (1 : U32).toNat ≤ n.toNat from room)]
      change n.toNat - 1 = _
      omega
    rw [if_neg (show ¬ printed.pos < n from fits), if_pos (show 0 < n from room), isEnd]

theorem truncated_terminate {buf : Nat} {n : U32} {output : List U8} {content : Nat → U8}
    (filled : Filled buf (output.take n.toNat) (.fresh content) printed.ram)
    (isCount : printed.pos.toNat = min output.length n.toNat) :
    Truncated buf n.toNat output (terminate { buf := some buf, n } printed).ram := by
  have within (address : Nat) (written : printed.ram.Written address) :
      buf ≤ address ∧ address < buf + n.toNat := by
    rw [filled.written, length_take] at written
    have range := written.resolve_left (Recorded.not_written_fresh content address)
    omega
  by_cases room : 0 < n.toNat
  · rw [terminate_buffer isCount room]
    exact {
      within := fun address written => by
        rw [Recorded.written_store, length_singleton] at written
        rcases written with before | isEnd
        · exact within address before
        · omega
      characters := fun i less => by
        have inside : i < (output.take n.toNat).length := by
          rw [length_take]
          omega
        have isChar := List.getElem?_eq_getElem inside
        rw [Recorded.content_store, if_neg (by omega), filled.content_inside isChar, ← isChar,
          getElem?_take_of_lt (by omega)]
      terminated := fun _ => by rw [Recorded.content_store, if_pos rfl]
      nothing := fun isZero => absurd isZero (ne_of_gt room) }
  · have notPos : ¬ printed.pos < n := fun less => room (lt_of_le_of_lt (zero_le _) less)
    have unchanged : terminate { buf := some buf, n } printed = printed := by
      rw [terminate]
      dsimp only
      rw [if_neg notPos, if_neg (show ¬ 0 < n from room)]
    rw [unchanged]
    exact {
      within := within
      characters := fun i less => by omega
      terminated := fun positive => absurd positive room
      nothing := fun isZero address written => by
        have range := within address written
        omega }

theorem vsnprintf_of_output (buf : Nat) (n : U32) {output : List U8} {args : List VaSlot}
    (isOutput : formatOutput fmt args = some output) (content : Nat → U8) (console : List U8) :
    ∃ final, vsnprintf (some buf) n fmt args (.fresh content) console =
        some (intOfCount (min output.length n.toNat), final) ∧
      Truncated buf n.toNat output final.ram := by
  let printed := putAll (printChar { buf := some buf, n }) output
    { ram := .fresh content, console, pos := 0 }
  obtain ⟨filled, isCount⟩ : Filled buf (output.take n.toNat) (.fresh content) printed.ram ∧
      printed.pos.toNat = min output.length n.toNat := by
    have put := putAll_buffer buf n output
      { ram := .fresh content, console, pos := 0 } (zero_le _)
    rw [show (0 : U32).toNat = 0 from rfl, Nat.add_zero, Nat.sub_zero, Nat.zero_add] at put
    exact put
  refine ⟨terminate { buf := some buf, n } printed, ?_, truncated_terminate filled isCount⟩
  rw [vsnprintf, formatRun_eq, isOutput, ← toInt_of_toNat isCount]
  rfl

/-- `vsnprintf` keeps to its buffer and leaves there as much of the output as fits.  It
returns the number of characters as an `int`. -/
theorem vsnprintf_truncates (buf : Nat) (n : U32) (fmt : List U8) (args : List VaSlot)
    (isMatch : Matches fmt args) (content : Nat → U8) (console : List U8) :
    ∃ output final,
      formatOutput fmt args = some output ∧
        vsnprintf (some buf) n fmt args (.fresh content) console =
          some (intOfCount (min output.length n.toNat), final) ∧
        Truncated buf n.toNat output final.ram := by
  obtain ⟨output, isOutput⟩ := exists_formatOutput isMatch
  obtain ⟨final, isFinal, truncated⟩ := vsnprintf_of_output buf n isOutput content console
  exact ⟨output, final, isOutput, isFinal, truncated⟩

/-- `%d`. -/
def decimalFormat : List U8 :=
  [0x25, 0x64]

/-- Five digits for a buffer of four bytes. -/
theorem decimal_truncates :
    ∃ output final,
      formatOutput decimalFormat [⟨12345, []⟩] = some output ∧
        vsnprintf (some 0x1000) 4 decimalFormat [⟨12345, []⟩] (.fresh fun _ => 0) [] =
          some (intOfCount (min output.length (4 : U32).toNat), final) ∧
        Truncated 0x1000 (4 : U32).toNat output final.ram ∧ output.length = 5 := by
  obtain ⟨output, final, isOutput, returned, truncated⟩ := vsnprintf_truncates 0x1000 4
    decimalFormat [⟨12345, []⟩] (.taking rfl trivial .finished) (fun _ => 0) []
  have digits : formatOutput decimalFormat [⟨12345, []⟩] =
      some [0x31, 0x32, 0x33, 0x34, 0x35] := by
    decide
  rw [digits] at isOutput
  cases isOutput
  exact ⟨_, final, digits, returned, truncated, rfl⟩

/-- `%2147483647dx`. -/
def wideFormat : List U8 :=
  [0x25, 0x32, 0x31, 0x34, 0x37, 0x34, 0x38, 0x33, 0x36, 0x34, 0x37, 0x64, 0x78]

theorem formatOutput_wideFormat : formatOutput wideFormat [⟨0, []⟩] =
      some (field false 2147483647 false (numeral 10 false 0) ++ [0x78]) := by
  have isLetter : (readDirective wideFormat.tail).2 = [0x64, 0x78] := by decide
  have isWidth : (readDirective wideFormat.tail).1 =
      { zero := false, width := 2147483647, prec := -1, lng := 0 } := by decide
  have isText : conversionText (readDirective wideFormat.tail).1 0x64 [⟨0, []⟩] =
      some (field false 2147483647 false (numeral 10 false 0), []) := by
    apply conversionText_of_argument
    rw [isWidth, show conversion 0x64 = .signed by decide]
    have least : 2 ≤ (10 : U64).toNat := by decide
    exact numberText_eq 0 false true false least (by decide)
  rw [formatOutput, formatRun]
  change formatLoop _ (12 + 1) (0x25 :: wideFormat.tail) _ _ = _
  rw [formatLoop_conversion isLetter isText, putAll_snoc, nil_append]
  change formatLoop _ (11 + 1) (0x78 :: []) _ _ = _
  rw [formatLoop_ordinary (by decide)]
  rfl

/-- The number of characters may be too large for an `int`. -/
theorem wideFormat_returns_negative :
    ∃ output final,
      formatOutput wideFormat [⟨0, []⟩] = some output ∧
        vsnprintf (some 0x1000) 0xffffffff wideFormat [⟨0, []⟩] (.fresh fun _ => 0) [] =
          some (-2147483648, final) ∧
        min output.length (0xffffffff : U32).toNat = 2147483648 := by
  obtain ⟨final, isFinal, -⟩ := vsnprintf_of_output 0x1000 0xffffffff formatOutput_wideFormat
    (fun _ => 0) []
  have length : (field false 2147483647 false (numeral 10 false 0) ++ [(0x78 : U8)]).length =
      2147483648 := by
    rw [length_append, length_field]
    decide
  rw [length] at isFinal
  exact ⟨_, final, formatOutput_wideFormat, isFinal, by rw [length]; decide⟩

end XKern.Libkern
