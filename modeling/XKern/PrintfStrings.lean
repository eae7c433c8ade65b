import XKern.PrintfValues

namespace XKern.Libkern

open RecordedMemory List Nat Option

/-!
# Precision of strings

`vsnprintf` reads the precision of `%.Ns` and does not use it: `print_str` runs to the
terminator.  The driver of USB disks and the log of ACPI tables pass fields of a fixed
size that need not have one.
-/

/-! ## Strings without precision -/

theorem stringText_eq_some {s text : List U8} (isText : stringText s = some text) :
    0 ∈ s ∧ text.length < s.length := by
  induction s generalizing text with
  | nil => cases isText
  | cons c s ih =>
    rw [stringText] at isText
    split at isText
    · rename_i isEnd
      cases isText
      exact ⟨mem_cons.mpr (.inl isEnd.symm), succ_pos _⟩
    · obtain ⟨later, isLater, rfl⟩ := map_eq_some_iff.mp isText
      obtain ⟨terminated, shorter⟩ := ih isLater
      exact ⟨mem_cons_of_mem c terminated, succ_lt_succ shorter⟩

theorem vaSlot_text {slot : VaSlot} (nonnull : slot.bits ≠ 0) :
    slot.text = stringText slot.string := by
  rw [VaSlot.text, if_neg nonnull]

theorem conversionText_string (directive : Directive) {slot : VaSlot} (nonnull : slot.bits ≠ 0)
    (args : List VaSlot) :
    conversionText directive 0x73 (slot :: args) =
      (stringText slot.string).map fun text => (text, args) := by
  rw [← vaSlot_text nonnull]
  rfl

/-! ## One string with a precision -/

/-- `%.Ns`. -/
def precisionFormat (N : Nat) : List U8 :=
  [0x25, 0x2e] ++ numeral 10 false N ++ [0x73]

theorem readNumber_numeral (N : Nat) {rest : List U8}
    (notDigit : ∀ c ∈ rest.head?, isDigit c = false) :
    readNumber 0 (numeral 10 false N ++ rest) = (.ofNat 32 N, rest) := by
  by_cases isZero : N = 0
  · rw [isZero]
    have decimal : ∀ digit ∈ [0], digit < 10 := by decide
    exact readNumber_append decimal notDigit 0
  · rw [numeral, if_neg isZero]
    exact readNumber_widthText N notDigit

theorem readDirective_precision (N : Nat) : readDirective (precisionFormat N).tail =
      ({ zero := false, width := 0, prec := .ofNat 32 N, lng := 0 }, [0x73]) := by
  have notDigit : ∀ c ∈ [(0x73 : U8)].head?, isDigit c = false := by decide
  have precRead : readPrec (0x2e :: (numeral 10 false N ++ [0x73])) =
      (.ofNat 32 N, [0x73]) := readNumber_numeral N notDigit
  change (let prec := readPrec (0x2e :: (numeral 10 false N ++ [0x73]))
    let lng := readLength 0 prec.2
    (({ zero := false, width := 0, prec := prec.1, lng := lng.1 } : Directive), lng.2)) = _
  rw [precRead]
  rfl

theorem formatOutput_precision (N : Nat) (slot : VaSlot) (nonnull : slot.bits ≠ 0) :
    formatOutput (precisionFormat N) [slot] = stringText slot.string := by
  have read := readDirective_precision N
  have isLetter := congrArg Prod.snd read
  have isFormat : precisionFormat N = 0x25 :: (precisionFormat N).tail := rfl
  rw [formatOutput, formatRun, isFormat, length_cons]
  cases isText : stringText slot.string with
  | none =>
    apply formatLoop_fails isLetter
    rw [conversionText_string _ nonnull, isText]
    rfl
  | some text =>
    have isConverted : conversionText (readDirective (precisionFormat N).tail).1 0x73 [slot] =
        some (text, []) := by
      rw [conversionText_string _ nonnull, isText]
      rfl
    rw [formatLoop_conversion isLetter isConverted, putAll_snoc, nil_append, formatLoop_nil]

/-- With only the first `N` bytes of an array to be read, `%.Ns` comes to its end and
prints at most `N` characters. -/
def PrecisionBounds (buf : Option Nat) (n : U32) (N : Nat) (bits : U64) (s : List U8) (ram : Ram)
    (console : List U8) : Prop :=
  ∃ returned final,
    vsnprintf buf n (precisionFormat N) [⟨bits, s.take N⟩] ram console = some (returned, final) ∧
      final.pos.toNat ≤ N

theorem pos_terminate (target : Target) (printed : Printed) :
    (terminate target printed).pos = printed.pos := by
  rw [terminate]
  split
  · split
    · rfl
    · split
      · rfl
      · rfl
  · rfl

theorem pos_putAll_le (target : Target) (text : List U8) (printed : Printed) :
    (putAll (printChar target) text printed).pos.toNat ≤ printed.pos.toNat + text.length := by
  induction text generalizing printed with
  | nil => exact le_refl _
  | cons c text ih =>
    have step : (printChar target c printed).pos.toNat ≤ printed.pos.toNat + 1 := by
      have next : (printed.pos + 1).toNat ≤ printed.pos.toNat + 1 := mod_le _ _
      rw [printChar]
      split
      · split
        · exact next
        · exact le_succ _
      · exact next
    have later := ih (printChar target c printed)
    rw [length_cons]
    change (putAll (printChar target) text (printChar target c printed)).pos.toNat ≤ _
    omega

theorem vsnprintf_eq (buf : Option Nat) (n : U32) (fmt : List U8) (args : List VaSlot) (ram : Ram)
    (console : List U8) :
    vsnprintf buf n fmt args ram console = (formatOutput fmt args).map fun output =>
        let printed := putAll (printChar { buf, n }) output { ram, console, pos := 0 }
        (printed.pos.toInt, terminate { buf, n } printed) := by
  rw [vsnprintf, formatRun_eq, Option.map_map]
  rfl

section Precision

variable {buf : Option Nat} {n : U32} {N : Nat} {bits : U64} {s : List U8} {ram : Ram}
  {console : List U8}

theorem mem_of_precisionBounds (nonnull : bits ≠ 0)
    (bounds : PrecisionBounds buf n N bits s ram console) :
    0 ∈ s.take N := by
  obtain ⟨returned, final, isFinal, -⟩ := bounds
  rw [vsnprintf_eq, formatOutput_precision N ⟨bits, s.take N⟩ nonnull] at isFinal
  obtain ⟨text, isText, -⟩ := map_eq_some_iff.mp isFinal
  exact (stringText_eq_some isText).1

theorem precisionBounds_of_mem (nonnull : bits ≠ 0) (terminated : 0 ∈ s.take N) :
    PrecisionBounds buf n N bits s ram console := by
  obtain ⟨text, isText⟩ := exists_stringText terminated
  rw [PrecisionBounds, vsnprintf_eq, formatOutput_precision N ⟨bits, s.take N⟩ nonnull, isText]
  refine ⟨_, _, rfl, ?_⟩
  rw [pos_terminate]
  have count := pos_putAll_le { buf, n } text { ram, console, pos := 0 }
  have shorter := (stringText_eq_some isText).2
  rw [length_take] at shorter
  change _ ≤ 0 + text.length at count
  omega

end Precision

/-- `%.Ns` keeps to its precision only where there is a terminator in front of it. -/
theorem precision_respected_iff (buf : Option Nat) (n : U32) (N : Nat) (bits : U64)
    (nonnull : bits ≠ 0) (s : List U8) (ram : Ram) (console : List U8) :
    PrecisionBounds buf n N bits s ram console ↔ 0 ∈ s.take N :=
  ⟨mem_of_precisionBounds nonnull, precisionBounds_of_mem nonnull⟩

/-- A field of four bytes with a terminator. -/
theorem terminatedField_respected_iff :
    PrecisionBounds none 0 4 0x1000 [0x41, 0x42, 0, 0x43] (.fresh fun _ => 0) [] ↔
      0 ∈ [(0x41 : U8), 0x42, 0, 0x43].take 4 :=
  precision_respected_iff none 0 4 0x1000 (by decide) [0x41, 0x42, 0, 0x43]
    (.fresh fun _ => 0) []

/-! ## The callers -/

/-- A pointer into an array, behind whose end nothing may be read. -/
def arraySlot (address : U64) (array : List U8) (offset : Nat) : VaSlot where
  bits := address + .ofNat 64 offset
  string := array.drop offset

/-- `%.8s %.16s`. -/
def modelFormat : List U8 :=
  [0x25, 0x2e, 0x38, 0x73, 0x20, 0x25, 0x2e, 0x31, 0x36, 0x73]

/-- The call of `snprintf` in `usb_msc_setup`, for `inquiry` at an address and `d->model`
at another. -/
def usbModel (model : Nat) (address : U64) (inquiry : List U8) (ram : Ram) :
    Option (Int × Printed) :=
  vsnprintf (some model) 48 modelFormat [arraySlot address inquiry 8, arraySlot address inquiry 16]
    ram []

/-- `  OEM: %.6s`. -/
def oemFormat : List U8 :=
  [0x20, 0x20, 0x4f, 0x45, 0x4d, 0x3a, 0x20, 0x25, 0x2e, 0x36, 0x73]

/-- The line on `oem_id` in `acpi_print_sdt`, as `klog` formats it to `buf`. -/
def acpiOemLine (buf : Nat) (address : U64) (table : List U8) (ram : Ram) :
    Option (Int × Printed) :=
  vsnprintf (some buf) 256 oemFormat [arraySlot address table 10] ram []

theorem formatOutput_modelFormat {vendor product : VaSlot} (vendorNonnull : vendor.bits ≠ 0)
    (productNonnull : product.bits ≠ 0) :
    formatOutput modelFormat [vendor, product] = (stringText vendor.string).bind fun first =>
        (stringText product.string).map fun second => first ++ [0x20] ++ second := by
  have firstLetter : (readDirective modelFormat.tail).2 = 0x73 :: modelFormat.drop 4 := by decide
  have secondLetter : (readDirective (modelFormat.drop 6)).2 = [0x73] := by decide
  rw [formatOutput, formatRun]
  change formatLoop _ (9 + 1) (0x25 :: modelFormat.tail) _ _ = _
  cases isFirst : stringText vendor.string with
  | none =>
    apply formatLoop_fails firstLetter
    rw [conversionText_string _ vendorNonnull, isFirst]
    rfl
  | some first =>
    have isVendor : conversionText (readDirective modelFormat.tail).1 0x73 [vendor, product] =
        some (first, [product]) := by
      rw [conversionText_string _ vendorNonnull, isFirst]
      rfl
    rw [formatLoop_conversion firstLetter isVendor, putAll_snoc, nil_append]
    change formatLoop _ (8 + 1) (0x20 :: 0x25 :: modelFormat.drop 6) _ _ = _
    rw [formatLoop_ordinary (by decide)]
    cases isSecond : stringText product.string with
    | none =>
      apply formatLoop_fails secondLetter
      rw [conversionText_string _ productNonnull, isSecond]
      rfl
    | some second =>
      have isProduct : conversionText (readDirective (modelFormat.drop 6)).1 0x73 [product] =
          some (second, []) := by
        rw [conversionText_string _ productNonnull, isSecond]
        rfl
      rw [formatLoop_conversion secondLetter isProduct, putAll_snoc, formatLoop_nil]
      rfl

/-- The name of a disk is read inside `inquiry` exactly if there is a terminator behind
the vendor. -/
theorem usbModel_isSome_iff (model : Nat) {address : U64} (vendorNonnull : address + 8 ≠ 0)
    (productNonnull : address + 16 ≠ 0) (inquiry : List U8) (ram : Ram) :
    (usbModel model address inquiry ram).isSome ↔ 0 ∈ inquiry.drop 16 := by
  have isOutput : formatOutput modelFormat
      [arraySlot address inquiry 8, arraySlot address inquiry 16] =
        (stringText (inquiry.drop 8)).bind fun first =>
          (stringText (inquiry.drop 16)).map fun second => first ++ [0x20] ++ second :=
    formatOutput_modelFormat vendorNonnull productNonnull
  rw [usbModel, vsnprintf_eq, isOutput, isSome_map]
  constructor
  · intro isSome
    obtain ⟨output, isOutput⟩ := isSome_iff_exists.mp isSome
    obtain ⟨first, -, isSecond⟩ := bind_eq_some_iff.mp isOutput
    obtain ⟨second, isText, -⟩ := map_eq_some_iff.mp isSecond
    exact (stringText_eq_some isText).1
  · intro terminated
    have later : 0 ∈ inquiry.drop 8 := by
      have isSuffix : inquiry.drop 16 = (inquiry.drop 8).drop 8 := by rw [drop_drop]
      rw [isSuffix] at terminated
      exact mem_of_mem_drop terminated
    obtain ⟨first, isFirst⟩ := exists_stringText later
    obtain ⟨second, isSecond⟩ := exists_stringText terminated
    rw [isFirst, isSecond]
    rfl

/-- An answer to `INQUIRY` in which all fields are letters and spaces, as disks fill them. -/
def paddedInquiry : List U8 :=
  [0, 0x80, 4, 2, 0x1f, 0, 0, 0] ++ replicate 8 0x41 ++ replicate 16 0x20 ++
    [0x31, 0x2e, 0x30, 0x30]

/-- The header of a table, with letters in all of `oem_id` and `oem_table_id`. -/
def paddedTable : List U8 :=
  [0x46, 0x41, 0x43, 0x50, 36, 0, 0, 0, 1, 0] ++ replicate 6 0x41 ++
    replicate 8 0x42 ++ [1, 0, 0, 0, 0x43, 0x43, 0x43, 0x43, 1, 0, 0, 0]

/-- A field of eight letters is read behind its end, the name of a disk behind the end of
`inquiry`, and of an `oem_id` 15 characters are printed behind the 7 of the label. -/
theorem precisions_ignored :
    ¬ PrecisionBounds none 0 8 0x1000 (List.replicate 8 0x41) (.fresh fun _ => 0) [] ∧
      usbModel 0x2000 0x1000 paddedInquiry (.fresh fun _ => 0) = none ∧
      (acpiOemLine 0x2000 0x1000 paddedTable (.fresh fun _ => 0)).map Prod.fst =
        some 22 := by
  refine ⟨?_, ?_, ?_⟩
  · intro bounds
    exact absurd (mem_of_precisionBounds (by decide) bounds) (by decide)
  · have notSome := (usbModel_isSome_iff 0x2000 (show (0x1000 : U64) + 8 ≠ 0 by decide) (by decide)
      paddedInquiry (.fresh fun _ => 0)).not.mpr (by decide)
    exact not_isSome_iff_eq_none.mp notSome
  · decide +kernel

end XKern.Libkern
