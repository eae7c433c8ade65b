import XKern.PrintfTruncation

namespace XKern.Libkern

open RecordedMemory Slices Stores List

/-!
# Kernel messages

Model of `libkern/klog.c`.  A message is formatted into a local buffer of 256 bytes and
from there, with the time in front of it, into one of 352 bytes, which then goes to the
console.  A call has no result if an argument does not match its format or if a store
misses its buffer.
-/

def ascii (text : String) : List U8 :=
  text.toList.map fun c => .ofNat 8 c.toNat

/-- A string literal with its terminator. -/
def literal (text : String) : List U8 :=
  ascii text ++ [0]

/-- An `unsigned int` as an argument. -/
def VaSlot.ofU32 (value : U32) : VaSlot where
  bits := value.setWidth 64
  string := []

/-- The address of these bytes as an argument; it is not null. -/
def VaSlot.ofString (bytes : List U8) : VaSlot where
  bits := 1
  string := bytes

/-- `klog_prio`. -/
def klogPrio : List String :=
  ["Emergency", "Alert", "Critical", "Error", "Warning", "Notice", "Info", "Debug"]

/-- `KLOG_NOTICE`. -/
def klogNotice : Int := 5

/-- `level` in `klog_emit`. -/
def klogLevel (prio : Int) : String :=
  klogPrio.getD (if 0 ≤ prio ∧ prio ≤ 7 then prio else klogNotice).toNat ""

/-- A local array of `size` bytes after `vsnprintf`. -/
def formatLocal (size : U32) (fmt : List U8) (args : List VaSlot) : Option (List U8) :=
  match vsnprintf (some 0) size fmt args (.fresh fun _ => 0) [] with
  | none => none
  | some (_, printed) =>
      if ∀ store ∈ printed.ram.stores, store.values ≠ [] → store.stop ≤ size.toNat then
        some (slice printed.ram.content 0 size.toNat)
      else
        none

def klogLine : List U8 :=
  ascii "%02u:%02u:%02u.%03u xkern kernel<0> <%s>: com.xkern.%s: %s\n"

/-- `klog_emit` at the time `ms`: what it puts on the console. -/
def klogEmit (prio : Int) (driver buf : List U8) (ms : U32) : Option (List U8) := do
  let line ← formatLocal 352 klogLine
    [.ofU32 (ms / 3600000), .ofU32 (ms / 60000 % 60), .ofU32 (ms / 1000 % 60), .ofU32 (ms % 1000),
      .ofString (literal (klogLevel prio)), .ofString driver, .ofString buf]
  let printed ← vsnprintf none 0 (ascii "%s") [.ofString line] (Recorded.fresh fun _ => 0) []
  return printed.2.console

/-- `klog_vlvl`. -/
def klogVlvl (prio : Int) (driver fmt : List U8) (args : List VaSlot)
    (ms : U32) : Option (List U8) := do
  let buf ← formatLocal 256 fmt args
  klogEmit prio driver buf ms

/-! ## Arguments of a known format -/

/-- The conversions of a format that take arguments, in their order. -/
def argumentKinds : Nat → List U8 → Option (List Conversion)
  | _, [] => some []
  | 0, _ :: _ => none
  | fuel + 1, c :: fmt =>
      if c ≠ 0x25 then
        argumentKinds fuel fmt
      else
        match readDirective fmt with
        | (_, []) => some []
        | (_, letter :: fmt) =>
            match conversion letter with
            | .percent | .other => argumentKinds fuel fmt
            | .floating => none
            | kind => (argumentKinds fuel fmt).map (kind :: ·)

variable {args : List VaSlot} {fmt : List U8}

theorem matches_of_kinds {fuel : Nat} {kinds : List Conversion}
    (isKinds : argumentKinds fuel fmt = some kinds) (accepted : List.Forall₂ Accepts args kinds) :
    Matches fmt args := by
  induction fuel generalizing fmt kinds args with
  | zero =>
    cases fmt with
    | nil => exact .finished
    | cons c fmt => cases isKinds
  | succ fuel ih =>
    cases fmt with
    | nil => exact .finished
    | cons c fmt =>
      rw [argumentKinds] at isKinds
      split at isKinds
      · exact .ordinary ‹_› (ih isKinds accepted)
      · rename_i isPercent
        obtain rfl := not_not.mp isPercent
        split at isKinds
        · rename_i directive isEnd
          exact .cutOff (congrArg Prod.snd isEnd)
        · rename_i directive letter later isLetter
          have isRest := congrArg Prod.snd isLetter
          -- A conversion without an argument, one that is not modelled, or any other.
          split at isKinds
          · exact .plain isRest (.inl ‹_›) (ih isKinds accepted)
          · exact .plain isRest (.inr ‹_›) (ih isKinds accepted)
          · cases isKinds
          · obtain ⟨rest, isKindsRest, rfl⟩ := Option.map_eq_some_iff.mp isKinds
            cases accepted with
            | cons first later =>
              exact .taking isRest first (ih isKindsRest later)

theorem accepts_ofU32 (value : U32) : Accepts (.ofU32 value) (.unsigned 10 false) :=
  trivial

theorem accepts_ofString {bytes : List U8} (terminated : 0 ∈ bytes) :
    Accepts (.ofString bytes) .string :=
  .inr terminated

theorem terminated_literal (text : String) : 0 ∈ literal text :=
  mem_append_right _ mem_cons_self

/-! ## The buffers of a message -/

/-- A format with matching arguments is written into the array, with a terminator. -/
theorem exists_formatLocal (size : U32) (isMatch : Matches fmt args) (room : 0 < size.toNat) :
    ∃ bytes, formatLocal size fmt args = some bytes ∧ 0 ∈ bytes := by
  obtain ⟨output, isOutput⟩ := exists_formatOutput isMatch
  obtain ⟨final, isFinal, truncated⟩ := vsnprintf_of_output 0 size isOutput (fun _ => 0) []
  have inside : ∀ store ∈ final.ram.stores, store.values ≠ [] → store.stop ≤ size.toNat := by
    intro store member nonempty
    have positive : 0 < store.values.length := length_pos_iff.mpr nonempty
    have written : final.ram.Written (store.stop - 1) :=
      ⟨store, member, by rw [Store.stop]; omega, by rw [Store.stop]; omega⟩
    have below := (truncated.within _ written).2
    omega
  refine ⟨slice final.ram.content 0 size.toNat, ?_, ?_⟩
  · rw [formatLocal, isFinal]
    exact if_pos inside
  · have isEnd := truncated.terminated room
    have isHere : min output.length (size.toNat - 1) < size.toNat := by omega
    rw [zero_add] at isEnd
    rw [slice, mem_map]
    exact ⟨_, List.mem_range.mpr isHere, by rw [zero_add]; exact isEnd⟩

theorem exists_console {line : List U8} (terminated : 0 ∈ line) :
    ∃ printed, vsnprintf none 0 (ascii "%s") [.ofString line] (Recorded.fresh fun _ => 0) [] =
      some printed := by
  have isMatch : Matches (ascii "%s") [.ofString line] :=
    matches_of_kinds (show argumentKinds 2 (ascii "%s") = some [.string] by decide)
      (.cons (accepts_ofString terminated) .nil)
  obtain ⟨output, isOutput⟩ := exists_formatOutput isMatch
  rw [vsnprintf, formatRun_eq, isOutput]
  exact ⟨_, rfl⟩

theorem kinds_klogLine : argumentKinds 60 klogLine =
      some [.unsigned 10 false, .unsigned 10 false, .unsigned 10 false, .unsigned 10 false,
        .string, .string, .string] := by
  decide

theorem exists_klogVlvl (prio : Int) {driver : List U8} (terminated : 0 ∈ driver)
    (isMatch : Matches fmt args) (ms : U32) :
    ∃ console, klogVlvl prio driver fmt args ms = some console := by
  obtain ⟨buf, isBuf, bufTerminated⟩ := exists_formatLocal 256 isMatch (by decide)
  have lineMatch : Matches klogLine
      [.ofU32 (ms / 3600000), .ofU32 (ms / 60000 % 60), .ofU32 (ms / 1000 % 60),
        .ofU32 (ms % 1000), .ofString (literal (klogLevel prio)), .ofString driver,
        .ofString buf] :=
    matches_of_kinds kinds_klogLine <|
      .cons (accepts_ofU32 _) <| .cons (accepts_ofU32 _) <| .cons (accepts_ofU32 _) <|
      .cons (accepts_ofU32 _) <| .cons (accepts_ofString (terminated_literal _)) <|
      .cons (accepts_ofString terminated) <| .cons (accepts_ofString bufTerminated) .nil
  obtain ⟨line, isLine, lineTerminated⟩ := exists_formatLocal 352 lineMatch (by decide)
  obtain ⟨printed, isPrinted⟩ := exists_console lineTerminated
  refine ⟨printed.2.console, ?_⟩
  rw [klogVlvl, isBuf, Option.bind_eq_bind, Option.bind_some, klogEmit, isLine,
    Option.bind_eq_bind, Option.bind_some, isPrinted]
  rfl

end XKern.Libkern
