import Mathlib.Data.List.TakeWhile
import XKern.CpioArchive
import XKern.Fields

namespace XKern

open Fields List Nat

/-!
# Running a script in place

Model of `script_tokenize` and `script_run` in
`bsd/kern/init_ram_getty/script.c`.  The bytes of a script are a part of the
archive, and `script_run` treats them as a string: memory is the list of the
bytes from the start of the script on, as far as it is known.
-/

/-- `INIT_TOKENS_MAX`. -/
def initTokensMax : Nat := 16

/-- The characters between words. -/
def isSpacing (c : U8) : Bool :=
  c = 0x20 || c = 0x09

/-- The character `\n`. -/
def newline : U8 := 0x0A

def isText (c : U8) : Bool :=
  c ≠ 0 && c ≠ newline

/-- The loop of `script_tokenize`: the words of a line and what is left of it. -/
def tokenizeLoop : Nat → List U8 → List (List U8) × List U8
  | 0, line => ([], line)
  | fuel + 1, line =>
      let start := line.dropWhile isSpacing
      if start = [] then
        ([], line)
      else
        match start.dropWhile (!isSpacing ·) with
        | [] => ([start], line)
        | _ :: after =>
            let (words, left) := tokenizeLoop fuel after
            let word := start.takeWhile (!isSpacing ·)
            (word :: words, line.takeWhile isSpacing ++ word ++ 0 :: left)

/-- `script_tokenize`: further words are cut off, but not left alone. -/
def scriptTokenize (line : List U8) : List (List U8) × List U8 :=
  let (words, left) := tokenizeLoop (line.length + 1) line
  (words.take (initTokensMax - 1), left)

/-- A run of a script. -/
structure ScriptRun where
  /-- The bytes from the start of the script on. -/
  memory : List U8
  /-- The commands that `script_exec` gets. -/
  commands : List (List (List U8))
  /-- How many bytes from the start of the script on are read. -/
  extent : Nat
  /-- What `script_run` returns, if it does. -/
  result : Option Int
  deriving DecidableEq

/-- `script_exec`: what it returns, if it does. -/
abbrev ScriptExec := List (List U8) → Option Int

/-- `strchr(line, '\n')`: the line, the character that ends it, and what follows. -/
def findLine (memory : List U8) : Option (List U8 × U8 × List U8) :=
  match memory.dropWhile isText with
  | [] => none
  | stop :: rest => some (memory.takeWhile isText, stop, rest)

/-- The loop of `script_run`; `none` is a read outside the known memory. -/
def scriptLoop (exec : ScriptExec) : Nat → List U8 → Option ScriptRun
  | 0, _ => none
  | fuel + 1, memory =>
      match findLine memory with
      | none => none
      | some (line, stop, rest) =>
          let (argv, left) := scriptTokenize line
          if line = [] ∧ stop = 0 then
            some { memory, commands := [], extent := 1, result := some 0 }
          else if argv ≠ [] ∧ exec argv ≠ some 0 then
            some {
              memory := left ++ 0 :: rest
              commands := [argv]
              extent := line.length + 1
              result := (exec argv).map fun _ => 1 }
          else
            let handed := if argv = [] then [] else [argv]
            if stop = 0 then
              some {
                memory := left ++ 0 :: rest
                commands := handed
                extent := line.length + 1
                result := some 0 }
            else
              (scriptLoop exec fuel rest).map fun later => {
                memory := left ++ 0 :: later.memory
                commands := handed ++ later.commands
                extent := line.length + 1 + later.extent
                result := later.result }

/-- `script_run` on the bytes from the start of the script on. -/
def scriptRunAt (exec : ScriptExec) (memory : List U8) : Option ScriptRun :=
  scriptLoop exec (memory.length + 1) memory

/-- `script_run` on an archive in memory and what follows it. -/
def scriptRun (exec : ScriptExec) (fs : Ramfs CpioFile) (memory : List U8) (path : List U8) :
    Option ScriptRun :=
  match ramfsLookup fs path with
  | none => some { memory, commands := [], extent := 0, result := some (-1) }
  | some file =>
      (scriptRunAt exec (memory.drop file.data.dataOff.toNat)).map fun run =>
        { run with memory := memory.take file.data.dataOff.toNat ++ run.memory }

/-! ## Words -/

theorem isSpacing_ne_zero {c : U8} (blank : isSpacing c = true) : c ≠ 0 := by
  rintro rfl
  exact absurd blank (by decide)

/-- A line, its words, and what is left of it after they were cut out. -/
inductive Tokenized : List U8 → List (List U8) → List U8 → Prop
  | blank
      {line : List U8}
      (blanks : ∀ c ∈ line, isSpacing c = true) :
      Tokenized line [] line
  | last
      {blanks word : List U8}
      (areBlank : ∀ c ∈ blanks, isSpacing c = true)
      (nonempty : word ≠ [])
      (isWord : ∀ c ∈ word, isSpacing c = false) :
      Tokenized (blanks ++ word) [word] (blanks ++ word)
  | word
      {blanks word after left : List U8}
      {words : List (List U8)}
      {blank : U8}
      (areBlank : ∀ c ∈ blanks, isSpacing c = true)
      (nonempty : word ≠ [])
      (isWord : ∀ c ∈ word, isSpacing c = false)
      (ended : isSpacing blank = true)
      (rest : Tokenized after words left) :
      Tokenized (blanks ++ (word ++ blank :: after)) (word :: words)
        (blanks ++ word ++ 0 :: left)

theorem tokenizeLoop_tokenized {fuel : Nat} {line : List U8} (enough : line.length < fuel) :
    Tokenized line (tokenizeLoop fuel line).1 (tokenizeLoop fuel line).2 := by
  induction fuel generalizing line with
  | zero => omega
  | succ fuel ih =>
    have split : line = line.takeWhile isSpacing ++ line.dropWhile isSpacing :=
      takeWhile_append_dropWhile.symm
    have areBlank : ∀ c ∈ line.takeWhile isSpacing, isSpacing c = true :=
      fun _ member => mem_takeWhile_imp member
    simp only [tokenizeLoop]
    by_cases noWord : line.dropWhile isSpacing = []
    · rw [if_pos noWord]
      exact .blank (dropWhile_eq_nil_iff.mp noWord)
    · rw [if_neg noWord]
      have headNotBlank := head_dropWhile_not isSpacing noWord
      generalize line.takeWhile isSpacing = blanks at split areBlank ⊢
      generalize line.dropWhile isSpacing = start at split noWord headNotBlank ⊢
      have wordSplit : start = start.takeWhile (!isSpacing ·) ++ start.dropWhile (!isSpacing ·) :=
        takeWhile_append_dropWhile.symm
      have isWord : ∀ c ∈ start.takeWhile (!isSpacing ·), isSpacing c = false := by
        intro c member
        have notBlank := mem_takeWhile_imp member
        simpa using notBlank
      have nonempty : start.takeWhile (!isSpacing ·) ≠ [] := by
        cases start with
        | nil => exact absurd rfl noWord
        | cons first others =>
          have notBlank : isSpacing first = false := headNotBlank
          rw [takeWhile_cons_of_pos (by rw [notBlank]; rfl)]
          exact cons_ne_nil _ _
      generalize start.takeWhile (!isSpacing ·) = word at wordSplit isWord nonempty ⊢
      cases ends : start.dropWhile (!isSpacing ·) with
      | nil =>
        rw [ends, append_nil] at wordSplit
        rw [wordSplit] at split ⊢
        conv => rw [split]
        exact .last areBlank nonempty isWord
      | cons blank after =>
        have ended : isSpacing blank = true := by
          have notWord := head_dropWhile_not (!isSpacing ·) (l := start)
            (by rw [ends]; exact cons_ne_nil _ _)
          simpa [ends] using notWord
        rw [ends] at wordSplit
        rw [wordSplit] at split
        have shorter : after.length < fuel := by
          rw [split] at enough
          simp only [length_append, length_cons] at enough
          omega
        have rest := ih shorter
        conv in Tokenized line _ _ => rw [split]
        exact .word areBlank nonempty isWord ended rest

namespace Tokenized

variable {line left : List U8} {words : List (List U8)}

theorem words_eq (tokenized : Tokenized line words left) : words = fields isSpacing line := by
  induction tokenized with
  | blank blanks => exact (fields_eq_nil_iff.mpr blanks).symm
  | last areBlank nonempty isWord =>
    rw [fields_append_of_forall areBlank, fields_of_forall nonempty isWord]
  | word areBlank nonempty isWord ended _ ih =>
    rw [fields_append_of_forall areBlank, fields_append _ _ ended,
      fields_of_forall nonempty isWord, ← ih, singleton_append]

theorem length_left (tokenized : Tokenized line words left) : left.length = line.length := by
  induction tokenized with
  | blank => rfl
  | last => rfl
  | word _ _ _ _ _ ih =>
    simp only [length_append, length_cons, ih]
    omega

theorem dropWhile_word {blanks word : List U8} (areBlank : ∀ c ∈ blanks, isSpacing c = true)
    (nonempty : word ≠ []) (isWord : ∀ c ∈ word, isSpacing c = false) (rest : List U8) :
    (blanks ++ (word ++ rest)).dropWhile isSpacing = word ++ rest := by
  rw [dropWhile_append_of_pos areBlank]
  cases word with
  | nil => exact absurd rfl nonempty
  | cons first others =>
    have notBlank := isWord first mem_cons_self
    rw [cons_append, dropWhile_cons_of_neg (by rw [notBlank]; decide)]

theorem left_eq_iff (tokenized : Tokenized line words left) :
    left = line ↔ ∀ c ∈ line.dropWhile isSpacing, isSpacing c = false := by
  cases tokenized with
  | blank blanks =>
    rw [dropWhile_eq_nil_iff.mpr blanks]
    simp
  | @last blanks word areBlank nonempty isWord =>
    have start := dropWhile_word areBlank nonempty isWord []
    rw [append_nil] at start
    rw [start]
    exact iff_of_true rfl isWord
  | @word blanks word after left words blank areBlank nonempty isWord ended rest =>
    refine iff_of_false ?_ ?_
    · intro same
      rw [append_assoc, append_cancel_left_eq, append_cancel_left_eq, List.cons.injEq] at same
      exact isSpacing_ne_zero ended same.1.symm
    · rw [dropWhile_word areBlank nonempty isWord]
      intro notBlank
      have impossible := notBlank blank (by simp)
      rw [ended] at impossible
      cases impossible

end Tokenized

theorem scriptTokenize_words (line : List U8) :
    (scriptTokenize line).1 = (fields isSpacing line).take (initTokensMax - 1) := by
  rw [← (tokenizeLoop_tokenized (lt_succ_self line.length)).words_eq]
  rfl

theorem scriptTokenize_length (line : List U8) : (scriptTokenize line).2.length = line.length :=
  (tokenizeLoop_tokenized (lt_succ_self line.length)).length_left

theorem scriptTokenize_eq_iff (line : List U8) :
    (scriptTokenize line).2 = line ↔ ∀ c ∈ line.dropWhile isSpacing, isSpacing c = false :=
  (tokenizeLoop_tokenized (lt_succ_self line.length)).left_eq_iff

/-! ## Commands -/

def isSeparator (c : U8) : Bool :=
  isSpacing c || c = 0

/-- The words of a line, up to the limit. -/
def lineCommand (line : List U8) : List (List U8) :=
  (fields isSeparator line).take (initTokensMax - 1)

/-- The commands of a text: its lines that are not blank. -/
def scriptCommands (text : List U8) : List (List (List U8)) :=
  ((fields (· = newline) text).map lineCommand).filter fun command => !command.isEmpty

/-- The commands up to and with the first that fails. -/
def executed (exec : ScriptExec) : List (List (List U8)) → List (List (List U8))
  | [] => []
  | command :: later =>
      if exec command = some 0 then command :: executed exec later else [command]

theorem scriptCommands_append (first second : List U8) :
    scriptCommands (first ++ newline :: second) =
      scriptCommands first ++ scriptCommands second := by
  rw [scriptCommands, fields_append first second (by simp), map_append, filter_append]
  rfl

theorem scriptCommands_line {line : List U8} (noNewline : newline ∉ line) :
    scriptCommands line = if lineCommand line = [] then [] else [lineCommand line] := by
  cases line with
  | nil => rfl
  | cons c rest =>
    have isLine : ∀ item ∈ c :: rest, decide (item = newline) = false := by
      intro item member
      rw [decide_eq_false_iff_not]
      rintro rfl
      exact noNewline member
    rw [scriptCommands, fields_of_forall (cons_ne_nil c rest) isLine]
    by_cases blank : lineCommand (c :: rest) = []
    · simp [blank]
    · simp [blank]

theorem lineCommand_eq_nil_iff {line : List U8} :
    lineCommand line = [] ↔ ∀ c ∈ line, isSeparator c = true := by
  rw [lineCommand, take_eq_nil_iff, ← fields_eq_nil_iff]
  exact or_iff_right (by decide)

theorem scriptCommands_eq_nil_iff {text : List U8} :
    scriptCommands text = [] ↔ ∀ c ∈ text, isSeparator c = true ∨ c = newline := by
  induction length : text.length using Nat.strong_induction_on generalizing text with
  | _ length ih =>
    by_cases oneLine : newline ∈ text
    · obtain ⟨first, second, rfl⟩ := append_of_mem oneLine
      rw [length_append, length_cons] at length
      rw [scriptCommands_append, append_eq_nil_iff, ih _ (by omega) rfl, ih _ (by omega) rfl]
      simp only [forall_mem_append, forall_mem_cons, or_true, true_and]
    · rw [scriptCommands_line oneLine]
      have lines : (∀ c ∈ text, isSeparator c = true ∨ c = newline) ↔
          ∀ c ∈ text, isSeparator c = true := by
        refine forall₂_congr fun c member => or_iff_left ?_
        rintro rfl
        exact oneLine member
      rw [lines, ← lineCommand_eq_nil_iff]
      by_cases blank : lineCommand text = []
      · simp [blank]
      · simp [blank]

theorem executed_eq_nil_iff {exec : ScriptExec} {commands : List (List (List U8))} :
    executed exec commands = [] ↔ commands = [] := by
  cases commands with
  | nil => simp [executed]
  | cons command later =>
    rw [executed]
    split
    · simp
    · simp

/-! ## Lines in memory -/

theorem isText_iff {c : U8} : isText c = true ↔ c ≠ 0 ∧ c ≠ newline := by
  simp [isText]

theorem findLine_eq_some {memory line rest : List U8} {stop : U8}
    (found : findLine memory = some (line, stop, rest)) :
    memory = line ++ stop :: rest ∧ (∀ c ∈ line, isText c = true) ∧
      (stop = 0 ∨ stop = newline) := by
  have split : memory = memory.takeWhile isText ++ memory.dropWhile isText :=
    takeWhile_append_dropWhile.symm
  rw [findLine] at found
  cases ends : memory.dropWhile isText with
  | nil =>
    rw [ends] at found
    cases found
  | cons first others =>
    have notText := head_dropWhile_not isText (l := memory) (by rw [ends]; exact cons_ne_nil _ _)
    simp only [ends, head_cons] at notText found
    cases found
    rw [ends] at split
    refine ⟨split, fun _ member => mem_takeWhile_imp member, ?_⟩
    by_contra isOther
    push Not at isOther
    rw [isText_iff.mpr isOther] at notText
    cases notText

theorem findLine_of_line {line : List U8} {stop : U8} (text : ∀ c ∈ line, isText c = true)
    (ends : isText stop = false) (rest : List U8) :
    findLine (line ++ stop :: rest) = some (line, stop, rest) := by
  rw [findLine, dropWhile_append_of_pos text, takeWhile_append_of_pos text,
    dropWhile_cons_of_neg (by rw [ends]; decide),
    takeWhile_cons_of_neg (by rw [ends]; decide), append_nil]

theorem scriptTokenize_command {line : List U8} (text : ∀ c ∈ line, isText c = true) :
    (scriptTokenize line).1 = lineCommand line := by
  rw [scriptTokenize_words, lineCommand]
  congr 1
  apply fields_congr
  intro c member
  have notZero := (isText_iff.mp (text c member)).1
  rw [isSeparator, decide_eq_false notZero, Bool.or_false]

/-! ## What is run -/

theorem noNewline_of_isText {line : List U8} (text : ∀ c ∈ line, isText c = true) :
    newline ∉ line :=
  fun member => (isText_iff.mp (text newline member)).2 rfl

/-- The part of a run that one line takes, up to its own end. -/
def lineRun (exec : ScriptExec) (line : List U8) (memory : List U8) : ScriptRun where
  memory := (scriptTokenize line).2 ++ 0 :: memory
  commands := if lineCommand line = [] then [] else [lineCommand line]
  extent := line.length + 1
  result :=
    if lineCommand line ≠ [] ∧ exec (lineCommand line) ≠ some 0 then
      (exec (lineCommand line)).map fun _ => 1
    else
      some 0

/-- The line ends the run: its command does not return 0, or the text ends. -/
def Stops (exec : ScriptExec) (line : List U8) (stop : U8) : Prop :=
  (lineCommand line ≠ [] ∧ exec (lineCommand line) ≠ some 0) ∨ stop = 0

theorem scriptLoop_of_stops {exec : ScriptExec} {line : List U8} {stop : U8}
    (text : ∀ c ∈ line, isText c = true) (ends : isText stop = false) (stops : Stops exec line stop)
    (fuel : Nat) (rest : List U8) :
    scriptLoop exec (fuel + 1) (line ++ stop :: rest) = some (lineRun exec line rest) := by
  rw [scriptLoop, findLine_of_line text ends]
  simp only [scriptTokenize_command text]
  by_cases atEnd : line = [] ∧ stop = 0
  · rw [if_pos atEnd, atEnd.1, atEnd.2]
    rfl
  · rw [if_neg atEnd, lineRun]
    by_cases refused : lineCommand line ≠ [] ∧ exec (lineCommand line) ≠ some 0
    · rw [if_pos refused, if_neg refused.1, if_pos refused]
    · have isEnd : stop = 0 := stops.resolve_left refused
      rw [if_neg refused, if_pos isEnd, if_neg refused]

theorem scriptLoop_of_newline {exec : ScriptExec} {line : List U8}
    (text : ∀ c ∈ line, isText c = true) (goesOn : ¬ Stops exec line newline) (fuel : Nat)
    (rest : List U8) :
    scriptLoop exec (fuel + 1) (line ++ newline :: rest) =
      (scriptLoop exec fuel rest).map fun later =>
        { lineRun exec line later.memory with
          commands := (lineRun exec line later.memory).commands ++ later.commands
          extent := (lineRun exec line later.memory).extent + later.extent
          result := later.result } := by
  rw [Stops, not_or] at goesOn
  rw [scriptLoop, findLine_of_line text (by decide)]
  simp only [scriptTokenize_command text]
  rw [if_neg fun atEnd => goesOn.2 atEnd.2, if_neg goesOn.1, if_neg goesOn.2]
  rfl

theorem lineRun_commands {exec : ScriptExec} {line : List U8} (text : ∀ c ∈ line, isText c = true)
    (memory : List U8) :
    (lineRun exec line memory).commands = scriptCommands line := by
  rw [scriptCommands_line (noNewline_of_isText text)]
  rfl

end XKern
