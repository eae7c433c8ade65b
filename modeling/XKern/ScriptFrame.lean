import XKern.ScriptRun

namespace XKern

open Fields List Option

/-!
# What a script leaves behind

`script_run` writes zeros behind the words and lines of a script, into the
archive, and looks for the end of the text beyond the end of the file.  So a
script stays within its file and survives its run only if it is hardly a script
at all.
-/

/-- The bytes of a file in memory. -/
def fileBytes (memory : List U8) (file : CpioFile) : List U8 :=
  (memory.drop file.dataOff.toNat).take file.filesize.toNat

/--
The run reads nothing outside the file, runs the commands of the file, and
changes no byte, so that a second run does the same.
-/
structure StaysInFile
    (exec : ScriptExec)
    (fs : Ramfs CpioFile)
    (memory path : List U8)
    (file : CpioFile)
    (run : ScriptRun) : Prop where
  extent : run.extent ≤ file.filesize.toNat
  commands : run.commands = executed exec (scriptCommands (fileBytes memory file))
  unchanged : run.memory = memory
  again : scriptRun exec fs run.memory path = some run

/-- `script_run` of this path returns, or is stopped by a command, and stays in the file. -/
def ScriptStays (exec : ScriptExec) (fs : Ramfs CpioFile) (memory path : List U8)
    (file : CpioFile) : Prop :=
  ∃ run, scriptRun exec fs memory path = some run ∧
    StaysInFile exec fs memory path file run

/-- The only command of a text is the word in front of its first 0. -/
def OnlyCommand (exec : ScriptExec) (word tail : List U8) : Prop :=
  (∀ c ∈ tail, isSeparator c = true ∨ c = newline) ∨
    (word ≠ [] ∧ exec [word] ≠ some 0 ∧
      ∀ c ∈ tail.takeWhile (· ≠ newline), isSeparator c = true)

/--
The file has a 0; in front of it there are blanks and at most one word, and this
word is the only command of the file, or the last one that is run.
-/
def LeftAlone (exec : ScriptExec) (text : List U8) : Prop :=
  ∃ line tail, text = line ++ 0 :: tail ∧ (∀ c ∈ line, isText c = true) ∧
    (∀ c ∈ line.dropWhile isSpacing, isSpacing c = false) ∧
    OnlyCommand exec (line.dropWhile isSpacing) tail

/-! ## Commands behind the first zero -/

section Commands

variable {line : List U8} (text : ∀ c ∈ line, isText c = true)
  (oneWord : ∀ c ∈ line.dropWhile isSpacing, isSpacing c = false)

include text oneWord

theorem fields_oneWord : fields isSeparator line =
      if line.dropWhile isSpacing = [] then [] else [line.dropWhile isSpacing] := by
  have blanks : ∀ c ∈ line.takeWhile isSpacing, isSeparator c = true := by
    intro c member
    have spacing := mem_takeWhile_imp member
    rw [isSeparator, spacing, Bool.true_or]
  have leading : fields isSeparator line = fields isSeparator (line.dropWhile isSpacing) := by
    conv_lhs => rw [← takeWhile_append_dropWhile (p := isSpacing) (l := line)]
    exact fields_append_of_forall blanks _
  rw [leading]
  by_cases noWord : line.dropWhile isSpacing = []
  · rw [if_pos noWord, noWord, fields_nil]
  · rw [if_neg noWord, fields_of_forall noWord]
    intro c member
    have notZero := (isText_iff.mp (text c ((dropWhile_suffix _).subset member))).1
    rw [isSeparator, oneWord c member, decide_eq_false notZero, Bool.or_false]

theorem lineCommand_oneWord (tail : List U8) : lineCommand (line ++ 0 :: tail) =
      ((if line.dropWhile isSpacing = [] then [] else [line.dropWhile isSpacing]) ++
        fields isSeparator tail).take (initTokensMax - 1) := by
  rw [lineCommand, fields_append _ _ (by decide), fields_oneWord text oneWord]

theorem scriptCommands_oneWord : scriptCommands line =
      if line.dropWhile isSpacing = [] then [] else [[line.dropWhile isSpacing]] := by
  rw [scriptCommands_line (noNewline_of_isText text), lineCommand, fields_oneWord text oneWord]
  by_cases noWord : line.dropWhile isSpacing = []
  · simp [noWord]
  · simp [noWord, initTokensMax]

end Commands

theorem exists_firstLine (front tail : List U8) :
    ∃ first later, tail.takeWhile (· ≠ newline) = first ∧ newline ∉ first ∧
      scriptCommands (front ++ tail) = scriptCommands (front ++ first) ++ later ∧
      ((∀ c ∈ tail, isSeparator c = true ∨ c = newline) ↔
        (∀ c ∈ first, isSeparator c = true) ∧ later = []) := by
  have sameLine {first : List U8} (noNewline : newline ∉ first) :
      (∀ c ∈ first, isSeparator c = true ∨ c = newline) ↔ ∀ c ∈ first, isSeparator c = true := by
    refine forall₂_congr fun c member => or_iff_left ?_
    rintro rfl
    exact noNewline member
  have whole {first : List U8} (noNewline : newline ∉ first) :
      ∀ c ∈ first, decide (c ≠ newline) = true := by
    intro c member
    rw [decide_eq_true_eq]
    rintro rfl
    exact noNewline member
  by_cases lines : newline ∈ tail
  · obtain ⟨first, more, rfl, noNewline⟩ := eq_append_cons_of_mem lines
    refine ⟨first, scriptCommands more, ?_, noNewline, ?_, ?_⟩
    · rw [takeWhile_append_of_pos (whole noNewline), takeWhile_cons_of_neg (by decide), append_nil]
    · rw [← append_assoc, scriptCommands_append]
    · rw [scriptCommands_eq_nil_iff, ← sameLine noNewline]
      simp only [forall_mem_append, forall_mem_cons, or_true, true_and]
  · refine ⟨tail, [], ?_, lines, (append_nil _).symm, ?_⟩
    · exact takeWhile_eq_self_iff.mpr (whole lines)
    · rw [sameLine lines]
      exact (and_iff_left rfl).symm

theorem executed_word_iff (exec : ScriptExec) (word : List U8) (others : List (List U8))
    (later : List (List (List U8))) :
    let words := if word = [] then [] else [word]
    let command := (words ++ others).take (initTokensMax - 1)
    (if word = [] then [] else [[word]]) =
        executed exec ((if command = [] then [] else [command]) ++ later) ↔
      (others = [] ∧ later = []) ∨ (word ≠ [] ∧ exec [word] ≠ some 0 ∧ others = []) := by
  intro words command
  by_cases noWord : word = []
  · have isCommand : command = others.take (initTokensMax - 1) := by
      simp only [command, words, if_pos noWord, nil_append]
    have blank : command = [] ↔ others = [] := by
      rw [isCommand, take_eq_nil_iff]
      exact or_iff_right (by decide)
    rw [if_pos noWord, eq_comm, executed_eq_nil_iff, append_eq_nil_iff, ← blank]
    by_cases isBlank : command = []
    · simp [isBlank, noWord]
    · simp [isBlank]
  · have isCommand : command = word :: others.take (initTokensMax - 2) := by
      simp only [command, words, if_neg noWord, singleton_append]
      rfl
    have alone : command = [word] ↔ others = [] := by
      rw [isCommand, cons.injEq, take_eq_nil_iff, and_iff_right rfl]
      exact or_iff_right (by decide)
    have notBlank : command ≠ [] := by
      rw [isCommand]
      exact cons_ne_nil _ _
    rw [if_neg noWord, if_neg notBlank, singleton_append, executed, ← alone]
    by_cases isAlone : command = [word]
    · rw [isAlone]
      by_cases returned : exec [word] = some 0
      · simp only [returned, if_true, cons.injEq, true_and, ne_eq, not_true_eq_false,
          false_and, and_false, or_false]
        exact eq_comm.trans executed_eq_nil_iff
      · simp [returned, noWord]
    · refine iff_of_false ?_ (by simp [isAlone])
      intro same
      split at same
      · exact isAlone (cons.inj same).1.symm
      · exact isAlone (cons.inj same).1.symm

/-- When the word in front of the 0 is all that a run of the file should run. -/
theorem onlyCommand_iff {exec : ScriptExec} {line : List U8} (text : ∀ c ∈ line, isText c = true)
    (oneWord : ∀ c ∈ line.dropWhile isSpacing, isSpacing c = false) (tail : List U8) :
    scriptCommands line = executed exec (scriptCommands (line ++ 0 :: tail)) ↔
      OnlyCommand exec (line.dropWhile isSpacing) tail := by
  obtain ⟨first, later, isFirst, noNewline, commands, allSpaces⟩ :=
    exists_firstLine (line ++ [0]) tail
  have zeroFirst : line ++ [0] ++ first = line ++ 0 :: first := by simp
  have zeroTail : line ++ [0] ++ tail = line ++ 0 :: tail := by simp
  have zeroLine : newline ∉ line ++ 0 :: first := by
    have notInLine := noNewline_of_isText text
    simp only [mem_append, mem_cons, not_or]
    exact ⟨notInLine, by decide, noNewline⟩
  have separators : (∀ c ∈ first, isSeparator c = true) ↔ fields isSeparator first = [] :=
    fields_eq_nil_iff.symm
  rw [zeroFirst, zeroTail, scriptCommands_line zeroLine,
    lineCommand_oneWord text oneWord] at commands
  rw [scriptCommands_oneWord text oneWord, commands, OnlyCommand, allSpaces, isFirst, separators]
  exact executed_word_iff exec _ _ _

/-! ## One run -/

theorem take_line {line : List U8} (rest : List U8) {size : Nat} (inside : line.length + 1 ≤ size) :
    (line ++ 0 :: rest).take size = line ++ 0 :: rest.take (size - (line.length + 1)) := by
  obtain ⟨more, rfl⟩ := Nat.exists_eq_add_of_le inside
  rw [add_assoc, take_length_add_append, add_comm 1 more, take_succ_cons]
  congr 3
  omega

theorem leftAlone_of_unchanged {exec : ScriptExec} {memory : List U8} {size : Nat} {run : ScriptRun}
    (isRun : scriptRunAt exec memory = some run) (extent : run.extent ≤ size)
    (commands : run.commands = executed exec (scriptCommands (memory.take size)))
    (unchanged : run.memory = memory) :
    LeftAlone exec (memory.take size) := by
  rw [scriptRunAt] at isRun
  cases found : findLine memory with
  | none =>
    rw [scriptLoop, found] at isRun
    cases isRun
  | some parts =>
    obtain ⟨line, stop, rest⟩ := parts
    obtain ⟨rfl, text, ends⟩ := findLine_eq_some found
    have notText : isText stop = false := by
      rcases ends with rfl | rfl <;> decide
    by_cases stops : Stops exec line stop
    · rw [scriptLoop_of_stops text notText stops] at isRun
      cases isRun
      obtain ⟨left, sameEnd⟩ := append_inj unchanged (scriptTokenize_length line)
      obtain rfl : 0 = stop := (cons.inj sameEnd).1
      have oneWord := (scriptTokenize_eq_iff line).mp left
      rw [take_line rest extent] at commands ⊢
      rw [lineRun_commands text] at commands
      exact ⟨line, _, rfl, text, oneWord, (onlyCommand_iff text oneWord _).mp commands⟩
    · -- the newline is overwritten
      have isNewline : stop = newline := by
        rcases ends with rfl | rfl
        · exact absurd (.inr rfl) stops
        · rfl
      subst isNewline
      rw [scriptLoop_of_newline text stops] at isRun
      obtain ⟨later, _, isRun⟩ := map_eq_some_iff.mp isRun
      cases isRun
      obtain ⟨_, sameEnd⟩ := append_inj unchanged (scriptTokenize_length line)
      exact absurd (cons.inj sameEnd).1 (by decide)

theorem staysAt_iff (exec : ScriptExec) (memory : List U8) (size : Nat) :
    (∃ run, scriptRunAt exec memory = some run ∧ run.extent ≤ size ∧
      run.commands = executed exec (scriptCommands (memory.take size)) ∧
      run.memory = memory) ↔ LeftAlone exec (memory.take size) := by
  constructor
  · rintro ⟨run, isRun, extent, commands, unchanged⟩
    exact leftAlone_of_unchanged isRun extent commands unchanged
  · rintro ⟨line, tail, isFile, text, oneWord, only⟩
    have isMemory : memory = line ++ 0 :: (tail ++ memory.drop size) := by
      conv_lhs => rw [← take_append_drop size memory, isFile]
      rw [append_assoc, cons_append]
    have isRun : scriptRunAt exec memory = some (lineRun exec line (tail ++ memory.drop size)) := by
      rw [scriptRunAt]
      conv_lhs => rw [isMemory]
      exact scriptLoop_of_stops text (by decide) (.inr rfl) _ _
    refine ⟨_, isRun, ?_, ?_, ?_⟩
    · have length := congrArg List.length isFile
      rw [length_take, length_append, length_cons] at length
      simp only [lineRun]
      omega
    · rw [lineRun_commands text, isFile]
      exact (onlyCommand_iff text oneWord tail).mpr only
    · rw [lineRun, (scriptTokenize_eq_iff line).mpr oneWord]
      exact isMemory.symm

/--
`script_run` stays in its file and leaves it alone exactly when the file has a 0
and in front of it nothing but blanks and one word, and no other command is to
be run after it.  This holds of every table and memory, so also of a table
unpacked from an archive in memory.
-/
theorem scriptStays_iff (exec : ScriptExec) {fs : Ramfs CpioFile} {path : List U8}
    {file : RamfsFile CpioFile} (isFile : ramfsLookup fs path = some file) (memory : List U8) :
    ScriptStays exec fs memory path file.data ↔ LeftAlone exec (fileBytes memory file.data) := by
  rw [fileBytes, ← staysAt_iff]
  have runs (memory : List U8) : scriptRun exec fs memory path =
      (scriptRunAt exec (memory.drop file.data.dataOff.toNat)).map fun run =>
        { run with memory := memory.take file.data.dataOff.toNat ++ run.memory } := by
    rw [scriptRun, isFile]
  constructor
  · rintro ⟨_, isRun, stays⟩
    rw [runs] at isRun
    obtain ⟨run, isRunAt, rfl⟩ := map_eq_some_iff.mp isRun
    refine ⟨run, isRunAt, stays.extent, stays.commands, ?_⟩
    have unchanged := stays.unchanged
    conv_rhs at unchanged => rw [← take_append_drop file.data.dataOff.toNat memory]
    exact append_cancel_left unchanged
  · rintro ⟨run, isRunAt, extent, commands, unchanged⟩
    have sameMemory : memory.take file.data.dataOff.toNat ++ run.memory = memory := by
      rw [unchanged, take_append_drop]
    have isRun : scriptRun exec fs memory path = some { run with memory } := by
      rw [runs, isRunAt, map_some, sameMemory]
    exact ⟨_, isRun, extent, commands, rfl, isRun⟩

/-- The archive of one script, under the name `a`. -/
def scriptArchive (text : List U8) : List U8 :=
  newcArchiveOf [{ name := [0x61], data := text }]

def scriptTable (filesize : U32) : Ramfs CpioFile :=
  .single { name := ⟨[0x61], letterName_fits⟩, data := { dataOff := 112, filesize } }

/-- `exit` and a 0. -/
def exitText : List U8 := [0x65, 0x78, 0x69, 0x74, 0]

/-- The script `exit`. -/
theorem exitScript_stays :
    ScriptStays (fun _ => some 1) (scriptTable 5) (scriptArchive exitText) [0x2F, 0x61]
      { dataOff := 112, filesize := 5 } := by
  have isFile : ramfsLookup (scriptTable 5) [0x2F, 0x61] = some
      { name := ⟨[0x61], letterName_fits⟩, data := { dataOff := 112, filesize := 5 } } := by
    decide
  rw [scriptStays_iff (fun _ => some 1) isFile]
  exact ⟨[0x65, 0x78, 0x69, 0x74], [], by decide, by decide, by decide, .inl (by decide)⟩

/-- `echo hi` and a newline. -/
def echoText : List U8 := [0x65, 0x63, 0x68, 0x6F, 0x20, 0x68, 0x69, 0x0A]

def echoArc : CpioArc where
  bytes := scriptArchive echoText
  fits := by decide +kernel

theorem echoArc_unpacks : CpioUnpacks echoArc (.returned 0 (scriptTable 8)) := by
  have finished : cpioStep echoArc 120 = .finished := by decide +kernel
  refine cpioUnpacks_iff.mpr ⟨1, 120, scriptTable 8, by decide +kernel, by decide +kernel,
    by decide +kernel, ?_⟩
  rw [finished]
  rfl

/--
A run of `echo hi` goes on into the next header, runs it as a command, and
leaves two strings of the script.
-/
theorem echoScript_not_stays :
    CpioUnpacks echoArc (.returned 0 (scriptTable 8)) ∧
      (scriptRun (fun _ => some 0) (scriptTable 8) echoArc.bytes [0x2F, 0x61]).map
          (fun run => (run.extent, run.commands.length,
            fileBytes run.memory { dataOff := 112, filesize := 8 })) =
        some (129, 2, [0x65, 0x63, 0x68, 0x6F, 0, 0x68, 0x69, 0]) ∧
      ¬ ScriptStays (fun _ => some 0) (scriptTable 8) echoArc.bytes [0x2F, 0x61]
        { dataOff := 112, filesize := 8 } := by
  have ran : (scriptRun (fun _ => some 0) (scriptTable 8) echoArc.bytes [0x2F, 0x61]).map
      (fun run => (run.extent, run.commands.length,
        fileBytes run.memory { dataOff := 112, filesize := 8 })) =
      some (129, 2, [0x65, 0x63, 0x68, 0x6F, 0, 0x68, 0x69, 0]) := by
    decide +kernel
  refine ⟨echoArc_unpacks, ran, ?_⟩
  rintro ⟨run, isRun, stays⟩
  rw [isRun, map_some, Option.some.injEq, Prod.mk.injEq] at ran
  have extent := stays.extent
  rw [ran.1] at extent
  exact absurd extent (by decide)

end XKern
