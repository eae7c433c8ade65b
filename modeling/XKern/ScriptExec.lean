import XKern.Fs
import XKern.GuardedRun
import XKern.ScriptRun
import XKern.Traps

namespace XKern

open GuardedRun List BitVec Option Function StackCpu

/-!
# The commands of a script

Model of `valid_command` and `valid_args` in
`bsd/kern/init_ram_getty/valid.c`, of `script_exec` in `script.c` and of
`procfs_list` in `proc.c`.  A buffer that is filled from its start is the list of
the characters in it; `none` is a store behind its end.  A system call goes through
`int $0x80`, and what each case of `syscall_dispatch` does is a parameter.
-/

/-- `enum init_cmd`. -/
inductive InitCmd
  | echo
  | clear
  | version
  | list
  | read
  | pid
  | sleep
  | spawn
  | shell
  | idle
  | exit
  deriving Repr, DecidableEq

/-- `struct cmd_spec`, with the command that its index stands for. -/
structure CmdSpec where
  name : List U8
  command : InitCmd
  minArgs : Nat
  maxArgs : Nat
  deriving DecidableEq

/-- `read`. -/
def readName : List U8 := [0x72, 0x65, 0x61, 0x64]

/-- `cmd_table`. -/
def cmdTable : List CmdSpec :=
  [ { name := [0x65, 0x63, 0x68, 0x6F], command := .echo,
      minArgs := 1, maxArgs := initTokensMax - 1 },
    { name := [0x63, 0x6C, 0x65, 0x61, 0x72], command := .clear,
      minArgs := 0, maxArgs := 0 },
    { name := [0x76, 0x65, 0x72, 0x73, 0x69, 0x6F, 0x6E], command := .version,
      minArgs := 0, maxArgs := 0 },
    { name := [0x6C, 0x69, 0x73, 0x74], command := .list,
      minArgs := 0, maxArgs := 1 },
    { name := readName, command := .read,
      minArgs := 1, maxArgs := 1 },
    { name := [0x70, 0x69, 0x64], command := .pid,
      minArgs := 0, maxArgs := 0 },
    { name := [0x73, 0x6C, 0x65, 0x65, 0x70], command := .sleep,
      minArgs := 1, maxArgs := 1 },
    { name := [0x73, 0x70, 0x61, 0x77, 0x6E], command := .spawn,
      minArgs := 1, maxArgs := 1 },
    { name := [0x73, 0x68, 0x65, 0x6C, 0x6C], command := .shell,
      minArgs := 0, maxArgs := 0 },
    { name := [0x69, 0x64, 0x6C, 0x65], command := .idle,
      minArgs := 0, maxArgs := 0 },
    { name := [0x65, 0x78, 0x69, 0x74], command := .exit,
      minArgs := 0, maxArgs := 0 } ]

/-- `valid_command`; `none` is `CMD_UNKNOWN`. -/
def validCommand (name : List U8) : Option CmdSpec :=
  cmdTable.find? fun spec => spec.name = name

/-- `valid_args`. -/
def validArgs (name : List U8) (nargs : Nat) : Bool :=
  match validCommand name with
  | none => false
  | some spec => spec.minArgs ≤ nargs ∧ nargs ≤ spec.maxArgs

/-! ## Buffers -/

/-- A buffer that has been filled up to `pos`, the number of its characters. -/
structure LineBuffer (size : Nat) where
  chars : List U8
  fits : chars.length ≤ size

namespace LineBuffer

variable {size : Nat}

theorem concat_fits {chars : List U8} (room : chars.length < size) (c : U8) :
    (chars ++ [c]).length ≤ size := by
  rw [length_append]
  exact room

/-- A buffer before its first store. -/
def empty (size : Nat) : LineBuffer size where
  chars := []
  fits := Nat.zero_le size

/-- `b[pos++] = c`. -/
def push (b : LineBuffer size) (c : U8) : Option (LineBuffer size) :=
  if room : b.chars.length < size then
    some { chars := b.chars ++ [c], fits := concat_fits room c }
  else
    none

/-- `if (pos < limit) b[pos++] = c`. -/
def pushBelow (limit : Nat) (b : LineBuffer size) (c : U8) : Option (LineBuffer size) :=
  if b.chars.length < limit then b.push c else some b

/-- `while (*a && pos < limit) b[pos++] = *a++`. -/
def copyBelow (limit : Nat) (b : LineBuffer size) (a : List U8) : Option (LineBuffer size) :=
  a.foldlM (pushBelow limit) b

/-- `b[pos] = 0`: the string in the buffer. -/
def terminate (b : LineBuffer size) : Option (List U8) :=
  if b.chars.length < size then some b.chars else none

end LineBuffer

/-- `INIT_LINE_MAX`. -/
def initLineMax : Nat := 256

/-- An argument of `echo` after the first. -/
def echoArg (b : LineBuffer initLineMax) (arg : List U8) :
    Option (LineBuffer initLineMax) := do
  let spaced ← b.pushBelow (initLineMax - 1) 0x20
  spaced.copyBelow (initLineMax - 1) arg

/-- The line that `echo` writes. -/
def echoLine (args : List (List U8)) : Option (LineBuffer initLineMax) := do
  let first ← (LineBuffer.empty initLineMax).copyBelow (initLineMax - 1) (args.headD [])
  let b ← args.tail.foldlM echoArg first
  b.pushBelow (initLineMax - 1) newline

/-- An argument of `spawn`; the space before it is not checked. -/
def spawnArg (b : LineBuffer initLineMax) (arg : List U8) :
    Option (LineBuffer initLineMax) := do
  let spaced ← if 0 < b.chars.length then b.push 0x20 else some b
  spaced.copyBelow (initLineMax - 1) arg

/-- `argline`. -/
def spawnLine (args : List (List U8)) : Option (List U8) := do
  let b ← args.foldlM spawnArg (.empty initLineMax)
  b.terminate

/-- `%u`. -/
def unsignedDecimal (value : U32) : List U8 :=
  (Nat.toDigits 10 value.toNat).map fun digit => .ofNat 8 digit.toNat

/-- The line of a task in `procfs_list`. -/
def taskLine (task : Task) : List U8 :=
  unsignedDecimal task.pid ++ 0x20 :: task.name.chars ++ [newline]

/-- One round of `procfs_list`. -/
def listTask {size : Nat} (b : LineBuffer size) (task : Task) : Option (LineBuffer size) :=
  if b.chars.length + (taskLine task).length < size then
    (taskLine task).foldlM LineBuffer.push b
  else
    some b

/-- `procfs_list`. -/
def procfsList (size : Nat) (tasks : List Task) : Option (List U8) := do
  let b ← tasks.foldlM listTask (.empty size)
  b.terminate

/-! ## System calls -/

/-- What `syscall_dispatch` gets when the stub `syscall` has run `int $0x80`. -/
def stubCall (num : U32) (a1 a2 a3 : U64) : DispatchCall where
  num := a1.setWidth 32
  a1 := a2
  a2 := a3
  a3 := num.setWidth 64

theorem received_stubCall {cpu : Cpu} {num : U32} {a1 a2 a3 : U64}
    (rax : cpu.regs .rax = num.setWidth 64) (rdi : cpu.regs .rdi = a1)
    (rsi : cpu.regs .rsi = a2) (rdx : cpu.regs .rdx = a3) (sp : Word) :
    received (run syscallEntryCode (interrupt cpu sp [])) = stubCall num a1 a2 a3 := by
  rw [received_syscallEntry, rax, rdi, rsi, rdx]
  rfl

/-- `sys_getpid`. -/
def sysGetpid : DispatchCall :=
  stubCall 1 0 0 0

/-- `sys_write`. -/
def sysWrite (fd : U32) (buf : U64) (len : U32) : DispatchCall :=
  stubCall 2 (fd.setWidth 64) buf (len.setWidth 64)

/-- `sys_sleep`. -/
def sysSleep (ms : U32) : DispatchCall :=
  stubCall 3 (ms.setWidth 64) 0 0

/-- `sys_read`. -/
def sysRead (fd : U32) (buf : U64) (size : U32) : DispatchCall :=
  stubCall 4 (fd.setWidth 64) buf (size.setWidth 64)

/-- `sys_open`. -/
def sysOpen (path : U64) (flags : U32) : DispatchCall :=
  stubCall 6 path (flags.setWidth 64) 0

/-- `sys_close`. -/
def sysClose (fd : U32) : DispatchCall :=
  stubCall 7 (fd.setWidth 64) 0 0

/-- Memory, and whatever else system calls depend on. -/
structure ScriptWorld (κ : Type) where
  bytes : Bytes
  kernel : κ

/-- What each case of `syscall_dispatch` does; `none` if it does not return. -/
abbrev SyscallCases (κ : Type) :=
  Syscall → DispatchCall → ScriptWorld κ → Option (U32 × ScriptWorld κ)

/-- `syscall_dispatch`. -/
def syscallDispatch {κ : Type} (cases : SyscallCases κ) (call : DispatchCall)
    (world : ScriptWorld κ) : Option (U32 × ScriptWorld κ) :=
  match syscallCase call.num with
  | none => some (-1, world)
  | some syscall => cases syscall call world

/-! ## Commands -/

/-- A string of `argv`: in the archive or on a stack of the kernel, so above the first page
and below 4 GiB. -/
structure KernelString where
  address : U64
  chars : List U8
  placed : 4096 ≤ address.toNat ∧ address.toNat < 2 ^ 32

/-- What a command comes to besides its changes of buffers. -/
inductive ScriptEffect
  | invalid
  | written (text : List U8)
  | cleared
  | printedVersion
  | listedTasks (text : List U8)
  | listedFiles
  | notFound (path : List U8)
  | printed (text : List U8)
  | printedPid (pid : U32)
  | slept
  | spawned (path argline : List U8)
  | shell
  | idle
  | exit
  deriving DecidableEq

/-- Why `script_exec` does not go on: a store outside a buffer, an argument that is a null
pointer, or a system call that does not return. -/
inductive ScriptStop
  | outside
  | null
  | away
  deriving DecidableEq

/-- Programs that may stop the script. -/
abbrev ScriptM := Except ScriptStop

/-- The stores of a buffer. -/
def stores {α : Type} : Option α → ScriptM α
  | none => .error .outside
  | some filled => .ok filled

/-- `argv[1]`. -/
def firstArg : List KernelString → ScriptM KernelString
  | [] => .error .null
  | arg :: _ => .ok arg

/-- `isspace`. -/
def isspace (c : U8) : Bool :=
  c = 0x20 || (0x09 ≤ c && c ≤ 0x0D)

/-- `atoi`. -/
def atoi (s : List U8) : U32 :=
  let signed := s.dropWhile isspace
  let digits := if signed.head? = some 0x2D ∨ signed.head? = some 0x2B then signed.tail else signed
  let n := (digits.takeWhile fun c => 0x30 ≤ c && c ≤ 0x39).foldl
    (fun n c => n * 10 + (c.setWidth 32 - 0x30)) 0
  if signed.head? = some 0x2D then -n else n

section Exec

variable {κ : Type} (cases : SyscallCases κ)

/-- A system call of a command. -/
def callOut (call : DispatchCall) (world : ScriptWorld κ) : ScriptM (U32 × ScriptWorld κ) :=
  match syscallDispatch cases call world with
  | none => .error .away
  | some result => .ok result

/-- `CMD_READ`, with the buffer `b` at the address `buf`. -/
def execRead (buf : U64) (path : KernelString) (world : ScriptWorld κ) :
    ScriptM (ScriptEffect × ScriptWorld κ) := do
  let (fd, world) ← callOut cases (sysOpen path.address 0) world
  if fd.toInt < 0 then
    return (.notFound path.chars, world)
  else
    let (n, world) ← callOut cases (sysRead fd buf 512) world
    let (_, world) ← callOut cases (sysClose fd) world
    if n.toInt ≤ 0 then
      return (.printed [], world)
    else if n.toInt < 512 then
      -- b[n] = '\0'
      let bytes := update world.bytes (buf + n.setWidth 64) 0
      let text := (range n.toNat).map fun i => bytes (buf + .ofNat 64 i)
      return (.printed (text.takeWhile (· ≠ 0)), { world with bytes })
    else
      .error .outside

/-- `/proc`. -/
def procPath : List U8 := slash :: procName

/-- The `switch` of `script_exec`, with the buffer of the command at the address `buf`. -/
def execCommand (tasks : List Task) (buf : U64) (command : InitCmd) (args : List KernelString)
    (world : ScriptWorld κ) : ScriptM (ScriptEffect × ScriptWorld κ) :=
  match command with
  | .echo => do
      let b ← stores (echoLine (args.map KernelString.chars))
      let (_, world) ← callOut cases (sysWrite 1 buf (.ofNat 32 b.chars.length)) world
      return (.written b.chars, world)
  | .clear => return (.cleared, world)
  | .version => return (.printedVersion, world)
  | .list =>
      if (args.head?.map KernelString.chars) = some procPath then do
        let text ← stores (procfsList 128 tasks)
        return (.listedTasks text, world)
      else
        return (.listedFiles, world)
  | .read => do
      let path ← firstArg args
      execRead cases buf path world
  | .pid => do
      let (pid, world) ← callOut cases sysGetpid world
      return (.printedPid pid, world)
  | .sleep => do
      let duration ← firstArg args
      let (_, world) ← callOut cases (sysSleep (atoi duration.chars)) world
      return (.slept, world)
  | .spawn => do
      let argline ← stores (spawnLine (args.map KernelString.chars))
      let path ← firstArg args
      return (.spawned path.chars argline, world)
  | .shell => return (.shell, world)
  | .idle => return (.idle, world)
  | .exit => return (.exit, world)

/-- `script_exec`; `args` is `argv` from its second string on. -/
def scriptExec (tasks : List Task) (buf : U64) (name : List U8) (args : List KernelString)
    (world : ScriptWorld κ) : ScriptM (ScriptEffect × ScriptWorld κ) :=
  match validCommand name with
  | none => return (.invalid, world)
  | some spec =>
      if validArgs name args.length = false then
        return (.invalid, world)
      else
        execCommand cases tasks buf spec.command args world

end Exec

/-! ## Lines that fit -/

namespace LineBuffer

variable {size limit : Nat}

theorem pushBelow_below (inside : limit ≤ size) (b : LineBuffer size) (c : U8)
    (below : b.chars.length ≤ limit) :
    ∃ next, b.pushBelow limit c = some next ∧ next.chars.length ≤ limit := by
  rw [pushBelow]
  split
  · rename_i room
    refine ⟨_, dif_pos (room.trans_le inside), ?_⟩
    rw [length_append]
    exact room
  · exact ⟨b, rfl, below⟩

theorem copyBelow_below (inside : limit ≤ size) (b : LineBuffer size) (a : List U8)
    (below : b.chars.length ≤ limit) :
    ∃ next, b.copyBelow limit a = some next ∧ next.chars.length ≤ limit :=
  exists_foldlM (pushBelow_below inside) a below

theorem foldlM_push (chars : List U8) (b : LineBuffer size)
    (room : b.chars.length + chars.length ≤ size) :
    ∃ next, chars.foldlM push b = some next ∧
      next.chars.length = b.chars.length + chars.length := by
  induction chars generalizing b with
  | nil => exact ⟨b, rfl, rfl⟩
  | cons c rest ih =>
    rw [length_cons] at room
    have pushed : b.push c = some ⟨b.chars ++ [c], concat_fits (by omega) c⟩ := dif_pos (by omega)
    obtain ⟨next, isNext, length⟩ := ih
      ⟨b.chars ++ [c], concat_fits (by omega) c⟩ (by simp; omega)
    refine ⟨next, ?_, ?_⟩
    · rw [foldlM_cons, pushed]
      exact isNext
    · rw [length]
      simp
      omega

end LineBuffer

theorem echoLine_isSome (args : List (List U8)) : (echoLine args).isSome := by
  have inside : initLineMax - 1 ≤ initLineMax := by decide
  have keeps (b : LineBuffer initLineMax) (arg : List U8)
      (below : b.chars.length ≤ initLineMax - 1) :
      ∃ next, echoArg b arg = some next ∧ next.chars.length ≤ initLineMax - 1 := by
    obtain ⟨spaced, isSpaced, spacedBelow⟩ := b.pushBelow_below inside 0x20 below
    rw [echoArg, isSpaced]
    exact spaced.copyBelow_below inside arg spacedBelow
  obtain ⟨first, isFirst, firstBelow⟩ :=
    (LineBuffer.empty initLineMax).copyBelow_below inside (args.headD []) (Nat.zero_le _)
  obtain ⟨b, isLine, below⟩ := exists_foldlM keeps args.tail firstBelow
  obtain ⟨ended, isEnded, _⟩ := b.pushBelow_below inside newline below
  rw [echoLine, isFirst, bind_eq_bind, bind_some, isLine, bind_some, isEnded]
  rfl

theorem spawnLine_isSome (arg : List U8) : (spawnLine [arg]).isSome := by
  obtain ⟨b, copied, below⟩ := (LineBuffer.empty initLineMax).copyBelow_below
    (by decide : initLineMax - 1 ≤ initLineMax) arg (Nat.zero_le _)
  have isArg : spawnArg (.empty initLineMax) arg = some b := copied
  have ended : b.terminate = some b.chars := if_pos (below.trans_lt (by decide))
  simp [spawnLine, isArg, ended]

theorem procfsList_isSome {size : Nat} (positive : 0 < size) (tasks : List Task) :
    (procfsList size tasks).isSome := by
  have keeps (b : LineBuffer size) (task : Task) (below : b.chars.length < size) :
      ∃ next, listTask b task = some next ∧ next.chars.length < size := by
    rw [listTask]
    split
    · rename_i room
      obtain ⟨next, isNext, length⟩ := b.foldlM_push (taskLine task) room.le
      exact ⟨next, isNext, length ▸ room⟩
    · exact ⟨b, rfl, below⟩
  have atStart : (LineBuffer.empty size).chars.length < size := positive
  obtain ⟨b, isList, below⟩ := exists_foldlM keeps tasks atStart
  have ended : b.terminate = some b.chars := if_pos below
  simp [procfsList, isList, ended]

/-! ## Every command -/

/-- The computation returns, or a system call of it does not: it stores in its own buffers
only, and has the arguments that it reads. -/
def InsideBuffers {α : Type} (m : ScriptM α) : Prop :=
  ∀ stop, m = .error stop → stop = .away

namespace InsideBuffers

variable {α β κ : Type}

theorem ok (result : α) : InsideBuffers (.ok result : ScriptM α) :=
  fun _ failed => nomatch failed

theorem bind {m : ScriptM α} {next : α → ScriptM β} (first : InsideBuffers m)
    (later : ∀ result, m = .ok result → InsideBuffers (next result)) :
    InsideBuffers (m >>= next) := by
  intro stop failed
  cases isResult : m with
  | ok result =>
    rw [isResult] at failed
    exact later result isResult stop failed
  | error reason =>
    rw [isResult] at failed
    cases failed
    exact first stop isResult

theorem stores {filled : Option α} (fits : filled.isSome) : InsideBuffers (stores filled) := by
  obtain ⟨result, rfl⟩ := isSome_iff_exists.mp fits
  exact ok result

theorem callOut (cases : SyscallCases κ) (call : DispatchCall) (world : ScriptWorld κ) :
    InsideBuffers (callOut cases call world) := by
  intro stop failed
  rw [XKern.callOut] at failed
  split at failed
  · cases failed
    rfl
  · cases failed

end InsideBuffers

section Every

variable {κ : Type} (cases : SyscallCases κ)

/-- The path pointer arrives as the number of the call, and no case has it. -/
theorem callOut_sysOpen (path : KernelString) (flags : U32) (world : ScriptWorld κ) :
    callOut cases (sysOpen path.address flags) world = .ok (-1, world) := by
  have large : (path.address.setWidth 32).toNat = path.address.toNat := by
    rw [toNat_setWidth, Nat.mod_eq_of_lt path.placed.2]
  have noCase : syscallCase (sysOpen path.address flags).num = none := by
    refine getElem?_eq_none ?_
    change 21 ≤ (path.address.setWidth 32).toNat
    have placed := path.placed.1
    omega
  rw [callOut, syscallDispatch, noCase]

/-- `read` finds no file, so that it stores nothing. -/
theorem execRead_eq (buf : U64) (path : KernelString) (world : ScriptWorld κ) :
    execRead cases buf path world = .ok (.notFound path.chars, world) := by
  rw [execRead, callOut_sysOpen]
  rfl

theorem execCommand_inside {spec : CmdSpec} {args : List KernelString} (listed : spec ∈ cmdTable)
    (fromMin : spec.minArgs ≤ args.length) (toMax : args.length ≤ spec.maxArgs)
    (tasks : List Task) (buf : U64) (world : ScriptWorld κ) :
    InsideBuffers (execCommand cases tasks buf spec.command args world) := by
  -- The commands that read an argument have exactly one.
  have one : ∀ spec ∈ cmdTable,
      spec.command = .read ∨ spec.command = .sleep ∨ spec.command = .spawn →
        spec.minArgs = 1 ∧ spec.maxArgs = 1 := by
    decide
  have single (uses : spec.command = .read ∨ spec.command = .sleep ∨ spec.command = .spawn) :
      ∃ arg, args = [arg] := by
    obtain ⟨isMin, isMax⟩ := one spec listed uses
    exact length_eq_one_iff.mp (by omega)
  cases isCommand : spec.command with
  | echo =>
    exact (InsideBuffers.stores (echoLine_isSome _)).bind fun _ _ =>
      (InsideBuffers.callOut cases _ world).bind fun _ _ => .ok _
  | list =>
    rw [execCommand]
    split
    · exact (InsideBuffers.stores (procfsList_isSome (by decide) tasks)).bind fun _ _ => .ok _
    · exact .ok _
  | read =>
    obtain ⟨path, rfl⟩ := single (.inl isCommand)
    change InsideBuffers (execRead cases buf path world)
    rw [execRead_eq]
    exact .ok _
  | pid => exact (InsideBuffers.callOut cases _ world).bind fun _ _ => .ok _
  | sleep =>
    obtain ⟨duration, rfl⟩ := single (.inr (.inl isCommand))
    exact (InsideBuffers.callOut cases _ world).bind fun _ _ => .ok _
  | spawn =>
    obtain ⟨path, rfl⟩ := single (.inr (.inr isCommand))
    exact (InsideBuffers.stores (spawnLine_isSome path.chars)).bind fun _ _ => .ok _
  | clear => exact .ok _
  | version => exact .ok _
  | shell => exact .ok _
  | idle => exact .ok _
  | exit => exact .ok _

/-- Whatever the command and its arguments, the tasks and the cases of the system calls,
`script_exec` stores inside its local buffers only. -/
theorem scriptExec_inside (tasks : List Task) (buf : U64) (name : List U8)
    (args : List KernelString) (world : ScriptWorld κ) :
    InsideBuffers (scriptExec cases tasks buf name args world) := by
  rw [scriptExec]
  cases found : validCommand name with
  | none => exact .ok _
  | some spec =>
    dsimp only
    split
    · exact .ok _
    · rename_i isValid
      rw [Bool.not_eq_false, validArgs, found] at isValid
      obtain ⟨fromMin, toMax⟩ := of_decide_eq_true isValid
      exact execCommand_inside cases (mem_of_find?_eq_some found) fromMin toMax tasks buf world

end Every

end XKern
