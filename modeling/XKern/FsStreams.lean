import XKern.Fs
import XKern.GuardedRun
import XKern.Slices

namespace XKern

open GuardedRun List BitVec Function

/-!
# Descriptors as independent byte streams

A descriptor of an open file is a range of bytes with a position.  The calls of
one task, in any order, treat the descriptors as such streams: each call moves
one of them at most.
-/

/-! ## Streams -/

/-- An open file and the position in it. -/
structure Stream where
  file : FileData
  pos : U32
  deriving DecidableEq

def XkernFd.stream (f : XkernFd) : Option Stream :=
  if f.type = 1 then some { file := ⟨f.data, f.size⟩, pos := f.pos } else none

def Task.streams (task : Task) (i : Fin 16) : Option Stream :=
  (task.fd i).stream

theorem Task.streams_setFd (task : Task) (i : Fin 16) (f : XkernFd) :
    (task.setFd i f).streams = update task.streams i f.stream := by
  funext j
  by_cases same : j = i
  · subst same
    rw [update_self, streams, setFd]
    simp only [update_self]
  · rw [update_of_ne same, streams, setFd]
    simp only [update_of_ne same]
    rfl

variable {stream : Stream} {f : XkernFd} {i : Fin 16} {file : RamfsFile FileData}

theorem XkernFd.stream_eq_some (isStream : f.stream = some stream) :
    f = { type := 1, data := stream.file.data, size := stream.file.size,
          pos := stream.pos } := by
  obtain ⟨type, data, size, pos⟩ := f
  rw [XkernFd.stream] at isStream
  split at isStream
  · rename_i isFile
    cases isStream
    cases isFile
    rfl
  · cases isStream

theorem XkernFd.type_of_stream (isStream : f.stream = some stream) : f.type = 1 :=
  congrArg XkernFd.type (XkernFd.stream_eq_some isStream)

theorem Task.streams_setPos {task : Task} (isOpen : task.streams i = some stream) (pos : U32) :
    (task.setFd i { task.fd i with pos }).streams =
      update task.streams i (some { stream with pos }) := by
  rw [Task.streams_setFd, XkernFd.stream_eq_some isOpen]
  rfl

theorem XkernFd.stream_eq_none (noStream : f.stream = none) : f.type ≠ 1 := by
  rw [stream] at noStream
  split at noStream
  · cases noStream
  · rename_i notFile
    exact notFile

/-- The descriptor that `fs_open` is to return. -/
structure LowestFree (streams : Fin 16 → Option Stream) (fd : Fin 16) : Prop where
  fromThree : 3 ≤ fd.val
  free : streams fd = none
  lowest : ∀ lower : Fin 16, 3 ≤ lower.val → lower < fd → (streams lower).isSome

/-- What `whence` counts from. -/
inductive SeekBase (stream : Stream) : U32 → Nat → Prop
  | set : SeekBase stream 0 0
  | cur : SeekBase stream 1 stream.pos.toNat
  | fromEnd : SeekBase stream 2 stream.file.size.toNat

/-! ## Calls -/

/-- The calls on descriptors. -/
inductive FsCall
  | openPath (path : List U8)
  | read (fd : Int) (buf : U64) (n : U32)
  | lseek (fd : Int) (off whence : U32)
  | close (fd : Int)

structure FsState where
  task : Task
  bytes : Bytes

def FsCall.run (env : FsEnv) (state : FsState) : FsCall → Option (Int × FsState)
  | openPath path =>
      (fsOpen env state.task path).map fun (result, task) => (result, { state with task })
  | read fd buf n =>
      let (result, task, bytes) := fsRead state.task fd buf n state.bytes
      some (result, { task, bytes })
  | lseek fd off whence =>
      let (result, task) := fsLseek state.task fd off whence
      some (result, { state with task })
  | close fd =>
      let (result, task) := fsClose state.task fd
      some (result, { state with task })

def fsStep (env : FsEnv) (state : FsState) (call : FsCall) : Option FsState :=
  (call.run env state).map Prod.snd

/-- The call opens nothing in `/proc`. -/
def FsCall.OutsideProc : FsCall → Prop
  | openPath path => isProcfs path = false
  | _ => True

/-- The buffer of a read does not wrap, and no byte of a file lies in it. -/
def FsCall.Separate (env : FsEnv) : FsCall → Prop
  | read _ buf n => buf.toNat + n.toNat ≤ 2 ^ 64 ∧
      ∀ file ∈ env.ramfs.files, ∀ i < file.data.size.toNat,
        n.toNat ≤ (file.data.data + .ofNat 64 i - buf).toNat
  | _ => True

/-- The descriptor has no stream. -/
def NoStream (state : FsState) (fd : Int) : Prop :=
  ∀ i : Fin 16, fd = (i.val : Int) → state.task.streams i = none

theorem noStream_of_checkFd {fd : Int} (refused : checkFd fd = none) (state : FsState) :
    NoStream state fd := by
  rintro i rfl
  rw [checkFd_val] at refused
  cases refused

theorem noStream_of_streams {state : FsState} (noStream : state.task.streams i = none) :
    NoStream state (i.val : Int) := by
  intro j same
  cases Fin.ext (Int.ofNat_inj.mp same)
  exact noStream

/-- What a call does to the streams of a task, and what it returns. -/
inductive StreamStep (env : FsEnv) : FsCall → FsState → Int → FsState → Prop
  /-- A file is opened at its start on the lowest free descriptor. -/
  | opened
      {path : List U8}
      {before after : FsState}
      {file : RamfsFile FileData}
      {fd : Fin 16}
      (isFile : ramfsLookup env.ramfs path = some file)
      (lowest : LowestFree before.task.streams fd)
      (streams : after.task.streams =
        update before.task.streams fd (some { file := file.data, pos := 0 }))
      (bytes : after.bytes = before.bytes) :
      StreamStep env (.openPath path) before (fd.val : Int) after
  /-- There is no such file, or no descriptor is free. -/
  | notOpened
      {path : List U8}
      {before : FsState}
      (refused : ramfsLookup env.ramfs path = none ∨
        ∀ fd : Fin 16, 3 ≤ fd.val → (before.task.streams fd).isSome) :
      StreamStep env (.openPath path) before (-1) before
  /-- The bytes from the position on, as many as there are, go to the buffer. -/
  | read
      {fd : Fin 16}
      {buf : U64}
      {n position : U32}
      {before after : FsState}
      {stream : Stream}
      {count : Nat}
      (isOpen : before.task.streams fd = some stream)
      (isCount : count = min n.toNat (stream.file.size.toNat - stream.pos.toNat))
      (advanced : position.toNat = stream.pos.toNat + count)
      (streams : after.task.streams =
        update before.task.streams fd (some { stream with pos := position }))
      (delivered : ∀ i < count, after.bytes (buf + BitVec.ofNat 64 i) =
        before.bytes (stream.file.data + BitVec.ofNat 64 (stream.pos.toNat + i)))
      (otherBytes : ∀ address, count ≤ (address - buf).toNat →
        after.bytes address = before.bytes address) :
      StreamStep env (.read (fd.val : Int) buf n) before (count : Int) after
  | notRead
      {fd result : Int}
      {buf : U64}
      {n : U32}
      {before : FsState}
      (noStream : NoStream before fd)
      (isResult : result = if 0 ≤ fd ∧ fd < 3 then 0 else -1) :
      StreamStep env (.read fd buf n) before result before
  /-- The position is set modulo 2^32. -/
  | sought
      {fd : Fin 16}
      {off whence position : U32}
      {before after : FsState}
      {stream : Stream}
      {base : Nat}
      (isOpen : before.task.streams fd = some stream)
      (isBase : SeekBase stream whence base)
      (isPosition : position.toNat = (base + off.toNat) % 2 ^ 32)
      (streams : after.task.streams =
        update before.task.streams fd (some { stream with pos := position }))
      (bytes : after.bytes = before.bytes) :
      StreamStep env (.lseek (fd.val : Int) off whence) before position.toInt after
  | notSought
      {fd : Int}
      {off whence : U32}
      {before : FsState}
      (refused : NoStream before fd ∨ 2 < whence.toNat) :
      StreamStep env (.lseek fd off whence) before (-1) before
  /-- The descriptor is free again. -/
  | closed
      {fd : Fin 16}
      {before after : FsState}
      (fromThree : 3 ≤ fd.val)
      (streams : after.task.streams = update before.task.streams fd none)
      (bytes : after.bytes = before.bytes) :
      StreamStep env (.close (fd.val : Int)) before 0 after
  | notClosed
      {fd result : Int}
      {before : FsState}
      (refused : fd < 3 ∨ 16 ≤ fd)
      (isResult : result = if 0 ≤ fd ∧ fd < 3 then 0 else -1) :
      StreamStep env (.close fd) before result before

/-! ## The descriptors of a task -/

/-- The console and files of the ramdisk are all that a descriptor can be. -/
structure FsState.Valid (env : FsEnv) (state : FsState) : Prop where
  console : ∀ i : Fin 16, i.val < 3 → (state.task.fd i).type = 2
  other : ∀ i : Fin 16, 3 ≤ i.val →
    (state.task.fd i).type = 0 ∨ (state.task.fd i).type = 1
  files : ∀ i stream, state.task.streams i = some stream →
    ∃ file ∈ env.ramfs.files, stream.file = file.data

namespace FsState.Valid

variable {env : FsEnv} {state : FsState} (valid : state.Valid env)

include valid

theorem free_iff (fromThree : 3 ≤ i.val) :
    (state.task.fd i).type = 0 ↔ state.task.streams i = none := by
  rw [Task.streams, XkernFd.stream]
  rcases valid.other i fromThree with free | file
  · rw [free]
    simp
  · rw [file]
    simp

theorem isSome_iff (fromThree : 3 ≤ i.val) :
    (state.task.fd i).type ≠ 0 ↔ (state.task.streams i).isSome := by
  rw [Option.isSome_iff_ne_none, ne_eq, valid.free_iff fromThree]

theorem fromThree (isOpen : state.task.streams i = some stream) : 3 ≤ i.val := by
  by_contra console
  have isConsole := valid.console i (by omega)
  have isFile := XkernFd.type_of_stream isOpen
  rw [isConsole] at isFile
  exact absurd isFile (by decide)

theorem setFd (fromThree : 3 ≤ i.val) (type : f.type = 0 ∨ f.type = 1)
    (isFile : ∀ stream, f.stream = some stream →
      ∃ file ∈ env.ramfs.files, stream.file = file.data) (bytes : Bytes) :
    FsState.Valid env { task := state.task.setFd i f, bytes } where
  console j console := by
    have other : j ≠ i := fun same => absurd (same ▸ fromThree) (by omega)
    simp only [Task.setFd, update_of_ne other]
    exact valid.console j console
  other j later := by
    by_cases same : j = i
    · subst same
      simpa only [Task.setFd, update_self] using type
    · simp only [Task.setFd, update_of_ne same]
      exact valid.other j later
  files j stream isStream := by
    rw [Task.streams_setFd] at isStream
    by_cases same : j = i
    · subst same
      rw [update_self] at isStream
      exact isFile stream isStream
    · rw [update_of_ne same] at isStream
      exact valid.files j stream isStream

theorem setPos (isOpen : state.task.streams i = some stream) (pos : U32) (bytes : Bytes) :
    FsState.Valid env { task := state.task.setFd i { state.task.fd i with pos }, bytes } := by
  have isFd := XkernFd.stream_eq_some isOpen
  rw [isFd]
  refine valid.setFd (valid.fromThree isOpen) (Or.inr rfl) ?_ bytes
  intro moved isMoved
  cases isMoved
  exact valid.files i stream isOpen

end FsState.Valid

theorem fsTaskInit_valid (env : FsEnv) (task : Task) (bytes : Bytes) :
    FsState.Valid env { task := fsTaskInit task, bytes } where
  console i console := if_pos console
  other i later := Or.inl (if_neg (not_lt.mpr later))
  files i stream isStream := by
    have isFile := XkernFd.type_of_stream isStream
    simp only [fsTaskInit] at isFile
    split at isFile
    · exact absurd isFile (by decide)
    · exact absurd isFile (by decide)

/-! ## One call -/

/-- The call returns, as a step on streams, and keeps the task's other data. -/
def FsCall.Behaves (env : FsEnv) (state : FsState) (call : FsCall) : Prop :=
  ∃ result after, call.run env state = some (result, after) ∧
    StreamStep env call state result after ∧
    after.task = { state.task with fd := after.task.fd } ∧ after.Valid env

theorem toNat_clamp {size pos : U32} (inFile : pos.toNat < size.toNat) (n : U32) :
    (if n > size - pos then size - pos else n).toNat = min n.toNat (size.toNat - pos.toNat) := by
  have avail : (size - pos).toNat = size.toNat - pos.toNat := toNat_sub_of_le inFile.le
  rw [Slices.toNat_cut, avail]

theorem fsRead_stream {task : Task} (isStream : task.streams i = some stream) (buf : U64)
    (n : U32) (bytes : Bytes) :
    ∃ count : U32,
      count.toNat = min n.toNat (stream.file.size.toNat - stream.pos.toNat) ∧
      fsRead task (i.val : Int) buf n bytes =
        (count.toInt, task.setFd i { task.fd i with pos := stream.pos + count },
          klibcMemcpy buf (stream.file.data + stream.pos.setWidth 64) count bytes) := by
  have isFd := XkernFd.stream_eq_some isStream
  have isFile := XkernFd.type_of_stream isStream
  have notConsole : (task.fd i).type ≠ 2 := by
    rw [isFile]
    decide
  rw [fsRead, checkFd_val]
  dsimp only
  rw [if_neg notConsole, if_neg (not_not.mpr isFile), isFd]
  dsimp only
  by_cases pastEnd : stream.pos ≥ stream.file.size
  · have nothing : stream.file.size.toNat - stream.pos.toNat = 0 :=
      Nat.sub_eq_zero_of_le pastEnd
    refine ⟨0, by rw [nothing, min_zero]; rfl, ?_⟩
    have sameTask : task.setFd i
        { type := 1, data := stream.file.data, size := stream.file.size,
          pos := stream.pos + 0 } = task := by
      have samePosition : stream.pos + 0 = stream.pos := add_zero stream.pos
      rw [samePosition, ← isFd, Task.setFd, update_eq_self]
    have sameBytes : klibcMemcpy buf (stream.file.data + stream.pos.setWidth 64) 0 bytes = bytes :=
      funext fun address => klibcMemcpy_other (n := 0) (le_total buf.toNat _) _ (Nat.zero_le _)
    rw [if_pos pastEnd, sameTask, sameBytes]
    rfl
  · rw [if_neg pastEnd]
    exact ⟨_, toNat_clamp (not_le.mp pastEnd) n, rfl⟩

theorem seekPosition_eq_none {off whence : U32} (refused : seekPosition f off whence = none) :
    2 < whence.toNat := by
  rw [seekPosition] at refused
  split at refused
  · cases refused
  · split at refused
    · cases refused
    · split at refused
      · cases refused
      · bv_omega

theorem seekPosition_eq_some {off whence position : U32} (isStream : f.stream = some stream)
    (isPosition : seekPosition f off whence = some position) :
    ∃ base, SeekBase stream whence base ∧
      position.toNat = (base + off.toNat) % 2 ^ 32 := by
  cases XkernFd.stream_eq_some isStream
  rw [seekPosition] at isPosition
  split at isPosition
  · rename_i isSet
    cases isSet
    cases isPosition
    exact ⟨0, .set, by have := off.isLt; omega⟩
  · split at isPosition
    · rename_i isCur
      cases isCur
      cases isPosition
      exact ⟨_, .cur, toNat_add _ _⟩
    · split at isPosition
      · rename_i isEnd
        cases isEnd
        cases isPosition
        exact ⟨_, .fromEnd, toNat_add _ _⟩
      · cases isPosition

section Calls

variable {env : FsEnv} {state : FsState} (valid : state.Valid env)

include valid

theorem openPath_behaves {path : List U8} (outside : isProcfs path = false) :
    FsCall.Behaves env state (.openPath path) := by
  rw [FsCall.Behaves, FsCall.run, fsOpen, outside]
  simp only [Bool.false_eq_true, if_false]
  cases isFile : ramfsLookup env.ramfs path with
  | none => exact ⟨-1, state, rfl, .notOpened (Or.inl isFile), rfl, valid⟩
  | some file =>
    have member : file ∈ env.ramfs.files := mem_of_find?_eq_some isFile
    cases allocated : fsAllocFd state.task with
    | none =>
      refine ⟨-1, state, by simp [openData, allocated], .notOpened (Or.inr ?_), rfl, valid⟩
      intro fd fromThree
      exact (valid.isSome_iff fromThree).mp (fsAllocFd_eq_none allocated fd fromThree)
    | some fd =>
      obtain ⟨fromThree, free, lowest⟩ := fsAllocFd_eq_some allocated
      let opened : XkernFd :=
        ⟨1, file.data.data, file.data.size, 0⟩
      refine ⟨fd.val, ⟨state.task.setFd fd opened, state.bytes⟩,
        by simp only [openData, allocated, Option.map_some, opened], ?_, rfl, ?_⟩
      · refine .opened isFile ⟨fromThree, (valid.free_iff fromThree).mp free, ?_⟩ ?_ rfl
        · intro lower later below
          exact (valid.isSome_iff later).mp (lowest lower later below)
        · exact Task.streams_setFd _ _ _
      · refine valid.setFd fromThree (Or.inr rfl) ?_ _
        intro stream isStream
        cases isStream
        exact ⟨file, member, rfl⟩

theorem close_behaves (fd : Int) : FsCall.Behaves env state (.close fd) := by
  rw [FsCall.Behaves, FsCall.run, fsClose]
  cases checked : checkFd fd with
  | none =>
    have outOfRange := checkFd_eq_none checked
    refine ⟨-1, state, rfl, .notClosed (by omega) ?_, rfl, valid⟩
    rw [if_neg (by omega)]
  | some i =>
    cases checkFd_eq_some checked
    by_cases console : i.val < 3
    · refine ⟨0, state, by simp [console], .notClosed (Or.inl (by omega)) ?_, rfl, valid⟩
      rw [if_pos (by omega)]
    · have fromThree : 3 ≤ i.val := by omega
      refine ⟨0, { state with task := state.task.setFd i { state.task.fd i with type := 0 } },
        by simp only [if_neg console], .closed fromThree ?_ rfl, rfl, ?_⟩
      · exact Task.streams_setFd _ _ _
      · refine valid.setFd fromThree (Or.inl rfl) ?_ _
        intro stream isStream
        cases isStream

theorem lseek_behaves (fd : Int) (off whence : U32) :
    FsCall.Behaves env state (.lseek fd off whence) := by
  rw [FsCall.Behaves, FsCall.run, fsLseek]
  cases checked : checkFd fd with
  | none =>
    exact ⟨-1, state, rfl, .notSought (Or.inl (noStream_of_checkFd checked state)), rfl, valid⟩
  | some i =>
    cases checkFd_eq_some checked
    dsimp only
    cases isStream : state.task.streams i with
    | none =>
      rw [if_pos (XkernFd.stream_eq_none isStream)]
      exact ⟨-1, state, rfl, .notSought (Or.inl (noStream_of_streams isStream)), rfl, valid⟩
    | some stream =>
      rw [if_neg (not_not.mpr (XkernFd.type_of_stream isStream))]
      cases isPosition : seekPosition (state.task.fd i) off whence with
      | none =>
        refine ⟨-1, state, rfl, .notSought (Or.inr ?_), rfl, valid⟩
        exact seekPosition_eq_none isPosition
      | some position =>
        obtain ⟨base, isBase, isSum⟩ := seekPosition_eq_some isStream isPosition
        refine ⟨position.toInt,
          ⟨state.task.setFd i { state.task.fd i with pos := position }, state.bytes⟩,
          rfl, .sought isStream isBase isSum ?_ rfl, rfl, ?_⟩
        · exact Task.streams_setPos isStream position
        · exact valid.setPos isStream position state.bytes

variable (small : ∀ file ∈ env.ramfs.files, file.data.size.toNat < 2 ^ 31)

include small

theorem readStream_behaves (isStream : state.task.streams i = some stream) {buf : U64} {n : U32}
    (separate : FsCall.Separate env (.read (i.val : Int) buf n)) :
    FsCall.Behaves env state (.read (i.val : Int) buf n) := by
  obtain ⟨count, clamped, isRead⟩ := fsRead_stream isStream buf n state.bytes
  obtain ⟨file, member, sameFile⟩ := valid.files i stream isStream
  have bounded := small file member
  have apart := separate.2 file member
  rw [← sameFile] at bounded apart
  -- A copy that overwrote what it has yet to read would start inside the file.
  have ahead : Libkern.ReadsAhead buf.toNat (stream.file.data + stream.pos.setWidth 64).toNat
      count.toNat := by
    rw [Libkern.ReadsAhead]
    by_contra behind
    obtain ⟨k, start⟩ := Nat.exists_eq_add_of_le
      (by omega : (stream.file.data + stream.pos.setWidth 64).toNat ≤ buf.toNat)
    have inside := apart (stream.pos.toNat + k) (by omega)
    have first : stream.file.data + .ofNat 64 (stream.pos.toNat + k) = buf := by
      rw [ofNat_add, ofNat_toNat, ← add_assoc]
      apply eq_of_toNat_eq
      have bound := buf.isLt
      rw [toNat_add, toNat_ofNat]
      omega
    rw [first, BitVec.sub_self, toNat_ofNat] at inside
    omega
  have isResult : count.toInt = (count.toNat : Int) := toInt_eq_toNat_of_lt (by omega)
  have positionBounded := stream.pos.isLt
  have advanced : (stream.pos + count).toNat = stream.pos.toNat + count.toNat := by
    rw [toNat_add]
    omega
  rw [FsCall.Behaves, FsCall.run, isRead, isResult]
  refine ⟨(count.toNat : Int),
    ⟨state.task.setFd i { state.task.fd i with pos := stream.pos + count },
      klibcMemcpy buf (stream.file.data + stream.pos.setWidth 64) count state.bytes⟩,
    rfl, .read isStream clamped advanced ?_ ?_ ?_, rfl, ?_⟩
  · exact Task.streams_setPos isStream _
  · intro j below
    have source : stream.file.data + stream.pos.setWidth 64 + BitVec.ofNat 64 j =
        stream.file.data + BitVec.ofNat 64 (stream.pos.toNat + j) := by
      rw [ofNat_add, ofNat_toNat, add_assoc]
    rw [← source]
    exact klibcMemcpy_dest ahead _ (le_trans (by omega) separate.1) below
  · intro address outside
    exact klibcMemcpy_other ahead _ outside
  · exact valid.setPos isStream _ _

theorem read_behaves {fd : Int} {buf : U64} {n : U32}
    (separate : FsCall.Separate env (.read fd buf n)) :
    FsCall.Behaves env state (.read fd buf n) := by
  cases checked : checkFd fd with
  | none =>
    have outOfRange := checkFd_eq_none checked
    rw [FsCall.Behaves, FsCall.run, fsRead, checked]
    refine ⟨-1, state, rfl, .notRead (noStream_of_checkFd checked state) ?_, rfl, valid⟩
    rw [if_neg (by omega)]
  | some i =>
    cases checkFd_eq_some checked
    cases isStream : state.task.streams i with
    | none =>
      have notFile := XkernFd.stream_eq_none isStream
      rw [FsCall.Behaves, FsCall.run, fsRead, checked]
      dsimp only
      by_cases console : i.val < 3
      · rw [if_pos (valid.console i console)]
        refine ⟨0, state, rfl, .notRead (noStream_of_streams isStream) ?_, rfl, valid⟩
        rw [if_pos (by omega)]
      · have notConsole : (state.task.fd i).type ≠ 2 := by
          rcases valid.other i (by omega) with free | file
          · rw [free]
            decide
          · exact absurd file notFile
        rw [if_neg notConsole, if_pos notFile]
        refine ⟨-1, state, rfl, .notRead (noStream_of_streams isStream) ?_, rfl, valid⟩
        rw [if_neg (by omega)]
    | some stream => exact readStream_behaves valid small isStream separate

theorem fsCall_behaves {call : FsCall} (outside : call.OutsideProc)
    (separate : call.Separate env) :
    FsCall.Behaves env state call := by
  cases call with
  | openPath path => exact openPath_behaves valid outside
  | read fd buf n => exact read_behaves valid small separate
  | lseek fd off whence => exact lseek_behaves valid fd off whence
  | close fd => exact close_behaves valid fd

end Calls

/-! ## Runs -/

theorem StreamStep.file_bytes {env : FsEnv} {call : FsCall} {before after : FsState}
    {result : Int} (step : StreamStep env call before result after) (separate : call.Separate env)
    (member : file ∈ env.ramfs.files) {i : Nat} (inFile : i < file.data.size.toNat) :
    after.bytes (file.data.data + BitVec.ofNat 64 i) =
      before.bytes (file.data.data + BitVec.ofNat 64 i) := by
  cases step with
  | opened _ _ _ bytes => rw [bytes]
  | notOpened => rfl
  | read isOpen isCount _ _ _ otherBytes =>
    apply otherBytes
    have spared := separate.2 file member i inFile
    omega
  | notRead => rfl
  | sought _ _ _ _ bytes => rw [bytes]
  | notSought => rfl
  | closed _ _ bytes => rw [bytes]
  | notClosed => rfl

section Runs

variable {env : FsEnv} (small : ∀ file ∈ env.ramfs.files, file.data.size.toNat < 2 ^ 31)
  {start final : FsState} {trace : List (FsState × FsCall)}

include small

section

variable (atStart : start.Valid env) (run : Run (fsStep env) start trace final)
  (outside : ∀ taken ∈ trace, taken.2.OutsideProc)
  (separate : ∀ taken ∈ trace, taken.2.Separate env)

include atStart run outside separate

theorem fsRun_valid :
    final.Valid env := by
  induction run with
  | start => exact atStart
  | @step trace state next call run taken ih =>
    have valid := ih (fun earlier member => outside earlier (mem_append_left _ member))
      fun earlier member => separate earlier (mem_append_left _ member)
    obtain ⟨result, after, ran, _, _, afterValid⟩ := fsCall_behaves valid small
      (outside (state, call) (by simp)) (separate (state, call) (by simp))
    rw [fsStep, ran] at taken
    cases taken
    exact afterValid

theorem fsRun_file_bytes (member : file ∈ env.ramfs.files) {i : Nat}
    (inFile : i < file.data.size.toNat) :
    final.bytes (file.data.data + BitVec.ofNat 64 i) =
      start.bytes (file.data.data + BitVec.ofNat 64 i) := by
  induction run with
  | start => rfl
  | @step trace state next call run taken ih =>
    have earlierOutside : ∀ earlier ∈ trace, earlier.2.OutsideProc :=
      fun earlier listed => outside earlier (mem_append_left _ listed)
    have earlierSeparate : ∀ earlier ∈ trace, earlier.2.Separate env :=
      fun earlier listed => separate earlier (mem_append_left _ listed)
    have valid := fsRun_valid small atStart run earlierOutside earlierSeparate
    obtain ⟨result, after, ran, step, _⟩ := fsCall_behaves valid small
      (outside (state, call) (by simp)) (separate (state, call) (by simp))
    rw [fsStep, ran] at taken
    cases taken
    rw [step.file_bytes (separate (state, call) (by simp)) member inFile]
    exact ih earlierOutside earlierSeparate

end

/--
After any calls of a new task outside `/proc`, with buffers that meet no file,
the next call returns and treats the descriptors as independent streams, and the
files still have the bytes they had at the start.
-/
theorem fsCalls_streams (fresh : start.task = fsTaskInit start.task)
    (run : Run (fsStep env) start trace final) (outside : ∀ taken ∈ trace, taken.2.OutsideProc)
    (separate : ∀ taken ∈ trace, taken.2.Separate env) {call : FsCall}
    (callOutside : call.OutsideProc) (callSeparate : call.Separate env) :
    (∃ result after, call.run env final = some (result, after) ∧
      StreamStep env call final result after ∧
      after.task = { final.task with fd := after.task.fd }) ∧
    ∀ file ∈ env.ramfs.files, ∀ i < file.data.size.toNat,
      final.bytes (file.data.data + BitVec.ofNat 64 i) =
        start.bytes (file.data.data + BitVec.ofNat 64 i) := by
  have atStart : start.Valid env := by
    have valid := fsTaskInit_valid env start.task start.bytes
    rwa [← fresh] at valid
  have valid := fsRun_valid small atStart run outside separate
  refine ⟨?_, ?_⟩
  · obtain ⟨result, after, ran, step, sameTask, _⟩ :=
      fsCall_behaves valid small callOutside callSeparate
    exact ⟨result, after, ran, step, sameTask⟩
  · intro file member i inFile
    exact fsRun_file_bytes small atStart run outside separate member inFile

end Runs

def newFsTask : Task :=
  fsTaskInit {
    sp := 0
    cr3 := 0
    pid := 1
    name := ⟨[], emptyName_fits⟩
    stack := 0
    state := .running
    ticks := 0
    arg := 0
    vforkParent := 0
    fd := fun _ => ⟨0, 0, 0, 0⟩
    procbuf := fun _ => 0 }

/-- The file `a` has five bytes at 2 MiB. -/
def letterFile : RamfsFile FileData where
  name := ⟨[0x61], letterName_fits⟩
  data := { data := 0x200000, size := 5 }

def letterEnv : FsEnv where
  ramfs := .single letterFile
  procbuf := 0
  hasInit := false

def letterOpened (bytes : Bytes) : FsState :=
  (fsStep letterEnv ⟨newFsTask, bytes⟩ (.openPath [0x2F, 0x61])).getD ⟨newFsTask, bytes⟩

/-- A read of ten bytes gets the five that there are. -/
theorem letterFile_streams :
    ∃ result after,
      (FsCall.read 3 0x300000 10).run letterEnv (letterOpened fun _ => 7) =
          some (result, after) ∧
        StreamStep letterEnv (.read 3 0x300000 10) (letterOpened fun _ => 7) result after ∧
        result = 5 := by
  have small : ∀ file ∈ letterEnv.ramfs.files, file.data.size.toNat < 2 ^ 31 := by
    intro file member
    cases mem_singleton.mp member
    decide
  have opened : fsStep letterEnv ⟨newFsTask, fun _ => 7⟩ (.openPath [0x2F, 0x61]) =
      some (letterOpened fun _ => 7) := rfl
  have outside : FsCall.OutsideProc (.read 3 0x300000 10) := trivial
  have separate : FsCall.Separate letterEnv (.read 3 0x300000 10) := by
    refine ⟨by decide, ?_⟩
    intro file member
    cases mem_singleton.mp member
    decide
  obtain ⟨result, after, ran, step, _⟩ := (fsCalls_streams small rfl (.step .start opened)
    (by
      intro taken member
      cases mem_singleton.mp member
      rfl)
    (by
      intro taken member
      cases mem_singleton.mp member
      trivial)
    outside separate).1
  have result_eq : some result = some 5 := congrArg (Option.map Prod.fst) ran.symm
  exact ⟨result, after, ran, step, Option.some.inj result_eq⟩

end XKern
