import XKern.MemoryCopy
import XKern.Ramfs
import XKern.Task

namespace XKern

open List

/-!
# Files of a task

Model of `fs_open`, `fs_close`, `fs_read` and `fs_lseek` in
`bsd/kern/init_ram_getty/fs.c` and of `procfs_read` in `proc.c`.  A call gets the
record of the task; the archive and the buffers of the callers are bytes by
address.
-/

/-- `data` and `size` of a `struct ramfs_file`. -/
structure FileData where
  data : U64
  size : U32
  deriving DecidableEq

/-- What `fs.c` finds outside of the task. -/
structure FsEnv where
  /-- `ramfs_get()`. -/
  ramfs : Ramfs FileData
  /-- The address of `t->procbuf`. -/
  procbuf : U64
  /-- `task_find(1)` finds a task. -/
  hasInit : Bool

/-- Memory, byte by byte. -/
abbrev Bytes := U64 → U8

/-- Bytes by address, for the functions of `libkern`. -/
def Bytes.ram (bytes : Bytes) : Libkern.Ram :=
  .fresh fun address => bytes (.ofNat 64 address)

/-- `klibc.memcpy`. -/
def klibcMemcpy (dest src : U64) (n : U32) (bytes : Bytes) : Bytes :=
  fun address => (Libkern.memcpy dest.toNat src.toNat n bytes.ram).content address.toNat

section Copy

variable {dest src : U64} {n : U32} (ahead : Libkern.ReadsAhead dest.toNat src.toNat n.toNat)
  (bytes : Bytes)

include ahead

theorem klibcMemcpy_moves : Libkern.MovesBytes dest.toNat src.toNat n.toNat bytes.ram
    (Libkern.memcpy dest.toNat src.toNat n bytes.ram) :=
  Libkern.movesBytes_of_filled (Libkern.memcpy_filled ahead _)

theorem klibcMemcpy_dest (fits : dest.toNat + n.toNat ≤ 2 ^ 64) {i : Nat} (inRange : i < n.toNat) :
    klibcMemcpy dest src n bytes (dest + .ofNat 64 i) = bytes (src + .ofNat 64 i) := by
  have place : (dest + .ofNat 64 i).toNat = dest.toNat + i := by
    rw [BitVec.toNat_add, BitVec.toNat_ofNat]
    omega
  rw [klibcMemcpy, place, (klibcMemcpy_moves ahead bytes).1 i inRange]
  change bytes (.ofNat 64 (src.toNat + i)) = _
  rw [BitVec.ofNat_add, BitVec.ofNat_toNat, BitVec.setWidth_eq]

theorem klibcMemcpy_other {address : U64} (outside : n.toNat ≤ (address - dest).toNat) :
    klibcMemcpy dest src n bytes address = bytes address := by
  rw [BitVec.toNat_sub] at outside
  rw [klibcMemcpy, (klibcMemcpy_moves ahead bytes).2 address.toNat (by omega)]
  change bytes (.ofNat 64 address.toNat) = _
  rw [BitVec.ofNat_toNat, BitVec.setWidth_eq]

end Copy

/-- `t->fd[i] = f`. -/
def Task.setFd (task : Task) (i : Fin 16) (f : XkernFd) : Task :=
  { task with fd := Function.update task.fd i f }

/-- The range check `fd < 0 || fd >= XKERN_MAX_FDS`. -/
def checkFd (fd : Int) : Option (Fin 16) :=
  if inRange : 0 ≤ fd ∧ fd.toNat < 16 then some ⟨fd.toNat, inRange.2⟩ else none

/-- `fs_alloc_fd`. -/
def fsAllocFd (task : Task) : Option (Fin 16) :=
  (finRange 16).find? fun i => 3 ≤ i.val ∧ (task.fd i).type = 0

/-! ## Opening -/

/-- `proc`. -/
def procName : List U8 := [0x70, 0x72, 0x6F, 0x63]

/-- `proc/1/status`. -/
def procStatus : List U8 :=
  procName ++ [0x2F, 0x31, 0x2F, 0x73, 0x74, 0x61, 0x74, 0x75, 0x73]

/-- `is_procfs`. -/
def isProcfs (path : List U8) : Bool :=
  let p := skipSlashes path
  p.take 4 = procName ∧ (p.drop 4 = [] ∨ (p.drop 4).head? = some slash)

/--
`procfs_read` with `t->procbuf`, which it does not fill.  `none` is a `strlen`
that finds no end in the buffer.
-/
def procfsRead (env : FsEnv) (task : Task) (path : List U8) : Option Int :=
  if skipSlashes path = procStatus ∧ env.hasInit then
    ((finRange 1024).find? fun i => task.procbuf i = 0).map fun i => (i.val : Int)
  else
    some (-1)

/-- The end of `fs_open`: a descriptor at the start of the data. -/
def openData (task : Task) (data : U64) (size : U32) : Int × Task :=
  match fsAllocFd task with
  | none => (-1, task)
  | some fd => ((fd.val : Int), task.setFd fd { type := 1, data, size, pos := 0 })

/-- `fs_open`; the flags are not used. -/
def fsOpen (env : FsEnv) (task : Task) (path : List U8) : Option (Int × Task) :=
  if isProcfs path then do
    let n ← procfsRead env task path
    if n < 0 then
      return (-1, task)
    else
      return openData task env.procbuf (BitVec.ofInt 32 n)
  else
    match ramfsLookup env.ramfs path with
    | none => some (-1, task)
    | some file => some (openData task file.data.data file.data.size)

/-! ## Open files -/

/-- `fs_close`. -/
def fsClose (task : Task) (fd : Int) : Int × Task :=
  match checkFd fd with
  | none => (-1, task)
  | some i =>
      if i.val < 3 then (0, task) else (0, task.setFd i { task.fd i with type := 0 })

/-- `fs_read`; `console_read` reads nothing. -/
def fsRead (task : Task) (fd : Int) (buf : U64) (n : U32) (bytes : Bytes) :
    Int × Task × Bytes :=
  match checkFd fd with
  | none => (-1, task, bytes)
  | some i =>
      let f := task.fd i
      if f.type = 2 then
        (0, task, bytes)
      else if f.type ≠ 1 then
        (-1, task, bytes)
      else if f.pos ≥ f.size then
        (0, task, bytes)
      else
        let avail := f.size - f.pos
        let n := if n > avail then avail else n
        (n.toInt, task.setFd i { f with pos := f.pos + n },
          klibcMemcpy buf (f.data + f.pos.setWidth 64) n bytes)

/-- `SEEK_SET`, `SEEK_CUR` and `SEEK_END`. -/
def seekPosition (f : XkernFd) (off whence : U32) : Option U32 :=
  if whence = 0 then
    some off
  else if whence = 1 then
    some (f.pos + off)
  else if whence = 2 then
    some (f.size + off)
  else
    none

/-- `fs_lseek`. -/
def fsLseek (task : Task) (fd : Int) (off whence : U32) : Int × Task :=
  match checkFd fd with
  | none => (-1, task)
  | some i =>
      let f := task.fd i
      if f.type ≠ 1 then
        (-1, task)
      else
        match seekPosition f off whence with
        | none => (-1, task)
        | some pos => (pos.toInt, task.setFd i { f with pos })

/-! ## Descriptors -/

@[simp]
theorem checkFd_val (i : Fin 16) : checkFd (i.val : Int) = some i := by
  have inRange : 0 ≤ (i.val : Int) ∧ (i.val : Int).toNat < 16 := ⟨Int.natCast_nonneg _, i.isLt⟩
  rw [checkFd, dif_pos inRange]
  rfl

theorem checkFd_eq_some {fd : Int} {i : Fin 16} (checked : checkFd fd = some i) :
    fd = (i.val : Int) := by
  rw [checkFd] at checked
  split at checked
  · rename_i inRange
    cases checked
    exact (Int.toNat_of_nonneg inRange.1).symm
  · cases checked

theorem checkFd_eq_none {fd : Int} (refused : checkFd fd = none) : fd < 0 ∨ 16 ≤ fd := by
  rw [checkFd] at refused
  split at refused
  · cases refused
  · omega

theorem fsAllocFd_eq_some {task : Task} {fd : Fin 16} (allocated : fsAllocFd task = some fd) :
    3 ≤ fd.val ∧ (task.fd fd).type = 0 ∧
      ∀ lower : Fin 16, 3 ≤ lower.val → lower < fd → (task.fd lower).type ≠ 0 := by
  obtain ⟨isFree, before, after, split, earlier⟩ := find?_eq_some_iff_append.mp allocated
  rw [decide_eq_true_eq] at isFree
  refine ⟨isFree.1, isFree.2, ?_⟩
  intro lower fromThree below free
  have sorted : (before ++ fd :: after).Pairwise (· < ·) := split ▸ pairwise_lt_finRange 16
  have member : lower ∈ before := by
    have listed : lower ∈ before ++ fd :: after := split ▸ mem_finRange lower
    rcases mem_append.mp listed with before | later
    · exact before
    · rcases mem_cons.mp later with rfl | after
      · exact absurd below (lt_irrefl _)
      · have above := (pairwise_cons.mp (pairwise_append.mp sorted).2.1).1 lower after
        exact absurd below (lt_asymm above)
  have refused := earlier lower member
  simp only [fromThree, free, and_self, decide_true, Bool.not_true, Bool.false_eq_true]
    at refused

theorem fsAllocFd_eq_none {task : Task} (full : fsAllocFd task = none) (fd : Fin 16)
    (fromThree : 3 ≤ fd.val) : (task.fd fd).type ≠ 0 := by
  have refused := find?_eq_none.mp full fd (mem_finRange fd)
  rw [decide_eq_true_eq] at refused
  exact fun free => refused ⟨fromThree, free⟩

end XKern
