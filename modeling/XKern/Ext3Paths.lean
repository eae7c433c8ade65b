import XKern.Ext3DirectoryBounds
import XKern.Ramfs

namespace XKern

open Slices FaultTriple List Function

/-!
# Path operations of an ext3 file system

Model of `resolve_path`, `open`, `stat` and `getdents` of `bsd/ext3/src/fs.cpp`.  A
path is null or the list of its bytes as far as the terminator.  A directory is an
object on the stack, and its class has no destructor: nothing frees it when it goes
out of scope.
-/

/-- `EXT3_ROOT_INO`. -/
def ext3RootIno : U32 := 2

/-- The bytes as far as `find_next_slash` or the end. -/
def pathComponent (p : List U8) : List U8 :=
  p.takeWhile (· ≠ slash)

/-- `seg_len`. -/
def segLen (p : List U8) : U32 :=
  .ofNat 32 (pathComponent p).length

/-- `end ? skip_slash(end) : ""`. -/
def nextComponent (p : List U8) : List U8 :=
  skipSlashes (p.dropWhile (· ≠ slash))

section Operations

variable (fs : FileSystem) (stale : U32 → Nat → U8)

/-- `FileSystem::read_inode`. -/
def FileSystem.readInode (ino : U32) : Except Ext3Fault (Option Inode) :=
  loadInode fs.disk fs.sb fs.bgt stale ino

/--
The part that `resolve_path` and `getdents` have in common: read an inode, read it as
a directory, and ask the directory.
-/
def withDirectory {Result : Type} (ino : U32) (ask : Directory → Except Ext3Fault (Option Result)) :
    EStateM Ext3Fault Pmm (Option Result) := do
  match ← lift (fs.readInode stale ino) with
  | none => return none
  | some dirInode =>
      if dirInode.isDir = false then
        return none
      else
        match ← readDirectory fs.disk fs.sb stale Directory.new dirInode with
        | none => return none
        | some dir => lift (ask dir)

/-- The loop of `resolve_path`; every round takes a component off the path. -/
def resolveLoop : Nat → List U8 → U32 → EStateM Ext3Fault Pmm (Option U32)
  | 0, _, _ => throw .endless
  | fuel + 1, p, currentIno =>
      if p = [] ∨ segLen p = 0 then
        return some currentIno
      else if segLen p ≥ 256 then
        return none
      else do
        let name := (pathComponent p).take (segLen p).toNat
        match ← withDirectory fs stale currentIno fun dir => dir.lookup name with
        | none => return none
        | some childIno => resolveLoop fuel (nextComponent p) childIno

/-- `FileSystem::resolve_path`; `none` is the result -1. -/
def resolvePath (path : Option (List U8)) : EStateM Ext3Fault Pmm (Option U32) :=
  match path with
  | none => return none
  | some path =>
      if path.head? ≠ some slash then
        return none
      else
        resolveLoop fs stale (path.length + 1) (skipSlashes path) ext3RootIno

/-- `FileSystem::alloc_fd`: the first file that is not in use. -/
def FileSystem.allocFd : Option (Fin maxOpenFiles) :=
  (finRange maxOpenFiles).find? fun fd => (fs.files fd).inUse = false

/-- `FileSystem::open`: the result and the new state. -/
def openFile (path : Option (List U8)) : EStateM Ext3Fault Pmm (Int × FileSystem) := do
  match ← resolvePath fs stale path with
  | none => return (-1, fs)
  | some ino =>
      match fs.allocFd with
      | none => return (-1, fs)
      | some fd =>
          let file := fs.files fd
          match ← lift (fs.readInode stale ino) with
          | none =>
              let closed := { file with inodeNo := ino, pos := 0, inUse := false }
              return (-1, { fs with files := update fs.files fd closed })
          | some inode =>
              let opened := { file with inodeNo := ino, inode := inode, pos := 0, inUse := true }
              return (fd.val, { fs with files := update fs.files fd opened })

/-- `struct xkern_stat`; `st_dev` and `st_rdev` are zero. -/
structure XkernStat where
  stIno : U32
  stMode : U32
  stNlink : U32
  stUid : U32
  stGid : U32
  stSize : U32
  stBlksize : U32
  stBlocks : U32
  stAtime : U32
  stMtime : U32
  stCtime : U32

/-- A 16-bit field of `inode_disk`. -/
def Inode.half (inode : Inode) (offset : Nat) : U32 :=
  littleEndian ((inode.raw.drop offset).take 2)

/-- `FileSystem::stat`: the struct that is filled, or `none` for -1. -/
def statFile (path : Option (List U8)) (hasStat : Bool) :
    EStateM Ext3Fault Pmm (Option XkernStat) := do
  if hasStat = false then
    return none
  else
    match ← resolvePath fs stale path with
    | none => return none
    | some ino =>
        match ← lift (fs.readInode stale ino) with
        | none => return none
        | some inode =>
            return some {
              stIno := ino
              stMode := inode.mode.setWidth 32
              stNlink := inode.half 26
              stUid := inode.half 2
              stGid := inode.half 24
              stSize := inode.size
              stBlksize := fs.sb.blockSize
              stBlocks := wordAt inode.raw 28
              stAtime := wordAt inode.raw 8
              stMtime := wordAt inode.raw 16
              stCtime := wordAt inode.raw 12 }

/-- `getdents` behind `resolve_path`. -/
def listEntry (ino index namelen : U32) : EStateM Ext3Fault Pmm (Option (List U8)) := do
  match ← withDirectory fs stale ino fun dir => dir.getEntry index with
  | none => return none
  | some entry =>
      -- with no room at all the length of the copy wraps
      if namelen = 0 then
        throw .nameBuffer
      else
        let copyLen := if entry.nameLen ≥ namelen then namelen - 1 else entry.nameLen
        return some (entry.name.take copyLen.toNat)

/-- `FileSystem::getdents`: the name that is written, or `none` for -1. -/
def getdents (path : Option (List U8)) (index : U32) (hasName : Bool) (namelen : U32) :
    EStateM Ext3Fault Pmm (Option (List U8)) := do
  if hasName = false then
    return none
  else
    match ← resolvePath fs stale path with
    | none => return none
    | some ino => listEntry fs stale ino index namelen

end Operations

/-! ## Frames of a directory -/

/--
Reading the directory takes a frame for good: there is one, and it is not given back
because of a failed read.  (A frame at address 0 is lost, too: it counts as no frame.)
-/
structure KeepsFrame
    (disk : Disk)
    (sb : Superblock)
    (stale : U32 → Nat → U8)
    (inode : Inode)
    (pmm : Pmm) : Prop where
  isDir : inode.isDir = true
  nonempty : inode.size ≠ 0
  hasFrame : pmm.stack ≠ []
  notFreed : (pmmAlloc pmm).1 = 0 ∨ ¬ DirectoryFails disk sb stale inode

variable {pmm : Pmm}

section Frames

variable {disk : Disk} {sb : Superblock} {stale : U32 → Nat → U8} {inode : Inode}

theorem pmmGetFreePages_pmmAlloc (hasFrame : pmm.stack ≠ []) :
    pmmGetFreePages (pmmAlloc pmm).2 < pmmGetFreePages pmm := by
  obtain isEmpty | ⟨rest, top, shape⟩ := eq_nil_or_concat pmm.stack
  · exact absurd isEmpty hasFrame
  · rw [concat_eq_append] at shape
    rw [pmmGetFreePages, pmmGetFreePages, (pmmAlloc_concat shape).2, shape, length_append]
    exact Nat.lt_succ_self _

theorem pmmGetFreePages_pmmFree_pmmAlloc (taken : (pmmAlloc pmm).1 ≠ 0) :
    pmmGetFreePages (pmmFree (pmmAlloc pmm).2 (pmmAlloc pmm).1) = pmmGetFreePages pmm := by
  obtain isEmpty | ⟨rest, top, shape⟩ := eq_nil_or_concat pmm.stack
  · rw [pmmAlloc_nil isEmpty] at taken
    exact absurd rfl taken
  · rw [concat_eq_append] at shape
    obtain ⟨isTop, isRest⟩ := pmmAlloc_concat shape
    rw [pmmGetFreePages, pmmGetFreePages, pmmFree_stack, if_neg taken, isTop, isRest, ← shape,
      take_of_length_le pmm.bounded]

/-- The frame is gone, whether the directory is loaded or a fault stops the call. -/
theorem KeepsFrame.readDirectory (keeps : KeepsFrame disk sb stale inode pmm) :
    pmmGetFreePages (finalState (readDirectory disk sb stale .new inode) pmm) <
      pmmGetFreePages pmm := by
  have ends : finalState (XKern.readDirectory disk sb stale .new inode) pmm =
      (pmmAlloc pmm).2 := by
    have behind := readDirectory_of_nonempty disk sb stale .new keeps.isDir
      keeps.nonempty pmm
    change _ = (if (pmmAlloc pmm).1 = 0 then _ else _ : EStateM Ext3Fault Pmm _)
      (pmmAlloc pmm).2 at behind
    by_cases noFrame : (pmmAlloc pmm).1 = 0
    · rw [if_pos noFrame] at behind
      exact finalState_of_ok behind
    · have notFails := keeps.notFreed.resolve_left noFrame
      rw [if_neg noFrame] at behind
      by_cases loads : DirectoryLoads disk sb stale inode
      · rw [fillDirectory_of_loads loads keeps.nonempty] at behind
        cases counted : countEntries (directoryBytes disk sb stale inode) inode.size
            (inode.size.toNat + 1) 0 0 with
        | ok total =>
          rw [counted] at behind
          exact finalState_of_ok behind
        | error fault =>
          rw [counted] at behind
          exact finalState_of_error behind
      · obtain ⟨fault, faults⟩ := fillDirectory_faults keeps.nonempty notFails loads
          (pmmAlloc pmm).1 (pmmAlloc pmm).2
        exact finalState_of_error (behind.trans faults)
  rw [ends]
  exact pmmGetFreePages_pmmAlloc keeps.hasFrame

theorem readDirectory_of_not_keeps (notKeeps : ¬ KeepsFrame disk sb stale inode pmm) :
    ∃ result after, readDirectory disk sb stale .new inode pmm = .ok result after ∧
      pmmGetFreePages after = pmmGetFreePages pmm ∧
      ∀ loaded, result = some loaded → loaded.data = none := by
  by_cases notDir : inode.isDir = false
  · exact ⟨_, _, readDirectory_of_not_isDir notDir, rfl, fun _ isLoaded => by cases isLoaded⟩
  have isDir : inode.isDir = true := by simpa using notDir
  by_cases isEmpty : inode.size = 0
  · exact ⟨_, _, readDirectory_of_empty isDir isEmpty, rfl,
      fun _ isLoaded => by cases isLoaded; rfl⟩
  have behind := readDirectory_of_nonempty disk sb stale .new isDir isEmpty pmm
  change _ = (if (pmmAlloc pmm).1 = 0 then _ else _ : EStateM Ext3Fault Pmm _)
    (pmmAlloc pmm).2 at behind
  by_cases noFrame : pmm.stack = []
  · rw [pmmAlloc_nil noFrame] at behind
    exact ⟨_, _, behind, rfl, fun _ isLoaded => by cases isLoaded⟩
  have freed : ¬ ((pmmAlloc pmm).1 = 0 ∨ ¬ DirectoryFails disk sb stale inode) :=
    fun notFreed => notKeeps ⟨isDir, isEmpty, noFrame, notFreed⟩
  obtain ⟨taken, fails⟩ := not_or.mp freed
  rw [if_neg taken, fillDirectory_of_fails (not_not.mp fails)] at behind
  exact ⟨_, _, behind, pmmGetFreePages_pmmFree_pmmAlloc taken, fun _ isLoaded => by cases isLoaded⟩

theorem readDirectory_frames (disk : Disk) (sb : Superblock) (stale : U32 → Nat → U8)
    (inode : Inode) (bound : Nat) :
    Ends (fun pmm => pmmGetFreePages pmm ≤ bound) (readDirectory disk sb stale Directory.new inode)
      (fun pmm => pmmGetFreePages pmm ≤ bound) := by
  refine Triple.of_final fun pmm start => ?_
  by_cases keeps : KeepsFrame disk sb stale inode pmm
  · exact (le_of_lt keeps.readDirectory).trans start
  · obtain ⟨result, after, returned, same, -⟩ := readDirectory_of_not_keeps keeps
    rw [finalState_of_ok returned, same]
    exact start

end Frames

/-! ## Frames of the path operations -/

section Paths

variable {fs : FileSystem} {stale : U32 → Nat → U8}

variable {Result : Type} {ino : U32}

theorem withDirectory_frames (ino : U32) (ask : Directory → Except Ext3Fault (Option Result))
    (bound : Nat) :
    Ends (fun pmm => pmmGetFreePages pmm ≤ bound) (withDirectory fs stale ino ask)
      (fun pmm => pmmGetFreePages pmm ≤ bound) := by
  refine Triple.bind (Triple.lift _) fun inode => ?_
  cases inode with
  | none => exact Triple.skip _
  | some dirInode =>
    refine Triple.ite (fun _ => Triple.skip _) fun _ => ?_
    refine Triple.bind (readDirectory_frames _ _ _ _ _) fun dir => ?_
    cases dir with
    | none => exact Triple.skip _
    | some dir => exact Triple.lift _

theorem resolveLoop_frames (fuel : Nat) (p : List U8) (ino : U32) (bound : Nat) :
    Ends (fun pmm => pmmGetFreePages pmm ≤ bound) (resolveLoop fs stale fuel p ino)
      (fun pmm => pmmGetFreePages pmm ≤ bound) := by
  induction fuel generalizing p ino with
  | zero => exact .throw fun _ holds => holds
  | succ fuel ih =>
    rw [resolveLoop]
    refine .ite (fun _ => .skip _) fun _ => ?_
    refine .ite (fun _ => .skip _) fun _ => ?_
    refine .bind (withDirectory_frames _ _ _) fun child => ?_
    cases child with
    | none => exact .skip _
    | some childIno => exact ih _ _

/-- The directory with this inode number takes a frame for good. -/
def DirectoryKeeps (fs : FileSystem) (stale : U32 → Nat → U8) (ino : U32) (pmm : Pmm) : Prop :=
  ∃ inode, fs.readInode stale ino = .ok (some inode) ∧
    KeepsFrame fs.disk fs.sb stale inode pmm

theorem DirectoryKeeps.withDirectory (keeps : DirectoryKeeps fs stale ino pmm)
    (ask : Directory → Except Ext3Fault (Option Result)) :
    pmmGetFreePages (finalState (withDirectory fs stale ino ask) pmm) < pmmGetFreePages pmm := by
  obtain ⟨inode, isInode, keepsFrame⟩ := keeps
  have isDir : ¬ inode.isDir = false := by
    rw [keepsFrame.isDir]
    decide
  have taken : Ends (fun state => state = pmm) (readDirectory fs.disk fs.sb stale .new inode)
      (fun state => pmmGetFreePages state < pmmGetFreePages pmm) := by
    refine .of_final fun state start => ?_
    rw [start]
    exact keepsFrame.readDirectory
  rw [XKern.withDirectory, isInode, lift_ok_bind]
  dsimp only
  rw [if_neg isDir]
  refine Triple.final (Triple.bind taken fun dir => ?_) rfl
  cases dir with
  | none => exact Triple.skip _
  | some dir => exact .lift _

theorem DirectoryKeeps.frames (keeps : DirectoryKeeps fs stale ino pmm)
    (ask : Directory → Except Ext3Fault (Option Result)) :
    Ends (fun state => state = pmm) (XKern.withDirectory fs stale ino ask)
      (fun state => pmmGetFreePages state ≤ pmmGetFreePages pmm - 1) := by
  refine .of_final fun state start => ?_
  rw [start]
  exact Nat.le_sub_one_of_lt (keeps.withDirectory ask)

theorem withDirectory_of_not_keeps (notKeeps : ¬ DirectoryKeeps fs stale ino pmm)
    {ask : Directory → Except Ext3Fault (Option Result)}
    (unread : ∀ dir, dir.data = none → ask dir = .ok none) :
    (∃ fault, withDirectory fs stale ino ask pmm = .error fault pmm) ∨
      ∃ after, withDirectory fs stale ino ask pmm = .ok none after ∧
        pmmGetFreePages after = pmmGetFreePages pmm := by
  rw [withDirectory]
  cases isInode : fs.readInode stale ino with
  | error fault => exact Or.inl ⟨fault, rfl⟩
  | ok result =>
    right
    cases result with
    | none => exact ⟨pmm, rfl, rfl⟩
    | some inode =>
      obtain ⟨result, after, returned, same, notLoaded⟩ :=
        readDirectory_of_not_keeps fun keeps => notKeeps ⟨inode, isInode, keeps⟩
      rw [lift_ok_bind]
      dsimp only
      split
      · exact ⟨pmm, rfl, rfl⟩
      · rw [bind_of_ok returned]
        cases result with
        | none => exact ⟨after, rfl, same⟩
        | some dir =>
          dsimp only
          rw [unread dir (notLoaded dir rfl)]
          exact ⟨after, rfl, same⟩

/-- The path is absolute, and its first component has a number of bytes as given. -/
def FirstSegment (path : Option (List U8)) (bytes : U32 → Prop) : Prop :=
  ∃ text, path = some text ∧ text.head? = some slash ∧ bytes (segLen (skipSlashes text))

/-- The first segment is looked up in the root. -/
def EntersRoot (path : Option (List U8)) : Prop :=
  FirstSegment path fun bytes => bytes ≠ 0 ∧ bytes < 256

theorem lookup_unread (name : List U8) (dir : Directory) (unread : dir.data = none) :
    dir.lookup name = .ok none := by
  rw [Directory.lookup, unread]

theorem getEntry_unread (index : U32) (dir : Directory) (unread : dir.data = none) :
    dir.getEntry index = .ok none := by
  rw [Directory.getEntry, unread]

theorem atEnd_iff (p : List U8) : p = [] ∨ segLen p = 0 ↔ segLen p = 0 :=
  or_iff_right_of_imp fun isEmpty => by rw [isEmpty]; rfl

variable {text : List U8} {pre invariant : Pmm → Prop}

theorem resolvePath_of_relative (relative : text.head? ≠ some slash) :
    resolvePath fs stale (some text) = pure none := by
  rw [resolvePath, if_pos relative]

theorem resolvePath_of_absolute (isAbsolute : text.head? = some slash) :
    resolvePath fs stale (some text) =
      resolveLoop fs stale (text.length + 1) (skipSlashes text) ext3RootIno := by
  rw [resolvePath, if_neg (not_not.mpr isAbsolute)]

theorem resolvePath_of_enters (isAbsolute : text.head? = some slash)
    (nonempty : segLen (skipSlashes text) ≠ 0) (short : segLen (skipSlashes text) < 256) :
    resolvePath fs stale (some text) = (do
        let name := (pathComponent (skipSlashes text)).take (segLen (skipSlashes text)).toNat
        match ← withDirectory fs stale ext3RootIno fun dir => dir.lookup name with
        | none => return none
        | some childIno =>
          resolveLoop fs stale text.length (nextComponent (skipSlashes text)) childIno) := by
  rw [resolvePath_of_absolute isAbsolute, resolveLoop, if_neg ((atEnd_iff _).not.mpr nonempty),
    if_neg (BitVec.not_le.mpr short)]

/-- A path that leads into a root directory that takes a frame leaves with fewer frames. -/
theorem resolvePath_keeps {path : Option (List U8)} (enters : EntersRoot path)
    (keeps : DirectoryKeeps fs stale ext3RootIno pmm) :
    Ends (fun state => state = pmm) (resolvePath fs stale path)
      (fun state => pmmGetFreePages state ≤ pmmGetFreePages pmm - 1) := by
  obtain ⟨text, rfl, isAbsolute, nonempty, short⟩ := enters
  rw [resolvePath_of_enters isAbsolute nonempty short]
  refine Triple.bind (keeps.frames _) fun child => ?_
  cases child with
  | none => exact Triple.skip _
  | some childIno => exact resolveLoop_frames _ _ _ _

theorem resolvePath_of_not_keeps {path : Option (List U8)}
    (notKeeps : ¬ (EntersRoot path ∧ DirectoryKeeps fs stale ext3RootIno pmm)) :
    (∃ fault, resolvePath fs stale path pmm = .error fault pmm) ∨
      (∃ after, resolvePath fs stale path pmm = .ok none after ∧
        pmmGetFreePages after = pmmGetFreePages pmm) ∨
      (FirstSegment path (· = 0) ∧ resolvePath fs stale path pmm = .ok (some ext3RootIno) pmm) := by
  cases path with
  | none => exact .inr (.inl ⟨pmm, rfl, rfl⟩)
  | some text =>
    by_cases isAbsolute : text.head? = some slash
    · by_cases isRoot : segLen (skipSlashes text) = 0
      · refine .inr (.inr ⟨⟨text, rfl, isAbsolute, isRoot⟩, ?_⟩)
        rw [resolvePath_of_absolute isAbsolute, resolveLoop, if_pos (.inr isRoot)]
        rfl
      · by_cases short : segLen (skipSlashes text) < 256
        · rw [resolvePath_of_enters isAbsolute isRoot short]
          have notRootKeeps : ¬ DirectoryKeeps fs stale ext3RootIno pmm :=
            fun keeps => notKeeps ⟨⟨text, rfl, isAbsolute, isRoot, short⟩, keeps⟩
          obtain ⟨fault, faults⟩ | ⟨after, returned, same⟩ :=
            withDirectory_of_not_keeps notRootKeeps (lookup_unread
              ((pathComponent (skipSlashes text)).take (segLen (skipSlashes text)).toNat))
          · exact .inl ⟨fault, bind_of_error faults⟩
          · exact .inr (.inl ⟨after, bind_of_ok returned, same⟩)
        · refine .inr (.inl ⟨pmm, ?_, rfl⟩)
          rw [resolvePath_of_absolute isAbsolute, resolveLoop,
            if_neg ((atEnd_iff _).not.mpr isRoot), if_pos (BitVec.not_lt.mp short)]
          rfl
    · refine .inr (.inl ⟨pmm, ?_, rfl⟩)
      rw [resolvePath_of_relative isAbsolute]
      rfl

theorem resolvePath_free_of_not_keeps {path : Option (List U8)}
    (notKeeps : ¬ (EntersRoot path ∧ DirectoryKeeps fs stale ext3RootIno pmm)) :
    pmmGetFreePages (finalState (resolvePath fs stale path) pmm) = pmmGetFreePages pmm := by
  obtain ⟨fault, faults⟩ | ⟨after, returned, same⟩ | ⟨-, returned⟩ :=
    resolvePath_of_not_keeps notKeeps
  · rw [finalState_of_error faults]
  · rw [finalState_of_ok returned, same]
  · rw [finalState_of_ok returned]

theorem openFile_triple {path : Option (List U8)}
    (resolves : Ends pre (resolvePath fs stale path) invariant) :
    Ends pre (openFile fs stale path) invariant := by
  refine Triple.bind resolves fun ino => ?_
  cases ino with
  | none => exact Triple.skip _
  | some ino =>
    dsimp only
    split
    · exact Triple.skip _
    · refine Triple.bind (Triple.lift _) fun inode => ?_
      cases inode with
      | none => exact Triple.skip _
      | some inode => exact Triple.skip _

theorem statFile_triple {path : Option (List U8)}
    (resolves : Ends pre (resolvePath fs stale path) invariant) :
    Ends pre (statFile fs stale path true) invariant := by
  refine Triple.bind resolves fun ino => ?_
  cases ino with
  | none => exact .skip _
  | some ino =>
    refine .bind (.lift _) fun inode => ?_
    cases inode with
    | none => exact .skip _
    | some inode => exact .skip _

theorem listEntry_triple {index namelen : U32}
    (asks : Ends pre (withDirectory fs stale ino fun dir => dir.getEntry index) invariant) :
    Ends pre (listEntry fs stale ino index namelen) invariant := by
  refine .bind asks fun entry => ?_
  cases entry with
  | none => exact .skip _
  | some entry =>
    exact .ite (fun _ => .throw fun _ holds => holds)
      fun _ => .skip _

end Paths

/-! ## Leaks -/

/-- The call leaves as many free pages as before. -/
def KeepsFreePages {Result : Type} (call : EStateM Ext3Fault Pmm Result) (pmm : Pmm) : Prop :=
  pmmGetFreePages (finalState call pmm) = pmmGetFreePages pmm

section Leaks

variable {fs : FileSystem} {stale : U32 → Nat → U8} {path : Option (List U8)} {Result : Type}
  {ino : U32}

theorem DirectoryKeeps.hasFrame (keeps : DirectoryKeeps fs stale ino pmm) :
    0 < pmmGetFreePages pmm := by
  obtain ⟨inode, -, keepsFrame⟩ := keeps
  exact length_pos_iff.mpr keepsFrame.hasFrame

theorem keepsFreePages_iff {call : EStateM Ext3Fault Pmm Result}
    (resolves : ∀ pre invariant : Pmm → Prop,
      Ends pre (resolvePath fs stale path) invariant →
        Ends pre call invariant) :
    KeepsFreePages call pmm ↔ ¬ (EntersRoot path ∧ DirectoryKeeps fs stale ext3RootIno pmm) := by
  constructor
  · rintro same ⟨enters, keeps⟩
    have fewer := Triple.final (resolves _ _ (resolvePath_keeps enters keeps)) rfl
    have hasFrame := keeps.hasFrame
    rw [KeepsFreePages] at same
    omega
  · intro notKeeps
    have unchanged : Ends (fun state => state = pmm) (resolvePath fs stale path)
      (fun state => pmmGetFreePages state = pmmGetFreePages pmm) := by
      refine .of_final fun state start => ?_
      rw [start]
      exact resolvePath_free_of_not_keeps notKeeps
    exact Triple.final (resolves _ _ unchanged) rfl

/-- The first segment is reached. -/
def ReachesRoot (path : Option (List U8)) : Prop :=
  FirstSegment path (· < 256)

theorem EntersRoot.reachesRoot (enters : EntersRoot path) : ReachesRoot path := by
  obtain ⟨text, isText, isAbsolute, -, short⟩ := enters
  exact ⟨text, isText, isAbsolute, short⟩

theorem listEntry_frames (ino index namelen : U32) (bound : Nat) :
    Ends (fun state => pmmGetFreePages state ≤ bound) (listEntry fs stale ino index namelen)
      (fun state => pmmGetFreePages state ≤ bound) :=
  listEntry_triple (withDirectory_frames _ _ _)

theorem getdents_keeps (reaches : ReachesRoot path)
    (keeps : DirectoryKeeps fs stale ext3RootIno pmm) (index namelen : U32) :
    Ends (fun state => state = pmm) (getdents fs stale path index true namelen)
      (fun state => pmmGetFreePages state ≤ pmmGetFreePages pmm - 1) := by
  obtain ⟨text, rfl, isAbsolute, short⟩ := reaches
  by_cases isRoot : segLen (skipSlashes text) = 0
  · have resolved : resolvePath fs stale (some text) = pure (some ext3RootIno) := by
      rw [resolvePath_of_absolute isAbsolute, resolveLoop, if_pos (Or.inr isRoot)]
    rw [getdents, resolved]
    exact listEntry_triple (keeps.frames _)
  · refine Triple.bind (resolvePath_keeps ⟨text, rfl, isAbsolute, isRoot, short⟩ keeps)
      fun ino => ?_
    cases ino with
    | none => exact Triple.skip _
    | some ino => exact listEntry_frames _ _ _ _

theorem getdents_of_not_keeps
    (notKeeps : ¬ (ReachesRoot path ∧ DirectoryKeeps fs stale ext3RootIno pmm))
    (index namelen : U32) :
    KeepsFreePages (getdents fs stale path index true namelen) pmm := by
  have notEnters : ¬ (EntersRoot path ∧ DirectoryKeeps fs stale ext3RootIno pmm) :=
    fun both => notKeeps ⟨both.1.reachesRoot, both.2⟩
  change pmmGetFreePages (finalState (resolvePath fs stale path >>= _) pmm) = _
  obtain ⟨fault, faults⟩ | ⟨after, returned, same⟩ | ⟨isRoot, returned⟩ :=
    resolvePath_of_not_keeps notEnters
  · rw [finalState_of_error (bind_of_error faults)]
  · rw [finalState_bind_of_ok returned]
    exact same
  · obtain ⟨text, isText, isAbsolute, zero⟩ := isRoot
    have notRootKeeps : ¬ DirectoryKeeps fs stale ext3RootIno pmm := by
      refine fun keeps => notKeeps ⟨⟨text, isText, isAbsolute, ?_⟩, keeps⟩
      dsimp only at zero ⊢
      rw [zero]
      decide
    rw [finalState_bind_of_ok returned]
    change pmmGetFreePages (finalState (withDirectory fs stale ext3RootIno _ >>= _) pmm) = _
    obtain ⟨fault, faults⟩ | ⟨after, returned, same⟩ :=
      withDirectory_of_not_keeps notRootKeeps (getEntry_unread index)
    · rw [finalState_of_error (bind_of_error faults)]
    · rw [finalState_bind_of_ok returned]
      exact same

/-- When `open`, `stat` and `getdents` leave the free frames as they were. -/
theorem pathOperations_keepFreePages_iff (fs : FileSystem) (stale : U32 → Nat → U8)
    (path : Option (List U8)) (hasStat : Bool) (index : U32) (hasName : Bool) (namelen : U32)
    (pmm : Pmm) :
    (KeepsFreePages (openFile fs stale path) pmm ↔
      ¬ (EntersRoot path ∧ DirectoryKeeps fs stale ext3RootIno pmm)) ∧
    (KeepsFreePages (statFile fs stale path hasStat) pmm ↔
      hasStat = false ∨ ¬ (EntersRoot path ∧ DirectoryKeeps fs stale ext3RootIno pmm)) ∧
    (KeepsFreePages (getdents fs stale path index hasName namelen) pmm ↔
      hasName = false ∨ ¬ (ReachesRoot path ∧ DirectoryKeeps fs stale ext3RootIno pmm)) := by
  refine ⟨keepsFreePages_iff fun _ _ => openFile_triple, ?_, ?_⟩
  · cases hasStat with
    | false => exact iff_of_true rfl (Or.inl rfl)
    | true =>
      rw [keepsFreePages_iff fun _ _ => statFile_triple]
      simp only [Bool.true_eq_false, false_or]
  · cases hasName with
    | false => exact iff_of_true rfl (.inl rfl)
    | true =>
      simp only [Bool.true_eq_false, false_or]
      refine ⟨?_, fun notKeeps => getdents_of_not_keeps notKeeps index namelen⟩
      rintro same ⟨reaches, keeps⟩
      have fewer := Triple.final (getdents_keeps reaches keeps index namelen) rfl
      have hasFrame := keeps.hasFrame
      rw [KeepsFreePages] at same
      omega

/-- A disk whose only file is the root directory, 1024 bytes of a hole. -/
def holeImage (i : Nat) : U8 :=
  if i = 5249 then 0x41 else if i = 5253 then 0x04 else 0

/-- The file system on it: the table of inodes is block 5. -/
def holeFileSystem : FileSystem where
  sb := plainSuperblock
  bgt := ⟨some fun _ => ⟨5⟩, 1⟩
  disk := imageDisk holeImage 16
  files := fun _ => ⟨0, ⟨[], 0⟩, 0, false⟩

/-- The result of a call of `open` that returns, and the free frames then. -/
def openOutcome (fs : FileSystem) (path : List U8) (pmm : Pmm) : Option (Int × Nat) :=
  match openFile fs (fun _ _ => 0) (some path) pmm with
  | .ok (result, _) after => some (result, pmmGetFreePages after)
  | .error _ _ => none

/-- `open("/a")` does not find the file, and the last frame is gone. -/
theorem holeFileSystem_open_leaks :
    openOutcome holeFileSystem [slash, 0x61] oneFrame = some (-1, 0) ∧
      ¬ KeepsFreePages (openFile holeFileSystem (fun _ _ => 0) (some [slash, 0x61])) oneFrame := by
  refine ⟨by decide +kernel, ?_⟩
  rw [KeepsFreePages]
  decide +kernel

end Leaks

end XKern
