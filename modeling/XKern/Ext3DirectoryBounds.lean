import XKern.Ext3Directory
import XKern.LowBits

namespace XKern

open Slices FaultTriple BitVec

/-!
# Directories in their frame

A directory gets one frame, whatever its size.  It is loaded without a fault when it
has at most 4096 bytes and its entries lie in them; when a block cannot be read, the
frame is given back.
-/

section Filling

variable (disk : Disk) (sb : Superblock) (stale : U32 → Nat → U8) (inode : Inode)

/-- The size that is cleared, rounded up in 32 bits, is at most a frame. -/
def FrameSized (size : U32) : Prop :=
  size.toNat ≤ 4096 ∨ 2 ^ 32 - 4096 < size.toNat

/-- `read_data` fails, and before it has stored anything outside of the frame. -/
structure DirectoryFails : Prop where
  frameSized : FrameSized inode.size
  blockSize : 0 < sb.blockSize.toNat
  fails : FailsWithin disk sb.blockSize stale inode (min inode.size.toNat 4097)

/-- The directory has a frame's size at most and can be read. -/
structure DirectoryLoads : Prop where
  size : inode.size.toNat ≤ 4096
  blockSize : 0 < sb.blockSize.toNat
  loads : LoadsWithin disk sb.blockSize stale inode inode.size.toNat

def directoryBytes : List U8 :=
  slice (loadedByte disk sb.blockSize stale inode) 0 inode.size.toNat

end Filling

section Outcomes

variable {disk : Disk} {sb : Superblock} {stale : U32 → Nat → U8} {inode : Inode}

theorem frameSized_iff (size : U32) :
    ¬ pageSize.toNat < ((size + 4095) &&& ~~~4095).toNat ↔ FrameSized size := by
  have bounded := size.isLt
  have floor : ((size + 4095) &&& ~~~4095).toNat =
      (size + 4095).toNat - (size + 4095).toNat % 4096 :=
    LowBits.toNat_and_not_mask (by decide : 12 ≤ 32) (size + 4095)
  rw [floor, toNat_add, toNat_pageSize, FrameSized, show (4095 : U32).toNat = 4095 from rfl]
  omega

theorem fillDirectory_of_fails (fails : DirectoryFails disk sb stale inode) (addr : U64)
    (pmm : Pmm) :
    fillDirectory disk sb stale inode addr pmm = .ok none (pmmFree pmm addr) := by
  have inFrame : FailsWithin disk sb.blockSize stale inode
      (min inode.size.toNat (pageSize.toNat + 1)) := fails.fails
  obtain ⟨out, failed⟩ := loadData_of_fails fails.blockSize inFrame
  rw [fillDirectory]
  dsimp only
  rw [if_neg ((frameSized_iff _).mpr fails.frameSized), failed]
  rfl

theorem fillDirectory_of_loads (loads : DirectoryLoads disk sb stale inode)
    (nonempty : inode.size ≠ 0) (addr : U64) :
    fillDirectory disk sb stale inode addr = (do
        let count ← lift (countEntries (directoryBytes disk sb stale inode) inode.size
          (inode.size.toNat + 1) 0 0)
        return some ⟨some ⟨addr, directoryBytes disk sb stale inode⟩, inode.size, count⟩) := by
  have positive := toNat_pos nonempty
  have small := loads.size
  have read := loadData_of_loads loads.blockSize positive
    (by rw [toNat_pageSize]; exact small : inode.size.toNat ≤ pageSize.toNat) loads.loads
  have value : inode.size.toInt = inode.size.toNat := toInt_eq_toNat_of_lt (by omega)
  rw [fillDirectory]
  dsimp only
  rw [if_neg ((frameSized_iff _).mpr (.inl small)), read]
  change (if inode.size.toInt ≤ 0 then _ else _) = _
  rw [if_neg (by omega), ofInt_toInt]
  rfl

theorem loadData_faults (nonempty : inode.size ≠ 0) (frameSized : FrameSized inode.size)
    (notFails : ¬ DirectoryFails disk sb stale inode)
    (notLoads : ¬ DirectoryLoads disk sb stale inode) :
    ∃ fault, loadData disk sb.blockSize stale inode pageSize.toNat 0 inode.size = .error fault := by
  by_cases zero : sb.blockSize = 0
  · exact ⟨_, loadData_of_zero zero nonempty _⟩
  · have positive := toNat_pos zero
    obtain loads | fails | ⟨k, fault, within, loads, faults⟩ :=
      loads_or_stops disk sb.blockSize stale inode (min inode.size.toNat 4097)
    · have large : 4096 < inode.size.toNat := by
        by_contra small
        rw [min_eq_left (by omega)] at loads
        exact notLoads ⟨not_lt.mp small, positive, loads⟩
      rw [min_eq_right (by omega)] at loads
      exact ⟨_, loadData_of_large positive large loads⟩
    · exact absurd ⟨frameSized, positive, fails⟩ notFails
    · exact ⟨fault, loadData_of_fault positive loads within faults⟩

theorem fillDirectory_faults (nonempty : inode.size ≠ 0)
    (notFails : ¬ DirectoryFails disk sb stale inode)
    (notLoads : ¬ DirectoryLoads disk sb stale inode) (addr : U64) (pmm : Pmm) :
    ∃ fault, fillDirectory disk sb stale inode addr pmm = .error fault pmm := by
  rw [fillDirectory]
  dsimp only
  by_cases frameSized : FrameSized inode.size
  · rw [if_neg ((frameSized_iff _).mpr frameSized)]
    obtain ⟨fault, faults⟩ := loadData_faults nonempty frameSized notFails notLoads
    rw [faults]
    exact ⟨fault, rfl⟩
  · rw [if_pos (not_not.mp fun fits => frameSized ((frameSized_iff _).mp fits))]
    exact ⟨_, rfl⟩

end Outcomes

/-! ## Loads and stores in bounds -/

/--
Reading the directory makes no store outside of the frame and no load outside of the
bytes that were read, and ends; so do the lookups in the directory that was read.
-/
structure DirectoryInBounds
    (disk : Disk)
    (sb : Superblock)
    (stale : U32 → Nat → U8)
    (dir : Directory)
    (inode : Inode)
    (pmm : Pmm) : Prop where
  read : ∀ fault after, readDirectory disk sb stale dir inode pmm ≠ .error fault after
  lookup : ∀ loaded after,
    readDirectory disk sb stale dir inode pmm = .ok (some loaded) after →
      ∀ name fault, loaded.lookup name ≠ .error fault
  getEntry : ∀ loaded after,
    readDirectory disk sb stale dir inode pmm = .ok (some loaded) after →
      ∀ index fault, loaded.getEntry index ≠ .error fault

section Bounds

variable {disk : Disk} {sb : Superblock} {stale : U32 → Nat → U8} {dir : Directory}
  {inode : Inode} {pmm : Pmm}

theorem directoryInBounds_of_unread {result : Option Directory} {after : Pmm}
    (returned : readDirectory disk sb stale dir inode pmm = .ok result after)
    (unread : ∀ loaded, result = some loaded → loaded.data = none) :
    DirectoryInBounds disk sb stale dir inode pmm := by
  refine ⟨fun fault final faults => ?_, fun loaded final isLoaded name fault faults => ?_,
    fun loaded final isLoaded index fault faults => ?_⟩
  · rw [returned] at faults
    cases faults
  · rw [returned] at isLoaded
    cases isLoaded
    rw [Directory.lookup, unread loaded rfl] at faults
    cases faults
  · rw [returned] at isLoaded
    cases isLoaded
    rw [Directory.getEntry, unread loaded rfl] at faults
    cases faults

theorem readDirectory_of_not_isDir (notDir : inode.isDir = false) :
    readDirectory disk sb stale dir inode pmm = .ok none (dir.free pmm) := by
  change (if inode.isDir = false then _ else _ : EStateM Ext3Fault Pmm _) (dir.free pmm) = _
  rw [if_pos notDir]
  rfl

theorem readDirectory_of_empty (isDir : inode.isDir = true) (isEmpty : inode.size = 0) :
    readDirectory disk sb stale dir inode pmm = .ok (some .new) (dir.free pmm) := by
  change (if inode.isDir = false then _ else _ : EStateM Ext3Fault Pmm _) (dir.free pmm) = _
  rw [if_neg (by rw [isDir]; decide), if_pos isEmpty]
  rfl

theorem readDirectory_of_nonempty (disk : Disk) (sb : Superblock) (stale : U32 → Nat → U8)
    (dir : Directory) (isDir : inode.isDir = true) (nonempty : inode.size ≠ 0) (pmm : Pmm) :
    readDirectory disk sb stale dir inode pmm = (if (pmmAlloc (dir.free pmm)).1 = 0 then return none
        else fillDirectory disk sb stale inode (pmmAlloc (dir.free pmm)).1 :
          EStateM Ext3Fault Pmm (Option Directory)) (pmmAlloc (dir.free pmm)).2 := by
  change (if inode.isDir = false then _ else _ : EStateM Ext3Fault Pmm _) (dir.free pmm) = _
  rw [if_neg (by rw [isDir]; decide), if_neg nonempty]
  rfl

theorem readDirectory_of_loads (isDir : inode.isDir = true) (nonempty : inode.size ≠ 0)
    (hasFrame : (pmmAlloc (dir.free pmm)).1 ≠ 0) (loads : DirectoryLoads disk sb stale inode) :
    readDirectory disk sb stale dir inode pmm = (do
        let count ← lift (countEntries (directoryBytes disk sb stale inode) inode.size
          (inode.size.toNat + 1) 0 0)
        return some ⟨some ⟨(pmmAlloc (dir.free pmm)).1, directoryBytes disk sb stale inode⟩,
          inode.size, count⟩ : EStateM Ext3Fault Pmm (Option Directory))
        (pmmAlloc (dir.free pmm)).2 := by
  rw [readDirectory_of_nonempty _ _ _ _ isDir nonempty, if_neg hasFrame,
    fillDirectory_of_loads loads nonempty]

theorem length_directoryBytes (disk : Disk) (sb : Superblock) (stale : U32 → Nat → U8)
    (inode : Inode) :
    inode.size.toNat = (directoryBytes disk sb stale inode).length :=
  (length_slice _ _ _).symm

theorem DirectoryLoads.length_le (loads : DirectoryLoads disk sb stale inode) :
    (directoryBytes disk sb stale inode).length ≤ 4096 :=
  (length_directoryBytes disk sb stale inode).symm.trans_le loads.size

theorem DirectoryLoads.inBounds (loads : DirectoryLoads disk sb stale inode)
    (isDir : inode.isDir = true) (nonempty : inode.size ≠ 0)
    (hasFrame : (pmmAlloc (dir.free pmm)).1 ≠ 0)
    (fits : EntriesFit (directoryBytes disk sb stale inode)) :
    DirectoryInBounds disk sb stale dir inode pmm := by
  have sized := length_directoryBytes disk sb stale inode
  have small := loads.length_le
  have enough : (directoryBytes disk sb stale inode).length - (0 : U32).toNat <
      inode.size.toNat + 1 := by
    rw [← sized]
    exact Nat.lt_succ_of_le (Nat.sub_le _ _)
  obtain ⟨total, counted⟩ := countEntries_ok sized small enough
    (fun place reached inData => (fits place reached inData).header) 0
  have returned := readDirectory_of_loads isDir nonempty hasFrame loads
  rw [counted] at returned
  refine ⟨fun fault final faults => ?_, fun loaded final isLoaded name fault faults => ?_,
    fun loaded final isLoaded index fault faults => ?_⟩
  · cases returned.symm.trans faults
  · cases returned.symm.trans isLoaded
    obtain ⟨found, isFound⟩ := lookupLoop_ok sized small name enough fits
    cases isFound.symm.trans faults
  · cases returned.symm.trans isLoaded
    obtain ⟨found, isFound⟩ := getEntryLoop_ok sized small index enough fits 0
    cases isFound.symm.trans faults

theorem DirectoryInBounds.entriesFit (inBounds : DirectoryInBounds disk sb stale dir inode pmm)
    (isDir : inode.isDir = true) (nonempty : inode.size ≠ 0)
    (hasFrame : (pmmAlloc (dir.free pmm)).1 ≠ 0) (loads : DirectoryLoads disk sb stale inode) :
    EntriesFit (directoryBytes disk sb stale inode) := by
  have sized := length_directoryBytes disk sb stale inode
  have small := loads.length_le
  have returned := readDirectory_of_loads isDir nonempty hasFrame loads
  cases counted : countEntries (directoryBytes disk sb stale inode) inode.size
      (inode.size.toNat + 1) 0 0 with
  | error fault =>
    rw [counted] at returned
    exact absurd returned (inBounds.read fault _)
  | ok total =>
    rw [counted] at returned
    have headers (place : Nat) (reached : IsEntry (directoryBytes disk sb stale inode) place)
        (inData : place < (directoryBytes disk sb stale inode).length) :
        place + 6 ≤ (directoryBytes disk sb stale inode).length :=
      headers_of_countEntries sized small counted reached inData
    have asked (index : U32) : ∃ found,
        getEntryLoop (directoryBytes disk sb stale inode) inode.size index
          (inode.size.toNat + 1) 0 0 = .ok found := by
      cases answer : getEntryLoop (directoryBytes disk sb stale inode) inode.size index
          (inode.size.toNat + 1) 0 0 with
      | ok found => exact ⟨found, rfl⟩
      | error fault => exact absurd answer (inBounds.getEntry _ _ returned index fault)
    have few : (0 : U32).toNat ≤ (0 : U32).toNat := le_refl _
    intro place reached inData
    exact ⟨headers place reached inData,
      nameFits_of_getEntryLoop sized small few headers (fun index _ => asked index) reached inData⟩

/-- When directories are handled in bounds. -/
theorem directoryInBounds_iff (disk : Disk) (sb : Superblock) (stale : U32 → Nat → U8)
    (dir : Directory) (inode : Inode) (pmm : Pmm) :
    DirectoryInBounds disk sb stale dir inode pmm ↔
      inode.isDir = false ∨ inode.size = 0 ∨ (pmmAlloc (dir.free pmm)).1 = 0 ∨
        DirectoryFails disk sb stale inode ∨
        (DirectoryLoads disk sb stale inode ∧
          EntriesFit (directoryBytes disk sb stale inode)) := by
  by_cases notDir : inode.isDir = false
  · exact iff_of_true (directoryInBounds_of_unread (readDirectory_of_not_isDir notDir)
      fun loaded isLoaded => by cases isLoaded) (Or.inl notDir)
  have isDir : inode.isDir = true := by simpa using notDir
  by_cases isEmpty : inode.size = 0
  · exact iff_of_true (directoryInBounds_of_unread (readDirectory_of_empty isDir isEmpty)
      fun loaded isLoaded => by cases isLoaded; rfl) (Or.inr (Or.inl isEmpty))
  have behind := readDirectory_of_nonempty disk sb stale dir isDir isEmpty pmm
  by_cases noFrame : (pmmAlloc (dir.free pmm)).1 = 0
  · rw [if_pos noFrame] at behind
    exact iff_of_true (directoryInBounds_of_unread behind
      fun loaded isLoaded => by cases isLoaded) (Or.inr (Or.inr (Or.inl noFrame)))
  rw [if_neg noFrame] at behind
  by_cases fails : DirectoryFails disk sb stale inode
  · rw [fillDirectory_of_fails fails] at behind
    exact iff_of_true (directoryInBounds_of_unread behind
      fun loaded isLoaded => by cases isLoaded) (Or.inr (Or.inr (Or.inr (Or.inl fails))))
  by_cases loads : DirectoryLoads disk sb stale inode
  · simp only [isDir, Bool.true_eq_false, isEmpty, noFrame, fails, loads, false_or, true_and]
    exact ⟨fun inBounds => inBounds.entriesFit isDir isEmpty noFrame loads,
      fun fits => loads.inBounds isDir isEmpty noFrame fits⟩
  · obtain ⟨fault, faults⟩ := fillDirectory_faults isEmpty fails loads
      (pmmAlloc (dir.free pmm)).1 (pmmAlloc (dir.free pmm)).2
    simp only [isDir, Bool.true_eq_false, isEmpty, noFrame, fails, loads, false_or, false_and,
      iff_false]
    exact fun inBounds => inBounds.read fault _ (behind.trans faults)

/-- The inode of a directory of 8192 bytes, all of them a hole. -/
def largeDirectory : Inode where
  raw := [0xED, 0x41, 0, 0, 0, 0x20] ++ List.replicate 118 0
  number := 2

def plainSuperblock : Superblock where
  inodesCount := 16
  inodesPerGroup := 16
  revLevel := 0
  sInodeSize := 128
  featureIncompat := 0
  blockSize := 1024

def oneFrame : Pmm where
  stack := [0x1000]
  totalMemory := 0x100000
  bounded := oneFrame_bounded

/-- A directory of two pages is cleared beyond its frame. -/
theorem largeDirectory_overruns :
    (∃ after, readDirectory (imageDisk (fun _ => 0) 16) plainSuperblock (fun _ _ => 0)
      .new largeDirectory oneFrame = .error .dataBuffer after) ∧
    ¬ DirectoryInBounds (imageDisk (fun _ => 0) 16) plainSuperblock (fun _ _ => 0)
      .new largeDirectory oneFrame := by
  have faults : ∃ after, readDirectory (imageDisk (fun _ => 0) 16) plainSuperblock
      (fun _ _ => 0) .new largeDirectory oneFrame = .error .dataBuffer after := ⟨_, rfl⟩
  refine ⟨faults, fun inBounds => ?_⟩
  obtain ⟨after, isFault⟩ := faults
  exact inBounds.read _ _ isFault

end Bounds

end XKern
