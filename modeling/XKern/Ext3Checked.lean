import XKern.Ext3Data
import XKern.Ext3Transfer

namespace XKern

open Slices Stores BitVec Nat

/-!
# Reads of a file system with their faults

`Inode::read_from_disk` and `Inode::read_data` once more, for superblocks that are
not known to be sane: the divisions, the stores to the buffers of a block on the
stack and the stores to the caller's buffer are checked, and the first that goes
wrong is the result.  A buffer on the stack is not cleared: `stale` is what the
buffer holds before a block is read into it.
-/

/-- What can go wrong in a call. -/
inductive Ext3Fault
  | divideByZero
  /-- A store outside of a buffer of `EXT3_MAX_BLOCK_SIZE` bytes. -/
  | blockBuffer
  /-- A store outside of the buffer for the superblock. -/
  | superblockBuffer
  /-- A store outside of the frame for the group descriptors. -/
  | descriptorFrame
  /-- A store outside of the buffer for the bytes of a file. -/
  | dataBuffer
  /-- A store outside of the buffer for a name. -/
  | nameBuffer
  /-- A load outside of the bytes of a directory that were read. -/
  | directoryData
  /-- A loop that does not end. -/
  | endless
  deriving DecidableEq

/-- `EXT3_MAX_BLOCK_SIZE`. -/
def ext3MaxBlockSize : Nat := 65536

/-- `Disk::read_block` with a buffer on the stack; `none` is the result -1. -/
def Disk.loadBlock (disk : Disk) (blockSize : U32) (stale : U32 → Nat → U8)
    (blockNo : U32) : Except Ext3Fault (Option (Nat → U8)) :=
  match disk.transferBlock blockNo blockSize with
  | none => .error .divideByZero
  | some (isRead, stores) =>
      if Within ext3MaxBlockSize stores then
        .ok (if isRead then some (applyAll stores (stale blockNo)) else none)
      else
        .error .blockBuffer

/-- `Inode::read_from_disk`. -/
def loadInode (disk : Disk) (sb : Superblock) (bgt : BlockGroupDescriptorTable)
    (stale : U32 → Nat → U8)
    (inodeNo : U32) : Except Ext3Fault (Option Inode) :=
  if inodeNo = 0 then
    .ok none
  else if sb.inodesPerGroup = 0 then
    .error .divideByZero
  else
    let group := (inodeNo - 1) / sb.inodesPerGroup
    let index := (inodeNo - 1) % sb.inodesPerGroup
    let inodeTableBlk := bgt.inodeTable group
    if inodeTableBlk = 0 then
      .ok none
    else if sb.blockSize = 0 then
      .error .divideByZero
    else do
      let offsetInTable := index * sb.inodeSize
      let blockOffset := offsetInTable % sb.blockSize
      let blockNo := inodeTableBlk + offsetInTable / sb.blockSize
      let blockBuf ← disk.loadBlock sb.blockSize stale blockNo
      return blockBuf.map fun blockBuf =>
        { raw := slice blockBuf blockOffset.toNat inodeDiskSize
          number := inodeNo }

section LoadData

variable (disk : Disk) (blockSize : U32) (stale : U32 → Nat → U8) (inode : Inode)

/-- A block on the disk, zeros for a hole. -/
def loadPhysical (physBlk : U32) : Except Ext3Fault (Option (Nat → U8)) :=
  if physBlk = 0 then
    .ok (some fun _ => 0)
  else
    disk.loadBlock blockSize stale physBlk

/-- The block of a file; `none` is a failed read. -/
def loadLogical (logicalBlk : U32) : Except Ext3Fault (Option (Nat → U8)) :=
  if logicalBlk < ext3DirectBlocks then
    loadPhysical disk blockSize stale (inode.block logicalBlk.toNat)
  else if logicalBlk < ext3DirectBlocks + blockSize / 4 then
    let indirect := inode.block ext3DirectBlocks.toNat
    if indirect = 0 then
      .ok (some fun _ => 0)
    else do
      match ← disk.loadBlock blockSize stale indirect with
      | none => return none
      | some ind =>
          let idx := logicalBlk - ext3DirectBlocks
          loadPhysical disk blockSize stale (littleEndian (slice ind (4 * idx.toNat) 4))
  else
    .ok (some fun _ => 0)

/-- The loop of `read_data` with a buffer of `room` bytes. -/
def loadDataLoop (room : Nat) (offset len : U32) :
    Nat → U32 → List U8 → Except Ext3Fault (Int × List U8)
  | 0, _, _ => .error .endless
  | fuel + 1, bytesRead, out =>
      if bytesRead < len then
        let fileOff := offset + bytesRead
        if fileOff ≥ inode.size then
          .ok (bytesRead.toInt, out)
        else if blockSize = 0 then
          .error .divideByZero
        else do
          let count := toCopy blockSize inode offset len bytesRead
          match ← loadLogical disk blockSize stale inode (fileOff / blockSize) with
          | none => return (-1, out)
          | some block =>
              if room < bytesRead.toNat + count.toNat then
                throw .dataBuffer
              else
                loadDataLoop room offset len fuel (bytesRead + count)
                  (out ++ slice block (fileOff % blockSize).toNat count.toNat)
      else
        .ok (bytesRead.toInt, out)

/-- `Inode::read_data`; every round but the last reads at least one byte. -/
def loadData (room : Nat) (offset len : U32) : Except Ext3Fault (Int × List U8) :=
  loadDataLoop disk blockSize stale inode room offset len (len.toNat + 1) 0 []

end LoadData

/-! ## Whole files -/

section WholeFiles

variable (disk : Disk) (blockSize : U32) (stale : U32 → Nat → U8) (inode : Inode)

/-- The block of this number is read without a fault. -/
def Loads (k : Nat) : Prop :=
  ∃ block, loadLogical disk blockSize stale inode (BitVec.ofNat 32 k) = .ok (some block)

/-- All blocks that begin in the first `count` bytes can be read. -/
def LoadsWithin (count : Nat) : Prop :=
  ∀ k, k * blockSize.toNat < count → Loads disk blockSize stale inode k

/-- Reading the first `count` bytes ends at a block that the device fails to read. -/
def FailsWithin (count : Nat) : Prop :=
  ∃ k, k * blockSize.toNat < count ∧ (∀ j < k, Loads disk blockSize stale inode j) ∧
    loadLogical disk blockSize stale inode (BitVec.ofNat 32 k) = .ok none

/-- The byte of a file, by what is loaded. -/
def loadedByte (i : Nat) : U8 :=
  match loadLogical disk blockSize stale inode (BitVec.ofNat 32 (i / blockSize.toNat)) with
  | .ok (some block) => block (i % blockSize.toNat)
  | _ => 0

end WholeFiles

section Rounds

variable {disk : Disk} {blockSize : U32} {stale : U32 → Nat → U8} {inode : Inode}

variable {k room : Nat}

theorem slice_loadedByte {count : Nat} {block : Nat → U8}
    (loads : loadLogical disk blockSize stale inode (BitVec.ofNat 32 k) = .ok (some block))
    (inBlock : count ≤ blockSize.toNat) :
    slice (loadedByte disk blockSize stale inode) (k * blockSize.toNat) count =
      slice block 0 count := by
  apply slice_congr
  intro i below
  have inside : i < blockSize.toNat := by omega
  rw [loadedByte, add_comm, add_mul_div_right _ _ (by omega), div_eq_of_lt inside,
    zero_add, add_mul_mod_self_right, mod_eq_of_lt inside, loads, zero_add]

theorem readLength_whole (inode : Inode) : readLength inode 0 inode.size = inode.size.toNat := by
  rw [readLength]
  exact min_eq_left (le_refl _)

section

variable (positive : 0 < blockSize.toNat)

include positive

theorem loadDataLoop_block (inFile : k * blockSize.toNat < inode.size.toNat) (room fuel : Nat)
    (out : List U8) :
    loadDataLoop disk blockSize stale inode room 0 inode.size (fuel + 1)
        (BitVec.ofNat 32 (k * blockSize.toNat)) out =
      (do match ← loadLogical disk blockSize stale inode (BitVec.ofNat 32 k) with
        | none => return (-1, out)
        | some block =>
          if room < min ((k + 1) * blockSize.toNat) inode.size.toNat then
            throw .dataBuffer
          else
            loadDataLoop disk blockSize stale inode room 0 inode.size fuel
              (BitVec.ofNat 32 (min ((k + 1) * blockSize.toNat) inode.size.toNat))
              (out ++ slice block 0
                (min blockSize.toNat (inode.size.toNat - k * blockSize.toNat)))) := by
  have place : (BitVec.ofNat 32 (k * blockSize.toNat)).toNat = k * blockSize.toNat := by
    rw [toNat_ofNat, mod_eq_of_lt (by omega)]
  have left : (BitVec.ofNat 32 (k * blockSize.toNat)).toNat < readLength inode 0 inode.size := by
    rw [place, readLength_whole]
    exact inFile
  have copied := toNat_toCopy positive left
  have added := toNat_add_toCopy positive left
  have atStart : (0 : U32) + BitVec.ofNat 32 (k * blockSize.toNat) =
      BitVec.ofNat 32 (k * blockSize.toNat) := zero_add _
  have logical : BitVec.ofNat 32 (k * blockSize.toNat) / blockSize = BitVec.ofNat 32 k := by
    have le : k ≤ k * blockSize.toNat := Nat.le_mul_of_pos_right _ positive
    apply eq_of_toNat_eq
    rw [toNat_udiv, place, Nat.mul_div_cancel _ positive, toNat_ofNat, mod_eq_of_lt (by omega)]
  have inside : (BitVec.ofNat 32 (k * blockSize.toNat) % blockSize).toNat = 0 := by
    rw [toNat_umod, place, mul_mod_left]
  rw [place, readLength_whole, show (0 : U32).toNat = 0 from rfl, zero_add, mul_mod_left,
    Nat.sub_zero] at copied
  have reached : k * blockSize.toNat + (toCopy blockSize inode 0 inode.size
      (BitVec.ofNat 32 (k * blockSize.toNat))).toNat =
        min ((k + 1) * blockSize.toNat) inode.size.toNat := by
    rw [copied, Nat.add_mul]
    omega
  have next : BitVec.ofNat 32 (k * blockSize.toNat) + toCopy blockSize inode 0 inode.size
      (BitVec.ofNat 32 (k * blockSize.toNat)) =
        BitVec.ofNat 32 (min ((k + 1) * blockSize.toNat) inode.size.toNat) := by
    apply eq_of_toNat_eq
    rw [added, place, reached, toNat_ofNat, mod_eq_of_lt (by omega)]
  have below : BitVec.ofNat 32 (k * blockSize.toNat) < inode.size := by
    rw [lt_def, place]
    exact inFile
  have nonzero : blockSize ≠ 0 := by
    rintro rfl
    exact absurd positive (by decide)
  rw [loadDataLoop, if_pos below]
  simp only [atStart]
  rw [if_neg (by rw [ge_iff_le, le_def, place]; omega), if_neg nonzero, logical, place,
    reached, next, inside, copied]

theorem loadDataLoop_reaches (loads : ∀ j < k, Loads disk blockSize stale inode j)
    (inFile : k * blockSize.toNat < inode.size.toNat) (fits : k * blockSize.toNat ≤ room)
    (fuel : Nat) :
    loadDataLoop disk blockSize stale inode room 0 inode.size (fuel + k) 0 [] =
      loadDataLoop disk blockSize stale inode room 0 inode.size fuel
        (BitVec.ofNat 32 (k * blockSize.toNat))
        (slice (loadedByte disk blockSize stale inode) 0 (k * blockSize.toNat)) := by
  induction k generalizing fuel with
  | zero =>
    rw [Nat.zero_mul]
    rfl
  | succ k ih =>
    rw [Nat.add_mul, Nat.one_mul] at inFile fits
    obtain ⟨block, isBlock⟩ := loads k (lt_succ_self k)
    have whole : min ((k + 1) * blockSize.toNat) inode.size.toNat = (k + 1) * blockSize.toNat := by
      rw [Nat.add_mul]
      omega
    have previous := ih (fun j below => loads j (by omega)) (by omega)
      (by omega) (fuel + 1)
    rw [loadDataLoop_block positive (by omega), isBlock, whole] at previous
    rw [← add_assoc, add_right_comm, previous]
    change (if room < (k + 1) * blockSize.toNat then _ else _) = _
    rw [if_neg (by rw [Nat.add_mul]; omega), Nat.min_eq_left (by omega),
      ← slice_loadedByte isBlock (le_refl _), add_mul k 1, one_mul, slice_add,
      zero_add]

/-- So the whole call comes to a block of the file, with at least one round left behind it. -/
theorem loadData_reaches (loads : ∀ j < k, Loads disk blockSize stale inode j)
    (within : k * blockSize.toNat < min inode.size.toNat (room + 1)) :
    ∃ fuel, loadData disk blockSize stale inode room 0 inode.size =
      loadDataLoop disk blockSize stale inode room 0 inode.size (fuel + 2)
        (BitVec.ofNat 32 (k * blockSize.toNat))
        (slice (loadedByte disk blockSize stale inode) 0 (k * blockSize.toNat)) := by
  have le : k ≤ k * blockSize.toNat := Nat.le_mul_of_pos_right _ positive
  refine ⟨inode.size.toNat - 1 - k, ?_⟩
  rw [← loadDataLoop_reaches positive loads (by omega) (by omega), loadData]
  congr 1
  omega

theorem loadData_of_fails
    (fails : FailsWithin disk blockSize stale inode (min inode.size.toNat (room + 1))) :
    ∃ out, loadData disk blockSize stale inode room 0 inode.size = .ok (-1, out) := by
  obtain ⟨k, within, loads, failed⟩ := fails
  obtain ⟨fuel, reached⟩ := loadData_reaches positive loads within
  rw [loadDataLoop_block positive (by omega), failed] at reached
  exact ⟨_, reached⟩

theorem loadData_of_fault {fault : Ext3Fault}
    (loads : ∀ j < k, Loads disk blockSize stale inode j)
    (within : k * blockSize.toNat < min inode.size.toNat (room + 1))
    (faults : loadLogical disk blockSize stale inode (BitVec.ofNat 32 k) = .error fault) :
    loadData disk blockSize stale inode room 0 inode.size = .error fault := by
  obtain ⟨fuel, reached⟩ := loadData_reaches positive loads within
  rw [loadDataLoop_block positive (by omega), faults] at reached
  exact reached

end

theorem loadData_of_zero (zero : blockSize = 0) (nonempty : inode.size ≠ 0) (room : Nat) :
    loadData disk blockSize stale inode room 0 inode.size = .error .divideByZero := by
  have more : (0 : U32) < inode.size := toNat_pos nonempty
  have inFile : ¬ (0 : U32) + 0 ≥ inode.size := not_le.mpr (toNat_pos nonempty)
  rw [loadData, loadDataLoop, if_pos more]
  dsimp only
  rw [if_neg inFile, if_pos zero]

/-- A file that does not fit overruns the buffer at the block that crosses its end. -/
theorem loadData_of_large (positive : 0 < blockSize.toNat) (large : room < inode.size.toNat)
    (loads : LoadsWithin disk blockSize stale inode (room + 1)) :
    loadData disk blockSize stale inode room 0 inode.size = .error .dataBuffer := by
  have crossing := div_add_mod room blockSize.toNat
  have inside := mod_lt room positive
  rw [mul_comm] at crossing
  obtain ⟨fuel, reached⟩ := loadData_reaches positive (fun j below => loads j (by
      have le := mul_le_mul_right blockSize.toNat (le_of_lt below)
      omega : j * blockSize.toNat < room + 1))
    (by omega : room / blockSize.toNat * blockSize.toNat < min inode.size.toNat (room + 1))
  obtain ⟨block, isBlock⟩ := loads (room / blockSize.toNat) (by omega)
  rw [loadDataLoop_block positive (by omega), isBlock] at reached
  rw [reached]
  change (if room < _ then _ else _) = _
  rw [if_pos (by rw [Nat.add_mul]; omega)]
  rfl

theorem loadData_of_loads (positive : 0 < blockSize.toNat) (nonempty : 0 < inode.size.toNat)
    (fits : inode.size.toNat ≤ room)
    (loads : LoadsWithin disk blockSize stale inode inode.size.toNat) :
    loadData disk blockSize stale inode room 0 inode.size =
      .ok (inode.size.toInt, slice (loadedByte disk blockSize stale inode) 0 inode.size.toNat) := by
  have crossing := div_add_mod (inode.size.toNat - 1) blockSize.toNat
  have inside := mod_lt (inode.size.toNat - 1) positive
  rw [mul_comm] at crossing
  obtain ⟨fuel, reached⟩ := loadData_reaches positive (fun j below => loads j (by
      have le := mul_le_mul_right blockSize.toNat (le_of_lt below)
      omega : j * blockSize.toNat < inode.size.toNat))
    (by omega : (inode.size.toNat - 1) / blockSize.toNat * blockSize.toNat <
      min inode.size.toNat (room + 1))
  obtain ⟨block, isBlock⟩ := loads ((inode.size.toNat - 1) / blockSize.toNat) (by omega)
  have ends : min (((inode.size.toNat - 1) / blockSize.toNat + 1) * blockSize.toNat)
      inode.size.toNat = inode.size.toNat := by
    rw [Nat.add_mul]
    omega
  rw [loadDataLoop_block positive (by omega), isBlock, ends] at reached
  rw [reached]
  change (if room < _ then _ else _) = _
  have complete : ¬ inode.size < inode.size := Nat.lt_irrefl _
  have parts := slice_add (loadedByte disk blockSize stale inode) 0
    ((inode.size.toNat - 1) / blockSize.toNat * blockSize.toNat)
    (min blockSize.toNat
      (inode.size.toNat - (inode.size.toNat - 1) / blockSize.toNat * blockSize.toNat))
  rw [zero_add] at parts
  rw [if_neg (by omega), ← slice_loadedByte isBlock (min_le_left _ _), ← parts, loadDataLoop,
    ofNat_toNat, setWidth_eq, if_neg complete]
  congr 3
  omega

/-- The first blocks of a file can be read, or there is a first one that cannot. -/
theorem loads_or_stops (disk : Disk) (blockSize : U32) (stale : U32 → Nat → U8) (inode : Inode)
    (count : Nat) :
    LoadsWithin disk blockSize stale inode count ∨ FailsWithin disk blockSize stale inode count ∨
      ∃ k fault, k * blockSize.toNat < count ∧ (∀ j < k, Loads disk blockSize stale inode j) ∧
        loadLogical disk blockSize stale inode (BitVec.ofNat 32 k) = .error fault := by
  classical
  by_cases all : LoadsWithin disk blockSize stale inode count
  · exact Or.inl all
  · right
    rw [LoadsWithin] at all
    push Not at all
    have within := Nat.find_spec all
    have loads : ∀ j < Nat.find all, Loads disk blockSize stale inode j := by
      intro j below
      by_contra stops
      refine Nat.find_min all below ⟨?_, stops⟩
      exact (mul_le_mul_right _ (le_of_lt below)).trans_lt within.1
    cases outcome : loadLogical disk blockSize stale inode (BitVec.ofNat 32 (Nat.find all)) with
    | error fault => exact Or.inr ⟨_, fault, within.1, loads, outcome⟩
    | ok result =>
      cases result with
      | none => exact Or.inl ⟨_, within.1, loads, outcome⟩
      | some block => exact absurd ⟨block, outcome⟩ within.2

end Rounds

end XKern
