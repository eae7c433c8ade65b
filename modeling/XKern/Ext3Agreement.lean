import XKern.Ext3Checked

namespace XKern

open Slices Stores BitVec Nat Option

/-!
# Reads with and without faults

On a device whose sectors divide the blocks, and with blocks that fit their buffers,
nothing faults: the reads with their stores give what the reads of lists of bytes give,
whatever the buffers held before.
-/

/-- Blocks fit the buffers of the code. -/
structure FitsBuffers (disk : Disk) (dev : BlockDevice) (image : Nat → U8) (blockSize : U32) :
    Prop where
  opened : disk.Opened dev image
  divides : dev.Divides blockSize
  maxBlockSize : blockSize.toNat ≤ ext3MaxBlockSize

theorem length_readBatches {dev : BlockDevice} {image : Nat → U8} (holds : dev.Holds image)
    {fuel : Nat} {lba remaining : U32} {bytes : List U8} (enough : remaining.toNat ≤ fuel)
    (isRead : readBatches dev fuel lba remaining = some bytes) :
    bytes.length = remaining.toNat * dev.blockSize.toNat := by
  induction fuel generalizing lba remaining bytes with
  | zero =>
    cases isRead
    simp [le_zero.mp enough]
  | succ fuel ih =>
    rw [readBatches] at isRead
    split at isRead
    · obtain ⟨first, isFirst, isRead⟩ := bind_eq_some_iff.mp isRead
      obtain ⟨rest, isRest, done⟩ := bind_eq_some_iff.mp isRead
      cases done
      have left := toNat_sub_batch remaining
      rw [List.length_append, holds.length_batch isFirst, ih (by omega) isRest, left,
        ← Nat.add_mul, Nat.add_sub_cancel' (min_le_right _ _)]
    · rename_i none
      have zero : remaining.toNat = 0 := le_zero.mp (not_lt.mp none)
      cases isRead
      simp [zero]

theorem slice_apply_zero {bytes : List U8} {offset count : Nat}
    (inside : offset + count ≤ bytes.length) (content : Nat → U8) :
    slice (Store.apply ⟨0, bytes⟩ content) offset count = (bytes.drop offset).take count := by
  have whole := slice_apply 0 bytes content
  nth_rewrite 2 [← whole]
  rw [take_drop_slice _ _ inside, zero_add]

namespace FitsBuffers

variable {disk : Disk} {dev : BlockDevice} {image : Nat → U8} {blockSize : U32}
  (fits : FitsBuffers disk dev image blockSize) (stale : U32 → Nat → U8)

include fits

theorem adjoins : (blockSize / dev.blockSize).toNat ≤ 128 ∨ 128 * dev.blockSize.toNat < 2 ^ 32 := by
  have small : blockSize.toNat ≤ 65536 := fits.maxBlockSize
  by_cases isEmpty : blockSize.toNat = 0
  · simp [isEmpty]
  · have le := le_of_dvd (pos_of_ne_zero isEmpty) fits.divides.divides
    omega

theorem length_readBlock {blockNo : U32} {bytes : List U8}
    (isRead : disk.readBlock blockNo blockSize = some bytes) :
    bytes.length = blockSize.toNat := by
  simp only [Disk.readBlock, Disk.readSectors, fits.opened.isDev, fits.opened.sectorSize] at isRead
  split at isRead
  · cases isRead
  · rw [length_readBatches fits.opened.holds le_rfl isRead, fits.divides.mul_div]

theorem loadBlock_eq (blockNo : U32) : disk.loadBlock blockSize stale blockNo =
      .ok ((disk.readBlock blockNo blockSize).map fun bytes =>
        Store.apply ⟨0, bytes⟩ (stale blockNo)) := by
  have positive : dev.blockSize ≠ 0 := by
    intro zero
    exact absurd fits.divides.positive (by rw [zero]; decide)
  simp only [Disk.loadBlock, Disk.transferBlock, Disk.transferSectors, Disk.readBlock,
    Disk.readSectors, fits.opened.isDev, fits.opened.sectorSize, if_neg positive]
  have size := fits.divides.mul_div
  have adjoins := fits.adjoins
  generalize blockSize / dev.blockSize = count at size adjoins ⊢
  have within := transferBatches_within fits.opened.holds count.toNat (blockNo * count) count 0
  rw [zero_add, size] at within
  have placed := applyAll_transferBatches fits.opened.holds count.toNat (blockNo * count) 0 adjoins
    (stale blockNo)
  have bytes := readBatches_eq_transferred dev dev.blockSize count.toNat (blockNo * count) count 0
  by_cases rejects : disk.isOpen = false ∨ blockNo * count + count > disk.totalSectors
  · rw [if_pos rejects, if_pos rejects, if_pos (within_nil _)]
    rfl
  · rw [if_neg rejects, if_neg rejects, if_pos (within.mono fits.maxBlockSize), placed, bytes,
      transferred]
    split <;> rfl

theorem copyBlock_eq {blkOffset count : U32}
    (inBlock : blkOffset.toNat + count.toNat ≤ blockSize.toNat) (physBlk : U32) :
    ∃ block, loadPhysical disk blockSize stale physBlk = .ok block ∧
      copyBlock disk blockSize physBlk blkOffset count =
        block.map fun block => slice block blkOffset.toNat count.toNat := by
  by_cases hole : physBlk = 0
  · refine ⟨_, if_pos hole, ?_⟩
    rw [copyBlock, if_pos hole, map_some, slice_eq_replicate fun _ _ => rfl]
  · refine ⟨_, (if_neg hole).trans (fits.loadBlock_eq stale physBlk), ?_⟩
    rw [copyBlock, if_neg hole]
    cases isRead : disk.readBlock physBlk blockSize with
    | none => rfl
    | some bytes =>
      have length := fits.length_readBlock isRead
      simp only [map_some]
      rw [slice_apply_zero (by omega)]
      rfl

theorem readDataRound_eq {fileOff count : U32}
    (inBlock : (fileOff % blockSize).toNat + count.toNat ≤ blockSize.toNat) (inode : Inode) :
    ∃ block, loadLogical disk blockSize stale inode (fileOff / blockSize) = .ok block ∧
      readDataRound disk blockSize inode fileOff count =
        block.map fun block => slice block (fileOff % blockSize).toNat count.toNat := by
  have zeros : some (List.replicate count.toNat 0) = (some fun _ => 0 : Option (Nat → U8)).map
      fun block => slice block (fileOff % blockSize).toNat count.toNat := by
    rw [map_some, slice_eq_replicate fun _ _ => rfl]
  rw [loadLogical]
  simp only [readDataRound]
  generalize fileOff / blockSize = logical
  split
  · exact fits.copyBlock_eq stale inBlock _
  · split
    · split
      · exact ⟨_, rfl, zeros⟩
      · rw [fits.loadBlock_eq stale]
        cases isRead : disk.readBlock (inode.block ext3DirectBlocks.toNat) blockSize with
        | none => exact ⟨none, rfl, rfl⟩
        | some ind =>
          have quarter : (blockSize / 4).toNat = blockSize.toNat / 4 := toNat_udiv
          have small : blockSize.toNat ≤ 65536 := fits.maxBlockSize
          have length := fits.length_readBlock isRead
          rename_i notDirect inTable _
          have direct : 12 ≤ logical.toNat := not_lt.mp notDirect
          have index : (logical - ext3DirectBlocks).toNat = logical.toNat - 12 :=
            toNat_sub_of_le direct
          rw [lt_def, toNat_add, quarter] at inTable
          have limit : ext3DirectBlocks.toNat = 12 := rfl
          have entry := slice_apply_zero
            (by omega : 4 * (logical - ext3DirectBlocks).toNat + 4 ≤ ind.length)
            (stale (inode.block ext3DirectBlocks.toNat))
          obtain ⟨block, loaded, copied⟩ := fits.copyBlock_eq stale inBlock
            (wordAt ind (4 * (logical - ext3DirectBlocks).toNat))
          refine ⟨block, ?_, copied⟩
          rw [← loaded, wordAt, ← entry]
          rfl
    · exact ⟨_, rfl, zeros⟩

omit fits in
theorem toCopy_le (positive : 0 < blockSize.toNat) (inode : Inode) (offset : U32)
    {len bytesRead : U32} (more : bytesRead < len) :
    ((offset + bytesRead) % blockSize).toNat +
        (toCopy blockSize inode offset len bytesRead).toNat ≤ blockSize.toNat ∧
      bytesRead.toNat + (toCopy blockSize inode offset len bytesRead).toNat ≤ len.toNat := by
  have remainder : ((offset + bytesRead) % blockSize).toNat < blockSize.toNat :=
    toNat_umod.trans_lt (mod_lt _ positive)
  have toEnd := toNat_sub_of_le (le_def.mpr (le_of_lt remainder))
  have left := toNat_sub_of_le (BitVec.le_of_lt more)
  have below : bytesRead.toNat < len.toNat := more
  rw [toCopy, toNat_cut, toNat_cut, toEnd, left]
  omega

theorem loadDataLoop_eq (positive : blockSize ≠ 0) (inode : Inode) {room : Nat} {len : U32}
    (roomy : len.toNat ≤ room) (offset : U32) (fuel : Nat) (bytesRead : U32) (out : List U8) :
    loadDataLoop disk blockSize stale inode room offset len fuel bytesRead out =
      match readDataLoop disk blockSize inode offset len fuel bytesRead out with
      | some result => .ok result
      | none => .error .endless := by
  induction fuel generalizing bytesRead out with
  | zero => rfl
  | succ fuel ih =>
    rw [loadDataLoop, readDataLoop]
    by_cases more : bytesRead < len
    · obtain ⟨inBlock, inRange⟩ := toCopy_le (toNat_pos positive) inode offset more
      obtain ⟨block, loaded, copied⟩ := fits.readDataRound_eq stale inBlock inode
      rw [if_pos more, if_pos more]
      dsimp only
      split
      · rfl
      · rw [loaded, copied]
        cases block with
        | none => rfl
        | some block =>
          change (if room < bytesRead.toNat + _ then _ else _) = _
          rw [if_neg (by omega)]
          exact ih _ _
    · rw [if_neg more, if_neg more]

/-- With blocks that fit the buffers, the checked read is the unchecked one. -/
theorem loadData_eq (positive : blockSize ≠ 0) (inode : Inode) {room : Nat} {len : U32}
    (roomy : len.toNat ≤ room) (offset : U32) :
    loadData disk blockSize stale inode room offset len =
      match readData disk blockSize inode offset len with
      | some result => .ok result
      | none => .error .endless :=
  fits.loadDataLoop_eq stale positive inode roomy offset _ _ _

end FitsBuffers

/-- A file of 13 blocks of 1024 bytes; the twelfth entry of `i_block` is block 1 and the
indirect block is block 2. -/
def mixedInode : Inode where
  raw := List.replicate 4 0 ++ [0, 0x34, 0, 0] ++ List.replicate 72 0 ++
    [1, 0, 0, 0, 2, 0, 0, 0] ++ List.replicate 36 0
  number := 12

/-- Block 1 has bytes 7, and block 3 bytes 9; block 2 has block 3 as its first entry. -/
def mixedImage (i : Nat) : U8 :=
  if i < 2048 then 7 else if i = 2048 then 3 else if i < 3072 then 0 else 9

/-- The last byte of the direct blocks and the first byte below the indirect block. -/
theorem mixedFile_loads :
    loadData (imageDisk mixedImage 8) 1024 (fun _ _ => 5) mixedInode 2 12287 2 =
      .ok (2, [7, 9]) := by
  have fits : FitsBuffers (imageDisk mixedImage 8) (imageDevice mixedImage 8) mixedImage 1024 :=
    ⟨imageDisk_opened mixedImage 8, imageDevice_divides mixedImage 8 (by decide), by decide⟩
  have agrees := fits.loadData_eq (fun _ _ => 5) (by decide) mixedInode
    (by decide : (2 : U32).toNat ≤ 2) 12287
  have isRead : readData (imageDisk mixedImage 8) 1024 mixedInode 12287 2 = some (2, [7, 9]) := by
    decide +kernel
  rw [agrees, isRead]

end XKern
