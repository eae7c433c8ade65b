import XKern.Ext3Inode

namespace XKern

open Slices BitVec Nat Option

/-!
# The contents of ext3 files

The block map of an inode gives every byte of a file its place on the disk.
`read_data` follows it as far as the single indirect block; behind that it
writes zeros.
-/

/-! ## The block map -/

/-- An entry of an indirect block; a missing one has no entries. -/
def indirectEntry (image : Nat → U8) (blockSize : Nat) (table : U32) (i : Nat) : U32 :=
  if table = 0 then
    0
  else
    littleEndian (slice image (table.toNat * blockSize + 4 * i) 4)

/-- The block of a file by the words of `i_block`: the direct entries, and the single,
double and triple indirect ones. -/
def mappedBlock (image : Nat → U8) (blockSize : Nat) (iBlock : Nat → U32) (k : Nat) : U32 :=
  let entries := blockSize / 4
  let single := indirectEntry image blockSize
  let double := fun table i => single (single table (i / entries)) (i % entries)
  let triple := fun table i =>
    double (single table (i / (entries * entries))) (i % (entries * entries))
  if k < 12 then
    iBlock k
  else if k - 12 < entries then
    single (iBlock 12) (k - 12)
  else if k - 12 - entries < entries * entries then
    double (iBlock 13) (k - 12 - entries)
  else if k - 12 - entries - entries * entries < entries * entries * entries then
    triple (iBlock 14) (k - 12 - entries - entries * entries)
  else
    0

/-- The block of a file by the words that the code takes for `i_block`. -/
def ext3Block (image : Nat → U8) (blockSize : Nat) (inode : Inode) (k : Nat) : U32 :=
  mappedBlock image blockSize inode.block k

/-- A byte of a block; block 0 is a hole. -/
def blockByte (image : Nat → U8) (blockSize : Nat) (block : U32) (i : Nat) : U8 :=
  if block = 0 then 0 else image (block.toNat * blockSize + i)

/-- The byte of a file that a block map assigns to an offset. -/
def mappedByte (image : Nat → U8) (blockSize : Nat) (iBlock : Nat → U32) (offset : Nat) : U8 :=
  blockByte image blockSize (mappedBlock image blockSize iBlock (offset / blockSize))
    (offset % blockSize)

/-- The byte of a file that the block map of the loaded inode assigns to an offset. -/
def ext3Byte (image : Nat → U8) (blockSize : Nat) (inode : Inode) (offset : Nat) : U8 :=
  mappedByte image blockSize inode.block offset

/-- The offset lies in a direct block or below the single indirect block. -/
def WithinReach (blockSize offset : Nat) : Prop :=
  offset / blockSize < 12 + blockSize / 4

instance (blockSize offset : Nat) : Decidable (WithinReach blockSize offset) :=
  inferInstanceAs (Decidable (_ < _))

/-- The byte that `read_data` gives for an offset. -/
def readerByte (image : Nat → U8) (blockSize : Nat) (inode : Inode) (offset : Nat) : U8 :=
  if WithinReach blockSize offset then ext3Byte image blockSize inode offset else 0

/-- The blocks of a file that the reader follows lie on the opened device. -/
structure FileOnDisk
    (disk : Disk)
    (dev : BlockDevice)
    (image : Nat → U8)
    (blockSize : U32)
    (inode : Inode) : Prop where
  opened : disk.Opened dev image
  divides : dev.Divides blockSize
  positive : 0 < blockSize.toNat
  sizeBound : blockSize.toNat ≤ 65536
  indirect : 12 * blockSize.toNat < inode.size.toNat → inode.block 12 ≠ 0 →
    dev.HasBlock blockSize (inode.block 12)
  blocks : ∀ k, k < 12 + blockSize.toNat / 4 → k * blockSize.toNat < inode.size.toNat →
    ext3Block image blockSize.toNat inode k ≠ 0 →
    dev.HasBlock blockSize (ext3Block image blockSize.toNat inode k)

variable {disk : Disk} {dev : BlockDevice} {image : Nat → U8} {blockSize : U32} {inode : Inode}

namespace FileOnDisk

variable (onDisk : FileOnDisk disk dev image blockSize inode)

include onDisk

theorem reliable :
    FileOnDisk (disk.reliable dev image) (dev.reliable image) image blockSize inode where
  opened := onDisk.opened.reliable
  divides := ⟨onDisk.divides.positive, onDisk.divides.divides⟩
  positive := onDisk.positive
  sizeBound := onDisk.sizeBound
  indirect := onDisk.indirect
  blocks := onDisk.blocks

/-! ## One round -/

theorem copyBlock_eq {physBlk blkOffset count : U32} {bytes : List U8}
    (has : physBlk ≠ 0 → dev.HasBlock blockSize physBlk)
    (inBlock : blkOffset.toNat + count.toNat ≤ blockSize.toNat)
    (copied : copyBlock disk blockSize physBlk blkOffset count = some bytes) :
    bytes = slice (blockByte image blockSize.toNat physBlk) blkOffset.toNat count.toNat := by
  rw [copyBlock] at copied
  split at copied
  · rename_i hole
    cases copied
    symm
    apply slice_eq_replicate
    intro i _
    rw [blockByte, if_pos hole]
  · rename_i present
    obtain ⟨tmp, isRead, done⟩ := bind_eq_some_iff.mp copied
    cases done
    rw [onDisk.opened.readBlock_eq onDisk.divides (has present) isRead, take_drop_slice _ _ inBlock]
    apply slice_congr
    intro i _
    rw [blockByte, if_neg present, add_assoc]

theorem copyBlock_isSome (serves : dev.Serves) {physBlk : U32}
    (has : physBlk ≠ 0 → dev.HasBlock blockSize physBlk) (blkOffset count : U32) :
    (copyBlock disk blockSize physBlk blkOffset count).isSome := by
  rw [copyBlock]
  split
  · rfl
  · rename_i present
    obtain ⟨tmp, isRead⟩ := isSome_iff_exists.mp
      (onDisk.opened.readBlock_isSome serves onDisk.divides (has present))
    simp [isRead]

/-- The entry that is taken from the indirect block is the one of the block map. -/
theorem wordAt_indirect {ind : List U8} {i : Nat} (present : inode.block 12 ≠ 0)
    (has : dev.HasBlock blockSize (inode.block 12)) (inTable : i < blockSize.toNat / 4)
    (isRead : disk.readBlock (inode.block 12) blockSize = some ind) :
    wordAt ind (4 * i) = ext3Block image blockSize.toNat inode (12 + i) := by
  have inBlock : 4 * i + 4 ≤ blockSize.toNat := by omega
  rw [onDisk.opened.readBlock_eq onDisk.divides has isRead, wordAt, take_drop_slice _ _ inBlock]
  simp only [ext3Block, mappedBlock]
  rw [if_neg (by omega), if_pos (by omega), Nat.add_sub_cancel_left, indirectEntry, if_neg present]

end FileOnDisk

theorem div_mod_of_inBlock {blockSize offset i : Nat}
    (inBlock : offset % blockSize + i < blockSize) :
    (offset + i) / blockSize = offset / blockSize ∧
      (offset + i) % blockSize = offset % blockSize + i := by
  have place := mod_add_div offset blockSize
  apply (Nat.div_mod_unique (by omega)).mpr
  exact ⟨by omega, inBlock⟩

variable {count : Nat} {bytesRead len offset : U32}

theorem slice_ext3Byte (image : Nat → U8) (inode : Inode) {blockSize offset : Nat}
    (inBlock : offset % blockSize + count ≤ blockSize) :
    slice (ext3Byte image blockSize inode) offset count = slice (blockByte image blockSize
        (ext3Block image blockSize inode (offset / blockSize)))
        (offset % blockSize) count := by
  apply slice_congr
  intro i below
  obtain ⟨sameBlock, inside⟩ := div_mod_of_inBlock (by omega : offset % blockSize + i < blockSize)
  rw [ext3Byte, mappedByte, sameBlock, inside]
  rfl

theorem slice_readerByte_within (image : Nat → U8) (inode : Inode) {blockSize offset : Nat}
    (within : ∀ i, i < count → WithinReach blockSize (offset + i)) :
    slice (readerByte image blockSize inode) offset count =
      slice (ext3Byte image blockSize inode) offset count := by
  apply slice_congr
  intro i below
  rw [readerByte, if_pos (within i below)]

namespace FileOnDisk

variable (onDisk : FileOnDisk disk dev image blockSize inode)

include onDisk

theorem toNat_limit : (ext3DirectBlocks + blockSize / 4).toNat = 12 + blockSize.toNat / 4 := by
  have bound := onDisk.sizeBound
  have quarter : (blockSize / 4).toNat = blockSize.toNat / 4 := toNat_udiv
  rw [toNat_add, quarter]
  simp only [ext3DirectBlocks, reduceToNat]
  omega

theorem hasBlock {fileOff : Nat} (inFile : fileOff < inode.size.toNat)
    (within : WithinReach blockSize.toNat fileOff)
    (present : ext3Block image blockSize.toNat inode (fileOff / blockSize.toNat) ≠ 0) :
    dev.HasBlock blockSize (ext3Block image blockSize.toNat inode (fileOff / blockSize.toNat)) :=
  onDisk.blocks _ within ((div_mul_le_self _ _).trans_lt inFile) present

variable {fileOff : U32}

/--
Within reach a round copies from the block of the block map, once the indirect
block has been read if there is one.
-/
theorem readDataRound_within (inFile : fileOff.toNat < inode.size.toNat)
    (within : WithinReach blockSize.toNat fileOff.toNat) (count : U32) :
    ∃ ready : Option Unit, (dev.Serves → ready.isSome) ∧
      readDataRound disk blockSize inode fileOff count =
        ready.bind fun _ => copyBlock disk blockSize
          (ext3Block image blockSize.toNat inode (fileOff.toNat / blockSize.toNat))
          (fileOff % blockSize) count := by
  have logical : (fileOff / blockSize).toNat = fileOff.toNat / blockSize.toNat := toNat_udiv
  have limit := onDisk.toNat_limit
  rw [WithinReach, ← logical] at within
  simp only [readDataRound]
  split
  · rename_i direct
    have direct : (fileOff / blockSize).toNat < 12 := direct
    refine ⟨some (), fun _ => rfl, ?_⟩
    rw [bind_some, ← logical, ext3Block, mappedBlock, if_pos direct]
  · rename_i notDirect
    have notDirect : 12 ≤ (fileOff / blockSize).toNat := not_lt.mp notDirect
    rw [if_pos (by rw [lt_def, limit]; exact within)]
    have index : (fileOff / blockSize - ext3DirectBlocks).toNat =
        fileOff.toNat / blockSize.toNat - 12 := by
      rw [toNat_sub_of_le (by rw [le_def]; exact notDirect), logical]
      rfl
    have behind : 12 + (fileOff.toNat / blockSize.toNat - 12) =
        fileOff.toNat / blockSize.toNat := by
      omega
    split
    · rename_i missing
      have missing : inode.block 12 = 0 := missing
      have hole : ext3Block image blockSize.toNat inode (fileOff.toNat / blockSize.toNat) = 0 := by
        rw [ext3Block, mappedBlock, if_neg (by omega), if_pos (by omega), indirectEntry,
          if_pos missing]
      refine ⟨some (), fun _ => rfl, ?_⟩
      rw [bind_some, hole, copyBlock, if_pos rfl]
    · rename_i present
      have present : inode.block 12 ≠ 0 := present
      have large : 12 * blockSize.toNat < inode.size.toNat :=
        (Nat.mul_le_of_le_div _ 12 _ (logical ▸ notDirect)).trans_lt inFile
      have has := onDisk.indirect large present
      refine ⟨(disk.readBlock (inode.block 12) blockSize).map fun _ => (), ?_, ?_⟩
      · intro serves
        rw [isSome_map]
        exact onDisk.opened.readBlock_isSome serves onDisk.divides has
      · rw [show ext3DirectBlocks.toNat = 12 from rfl]
        cases isRead : disk.readBlock (inode.block 12) blockSize with
        | none => rfl
        | some ind =>
          have entry := onDisk.wordAt_indirect
            (i := fileOff.toNat / blockSize.toNat - 12) present has (by omega) isRead
          rw [behind] at entry
          simp [index, entry]

theorem readDataRound_beyond (beyond : ¬ WithinReach blockSize.toNat fileOff.toNat) (count : U32) :
    readDataRound disk blockSize inode fileOff count = some (List.replicate count.toNat 0) := by
  have logical : (fileOff / blockSize).toNat = fileOff.toNat / blockSize.toNat := toNat_udiv
  have limit := onDisk.toNat_limit
  rw [WithinReach, ← logical] at beyond
  have notDirect : ¬ fileOff / blockSize < ext3DirectBlocks := by
    rw [lt_def, show ext3DirectBlocks.toNat = 12 from rfl]
    omega
  have notIndirect : ¬ fileOff / blockSize < ext3DirectBlocks + blockSize / 4 := by
    rw [lt_def, limit]
    exact beyond
  simp only [readDataRound, if_neg notDirect, if_neg notIndirect]

theorem readDataRound_eq {count : U32} {bytes : List U8} (inFile : fileOff.toNat < inode.size.toNat)
    (inBlock : fileOff.toNat % blockSize.toNat + count.toNat ≤ blockSize.toNat)
    (isRead : readDataRound disk blockSize inode fileOff count = some bytes) :
    bytes = slice (readerByte image blockSize.toNat inode) fileOff.toNat count.toNat := by
  have inside : (fileOff % blockSize).toNat = fileOff.toNat % blockSize.toNat := toNat_umod
  -- reach is the same for all bytes of a round
  have sameReach (i : Nat) (below : i < count.toNat) :
      WithinReach blockSize.toNat (fileOff.toNat + i) ↔
        WithinReach blockSize.toNat fileOff.toNat := by
    rw [WithinReach, WithinReach, (div_mod_of_inBlock (by omega)).1]
  by_cases within : WithinReach blockSize.toNat fileOff.toNat
  · obtain ⟨ready, _, copies⟩ := onDisk.readDataRound_within inFile within count
    rw [copies] at isRead
    obtain ⟨_, _, copied⟩ := bind_eq_some_iff.mp isRead
    rw [onDisk.copyBlock_eq (onDisk.hasBlock inFile within) (by omega) copied, inside,
      ← slice_ext3Byte image inode inBlock]
    exact (slice_readerByte_within image inode fun i below => (sameReach i below).mpr within).symm
  · rw [onDisk.readDataRound_beyond within] at isRead
    cases isRead
    symm
    apply slice_eq_replicate
    intro i below
    rw [readerByte, if_neg ((sameReach i below).not.mpr within)]

theorem readDataRound_isSome (serves : dev.Serves) (inFile : fileOff.toNat < inode.size.toNat)
    (count : U32) :
    (readDataRound disk blockSize inode fileOff count).isSome := by
  by_cases within : WithinReach blockSize.toNat fileOff.toNat
  · obtain ⟨ready, isReady, copies⟩ := onDisk.readDataRound_within inFile within count
    obtain ⟨done, isDone⟩ := isSome_iff_exists.mp (isReady serves)
    rw [copies, isDone, bind_some]
    exact onDisk.copyBlock_isSome serves (onDisk.hasBlock inFile within) _ _
  · rw [onDisk.readDataRound_beyond within]
    rfl

end FileOnDisk

/-! ## The loop -/

/-- The bytes of the range that the file has. -/
def readLength (inode : Inode) (offset len : U32) : Nat :=
  min len.toNat (inode.size.toNat - offset.toNat)

/-- The read gives its whole range of the file, or it ends at a failure of the device. -/
def ReadsRange (dev : BlockDevice) (byte : Nat → U8) (offset count : Nat) (result : Int)
    (bytes : List U8) : Prop :=
  (result = (BitVec.ofNat 32 count).toInt ∧ bytes = slice byte offset count) ∨
    (¬ dev.Serves ∧ result = -1 ∧ ∃ done ≤ count, bytes = slice byte offset done)

theorem readsRange_complete (dev : BlockDevice) (byte : Nat → U8) (offset : Nat)
    (whole : bytesRead.toNat = count) :
    ReadsRange dev byte offset count bytesRead.toInt (slice byte offset bytesRead.toNat) := by
  left
  rw [← whole, ofNat_toNat, setWidth_eq]
  exact ⟨rfl, rfl⟩

theorem eq_readLength {bytesRead : Nat} (bounded : bytesRead ≤ readLength inode offset len)
    (atEnd : len.toNat ≤ bytesRead ∨ inode.size.toNat ≤ offset.toNat + bytesRead) :
    bytesRead = readLength inode offset len := by
  rw [readLength] at bounded ⊢
  omega

theorem toNat_fileOff (bounded : bytesRead.toNat ≤ readLength inode offset len) :
    (offset + bytesRead).toNat = offset.toNat + bytesRead.toNat := by
  have sizeBounded := inode.size.isLt
  have offsetBounded := offset.isLt
  rw [readLength] at bounded
  rw [toNat_add]
  omega

theorem toNat_toCopy (positive : 0 < blockSize.toNat)
    (bounded : bytesRead.toNat < readLength inode offset len) :
    (toCopy blockSize inode offset len bytesRead).toNat =
      min (blockSize.toNat - (offset.toNat + bytesRead.toNat) % blockSize.toNat)
        (readLength inode offset len - bytesRead.toNat) := by
  have place := toNat_fileOff bounded.le
  have inside : ((offset + bytesRead) % blockSize).toNat =
      (offset.toNat + bytesRead.toNat) % blockSize.toNat := by
    rw [toNat_umod, place]
  have remainder := mod_lt (offset.toNat + bytesRead.toNat) positive
  have toBlockEnd : (blockSize - (offset + bytesRead) % blockSize).toNat =
      blockSize.toNat - (offset.toNat + bytesRead.toNat) % blockSize.toNat := by
    rw [toNat_sub_of_le (by rw [le_def, inside]; omega), inside]
  rw [readLength] at bounded ⊢
  have toLen : (len - bytesRead).toNat = len.toNat - bytesRead.toNat :=
    toNat_sub_of_le (by rw [le_def]; omega)
  have toEnd : (inode.size - (offset + bytesRead)).toNat =
      inode.size.toNat - (offset.toNat + bytesRead.toNat) := by
    rw [toNat_sub_of_le (by rw [le_def, place]; omega), place]
  have toRangeEnd : min (len.toNat - bytesRead.toNat)
        (inode.size.toNat - (offset.toNat + bytesRead.toNat)) =
      min len.toNat (inode.size.toNat - offset.toNat) - bytesRead.toNat := by
    rw [← Nat.sub_sub, Nat.sub_min_sub_right]
  rw [toCopy, toNat_cut, toNat_cut, toBlockEnd, toLen, toEnd, min_assoc, toRangeEnd]

theorem toNat_add_toCopy (positive : 0 < blockSize.toNat)
    (bounded : bytesRead.toNat < readLength inode offset len) :
    (bytesRead + toCopy blockSize inode offset len bytesRead).toNat =
      bytesRead.toNat + (toCopy blockSize inode offset len bytesRead).toNat := by
  have copied := toNat_toCopy positive bounded
  have lenBounded := len.isLt
  have lengthBounded : readLength inode offset len ≤ len.toNat := min_le_left _ _
  rw [toNat_add]
  omega

namespace FileOnDisk

variable (onDisk : FileOnDisk disk dev image blockSize inode)

include onDisk

theorem readDataLoop_spec {fuel : Nat} (bytesRead : U32)
    (bounded : bytesRead.toNat ≤ readLength inode offset len)
    (enough : readLength inode offset len - bytesRead.toNat < fuel) :
    ∃ result bytes, readDataLoop disk blockSize inode offset len fuel bytesRead
          (slice (readerByte image blockSize.toNat inode) offset.toNat
            bytesRead.toNat) = some (result, bytes) ∧
        ReadsRange dev (readerByte image blockSize.toNat inode) offset.toNat
          (readLength inode offset len) result bytes := by
  induction fuel generalizing bytesRead with
  | zero => omega
  | succ fuel ih =>
    have place := toNat_fileOff bounded
    rw [readDataLoop]
    split
    · rename_i more
      have more : bytesRead.toNat < len.toNat := more
      split
      · rename_i pastEnd
        rw [ge_iff_le, le_def, place] at pastEnd
        exact ⟨_, _, rfl, readsRange_complete dev _ _ (eq_readLength bounded (Or.inr pastEnd))⟩
      · rename_i inFile
        rw [ge_iff_le, le_def, not_le] at inFile
        have left : bytesRead.toNat < readLength inode offset len := by
          rw [place] at inFile
          rw [readLength]
          omega
        have copied := toNat_toCopy onDisk.positive left
        have remainder := mod_lt (offset.toNat + bytesRead.toNat) onDisk.positive
        dsimp only
        cases round : readDataRound disk blockSize inode (offset + bytesRead)
            (toCopy blockSize inode offset len bytesRead) with
        | none =>
          refine ⟨_, _, rfl, Or.inr ⟨?_, rfl, bytesRead.toNat, bounded, rfl⟩⟩
          intro serves
          have isSome := onDisk.readDataRound_isSome serves inFile
            (toCopy blockSize inode offset len bytesRead)
          rw [round] at isSome
          exact absurd isSome (by decide)
        | some bytes =>
          have bytesEq := onDisk.readDataRound_eq inFile (by rw [place, copied]; omega) round
          have next := toNat_add_toCopy onDisk.positive left
          have rest := ih (bytesRead + toCopy blockSize inode offset len bytesRead)
            (by omega) (by omega)
          rw [next, slice_add, ← place, ← bytesEq] at rest
          exact rest
    · rename_i done
      have done : len.toNat ≤ bytesRead.toNat := not_lt.mp done
      exact ⟨_, _, rfl, readsRange_complete dev _ _ (eq_readLength bounded (Or.inl done))⟩

/-- What `read_data` does on every range, whether the reader can map it or not. -/
theorem readData_spec (offset len : U32) : ∃ result bytes,
      readData disk blockSize inode offset len = some (result, bytes) ∧
        ReadsRange dev (readerByte image blockSize.toNat inode) offset.toNat
          (readLength inode offset len) result bytes := by
  have bounded : readLength inode offset len ≤ len.toNat := min_le_left _ _
  exact onDisk.readDataLoop_spec 0 (zero_le _)
    (lt_succ_of_le ((sub_le _ _).trans bounded))

end FileOnDisk

end XKern
