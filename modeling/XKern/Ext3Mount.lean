import Mathlib
import XKern.Ext3Paths

namespace XKern

open Slices Stores FaultTriple

/-!
# Mounting an ext3 file system

Model of `bsd/ext3/src/superblock.cpp`, of the reading of the group descriptors in
`bsd/ext3/src/blk_group.cpp`, and of `FileSystem::mount` and `FileSystem::read`.  The
buffer for the superblock is on the stack: what the device does not fill of it is
`junk`.
-/

/-- `EXT3_MAGIC`. -/
def ext3Magic : U32 := 0xEF53

/-- `EXT3_MIN_BLOCK_SIZE`. -/
def ext3MinBlockSize : U32 := 1024

/-- `sizeof(superblock_disk)`. -/
def superblockDiskSize : Nat := 264

/-- `m_sb`: the bytes of the packed struct. -/
structure SuperblockDisk where
  raw : List U8

namespace SuperblockDisk

variable (sb : SuperblockDisk)

/-- `s_inodes_count`. -/
def sInodesCount : U32 := wordAt sb.raw 0

/-- `s_blocks_count`. -/
def sBlocksCount : U32 := wordAt sb.raw 4

/-- `s_first_data_block`. -/
def sFirstDataBlock : U32 := wordAt sb.raw 20

/-- `s_log_block_size`. -/
def sLogBlockSize : U32 := wordAt sb.raw 24

/-- `s_blocks_per_group`. -/
def sBlocksPerGroup : U32 := wordAt sb.raw 32

/-- `s_inodes_per_group`. -/
def sInodesPerGroup : U32 := wordAt sb.raw 40

/-- `s_magic`. -/
def sMagic : U32 := littleEndian ((sb.raw.drop 56).take 2)

/-- `s_rev_level`. -/
def sRevLevel : U32 := wordAt sb.raw 76

/-- `s_inode_size`. -/
def sInodeSize : U16 := (littleEndian ((sb.raw.drop 88).take 2)).setWidth 16

/-- `s_feature_incompat`. -/
def sFeatureIncompat : U32 := wordAt sb.raw 96

/-- `m_block_size`: the processor shifts by the low five bits of the count. -/
def blockSize : U32 := ext3MinBlockSize <<< (sb.sLogBlockSize.toNat % 32)

/-- `Superblock::groups_count`. -/
def groupsCount : U32 :=
  let blocksPer := sb.sBlocksPerGroup
  if blocksPer = 0 then
    0
  else
    let total := sb.sBlocksCount - sb.sFirstDataBlock
    (total + blocksPer - 1) / blocksPer

/-- The fields that the reader uses. -/
def toSuperblock : Superblock where
  inodesCount := sb.sInodesCount
  inodesPerGroup := sb.sInodesPerGroup
  revLevel := sb.sRevLevel
  sInodeSize := sb.sInodeSize
  featureIncompat := sb.sFeatureIncompat
  blockSize := sb.blockSize

/-- The number of descriptors that are read; the limit is `MAX_TABLE_GROUPS`. -/
def tableGroups : U32 :=
  if sb.groupsCount > 128 then 128 else sb.groupsCount

/-- `table_size`. -/
def tableSize : U32 := sb.tableGroups * 32

/-- `table_blocks`. -/
def tableBlocks : U32 := (sb.tableSize + sb.blockSize - 1) / sb.blockSize

end SuperblockDisk

/-- `Superblock::read`; `none` is the result -1. -/
def readSuperblock (disk : Disk) (junk : Nat → U8) : Except Ext3Fault (Option SuperblockDisk) :=
  let (isRead, stores) := disk.transferSectors 2 2
  if Within 1024 stores then
    if isRead then
      let sb : SuperblockDisk := ⟨slice (applyAll stores junk) 0 superblockDiskSize⟩
      .ok (if sb.sMagic ≠ ext3Magic then none else some sb)
    else
      .ok none
  else
    .error .superblockBuffer

/-- `BlockGroupDescriptorTable::read` behind `pmm_alloc`. -/
def fillDescriptors (disk : Disk) (sb : SuperblockDisk) (addr : U64) :
    EStateM Ext3Fault Pmm (Option BlockGroupDescriptorTable) := do
  let allocSize := (sb.tableSize + 4095) &&& ~~~4095
  if pageSize.toNat < allocSize.toNat then
    throw .descriptorFrame
  else if sb.blockSize = 0 then
    throw .divideByZero
  else
    let startBlock := sb.sFirstDataBlock + 1
    match disk.transferBlocks startBlock sb.tableBlocks sb.blockSize with
    | none => throw .divideByZero
    | some (isRead, stores) =>
        if Within pageSize.toNat stores then
          if isRead then
            let content := applyAll stores fun _ => 0
            return some ⟨some fun i => ⟨littleEndian (slice content (32 * i + 8) 4)⟩,
              sb.tableGroups⟩
          else
            modify fun pmm => pmmFree pmm addr
            return none
        else
          throw .descriptorFrame

/-- `BlockGroupDescriptorTable::read`; `none` is the result -1. -/
def readDescriptors (disk : Disk) (sb : SuperblockDisk) :
    EStateM Ext3Fault Pmm (Option BlockGroupDescriptorTable) := do
  if sb.groupsCount = 0 then
    return none
  else
    let addr ← modifyGet pmmAlloc
    if addr = 0 then
      return none
    else
      fillDescriptors disk sb addr

/-- `FileSystem::mount` of a device; `none` is the result -1. -/
def mount (dev : BlockDevice) (junk : Nat → U8) (files : Fin maxOpenFiles → Ext3File) :
    EStateM Ext3Fault Pmm (Option FileSystem) := do
  match ← lift (readSuperblock (.open dev) junk) with
  | none => return none
  | some sb =>
      match ← readDescriptors (.open dev) sb with
      | none => return none
      | some bgt => return some ⟨sb.toSuperblock, bgt, .open dev, files⟩

theorem fd_lt {fd : Int} (inRange : 0 ≤ fd ∧ fd.toNat < maxOpenFiles) : fd.toNat < maxOpenFiles :=
  inRange.2

/-- `FileSystem::read`: the result, the bytes written and the new state. -/
def readFile (fs : FileSystem) (stale : U32 → Nat → U8) (fd : Int) (len : U32) :
    Except Ext3Fault (Int × List U8 × FileSystem) :=
  if inRange : 0 ≤ fd ∧ fd.toNat < maxOpenFiles then
    let file := fs.files ⟨fd.toNat, fd_lt inRange⟩
    if file.inUse = false then
      .ok (-1, [], fs)
    else if file.pos ≥ file.inode.size then
      .ok (0, [], fs)
    else do
      let room := len.toNat
      let len := if file.pos + len > file.inode.size then file.inode.size - file.pos else len
      let (bytes, written) ←
        loadData fs.disk fs.sb.blockSize stale file.inode room file.pos len
      let moved :=
        if bytes > 0 then { file with pos := file.pos + BitVec.ofInt 32 bytes } else file
      return (bytes, written,
        { fs with files := Function.update fs.files ⟨fd.toNat, fd_lt inRange⟩ moved })
  else
    .ok (-1, [], fs)

end XKern
