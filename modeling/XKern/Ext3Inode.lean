import XKern.Ext3Disk

namespace XKern

/-!
# Inodes of an ext3 file system

Model of `bsd/ext3/src/inode.cpp`, of the parts of the superblock and of the
group descriptors that it uses, and of `FileSystem::read`.  The packed structs
are kept as the bytes that are copied into them.  What `read_data` writes to
its buffer is a list of bytes, since every round writes where the last one
ended.
-/

/-- The value of some bytes, the lowest first. -/
def littleEndian (bytes : List U8) : U32 :=
  bytes.foldr (fun byte high => (high <<< 8) ||| byte.setWidth 32) 0

/-- The word at an offset of a packed struct or of a table. -/
def wordAt (bytes : List U8) (offset : Nat) : U32 :=
  littleEndian ((bytes.drop offset).take 4)

/-- `EXT3_DIRECT_BLOCKS`. -/
def ext3DirectBlocks : U32 := 12

/-- `EXT3_MIN_INODE_SIZE`. -/
def ext3MinInodeSize : U32 := 128

/-- `sizeof(inode_disk)`. -/
def inodeDiskSize : Nat := 124

/-- `class Inode`; `raw` is `m_disk`. -/
structure Inode where
  raw : List U8
  number : U32
  deriving DecidableEq

/-- `i_size`. -/
def Inode.size (inode : Inode) : U32 :=
  wordAt inode.raw 4

/-- `i_block[k]`; the struct has no word between `i_flags` and `i_block`. -/
def Inode.block (inode : Inode) (k : Nat) : U32 :=
  wordAt inode.raw (36 + 4 * k)

/-- `class Superblock`, as far as inodes need it. -/
structure Superblock where
  inodesCount : U32
  inodesPerGroup : U32
  revLevel : U32
  sInodeSize : U16
  featureIncompat : U32
  blockSize : U32
  deriving DecidableEq

/-- `Superblock::inode_size`. -/
def Superblock.inodeSize (sb : Superblock) : U32 :=
  if sb.revLevel ≥ 1 ∧ sb.featureIncompat &&& 0x80 ≠ 0 then
    sb.sInodeSize.setWidth 32
  else
    ext3MinInodeSize

/-- `blk_group_disk`, as far as inodes need it. -/
structure BlkGroupDisk where
  bgInodeTable : U32
  deriving DecidableEq

/-- `class BlockGroupDescriptorTable`. -/
structure BlockGroupDescriptorTable where
  table : Option (Nat → BlkGroupDisk)
  count : U32

namespace BlockGroupDescriptorTable

/-- `BlockGroupDescriptorTable::get`. -/
def get (bgt : BlockGroupDescriptorTable) (index : U32) : Option BlkGroupDisk :=
  if index ≥ bgt.count then none else bgt.table.map fun table => table index.toNat

/-- `BlockGroupDescriptorTable::inode_table`. -/
def inodeTable (bgt : BlockGroupDescriptorTable) (group : U32) : U32 :=
  match bgt.get group with
  | some descriptor => descriptor.bgInodeTable
  | none => 0

end BlockGroupDescriptorTable

/-- `Inode::read_from_disk`, for `s_inodes_per_group` and block size not 0. -/
def readFromDisk (disk : Disk) (sb : Superblock) (bgt : BlockGroupDescriptorTable)
    (inodeNo : U32) : Option Inode :=
  if inodeNo = 0 then
    none
  else
    let group := (inodeNo - 1) / sb.inodesPerGroup
    let index := (inodeNo - 1) % sb.inodesPerGroup
    let inodeTableBlk := bgt.inodeTable group
    if inodeTableBlk = 0 then
      none
    else do
      let offsetInTable := index * sb.inodeSize
      let blockOffset := offsetInTable % sb.blockSize
      let blockNo := inodeTableBlk + offsetInTable / sb.blockSize
      let blockBuf ← disk.readBlock blockNo sb.blockSize
      return {
        raw := (blockBuf.drop blockOffset.toNat).take inodeDiskSize
        number := inodeNo }

/-! ## File data -/

section ReadData

variable (disk : Disk) (blockSize : U32) (inode : Inode)

/-- A hole, or the part of a block from `blk_offset` on. -/
def copyBlock (physBlk blkOffset toCopy : U32) : Option (List U8) :=
  if physBlk = 0 then
    some (List.replicate toCopy.toNat 0)
  else do
    let tmp ← disk.readBlock physBlk blockSize
    return (tmp.drop blkOffset.toNat).take toCopy.toNat

/-- The bytes of one round of `read_data`; `none` is a failed read. -/
def readDataRound (fileOff toCopy : U32) : Option (List U8) :=
  let logicalBlk := fileOff / blockSize
  let blkOffset := fileOff % blockSize
  if logicalBlk < ext3DirectBlocks then
    copyBlock disk blockSize (inode.block logicalBlk.toNat) blkOffset toCopy
  else if logicalBlk < ext3DirectBlocks + blockSize / 4 then
    let indirect := inode.block ext3DirectBlocks.toNat
    if indirect = 0 then
      some (List.replicate toCopy.toNat 0)
    else do
      let ind ← disk.readBlock indirect blockSize
      let idx := logicalBlk - ext3DirectBlocks
      copyBlock disk blockSize (wordAt ind (4 * idx.toNat)) blkOffset toCopy
  else
    some (List.replicate toCopy.toNat 0)

/-- `to_copy` with its three bounds. -/
def toCopy (offset len bytesRead : U32) : U32 :=
  let fileOff := offset + bytesRead
  let toBlockEnd := blockSize - fileOff % blockSize
  let toLen := if toBlockEnd > len - bytesRead then len - bytesRead else toBlockEnd
  if toLen > inode.size - fileOff then inode.size - fileOff else toLen

/--
The loop of `read_data`: the result and the bytes written.  The outer `none`
stands for a loop that is still running.
-/
def readDataLoop (offset len : U32) : Nat → U32 → List U8 → Option (Int × List U8)
  | 0, _, _ => none
  | fuel + 1, bytesRead, out =>
      if bytesRead < len then
        if offset + bytesRead ≥ inode.size then
          some (bytesRead.toInt, out)
        else
          let count := toCopy blockSize inode offset len bytesRead
          match readDataRound disk blockSize inode (offset + bytesRead) count with
          | none => some (-1, out)
          | some bytes => readDataLoop offset len fuel (bytesRead + count) (out ++ bytes)
      else
        some (bytesRead.toInt, out)

/-- `Inode::read_data`; every round but the last reads at least one byte. -/
def readData (offset len : U32) : Option (Int × List U8) :=
  readDataLoop disk blockSize inode offset len (len.toNat + 1) 0 []

end ReadData

/-! ## Open files -/

/-- `struct File`. -/
structure Ext3File where
  inodeNo : U32
  inode : Inode
  pos : U32
  inUse : Bool

/-- `MAX_OPEN_FILES`. -/
def maxOpenFiles : Nat := 16

instance maxOpenFiles_neZero : NeZero maxOpenFiles :=
  ⟨by decide⟩

/-- `class FileSystem`, mounted. -/
structure FileSystem where
  sb : Superblock
  bgt : BlockGroupDescriptorTable
  disk : Disk
  files : Fin maxOpenFiles → Ext3File

/-- `FileSystem::read`: the result, the bytes written and the new state. -/
def FileSystem.read (fs : FileSystem) (fd : Int) (len : U32) :
    Option (Int × List U8 × FileSystem) :=
  if inRange : 0 ≤ fd ∧ fd.toNat < maxOpenFiles then
    let file := fs.files ⟨fd.toNat, inRange.2⟩
    if file.inUse = false then
      some (-1, [], fs)
    else if file.pos ≥ file.inode.size then
      some (0, [], fs)
    else do
      let len := if file.pos + len > file.inode.size then file.inode.size - file.pos else len
      let (bytes, written) ← readData fs.disk fs.sb.blockSize file.inode file.pos len
      let moved :=
        if bytes > 0 then { file with pos := file.pos + BitVec.ofInt 32 bytes } else file
      return (bytes, written,
        { fs with files := Function.update fs.files ⟨fd.toNat, inRange.2⟩ moved })
  else
    some (-1, [], fs)

end XKern
