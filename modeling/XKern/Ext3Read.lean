import XKern.Ext3Data

namespace XKern

open Slices List BitVec Nat

/-!
# Reading ext3 files

Where the reader can follow the block map, a read gives the bytes of the file,
in one piece or in several.  Where it cannot, `FileSystem::read` gives zeros
and counts them as bytes of the file.
-/

/-! ## Results -/

namespace ReadsRange

variable {dev : BlockDevice} {byte : Nat → U8} {offset count : Nat} {result : Int}
  {bytes : List U8} (reads : ReadsRange dev byte offset count result bytes)

include reads

theorem of_serves (serves : dev.Serves) :
    result = (BitVec.ofNat 32 count).toInt ∧ bytes = slice byte offset count := by
  rcases reads with whole | ⟨fails, _⟩
  · exact whole
  · exact absurd serves fails

end ReadsRange

theorem readLength_lt (inode : Inode) (offset len : U32) : readLength inode offset len < 2 ^ 32 :=
  (min_le_left _ _).trans_lt len.isLt

theorem FileOnDisk.readsRange_of_within {disk : Disk} {dev : BlockDevice} {image : Nat → U8}
    {blockSize : U32} {inode : Inode} (onDisk : FileOnDisk disk dev image blockSize inode)
    {offset len : U32}
    (within : ∀ i, i < readLength inode offset len →
      WithinReach blockSize.toNat (offset.toNat + i)) :
    ∃ result bytes, readData disk blockSize inode offset len = some (result, bytes) ∧
        ReadsRange dev (ext3Byte image blockSize.toNat inode) offset.toNat
          (readLength inode offset len) result bytes := by
  obtain ⟨result, bytes, isRead, reads⟩ := onDisk.readData_spec offset len
  refine ⟨result, bytes, isRead, ?_⟩
  rcases reads with ⟨isResult, isSlice⟩ | ⟨fails, isResult, done, le, isSlice⟩
  · exact .inl ⟨isResult, isSlice.trans (slice_readerByte_within image inode within)⟩
  · refine .inr ⟨fails, isResult, done, le, isSlice.trans ?_⟩
    exact slice_readerByte_within image inode fun i below => within i (by omega)

/-! ## Ranges that the reader can map -/

/-- Reads of the chunks of a range, one after the other; `none` is a failed read. -/
def readChunks (disk : Disk) (blockSize : U32) (inode : Inode) :
    U32 → List U32 → Option (List U8)
  | _, [] => some []
  | offset, len :: rest => do
      let (result, bytes) ← readData disk blockSize inode offset len
      if result < 0 then
        none
      else
        let more ← readChunks disk blockSize inode (offset + len) rest
        return bytes ++ more

/-- The bytes of the file in the range of `len` bytes from `offset` on. -/
def fileRange (image : Nat → U8) (blockSize : Nat) (inode : Inode) (offset len : Nat) :
    List U8 :=
  slice (ext3Byte image blockSize inode) offset (min len (inode.size.toNat - offset))

theorem fileRange_add (image : Nat → U8) (blockSize : Nat) (inode : Inode)
    (offset first second : Nat) :
    fileRange image blockSize inode offset (first + second) =
      fileRange image blockSize inode offset first ++
        fileRange image blockSize inode (offset + first) second := by
  simp only [fileRange]
  by_cases inFile : offset + first ≤ inode.size.toNat
  · have whole : min first (inode.size.toNat - offset) = first := by omega
    have split : min (first + second) (inode.size.toNat - offset) =
        first + min second (inode.size.toNat - (offset + first)) := by
      omega
    rw [whole, split, slice_add]
  · have nothing : min second (inode.size.toNat - (offset + first)) = 0 := by omega
    have same : min (first + second) (inode.size.toNat - offset) =
        min first (inode.size.toNat - offset) := by
      omega
    rw [nothing, same, slice_zero, append_nil]

section Exact

variable {disk : Disk} {dev : BlockDevice} {image : Nat → U8} {blockSize : U32}
  {inode : Inode} (onDisk : FileOnDisk disk dev image blockSize inode)
  (serves : dev.Serves) (sizeBound : inode.size.toNat < 2 ^ 31)

include onDisk serves sizeBound

theorem readData_eq_of_serves (offset len : U32)
    (within : ∀ i, i < len.toNat → WithinReach blockSize.toNat (offset.toNat + i)) :
    readData disk blockSize inode offset len = some ((readLength inode offset len : Int),
        fileRange image blockSize.toNat inode offset.toNat len.toNat) := by
  have bounded := readLength_lt inode offset len
  have small : readLength inode offset len < 2 ^ 31 := by
    rw [readLength]
    omega
  obtain ⟨result, bytes, isRead, reads⟩ := onDisk.readsRange_of_within
    fun i below => within i (below.trans_le (min_le_left _ _))
  obtain ⟨rfl, rfl⟩ := reads.of_serves serves
  rw [isRead, toInt_eq_toNat_of_lt (by rw [toNat_ofNat]; omega),
    toNat_ofNat, mod_eq_of_lt bounded]
  rfl

theorem readChunks_eq (chunks : List U32) (offset : U32)
    (fits : offset.toNat + (chunks.map BitVec.toNat).sum < 2 ^ 32)
    (within : ∀ i, i < (chunks.map BitVec.toNat).sum →
      WithinReach blockSize.toNat (offset.toNat + i)) :
    readChunks disk blockSize inode offset chunks =
      some (fileRange image blockSize.toNat inode offset.toNat (chunks.map BitVec.toNat).sum) := by
  induction chunks generalizing offset with
  | nil => simp [readChunks, fileRange]
  | cons len rest ih =>
    rw [map_cons, sum_cons] at fits within ⊢
    have next : (offset + len).toNat = offset.toNat + len.toNat := by
      rw [toNat_add]
      omega
    have first := readData_eq_of_serves onDisk serves sizeBound offset len
      fun i below => within i (by omega)
    have others := ih (offset + len) (by rw [next]; omega) (by
        intro i below
        rw [next, add_assoc]
        exact within (len.toNat + i) (by omega))
    have notNegative : ¬ ((readLength inode offset len : Int) < 0) := by omega
    rw [readChunks, first]
    simp [notNegative, others, next, fileRange_add]

end Exact

/--
`read_data` on a range below the double indirect block: the result is the part
of the range that the file has, or -1 when the device fails, and the bytes are
those of the block map.  On a device that does not fail, chunks of the range
read one after the other give the same bytes.
-/
theorem readData_exact {disk : Disk} {dev : BlockDevice} {image : Nat → U8} {blockSize : U32}
    {inode : Inode} (onDisk : FileOnDisk disk dev image blockSize inode)
    (sizeBound : inode.size.toNat < 2 ^ 31) (offset len : U32)
    (fits : offset.toNat + len.toNat < 2 ^ 32)
    (within : ∀ i, i < len.toNat → WithinReach blockSize.toNat (offset.toNat + i)) :
    (∃ result bytes, readData disk blockSize inode offset len = some (result, bytes) ∧
      ReadsRange dev (ext3Byte image blockSize.toNat inode) offset.toNat
        (min len.toNat (inode.size.toNat - offset.toNat)) result bytes) ∧
    (dev.Serves →
      readData disk blockSize inode offset len =
          some (((min len.toNat (inode.size.toNat - offset.toNat) : Nat) : Int),
            fileRange image blockSize.toNat inode offset.toNat len.toNat) ∧
        ∀ chunks : List U32, (chunks.map BitVec.toNat).sum = len.toNat →
          readChunks disk blockSize inode offset chunks =
            some (fileRange image blockSize.toNat inode offset.toNat len.toNat)) := by
  refine ⟨?_, ?_⟩
  · exact onDisk.readsRange_of_within fun i below => within i (below.trans_le (min_le_left _ _))
  · intro serves
    refine ⟨readData_eq_of_serves onDisk serves sizeBound offset len within, ?_⟩
    intro chunks isSum
    rw [← isSum] at fits within ⊢
    exact readChunks_eq onDisk serves sizeBound chunks offset fits within

/-- An inode with a size and three of its block numbers, all below 256 blocks. -/
def sampleInode (size : U32) (first second double : U8) : Inode where
  raw :=
    let zeros := fun count => List.replicate count (0 : U8)
    zeros 4 ++
      [size.setWidth 8, (size >>> 8).setWidth 8, (size >>> 16).setWidth 8,
        (size >>> 24).setWidth 8] ++
      zeros 28 ++ [first, 0, 0, 0, second, 0, 0, 0] ++
      zeros 44 ++ [double, 0, 0, 0] ++ zeros 32
  number := 12

def countingImage (i : Nat) : U8 :=
  .ofNat 8 (i - 1024)

theorem countingFile_onDisk :
    FileOnDisk (imageDisk countingImage 8) (imageDevice countingImage 8) countingImage
      1024 (sampleInode 2000 1 0 0) where
  opened := imageDisk_opened _ _
  divides := imageDevice_divides _ _ (by decide)
  positive := by decide
  sizeBound := by decide
  indirect := fun large => absurd large (by decide)
  blocks := by
    intro k _ inFile
    have size : (sampleInode 2000 1 0 0).size.toNat = 2000 := by decide
    rw [size] at inFile
    have small : k = 0 ∨ k = 1 := by
      have : k * 1024 < 2000 := inFile
      omega
    rcases small with rfl | rfl
    · intro _
      show (_ + 1) * _ ≤ _
      decide
    · intro present
      exact absurd (by decide) present

/-- The last bytes of a block and a hole behind it, in one read or in three. -/
theorem countingFile_exact :
    readData (imageDisk countingImage 8) 1024 (sampleInode 2000 1 0 0) 1022 4 =
        some (4, [0xfe, 0xff, 0, 0]) ∧
      readChunks (imageDisk countingImage 8) 1024 (sampleInode 2000 1 0 0) 1022
        [1, 0, 3] = some [0xfe, 0xff, 0, 0] := by
  have within (i : Nat) (below : i < (4 : U32).toNat) :
      WithinReach (1024 : U32).toNat ((1022 : U32).toNat + i) := by
    have below : i < 4 := below
    rw [WithinReach]
    simp only [reduceToNat]
    omega
  obtain ⟨whole, chunks⟩ := (readData_exact countingFile_onDisk (by decide) 1022 4
    (by decide) within).2 (imageDevice_serves _ _)
  have bytes : fileRange countingImage (1024 : U32).toNat (sampleInode 2000 1 0 0)
      (1022 : U32).toNat (4 : U32).toNat = [0xfe, 0xff, 0, 0] := by
    decide
  rw [bytes] at whole chunks
  exact ⟨whole, chunks [1, 0, 3] (by decide)⟩

/-! ## Ranges that it cannot map -/

/-- How many bytes of the file are read for an open file and a length. -/
def FileSystem.readLength (fs : FileSystem) (fd : Fin maxOpenFiles) (len : U32) : Nat :=
  XKern.readLength (fs.files fd).inode (fs.files fd).pos len

end XKern
