import XKern.Ext3Inode

namespace XKern

open Slices BitVec Nat Option

/-!
# Where inodes are on the disk

The format puts the inodes of a group one after the other, each as long as the
superblock says.  `read_from_disk` takes the length from `inode_size`, which
looks at it only if an incompat flag is set, and computes the place with 32-bit
numbers.
-/

/-! ## The format -/

/-- The superblocks of revision 0 and 1 that the format allows. -/
structure Superblock.Valid (sb : Superblock) : Prop where
  blockSize : ∃ k ≤ 6, sb.blockSize.toNat = 1024 * 2 ^ k
  inodesPerGroup : 0 < sb.inodesPerGroup.toNat
  inodeSize : sb.revLevel = 0 ∨ sb.revLevel = 1 ∧
    (∃ k, sb.sInodeSize.toNat = 128 * 2 ^ k) ∧
      sb.sInodeSize.toNat ≤ sb.blockSize.toNat

/-- The inode size of the format. -/
def Superblock.formatInodeSize (sb : Superblock) : Nat :=
  if sb.revLevel = 0 then 128 else sb.sInodeSize.toNat

def Superblock.inodeGroup (sb : Superblock) (inodeNo : U32) : U32 :=
  (inodeNo - 1) / sb.inodesPerGroup

def Superblock.inodeIndex (sb : Superblock) (inodeNo : U32) : Nat :=
  ((inodeNo - 1) % sb.inodesPerGroup).toNat

/-- The offset of an inode on the disk. -/
def inodePlace (sb : Superblock) (bgt : BlockGroupDescriptorTable) (inodeNo : U32) : Nat :=
  (bgt.inodeTable (sb.inodeGroup inodeNo)).toNat * sb.blockSize.toNat +
    sb.inodeIndex inodeNo * sb.formatInodeSize

/-- The byte of the disk at which `read_from_disk` starts to copy. -/
def loadedPlace (sb : Superblock) (bgt : BlockGroupDescriptorTable) (inodeNo : U32) : Nat :=
  (bgt.inodeTable (sb.inodeGroup inodeNo)).toNat * sb.blockSize.toNat +
    sb.inodeIndex inodeNo * sb.inodeSize.toNat % 2 ^ 32

/-- The block that holds the start of an inode ends at this block number or before. -/
def inodeBlockEnd (sb : Superblock) (bgt : BlockGroupDescriptorTable) (inodeNo : U32) : Nat :=
  (bgt.inodeTable (sb.inodeGroup inodeNo)).toNat +
    sb.inodeIndex inodeNo * sb.formatInodeSize / sb.blockSize.toNat + 1

/--
The inode is loaded from its place, whatever the disk holds, as long as its
block lies on the device.
-/
def InodeLocated (sb : Superblock) (bgt : BlockGroupDescriptorTable)
    (inodeNo : U32) : Prop :=
  ∀ disk dev image, Disk.Opened disk dev image → dev.Serves → dev.Divides sb.blockSize →
    inodeBlockEnd sb bgt inodeNo * sb.blockSize.toNat ≤
      dev.blockCount.toNat * dev.blockSize.toNat →
    readFromDisk disk sb bgt inodeNo = some {
      raw := slice image (inodePlace sb bgt inodeNo) inodeDiskSize
      number := inodeNo }

/-! ## The stride -/

namespace Superblock

variable {sb : Superblock}

theorem toNat_inodeSize (sb : Superblock) : sb.inodeSize.toNat =
      if sb.revLevel ≥ 1 ∧ sb.featureIncompat &&& 0x80 ≠ 0 then sb.sInodeSize.toNat
      else 128 := by
  rw [inodeSize]
  split
  · rw [toNat_setWidth, mod_eq_of_lt]
    exact sb.sInodeSize.isLt.trans (by decide)
  · rfl

theorem toNat_offsetInTable (sb : Superblock) (inodeNo : U32) :
    ((inodeNo - 1) % sb.inodesPerGroup * sb.inodeSize).toNat =
      sb.inodeIndex inodeNo * sb.inodeSize.toNat % 2 ^ 32 :=
  toNat_mul _ _

namespace Valid

variable (valid : sb.Valid)

include valid

theorem formatInodeSize_eq : ∃ k, sb.formatInodeSize = 128 * 2 ^ k := by
  rw [formatInodeSize]
  rcases valid.inodeSize with old | ⟨new, power, _⟩
  · exact ⟨0, if_pos old⟩
  · rw [if_neg (by rw [new]; decide)]
    exact power

theorem toNat_inodeSize_eq : sb.inodeSize.toNat =
      if sb.featureIncompat &&& 0x80 ≠ 0 then sb.formatInodeSize else 128 := by
  rw [toNat_inodeSize, formatInodeSize]
  rcases valid.inodeSize with old | ⟨new, _⟩
  · rw [if_neg (by rw [old]; simp), if_pos old, ite_self]
  · have least : sb.revLevel ≥ 1 := by
      rw [new]
      decide
    have notOld : sb.revLevel ≠ 0 := by
      rw [new]
      decide
    simp only [least, true_and, if_neg notOld]

theorem dvd_inodeSize : 128 ∣ sb.inodeSize.toNat := by
  rw [valid.toNat_inodeSize_eq]
  split
  · obtain ⟨k, isPower⟩ := valid.formatInodeSize_eq
    exact ⟨2 ^ k, isPower⟩
  · exact dvd_refl 128

theorem inodeSize_le : sb.inodeSize.toNat ≤ sb.formatInodeSize := by
  rw [valid.toNat_inodeSize_eq]
  split
  · exact le_refl _
  · obtain ⟨k, isPower⟩ := valid.formatInodeSize_eq
    rw [isPower]
    exact Nat.le_mul_of_pos_right _ (Nat.two_pow_pos k)

theorem dvd_blockSize : 512 ∣ sb.blockSize.toNat := by
  obtain ⟨k, _, isPower⟩ := valid.blockSize
  exact ⟨2 * 2 ^ k, by rw [isPower, ← Nat.mul_assoc]⟩

theorem blockSize_pos : 0 < sb.blockSize.toNat := by
  obtain ⟨k, _, isPower⟩ := valid.blockSize
  rw [isPower]
  exact mul_pos (by decide) (Nat.two_pow_pos k)

/-- The two places agree if the lengths do and the offset has no more than 32 bits. -/
theorem loadedPlace_eq_iff (bgt : BlockGroupDescriptorTable) (inodeNo : U32) :
    loadedPlace sb bgt inodeNo = inodePlace sb bgt inodeNo ↔ sb.inodeIndex inodeNo = 0 ∨
        (sb.featureIncompat &&& 0x80 ≠ 0 ∨ sb.formatInodeSize = 128) ∧
          sb.inodeIndex inodeNo * sb.formatInodeSize < 2 ^ 32 := by
  have stride := valid.toNat_inodeSize_eq
  have le := valid.inodeSize_le
  rw [loadedPlace, inodePlace, add_left_cancel_iff]
  constructor
  · intro same
    by_cases first : sb.inodeIndex inodeNo = 0
    · exact Or.inl first
    · have atMost := mul_le_mul_left (sb.inodeIndex inodeNo) le
      have equal : sb.inodeSize.toNat = sb.formatInodeSize :=
        Nat.eq_of_mul_eq_mul_left (pos_of_ne_zero first) (by omega)
      refine Or.inr ⟨?_, by omega⟩
      by_contra neither
      push Not at neither
      rw [if_neg (not_not.mpr neither.1)] at stride
      exact neither.2 (equal.symm.trans stride)
  · rintro (first | ⟨lengths, bounded⟩)
    · rw [first]
      simp
    · have equal : sb.inodeSize.toNat = sb.formatInodeSize := by
        rw [stride]
        split
        · rfl
        · rename_i unset
          exact (lengths.resolve_left unset).symm
      rw [equal, mod_eq_of_lt bounded]

theorem offsetInTable_le (inodeNo : U32) : sb.inodeIndex inodeNo * sb.inodeSize.toNat % 2 ^ 32 ≤
      sb.inodeIndex inodeNo * sb.formatInodeSize :=
  (mod_le _ _).trans (mul_le_mul_left _ valid.inodeSize_le)

theorem inodeDiskSize_inBlock (inodeNo : U32) :
    sb.inodeIndex inodeNo * sb.inodeSize.toNat % 2 ^ 32 % sb.blockSize.toNat +
      inodeDiskSize ≤ sb.blockSize.toNat := by
  have inBlock := mod_lt
    (sb.inodeIndex inodeNo * sb.inodeSize.toNat % 2 ^ 32) valid.blockSize_pos
  have blocks : 128 ∣ sb.blockSize.toNat := (by decide : 128 ∣ 512).trans valid.dvd_blockSize
  have strides : 128 ∣ sb.inodeIndex inodeNo * sb.inodeSize.toNat % 2 ^ 32 :=
    (dvd_mod_iff (by decide)).mpr (valid.dvd_inodeSize.mul_left _)
  have aligned := (dvd_mod_iff blocks).mpr strides
  rw [inodeDiskSize]
  omega

end Valid

end Superblock

/-! ## The place of an inode -/

section Location

variable {sb : Superblock} (valid : sb.Valid) {bgt : BlockGroupDescriptorTable}
  {inodeNo : U32} (positive : inodeNo ≠ 0)
  (described : bgt.inodeTable (sb.inodeGroup inodeNo) ≠ 0)

include valid

theorem readFromDisk_block {dev : BlockDevice} (divides : dev.Divides sb.blockSize)
    (onDevice : inodeBlockEnd sb bgt inodeNo * sb.blockSize.toNat ≤
      dev.blockCount.toNat * dev.blockSize.toNat) :
    (bgt.inodeTable (sb.inodeGroup inodeNo) +
        (inodeNo - 1) % sb.inodesPerGroup * sb.inodeSize / sb.blockSize).toNat =
      (bgt.inodeTable (sb.inodeGroup inodeNo)).toNat +
        sb.inodeIndex inodeNo * sb.inodeSize.toNat % 2 ^ 32 / sb.blockSize.toNat ∧
    dev.HasBlock sb.blockSize (bgt.inodeTable (sb.inodeGroup inodeNo) +
      (inodeNo - 1) % sb.inodesPerGroup * sb.inodeSize / sb.blockSize) := by
  have before := Nat.div_le_div_right (c := sb.blockSize.toNat) (valid.offsetInTable_le inodeNo)
  have sectors : dev.blockSize.toNat ≤ sb.blockSize.toNat :=
    le_of_dvd valid.blockSize_pos divides.divides
  have blocks : inodeBlockEnd sb bgt inodeNo ≤ dev.blockCount.toNat := le_of_mul_le_mul_right
      (onDevice.trans (mul_le_mul_left _ sectors)) valid.blockSize_pos
  have isBlock : (bgt.inodeTable (sb.inodeGroup inodeNo) +
        (inodeNo - 1) % sb.inodesPerGroup * sb.inodeSize / sb.blockSize).toNat =
      (bgt.inodeTable (sb.inodeGroup inodeNo)).toNat +
        sb.inodeIndex inodeNo * sb.inodeSize.toNat % 2 ^ 32 / sb.blockSize.toNat := by
    rw [inodeBlockEnd] at blocks
    rw [toNat_add, toNat_udiv, Superblock.toNat_offsetInTable, mod_eq_of_lt (by omega)]
  refine ⟨isBlock, le_trans ?_ onDevice⟩
  rw [isBlock, inodeBlockEnd]
  exact mul_le_mul_right _ (by omega)

include positive described

theorem readFromDisk_eq {disk : Disk} {dev : BlockDevice} {image : Nat → U8}
    (opened : disk.Opened dev image) (serves : dev.Serves) (divides : dev.Divides sb.blockSize)
    (onDevice : inodeBlockEnd sb bgt inodeNo * sb.blockSize.toNat ≤
      dev.blockCount.toNat * dev.blockSize.toNat) :
    readFromDisk disk sb bgt inodeNo = some {
      raw := slice image (loadedPlace sb bgt inodeNo) inodeDiskSize
      number := inodeNo } := by
  obtain ⟨isBlock, has⟩ := readFromDisk_block valid divides onDevice
  obtain ⟨blockBuf, isRead⟩ := isSome_iff_exists.mp
    (opened.readBlock_isSome serves divides has)
  have bytes := opened.readBlock_eq divides has isRead
  have offset : ((inodeNo - 1) % sb.inodesPerGroup * sb.inodeSize % sb.blockSize).toNat =
      sb.inodeIndex inodeNo * sb.inodeSize.toNat % 2 ^ 32 % sb.blockSize.toNat := by
    rw [toNat_umod, Superblock.toNat_offsetInTable]
  have place : (bgt.inodeTable (sb.inodeGroup inodeNo) +
        (inodeNo - 1) % sb.inodesPerGroup * sb.inodeSize / sb.blockSize).toNat *
          sb.blockSize.toNat +
        sb.inodeIndex inodeNo * sb.inodeSize.toNat % 2 ^ 32 % sb.blockSize.toNat =
      loadedPlace sb bgt inodeNo := by
    rw [isBlock, Nat.add_mul, Nat.add_assoc, div_add_mod', loadedPlace]
  rw [Superblock.inodeGroup] at described isRead bytes place
  simp only [readFromDisk, if_neg positive, if_neg described]
  rw [isRead]
  simp only [bind, pure, bind_some, Option.some.injEq, Inode.mk.injEq, and_true]
  rw [bytes, offset, take_drop_slice _ _ (valid.inodeDiskSize_inBlock inodeNo), place]

theorem inodeLocated_of_loadedPlace
    (same : loadedPlace sb bgt inodeNo = inodePlace sb bgt inodeNo) :
    InodeLocated sb bgt inodeNo := by
  intro disk dev image opened serves divides onDevice
  rw [readFromDisk_eq valid positive described opened serves divides onDevice, same]

/-- A disk that holds nothing but the first byte of the inode tells the places apart. -/
theorem loadedPlace_of_inodeLocated
    (addressable : inodeBlockEnd sb bgt inodeNo * sb.blockSize.toNat < 2 ^ 32 * 512)
    (located : InodeLocated sb bgt inodeNo) :
    loadedPlace sb bgt inodeNo = inodePlace sb bgt inodeNo := by
  let image : Nat → U8 := fun i => if i = inodePlace sb bgt inodeNo then 1 else 0
  have divides : (imageDevice image (2 ^ 32 - 1)).Divides sb.blockSize :=
    imageDevice_divides image _ valid.dvd_blockSize
  have onDevice : inodeBlockEnd sb bgt inodeNo * sb.blockSize.toNat ≤
      (imageDevice image (2 ^ 32 - 1)).blockCount.toNat *
        (imageDevice image (2 ^ 32 - 1)).blockSize.toNat := by
    obtain ⟨blocks, isMultiple⟩ := valid.dvd_blockSize.mul_left (inodeBlockEnd sb bgt inodeNo)
    have device : (imageDevice image (2 ^ 32 - 1)).blockCount.toNat *
        (imageDevice image (2 ^ 32 - 1)).blockSize.toNat = (2 ^ 32 - 1) * 512 := rfl
    omega
  have loaded := readFromDisk_eq valid positive described (imageDisk_opened image (2 ^ 32 - 1))
    (imageDevice_serves image _) divides onDevice
  rw [located _ _ _ (imageDisk_opened image (2 ^ 32 - 1)) (imageDevice_serves image _)
    divides onDevice] at loaded
  have bytes := congrArg (fun found => found.map fun inode => inode.raw[0]?) loaded
  simp only [map_some, getElem?_slice image _ (by decide : 0 < inodeDiskSize),
    Option.some.injEq, add_zero, image, if_true] at bytes
  by_contra different
  rw [if_neg different] at bytes
  exact absurd bytes (by decide)

end Location

/--
`read_from_disk` finds an inode exactly when it is the first of its group, or
when the incompat flag is set or inodes have 128 bytes and its offset in the
table has no more than 32 bits.
-/
theorem inodeLocated_iff {sb : Superblock} (valid : sb.Valid) {bgt : BlockGroupDescriptorTable}
    {inodeNo : U32} (positive : inodeNo ≠ 0)
    (described : bgt.inodeTable (sb.inodeGroup inodeNo) ≠ 0)
    (addressable : inodeBlockEnd sb bgt inodeNo * sb.blockSize.toNat < 2 ^ 32 * 512) :
    InodeLocated sb bgt inodeNo ↔
      sb.inodeIndex inodeNo = 0 ∨
        (sb.featureIncompat &&& 0x80 ≠ 0 ∨ sb.formatInodeSize = 128) ∧
          sb.inodeIndex inodeNo * sb.formatInodeSize < 2 ^ 32 := by
  rw [← valid.loadedPlace_eq_iff bgt inodeNo]
  constructor
  · exact loadedPlace_of_inodeLocated valid positive described addressable
  · exact inodeLocated_of_loadedPlace valid positive described

/-- A superblock of revision 1 with one group of 32 inodes. -/
def sampleSuperblock (inodeSize : U16) (incompat : U32) : Superblock where
  inodesCount := 32
  inodesPerGroup := 32
  revLevel := 1
  sInodeSize := inodeSize
  featureIncompat := incompat
  blockSize := 1024

def sampleGroups : BlockGroupDescriptorTable where
  table := some fun _ => { bgInodeTable := 5 }
  count := 1

theorem sampleSuperblock_valid {inodeSize : U16} (power : ∃ k, inodeSize.toNat = 128 * 2 ^ k)
    (inBlock : inodeSize.toNat ≤ 1024) (incompat : U32) :
    (sampleSuperblock inodeSize incompat).Valid where
  blockSize := ⟨0, by decide, rfl⟩
  inodesPerGroup := succ_pos 31
  inodeSize := .inr ⟨rfl, power, inBlock⟩

/-- An inode of 128 bytes. -/
theorem smallInode_located : InodeLocated (sampleSuperblock 128 2) sampleGroups 2 :=
  (inodeLocated_iff (sampleSuperblock_valid ⟨0, rfl⟩ (by decide) 2) (by decide) (by decide)
    (by decide)).mpr (Or.inr ⟨Or.inr rfl, by decide⟩)

/-- The second inode of the table has 256 bytes and the size 1024. -/
def rootImage (i : Nat) : U8 :=
  if i = 5 * 1024 + 256 + 5 then 4 else 0

/-- With inodes of 256 bytes and no incompat flag but `filetype`, the root is not found. -/
theorem rootInode_notLocated :
    (sampleSuperblock 256 2).Valid ∧
      (Inode.mk (slice rootImage (inodePlace (sampleSuperblock 256 2) sampleGroups 2)
        inodeDiskSize) 2).size = 1024 ∧
      (readFromDisk (imageDisk rootImage 64) (sampleSuperblock 256 2) sampleGroups 2).map
        Inode.size = some 0 ∧
      ¬ InodeLocated (sampleSuperblock 256 2) sampleGroups 2 := by
  have format : (Inode.mk (slice rootImage (inodePlace (sampleSuperblock 256 2) sampleGroups 2)
      inodeDiskSize) 2).size = 1024 := by
    decide
  have loaded : (readFromDisk (imageDisk rootImage 64) (sampleSuperblock 256 2) sampleGroups
      2).map Inode.size = some 0 := by
    decide +kernel
  refine ⟨sampleSuperblock_valid ⟨1, rfl⟩ (by decide) 2, format, loaded, ?_⟩
  intro located
  rw [located _ _ _ (imageDisk_opened rootImage 64) (imageDevice_serves rootImage 64)
    (imageDevice_divides rootImage 64 (by decide)) (by decide), map_some, format]
    at loaded
  exact absurd loaded (by decide)

end XKern
