import XKern.Pmm
import XKern.Slices

namespace XKern

open Slices BitVec Nat Option

/-!
# The disk under a file system

Model of `bsd/ext3/src/disk.cpp`.  A device reads up to 255 sectors at a time
or fails.  What a call writes to its buffer is the list of bytes it returns;
`none` is the result -1.
-/

/-- `struct devfs_device`, as far as a disk uses it. -/
structure BlockDevice where
  blockSize : U32
  blockCount : U32
  /-- `read(dev, lba, count, buf)`. -/
  read : U32 → U8 → Option (List U8)

/-- `class Disk`. -/
structure Disk where
  dev : Option BlockDevice
  sectorSize : U32
  totalSectors : U32
  isOpen : Bool

/-- `batch`. -/
def batchSize (remaining : U32) : U8 :=
  if remaining > 128 then 128 else remaining.setWidth 8

/-- The loop of `read_sectors`. -/
def readBatches (dev : BlockDevice) : Nat → U32 → U32 → Option (List U8)
  | 0, _, _ => some []
  | fuel + 1, lba, remaining =>
      if remaining > 0 then do
        let batch := batchSize remaining
        let bytes ← dev.read lba batch
        let rest ← readBatches dev fuel (lba + batch.setWidth 32)
          (remaining - batch.setWidth 32)
        return bytes ++ rest
      else
        some []

/-- `Disk::read_sectors`; each round of the loop reads at least one sector. -/
def Disk.readSectors (disk : Disk) (lba count : U32) : Option (List U8) :=
  match disk.dev with
  | some dev =>
      if disk.isOpen = false ∨ lba + count > disk.totalSectors then
        none
      else
        readBatches dev count.toNat lba count
  | none => none

/-- `Disk::read_block`. -/
def Disk.readBlock (disk : Disk) (blockNo blockSize : U32) : Option (List U8) :=
  let sectorsPerBlock := blockSize / disk.sectorSize
  disk.readSectors (blockNo * sectorsPerBlock) sectorsPerBlock

/-! ## Disks that hold an image -/

/-- What the device reads is on the disk. -/
def BlockDevice.Holds (dev : BlockDevice) (image : Nat → U8) : Prop :=
  ∀ lba count bytes, dev.read lba count = some bytes →
    bytes = slice image (lba.toNat * dev.blockSize.toNat)
      (count.toNat * dev.blockSize.toNat)

/-- The device does not fail inside its range. -/
def BlockDevice.Serves (dev : BlockDevice) : Prop :=
  ∀ lba count, lba.toNat + count.toNat ≤ dev.blockCount.toNat →
    (dev.read lba count).isSome

/-- `Disk::open` has opened a device with the image. -/
structure Disk.Opened (disk : Disk) (dev : BlockDevice) (image : Nat → U8) : Prop where
  isDev : disk.dev = some dev
  sectorSize : disk.sectorSize = dev.blockSize
  totalSectors : disk.totalSectors = dev.blockCount
  isOpen : disk.isOpen = true
  holds : dev.Holds image

theorem toNat_batchSize (remaining : U32) :
    (batchSize remaining).toNat = min 128 remaining.toNat := by
  rw [batchSize]
  split
  · rename_i many
    have large : 128 < remaining.toNat := many
    simp only [reduceToNat]
    omega
  · rename_i few
    have small : remaining.toNat ≤ 128 := not_lt.mp few
    rw [toNat_setWidth]
    omega

section Batches

variable {dev : BlockDevice} {image : Nat → U8}

theorem toNat_batch (remaining : U32) :
    ((batchSize remaining).setWidth 32).toNat = min 128 remaining.toNat := by
  rw [toNat_setWidth, toNat_batchSize]
  omega

theorem toNat_add_batch {lba remaining : U32} (fits : lba.toNat + remaining.toNat < 2 ^ 32) :
    (lba + (batchSize remaining).setWidth 32).toNat = lba.toNat + min 128 remaining.toNat := by
  rw [toNat_add, toNat_batch]
  omega

theorem toNat_sub_batch (remaining : U32) : (remaining - (batchSize remaining).setWidth 32).toNat =
      remaining.toNat - min 128 remaining.toNat := by
  have le : (batchSize remaining).setWidth 32 ≤ remaining := by
    rw [le_def, toNat_batch]
    exact min_le_right _ _
  rw [toNat_sub_of_le le, toNat_batch]

theorem readBatches_eq (holds : dev.Holds image) {fuel : Nat} {lba remaining : U32}
    {bytes : List U8} (enough : remaining.toNat ≤ fuel)
    (fits : lba.toNat + remaining.toNat < 2 ^ 32)
    (isRead : readBatches dev fuel lba remaining = some bytes) :
    bytes = slice image (lba.toNat * dev.blockSize.toNat)
      (remaining.toNat * dev.blockSize.toNat) := by
  induction fuel generalizing lba remaining bytes with
  | zero =>
    cases isRead
    rw [le_zero.mp enough, Nat.zero_mul]
    rfl
  | succ fuel ih =>
    rw [readBatches] at isRead
    split at isRead
    · rename_i positive
      have positive : 0 < remaining.toNat := positive
      obtain ⟨first, isFirst, isRead⟩ := bind_eq_some_iff.mp isRead
      obtain ⟨rest, isRest, done⟩ := bind_eq_some_iff.mp isRead
      cases done
      have next := toNat_add_batch fits
      have left := toNat_sub_batch remaining
      rw [holds _ _ _ isFirst, ih (by omega) (by omega) isRest,
        next, left, toNat_batchSize, Nat.add_mul, ← slice_add, ← Nat.add_mul]
      congr 2
      omega
    · rename_i none
      have zero : remaining.toNat = 0 := le_zero.mp (not_lt.mp none)
      cases isRead
      rw [zero, Nat.zero_mul]
      rfl

theorem readBatches_isSome (serves : dev.Serves) {fuel : Nat} {lba remaining : U32}
    (onDevice : lba.toNat + remaining.toNat ≤ dev.blockCount.toNat) :
    (readBatches dev fuel lba remaining).isSome := by
  induction fuel generalizing lba remaining with
  | zero => rfl
  | succ fuel ih =>
    rw [readBatches]
    split
    · have next := toNat_add_batch (by omega : lba.toNat + remaining.toNat < 2 ^ 32)
      have left := toNat_sub_batch remaining
      have firstServed := serves lba (batchSize remaining) (by rw [toNat_batchSize]; omega)
      have restServed := ih
        (by omega : (lba + (batchSize remaining).setWidth 32).toNat +
          (remaining - (batchSize remaining).setWidth 32).toNat ≤ dev.blockCount.toNat)
      obtain ⟨first, isFirst⟩ := isSome_iff_exists.mp firstServed
      obtain ⟨rest, isRest⟩ := isSome_iff_exists.mp restServed
      simp [isFirst, isRest]
    · rfl

end Batches

/-! ## Blocks -/

/-- Blocks are whole numbers of sectors. -/
structure BlockDevice.Divides (dev : BlockDevice) (blockSize : U32) : Prop where
  positive : 0 < dev.blockSize.toNat
  divides : dev.blockSize.toNat ∣ blockSize.toNat

/-- The block lies on the device. -/
def BlockDevice.HasBlock (dev : BlockDevice) (blockSize blockNo : U32) : Prop :=
  (blockNo.toNat + 1) * blockSize.toNat ≤ dev.blockCount.toNat * dev.blockSize.toNat

section Blocks

variable {disk : Disk} {dev : BlockDevice} {image : Nat → U8} {blockNo blockSize : U32}

theorem BlockDevice.Divides.mul_div (divides : dev.Divides blockSize) :
    (blockSize / dev.blockSize).toNat * dev.blockSize.toNat = blockSize.toNat := by
  rw [toNat_udiv]
  exact Nat.div_mul_cancel divides.divides

theorem BlockDevice.HasBlock.sectors (has : dev.HasBlock blockSize blockNo)
    (divides : dev.Divides blockSize) :
    (blockNo.toNat + 1) * (blockSize / dev.blockSize).toNat ≤ dev.blockCount.toNat := by
  rw [BlockDevice.HasBlock, ← divides.mul_div, ← mul_assoc] at has
  exact le_of_mul_le_mul_right has divides.positive

theorem BlockDevice.HasBlock.toNat_lba (has : dev.HasBlock blockSize blockNo)
    (divides : dev.Divides blockSize) :
    (blockNo * (blockSize / dev.blockSize)).toNat =
      blockNo.toNat * (blockSize / dev.blockSize).toNat := by
  have sectors := has.sectors divides
  rw [Nat.add_mul, Nat.one_mul] at sectors
  rw [toNat_mul, mod_eq_of_lt (by omega)]

theorem Disk.Opened.readBlock_batches (opened : disk.Opened dev image)
    (divides : dev.Divides blockSize) (has : dev.HasBlock blockSize blockNo) :
    disk.readBlock blockNo blockSize = readBatches dev (blockSize / dev.blockSize).toNat
        (blockNo * (blockSize / dev.blockSize)) (blockSize / dev.blockSize) := by
  have sectors := has.sectors divides
  have lba := has.toNat_lba divides
  rw [Nat.add_mul, Nat.one_mul] at sectors
  have inRange : ¬ (disk.isOpen = false ∨
      blockNo * (blockSize / dev.blockSize) + blockSize / dev.blockSize > dev.blockCount) := by
    rw [opened.isOpen, gt_iff_lt, lt_def, toNat_add, lba]
    simp only [Bool.true_eq_false, false_or]
    omega
  simp only [Disk.readBlock, Disk.readSectors, opened.isDev, opened.sectorSize, opened.totalSectors]
  rw [if_neg inRange]

theorem Disk.Opened.readBlock_eq (opened : disk.Opened dev image) (divides : dev.Divides blockSize)
    (has : dev.HasBlock blockSize blockNo) {bytes : List U8}
    (isRead : disk.readBlock blockNo blockSize = some bytes) :
    bytes = slice image (blockNo.toNat * blockSize.toNat) blockSize.toNat := by
  have sectors := has.sectors divides
  have lba := has.toNat_lba divides
  rw [Nat.add_mul, Nat.one_mul] at sectors
  rw [opened.readBlock_batches divides has] at isRead
  rw [readBatches_eq opened.holds (le_refl _) (by omega) isRead, lba, mul_assoc,
    divides.mul_div]

theorem Disk.Opened.readBlock_isSome (opened : disk.Opened dev image) (serves : dev.Serves)
    (divides : dev.Divides blockSize) (has : dev.HasBlock blockSize blockNo) :
    (disk.readBlock blockNo blockSize).isSome := by
  have sectors := has.sectors divides
  have lba := has.toNat_lba divides
  rw [Nat.add_mul, Nat.one_mul] at sectors
  rw [opened.readBlock_batches divides has]
  exact readBatches_isSome serves (by omega)

/-- The device with the same sectors that reads the image and never fails. -/
def BlockDevice.reliable (dev : BlockDevice) (image : Nat → U8) : BlockDevice :=
  { dev with
    read := fun lba count => some (slice image (lba.toNat * dev.blockSize.toNat)
      (count.toNat * dev.blockSize.toNat)) }

def Disk.reliable (disk : Disk) (dev : BlockDevice) (image : Nat → U8) : Disk :=
  { disk with dev := some (dev.reliable image) }

theorem Disk.Opened.reliable (opened : disk.Opened dev image) :
    (disk.reliable dev image).Opened (dev.reliable image) image where
  isDev := rfl
  sectorSize := opened.sectorSize
  totalSectors := opened.totalSectors
  isOpen := opened.isOpen
  holds := by
    intro lba count bytes isRead
    exact (Option.some.inj isRead).symm

end Blocks

/-! ## Disks made from an image -/

/-- The device with 512-byte sectors that reads an image and never fails. -/
def imageDevice (image : Nat → U8) (blockCount : U32) : BlockDevice where
  blockSize := 512
  blockCount := blockCount
  read := fun lba count => some (slice image (lba.toNat * 512) (count.toNat * 512))

/-- The disk that `Disk::open` makes of it. -/
def imageDisk (image : Nat → U8) (blockCount : U32) : Disk where
  dev := some (imageDevice image blockCount)
  sectorSize := 512
  totalSectors := blockCount
  isOpen := true

theorem imageDevice_serves (image : Nat → U8) (blockCount : U32) :
    (imageDevice image blockCount).Serves :=
  fun _ _ _ => rfl

theorem imageDevice_divides (image : Nat → U8) (blockCount : U32) {blockSize : U32}
    (multiple : 512 ∣ blockSize.toNat) :
    (imageDevice image blockCount).Divides blockSize :=
  ⟨succ_pos 511, multiple⟩

theorem imageDisk_opened (image : Nat → U8) (blockCount : U32) :
    (imageDisk image blockCount).Opened (imageDevice image blockCount) image where
  isDev := rfl
  sectorSize := rfl
  totalSectors := rfl
  isOpen := rfl
  holds := by
    intro lba count bytes isRead
    exact (Option.some.inj isRead).symm

end XKern
