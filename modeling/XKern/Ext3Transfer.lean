import XKern.Ext3Disk
import XKern.Stores

namespace XKern

open Slices Stores List Nat

/-!
# Transfers from a disk to a buffer

The reads of `bsd/ext3/src/disk.cpp` once more, now with the stores that they make:
the products of sectors and bytes have 32 bits, so that neither the sectors nor the
places in the buffer need to be those of the exact computation.  The result of a
transfer is whether it returns 0, and its stores.
-/

/-- The loop of `read_sectors`: `ptr` is the offset in the buffer. -/
def transferBatches (dev : BlockDevice) (sectorSize : U32) :
    Nat → U32 → U32 → Nat → Bool × List (Store U8)
  | 0, _, _, _ => (true, [])
  | fuel + 1, lba, remaining, ptr =>
      if remaining > 0 then
        let batch := batchSize remaining
        match dev.read lba batch with
        | none => (false, [])
        | some bytes =>
            let rest := transferBatches dev sectorSize fuel (lba + batch.setWidth 32)
              (remaining - batch.setWidth 32) (ptr + (batch.setWidth 32 * sectorSize).toNat)
            (rest.1, ⟨ptr, bytes⟩ :: rest.2)
      else
        (true, [])

/-- `Disk::read_sectors`. -/
def Disk.transferSectors (disk : Disk) (lba count : U32) : Bool × List (Store U8) :=
  match disk.dev with
  | some dev =>
      if disk.isOpen = false ∨ lba + count > disk.totalSectors then
        (false, [])
      else
        transferBatches dev disk.sectorSize count.toNat lba count 0
  | none => (false, [])

/-- `Disk::read_blocks`; `none` is a division by zero. -/
def Disk.transferBlocks (disk : Disk)
    (blockNo count blockSize : U32) : Option (Bool × List (Store U8)) :=
  if disk.sectorSize = 0 then
    none
  else
    let sectorsPerBlock := blockSize / disk.sectorSize
    some (disk.transferSectors (blockNo * sectorsPerBlock) (count * sectorsPerBlock))

/-- `Disk::read_block`; `none` is a division by zero. -/
def Disk.transferBlock (disk : Disk) (blockNo blockSize : U32) :
    Option (Bool × List (Store U8)) :=
  if disk.sectorSize = 0 then
    none
  else
    let sectorsPerBlock := blockSize / disk.sectorSize
    some (disk.transferSectors (blockNo * sectorsPerBlock) sectorsPerBlock)

theorem Disk.transferBlock_eq (disk : Disk) (blockNo blockSize : U32) :
    disk.transferBlock blockNo blockSize = disk.transferBlocks blockNo 1 blockSize := by
  rw [transferBlock, transferBlocks]
  simp only [one_mul]

theorem transferBatches_zero (dev : BlockDevice) (sectorSize : U32) (fuel : Nat) (lba : U32)
    (ptr : Nat) :
    transferBatches dev sectorSize fuel lba 0 ptr = (true, []) := by
  cases fuel with
  | zero => rfl
  | succ fuel => rfl

/-! ## The bytes of a transfer -/

def storedBytes (stores : List (Store U8)) : List U8 :=
  stores.flatMap Store.values

/-- The bytes of a transfer that succeeds. -/
def transferred (result : Bool × List (Store U8)) : Option (List U8) :=
  if result.1 then some (storedBytes result.2) else none

theorem readBatches_eq_transferred (dev : BlockDevice) (sectorSize : U32) (fuel : Nat)
    (lba remaining : U32) (ptr : Nat) :
    readBatches dev fuel lba remaining =
      transferred (transferBatches dev sectorSize fuel lba remaining ptr) := by
  induction fuel generalizing lba remaining ptr with
  | zero => rfl
  | succ fuel ih =>
    rw [readBatches, transferBatches]
    split
    · dsimp only
      cases dev.read lba (batchSize remaining) with
      | none => rfl
      | some bytes =>
        dsimp only
        rw [Option.bind_eq_bind, Option.bind_some, ih
          (lba + (batchSize remaining).setWidth 32)
          (remaining - (batchSize remaining).setWidth 32)
          (ptr + ((batchSize remaining).setWidth 32 * sectorSize).toNat),
          transferred, transferred]
        split
        · rfl
        · rfl
    · rfl

theorem toNat_pos {width : Nat} {value : BitVec width} (nonzero : value ≠ 0) : 0 < value.toNat :=
  pos_of_ne_zero fun zero => nonzero (BitVec.eq_of_toNat_eq zero)

theorem toNat_batch_mul (remaining sectorSize : U32) :
    ((batchSize remaining).setWidth 32 * sectorSize).toNat =
      min 128 remaining.toNat * sectorSize.toNat % 2 ^ 32 := by
  rw [BitVec.toNat_mul, toNat_batch]

variable {remaining : U32}

section Places

variable {dev : BlockDevice} {image : Nat → U8} (holds : dev.Holds image)

include holds

theorem BlockDevice.Holds.length_batch {lba : U32} {bytes : List U8}
    (isRead : dev.read lba (batchSize remaining) = some bytes) :
    bytes.length = min 128 remaining.toNat * dev.blockSize.toNat := by
  rw [holds _ _ _ isRead, length_slice, toNat_batchSize]

theorem transferBatches_within (fuel : Nat) (lba remaining : U32) (ptr : Nat) :
    Within (ptr + remaining.toNat * dev.blockSize.toNat)
      (transferBatches dev dev.blockSize fuel lba remaining ptr).2 := by
  induction fuel generalizing lba remaining ptr with
  | zero => exact within_nil _
  | succ fuel ih =>
    rw [transferBatches]
    split
    · dsimp only
      cases isRead : dev.read lba (batchSize remaining) with
      | none => exact within_nil _
      | some bytes =>
        have length := holds.length_batch isRead
        have moved := toNat_batch_mul remaining dev.blockSize
        have left := toNat_sub_batch remaining
        have parts : min 128 remaining.toNat * dev.blockSize.toNat +
            (remaining.toNat - min 128 remaining.toNat) * dev.blockSize.toNat =
              remaining.toNat * dev.blockSize.toNat := by
          rw [← add_mul, Nat.add_sub_cancel' (min_le_right _ _)]
        intro store member
        obtain rfl | later := mem_cons.mp member
        · rw [Store.stop]
          dsimp only
          omega
        · have bound := ih _ _ _ store later
          rw [left, moved] at bound
          omega
    · exact within_nil _

theorem transferBatches_short (fuel : Nat) (lba : U32) (ptr : Nat) (many : 128 < remaining.toNat)
    (large : 2 ^ 32 ≤ 128 * dev.blockSize.toNat) :
    Within (ptr + remaining.toNat * dev.blockSize.toNat - 1)
      (transferBatches dev dev.blockSize fuel lba remaining ptr).2 := by
  cases fuel with
  | zero => exact within_nil _
  | succ fuel =>
    rw [transferBatches]
    split
    · dsimp only
      cases isRead : dev.read lba (batchSize remaining) with
      | none => exact within_nil _
      | some bytes =>
        have length := holds.length_batch isRead
        have moved := toNat_batch_mul remaining dev.blockSize
        have left := toNat_sub_batch remaining
        have full : min 128 remaining.toNat = 128 := by omega
        rw [full] at length moved left
        have parts : 128 * dev.blockSize.toNat + (remaining.toNat - 128) * dev.blockSize.toNat =
              remaining.toNat * dev.blockSize.toNat := by
          rw [← add_mul, Nat.add_sub_cancel' (le_of_lt many)]
        have behind : dev.blockSize.toNat ≤ (remaining.toNat - 128) * dev.blockSize.toNat :=
          Nat.le_mul_of_pos_left _ (by omega)
        intro store member
        obtain rfl | later := mem_cons.mp member
        · rw [Store.stop]
          dsimp only
          omega
        · have bound := transferBatches_within holds _ _ _ _ store later
          rw [left, moved] at bound
          omega
    · exact within_nil _

theorem applyAll_transferBatches (fuel : Nat) (lba : U32) (ptr : Nat)
    (adjoins : remaining.toNat ≤ 128 ∨ 128 * dev.blockSize.toNat < 2 ^ 32) (content : Nat → U8) :
    applyAll (transferBatches dev dev.blockSize fuel lba remaining ptr).2 content =
      Store.apply ⟨ptr, storedBytes (transferBatches dev dev.blockSize fuel lba remaining ptr).2⟩
        content := by
  induction fuel generalizing lba remaining ptr content with
  | zero => exact (Store.apply_nil ptr content).symm
  | succ fuel ih =>
    rw [transferBatches]
    split
    · dsimp only
      cases isRead : dev.read lba (batchSize remaining) with
      | none => exact (Store.apply_nil ptr content).symm
      | some bytes =>
        have length := holds.length_batch isRead
        have moved := toNat_batch_mul remaining dev.blockSize
        have left := toNat_sub_batch remaining
        dsimp only
        rw [applyAll, foldl_cons, ← applyAll,
          ih _ _ (by rw [left]; omega), storedBytes, storedBytes,
          flatMap_cons, ← Store.apply_apply, length, moved]
        obtain few | small := adjoins
        · have done : remaining - (batchSize remaining).setWidth 32 = 0 := by
            apply BitVec.eq_of_toNat_eq
            rw [left]
            exact Nat.sub_eq_zero_of_le (by omega)
          rw [done, transferBatches_zero, flatMap_nil, Store.apply_nil, Store.apply_nil]
        · have bounded := mul_le_mul_right dev.blockSize.toNat
            (min_le_left 128 remaining.toNat)
          rw [Nat.mod_eq_of_lt (by omega)]
    · exact (Store.apply_nil ptr content).symm

end Places

/-! ## Exact reads -/

/--
A read is exact: when it returns 0, the bytes of the blocks, in exact integers, are
on the device, and the buffer changes to these bytes and nowhere else.
-/
def ReadsExactly (transfer : Disk → Option (Bool × List (Store U8)))
    (sectorSize totalSectors blockNo count blockSize : U32) : Prop :=
  ∀ (image : Nat → U8) (dev : BlockDevice) (disk : Disk),
    disk.Opened dev image → dev.blockSize = sectorSize → dev.blockCount = totalSectors →
      ∀ stores, transfer disk = some (true, stores) →
        (∀ i, blockNo.toNat * blockSize.toNat ≤ i →
          i < (blockNo.toNat + count.toNat) * blockSize.toNat →
            i < totalSectors.toNat * sectorSize.toNat) ∧
        ∀ content, applyAll stores content =
          Store.apply ⟨0, slice image (blockNo.toNat * blockSize.toNat)
            (count.toNat * blockSize.toNat)⟩ content

/-- The blocks are whole sectors of the device, and the pointer does not wrap between them. -/
structure WholeSectors (sectorSize totalSectors blockNo count blockSize : U32) : Prop where
  divides : sectorSize.toNat ∣ blockSize.toNat
  onDevice : (blockNo.toNat + count.toNat) * blockSize.toNat ≤
    totalSectors.toNat * sectorSize.toNat
  adjoins : count.toNat * (blockSize.toNat / sectorSize.toNat) ≤ 128 ∨
    128 * sectorSize.toNat < 2 ^ 32

/-- The range test of `read_sectors` rejects the blocks. -/
def RejectsRange (sectorSize totalSectors blockNo count blockSize : U32) : Prop :=
  blockNo * (blockSize / sectorSize) + count * (blockSize / sectorSize) > totalSectors

section Exact

variable {sectorSize totalSectors blockNo count blockSize : U32}

section Tests

variable {disk : Disk} {dev : BlockDevice} {image : Nat → U8}

variable (opened : disk.Opened dev image) (positive : dev.blockSize ≠ 0)

include opened positive

theorem Disk.Opened.transferBlocks_of_rejects
    (rejects : RejectsRange dev.blockSize dev.blockCount blockNo count blockSize) :
    disk.transferBlocks blockNo count blockSize = some (false, []) := by
  rw [RejectsRange] at rejects
  simp only [Disk.transferBlocks, Disk.transferSectors, opened.isDev, opened.sectorSize,
    opened.totalSectors]
  rw [if_neg positive, if_pos (Or.inr rejects)]

theorem Disk.Opened.transferBlocks_of_accepts
    (accepts : ¬ RejectsRange dev.blockSize dev.blockCount blockNo count blockSize) :
    disk.transferBlocks blockNo count blockSize =
      some (transferBatches dev dev.blockSize (count * (blockSize / dev.blockSize)).toNat
        (blockNo * (blockSize / dev.blockSize)) (count * (blockSize / dev.blockSize)) 0) := by
  rw [RejectsRange] at accepts
  simp only [Disk.transferBlocks, Disk.transferSectors, opened.isDev, opened.sectorSize,
    opened.totalSectors, opened.isOpen]
  rw [if_neg positive, if_neg (by simpa using accepts)]

theorem Disk.Opened.transferBlocks_within (blockNo count blockSize : U32) :
    ∃ isRead stores, disk.transferBlocks blockNo count blockSize = some (isRead, stores) ∧
      Within (count.toNat * blockSize.toNat) stores := by
  by_cases rejects : RejectsRange dev.blockSize dev.blockCount blockNo count blockSize
  · exact ⟨_, _, opened.transferBlocks_of_rejects positive rejects, within_nil _⟩
  · refine ⟨_, _, opened.transferBlocks_of_accepts positive rejects,
      (transferBatches_within opened.holds _ _ _ _).mono ?_⟩
    calc 0 + (count * (blockSize / dev.blockSize)).toNat * dev.blockSize.toNat
        ≤ count.toNat * (blockSize.toNat / dev.blockSize.toNat) * dev.blockSize.toNat := by
          rw [zero_add, BitVec.toNat_mul, BitVec.toNat_udiv]
          exact mul_le_mul_right _ (mod_le _ _)
      _ = count.toNat * (blockSize.toNat / dev.blockSize.toNat * dev.blockSize.toNat) :=
          mul_assoc _ _ _
      _ ≤ count.toNat * blockSize.toNat := mul_le_mul_left _ (div_mul_le_self _ _)

end Tests

section

variable (whole : WholeSectors sectorSize totalSectors blockNo count blockSize)

include whole

theorem WholeSectors.sectors (positive : 0 < sectorSize.toNat) :
    (blockNo.toNat + count.toNat) * (blockSize / sectorSize).toNat ≤ totalSectors.toNat := by
  have onDevice := whole.onDevice
  rw [← Nat.div_mul_cancel whole.divides, ← Nat.mul_assoc, ← BitVec.toNat_udiv] at onDevice
  exact le_of_mul_le_mul_right onDevice positive

theorem WholeSectors.toNat_mul (positive : 0 < sectorSize.toNat) :
    (blockNo * (blockSize / sectorSize)).toNat = blockNo.toNat * (blockSize / sectorSize).toNat ∧
      (count * (blockSize / sectorSize)).toNat = count.toNat * (blockSize / sectorSize).toNat := by
  have sectors := whole.sectors positive
  rw [add_mul] at sectors
  rw [BitVec.toNat_mul, BitVec.toNat_mul, Nat.mod_eq_of_lt (by omega), Nat.mod_eq_of_lt (by omega)]
  exact ⟨rfl, rfl⟩

theorem WholeSectors.readsExactly (positive : sectorSize ≠ 0) :
    ReadsExactly (fun disk => disk.transferBlocks blockNo count blockSize)
      sectorSize totalSectors blockNo count blockSize := by
  intro image dev disk opened isSector isTotal stores returned
  subst isSector isTotal
  dsimp only at returned
  refine ⟨fun i _ below => lt_of_lt_of_le below whole.onDevice, fun content => ?_⟩
  have nonzero : 0 < dev.blockSize.toNat := toNat_pos positive
  obtain ⟨lba, sectors⟩ := whole.toNat_mul nonzero
  have onDevice := whole.sectors nonzero
  rw [add_mul] at onDevice
  by_cases rejects : RejectsRange dev.blockSize dev.blockCount blockNo count blockSize
  · rw [opened.transferBlocks_of_rejects positive rejects] at returned
    cases returned
  · rw [opened.transferBlocks_of_accepts positive rejects, Option.some.injEq] at returned
    have adjoins := whole.adjoins
    rw [← BitVec.toNat_udiv, ← sectors] at adjoins
    have placed := applyAll_transferBatches opened.holds
      (count * (blockSize / dev.blockSize)).toNat (blockNo * (blockSize / dev.blockSize)) 0
      adjoins content
    have bytes := readBatches_eq_transferred dev dev.blockSize
      (count * (blockSize / dev.blockSize)).toNat (blockNo * (blockSize / dev.blockSize))
      (count * (blockSize / dev.blockSize)) 0
    rw [returned, transferred, if_pos rfl] at bytes
    rw [returned] at placed
    rw [placed, readBatches_eq opened.holds (le_refl _) (by omega) bytes, lba, sectors,
      Nat.mul_assoc, Nat.mul_assoc, BitVec.toNat_udiv, Nat.div_mul_cancel whole.divides]

end

/-- `Disk::open`, when the device is found. -/
def Disk.open (dev : BlockDevice) : Disk where
  dev := some dev
  sectorSize := dev.blockSize
  totalSectors := dev.blockCount
  isOpen := true

theorem Disk.opened_open {dev : BlockDevice} {image : Nat → U8} (holds : dev.Holds image) :
    (Disk.open dev).Opened dev image :=
  ⟨rfl, rfl, rfl, rfl, holds⟩

/-- The device of a geometry that reads an image, wherever it is asked to. -/
def geometryDevice (sectorSize totalSectors : U32) (image : Nat → U8) : BlockDevice where
  blockSize := sectorSize
  blockCount := totalSectors
  read := fun lba count => some (slice image (lba.toNat * sectorSize.toNat)
    (count.toNat * sectorSize.toNat))

theorem geometryDevice_holds (sectorSize totalSectors : U32) (image : Nat → U8) :
    (geometryDevice sectorSize totalSectors image).Holds image :=
  fun _ _ _ isRead => (Option.some.inj isRead).symm

theorem transferBatches_geometryDevice (image : Nat → U8) (fuel : Nat) (lba remaining : U32)
    (ptr : Nat) :
    (transferBatches (geometryDevice sectorSize totalSectors image) sectorSize fuel lba remaining
      ptr).1 = true := by
  induction fuel generalizing lba remaining ptr with
  | zero => rfl
  | succ fuel ih =>
    rw [transferBatches]
    split
    · exact ih _ _ _
    · rfl

theorem transferBlocks_geometryDevice (image : Nat → U8) (positive : sectorSize ≠ 0)
    (accepts : ¬ RejectsRange sectorSize totalSectors blockNo count blockSize) :
    (Disk.open (geometryDevice sectorSize totalSectors image)).transferBlocks blockNo count
        blockSize =
      some (true, (transferBatches (geometryDevice sectorSize totalSectors image) sectorSize
        (count * (blockSize / sectorSize)).toNat (blockNo * (blockSize / sectorSize))
        (count * (blockSize / sectorSize)) 0).2) := by
  have opened := Disk.opened_open (geometryDevice_holds sectorSize totalSectors image)
  have returned := opened.transferBlocks_of_accepts positive accepts
  exact returned.trans (congrArg some (Prod.ext (transferBatches_geometryDevice image _ _ _ _) rfl))

/-- The last batch ends where the sectors do, when the pointer does not wrap. -/
theorem exists_stop_transferBatches (totalSectors : U32) (image : Nat → U8)
    (narrow : 128 * sectorSize.toNat < 2 ^ 32) {fuel : Nat} (lba : U32) (ptr : Nat)
    (nonempty : 0 < remaining.toNat) (enough : remaining.toNat ≤ fuel) :
    ∃ store ∈ (transferBatches (geometryDevice sectorSize totalSectors image) sectorSize fuel lba
      remaining ptr).2, store.stop = ptr + remaining.toNat * sectorSize.toNat := by
  induction fuel generalizing lba remaining ptr with
  | zero => omega
  | succ fuel ih =>
    have left := toNat_sub_batch remaining
    have moved := toNat_batch_mul remaining sectorSize
    have bounded := mul_le_mul_right sectorSize.toNat (min_le_left 128 remaining.toNat)
    rw [Nat.mod_eq_of_lt (by omega)] at moved
    have more : remaining > 0 := nonempty
    rw [transferBatches, if_pos more]
    by_cases last : remaining.toNat ≤ 128
    · refine ⟨_, mem_cons_self, ?_⟩
      rw [Store.stop, length_slice, toNat_batchSize, min_eq_right last]
    · obtain ⟨store, member, stops⟩ := ih _ _
        (by omega : 0 < (remaining - (batchSize remaining).setWidth 32).toNat) (by omega)
      refine ⟨store, mem_cons_of_mem _ member, ?_⟩
      rw [stops, moved, left, add_assoc, ← add_mul,
        Nat.add_sub_cancel' (min_le_right _ _)]

variable {stores : List (Store U8)}

theorem le_of_applyAll_ones {start length bound : Nat} (nonempty : 0 < length)
    (within : Within bound stores)
    (copied : applyAll stores (fun _ => 0) =
      Store.apply ⟨0, slice (fun _ => 1) start length⟩ (fun _ => 0)) :
    length ≤ bound := by
  by_contra short
  have inside : length - 1 < (slice (fun _ => (1 : U8)) start length).length := by
    rw [length_slice]
    omega
  have last := congrFun copied (0 + (length - 1))
  rw [applyAll_of_le within (by omega),
    Store.apply_of_lt ⟨0, slice (fun _ => 1) start length⟩ inside] at last
  simp [slice] at last

theorem ReadsExactly.wholeSectors
    (isExact : ReadsExactly (fun disk => disk.transferBlocks blockNo count blockSize)
      sectorSize totalSectors blockNo count blockSize)
    (positive : sectorSize ≠ 0) (blocks : count ≠ 0) (bytes : blockSize ≠ 0)
    (accepts : ¬ RejectsRange sectorSize totalSectors blockNo count blockSize) :
    WholeSectors sectorSize totalSectors blockNo count blockSize := by
  have nonzero := toNat_pos positive
  have nonempty : 0 < count.toNat * blockSize.toNat :=
    mul_pos (toNat_pos blocks) (toNat_pos bytes)
  have opened := Disk.opened_open (geometryDevice_holds sectorSize totalSectors fun _ => 1)
  obtain ⟨onDevice, copied⟩ := isExact _ _ _ opened rfl rfl _
    (transferBlocks_geometryDevice (fun _ => 1) positive accepts)
  -- the last byte of the blocks is stored, so that the sectors reach behind it
  have reaches := le_of_applyAll_ones nonempty
    (transferBatches_within opened.holds _ _ _ _) (copied fun _ => 0)
  change count.toNat * blockSize.toNat ≤
    0 + (count * (blockSize / sectorSize)).toNat * sectorSize.toNat at reaches
  have wraps : (count * (blockSize / sectorSize)).toNat ≤
      count.toNat * (blockSize.toNat / sectorSize.toNat) := by
    rw [BitVec.toNat_mul, BitVec.toNat_udiv]
    exact mod_le _ _
  have exactBytes : blockSize.toNat / sectorSize.toNat * sectorSize.toNat = blockSize.toNat := by
    refine le_antisymm (div_mul_le_self _ _)
      (le_of_mul_le_mul_left ?_ (toNat_pos blocks))
    calc count.toNat * blockSize.toNat
        ≤ (count * (blockSize / sectorSize)).toNat * sectorSize.toNat := by omega
      _ ≤ count.toNat * (blockSize.toNat / sectorSize.toNat) * sectorSize.toNat :=
        mul_le_mul_right _ wraps
      _ = count.toNat * (blockSize.toNat / sectorSize.toNat * sectorSize.toNat) :=
        mul_assoc _ _ _
  refine ⟨Dvd.intro_left _ exactBytes, ?_, ?_⟩
  · have lastByte := onDevice ((blockNo.toNat + count.toNat) * blockSize.toNat - 1)
    rw [add_mul] at lastByte ⊢
    omega
  · by_contra wide
    obtain ⟨many, large⟩ := not_or.mp wide
    have exactSectors : (count * (blockSize / sectorSize)).toNat =
        count.toNat * (blockSize.toNat / sectorSize.toNat) := by
      refine le_antisymm wraps (le_of_mul_le_mul_right ?_ nonzero)
      rw [mul_assoc, exactBytes]
      omega
    have manySectors : 128 < (count * (blockSize / sectorSize)).toNat := by
      rw [exactSectors]
      exact not_le.mp many
    have short := le_of_applyAll_ones nonempty
      (transferBatches_short opened.holds _ _ _ manySectors (not_lt.mp large))
      (copied fun _ => 0)
    change count.toNat * blockSize.toNat ≤
      0 + (count * (blockSize / sectorSize)).toNat * sectorSize.toNat - 1 at short
    rw [exactSectors, mul_assoc, exactBytes] at short
    omega

theorem applyAll_of_empty {disk : Disk} {dev : BlockDevice} {image : Nat → U8}
    (opened : disk.Opened dev image) (positive : dev.blockSize ≠ 0)
    (isEmpty : count * (blockSize / dev.blockSize) = 0)
    (returned : disk.transferBlocks blockNo count blockSize = some (true, stores)) :
    stores = [] := by
  by_cases rejects : RejectsRange dev.blockSize dev.blockCount blockNo count blockSize
  · rw [opened.transferBlocks_of_rejects positive rejects] at returned
    cases returned
  · rw [opened.transferBlocks_of_accepts positive rejects, isEmpty] at returned
    cases returned
    rfl

theorem readsExactly_of_empty (isEmpty : count = 0 ∨ blockSize = 0) (positive : sectorSize ≠ 0) :
    ReadsExactly (fun disk => disk.transferBlocks blockNo count blockSize)
      sectorSize totalSectors blockNo count blockSize := by
  intro image dev disk opened isSector isTotal stores returned
  subst isSector isTotal
  have noBytes : count.toNat * blockSize.toNat = 0 := by
    obtain rfl | rfl := isEmpty
    · exact Nat.zero_mul _
    · exact Nat.mul_zero _
  have noSectors : count * (blockSize / dev.blockSize) = 0 := by
    obtain rfl | rfl := isEmpty
    · exact BitVec.zero_mul
    · exact (congrArg (count * ·) BitVec.zero_udiv).trans BitVec.mul_zero
  refine ⟨fun i above below => ?_, fun content => ?_⟩
  · rw [add_mul] at below
    omega
  · rw [applyAll_of_empty opened positive noSectors returned, noBytes, slice_zero, Store.apply_nil]
    rfl

theorem readsExactly_transferBlocks_iff (sectorSize totalSectors blockNo count blockSize : U32) :
    ReadsExactly (fun disk => disk.transferBlocks blockNo count blockSize)
        sectorSize totalSectors blockNo count blockSize ↔
      sectorSize = 0 ∨ count = 0 ∨ blockSize = 0 ∨
        RejectsRange sectorSize totalSectors blockNo count blockSize ∨
        WholeSectors sectorSize totalSectors blockNo count blockSize := by
  constructor
  · intro isExact
    by_contra none
    simp only [not_or] at none
    exact none.2.2.2.2 (isExact.wholeSectors none.1 none.2.1 none.2.2.1 none.2.2.2.1)
  · intro condition
    by_cases positive : sectorSize = 0
    · intro image dev disk opened isSector _ stores returned
      dsimp only at returned
      rw [Disk.transferBlocks, opened.sectorSize, isSector, if_pos positive] at returned
      cases returned
    · obtain zero | noBlocks | noBytes | rejects | whole := condition
      · exact absurd zero positive
      · exact readsExactly_of_empty (Or.inl noBlocks) positive
      · exact readsExactly_of_empty (Or.inr noBytes) positive
      · intro image dev disk opened isSector isTotal stores returned
        subst isSector isTotal
        dsimp only at returned
        rw [opened.transferBlocks_of_rejects positive rejects] at returned
        cases returned
      · exact whole.readsExactly positive

/-- `read_blocks`, and `read_block` as the reading of one. -/
theorem readBlocks_exact_iff (sectorSize totalSectors blockNo count blockSize : U32) :
    (ReadsExactly (fun disk => disk.transferBlocks blockNo count blockSize)
        sectorSize totalSectors blockNo count blockSize ↔
      sectorSize = 0 ∨ count = 0 ∨ blockSize = 0 ∨
        RejectsRange sectorSize totalSectors blockNo count blockSize ∨
        WholeSectors sectorSize totalSectors blockNo count blockSize) ∧
    (ReadsExactly (fun disk => disk.transferBlock blockNo blockSize)
        sectorSize totalSectors blockNo 1 blockSize ↔
      sectorSize = 0 ∨ blockSize = 0 ∨
        RejectsRange sectorSize totalSectors blockNo 1 blockSize ∨
        WholeSectors sectorSize totalSectors blockNo 1 blockSize) := by
  refine ⟨readsExactly_transferBlocks_iff _ _ _ _ _, ?_⟩
  have single := readsExactly_transferBlocks_iff sectorSize totalSectors blockNo 1 blockSize
  simp only [Disk.transferBlock_eq]
  rw [single]
  have nonzero : (1 : U32) ≠ 0 := by decide
  simp only [nonzero, false_or]

/-- A block of 1024 bytes on a device with sectors of 2048 has no sectors: nothing is read. -/
theorem largeSector_readBlock :
    (Disk.open (geometryDevice 2048 4 fun _ => 1)).transferBlock 1 1024 = some (true, []) ∧
      ¬ ReadsExactly (fun disk => disk.transferBlock 1 1024) 2048 4 1 1 1024 := by
  have returned : (Disk.open (geometryDevice 2048 4 fun _ => 1)).transferBlock 1 1024 =
      some (true, []) := rfl
  refine ⟨returned, fun isExact => ?_⟩
  obtain ⟨-, copied⟩ := isExact _ _ _
    (Disk.opened_open (geometryDevice_holds 2048 4 fun _ => 1)) rfl rfl [] returned
  have reaches := le_of_applyAll_ones (by decide) (within_nil 0) (copied fun _ => 0)
  exact absurd reaches (by decide)

end Exact

end XKern
