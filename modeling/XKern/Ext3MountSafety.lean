import XKern.Ext3Mount

namespace XKern

open Slices Stores FaultTriple Nat

/-!
# File systems that are safe to use

`mount` checks the magic number and nothing else.  What the later calls divide by and
the size of what they store in the buffers for a block come from the superblock and
from the device.
-/

/-- The faults that a superblock and a geometry can cause in a mounted file system. -/
def GeometryFault (fault : Ext3Fault) : Prop :=
  fault = .divideByZero ∨ fault = .blockBuffer

instance decidableGeometryFault (fault : Ext3Fault) : Decidable (GeometryFault fault) :=
  inferInstanceAs (Decidable (_ ∨ _))

/-- What reads need to be without a fault. -/
structure FileSystem.Sane (fs : FileSystem) (dev : BlockDevice) (image : Nat → U8) : Prop where
  opened : fs.disk.Opened dev image
  sectorSize : dev.blockSize ≠ 0
  blockSize : fs.sb.blockSize ≠ 0
  maxBlockSize : fs.sb.blockSize.toNat ≤ ext3MaxBlockSize
  inodesPerGroup : fs.sb.inodesPerGroup ≠ 0

/-! ## Directories -/

section Walks

variable (data : List U8)

theorem loadAt_spares (offset width : Nat) : Spares GeometryFault (loadAt data offset width) :=
  .ite (fun _ => .ok _) fun _ => .error (by decide)

theorem loadField_spares (offset width : Nat) :
    Spares GeometryFault (loadField data offset width) := by
  intro fault faults
  rw [loadField] at faults
  cases loaded : loadAt data offset width with
  | ok bytes =>
    rw [loaded] at faults
    cases faults
  | error other =>
    rw [loaded] at faults
    cases faults
    exact loadAt_spares data offset width _ loaded

theorem countEntries_spares (limit : U32) (fuel : Nat) (pos count : U32) :
    Spares GeometryFault (countEntries data limit fuel pos count) := by
  induction fuel generalizing pos count with
  | zero => exact .error (by decide)
  | succ fuel ih =>
    rw [countEntries]
    refine .ite (fun _ => ?_) fun _ => .ok _
    refine .bind (loadField_spares _ _ _) fun inode => ?_
    refine .bind (loadField_spares _ _ _) fun recLen => ?_
    refine .ite (fun _ => .ok _) fun _ => ?_
    exact .ite (fun _ => .ok _) fun _ => ih _ _

theorem nameMatches_spares (offset : Nat) (name : List U8) :
    Spares GeometryFault (nameMatches data offset name) := by
  induction name generalizing offset with
  | nil => exact .ok _
  | cons char rest ih =>
    refine .bind (loadAt_spares _ _ _) fun stored => ?_
    refine .ite (fun _ => .ok _) fun _ => ?_
    exact .ite (fun _ => .ok _) fun _ => ih _

theorem sameName_spares (pos : Nat) (name : List U8) :
    Spares GeometryFault (sameName data pos name) := by
  refine .bind (loadField_spares _ _ _) fun nameLen => ?_
  exact .ite (fun _ => nameMatches_spares _ _ _) fun _ => .ok _

theorem lookupLoop_spares (size : U32) (name : List U8) (fuel : Nat) (pos : U32) :
    Spares GeometryFault (lookupLoop data size name fuel pos) := by
  induction fuel generalizing pos with
  | zero => exact .error (by decide)
  | succ fuel ih =>
    -- the step to the next entry is the same for free entries and for used ones
    have next : Spares GeometryFault (do
        let recLen ← loadField data (pos.toNat + 4) 2
        if recLen = 0 then return none
        else lookupLoop data size name fuel (pos + recLen)) := by
      refine .bind (loadField_spares _ _ _) fun recLen => ?_
      exact .ite (fun _ => .ok _) fun _ => ih _
    rw [lookupLoop]
    refine .ite (fun _ => ?_) fun _ => .ok _
    refine .bind (loadField_spares _ _ _) fun inode => ?_
    refine .ite (fun _ => next) fun _ => ?_
    refine .bind (sameName_spares _ _ _) fun isSame => ?_
    exact .ite (fun _ => .ok _) fun _ => next

theorem copyEntry_spares (pos : Nat) (inode : U32) :
    Spares GeometryFault (copyEntry data pos inode) := by
  refine .bind (loadField_spares _ _ _) fun recLen => ?_
  refine .bind (loadField_spares _ _ _) fun nameLen => ?_
  refine .bind (loadField_spares _ _ _) fun fileType => ?_
  exact .bind (loadAt_spares _ _ _) fun name => .ok _

theorem getEntryLoop_spares (size index : U32) (fuel : Nat) (pos i : U32) :
    Spares GeometryFault (getEntryLoop data size index fuel pos i) := by
  induction fuel generalizing pos i with
  | zero => exact .error (by decide)
  | succ fuel ih =>
    have next (i : U32) : Spares GeometryFault (do
        let recLen ← loadField data (pos.toNat + 4) 2
        if recLen = 0 then return none
        else getEntryLoop data size index fuel (pos + recLen) i) := by
      refine .bind (loadField_spares _ _ _) fun recLen => ?_
      exact .ite (fun _ => .ok _) fun _ => ih _ _
    rw [getEntryLoop]
    refine .ite (fun _ => ?_) fun _ => .ok _
    refine .bind (loadField_spares _ _ _) fun inode => ?_
    refine .ite (fun _ => next i) fun _ => ?_
    refine .ite (fun _ => ?_) fun _ => next (i + 1)
    exact .bind (copyEntry_spares _ _ _) fun entry => .ok _

theorem lookup_spares (dir : Directory) (name : List U8) :
    Spares GeometryFault (dir.lookup name) := by
  rw [Directory.lookup]
  split
  · exact .ok _
  · exact lookupLoop_spares _ _ _ _ _

theorem getEntry_spares (dir : Directory) (index : U32) :
    Spares GeometryFault (dir.getEntry index) := by
  rw [Directory.getEntry]
  split
  · exact .ok _
  · exact getEntryLoop_spares _ _ _ _ _ _

end Walks

/-! ## Reads -/

variable {dev : BlockDevice} {image junk : Nat → U8} {sb : SuperblockDisk}

namespace FileSystem.Sane

variable {fs : FileSystem} (sane : fs.Sane dev image) (stale : U32 → Nat → U8)

include sane

theorem loadBlock_ok (blockNo : U32) :
    ∃ result, fs.disk.loadBlock fs.sb.blockSize stale blockNo = .ok result := by
  obtain ⟨isRead, stores, transferred, within⟩ :=
    sane.opened.transferBlocks_within sane.sectorSize blockNo 1 fs.sb.blockSize
  have fits : Within ext3MaxBlockSize stores :=
    within.mono ((one_mul _).trans_le sane.maxBlockSize)
  rw [Disk.loadBlock, Disk.transferBlock_eq, transferred]
  exact ⟨_, if_pos fits⟩

theorem loadBlock_spares (blockNo : U32) :
    Spares GeometryFault (fs.disk.loadBlock fs.sb.blockSize stale blockNo) := by
  obtain ⟨result, loaded⟩ := sane.loadBlock_ok stale blockNo
  rw [loaded]
  exact .ok _

theorem readInode_spares (ino : U32) : Spares GeometryFault (fs.readInode stale ino) := by
  refine .ite (fun _ => .ok _) fun _ => ?_
  refine .ite (fun zero => absurd zero sane.inodesPerGroup) fun _ => ?_
  refine .ite (fun _ => .ok _) fun _ => ?_
  refine .ite (fun zero => absurd zero sane.blockSize) fun _ => ?_
  exact .bind (sane.loadBlock_spares stale _) fun blockBuf => .ok _

theorem loadPhysical_spares (physBlk : U32) :
    Spares GeometryFault (loadPhysical fs.disk fs.sb.blockSize stale physBlk) :=
  .ite (fun _ => .ok _) fun _ => sane.loadBlock_spares stale _

theorem loadLogical_spares (inode : Inode) (logicalBlk : U32) :
    Spares GeometryFault (loadLogical fs.disk fs.sb.blockSize stale inode logicalBlk) := by
  refine .ite (fun _ => sane.loadPhysical_spares stale _) fun _ => ?_
  refine .ite (fun _ => ?_) fun _ => .ok _
  refine .ite (fun _ => .ok _) fun _ => ?_
  refine .bind (sane.loadBlock_spares stale _) fun ind => ?_
  cases ind with
  | none => exact .ok _
  | some ind => exact sane.loadPhysical_spares stale _

theorem loadData_spares (inode : Inode) (room : Nat) (offset len : U32) :
    Spares GeometryFault (loadData fs.disk fs.sb.blockSize stale inode room offset len) := by
  rw [loadData]
  generalize len.toNat + 1 = fuel, (0 : U32) = bytesRead, ([] : List U8) = out
  induction fuel generalizing bytesRead out with
  | zero => exact .error (by decide)
  | succ fuel ih =>
    rw [loadDataLoop]
    refine .ite (fun _ => ?_) fun _ => .ok _
    refine .ite (fun _ => .ok _) fun _ => ?_
    refine .ite (fun zero => absurd zero sane.blockSize) fun _ => ?_
    refine .bind (sane.loadLogical_spares stale _ _) fun block => ?_
    cases block with
    | none => exact .ok _
    | some block =>
      exact .ite (fun _ => .error (by decide)) fun _ => ih _ _

theorem readFile_spares (fd : Int) (len : U32) :
    Spares GeometryFault (readFile fs stale fd len) := by
  rw [readFile]
  split
  · refine .ite (fun _ => .ok _) fun _ => ?_
    refine .ite (fun _ => .ok _) fun _ => ?_
    exact .bind (sane.loadData_spares stale _ _ _ _) fun result => .ok _
  · exact .ok _

/-! ## Path operations -/

theorem readDirectory_avoids (inode : Inode) :
    Avoids GeometryFault (readDirectory fs.disk fs.sb stale .new inode) := by
  refine .bind (.modifyGet _) fun _ => ?_
  refine .ite (fun _ => .pure _) fun _ => ?_
  refine .ite (fun _ => .pure _) fun _ => ?_
  refine .bind (.modifyGet _) fun addr => ?_
  refine .ite (fun _ => .pure _) fun _ => ?_
  refine .ite (fun _ => .throw (by decide)) fun _ => ?_
  refine .bind (.lift (sane.loadData_spares stale _ _ _ _)) fun read => ?_
  refine .ite (fun _ => ?_) fun _ => ?_
  · exact .bind (.modifyGet _) fun _ => .pure _
  · exact .bind (.lift (countEntries_spares _ _ _ _ _)) fun _ => .pure _

theorem withDirectory_avoids {Result : Type} (ino : U32)
    {ask : Directory → Except Ext3Fault (Option Result)}
    (spares : ∀ dir, Spares GeometryFault (ask dir)) :
    Avoids GeometryFault (withDirectory fs stale ino ask) := by
  refine .bind (.lift (sane.readInode_spares stale ino)) fun inode => ?_
  cases inode with
  | none => exact .pure _
  | some inode =>
    refine .ite (fun _ => .pure _) fun _ => ?_
    refine .bind (sane.readDirectory_avoids stale inode) fun dir => ?_
    cases dir with
    | none => exact .pure _
    | some dir => exact .lift (spares dir)

theorem resolveLoop_avoids (fuel : Nat) (p : List U8) (ino : U32) :
    Avoids GeometryFault (resolveLoop fs stale fuel p ino) := by
  induction fuel generalizing p ino with
  | zero => exact .throw (by decide)
  | succ fuel ih =>
    rw [resolveLoop]
    refine .ite (fun _ => .pure _) fun _ => ?_
    refine .ite (fun _ => .pure _) fun _ => ?_
    refine .bind (sane.withDirectory_avoids stale _ fun _ => lookup_spares _ _)
      fun child => ?_
    cases child with
    | none => exact .pure _
    | some childIno => exact ih _ _

theorem resolvePath_avoids (path : Option (List U8)) :
    Avoids GeometryFault (resolvePath fs stale path) := by
  cases path with
  | none => exact .pure _
  | some text =>
    exact .ite (fun _ => .pure _) fun _ => sane.resolveLoop_avoids stale _ _ _

theorem openFile_avoids (path : Option (List U8)) :
    Avoids GeometryFault (openFile fs stale path) := by
  refine .bind (sane.resolvePath_avoids stale path) fun ino => ?_
  cases ino with
  | none => exact .pure _
  | some ino =>
    dsimp only
    split
    · exact .pure _
    · refine .bind (.lift (sane.readInode_spares stale ino)) fun inode => ?_
      cases inode with
      | none => exact .pure _
      | some inode => exact .pure _

theorem statFile_avoids (path : Option (List U8)) (hasStat : Bool) :
    Avoids GeometryFault (statFile fs stale path hasStat) := by
  refine .ite (fun _ => .pure _) fun _ => ?_
  refine .bind (sane.resolvePath_avoids stale path) fun ino => ?_
  cases ino with
  | none => exact .pure _
  | some ino =>
    refine .bind (.lift (sane.readInode_spares stale ino)) fun inode => ?_
    cases inode with
    | none => exact .pure _
    | some inode => exact .pure _

theorem getdents_avoids (path : Option (List U8)) (index : U32) (hasName : Bool) (namelen : U32) :
    Avoids GeometryFault (getdents fs stale path index hasName namelen) := by
  refine .ite (fun _ => .pure _) fun _ => ?_
  refine .bind (sane.resolvePath_avoids stale path) fun ino => ?_
  cases ino with
  | none => exact .pure _
  | some ino =>
    refine .bind (sane.withDirectory_avoids stale _ fun _ => getEntry_spares _ _)
      fun entry => ?_
    cases entry with
    | none => exact .pure _
    | some entry => exact .ite (fun _ => .throw (by decide)) fun _ => .pure _

end FileSystem.Sane

/-! ## The numbers of a superblock -/

section Numbers

theorem toNat_tableGroups_le (sb : SuperblockDisk) : sb.tableGroups.toNat ≤ 128 := by
  rw [SuperblockDisk.tableGroups, toNat_cut]
  exact min_le_right _ _

theorem toNat_tableSize (sb : SuperblockDisk) : sb.tableSize.toNat = sb.tableGroups.toNat * 32 := by
  have bounded := toNat_tableGroups_le sb
  rw [SuperblockDisk.tableSize, BitVec.toNat_mul, show (32 : U32).toNat = 32 from rfl,
    mod_eq_of_lt (by omega)]

theorem tableGroups_pos (groups : sb.groupsCount ≠ 0) : 0 < sb.tableGroups.toNat := by
  have positive := toNat_pos groups
  rw [SuperblockDisk.tableGroups, toNat_cut, show (128 : U32).toNat = 128 from rfl]
  omega

theorem toNat_blockSize (sb : SuperblockDisk) :
    sb.blockSize = 0 ∨ ∃ log ≤ 21, sb.blockSize.toNat = 1024 * 2 ^ log := by
  have shifts : ∀ count < 32, ext3MinBlockSize <<< count = 0 ∨
      ∃ log ≤ 21, (ext3MinBlockSize <<< count).toNat = 1024 * 2 ^ log := by
    decide
  exact shifts _ (mod_lt _ (by decide))

theorem toNat_tableBlocks (nonzero : sb.blockSize ≠ 0) : sb.tableBlocks.toNat =
      (sb.tableGroups.toNat * 32 + sb.blockSize.toNat - 1) / sb.blockSize.toNat := by
  have groups := toNat_tableGroups_le sb
  have size := toNat_tableSize sb
  have positive := toNat_pos nonzero
  obtain zero | ⟨log, bounded, isPower⟩ := toNat_blockSize sb
  · exact absurd zero nonzero
  · have power : 2 ^ log ≤ 2 ^ 21 := Nat.pow_le_pow_right (by decide) bounded
    have sum : (sb.tableSize + sb.blockSize).toNat =
        sb.tableGroups.toNat * 32 + sb.blockSize.toNat := by
      rw [BitVec.toNat_add, size, mod_eq_of_lt (by omega)]
    have above : (1 : U32) ≤ sb.tableSize + sb.blockSize := by
      rw [BitVec.le_def, sum, show (1 : U32).toNat = 1 from rfl]
      omega
    rw [SuperblockDisk.tableBlocks, BitVec.toNat_udiv, BitVec.toNat_sub_of_le above, sum]
    rfl

theorem two_frames_le (large : 4096 < sb.blockSize.toNat) : 8192 ≤ sb.blockSize.toNat := by
  obtain zero | ⟨log, -, isPower⟩ := toNat_blockSize sb
  · rw [zero] at large
    exact absurd large (by decide)
  · rw [isPower] at large ⊢
    have many : 3 ≤ log := by
      by_contra few
      have power : 2 ^ log ≤ 2 ^ 2 := Nat.pow_le_pow_right (by decide) (by omega)
      omega
    have power : 2 ^ 3 ≤ 2 ^ log := Nat.pow_le_pow_right (by decide) many
    omega

theorem tableBlocks_mul_le (nonzero : sb.blockSize ≠ 0) (small : sb.blockSize.toNat ≤ 4096) :
    sb.tableBlocks.toNat * sb.blockSize.toNat ≤ 4096 := by
  have groups := toNat_tableGroups_le sb
  rw [toNat_tableBlocks nonzero]
  obtain zero | ⟨log, bounded, isPower⟩ := toNat_blockSize sb
  · exact absurd zero nonzero
  · rw [isPower] at small ⊢
    have few : log < 3 := by
      by_contra many
      have power : 2 ^ 3 ≤ 2 ^ log := Nat.pow_le_pow_right (by decide) (not_lt.mp many)
      omega
    interval_cases log
    · omega
    · omega
    · omega

theorem tableBlocks_eq_one (groups : sb.groupsCount ≠ 0) (large : 4096 < sb.blockSize.toNat) :
    sb.tableBlocks.toNat = 1 := by
  have positive := tableGroups_pos groups
  have bounded := toNat_tableGroups_le sb
  have nonzero : sb.blockSize ≠ 0 := by
    intro zero
    rw [zero] at large
    exact absurd large (by decide)
  rw [toNat_tableBlocks nonzero]
  exact Nat.div_eq_of_lt_le (by omega) (by omega)

end Numbers

/-! ## Mounting -/

/-- The superblock that the buffer holds, when the sectors 2 and 3 have been read. -/
def superblockOf (image junk : Nat → U8) (sectorSize : U32) : SuperblockDisk :=
  ⟨slice (Store.apply ⟨0, slice image (2 * sectorSize.toNat) (2 * sectorSize.toNat)⟩ junk) 0
    superblockDiskSize⟩

section Mounting

theorem transferSectors_superblock (dev : BlockDevice) : (Disk.open dev).transferSectors 2 2 =
      if dev.blockCount.toNat < 4 then (false, [])
      else
        match dev.read 2 2 with
        | none => (false, [])
        | some bytes => (true, [⟨0, bytes⟩]) := by
  simp only [Disk.transferSectors, Disk.open, Bool.true_eq_false, false_or]
  by_cases few : dev.blockCount.toNat < 4
  · have rejects : (2 : U32) + 2 > dev.blockCount := few
    rw [if_pos rejects, if_pos few]
  · have accepts : ¬ (2 : U32) + 2 > dev.blockCount := few
    rw [if_neg accepts, if_neg few]
    rfl

theorem readSuperblock_of_few (few : dev.blockCount.toNat < 4) (junk : Nat → U8) :
    readSuperblock (Disk.open dev) junk = .ok none := by
  rw [readSuperblock, transferSectors_superblock, if_pos few]
  rfl

theorem readSuperblock_of_fits (holds : dev.Holds image) (enough : ¬ dev.blockCount.toNat < 4)
    (fits : dev.blockSize.toNat ≤ 512) (junk : Nat → U8) :
    readSuperblock (Disk.open dev) junk =
      .ok (if (dev.read 2 2).isSome ∧ (superblockOf image junk dev.blockSize).sMagic = ext3Magic
        then some (superblockOf image junk dev.blockSize) else none) := by
  rw [readSuperblock, transferSectors_superblock, if_neg enough]
  cases isRead : dev.read 2 2 with
  | none => rfl
  | some bytes =>
    have isSlice := holds _ _ _ isRead
    have within : Within 1024 [(⟨0, bytes⟩ : Store U8)] := by
      intro store member
      rw [List.mem_singleton.mp member, Store.stop, isSlice, length_slice]
      dsimp only
      rw [show (2 : U8).toNat = 2 from rfl]
      omega
    dsimp only
    rw [if_pos within, if_pos rfl, isSlice]
    change Except.ok (if (superblockOf image junk dev.blockSize).sMagic ≠ ext3Magic then none
      else some (superblockOf image junk dev.blockSize)) = _
    rw [ite_not]
    simp

theorem readSuperblock_of_large {sectorSize totalSectors : U32} (enough : ¬ totalSectors.toNat < 4)
    (large : 512 < sectorSize.toNat) (image junk : Nat → U8) :
    readSuperblock (Disk.open (geometryDevice sectorSize totalSectors image)) junk =
      .error .superblockBuffer := by
  have outside : ¬ Within 1024 [(⟨0, slice image ((2 : U32).toNat * sectorSize.toNat)
      ((2 : U8).toNat * sectorSize.toNat)⟩ : Store U8)] := by
    intro within
    have stops := within _ List.mem_cons_self
    rw [Store.stop, length_slice] at stops
    dsimp only at stops
    rw [show (2 : U8).toNat = 2 from rfl] at stops
    omega
  have transferred := (transferSectors_superblock
    (geometryDevice sectorSize totalSectors image)).trans (if_neg enough)
  rw [readSuperblock, transferred]
  exact if_neg outside

theorem tableSize_frameSized (sb : SuperblockDisk) :
    ¬ pageSize.toNat < ((sb.tableSize + 4095) &&& ~~~4095).toNat := by
  have groups := toNat_tableGroups_le sb
  have size := toNat_tableSize sb
  exact (frameSized_iff _).mpr (.inl (by omega))

/-- The range test of the read of the descriptors rejects their blocks. -/
def RejectsTable (sectorSize totalSectors : U32) (sb : SuperblockDisk) : Prop :=
  RejectsRange sectorSize totalSectors (sb.sFirstDataBlock + 1) sb.tableBlocks sb.blockSize

section Descriptors

variable (addr : U64) (pmm : Pmm)

theorem fillDescriptors_of_zero (zero : sb.blockSize = 0 ∨ dev.blockSize = 0) :
    fillDescriptors (.open dev) sb addr pmm = .error .divideByZero pmm := by
  rw [fillDescriptors]
  dsimp only
  rw [if_neg (tableSize_frameSized sb)]
  by_cases noBlocks : sb.blockSize = 0
  · rw [if_pos noBlocks]
    rfl
  · rw [if_neg noBlocks, Disk.transferBlocks, Disk.open, if_pos (zero.resolve_left noBlocks)]
    rfl

theorem fillDescriptors_of_within (nonzero : sb.blockSize ≠ 0) {isRead : Bool}
    {stores : List (Store U8)}
    (transferred : (Disk.open dev).transferBlocks (sb.sFirstDataBlock + 1) sb.tableBlocks
      sb.blockSize = some (isRead, stores))
    (within : Within pageSize.toNat stores) :
    ∃ table after, fillDescriptors (.open dev) sb addr pmm =
      .ok (if isRead then some ⟨some table, sb.tableGroups⟩ else none) after := by
  rw [fillDescriptors]
  dsimp only
  rw [if_neg (tableSize_frameSized sb), if_neg nonzero, transferred]
  dsimp only
  rw [if_pos within]
  cases isRead with
  | true => exact ⟨_, _, rfl⟩
  | false => exact ⟨fun _ => ⟨0⟩, _, rfl⟩

theorem fillDescriptors_of_not_within (nonzero : sb.blockSize ≠ 0) {isRead : Bool}
    {stores : List (Store U8)}
    (transferred : (Disk.open dev).transferBlocks (sb.sFirstDataBlock + 1) sb.tableBlocks
      sb.blockSize = some (isRead, stores))
    (outside : ¬ Within pageSize.toNat stores) :
    fillDescriptors (.open dev) sb addr pmm = .error .descriptorFrame pmm := by
  rw [fillDescriptors]
  dsimp only
  rw [if_neg (tableSize_frameSized sb), if_neg nonzero, transferred]
  dsimp only
  rw [if_neg outside]
  rfl

end Descriptors

section Calls

variable {pmm : Pmm} (files : Fin maxOpenFiles → Ext3File)

theorem mount_of_none (unread : readSuperblock (.open dev) junk = .ok none) :
    mount dev junk files pmm = .ok none pmm := by
  rw [mount, unread]
  rfl

theorem mount_of_no_table (isRead : readSuperblock (.open dev) junk = .ok (some sb))
    (noTable : sb.groupsCount = 0 ∨ (pmmAlloc pmm).1 = 0) :
    ∃ after, mount dev junk files pmm = .ok none after := by
  rw [mount, isRead, lift_ok_bind]
  dsimp only
  by_cases noGroups : sb.groupsCount = 0
  · rw [readDescriptors, if_pos noGroups]
    exact ⟨pmm, rfl⟩
  · have noFrame := noTable.resolve_left noGroups
    have unread : readDescriptors (.open dev) sb pmm = .ok none (pmmAlloc pmm).2 := by
      rw [readDescriptors, if_neg noGroups]
      change (if (pmmAlloc pmm).1 = 0 then _ else _ : EStateM Ext3Fault Pmm _) (pmmAlloc pmm).2 = _
      rw [if_pos noFrame]
      rfl
    exact ⟨_, bind_of_ok unread⟩

theorem mount_of_table (isRead : readSuperblock (.open dev) junk = .ok (some sb))
    (groups : sb.groupsCount ≠ 0) (hasFrame : (pmmAlloc pmm).1 ≠ 0) :
    mount dev junk files pmm = (do
        match ← fillDescriptors (.open dev) sb (pmmAlloc pmm).1 with
        | none => return none
        | some bgt => return some ⟨sb.toSuperblock, bgt, .open dev, files⟩ :
          EStateM Ext3Fault Pmm (Option FileSystem)) (pmmAlloc pmm).2 := by
  have behind : readDescriptors (.open dev) sb pmm =
      fillDescriptors (.open dev) sb (pmmAlloc pmm).1 (pmmAlloc pmm).2 := by
    rw [readDescriptors, if_neg groups]
    change (if (pmmAlloc pmm).1 = 0 then _ else _ : EStateM Ext3Fault Pmm _) (pmmAlloc pmm).2 = _
    rw [if_neg hasFrame]
    rfl
  rw [mount, isRead, lift_ok_bind]
  exact bind_congr_run behind

end Calls

end Mounting

/-! ## Mounts that are safe to use -/

/-- No later call divides by zero or overruns a buffer for a block. -/
structure SafeToUse (fs : FileSystem) : Prop where
  opens : ∀ files stale path,
    Avoids GeometryFault (openFile { fs with files := files } stale path)
  stats : ∀ files stale path hasStat,
    Avoids GeometryFault (statFile { fs with files := files } stale path hasStat)
  reads : ∀ files stale fd len,
    Spares GeometryFault (readFile { fs with files := files } stale fd len)
  lists : ∀ files stale path index hasName namelen,
    Avoids GeometryFault (getdents { fs with files := files } stale path index hasName namelen)

theorem FileSystem.Sane.safeToUse {fs : FileSystem} (sane : fs.Sane dev image) :
    SafeToUse fs := by
  have later (files : Fin maxOpenFiles → Ext3File) :
      FileSystem.Sane { fs with files := files } dev image :=
    ⟨sane.opened, sane.sectorSize, sane.blockSize, sane.maxBlockSize, sane.inodesPerGroup⟩
  exact {
    opens := fun files stale path => (later files).openFile_avoids stale path
    stats := fun files stale path hasStat => (later files).statFile_avoids stale path hasStat
    reads := fun files stale fd len => (later files).readFile_spares stale fd len
    lists := fun files stale path index hasName namelen =>
      (later files).getdents_avoids stale path index hasName namelen }

/-- The mount stored in its own buffers only, and what it accepted is safe to use. -/
structure Harmless (result : EStateM.Result Ext3Fault Pmm (Option FileSystem)) : Prop where
  stores : ∀ fault after, result = .error fault after →
    fault ≠ .superblockBuffer ∧ fault ≠ .descriptorFrame
  safe : ∀ fs after, result = .ok (some fs) after → SafeToUse fs

theorem harmless_none (after : Pmm) : Harmless (.ok none after) where
  stores := fun _ _ same => by cases same
  safe := fun _ _ same => by cases same

/--
`mount` does no harm on any device of the geometry with the content of the image, whether
the device fails or not.
-/
def MountSafe (sectorSize totalSectors : U32) (image junk : Nat → U8) (pmm : Pmm) : Prop :=
  ∀ (dev : BlockDevice) (files : Fin maxOpenFiles → Ext3File),
    dev.Holds image → dev.blockSize = sectorSize → dev.blockCount = totalSectors →
      Harmless (mount dev junk files pmm)

/-- Numbers with which the calls do no harm. -/
def SafeNumbers (sectorSize totalSectors : U32) (sb : SuperblockDisk) (pmm : Pmm) : Prop :=
  sectorSize = 0 ∨ sb.sMagic ≠ ext3Magic ∨ sb.groupsCount = 0 ∨ (pmmAlloc pmm).1 = 0 ∨
    sb.blockSize = 0 ∨ RejectsTable sectorSize totalSectors sb ∨
    (sb.blockSize.toNat ≤ 4096 ∧ sb.sInodesPerGroup ≠ 0)

section Safety

variable {sectorSize totalSectors : U32} {pmm : Pmm}

theorem mount_of_safeNumbers (holds : dev.Holds image)
    (isRead : readSuperblock (Disk.open dev) junk = .ok (some sb)) (magic : sb.sMagic = ext3Magic)
    (safe : SafeNumbers dev.blockSize dev.blockCount sb pmm) (files : Fin maxOpenFiles → Ext3File) :
    (∃ after, mount dev junk files pmm = .error .divideByZero after) ∨
      (∃ after, mount dev junk files pmm = .ok none after) ∨
      ∃ fs after, mount dev junk files pmm = .ok (some fs) after ∧ fs.Sane dev image := by
  by_cases noTable : sb.groupsCount = 0 ∨ (pmmAlloc pmm).1 = 0
  · exact Or.inr (Or.inl (mount_of_no_table files isRead noTable))
  obtain ⟨groups, hasFrame⟩ := not_or.mp noTable
  rw [mount_of_table files isRead groups hasFrame]
  by_cases zero : sb.blockSize = 0 ∨ dev.blockSize = 0
  · exact Or.inl ⟨_, bind_of_error (fillDescriptors_of_zero _ _ zero)⟩
  obtain ⟨nonzero, sectors⟩ := not_or.mp zero
  have opened := Disk.opened_open holds
  by_cases rejects : RejectsTable dev.blockSize dev.blockCount sb
  · obtain ⟨table, after, filled⟩ := fillDescriptors_of_within (pmmAlloc pmm).1 (pmmAlloc pmm).2
      nonzero (opened.transferBlocks_of_rejects sectors rejects) (within_nil _)
    exact Or.inr (Or.inl ⟨after, bind_of_ok filled⟩)
  · obtain ⟨small, inodes⟩ : sb.blockSize.toNat ≤ 4096 ∧ sb.sInodesPerGroup ≠ 0 := by
      simpa only [SafeNumbers, sectors, magic, groups, hasFrame, nonzero, rejects, ne_eq,
        not_true_eq_false, false_or] using safe
    obtain ⟨succeeded, stores, transferred, within⟩ :=
      opened.transferBlocks_within sectors (sb.sFirstDataBlock + 1) sb.tableBlocks sb.blockSize
    obtain ⟨table, after, filled⟩ := fillDescriptors_of_within (pmmAlloc pmm).1 (pmmAlloc pmm).2
      nonzero transferred (within.mono (tableBlocks_mul_le nonzero small))
    cases succeeded with
    | false => exact Or.inr (Or.inl ⟨after, bind_of_ok filled⟩)
    | true =>
      refine Or.inr (Or.inr ⟨_, after, bind_of_ok filled, ?_⟩)
      exact ⟨opened, sectors, nonzero, small.trans (by decide), inodes⟩

theorem SafeNumbers.mountSafe (enough : ¬ totalSectors.toNat < 4) (fits : sectorSize.toNat ≤ 512)
    (safe : SafeNumbers sectorSize totalSectors (superblockOf image junk sectorSize) pmm) :
    MountSafe sectorSize totalSectors image junk pmm := by
  intro dev files holds isSector isTotal
  subst isSector isTotal
  have loaded := readSuperblock_of_fits holds enough fits junk
  by_cases valid : (dev.read 2 2).isSome ∧
      (superblockOf image junk dev.blockSize).sMagic = ext3Magic
  · rw [if_pos valid] at loaded
    obtain ⟨after, faults⟩ | ⟨after, returned⟩ | ⟨fs, after, returned, sane⟩ :=
      mount_of_safeNumbers holds loaded valid.2 safe files
    · rw [faults]
      refine ⟨fun fault final same => ?_, fun fs final same => ?_⟩
      · cases same
        decide
      · cases same
    · rw [returned]
      exact harmless_none after
    · rw [returned]
      refine ⟨fun fault final same => ?_, fun fs final same => ?_⟩
      · cases same
      · cases same
        exact sane.safeToUse
  · rw [if_neg valid] at loaded
    rw [mount_of_none files loaded]
    exact harmless_none pmm

theorem table_not_within (positive : sectorSize ≠ 0) (fits : sectorSize.toNat ≤ 512)
    (groups : sb.groupsCount ≠ 0) (large : 4096 < sb.blockSize.toNat) :
    ¬ Within pageSize.toNat (transferBatches (geometryDevice sectorSize totalSectors image)
      sectorSize (sb.tableBlocks * (sb.blockSize / sectorSize)).toNat
      ((sb.sFirstDataBlock + 1) * (sb.blockSize / sectorSize))
      (sb.tableBlocks * (sb.blockSize / sectorSize)) 0).2 := by
  intro within
  have one : sb.tableBlocks = 1 := BitVec.eq_of_toNat_eq (tableBlocks_eq_one groups large)
  have sectors : (sb.tableBlocks * (sb.blockSize / sectorSize)).toNat =
      sb.blockSize.toNat / sectorSize.toNat := by
    rw [one, one_mul, BitVec.toNat_udiv]
  have nonzero := toNat_pos positive
  have whole := div_add_mod sb.blockSize.toNat sectorSize.toNat
  have rest := mod_lt sb.blockSize.toNat nonzero
  have nonempty : 0 < sb.blockSize.toNat / sectorSize.toNat := div_pos (by omega) nonzero
  have twoFrames := two_frames_le large
  obtain ⟨store, member, stops⟩ := exists_stop_transferBatches totalSectors image
    (by omega : 128 * sectorSize.toNat < 2 ^ 32)
    ((sb.sFirstDataBlock + 1) * (sb.blockSize / sectorSize)) 0 (sectors ▸ nonempty)
    (le_refl _)
  have inside := within store member
  rw [stops, sectors, mul_comm, toNat_pageSize] at inside
  omega

theorem statFile_of_no_inodes {fs : FileSystem} (noInodes : fs.sb.inodesPerGroup = 0)
    (stale : U32 → Nat → U8) (pmm : Pmm) :
    statFile fs stale (some [slash]) true pmm = .error .divideByZero pmm := by
  have faults : fs.readInode stale ext3RootIno = .error .divideByZero := by
    rw [FileSystem.readInode, loadInode, if_neg (by decide), if_pos noInodes]
  change (lift (fs.readInode stale ext3RootIno) >>= _ : EStateM Ext3Fault Pmm _) pmm = _
  rw [faults]
  rfl

theorem MountSafe.safeNumbers (safe : MountSafe sectorSize totalSectors image junk pmm)
    (enough : ¬ totalSectors.toNat < 4) (fits : sectorSize.toNat ≤ 512) :
    SafeNumbers sectorSize totalSectors (superblockOf image junk sectorSize) pmm := by
  by_contra unsafeNumbers
  simp only [SafeNumbers, not_or, not_and_or, not_not, not_le] at unsafeNumbers
  obtain ⟨positive, magic, groups, hasFrame, nonzero, accepts, harm⟩ := unsafeNumbers
  have holds := geometryDevice_holds sectorSize totalSectors image
  have opened := Disk.opened_open holds
  have harmless := safe (geometryDevice sectorSize totalSectors image)
    (fun _ => ⟨0, ⟨[], 0⟩, 0, false⟩) holds rfl rfl
  have loaded := (readSuperblock_of_fits holds enough fits junk).trans
    (congrArg Except.ok (if_pos ⟨rfl, magic⟩))
  have transferred := transferBlocks_geometryDevice image positive accepts
  rw [mount_of_table _ loaded groups hasFrame] at harmless
  by_cases large : 4096 < (superblockOf image junk sectorSize).blockSize.toNat
  · have overruns := fillDescriptors_of_not_within (pmmAlloc pmm).1 (pmmAlloc pmm).2 nonzero
      transferred (table_not_within positive fits groups large)
    exact (harmless.stores _ _ (bind_of_error overruns)).2 rfl
  · obtain ⟨isRead, stores, same, within⟩ := opened.transferBlocks_within positive
      ((superblockOf image junk sectorSize).sFirstDataBlock + 1)
      (superblockOf image junk sectorSize).tableBlocks
      (superblockOf image junk sectorSize).blockSize
    cases same.symm.trans transferred
    obtain ⟨table, after, filled⟩ := fillDescriptors_of_within (pmmAlloc pmm).1 (pmmAlloc pmm).2
      nonzero transferred (within.mono (tableBlocks_mul_le nonzero (not_lt.mp large)))
    have safeToUse := harmless.safe _ _ (bind_of_ok filled)
    have noInodes : (superblockOf image junk sectorSize).toSuperblock.inodesPerGroup = 0 :=
      harm.resolve_left large
    exact safeToUse.stats (fun _ => ⟨0, ⟨[], 0⟩, 0, false⟩) (fun _ _ => 0) (some [slash]) true
      after _ after (statFile_of_no_inodes noInodes _ _) (Or.inl rfl)

/-- When a mount is safe. -/
theorem mountSafe_iff (sectorSize totalSectors : U32) (image junk : Nat → U8) (pmm : Pmm) :
    MountSafe sectorSize totalSectors image junk pmm ↔
      totalSectors.toNat < 4 ∨ (sectorSize.toNat ≤ 512 ∧
        SafeNumbers sectorSize totalSectors (superblockOf image junk sectorSize) pmm) := by
  by_cases few : totalSectors.toNat < 4
  · refine iff_of_true (fun dev files holds isSector isTotal => ?_) (Or.inl few)
    subst isTotal
    rw [mount_of_none files (readSuperblock_of_few few junk)]
    exact harmless_none pmm
  rw [or_iff_right few]
  by_cases fits : sectorSize.toNat ≤ 512
  · exact ⟨fun safe => ⟨fits, safe.safeNumbers few fits⟩, fun safe => safe.2.mountSafe few fits⟩
  · refine iff_of_false (fun safe => ?_) fun safe => fits safe.1
    have harmless := safe (geometryDevice sectorSize totalSectors image)
      (fun _ => ⟨0, ⟨[], 0⟩, 0, false⟩) (geometryDevice_holds _ _ _) rfl rfl
    rw [mount, readSuperblock_of_large few (not_le.mp fits), lift_error_bind] at harmless
    exact (harmless.stores _ pmm rfl).1 rfl

/-- The superblock of a disk with sectors of 4096 bytes overruns its buffer. -/
theorem largeSector_mount_overruns :
    (∃ after, mount (geometryDevice 4096 4 fun _ => 0) (fun _ => 0)
      (fun _ => ⟨0, ⟨[], 0⟩, 0, false⟩) oneFrame = .error .superblockBuffer after) ∧
    ¬ MountSafe 4096 4 (fun _ => 0) (fun _ => 0) oneFrame := by
  have overruns : mount (geometryDevice 4096 4 fun _ => 0) (fun _ => 0)
      (fun _ => ⟨0, ⟨[], 0⟩, 0, false⟩) oneFrame = .error .superblockBuffer oneFrame := by
    rw [mount, readSuperblock_of_large (by decide) (by decide), lift_error_bind]
    rfl
  refine ⟨⟨_, overruns⟩, fun safe => ?_⟩
  have harmless := safe _ (fun _ => ⟨0, ⟨[], 0⟩, 0, false⟩)
    (geometryDevice_holds 4096 4 fun _ => 0) rfl rfl
  exact (harmless.stores _ _ overruns).1 rfl

end Safety

end XKern
