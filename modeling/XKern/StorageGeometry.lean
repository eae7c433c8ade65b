import XKern.BlockDevices

namespace XKern.Storage

open BitVec Nat

/-!
# Geometry of the drives

What `ata_init`, `AHCIController::init` and `usb_msc_setup` register for a drive.  None of
them refuses a drive for its size.
-/

/-- An ATA drive; one without 48-bit addresses reports its size in 28 bits only. -/
structure AtaDrive where
  sectors : Nat
  wide : Bool
  fits : sectors < if wide then 2 ^ 48 else 2 ^ 28

def wordAt (value : U64) (k : Nat) : U16 := (value >>> (16 * k)).setWidth 16

/-- The words 60 and 61 and the words 100 to 103 of the identify data. -/
def AtaDrive.identify (drive : AtaDrive) (word : Nat) : U16 :=
  if word < 100 then wordAt (.ofNat 64 (min drive.sectors (2 ^ 28 - 1))) (word - 60)
  else wordAt (.ofNat 64 (if drive.wide then drive.sectors else 0)) (word - 100)

/-- A disk on USB, with the two numbers of READ CAPACITY(10). -/
structure UsbDrive where
  sectors : Nat
  sectorSize : Nat
  notEmpty : 0 < sectors ∧ 0 < sectorSize
  fits : sectorSize < 2 ^ 32

/-- The last sector number, or all ones if it does not fit. -/
def UsbDrive.nblocks (drive : UsbDrive) : U32 :=
  .ofNat 32 (min (drive.sectors - 1) (2 ^ 32 - 1))

/-- `lba_sectors` of `ata_identify`, and the geometry that `ata_init` registers. -/
def ataGeometry (buf : Nat → U16) : Geometry where
  blockSize := 512
  blockCount := ((buf 60).setWidth 32 ||| (buf 61).setWidth 32 <<< 16) / 2048

/-- `m_lba_count`, set by `AHCIPort::identify`. -/
def ahciLbaCount (words : Nat → U16) : U64 :=
  let lba48 := (words 103).setWidth 64 <<< 48 ||| (words 102).setWidth 64 <<< 32 |||
    (words 101).setWidth 64 <<< 16 ||| (words 100).setWidth 64
  if lba48 ≠ 0 then lba48 else (words 60).setWidth 64 ||| (words 61).setWidth 64 <<< 16

/-- The geometry that `AHCIController::init` registers. -/
def ahciGeometry (words : Nat → U16) : Geometry where
  blockSize := 512
  blockCount := (ahciLbaCount words &&& 0xFFFFFFFF).setWidth 32

/-- The geometry that `usb_msc_setup` registers. -/
def usbGeometry (nblocks blocklen : U32) : Geometry where
  blockSize := if blocklen = 0 ∨ 4096 < blocklen then 512 else blocklen
  blockCount := nblocks + 1

/-- The drives with a driver. -/
inductive Drive
  | ata (drive : AtaDrive)
  | ahci (drive : AtaDrive)
  | usb (drive : UsbDrive)

namespace Drive

/-- What the driver of a drive registers. -/
def geometry : Drive → Geometry
  | ata drive => ataGeometry drive.identify
  | ahci drive => ahciGeometry drive.identify
  | usb drive => usbGeometry drive.nblocks (BitVec.ofNat 32 drive.sectorSize)

end Drive

theorem usbSize_toNat (drive : UsbDrive) :
    (usbGeometry drive.nblocks (BitVec.ofNat 32 drive.sectorSize)).blockSize.toNat =
      if drive.sectorSize ≤ 4096 then drive.sectorSize else 512 := by
  have notEmpty := drive.notEmpty.2
  have fits := drive.fits
  simp only [usbGeometry, toNat_eq, lt_def, toNat_ofNat]
  split <;> split <;> simp at * <;> omega

namespace Drive

theorem blockSize_pos (drive : Drive) : 0 < drive.geometry.blockSize.toNat := by
  cases drive with
  | ata drive => exact succ_pos _
  | ahci drive => exact succ_pos _
  | usb drive =>
    have notEmpty := drive.notEmpty.2
    rw [geometry, usbSize_toNat]
    split <;> omega

end Drive

end XKern.Storage
