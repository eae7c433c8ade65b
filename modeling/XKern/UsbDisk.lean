import XKern.Pmm

namespace XKern.Usb

open List BitVec Nat

/-!
# Transfers of USB disks

Model of `scsi_rw10`, `usbdisk_read` and `usbdisk_write` in `iokit/IOUSBFamily/msc/usbmsc.c`
for commands that all succeed.  Addresses are numbers; the code looks at their low half only.
-/

/-- A command READ(10) or WRITE(10) with the address of its data. -/
structure RwCommand where
  write : Bool
  lba : Nat
  blocks : Nat
  buffer : Nat
  deriving Repr, DecidableEq

/-- The blocks that a command moves, each with its place in memory. -/
def RwCommand.moved (blockLen : Nat) (command : RwCommand) : List (Nat × Nat) :=
  (range command.blocks).map fun k =>
    (command.lba + k, command.buffer + k * blockLen)

/-- `struct usbmsc_dev` as `usb_msc_setup` fills it. -/
structure UsbmscDev where
  blockLen : Nat
  blockCount : U32
  fits : 0 < blockLen ∧ blockLen ≤ 4096

/-- The number of blocks of the next command. -/
def chunkBlocks (blockLen remaining p : Nat) : Nat :=
  let maxByAddr := (0x10000 - p % 0x10000) / blockLen
  let chunk := min remaining (32 * 1024 / blockLen)
  let chunk := if chunk = 0 then 1 else chunk
  min chunk maxByAddr

/-- `scsi_rw10`; `none` while the loop still runs. -/
def scsiRw10 (write : Bool) (blockLen : Nat) :
    Nat → Nat → Nat → Nat → Option (List RwCommand)
  | 0, _, _, _ => none
  | fuel + 1, lba, remaining, p =>
      if remaining = 0 then
        some []
      else
        let chunk := chunkBlocks blockLen remaining p
        (scsiRw10 write blockLen fuel ((lba + chunk) % 2 ^ 32) (remaining - chunk)
          (p + chunk * blockLen)).map (⟨write, lba, chunk, p⟩ :: ·)

/-- How a transfer ends. -/
inductive RwEnd
  | refused
  | done (commands : List RwCommand)

/-- What `usbdisk_read` and `usbdisk_write` have in common. -/
def usbdiskRw (write : Bool) (fuel : Nat) (d : UsbmscDev) (lba : U32) (count : U8)
    (buf : Nat) : Option RwEnd :=
  if d.blockCount < lba + count.setWidth 32 then some .refused
  else (scsiRw10 write d.blockLen fuel lba.toNat count.toNat buf).map .done

/-- `usbdisk_read`. -/
abbrev usbdiskRead := usbdiskRw false

/-- `usbdisk_write`. -/
abbrev usbdiskWrite := usbdiskRw true

/-- The transfer ends; it is refused or moves each block once, as the size of the disk says. -/
def TransferExact (write : Bool) (d : UsbmscDev) (lba : U32) (count : U8) (buf : Nat) : Prop :=
  ∃ fuel ended, (if write then usbdiskWrite else usbdiskRead) fuel d lba count buf = some ended ∧
    match ended with
    | .refused => d.blockCount.toNat < lba.toNat + count.toNat
    | .done commands => lba.toNat + count.toNat ≤ d.blockCount.toNat ∧
        (∀ command ∈ commands, command.write = write) ∧
        commands.flatMap (RwCommand.moved d.blockLen) =
          (range count.toNat).map fun k => (lba.toNat + k, buf + k * d.blockLen)

/-- No block of the buffer crosses a boundary of 64 KB. -/
def BlocksInWindows (blockLen count p : Nat) : Prop :=
  ∀ k < count, (p + k * blockLen) % 0x10000 + blockLen ≤ 0x10000

section Loop

variable {blockLen remaining p : Nat}

theorem chunkBlocks_le (rest : 0 < remaining) (small : 0 < blockLen ∧ blockLen ≤ 4096) :
    chunkBlocks blockLen remaining p ≤ remaining ∧
      p % 0x10000 + chunkBlocks blockLen remaining p * blockLen ≤ 0x10000 ∧
      (chunkBlocks blockLen remaining p = 0 ↔ 0x10000 < p % 0x10000 + blockLen) := by
  have most : 0 < 32 * 1024 / blockLen := Nat.div_pos (by omega) small.1
  have nonzero : min remaining (32 * 1024 / blockLen) ≠ 0 := by omega
  have room := div_mul_le_self (0x10000 - p % 0x10000) blockLen
  have none := Nat.div_eq_zero_iff (a := 0x10000 - p % 0x10000) (b := blockLen)
  rw [chunkBlocks, if_neg nonzero]
  refine ⟨by omega, ?_, by omega⟩
  have below := Nat.mul_le_mul_right blockLen
    (Nat.min_le_right (min remaining (32 * 1024 / blockLen)) ((0x10000 - p % 0x10000) / blockLen))
  omega

theorem blocksInWindows_split {chunk : Nat} (isFirst : chunk ≤ remaining)
    (inWindow : p % 0x10000 + chunk * blockLen ≤ 0x10000) :
    BlocksInWindows blockLen remaining p ↔
      BlocksInWindows blockLen (remaining - chunk) (p + chunk * blockLen) := by
  constructor
  · intro inside k isBlock
    have moved := inside (chunk + k) (by omega)
    rwa [Nat.add_mul, ← Nat.add_assoc] at moved
  · intro inside k isBlock
    by_cases first : k < chunk
    · have fits := mul_le_mul_right blockLen (succ_le_of_lt first)
      rw [Nat.succ_mul] at fits
      omega
    · have moved := inside (k - chunk) (by omega)
      rwa [Nat.add_assoc, ← Nat.add_mul, Nat.add_sub_cancel' (by omega)] at moved

theorem scsiRw10_eq_some {write : Bool} {fuel lba : Nat} {commands : List RwCommand}
    (small : 0 < blockLen ∧ blockLen ≤ 4096)
    (ended : scsiRw10 write blockLen fuel lba remaining p = some commands) :
    BlocksInWindows blockLen remaining p ∧ (∀ command ∈ commands, command.write = write) ∧
      (lba + remaining < 2 ^ 32 → commands.flatMap (RwCommand.moved blockLen) =
        (range remaining).map fun k => (lba + k, p + k * blockLen)) := by
  induction fuel generalizing lba remaining p commands with
  | zero => cases ended
  | succ fuel ih =>
    rw [scsiRw10] at ended
    split at ended
    · rename_i none
      cases ended
      subst none
      exact ⟨fun k impossible => absurd impossible (Nat.not_lt_zero k), by simp, by simp⟩
    · rename_i rest
      obtain ⟨atMost, inWindow, -⟩ := chunkBlocks_le (p := p) (Nat.pos_of_ne_zero rest) small
      generalize chunkBlocks blockLen remaining p = chunk at ended atMost inWindow
      obtain ⟨later, laterEnds, rfl⟩ := Option.map_eq_some_iff.mp ended
      obtain ⟨inside, kinds, moves⟩ := ih laterEnds
      refine ⟨(blocksInWindows_split atMost inWindow).mpr inside, ?_, ?_⟩
      · simpa using kinds
      · intro below
        rw [mod_eq_of_lt (by omega)] at moves
        rw [flatMap_cons, moves (by omega), RwCommand.moved,
          ← Nat.add_sub_cancel' atMost, range_add, map_append, map_map,
          Nat.add_sub_cancel' atMost]
        congr 1
        apply map_congr_left
        intro k _
        simp only [Function.comp_apply, Nat.add_mul, Nat.add_assoc]

theorem exists_scsiRw10 (write : Bool) (lba : Nat) (small : 0 < blockLen ∧ blockLen ≤ 4096)
    (inside : BlocksInWindows blockLen remaining p) :
    ∃ fuel commands, scsiRw10 write blockLen fuel lba remaining p = some commands := by
  induction remaining using Nat.strong_induction_on generalizing lba p with
  | h remaining ih =>
    by_cases none : remaining = 0
    · exact ⟨1, [], by rw [scsiRw10, if_pos none]⟩
    · obtain ⟨atMost, inWindow, stuck⟩ := chunkBlocks_le (p := p) (pos_of_ne_zero none) small
      -- the first block fits its window, so the loop gets on
      have first := inside 0 (by omega)
      rw [Nat.zero_mul, add_zero] at first
      have moving : chunkBlocks blockLen remaining p ≠ 0 := by omega
      obtain ⟨fuel, commands, ended⟩ := ih _ (by omega)
        ((lba + chunkBlocks blockLen remaining p) % 2 ^ 32)
        ((blocksInWindows_split atMost inWindow).mp inside)
      refine ⟨fuel + 1, ⟨write, lba, chunkBlocks blockLen remaining p, p⟩ :: commands, ?_⟩
      rw [scsiRw10, if_neg none]
      exact Option.map_eq_some_iff.mpr ⟨commands, ended, rfl⟩

end Loop

/--
A transfer does what it should exactly when, inside the disk, no block of the buffer crosses
a boundary of 64 KB, and beyond it the sum of 32 bits does not wrap to a number inside.
-/
theorem usbdisk_exact_iff (write : Bool) (d : UsbmscDev) (lba : U32) (count : U8) (buf : Nat) :
    TransferExact write d lba count buf ↔
      if lba.toNat + count.toNat ≤ d.blockCount.toNat then
        BlocksInWindows d.blockLen count.toNat buf
      else d.blockCount.toNat < (lba.toNat + count.toNat) % 2 ^ 32 := by
  have isSmall := d.blockCount.isLt
  have refuses : d.blockCount < lba + count.setWidth 32 ↔
      d.blockCount.toNat < (lba.toNat + count.toNat) % 2 ^ 32 := by
    rw [lt_def, toNat_add, toNat_setWidth,
      mod_eq_of_lt (lt_of_lt_of_le count.isLt (by decide))]
  have isRw : (if write then usbdiskWrite else usbdiskRead) = usbdiskRw write := by
    cases write <;> rfl
  simp only [TransferExact, isRw, usbdiskRw, refuses]
  by_cases inside : lba.toNat + count.toNat ≤ d.blockCount.toNat
  · have accepted : ¬ d.blockCount.toNat < (lba.toNat + count.toNat) % 2 ^ 32 := by omega
    simp only [if_pos inside, if_neg accepted]
    constructor
    · rintro ⟨fuel, ended, taken, -⟩
      obtain ⟨commands, ends, -⟩ := Option.map_eq_some_iff.mp taken
      exact (scsiRw10_eq_some d.fits ends).1
    · intro windows
      obtain ⟨fuel, commands, ends⟩ := exists_scsiRw10 write lba.toNat d.fits windows
      obtain ⟨-, kinds, moves⟩ := scsiRw10_eq_some d.fits ends
      exact ⟨fuel, .done commands, by rw [ends, Option.map_some], inside, kinds, moves (by omega)⟩
  · rw [if_neg inside]
    split_ifs with wraps
    · exact iff_of_true ⟨0, .refused, rfl, Nat.lt_of_not_le inside⟩ wraps
    · refine iff_of_false ?_ wraps
      rintro ⟨fuel, ended, taken, exactly⟩
      obtain ⟨commands, -, rfl⟩ := Option.map_eq_some_iff.mp taken
      exact inside exactly.1

/-- A block whose buffer starts 256 bytes before a boundary is asked for without end. -/
theorem crossingBlock_endless (fuel : Nat) : scsiRw10 false 512 fuel 8 1 0xFF00 = none := by
  induction fuel with
  | zero => rfl
  | succ fuel ih =>
    rw [scsiRw10, if_neg one_ne_zero]
    change Option.map _ (scsiRw10 false 512 fuel 8 1 0xFF00) = _
    rw [ih, Option.map_none]

/-- So a disk of 100 blocks is never read into such a buffer. -/
theorem crossingBlock_not_exact : ¬ TransferExact false ⟨512, 100, by decide⟩ 8 1 0xFF00 := by
  rintro ⟨fuel, ended, taken, -⟩
  obtain ⟨commands, ends, -⟩ := Option.map_eq_some_iff.mp taken
  exact absurd ((crossingBlock_endless fuel).symm.trans ends) (by simp)

end XKern.Usb
