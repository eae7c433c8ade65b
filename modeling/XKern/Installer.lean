import XKern.Pmm

namespace XKern.Installer

open Nat List

/-!
# The installer

Model of `begin_install` and `write_chunk` in `devkits/gpukit/installer/xinstall.c`, called
once a frame.  `memory` is what lies from `install_payload_start` on, and a driver reads and
writes as many blocks of its device as it is asked for.  No number here leaves 32 bits.
-/

/-- The pages from `begin_install` on. -/
inductive Page
  | progress
  | done
  deriving DecidableEq

/-- The variables of the installer, the device, and the stretches read by `devfs_write`. -/
structure State where
  page : Page
  result : Int
  lba : Nat
  totalSectors : Nat
  device : Nat → U8
  reads : List (Nat × Nat)

/-- `begin_install` for a payload of that size. -/
def beginInstall (size : Nat) (device : Nat → U8) : State :=
  if size / 512 = 0 ∨ size = 0 then ⟨.done, -1, 0, size / 512, device, []⟩
  else ⟨.progress, 0, 0, size / 512, device, []⟩

/-- The sectors of the chunk at `lba`. -/
def chunkSectors (lba totalSectors : Nat) : Nat :=
  if totalSectors < lba + 64 then totalSectors - lba else 64

/-- `write_chunk`, with what `devfs_write` reports. -/
def writeChunk (memory : Nat → U8) (blockSize : Nat) (s : State) (written : Bool) : State :=
  let n := chunkSectors s.lba s.totalSectors
  let reads := s.reads ++ [(s.lba * 512, n * blockSize)]
  if written then
    { s with
      page := if s.totalSectors ≤ s.lba + n then .done else .progress
      result := if s.totalSectors ≤ s.lba + n then 1 else s.result
      lba := s.lba + n
      device := fun i => if s.lba * blockSize ≤ i ∧ i < (s.lba + n) * blockSize then
        memory (s.lba * 512 + (i - s.lba * blockSize)) else s.device i
      reads }
  else { s with page := .done, result := -1, reads }

/-- One frame of the user interface. -/
def frame (memory : Nat → U8) (blockSize : Nat) (s : State) (written : Bool) : State :=
  if s.page = .progress then writeChunk memory blockSize s written else s

/-- A whole installation. -/
def install (memory : Nat → U8) (blockSize size : Nat) (device : Nat → U8)
    (outcomes : List Bool) : State :=
  outcomes.foldl (frame memory blockSize) (beginInstall size device)

/-- A success means a complete copy, and no run reads past the payload. -/
def Complete (blockSize size : Nat) : Prop :=
  ∀ memory device outcomes,
    ((install memory blockSize size device outcomes).page = .done →
      0 < (install memory blockSize size device outcomes).result →
      ∀ i < size, (install memory blockSize size device outcomes).device i = memory i) ∧
    ∀ read ∈ (install memory blockSize size device outcomes).reads, read.1 + read.2 ≤ size

section Run

variable {memory device : Nat → U8} {blockSize size : Nat}

/-- The byte of the payload that is written here. -/
def source (blockSize i : Nat) : Nat := 64 * 512 * (i / (64 * blockSize)) + i % (64 * blockSize)

/-- What holds after every frame. -/
structure Inv (memory device : Nat → U8) (blockSize total : Nat) (s : State) : Prop where
  sectors : s.totalSectors = total
  pages : s.page = .progress ∧ s.result = 0 ∧ 64 ∣ s.lba ∧ s.lba < total ∨
    s.page = .done ∧ (0 < s.result → s.lba = total ∧ 0 < total)
  stored : ∀ i, s.device i =
    if i < s.lba * blockSize then memory (source blockSize i) else device i
  chunks : ∀ read ∈ s.reads, ∃ k, 64 * k < total ∧
    read = (64 * k * 512, chunkSectors (64 * k) total * blockSize)

theorem source_chunk {k n i : Nat} (small : n ≤ 64) (first : 64 * k * blockSize ≤ i)
    (last : i < (64 * k + n) * blockSize) :
    source blockSize i = 64 * k * 512 + (i - 64 * k * blockSize) := by
  have inChunk : i - 64 * k * blockSize < 64 * blockSize := by
    have := mul_le_mul_right blockSize small
    rw [add_mul] at last
    omega
  have split : i = i - 64 * k * blockSize + 64 * blockSize * k := by
    rw [show 64 * blockSize * k = 64 * k * blockSize by ring]
    omega
  have quotient : i / (64 * blockSize) = k := by
    rw [split, add_mul_div_left _ _ (by omega), div_eq_of_lt inChunk, zero_add]
  have remainder : i % (64 * blockSize) = i - 64 * k * blockSize := by
    conv_lhs => rw [split]
    rw [add_mul_mod_self_left, mod_eq_of_lt inChunk]
  rw [source, quotient, remainder]
  ring

variable (memory device blockSize size)

theorem inv_begin : Inv memory device blockSize (size / 512) (beginInstall size device) := by
  rw [beginInstall]
  split <;> exact ⟨rfl, by simp; try omega, by simp, by simp⟩

variable {memory device blockSize size} in
theorem inv_frame {total : Nat} {s : State} (inv : Inv memory device blockSize total s)
    (written : Bool) : Inv memory device blockSize total (frame memory blockSize s written) := by
  rw [frame]
  split
  · rename_i running
    obtain ⟨-, zero, ⟨k, isChunk⟩, below⟩ | ⟨done, -⟩ := inv.pages
    · have sectors : chunkSectors s.lba total ≤ 64 ∧ s.lba + chunkSectors s.lba total ≤ total ∧
          (s.lba + chunkSectors s.lba total < total → chunkSectors s.lba total = 64) := by
        rw [chunkSectors]
        split <;> omega
      have reads : ∀ read ∈ s.reads ++ [(s.lba * 512, chunkSectors s.lba total * blockSize)],
          ∃ k, 64 * k < total ∧
            read = (64 * k * 512, chunkSectors (64 * k) total * blockSize) := by
        intro read member
        obtain earlier | now := mem_append.mp member
        · exact inv.chunks read earlier
        · exact ⟨k, by omega, by rw [mem_singleton.mp now, isChunk]⟩
      rw [writeChunk, inv.sectors]
      cases written with
      | false => exact ⟨rfl, .inr ⟨rfl, fun impossible => by simp at impossible⟩,
          inv.stored, reads⟩
      | true =>
        refine ⟨rfl, ?_, ?_, reads⟩
        · by_cases last : total ≤ s.lba + chunkSectors s.lba total
          · simp [last]
            omega
          · simp [last, zero]
            omega
        · intro i
          change (if s.lba * blockSize ≤ i ∧ i < (s.lba + chunkSectors s.lba total) * blockSize
            then memory (s.lba * 512 + (i - s.lba * blockSize)) else s.device i) = _
          rw [inv.stored]
          change _ = if i < (s.lba + chunkSectors s.lba total) * blockSize then _ else _
          have grows : s.lba * blockSize ≤ (s.lba + chunkSectors s.lba total) * blockSize :=
            mul_le_mul_right _ (le_add_right _ _)
          by_cases here : s.lba * blockSize ≤ i ∧
              i < (s.lba + chunkSectors s.lba total) * blockSize
          · rw [if_pos here, if_pos here.2, isChunk]
            rw [isChunk] at here sectors
            rw [source_chunk sectors.1 here.1 here.2]
          · rw [if_neg here]
            exact if_congr (by omega) rfl rfl
    · exact absurd (running.symm.trans done) (by decide)
  · exact inv

theorem inv_install (outcomes : List Bool) :
    Inv memory device blockSize (size / 512)
      (install memory blockSize size device outcomes) := by
  induction outcomes using reverseRecOn with
  | nil => exact inv_begin memory device blockSize size
  | append_singleton outcomes written ih =>
    rw [install, foldl_append]
    exact inv_frame ih written

variable {size} in
theorem install_successes (payload : 0 < size / 512) (frames : Nat) :
    let s := install memory blockSize size device (replicate frames true)
    (64 * frames < size / 512 → s.page = .progress ∧ s.lba = 64 * frames) ∧
      (size / 512 ≤ 64 * frames → s.page = .done ∧ s.result = 1) ∧
      ∀ k < frames, 64 * k < size / 512 →
        (64 * k * 512, chunkSectors (64 * k) (size / 512) * blockSize) ∈ s.reads := by
  induction frames with
  | zero =>
    have begun : beginInstall size device = ⟨.progress, 0, 0, size / 512, device, []⟩ := by
      rw [beginInstall, if_neg (by omega)]
    simp [install, begun]
    omega
  | succ frames ih =>
    have inv : Inv memory device blockSize (size / 512)
        (install memory blockSize size device (replicate frames true)) :=
      inv_install memory device blockSize size _
    have next : install memory blockSize size device (replicate (frames + 1) true) =
        frame memory blockSize
          (install memory blockSize size device (replicate frames true)) true := by
      rw [replicate_succ', install, foldl_append]
      rfl
    rw [next]
    generalize install memory blockSize size device (replicate frames true) = s at *
    obtain ⟨running, ended, reads⟩ := ih
    have total := inv.sectors
    by_cases more : 64 * frames < size / 512
    · obtain ⟨onPage, isLba⟩ := running more
      have sectors : chunkSectors (64 * frames) (size / 512) =
          min 64 (size / 512 - 64 * frames) := by
        rw [chunkSectors]
        split <;> omega
      simp only [frame, onPage, if_true, writeChunk, isLba, total, sectors]
      refine ⟨fun further => ?_, fun last => ?_, fun k before below => ?_⟩
      · rw [if_neg (by omega)]
        exact ⟨rfl, by omega⟩
      · rw [if_pos (by omega), if_pos (by omega)]
        exact ⟨rfl, rfl⟩
      · rcases Nat.lt_succ_iff_lt_or_eq.mp before with earlier | rfl
        · exact mem_append_left _ (reads k earlier below)
        · rw [sectors]
          exact mem_append_right _ (mem_singleton_self _)
    · have atEnd := ended (by omega)
      rw [frame, if_neg (by rw [atEnd.1]; decide)]
      exact ⟨fun further => by omega, fun _ => atEnd, fun k before below =>
        reads k (by omega) below⟩

end Run

/--
The installer is right exactly when the payload is shorter than a sector, or fills whole
sectors of a device with blocks of 512 bytes, or, on any other device, is the first chunk
that is written and is not read beyond by a later one.
-/
theorem installer_complete_iff (blockSize size : Nat) :
    Complete blockSize size ↔ 512 ≤ size →
      if blockSize = 512 then 512 ∣ size
      else size = min 64 (size / 512) * blockSize ∧
        ∀ k, 64 * k < size / 512 →
          64 * k * 512 + min 64 (size / 512 - 64 * k) * blockSize ≤ size := by
  have sectors : ∀ k, 64 * k < size / 512 → chunkSectors (64 * k) (size / 512) =
      min 64 (size / 512 - 64 * k) := by
    intro k below
    rw [chunkSectors]
    split <;> omega
  constructor
  · intro complete payload
    have some : 0 < size / 512 := by omega
    have inside : ∀ k, 64 * k < size / 512 →
        64 * k * 512 + min 64 (size / 512 - 64 * k) * blockSize ≤ size := by
      intro k below
      have reads := (install_successes (fun _ => 0) (fun _ => 0) blockSize some (k + 1)).2.2
        k (lt_succ_self k) below
      rw [sectors k below] at reads
      exact (complete _ _ _).2 _ reads
    -- a payload whose only byte that is not zero is not found where it belongs
    have lost : ∀ x < size, x < size / 512 * blockSize ∧ source blockSize x = x := by
      intro x isByte
      have atEnd := (install_successes (fun i => if i = x then 1 else 0) (fun _ => 0)
        blockSize some (size / 512)).2.1 (by omega)
      have copied := (complete (fun i => if i = x then 1 else 0) (fun _ => 0) _).1 atEnd.1
        (by rw [atEnd.2]; decide) x isByte
      have inv := inv_install (fun i => if i = x then 1 else 0) (fun _ => 0) blockSize size
        (replicate (size / 512) true)
      obtain ⟨running, -⟩ | ⟨-, isLba⟩ := inv.pages
      · exact absurd (running.symm.trans atEnd.1) (by decide)
      · rw [inv.stored, (isLba (by rw [atEnd.2]; decide)).1] at copied
        grind
    split
    · rename_i isSector
      subst isSector
      by_contra rest
      have := (lost (size / 512 * 512) (by omega)).1
      omega
    · rename_i other
      refine ⟨?_, inside⟩
      by_contra differs
      have first := inside 0 (by omega)
      simp only [Nat.mul_zero, Nat.zero_mul, Nat.zero_add, Nat.sub_zero] at first
      obtain ⟨isWritten, same⟩ := lost (min 64 (size / 512) * blockSize) (by omega)
      rcases Nat.le_total (size / 512) 64 with few | many
      · rw [min_eq_right few] at isWritten
        omega
      · have positive : 0 < 64 * blockSize := by
          by_contra zero
          have : blockSize = 0 := by omega
          simp [this] at isWritten
        rw [Nat.min_eq_left many, source, Nat.div_self positive, mod_self] at same
        omega
  · intro condition memory device outcomes
    have inv := inv_install memory device blockSize size outcomes
    constructor
    · intro done success i isByte
      obtain ⟨running, -⟩ | ⟨-, isLba⟩ := inv.pages
      · exact absurd (running.symm.trans done) (by decide)
      · obtain ⟨atEnd, payload⟩ := isLba success
        have holds := condition (by omega)
        rw [inv.stored, atEnd]
        split at holds
        · rename_i isSector
          subst isSector
          rw [if_pos (by omega), source, div_add_mod]
        · have most := mul_le_mul_right blockSize (min_le_right 64 (size / 512))
          have least := mul_le_mul_right blockSize (min_le_left 64 (size / 512))
          rw [if_pos (by omega), source, div_eq_of_lt (by omega),
            mod_eq_of_lt (by omega), Nat.mul_zero, zero_add]
    · intro read member
      obtain ⟨k, below, rfl⟩ := inv.chunks read member
      have holds := condition (by omega)
      rw [sectors k below]
      split at holds
      · rename_i isSector
        subst isSector
        change 64 * k * 512 + _ ≤ size
        omega
      · exact holds.2 k below

/-- Of a payload of 1000 bytes the last 488 are not written, and the installer succeeds. -/
theorem tail_not_installed :
    (install (fun _ => 1) 512 1000 (fun _ => 0) [true]).page = .done ∧
      (install (fun _ => 1) 512 1000 (fun _ => 0) [true]).result = 1 ∧
      (install (fun _ => 1) 512 1000 (fun _ => 0) [true]).device 512 = 0 ∧
      ¬ Complete 512 1000 := by
  refine ⟨by decide, by decide, by decide, fun complete => ?_⟩
  have copied := (complete (fun _ => 1) (fun _ => 0) [true]).1 (by decide) (by decide) 512
    (by decide)
  exact absurd copied (by decide)

end XKern.Installer
