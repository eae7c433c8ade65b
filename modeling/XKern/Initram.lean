import XKern.PagingRegion

namespace XKern

open RadixStore

/-!
# Keeping the initial ramdisk

Model of `initram_reserve` in `bsd/kern/init_ram_getty/init.c`.  It maps the
image first, which may take frames for page tables, and only then takes the
frames of the image off the free stack.
-/

/-- `g_initrd_addr` and `g_initrd_size`; the address comes from a 32-bit field. -/
structure Initrd where
  addr : U64
  size : U32
  low : addr.toNat < 2 ^ 32

/-- `initram_reserve`; `none` is a call that never returns. -/
def initramReserve (initrd : Option Initrd) (machine : Machine) :
    Option Machine :=
  match initrd with
  | none => some machine
  | some initrd => do
      let machine ← pagingMapRegion initrd.addr initrd.addr
        (initrd.size.setWidth 64) (pageWrite.setWidth 32) machine
      let pmm ← pmmReserve machine.pmm initrd.addr (initrd.size.setWidth 64)
      return { machine with pmm }

namespace Initrd

/-- The frame has a byte of the archive. -/
def Holds (initrd : Initrd) (frame : U64) : Prop :=
  ∃ byte, initrd.addr.toNat ≤ byte ∧
    byte < initrd.addr.toNat + initrd.size.toNat ∧
    frame.toNat ≤ byte ∧ byte < frame.toNat + 4096

/-- The addresses that `initram_reserve` maps. -/
def pages (initrd : Initrd) : List U64 :=
  WordLoop.progression pageSize initrd.addr ((initrd.size.toNat + 4095) / 4096)

/--
The image survives: its frames are unchanged, none of them is free and none of
them is a page table of the active space.
-/
structure Protected (initrd : Initrd) (before after : Machine) : Prop where
  bytes : ∀ frame, initrd.Holds frame →
    after.memory frame = before.memory frame
  notFree : ∀ frame ∈ after.pmm.stack, ¬ initrd.Holds frame
  noTable : ∀ path table,
    tableAt tableLink after.memory (ptPtr before.cr3) path = some table →
    ¬ initrd.Holds table

theorem toNat_size (initrd : Initrd) : (initrd.size.setWidth 64).toNat = initrd.size.toNat := by
  have bound := initrd.size.isLt
  rw [BitVec.toNat_setWidth]
  omega

theorem meetsRange_of_holds {initrd : Initrd} {frame : U64} (holds : initrd.Holds frame) :
    MeetsRange initrd.addr (initrd.size.setWidth 64) frame := by
  obtain ⟨byte, _, _, _, _⟩ := holds
  rw [MeetsRange, initrd.toNat_size]
  omega

theorem pml4Index_page (initrd : Initrd) {page : U64} (member : page ∈ initrd.pages) :
    pml4Index page = 0 := by
  have low := initrd.low
  have sizeLt := initrd.size.isLt
  rw [pages, WordLoop.mem_progression (by rw [toNat_pageSize]; omega) (by decide)] at member
  obtain ⟨index, indexLt, value⟩ := member
  rw [toNat_pageSize] at value
  apply Fin.ext
  rw [pml4Index, val_tableIndex]
  change _ = 0
  omega

end Initrd

theorem initramReserve_growth {machine : Machine}
    (wellFormed : WellFormed {ptPtr machine.cr3} machine) (initrd : Initrd) :
    ∃ mapped after hung, initramReserve (some initrd) machine = some after ∧
        TableGrowth (ptPtr machine.cr3) hung (framesTaken machine initrd.pages) machine mapped ∧
        after.memory = mapped.memory ∧
        ∀ frame ∈ after.pmm.stack, ¬ initrd.Holds frame := by
  have low := initrd.low
  have sizeLt := initrd.size.isLt
  have room : initrd.addr.toNat + (initrd.size.setWidth 64).toNat + 4096 ≤ 2 ^ 64 := by
    rw [initrd.toNat_size]
    omega
  obtain ⟨calls, region, sameVas⟩ : ∃ calls,
      pagingMapRegion initrd.addr initrd.addr (initrd.size.setWidth 64)
          (pageWrite.setWidth 32) machine =
        some (pagingMapPages calls machine) ∧
      calls.map MapCall.virtualAddr = initrd.pages := by
    refine ⟨_, pagingMapRegion_eq room _ _ machine, ?_⟩
    simp [regionCalls, Initrd.pages, initrd.toNat_size, Function.comp_def]
  have callPages : ∀ call ∈ calls, call.virtualAddr ∈ initrd.pages := by
    intro call member
    rw [← sameVas]
    exact List.mem_map_of_mem member
  have ordinary : ∀ call ∈ calls, pml4Index call.virtualAddr ≠ 511 := by
    intro call member
    rw [initrd.pml4Index_page (callPages call member)]
    decide
  obtain ⟨hung, popped, growth, mappedWellFormed, along, done⟩ :=
    pagingMapPages_growth wellFormed rfl calls ordinary
  have taken : popped = framesTaken machine initrd.pages := by
    apply growth.popped_eq
    · intro path member
      obtain ⟨call, isCall, onPath⟩ := along path member
      exact ⟨call.virtualAddr, callPages call isCall, onPath⟩
    · refine done.imp_left ?_
      intro complete va isPage
      rw [← sameVas] at isPage
      obtain ⟨call, isCall, rfl⟩ := List.mem_map.mp isPage
      exact complete call isCall
  obtain ⟨final, reserved, _, onStack⟩ := pmmReserve_spec mappedWellFormed.valid room
  refine ⟨pagingMapPages calls machine,
    { pagingMapPages calls machine with pmm := final }, hung, ?_,
    taken ▸ growth, rfl, ?_⟩
  · simp [initramReserve, region, reserved]
  · intro frame member holds
    exact ((onStack frame).mp member).2 (Initrd.meetsRange_of_holds holds)

/--
The image survives exactly when none of the frames that the mapping takes for
page tables holds a part of it.
-/
theorem initramReserve_protects_iff (machine : Machine) (initrd : Initrd)
    (wellFormed : WellFormed {ptPtr machine.cr3} machine)
    (outside : ∀ path table,
      tableAt tableLink machine.memory (ptPtr machine.cr3) path = some table →
      ¬ initrd.Holds table) :
    ∃ after,
      initramReserve (some initrd) machine = some after ∧
        (initrd.Protected machine after ↔
          ∀ frame ∈ framesTaken machine initrd.pages, ¬ initrd.Holds frame) := by
  obtain ⟨mapped, after, hung, returns, growth, memory, cleared⟩ :=
    initramReserve_growth wellFormed initrd
  refine ⟨after, returns, ?_⟩
  constructor
  · intro isProtected frame taken
    obtain ⟨path, reached⟩ := (growth.tables frame).mpr (.inr taken)
    rw [← memory] at reached
    exact isProtected.noTable path frame reached
  · intro spared
    have noTable : ∀ path table,
        tableAt tableLink mapped.memory (ptPtr machine.cr3) path = some table →
        ¬ initrd.Holds table := by
      intro path table reached
      rcases (growth.tables table).mp ⟨path, reached⟩ with ⟨old, wasTable⟩ | taken
      · exact outside old table wasTable
      · exact spared table taken
    exact {
      bytes := by
        intro frame holds
        rw [memory]
        apply growth.memory
        intro path reached
        exact noTable path frame reached holds
      notFree := cleared
      noTable := by
        rw [memory]
        exact noTable
    }

theorem sampleMachine_outside {flags : U64} (large : IsLarge flags) (initrd : Initrd)
    (beside : 0x206000 ≤ initrd.addr.toNat) (path : List (Fin 512)) (table : U64)
    (reached : tableAt tableLink (sampleMachine flags).memory
      (ptPtr (sampleMachine flags).cr3) path = some table) :
    ¬ initrd.Holds table := by
  have root : ptPtr (sampleMachine flags).cr3 = sampleImage.pml4 := by
    change ptPtr 0x200000 = 0x200000
    decide
  rw [root] at reached
  have base : sampleImage.pml4.toNat = 0x200000 := rfl
  rintro ⟨byte, _, _, _, _⟩
  rcases tableAt_identityMemory sampleImage _ large reached with
    ⟨_, rfl⟩ | ⟨_, rfl⟩ | ⟨i, small, _, rfl⟩
  · omega
  · have value := sampleImage.toNat_pdpt
    omega
  · have value := sampleImage.toNat_pd small
    omega

/-- An image of one page at `addr`. -/
def onePageInitrd (addr : U64) (low : addr.toNat < 2 ^ 32) : Initrd :=
  ⟨addr, 0x1000, low⟩

/-- An archive beside the tables. -/
theorem initramReserve_protects_iff_beside_frames :
    (∀ path table,
      tableAt tableLink (sampleMachine 0x83).memory
          (ptPtr (sampleMachine 0x83).cr3) path = some table →
        ¬ (onePageInitrd 0x400000 (by decide)).Holds table) ∧
      ∃ after,
        initramReserve (some (onePageInitrd 0x400000 (by decide)))
            (sampleMachine 0x83) = some after ∧
          ((onePageInitrd 0x400000 (by decide)).Protected
              (sampleMachine 0x83) after ↔
            ∀ frame ∈ framesTaken (sampleMachine 0x83)
                (onePageInitrd 0x400000 (by decide)).pages,
              ¬ (onePageInitrd 0x400000 (by decide)).Holds frame) := by
  have outside := fun path table =>
    sampleMachine_outside (by decide : IsLarge 0x83)
      (onePageInitrd 0x400000 (by decide)) (by decide) path table
  exact ⟨outside, initramReserve_protects_iff (sampleMachine 0x83)
    (onePageInitrd 0x400000 (by decide)) (sampleMachine_wellFormed (by decide))
    outside⟩

/--
An image in the frame on top of the free stack: the split of the 2 MiB leaf
around it takes that frame as its page table.
-/
theorem initramReserve_overwrites_top_frame :
    WellFormed {ptPtr (sampleMachine 0x83).cr3} (sampleMachine 0x83) ∧
      (∀ path table,
        tableAt tableLink (sampleMachine 0x83).memory
            (ptPtr (sampleMachine 0x83).cr3) path = some table →
          ¬ (onePageInitrd 0x903000 (by decide)).Holds table) ∧
      ∃ after,
        initramReserve (some (onePageInitrd 0x903000 (by decide)))
            (sampleMachine 0x83) = some after ∧
          ¬ (onePageInitrd 0x903000 (by decide)).Protected
            (sampleMachine 0x83) after := by
  have wellFormed := sampleMachine_wellFormed (by decide : IsLarge 0x83)
  refine ⟨wellFormed, fun path table => sampleMachine_outside (by decide)
    _ (by decide) path table, ?_⟩
  obtain ⟨mapped, after, hung, returns, growth, memory, _⟩ :=
    initramReserve_growth wellFormed (onePageInitrd 0x903000 (by decide))
  refine ⟨after, returns, ?_⟩
  intro isProtected
  have taken : 0x903000 ∈ framesTaken (sampleMachine 0x83)
      (onePageInitrd 0x903000 (by decide)).pages := by
    decide
  obtain ⟨path, reached⟩ := (growth.tables 0x903000).mpr (.inr taken)
  rw [← memory] at reached
  exact isProtected.noTable path 0x903000 reached
    ⟨0x903000, by decide, by decide, by decide, by decide⟩

end XKern
