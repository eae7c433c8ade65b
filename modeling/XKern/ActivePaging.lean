import XKern.SpaceLoad

namespace XKern

open RadixStore FaultTriple List

/-!
# What the paging calls promise

`paging_map_page` and the two clone calls, with their loads and stores through
the active mapping, on machines whose tables and free frames are mapped to
themselves.  The boot tables are such a machine.
-/

/-! ## The boot tables -/

/-- The frames that the boot tables hold are their own six pages and the free ones. -/
theorem identityMemory_held (image : BootImage) {flags : U64} (rest : Memory)
    (large : IsLarge flags) {machine : Machine}
    (memory : machine.memory = identityMemory image flags rest) {frame : U64}
    (held : Held {image.pml4} machine frame) :
    frame ∈ machine.pmm.stack ∨
      image.pml4.toNat ≤ frame.toNat ∧ frame.toNat < image.pml4.toNat + 6 * 4096 := by
  rcases held with free | ⟨root, rfl, path, reached⟩
  · exact .inl free
  · right
    rw [memory] at reached
    rcases tableAt_identityMemory image rest large reached with
      ⟨_, rfl⟩ | ⟨_, rfl⟩ | ⟨i, small, _, rfl⟩
    · omega
    · rw [image.toNat_pdpt]
      omega
    · rw [image.toNat_pd small]
      omega

theorem identityMemory_identity (image : BootImage) {flags : U64} (rest : Memory)
    (large : IsLarge flags) (present : Present flags)
    (clean : flags &&& ~~~LowBits.mask 64 21 = 0) {machine : Machine}
    (memory : machine.memory = identityMemory image flags rest)
    (spareLow : ∀ frame ∈ machine.pmm.stack, frame.toNat < 2 ^ 32) :
    IdentityMapped {image.pml4} machine := by
  have heldLow : ∀ frame, Held {image.pml4} machine frame → frame.toNat < 2 ^ 32 := by
    intro frame held
    have imageLow := image.low
    rcases identityMemory_held image rest large memory held with free | table
    · exact spareLow frame free
    · omega
  refine ⟨fun frame held => ?_, ?_⟩
  · have low := heldLow frame held
    apply Fin.ext
    rw [pml4Index, val_tableIndex]
    change _ = 0
    omega
  · rintro root rfl va held
    have low := heldLow _ held
    rw [toNat_ptPtr] at low
    rw [memory]
    exact walk_identityMemory image rest large present clean (by omega)

/-- The sample kernel with any free frames above its image. -/
theorem sampleImage_direct {flags : U64} (large : IsLarge flags) (present : Present flags)
    (clean : flags &&& ~~~LowBits.mask 64 21 = 0) {machine : Machine}
    (memory : machine.memory = identityMemory sampleImage flags fun _ _ => 0)
    (root : machine.cr3 = 0x200000) (nodup : machine.pmm.stack.Nodup)
    (spare : ∀ frame ∈ machine.pmm.stack,
      0x900000 ≤ frame.toNat ∧ frame.toNat < 2 ^ 32 ∧ frame.toNat % 4096 = 0) :
    Direct {ptPtr machine.cr3} machine where
  wellFormed := sampleImage_wellFormed large memory root nodup fun frame free =>
    ⟨(spare frame free).1, (spare frame free).2.1.trans (by decide), (spare frame free).2.2⟩
  current := rfl
  identity := by
    rw [show ptPtr machine.cr3 = sampleImage.pml4 by rw [root]; decide]
    exact identityMemory_identity sampleImage _ large present clean memory
      fun frame free => (spare frame free).2.1

theorem sampleMachine_direct {flags : U64} (large : IsLarge flags) (present : Present flags)
    (clean : flags &&& ~~~LowBits.mask 64 21 = 0) :
    Direct {ptPtr (sampleMachine flags).cr3} (sampleMachine flags) :=
  sampleImage_direct large present clean rfl rfl (by simp [sampleMachine])
    (by simp [sampleMachine])

/-! ## One mapping -/

/--
`paging_map_page` returns, maps the page and keeps everything else.  Tables and
free frames stay mapped to themselves unless the page is that of one of them.
-/
theorem active_pagingMapPage_maps (machine : Machine) (va pa : U64) (flags : U32)
    (wellFormed : WellFormed {ptPtr machine.cr3} machine)
    (identity : IdentityMapped {ptPtr machine.cr3} machine) (canonical : Canonical va)
    (ordinary : pml4Index va ≠ 511)
    (enough : (missingTables machine.memory (ptPtr machine.cr3) [va]).card ≤
      machine.pmm.stack.length) :
    ∃ after, Active.pagingMapPage va pa flags machine = .ok () after ∧
      MapsPage va pa flags machine after ∧
      ((∀ frame, Held {ptPtr machine.cr3} machine frame →
          frame.toNat / 4096 = va.toNat / 4096 → pa &&& frameBits = frame) →
        IdentityMapped {ptPtr after.cr3} after) := by
  have direct : Direct {ptPtr machine.cr3} machine := ⟨wellFormed, rfl, identity⟩
  refine ⟨_, direct.pagingMapPage_eq ordinary pa flags,
    pagingMapPage_mapsPage machine va pa flags wellFormed canonical ordinary enough, ?_⟩
  intro spares
  have outcome := pagingMapPage_outcome wellFormed direct.current ordinary pa flags
  rw [outcome.cr3]
  apply outcome.identity wellFormed direct.current _ identity
  intro frame held samePath
  exact spares frame held (page_eq_of_vaPath_eq
    (identity.canonical wellFormed direct.current held) canonical samePath)

/-- A framebuffer page inside the 2 MiB leaf at 4 MiB, which holds no table. -/
theorem active_pagingMapPage_maps_in_leaf :
    ∃ after, Active.pagingMapPage 0x400000 0xE0000000 0x1B (sampleMachine 0x83) = .ok () after ∧
      MapsPage 0x400000 0xE0000000 0x1B (sampleMachine 0x83) after ∧
      IdentityMapped {ptPtr after.cr3} after := by
  have direct := sampleMachine_direct (by decide : IsLarge 0x83) (by decide) (by decide)
  obtain ⟨after, returned, maps, keeps⟩ := active_pagingMapPage_maps (sampleMachine 0x83) 0x400000
    0xE0000000 0x1B direct.wellFormed direct.identity (by decide) (by decide)
    ((card_missingTables_le _ _ _).trans (by decide))
  refine ⟨after, returned, maps, keeps ?_⟩
  intro frame held samePage
  rcases identityMemory_held sampleImage (fun _ _ => 0) (by decide : IsLarge 0x83) rfl held with
    free | table
  · simp only [sampleMachine, mem_cons, not_mem_nil, or_false] at free
    rcases free with rfl | rfl | rfl | rfl <;> simp at samePage
  · have base : sampleImage.pml4.toNat = 0x200000 := rfl
    change _ = 0x400 at samePage
    omega

/--
A leaf with the global bit loses it for the pages that a split leaves alone,
although the call asks for no other caching.
-/
theorem active_pagingMapPage_drops_global :
    WellFormed {ptPtr (sampleMachine 0x183).cr3} (sampleMachine 0x183) ∧
      IdentityMapped {ptPtr (sampleMachine 0x183).cr3} (sampleMachine 0x183) ∧
      mmioFlags 0x3 = 0 ∧
      (walk (sampleMachine 0x183).memory 0x200000 0x401000).map
        (fun old => (old.phys, old.leaf)) = some (0x401000, 0x400183) ∧
      ∃ after, Active.pagingMapPage 0x400000 0x400000 0x3 (sampleMachine 0x183) = .ok () after ∧
        (walk after.memory 0x200000 0x401000).map (fun new => (new.phys, new.leaf)) =
          some (0x401000, 0x401003) := by
  have direct := sampleMachine_direct (by decide : IsLarge 0x183) (by decide) (by decide)
  refine ⟨direct.wellFormed, direct.identity, by decide, ?_, _,
    direct.pagingMapPage_eq (by decide) 0x400000 0x3, ?_⟩
  · decide
  · decide

/-! ## The clone calls -/

/-- What the two clone calls promise about the new and the current space. -/
structure CloneSemantics (machine : Machine) (vforked cloned : U64 × Machine) : Prop where
  vforkReturns : vforked.1 ≠ 0
  vforkShares : ∀ va, pml4Index va ≠ 511 →
    walk vforked.2.memory vforked.1 va = walk machine.memory machine.cr3 va
  vforkKeeps : ∀ va, pml4Index va ≠ 511 →
    walk vforked.2.memory machine.cr3 va = walk machine.memory machine.cr3 va
  cloneReturns : cloned.1 ≠ 0
  cloneShares : ∀ va, pml4Index va ≠ 511 →
    (pml4Index va = 0 ∨ 256 ≤ (pml4Index va).val) →
    walk cloned.2.memory cloned.1 va = walk machine.memory machine.cr3 va
  cloneEmpties : ∀ va, pml4Index va ∈ userSlots →
    walk cloned.2.memory cloned.1 va = none
  cloneKeeps : ∀ va, pml4Index va ≠ 511 →
    walk cloned.2.memory machine.cr3 va = walk machine.memory machine.cr3 va
  cloneIsolates : ∀ calls : List MapCall,
    (∀ call ∈ calls, pml4Index call.virtualAddr ∈ userSlots) →
    ∃ final, Active.pagingMapPages calls (pagingLoadCr3 cloned.1 cloned.2) = .ok () final ∧
      ∀ va, pml4Index va ≠ 511 →
        walk final.memory machine.cr3 va = walk machine.memory machine.cr3 va

theorem Direct.cloned {roots : Set U64} {machine after : Machine} {keep : Fin 512 → Bool}
    {fresh : U64} (direct : Direct roots machine) (step : RootStep keep fresh machine after)
    (sharesLow : keep 0 = true) :
    Direct (insert fresh roots) (pagingLoadCr3 fresh after) where
  wellFormed := (step.wellFormed direct.wellFormed direct.current).loadCr3 fresh
  current := by
    change ptPtr fresh ∈ _
    rw [ptPtr_eq_self (step.freshTable direct.wellFormed)]
    exact Set.mem_insert _ _
  identity := (step.identity direct.wellFormed direct.current sharesLow direct.identity).loadCr3
    fresh

/-- Both clone calls behave so where a frame is free and frames are mapped to themselves. -/
theorem paging_clone_semantics (roots : Set U64) (machine : Machine)
    (wellFormed : WellFormed roots machine) (identity : IdentityMapped roots machine)
    (current : ptPtr machine.cr3 ∈ roots) (free : machine.pmm.stack ≠ []) :
    ∃ vforked cloned, Active.pagingVforkClone machine = .ok vforked.1 vforked.2 ∧
      Active.pagingClonePd machine = .ok cloned.1 cloned.2 ∧
      CloneSemantics machine vforked cloned := by
  have direct : Direct roots machine := ⟨wellFormed, current, identity⟩
  obtain ⟨vforkReturns, _, vfork⟩ := pagingVforkClone_step wellFormed free
  obtain ⟨cloneReturns, _, clone⟩ := pagingClonePd_step wellFormed current free
  have userOrdinary : ∀ slot ∈ userSlots, slot ≠ 511 := by
    rintro slot user rfl
    exact absurd user.2 (by decide)
  have cloneKeeps : ∀ va, pml4Index va ≠ 511 →
      walk (pagingClonePd machine).2.memory machine.cr3 va =
        walk machine.memory machine.cr3 va := by
    intro va ordinary
    rw [← walk_ptPtr, ← walk_ptPtr machine.memory]
    exact clone.walk_old wellFormed current ordinary
  refine ⟨_, _, direct.pagingVforkClone_eq, direct.pagingClonePd_eq, ?_⟩
  exact {
    vforkReturns
    vforkShares := fun va ordinary =>
      vfork.walk_kept_slot wellFormed current ordinary rfl
    vforkKeeps := by
      intro va ordinary
      rw [← walk_ptPtr, ← walk_ptPtr machine.memory]
      exact vfork.walk_old wellFormed current ordinary
    cloneReturns
    cloneShares := by
      intro va ordinary shared
      apply clone.walk_kept_slot wellFormed current ordinary
      simpa [sharedSlot] using shared
    cloneEmpties := by
      intro va user
      apply clone.walk_dropped_slot wellFormed (userOrdinary _ user)
      have notZero : pml4Index va ≠ 0 := by
        intro zero
        have positive := user.1
        rw [zero] at positive
        exact absurd positive (by decide)
      have below := user.2
      simp [sharedSlot, notZero]
      omega
    cloneKeeps
    cloneIsolates := by
      intro calls inUser
      have inside := direct.cloned clone rfl
      refine ⟨_, inside.pagingMapPages_eq calls inUser, fun va ordinary => ?_⟩
      have isSpace : ptPtr (pagingClonePd machine).1 = (pagingClonePd machine).1 :=
        ptPtr_eq_self (clone.freshTable wellFormed)
      have isPrivate : Private (pagingClonePd machine).2.memory
          (ptPtr (pagingClonePd machine).1) userSlots roots := by
        rw [isSpace]
        exact clone.private_userSlots wellFormed
      rw [← cloneKeeps va ordinary, ← walk_ptPtr, ← walk_ptPtr (pagingClonePd machine).2.memory]
      exact pagingMapPages_private
        (fun recursive => userOrdinary 511 recursive rfl) calls inUser
        ⟨inside.wellFormed, inside.current, Set.subset_insert _ _, isPrivate⟩ _ current va ordinary
  }

/-- The kernel as `boot.asm` leaves it, with four free frames. -/
theorem paging_clone_semantics_booted :
    ∃ vforked cloned, Active.pagingVforkClone (sampleMachine 0x83) = .ok vforked.1 vforked.2 ∧
      Active.pagingClonePd (sampleMachine 0x83) = .ok cloned.1 cloned.2 ∧
      CloneSemantics (sampleMachine 0x83) vforked cloned := by
  have direct := sampleMachine_direct (by decide : IsLarge 0x83) (by decide) (by decide)
  exact paging_clone_semantics {ptPtr (sampleMachine 0x83).cr3} (sampleMachine 0x83)
    direct.wellFormed direct.identity direct.current (by simp [sampleMachine])

/-- The sample kernel after the page of a free frame was mapped to a device. -/
def remappedMachine : Machine :=
  pagingMapPage 0x902000 0xE0000000 0x3 (sampleMachine 0x83)

theorem remappedMachine_maps :
    Active.pagingMapPage 0x902000 0xE0000000 0x3 (sampleMachine 0x83) = .ok () remappedMachine ∧
      MapsPage 0x902000 0xE0000000 0x3 (sampleMachine 0x83) remappedMachine := by
  have direct := sampleMachine_direct (by decide : IsLarge 0x83) (by decide) (by decide)
  exact ⟨direct.pagingMapPage_eq (by decide) _ _,
    pagingMapPage_mapsPage (sampleMachine 0x83) 0x902000 0xE0000000 0x3 direct.wellFormed
      (by decide) (by decide) ((card_missingTables_le _ _ _).trans (by decide))⟩

theorem remappedMachine_device :
    LeadsTo remappedMachine.memory remappedMachine.cr3 0x902000 0xE0000000 := by
  intro index
  have isFrame : IsTable 0x902000 := rfl
  have value := toNat_wordAddress isFrame index
  have small := index.isLt
  obtain ⟨translation, translated, _, phys, _⟩ := remappedMachine_maps.2.page
    (Memory.wordAddress 0x902000 index) (by rw [value]; change (0x902000 + _) / 4096 = 0x902; omega)
  have place : ∀ index : Fin 512,
      ptPtr ((0xE0000000 &&& frameBits) |||
        (Memory.wordAddress 0x902000 index &&& ptFlagMask)) = 0xE0000000 ∧
      tableIndex 3 ((0xE0000000 &&& frameBits) |||
        (Memory.wordAddress 0x902000 index &&& ptFlagMask)) = index := by
    decide +kernel
  exact ⟨translation, translated, by rw [phys]; exact place index⟩

theorem remappedMachine_root :
    LeadsTo remappedMachine.memory remappedMachine.cr3 0x200000 0x200000 := by
  have direct := sampleMachine_direct (by decide : IsLarge 0x83) (by decide) (by decide)
  have held : Held {ptPtr (sampleMachine 0x83).cr3} (sampleMachine 0x83) 0x200000 := .of_root rfl
  have isRoot : IsTable 0x200000 := rfl
  intro index
  have value := toNat_wordAddress isRoot index
  have small := index.isLt
  obtain ⟨old, translated, place⟩ :=
    direct.identity.leadsTo direct.wellFormed direct.current held index
  rcases remappedMachine_maps.2.otherPages (Memory.wordAddress 0x200000 index)
    (by rw [pml4Index_wordAddress isRoot]; decide)
    (by rw [value]; change (0x200000 + _) / 4096 ≠ 0x902; omega) with
    same | ⟨_, first, new, isOld, isNew, _, kept⟩
  · exact ⟨old, same.trans translated, place⟩
  · obtain rfl := Option.some.inj (isOld.symm.trans translated)
    exact ⟨new, isNew, by rw [kept.phys]; exact place⟩

theorem remappedMachine_unreached :
    Unreached tableLink remappedMachine.memory {ptPtr remappedMachine.cr3} 0xE0000000 := by
  have direct := sampleMachine_direct (by decide : IsLarge 0x83) (by decide) (by decide)
  have outcome := pagingMapPage_outcome direct.wellFormed direct.current
    (by decide : pml4Index 0x902000 ≠ 511) 0xE0000000 0x3
  have sameCr3 : remappedMachine.cr3 = (sampleMachine 0x83).cr3 := outcome.cr3
  rw [sameCr3]
  apply outcome.keeps_unreached direct.wellFormed direct.current (by decide)
  rintro root rfl path reached
  rcases identityMemory_held sampleImage (fun _ _ => 0) (by decide : IsLarge 0x83) rfl
    (.of_tableAt rfl reached) with free | ⟨_, below⟩
  · revert free
    decide
  · exact absurd below (by decide)

/--
Once the page of the top free frame is mapped elsewhere, the new PML4 is written
there, and the space that `paging_vfork_clone` returns maps nothing.
-/
theorem paging_vfork_clone_elsewhere :
    ∃ machine pml4 after,
      Active.pagingMapPage 0x902000 0xE0000000 0x3 (sampleMachine 0x83) = .ok () machine ∧
        WellFormed {ptPtr machine.cr3} machine ∧ machine.pmm.stack ≠ [] ∧
        Active.pagingVforkClone machine = .ok pml4 after ∧ pml4 ≠ 0 ∧
        (walk machine.memory machine.cr3 0x400000).map Translation.phys = some 0x400000 ∧
        walk after.memory pml4 0x400000 = none := by
  have wellFormed := remappedMachine_maps.2.wellFormed
  have popped : (pmmAlloc remappedMachine.pmm).1 = 0x902000 := by decide
  have free : remappedMachine.pmm.stack ≠ [] := by decide
  obtain ⟨pml4, rest, fresh⟩ := wellFormed.freshFrame free
  obtain rfl : pml4 = 0x902000 := by rw [← popped, fresh.popped]
  have source : ptPtr remappedMachine.cr3 = 0x200000 := by decide
  have frame : ptPtr 0x902000 = 0x902000 := by decide
  have start := fresh.wellFormed wellFormed
  have current : ptPtr remappedMachine.cr3 ∈ ({ptPtr remappedMachine.cr3} : Set U64) := rfl
  have unreached : Unreached tableLink { remappedMachine with pmm := rest }.memory
      {ptPtr remappedMachine.cr3} 0xE0000000 := remappedMachine_unreached
  have device : LeadsTo { remappedMachine with pmm := rest }.memory remappedMachine.cr3
      0x902000 0xE0000000 := remappedMachine_device
  have root : LeadsTo { remappedMachine with pmm := rest }.memory remappedMachine.cr3
      0x200000 0x200000 := remappedMachine_root
  have read : (get : KernelM Machine) { remappedMachine with pmm := rest } =
      .ok { remappedMachine with pmm := rest } { remappedMachine with pmm := rest } := rfl
  have copied : Active.storeEntries 0x902000 (Active.loadEntry 0x200000)
      ((finRange 512).filter fun i => i.val < 511) { remappedMachine with pmm := rest } = _ :=
    storeEntries_eq device start current unreached rfl (by decide) _ (by
      intro later step i _
      rw [loadEntry_eq (root.dataStep step start current unreached rfl (by decide)),
        step.elsewhere _ (by decide)])
  have filled := DataStep.fillAt { remappedMachine with pmm := rest } 0xE0000000
    ((finRange 512).filter fun i => i.val < 511) (remappedMachine.memory 0x200000)
  have ran : Active.pagingVforkClone remappedMachine = .ok 0x902000 { remappedMachine with
      pmm := rest
      memory := (remappedMachine.memory.fillAt 0xE0000000 ((finRange 512).filter
        fun i => i.val < 511) (remappedMachine.memory 0x200000)).write 0xE0000000 511
          (0x902000 ||| pagePresent ||| pageWrite) } := by
    rw [Active.pagingVforkClone, bind_of_ok (allocFrame_eq fresh.popped), if_neg fresh.nonzero,
      bind_of_ok read, source, frame, bind_of_ok copied,
      bind_of_ok (storeEntry_eq
        (device.dataStep filled start current unreached rfl (by decide)) 511 _)]
    rfl
  refine ⟨remappedMachine, _, _, remappedMachine_maps.1, wellFormed, free, ran, by decide, ?_, ?_⟩
  · decide
  · change walk ((remappedMachine.memory.fillAt _ _ _).write _ _ _) _ _ = none
    decide

end XKern
