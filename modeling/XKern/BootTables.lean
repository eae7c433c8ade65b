import XKern.PageTables

namespace XKern

open RadixStore BitVec List Option

/-!
# The identity tables of the boot trampoline

`pexpert/x86_64/boot.asm` builds a PML4, a PDPT and four page directories in
consecutive pages of the kernel's bss, and maps the low 4 GiB to itself with
2 MiB leaves.
-/

/-- The linker symbol `pml4`; `pdpt` and `pd0` follow it page by page. -/
structure BootImage where
  pml4 : U64
  aligned : pml4.toNat % 4096 = 0
  low : pml4.toNat + 6 * 4096 < 2 ^ 32

/-- `PRESENT_WRITE`. -/
def presentWrite : U64 := 0x003

/-- `PRESENT_WRITE_2M`. -/
def presentWrite2M : U64 := 0x083

namespace BootImage

/-- The symbol `pdpt`. -/
def pdpt (image : BootImage) : U64 :=
  image.pml4 + 0x1000

/-- The page directories `pd0` to `pd3`. -/
def pd (image : BootImage) (i : Fin 512) : U64 :=
  image.pml4 + (0x2000 : U64) + (BitVec.ofNat 64 i.val <<< 12)

theorem toNat_pdpt (image : BootImage) : image.pdpt.toNat = image.pml4.toNat + 4096 := by
  have low := image.low
  rw [pdpt, toNat_add]
  simp only [ofNat_eq_ofNat, toNat_ofNat]
  omega

theorem toNat_pd (image : BootImage) {i : Fin 512} (small : i.val < 4) :
    (image.pd i).toNat = image.pml4.toNat + 8192 + i.val * 4096 := by
  have low := image.low
  rw [pd, toNat_add, toNat_add, toNat_shiftLeft, Nat.shiftLeft_eq]
  simp only [ofNat_eq_ofNat, toNat_ofNat]
  omega

end BootImage

/--
The tables as `.fill_pdpt` and `.fill_pd` leave them, for leaves with the given
flags, over the memory `rest`.
-/
def identityMemory (image : BootImage) (flags : U64) (rest : Memory) : Memory :=
  fun page index =>
    if page = image.pml4 then
      if index = 0 then image.pdpt ||| presentWrite else 0
    else if page = image.pdpt then
      if index.val < 4 then image.pd index ||| presentWrite else 0
    else
      match (range 4).find? fun i => page = image.pd (.ofNat 512 i) with
      | some i => .ofNat 64 (i * 2 ^ 30 + index.val * 2 ^ 21) ||| flags
      | none => rest page index

def bootMemory (image : BootImage) (rest : Memory) : Memory :=
  identityMemory image presentWrite2M rest

theorem pointsTo_presentWrite {t : U64} (table : IsTable t) : PointsTo (t ||| presentWrite) t := by
  have points := pointsTo_new table
  rwa [BitVec.or_assoc] at points

section Identity

variable (image : BootImage) {flags : U64} (rest : Memory)

theorem isTable_pdpt : IsTable image.pdpt := by
  have aligned := image.aligned
  have low := image.low
  rw [isTable_iff, image.toNat_pdpt]
  omega

theorem isTable_pd {i : Fin 512} (small : i.val < 4) : IsTable (image.pd i) := by
  have aligned := image.aligned
  have low := image.low
  rw [isTable_iff, image.toNat_pd small]
  omega

theorem identityMemory_pml4 (index : Fin 512) : identityMemory image flags rest image.pml4 index =
      if index = 0 then image.pdpt ||| presentWrite else 0 := by
  rw [identityMemory, if_pos rfl]

theorem identityMemory_pdpt (index : Fin 512) : identityMemory image flags rest image.pdpt index =
      if index.val < 4 then image.pd index ||| presentWrite else 0 := by
  have different : image.pdpt ≠ image.pml4 := by
    intro same
    have value := image.toNat_pdpt
    rw [same] at value
    omega
  rw [identityMemory, if_neg different, if_pos rfl]

theorem identityMemory_pd {i : Fin 512} (small : i.val < 4) (index : Fin 512) :
    identityMemory image flags rest (image.pd i) index =
      .ofNat 64 (i.val * 2 ^ 30 + index.val * 2 ^ 21) ||| flags := by
  have value := image.toNat_pd small
  have notPml4 : image.pd i ≠ image.pml4 := by
    intro same
    rw [same] at value
    omega
  have notPdpt : image.pd i ≠ image.pdpt := by
    intro same
    rw [same, image.toNat_pdpt] at value
    omega
  rw [identityMemory, if_neg notPml4, if_neg notPdpt]
  cases found : (range 4).find? fun other => image.pd i = image.pd (.ofNat 512 other) with
  | none =>
    rw [find?_eq_none] at found
    have member : i.val ∈ range 4 := mem_range.mpr small
    exact absurd (by simp) (found i.val member)
  | some other =>
    have below := mem_range.mp (mem_of_find?_eq_some found)
    have same : image.pd i = image.pd (.ofNat 512 other) := by
      simpa using List.find?_some found
    have otherVal : (Fin.ofNat 512 other).val = other := Nat.mod_eq_of_lt (by omega)
    have otherValue := image.toNat_pd (i := .ofNat 512 other) (by omega)
    rw [← same, value, otherVal] at otherValue
    have isOther : other = i.val := by omega
    rw [isOther]

theorem isLarge_identityMemory_pd (large : IsLarge flags) {i : Fin 512} (small : i.val < 4)
    (index : Fin 512) :
    IsLarge (identityMemory image flags rest (image.pd i) index) := by
  rw [identityMemory_pd image rest small, isLarge_iff, getLsbD_or, (isLarge_iff flags).mp large,
    Bool.or_true]

theorem tableLink_identityMemory_pml4 (index : Fin 512) :
    tableLink 0 index (identityMemory image flags rest image.pml4 index) =
      if index = 0 then some image.pdpt else none := by
  rw [identityMemory_pml4]
  split
  · rename_i isFirst
    exact tableLink_pointsTo (by simp [isFirst]) (by decide)
      (pointsTo_presentWrite (isTable_pdpt image))
  · exact tableLink_absent _ _ (by decide)

theorem tableLink_identityMemory_pdpt (index : Fin 512) :
    tableLink 1 index (identityMemory image flags rest image.pdpt index) =
      if index.val < 4 then some (image.pd index) else none := by
  rw [identityMemory_pdpt]
  split
  · rename_i small
    exact tableLink_pointsTo (by simp) (by decide) (pointsTo_presentWrite (isTable_pd image small))
  · exact tableLink_absent _ _ (by decide)

theorem tableAt_identityMemory (large : IsLarge flags) {path : List (Fin 512)} {table : U64}
    (reached : tableAt tableLink (identityMemory image flags rest) image.pml4 path = some table) :
    (path = [] ∧ table = image.pml4) ∨ (path = [0] ∧ table = image.pdpt) ∨
      ∃ i : Fin 512, i.val < 4 ∧ path = [0, i] ∧ table = image.pd i := by
  match path with
  | [] =>
    rw [tableAt_nil, Option.some.injEq] at reached
    exact .inl ⟨rfl, reached.symm⟩
  | [first] =>
    simp only [tableAt, descend, tableLink_identityMemory_pml4] at reached
    split at reached
    · rename_i isFirst
      rw [bind_some, Option.some.injEq] at reached
      exact .inr (.inl ⟨by rw [isFirst], reached.symm⟩)
    · simp at reached
  | [first, second] =>
    simp only [tableAt, descend, tableLink_identityMemory_pml4] at reached
    split at reached
    · rename_i isFirst
      simp only [bind_some, zero_add, tableLink_identityMemory_pdpt] at reached
      split at reached
      · rename_i small
        rw [bind_some, Option.some.injEq] at reached
        exact .inr (.inr ⟨second, small, by rw [isFirst], reached.symm⟩)
      · simp at reached
    · simp at reached
  | first :: second :: third :: more =>
    simp only [tableAt, descend, tableLink_identityMemory_pml4] at reached
    split at reached
    · simp only [bind_some, zero_add, tableLink_identityMemory_pdpt] at reached
      split at reached
      · rename_i small
        rw [bind_some, tableLink_large third (by decide)
          (isLarge_identityMemory_pd image rest large small third)] at reached
        simp at reached
      · simp at reached
    · simp at reached

theorem identityMemory_separated (large : IsLarge flags) {path otherPath : List (Fin 512)}
    {table : U64}
    (reached : tableAt tableLink (identityMemory image flags rest) image.pml4 path = some table)
    (otherReached : tableAt tableLink (identityMemory image flags rest) image.pml4
      otherPath = some table) :
    path = otherPath := by
  have valuePdpt := image.toNat_pdpt
  rcases tableAt_identityMemory image rest large reached with
    ⟨rfl, rfl⟩ | ⟨rfl, rfl⟩ | ⟨i, small, rfl, rfl⟩ <;>
  rcases tableAt_identityMemory image rest large otherReached with
    ⟨rfl, same⟩ | ⟨rfl, same⟩ | ⟨j, otherSmall, rfl, same⟩
  -- Off the diagonal the addresses of the tables differ.
  all_goals have value := congrArg BitVec.toNat same
  · rfl
  · omega
  · have second := image.toNat_pd otherSmall
    omega
  · omega
  · rfl
  · have second := image.toNat_pd otherSmall
    omega
  · have first := image.toNat_pd small
    omega
  · have first := image.toNat_pd small
    omega
  · have first := image.toNat_pd small
    have second := image.toNat_pd otherSmall
    have sameIndex : i = j := Fin.ext (by omega)
    rw [sameIndex]

theorem identityMemory_wellFormed (large : IsLarge flags) {machine : Machine}
    (memory : machine.memory = identityMemory image flags rest) (valid : machine.pmm.Valid)
    (spareLow : ∀ frame ∈ machine.pmm.stack, frame.toNat < 2 ^ 52)
    (spare : ∀ frame ∈ machine.pmm.stack,
      frame.toNat < image.pml4.toNat ∨ image.pml4.toNat + 6 * 4096 ≤ frame.toNat) :
    WellFormed {image.pml4} machine := by
  exact {
    separated := by
      rw [memory]
      rintro root rfl other rfl path otherPath table reached otherReached
      exact identityMemory_separated image rest large reached otherReached
    rootTable := by
      rintro root rfl
      have low := image.low
      exact (isTable_iff _).mpr ⟨image.aligned, by omega⟩
    linkedLow := by
      rw [memory]
      rintro root rfl path table index reached links
      rcases tableAt_identityMemory image rest large reached with
        ⟨rfl, rfl⟩ | ⟨rfl, rfl⟩ | ⟨i, small, rfl, rfl⟩
      · rw [identityMemory_pml4] at links ⊢
        split
        · exact (pointsTo_presentWrite (isTable_pdpt image)).low
        · decide
      · rw [identityMemory_pdpt] at links ⊢
        split
        · rename_i small
          exact (pointsTo_presentWrite (isTable_pd image small)).low
        · decide
      · exact (links (tableLink_large _ (by simp)
          (isLarge_identityMemory_pd image rest large small index))).elim
    noHuge := by
      rw [memory]
      rintro root rfl slot table index reached present
      rcases tableAt_identityMemory image rest large reached with
        ⟨shape, _⟩ | ⟨_, rfl⟩ | ⟨_, _, shape, _⟩
      · simp at shape
      · rw [identityMemory_pdpt] at present ⊢
        split
        · rename_i small
          exact (pointsTo_presentWrite (isTable_pd image small)).small
        · decide
      · simp at shape
    spare := by
      rw [memory]
      rintro frame free root rfl path reached
      have outside := spare frame free
      have valuePdpt := image.toNat_pdpt
      rcases tableAt_identityMemory image rest large reached with
        ⟨_, rfl⟩ | ⟨_, rfl⟩ | ⟨i, small, _, rfl⟩
      · omega
      · omega
      · have value := image.toNat_pd small
        omega
    valid := valid
    spareLow := spareLow
  }

/-- The 2 MiB leaf of an address in the low 4 GiB leads to the address itself. -/
theorem phys_identityLeaf {va : U64} (low : va.toNat < 2 ^ 32)
    (clean : flags &&& ~~~LowBits.mask 64 21 = 0) (words : List U64) :
    (leafTranslation va 21 words (.ofNat 64 ((pdptIndex va).val * 2 ^ 30 +
      (pdIndex va).val * 2 ^ 21) ||| flags)).phys = va := by
  have base : BitVec.ofNat 64 ((pdptIndex va).val * 2 ^ 30 + (pdIndex va).val * 2 ^ 21) =
      va &&& ~~~LowBits.mask 64 21 := by
    apply eq_of_toNat_eq
    rw [LowBits.toNat_and_not_mask (by decide), toNat_ofNat, pdptIndex, pdIndex, val_tableIndex,
      val_tableIndex]
    omega
  simp only [leafTranslation]
  rw [base]
  apply eq_of_getLsbD_eq
  intro index inside
  have high : 32 ≤ index → va.getLsbD index = false := by
    intro above
    rw [getLsbD, Nat.testBit_lt_two_pow (low.trans_le (Nat.pow_le_pow_right (by decide) above))]
  have flagBit : 21 ≤ index → flags.getLsbD index = false := by
    intro above
    have bit := congrArg (getLsbD · index) clean
    simp only [getLsbD_and, getLsbD_not, LowBits.getLsbD_mask] at bit
    simpa [inside, Nat.not_lt.mpr above] using bit
  simp only [getLsbD_or, getLsbD_and, getLsbD_not, getLsbD_frameBits, LowBits.getLsbD_mask]
  grind

/-- Every address in the low 4 GiB is mapped to itself. -/
theorem walk_identityMemory (large : IsLarge flags) (present : Present flags)
    (clean : flags &&& ~~~LowBits.mask 64 21 = 0) {va : U64} (low : va.toNat < 2 ^ 32) :
    (walk (identityMemory image flags rest) image.pml4 va).map Translation.phys = some va := by
  have imageLow := image.low
  have isRoot : IsTable image.pml4 := (isTable_iff _).mpr ⟨image.aligned, by omega⟩
  have slot : pml4Index va = 0 := by
    apply Fin.ext
    rw [pml4Index, val_tableIndex]
    change _ = 0
    omega
  have small : (pdptIndex va).val < 4 := by
    rw [pdptIndex, val_tableIndex]
    omega
  have leafPresent : Present (identityMemory image flags rest (image.pd (pdptIndex va))
      (pdIndex va)) := by
    rw [identityMemory_pd image rest small, present_iff, getLsbD_or, (present_iff flags).mp present,
      Bool.or_true]
  have stops := tableLink_large (pdIndex va) (by decide : 2 ≠ 0)
    (isLarge_identityMemory_pd image rest large small (pdIndex va))
  have canonical : Canonical va := .inl (by omega)
  rw [walk_eq_translate isRoot (by rw [slot]; decide), if_pos canonical]
  simp only [vaPath, trail, slot, tableLink_identityMemory_pml4, tableLink_identityMemory_pdpt,
    if_pos small, if_true, zero_add, Nat.reduceAdd, stops, translate, if_pos leafPresent]
  rw [identityMemory_pd image rest small, Option.map_some, phys_identityLeaf low clean]

end Identity

def sampleImage : BootImage where
  pml4 := 0x200000
  aligned := by decide
  low := by decide

/-- That kernel with four free frames and leaves with the given flags. -/
def sampleMachine (flags : U64) : Machine where
  pmm := ⟨[0x900000, 0x901000, 0x902000, 0x903000], 0, by decide⟩
  memory := identityMemory sampleImage flags fun _ _ => 0
  cr3 := 0x200000

theorem eightFrames_bounded :
    ([0x900000, 0x901000, 0x902000, 0x903000, 0x904000, 0x905000, 0x906000,
      0x907000] : List U64).length ≤ pmmStackSize := by
  decide

theorem sampleImage_wellFormed {flags : U64} (large : IsLarge flags) {machine : Machine}
    (memory : machine.memory = identityMemory sampleImage flags fun _ _ => 0)
    (root : machine.cr3 = 0x200000) (nodup : machine.pmm.stack.Nodup)
    (spare : ∀ frame ∈ machine.pmm.stack,
      0x900000 ≤ frame.toNat ∧ frame.toNat < 2 ^ 52 ∧ frame.toNat % 4096 = 0) :
    WellFormed {ptPtr machine.cr3} machine := by
  have rootPtr : ptPtr machine.cr3 = sampleImage.pml4 := by
    rw [root]
    decide
  rw [rootPtr]
  have base : sampleImage.pml4.toNat = 0x200000 := rfl
  apply identityMemory_wellFormed sampleImage _ large memory
  · refine ⟨nodup, fun frame member => ?_⟩
    obtain ⟨above, _, aligned⟩ := spare frame member
    exact ⟨by rintro rfl; simp at above, aligned⟩
  · intro frame member
    exact (spare frame member).2.1
  · intro frame member
    have above := (spare frame member).1
    omega

theorem sampleMachine_wellFormed {flags : U64} (large : IsLarge flags) :
    WellFormed {ptPtr (sampleMachine flags).cr3} (sampleMachine flags) :=
  sampleImage_wellFormed large rfl rfl (by simp [sampleMachine]) (by simp [sampleMachine])

end XKern
