import XKern.Paging

namespace XKern

open List Nat
open BitVec (and_twoPow eq_of_getLsbD_eq getLsbD_and getLsbD_not getLsbD_or getLsbD_twoPow)

/-!
# Page-table entries bit by bit

What the entries written by `paging_map_page` mean to the processor: a table
entry points to its table, the leaf entry maps the requested frame, and the
512 entries of a split leaf translate every address of the 2 MiB page as the
leaf did.
-/

theorem val_tableIndex (shift : Nat) (va : U64) :
    (tableIndex shift va).val = va.toNat / 2 ^ shift % 512 := by
  have value := LowBits.toNat_and_mask (by decide : 9 ≤ 64) (va >>> shift)
  rw [BitVec.toNat_ushiftRight, shiftRight_eq_div_pow] at value
  exact value

/-- The four indices are the number of the page, but for the bits above them. -/
theorem page_mod_eq (va : U64) : va.toNat / 4096 % 2 ^ 36 =
      (((pml4Index va).val * 512 + (pdptIndex va).val) * 512 + (pdIndex va).val) * 512 +
        (ptIndex va).val := by
  simp only [pml4Index, pdptIndex, pdIndex, ptIndex, val_tableIndex]
  omega

theorem page_eq_of_vaPath_eq {va other : U64} (canonical : Canonical va)
    (otherCanonical : Canonical other) (samePath : vaPath va = vaPath other) :
    va.toNat / 4096 = other.toNat / 4096 := by
  simp only [vaPath, cons.injEq, and_true] at samePath
  obtain ⟨samePml4, samePdpt, samePd, samePt⟩ := samePath
  have sameLow : va.toNat / 4096 % 2 ^ 36 = other.toNat / 4096 % 2 ^ 36 := by
    rw [page_mod_eq, page_mod_eq, samePml4, samePdpt, samePd, samePt]
  unfold Canonical at canonical otherCanonical
  omega

theorem vaPath_eq_of_page_eq {va other : U64} (samePage : va.toNat / 4096 = other.toNat / 4096) :
    vaPath va = vaPath other := by
  simp only [vaPath, cons.injEq, and_true, pml4Index, pdptIndex, pdIndex,
    ptIndex, Fin.ext_iff, val_tableIndex]
  omega

theorem ptFlagMask_eq_mask : ptFlagMask = LowBits.mask 64 12 := rfl

theorem frameBits_eq : frameBits = LowBits.mask 64 52 &&& ~~~ptFlagMask := by
  decide

/-- The address of a table: no bits beside those of a frame. -/
def IsTable (addr : U64) : Prop :=
  addr &&& frameBits = addr

theorem toNat_and_frameBits (word : U64) : (word &&& frameBits).toNat =
      word.toNat % 2 ^ 52 - word.toNat % 2 ^ 12 := by
  rw [frameBits_eq, ← BitVec.and_assoc, ptFlagMask_eq_mask,
    LowBits.toNat_and_not_mask (by decide), LowBits.toNat_and_mask (by decide)]
  omega

theorem isTable_iff (addr : U64) : IsTable addr ↔ addr.toNat % 4096 = 0 ∧ addr.toNat < 2 ^ 52 := by
  unfold IsTable
  constructor
  · intro same
    have value := toNat_and_frameBits addr
    rw [same] at value
    omega
  · rintro ⟨aligned, low⟩
    apply BitVec.eq_of_toNat_eq
    rw [toNat_and_frameBits]
    omega

theorem and_twoPow_ne_zero_iff {position : Nat} (inside : position < 64) (entry : U64) :
    entry &&& BitVec.twoPow 64 position ≠ 0 ↔ entry.getLsbD position = true := by
  rw [and_twoPow]
  have nonzero : BitVec.twoPow 64 position ≠ 0 := by
    intro zero
    have bit := congrArg (BitVec.getLsbD · position) zero
    simp [inside] at bit
  cases entry.getLsbD position with
  | false => simp
  | true => simpa using nonzero

theorem present_iff (entry : U64) : Present entry ↔ entry.getLsbD 0 = true := by
  rw [← and_twoPow_ne_zero_iff (by decide)]
  rfl

theorem isLarge_iff (entry : U64) : IsLarge entry ↔ entry.getLsbD 7 = true := by
  rw [← and_twoPow_ne_zero_iff (by decide)]
  rfl

theorem getLsbD_frameBits (index : Nat) :
    frameBits.getLsbD index = (decide (12 ≤ index) && decide (index < 52)) := by
  rw [frameBits_eq, ptFlagMask_eq_mask, getLsbD_and, getLsbD_not,
    LowBits.getLsbD_mask, LowBits.getLsbD_mask]
  grind

theorem getLsbD_leafFlags (leaf : U64) (index : Nat) : (leafFlags leaf).getLsbD index =
      (leaf.getLsbD index && decide (index < 5)) := by
  rw [leafFlags, show pagePresent ||| pageWrite ||| pageUser ||| pagePwt |||
    pagePcd = LowBits.mask 64 5 by decide, getLsbD_and,
    LowBits.getLsbD_mask]
  grind

theorem getLsbD_caching (index : Nat) : (pagePwt ||| pagePcd).getLsbD index =
      (decide (index = 3) || decide (index = 4)) := by
  rw [show pagePwt = BitVec.twoPow 64 3 from rfl,
    show pagePcd = BitVec.twoPow 64 4 from rfl, getLsbD_or,
    getLsbD_twoPow, getLsbD_twoPow]
  grind

theorem getLsbD_mmioFlags (flags : U32) (index : Nat) : (mmioFlags flags).getLsbD index =
      (flags.getLsbD index && (decide (index = 3) || decide (index = 4))) := by
  rw [mmioFlags, getLsbD_and, getLsbD_caching, BitVec.getLsbD_setWidth]
  grind

theorem getLsbD_splitBase (leaf : U64) (i : Fin 512) (index : Nat) :
    ((leaf &&& ~~~(((1 : U64) <<< 21) - 1)) + (BitVec.ofNat 64 i.val <<< 12)).getLsbD index =
      if index < 21 then decide (12 ≤ index) && i.val.testBit (index - 12)
      else leaf.getLsbD index := by
  have indexBits : ∀ position, (BitVec.ofNat 64 i.val <<< 12).getLsbD position =
      (decide (position < 21) && decide (12 ≤ position) && i.val.testBit (position - 12)) := by
    intro position
    rw [BitVec.getLsbD_shiftLeft, BitVec.getLsbD_ofNat]
    have high : 9 ≤ position - 12 → i.val.testBit (position - 12) = false := by
      intro bound
      have powerLe : 2 ^ 9 ≤ 2 ^ (position - 12) := Nat.pow_le_pow_right (by decide) bound
      exact testBit_lt_two_pow (i.isLt.trans_le powerLe)
    grind
  have baseBits : ∀ position, (leaf &&& ~~~(((1 : U64) <<< 21) - 1)).getLsbD position =
        (leaf.getLsbD position && !decide (position < 21)) := by
    intro position
    rw [show (((1 : U64) <<< 21) - 1) = LowBits.mask 64 21 from rfl,
      getLsbD_and, getLsbD_not, LowBits.getLsbD_mask]
    grind
  have disjoint : (leaf &&& ~~~(((1 : U64) <<< 21) - 1)) &&&
      (BitVec.ofNat 64 i.val <<< 12) = 0 := by
    apply eq_of_getLsbD_eq
    intro position _
    rw [getLsbD_and, baseBits, indexBits]
    grind
  rw [BitVec.add_eq_or_of_and_eq_zero _ _ disjoint, getLsbD_or, baseBits, indexBits]
  grind

theorem getLsbD_splitEntry (leaf : U64) (flags : U32) (i : Fin 512) (index : Nat) :
    (splitEntry leaf flags i).getLsbD index = if index < 5 then
        if mmioFlags flags ≠ 0 ∧ (index = 3 ∨ index = 4) then
          flags.getLsbD index
        else
          leaf.getLsbD index
      else if index < 21 then
        decide (12 ≤ index) && i.val.testBit (index - 12)
      else
        leaf.getLsbD index := by
  have plain : ∀ position, (((leaf &&& ~~~(((1 : U64) <<< 21) - 1)) +
      (BitVec.ofNat 64 i.val <<< 12)) ||| leafFlags leaf).getLsbD position =
      if position < 5 then leaf.getLsbD position
      else if position < 21 then
        decide (12 ≤ position) && i.val.testBit (position - 12)
      else leaf.getLsbD position := by
    intro position
    rw [getLsbD_or, getLsbD_splitBase, getLsbD_leafFlags]
    grind
  simp only [splitEntry]
  by_cases mmio : mmioFlags flags ≠ 0
  · rw [if_pos mmio, getLsbD_or, getLsbD_and, plain,
      getLsbD_not, getLsbD_caching, getLsbD_mmioFlags]
    by_cases caching : index = 3 ∨ index = 4
    · have here : index < 5 := by omega
      simp only [if_pos here, if_pos (And.intro mmio caching)]
      rcases caching with rfl | rfl <;> simp
    · rw [not_or] at caching
      by_cases inside : index < 64
      · simp [caching, inside]
      · simp [caching, inside, BitVec.getLsbD_of_ge leaf index (by omega)]
        omega
  · rw [if_neg mmio, plain]
    grind

theorem IsTable.getLsbD {addr : U64} (table : IsTable addr) (index : Nat) : addr.getLsbD index =
      (addr.getLsbD index && (decide (12 ≤ index) && decide (index < 52))) := by
  rw [← getLsbD_frameBits, ← getLsbD_and]
  exact congrArg (BitVec.getLsbD · index) (Eq.symm table)

theorem getLsbD_ptPtr (entry : U64) (index : Nat) : (ptPtr entry).getLsbD index =
      (entry.getLsbD index && decide (12 ≤ index)) := by
  rw [ptPtr, ptFlagMask_eq_mask, getLsbD_and, getLsbD_not, LowBits.getLsbD_mask]
  grind

/-- The entry refers to the table `t`, for the processor and for the kernel. -/
structure PointsTo (entry t : U64) : Prop where
  present : Present entry
  small : ¬ IsLarge entry
  frame : entry &&& frameBits = t
  ptr : ptPtr entry = t
  low : entry.toNat < 2 ^ 52

theorem pointsTo_of_flags {t flags : U64} (table : IsTable t) (present : flags.getLsbD 0 = true)
    (low : ∀ index, 5 ≤ index → flags.getLsbD index = false) :
    PointsTo (t ||| flags) t := by
  have bits : ∀ index, (t ||| flags).getLsbD index = (t.getLsbD index || flags.getLsbD index) :=
    fun index => getLsbD_or
  refine ⟨?_, ?_, ?_, ?_, ?_⟩
  · rw [present_iff, bits, present, Bool.or_true]
  · rw [isLarge_iff, bits, low 7 (by decide), table.getLsbD]
    simp
  · apply eq_of_getLsbD_eq
    intro index _
    have tableBit := table.getLsbD index
    have lowBit := low index
    rw [getLsbD_and, bits, getLsbD_frameBits]
    grind
  · apply eq_of_getLsbD_eq
    intro index _
    have tableBit := table.getLsbD index
    have lowBit := low index
    rw [getLsbD_ptPtr, bits]
    grind
  · apply lt_pow_two_of_testBit
    intro index high
    have tableBit := table.getLsbD index
    have lowBit := low index (by omega)
    have bit := bits index
    rw [BitVec.getLsbD] at bit
    rw [bit]
    grind

theorem pointsTo_new {t : U64} (table : IsTable t) :
    PointsTo (t ||| pagePresent ||| pageWrite) t := by
  rw [BitVec.or_assoc]
  refine pointsTo_of_flags table (by decide) ?_
  intro index high
  rw [show pagePresent ||| pageWrite = LowBits.mask 64 2 by decide, LowBits.getLsbD_mask]
  grind

theorem pointsTo_split {t : U64} (table : IsTable t) (leaf : U64) : PointsTo
      (t ||| pagePresent ||| pageWrite ||| (leafFlags leaf &&& ~~~pagePresent)) t := by
  rw [BitVec.or_assoc t, BitVec.or_assoc t,
    show pagePresent ||| pageWrite = LowBits.mask 64 2 by decide]
  refine pointsTo_of_flags table ?_ ?_
  · rw [getLsbD_or, LowBits.getLsbD_mask]
    simp
  · intro index high
    rw [getLsbD_or, LowBits.getLsbD_mask, getLsbD_and, getLsbD_leafFlags]
    grind

theorem ptPtr_eq_frame {entry : U64} (low : entry.toNat < 2 ^ 52) :
    ptPtr entry = entry &&& frameBits := by
  apply BitVec.eq_of_toNat_eq
  rw [toNat_and_frameBits, ptPtr, ptFlagMask_eq_mask, LowBits.toNat_and_not_mask (by decide)]
  omega

/-! ## What a split keeps -/

/--
The later translation agrees with the earlier one in the physical address, the
rights and the bits present, write, user and no-execute of the leaf, and in the
caching bits unless `flags` asks for others.
-/
structure Kept (flags : U32) (before after : Translation) : Prop where
  phys : after.phys = before.phys
  rights : after.rights = before.rights
  bits : ∀ bit ∈ [pagePresent, pageWrite, pageUser, pageNoexec],
    after.leaf &&& bit = before.leaf &&& bit
  caching : mmioFlags flags = 0 → ∀ bit ∈ [pagePwt, pagePcd],
    after.leaf &&& bit = before.leaf &&& bit

theorem Kept.trans {flags : U32} {first second third : Translation}
    (before : Kept flags first second) (after : Kept flags second third) :
    Kept flags first third where
  phys := after.phys.trans before.phys
  rights := after.rights.trans before.rights
  bits := fun bit member =>
    (after.bits bit member).trans (before.bits bit member)
  caching := fun plain bit member =>
    (after.caching plain bit member).trans (before.caching plain bit member)

theorem testBit_ptIndex (va : U64) (index : Nat) : (ptIndex va).val.testBit index =
      (decide (index < 9) && va.getLsbD (12 + index)) := by
  rw [ptIndex, val_tableIndex, show 512 = 2 ^ 9 from rfl,
    testBit_mod_two_pow, testBit_div_two_pow, BitVec.getLsbD,
    add_comm]

theorem and_twoPow_congr {first second : U64} {position : Nat}
    (same : first.getLsbD position = second.getLsbD position) :
    first &&& BitVec.twoPow 64 position = second &&& BitVec.twoPow 64 position := by
  rw [and_twoPow, and_twoPow, same]

theorem getLsbD_rightsMask (index : Nat) : (pageWrite ||| pageUser).getLsbD index =
      (decide (index = 1) || decide (index = 2)) := by
  rw [show pageWrite = BitVec.twoPow 64 1 from rfl,
    show pageUser = BitVec.twoPow 64 2 from rfl, getLsbD_or,
    getLsbD_twoPow, getLsbD_twoPow]
  grind

theorem getLsbD_splitTable (t leaf : U64) (index : Nat) : (t ||| pagePresent ||| pageWrite |||
        (leafFlags leaf &&& ~~~pagePresent)).getLsbD index =
      (t.getLsbD index || decide (index < 2) || (leaf.getLsbD index && decide (index < 5))) := by
  rw [BitVec.or_assoc t, BitVec.or_assoc t,
    show pagePresent ||| pageWrite = LowBits.mask 64 2 by decide,
    show pagePresent = LowBits.mask 64 1 from rfl,
    getLsbD_or, getLsbD_or, getLsbD_and,
    getLsbD_not, LowBits.getLsbD_mask, LowBits.getLsbD_mask,
    getLsbD_leafFlags]
  grind

theorem phys_split (va leaf : U64) (flags : U32) :
    (leafTranslation va 12 [] (splitEntry leaf flags (ptIndex va))).phys =
      (leafTranslation va 21 [] leaf).phys := by
  apply eq_of_getLsbD_eq
  intro index inside
  simp only [leafTranslation, getLsbD_or, getLsbD_and,
    getLsbD_not, LowBits.getLsbD_mask, getLsbD_frameBits,
    getLsbD_splitEntry, testBit_ptIndex]
  grind

theorem kept_split (va pml4e pdpte leaf t : U64) (flags : U32) (table : IsTable t) : Kept flags
      (leafTranslation va 21 [pml4e, pdpte, leaf] leaf)
      (leafTranslation va 12 [pml4e, pdpte, t ||| pagePresent ||| pageWrite |||
            (leafFlags leaf &&& ~~~pagePresent),
          splitEntry leaf flags (ptIndex va)]
        (splitEntry leaf flags (ptIndex va))) where
  phys := phys_split va leaf flags
  rights := by
    apply eq_of_getLsbD_eq
    intro index _
    have tableBit := table.getLsbD index
    simp only [leafTranslation, foldl_cons, foldl_nil,
      getLsbD_and, getLsbD_rightsMask, getLsbD_splitTable,
      getLsbD_splitEntry]
    grind
  bits := by
    have sameBit : ∀ position, position < 3 ∨ position = 63 →
        (splitEntry leaf flags (ptIndex va)).getLsbD position = leaf.getLsbD position := by
      intro position which
      rw [getLsbD_splitEntry]
      grind
    intro bit member
    simp only [mem_cons, not_mem_nil, or_false] at member
    rcases member with rfl | rfl | rfl | rfl
    · exact and_twoPow_congr (sameBit 0 (by decide))
    · exact and_twoPow_congr (sameBit 1 (by decide))
    · exact and_twoPow_congr (sameBit 2 (by decide))
    · exact and_twoPow_congr (sameBit 63 (by decide))
  caching := by
    intro plain
    have sameBit : ∀ position, position < 5 →
        (splitEntry leaf flags (ptIndex va)).getLsbD position = leaf.getLsbD position := by
      intro position which
      rw [getLsbD_splitEntry]
      simp [plain, which]
    intro bit member
    simp only [mem_cons, not_mem_nil, or_false] at member
    rcases member with rfl | rfl
    · exact and_twoPow_congr (sameBit 3 (by decide))
    · exact and_twoPow_congr (sameBit 4 (by decide))

/-! ## The leaf entry of a mapping -/

theorem present_leafEntry (physicalAddr : U64) (flags : U32) :
    Present (leafEntry physicalAddr flags) := by
  rw [present_iff, leafEntry, getLsbD_or]
  simp [pagePresent]

theorem leafEntry_and_frameBits (physicalAddr : U64) (flags : U32) :
    leafEntry physicalAddr flags &&& frameBits = physicalAddr &&& frameBits := by
  apply eq_of_getLsbD_eq
  intro index _
  rw [getLsbD_and, getLsbD_and, leafEntry, getLsbD_or,
    getLsbD_or, getLsbD_frameBits, ← ptPtr, getLsbD_ptPtr]
  rw [show pagePresent = BitVec.twoPow 64 0 from rfl, getLsbD_twoPow,
    getLsbD_and, BitVec.getLsbD_setWidth, getLsbD_and,
    show (0xFFF : U32) = LowBits.mask 32 12 from rfl, LowBits.getLsbD_mask]
  grind

end XKern
