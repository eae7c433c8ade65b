import XKern.Elf
import XKern.SpaceLoad

namespace XKern

open FaultTriple BitVec

/-!
# What the ELF loader maps and fills

The loader maps the pages of the loadable segments and then writes their
bytes, so it keeps the invariant of a load into one space.  Two kinds of images
are left out: segments that wrap around the end of the address space, for which
the first loop maps no page, and segments in the recursive slot, which would
edit the tables themselves.
-/

variable {img : ElfImage} {phoff vaddr memsz : U64} {i last : Nat}

namespace ElfImage

/-- Header `i` asks to load `memsz` bytes at `vaddr`. -/
structure Segment
    (img : ElfImage)
    (phoff : U64)
    (i : Nat)
    (vaddr memsz : U64) : Prop where
  type : img.pType phoff i = some elfPtLoad
  vaddr : img.pVaddr phoff i = some vaddr
  memsz : img.pMemsz phoff i = some memsz

/-- The page of `va` belongs to a segment from header `i` up to `last`. -/
def SegmentsMap (img : ElfImage) (phoff : U64) (i last : Nat)
    (va : U64) : Prop :=
  ∃ j, i ≤ j ∧ j < last ∧ ∃ vaddr memsz,
    img.Segment phoff j vaddr memsz ∧
      Touches (segmentStart vaddr) (segmentEnd vaddr memsz) va

/-- The page of `va` is one that the loader maps. -/
def Maps (img : ElfImage) (va : U64) : Prop :=
  ∃ phoff ∈ img.ePhoff, ∃ phnum ∈ img.ePhnum,
    img.SegmentsMap phoff 0 phnum.toNat va

/-- No segment wraps around or reaches into the recursive slot. -/
structure Ordinary (img : ElfImage) : Prop where
  noWrap : ∀ phoff ∈ img.ePhoff, ∀ phnum ∈ img.ePhnum, ∀ i < phnum.toNat,
    ∀ vaddr memsz, img.Segment phoff i vaddr memsz →
    vaddr.toNat + memsz.toNat + 4095 < 2 ^ 64
  noRecursive : ∀ va, img.Maps va → pml4Index va ≠ 511

/-- No segment has more bytes in the file than in memory. -/
def Checked (img : ElfImage) (phoff : U64) (i last : Nat) : Prop :=
  ∀ j, i ≤ j → j < last → ∀ vaddr memsz filesz,
    img.Segment phoff j vaddr memsz →
    img.pFilesz phoff j = some filesz →
    filesz.toNat ≤ memsz.toNat

section Segments

theorem Segment.unique {otherVaddr otherMemsz : U64} (segment : img.Segment phoff i vaddr memsz)
    (other : img.Segment phoff i otherVaddr otherMemsz) :
    otherVaddr = vaddr ∧ otherMemsz = memsz :=
  ⟨Option.some.inj (other.vaddr.symm.trans segment.vaddr),
    Option.some.inj (other.memsz.symm.trans segment.memsz)⟩

theorem SegmentsMap.skip {va : U64} (maps : img.SegmentsMap phoff i last va)
    (notHere : ∀ vaddr memsz, ¬ img.Segment phoff i vaddr memsz) :
    img.SegmentsMap phoff (i + 1) last va := by
  obtain ⟨j, fromI, toLast, vaddr, memsz, segment, touches⟩ := maps
  have notI : j ≠ i := by
    rintro rfl
    exact notHere vaddr memsz segment
  exact ⟨j, by omega, toLast, vaddr, memsz, segment, touches⟩

theorem SegmentsMap.uncons {va : U64} (maps : img.SegmentsMap phoff i last va)
    (here : img.Segment phoff i vaddr memsz) :
    Touches (segmentStart vaddr) (segmentEnd vaddr memsz) va ∨
      img.SegmentsMap phoff (i + 1) last va := by
  obtain ⟨j, fromI, toLast, otherVaddr, otherMemsz, segment, touches⟩ := maps
  by_cases isI : j = i
  · subst isI
    obtain ⟨rfl, rfl⟩ := here.unique segment
    exact .inl touches
  · exact .inr ⟨j, by omega, toLast, otherVaddr, otherMemsz, segment, touches⟩

theorem Checked.skip (later : img.Checked phoff (i + 1) last)
    (notHere : ∀ vaddr memsz, ¬ img.Segment phoff i vaddr memsz) :
    img.Checked phoff i last := by
  intro j fromI toLast vaddr memsz filesz segment
  have notI : j ≠ i := by
    rintro rfl
    exact notHere vaddr memsz segment
  exact later j (by omega) toLast vaddr memsz filesz segment

theorem Checked.cons {filesz : U64} (later : img.Checked phoff (i + 1) last)
    (here : img.Segment phoff i vaddr memsz) (isFilesz : img.pFilesz phoff i = some filesz)
    (fits : filesz.toNat ≤ memsz.toNat) :
    img.Checked phoff i last := by
  intro j fromI toLast otherVaddr otherMemsz otherFilesz segment isOther
  by_cases isI : j = i
  · subst isI
    obtain ⟨rfl, rfl⟩ := here.unique segment
    rw [isFilesz, Option.some.injEq] at isOther
    rwa [← isOther]
  · exact later j (by omega) toLast otherVaddr otherMemsz otherFilesz segment isOther

end Segments

end ElfImage

theorem toNat_segmentStart (vaddr : U64) :
    (segmentStart vaddr).toNat = vaddr.toNat / 4096 * 4096 := by
  rw [segmentStart, show pageSize - 1 = LowBits.mask 64 12 from rfl,
    LowBits.toNat_and_not_mask (by decide)]
  omega

theorem toNat_segmentEnd (noWrap : vaddr.toNat + memsz.toNat + 4095 < 2 ^ 64) :
    (segmentEnd vaddr memsz).toNat = (vaddr.toNat + memsz.toNat + 4095) / 4096 * 4096 := by
  have sum : (vaddr + memsz + pageSize - 1).toNat = vaddr.toNat + memsz.toNat + 4095 := by
    have size : pageSize.toNat = 4096 := rfl
    bv_omega
  rw [segmentEnd, show pageSize - 1 = LowBits.mask 64 12 from rfl,
    LowBits.toNat_and_not_mask (by decide), sum]
  omega

theorem touches_segment (noWrap : vaddr.toNat + memsz.toNat + 4095 < 2 ^ 64) {k : Nat}
    (inside : k < memsz.toNat) :
    Touches (segmentStart vaddr) (segmentEnd vaddr memsz) (vaddr + .ofNat 64 k) := by
  have value : (vaddr + .ofNat 64 k).toNat = vaddr.toNat + k := by
    rw [toNat_add, toNat_ofNat]
    omega
  refine ⟨vaddr + BitVec.ofNat 64 k, ?_, ?_, rfl⟩
  · rw [le_def, value, toNat_segmentStart]
    omega
  · rw [lt_def, value, toNat_segmentEnd noWrap]
    omega

theorem fetch_bind {Value : Type} {pre crash : Machine → Prop} {post : Value → Machine → Prop}
    {value : Option U64} {next : U64 → KernelM Value}
    (stops : ∀ machine, pre machine → crash machine)
    (continues : ∀ got, value = some got → Triple pre (next got) post crash) :
    Triple pre (fetch value >>= next) post crash := by
  cases value with
  | none => exact .throw stops
  | some got => exact continues got rfl

section Loader

variable {site : LoadSite} {phnum : U64} {mapped : U64 → Prop}

/-- What the first loop leaves from segment `i` on. -/
def SegmentsDone (site : LoadSite) (img : ElfImage) (mapped : U64 → Prop) (phoff : U64)
    (i last : Nat) (done : Bool)
    (machine : Machine) : Prop :=
  Loading site
      (fun va => mapped va ∨ (done = true ∧ img.SegmentsMap phoff i last va)) machine ∧
    (done = true → img.Checked phoff i last)

section Outcomes

variable {done : Bool} {machine : Machine}

theorem SegmentsDone.failed (load : Loading site mapped machine) :
    SegmentsDone site img mapped phoff i last false machine :=
  ⟨load.weaken (by simp), nofun⟩

theorem SegmentsDone.skip (later : SegmentsDone site img mapped phoff (i + 1) last done machine)
    (notHere : ∀ vaddr memsz, ¬ img.Segment phoff i vaddr memsz) :
    SegmentsDone site img mapped phoff i last done machine := by
  refine ⟨later.1.weaken ?_, fun isDone => (later.2 isDone).skip notHere⟩
  rintro va (wasMapped | ⟨isDone, maps⟩)
  · exact .inl wasMapped
  · exact .inr ⟨isDone, maps.skip notHere⟩

theorem SegmentsDone.cons {filesz : U64} {all : Bool} (later : SegmentsDone site img
      (fun va => mapped va ∨
        (all = true ∧ Touches (segmentStart vaddr) (segmentEnd vaddr memsz) va))
      phoff (i + 1) last done machine)
    (isAll : all = true) (here : img.Segment phoff i vaddr memsz)
    (isFilesz : img.pFilesz phoff i = some filesz) (fits : filesz.toNat ≤ memsz.toNat) :
    SegmentsDone site img mapped phoff i last done machine := by
  refine ⟨later.1.weaken ?_, fun isDone => (later.2 isDone).cons here isFilesz fits⟩
  rintro va (wasMapped | ⟨isDone, maps⟩)
  · exact .inl (.inl wasMapped)
  · rcases maps.uncons here with touches | maps
    · exact .inl (.inr ⟨isAll, touches⟩)
    · exact .inr ⟨isDone, maps⟩

end Outcomes

theorem Loading.stops (machine : Machine) (load : Loading site mapped machine) :
    Loading site (fun _ => False) machine :=
  load.weaken nofun

/-- The pages of a segment are among those that the load may map. -/
theorem ElfImage.Segment.inTarget (segment : img.Segment phoff i vaddr memsz)
    (ordinary : img.Ordinary) (inTarget : ∀ va, img.Maps va → site.target va) (isPhoff : img.ePhoff = some phoff)
    (isPhnum : img.ePhnum = some phnum) (known : i < phnum.toNat) {va : U64}
    (touches : Touches (segmentStart vaddr) (segmentEnd vaddr memsz) va) :
    site.target va ∧ pml4Index va ≠ 511 := by
  have maps : img.Maps va :=
    ⟨phoff, isPhoff, phnum, isPhnum, i, i.zero_le, known, vaddr, memsz, segment, touches⟩
  exact ⟨inTarget va maps, ordinary.noRecursive va maps⟩

theorem mapSegments_triple (ordinary : img.Ordinary) (inTarget : ∀ va, img.Maps va → site.target va)
    (isPhoff : img.ePhoff = some phoff) (isPhnum : img.ePhnum = some phnum) (remaining i : Nat)
    (bound : i + remaining = phnum.toNat) :
    Triple (Loading site mapped) (mapSegments allocAndMap img phoff remaining i)
      (SegmentsDone site img mapped phoff i phnum.toNat)
      (Loading site fun _ => False) := by
  induction remaining generalizing i mapped with
  | zero =>
    apply Triple.pure
    intro machine load
    refine ⟨load.weaken ?_, ?_⟩
    · rintro va (wasMapped | ⟨_, j, _, _, _⟩)
      · exact wasMapped
      · omega
    · intro _ j _ _
      omega
  | succ remaining ih =>
    have failed : Triple (Loading site mapped) (pure false : KernelM Bool)
        (SegmentsDone site img mapped phoff i phnum.toNat)
        (Loading site fun _ => False) :=
      Triple.pure fun machine load => SegmentsDone.failed load
    rw [mapSegments]
    apply fetch_bind Loading.stops
    intro type isType
    apply Triple.ite
    · intro skipped
      apply (ih (i + 1) (by omega)).weaken fun _ load => load
      intro done machine later
      apply later.skip
      intro vaddr memsz segment
      rw [segment.type, Option.some.injEq] at isType
      exact skipped isType.symm
    · intro isLoad
      rw [not_not.mp isLoad] at isType
      apply fetch_bind Loading.stops
      intro offset _
      apply fetch_bind Loading.stops
      intro filesz isFilesz
      apply Triple.ite (fun _ => failed)
      intro _
      apply fetch_bind Loading.stops
      intro memsz isMemsz
      apply Triple.ite (fun _ => failed)
      intro large
      apply fetch_bind Loading.stops
      intro vaddr isVaddr
      have segment : img.Segment phoff i vaddr memsz := ⟨isType, isVaddr, isMemsz⟩
      have noWrap := ordinary.noWrap phoff isPhoff phnum isPhnum i (by omega) vaddr memsz segment
      apply Triple.bind (mapPages_triple segmentFlags
        (by rw [toNat_segmentEnd noWrap]; omega) pageLoopFuel
        (by rw [toNat_segmentStart]; omega)
        fun va => segment.inTarget ordinary inTarget isPhoff isPhnum (by omega))
      intro allMapped
      apply Triple.ite
      · intro all
        apply (ih (i + 1) (by omega)).weaken fun _ load => load
        intro done machine later
        exact later.cons all segment isFilesz (BitVec.le_def.mp (BitVec.not_lt.mp large))
      · intro _
        apply failed.weaken
        · intro machine load
          exact load.weaken fun va member => Or.inl member
        · exact fun _ _ outcome => outcome

theorem copyFromImage_triple (count : Nat) {va offset : U64}
    (areMapped : ∀ k < count, mapped (va + BitVec.ofNat 64 k)) :
    KeepsPages site mapped (copyFromImage img count va offset) := by
  apply moveAccesses_triple
  · intro place size
    cases img.field place size with
    | none => exact .throw fun _ load => load.weaken nofun
    | some value => exact Triple.skip _
  · rw [total_memcpyWidths]
    exact areMapped

theorem clearRest_triple {fsize msize : U64} (sizes : fsize.toNat ≤ msize.toNat)
    (inPages : ∀ k < msize.toNat, mapped (vaddr + .ofNat 64 k)) :
    KeepsPages site mapped (memsetZero (vaddr + fsize) ((msize - fsize).setWidth 32).toNat) := by
  apply moveAccesses_triple fun _ _ => Triple.skip _
  intro k small
  rw [total_memsetWidths, toNat_setWidth] at small
  have rest : (msize - fsize).toNat = msize.toNat - fsize.toNat :=
    toNat_sub_of_le (BitVec.le_def.mpr sizes)
  have place : vaddr + fsize + .ofNat 64 k = vaddr + .ofNat 64 (fsize.toNat + k) := by
    rw [ofNat_add, ofNat_toNat, setWidth_eq, add_assoc]
  rw [place]
  exact inPages (fsize.toNat + k) (by omega)

theorem fillSegment_triple {fsize msize : U64}
    (areMapped : ∀ vaddr, img.pVaddr phoff i = some vaddr → fsize.toNat ≤ msize.toNat ∧
        ∀ k < msize.toNat, mapped (vaddr + BitVec.ofNat 64 k)) :
    KeepsPages site mapped (fillSegment img phoff i fsize msize) := by
  rw [fillSegment]
  apply fetch_bind Loading.stops
  intro vaddr isVaddr
  obtain ⟨sizes, inPages⟩ := areMapped vaddr isVaddr
  have done : KeepsPages site mapped (pure vaddr : KernelM U64) :=
    Triple.skip _
  have tail : KeepsPages site mapped (if fsize < msize then do
        memsetZero (vaddr + fsize) ((msize - fsize).setWidth 32).toNat
        pure vaddr
      else pure vaddr) :=
    Triple.ite (fun _ => Triple.bind (clearRest_triple sizes inPages) fun _ => done) (fun _ => done)
  apply Triple.ite
  · intro _
    apply fetch_bind Loading.stops
    intro offset _
    refine Triple.bind (copyFromImage_triple _ ?_) fun _ => tail
    intro k small
    apply inPages
    rw [toNat_setWidth] at small
    omega
  · exact fun _ => tail

theorem fillSegments_triple (ordinary : img.Ordinary) (isPhoff : img.ePhoff = some phoff)
    (isPhnum : img.ePhnum = some phnum) (remaining i : Nat) (bound : i + remaining = phnum.toNat)
    (checked : img.Checked phoff i phnum.toNat)
    (areMapped : ∀ va, img.SegmentsMap phoff i phnum.toNat va → mapped va) (lo hi : U64) :
    KeepsPages site mapped (fillSegments img phoff remaining i lo hi) := by
  induction remaining generalizing i lo hi with
  | zero => exact Triple.skip _
  | succ remaining ih =>
    have rest := ih (i + 1) (by omega) (fun j fromI => checked j (by omega)) (by
        rintro va ⟨j, fromI, segment⟩
        exact areMapped va ⟨j, by omega, segment⟩)
    rw [fillSegments]
    apply fetch_bind Loading.stops
    intro fsize isFsize
    apply fetch_bind Loading.stops
    intro msize isMsize
    apply fetch_bind Loading.stops
    intro type isType
    apply Triple.ite
    · exact fun _ => rest lo hi
    · intro isLoad
      rw [not_not.mp isLoad] at isType
      -- All bytes of the segment lie in pages that were mapped.
      have inPages : ∀ vaddr, img.pVaddr phoff i = some vaddr → fsize.toNat ≤ msize.toNat ∧
            ∀ k < msize.toNat, mapped (vaddr + BitVec.ofNat 64 k) := by
        intro vaddr isVaddr
        have segment : img.Segment phoff i vaddr msize := ⟨isType, isVaddr, isMsize⟩
        refine ⟨checked i (by omega) (by omega) vaddr msize fsize segment isFsize, ?_⟩
        have noWrap := ordinary.noWrap phoff isPhoff phnum isPhnum i (by omega) vaddr msize segment
        exact fun k small => areMapped _ ⟨i, by omega, by omega, vaddr, msize,
          segment, touches_segment noWrap small⟩
      apply Triple.bind
      · exact fillSegment_triple fun vaddr isVaddr => inPages vaddr isVaddr
      · exact fun vaddr => rest _ _

theorem elfLoad_triple (ordinary : img.Ordinary) (inTarget : ∀ va, img.Maps va → site.target va) :
    KeepsPages site (fun _ => False) (elfLoad allocAndMap img) := by
  have stops : ∀ machine, Loading site (fun _ => False) machine →
      Loading site (fun _ => False) machine :=
    fun machine load => load
  have rejected : KeepsPages site (fun _ => False) (pure none : KernelM (Option LoadedImage)) :=
    Triple.pure stops
  rw [elfLoad]
  apply Triple.ite (fun _ => rejected)
  intro _
  apply fetch_bind stops
  intro ehsize _
  apply fetch_bind stops
  intro phentsize _
  apply fetch_bind stops
  intro phnum isPhnum
  apply Triple.ite (fun _ => rejected)
  intro _
  apply fetch_bind stops
  intro phoff isPhoff
  apply Triple.ite (fun _ => rejected)
  intro _
  apply Triple.bind (mapSegments_triple ordinary inTarget isPhoff isPhnum phnum.toNat 0 (by omega))
  intro allMapped
  apply Triple.ite
  · intro _
    exact rejected.weaken (fun _ outcome => outcome.1.weaken nofun) fun _ _ load => load
  · intro isMapped
    have all : allMapped = true := by simpa using isMapped
    apply Triple.assume
    intro checked
    apply Triple.bind (fillSegments_triple ordinary isPhoff isPhnum phnum.toNat 0
      (by omega) (checked all) (fun va member => Or.inr ⟨all, member⟩)
      (allOnes 64) 0)
    rintro ⟨lo, hi⟩
    apply Triple.ite
    · intro _
      exact Triple.pure fun _ load => load.weaken nofun
    · intro _
      apply fetch_bind fun _ load => load.weaken nofun
      intro entry _
      exact Triple.pure fun _ load => load.weaken nofun

/-! ## Through the active mapping -/

theorem fetch_bind_agrees {Value : Type} {inv : Machine → Prop} {value : Option U64}
    {next other : U64 → KernelM Value}
    (continues : ∀ got, value = some got → Agrees inv (next got) (other got)) :
    Agrees inv (fetch value >>= next) (fetch value >>= other) := by
  cases value with
  | none => exact Agrees.of_ends (Triple.throw fun _ holds => holds)
  | some got => exact continues got rfl

theorem mapSegments_agrees (ordinary : img.Ordinary)
    (inTarget : ∀ va, img.Maps va → site.target va) (isPhoff : img.ePhoff = some phoff)
    (isPhnum : img.ePhnum = some phnum) (remaining i : Nat) (bound : i + remaining = phnum.toNat) :
    Agrees (Mappable site) (mapSegments Active.pagingAllocAndMap img phoff remaining i)
      (mapSegments allocAndMap img phoff remaining i) := by
  induction remaining generalizing i with
  | zero => exact .of_ends (Triple.skip _)
  | succ remaining ih =>
    have rest := ih (i + 1) (by omega)
    have failed : Agrees (Mappable site) (pure false : KernelM Bool) (pure false) :=
      .of_ends (Triple.skip _)
    rw [mapSegments, mapSegments]
    apply fetch_bind_agrees
    intro type isType
    refine .ite (fun _ => rest) fun isLoad => ?_
    rw [not_not.mp isLoad] at isType
    apply fetch_bind_agrees
    intro offset _
    apply fetch_bind_agrees
    intro filesz _
    refine .ite (fun _ => failed) fun _ => ?_
    apply fetch_bind_agrees
    intro memsz isMemsz
    refine .ite (fun _ => failed) fun _ => ?_
    apply fetch_bind_agrees
    intro vaddr isVaddr
    have segment : img.Segment phoff i vaddr memsz := ⟨isType, isVaddr, isMemsz⟩
    have noWrap := ordinary.noWrap phoff isPhoff phnum isPhnum i (by omega) vaddr memsz segment
    have pages := mapPages_agrees segmentFlags
      (by rw [toNat_segmentEnd noWrap]; omega) pageLoopFuel
      fun va => segment.inTarget ordinary inTarget isPhoff isPhnum (by omega)
    exact pages.bind fun allMapped => .ite (fun _ => rest) fun _ => failed

theorem elfLoad_active (ordinary : img.Ordinary) (inTarget : ∀ va, img.Maps va → site.target va)
    {machine : Machine} (mappable : Mappable site machine) :
    elfLoad Active.pagingAllocAndMap img machine = elfLoad allocAndMap img machine := by
  have loads : ∀ {Value : Type} {value : Option U64} {next other : U64 → KernelM Value},
      (∀ got, value = some got → next got machine = other got machine) →
      (fetch value >>= next) machine = (fetch value >>= other) machine := by
    intro Value value next other continues
    cases value with
    | none => rfl
    | some got => exact continues got rfl
  rw [elfLoad, elfLoad]
  split
  · rfl
  · apply loads
    intro ehsize _
    apply loads
    intro phentsize _
    apply loads
    intro phnum isPhnum
    split
    · rfl
    · apply loads
      intro phoff isPhoff
      split
      · rfl
      · exact bind_congr_run (mapSegments_agrees ordinary inTarget isPhoff isPhnum phnum.toNat 0
          (by omega) machine mappable).1

end Loader

end XKern
