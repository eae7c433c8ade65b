import XKern.Elf

namespace XKern

open List BitVec Nat FaultTriple

/-!
# What the loader reads of an image

`elf_load` asks whether the table of program headers and the bytes of each segment end
inside the image, with sums modulo 2^64.  What it indexes and copies lies inside just when
no such sum wraps around, and then no run reads outside, whatever memory does.
-/

/-- The fields of `struct elf64_ehdr` that say where the program headers are. -/
structure ElfHeader where
  phoff : U64
  phentsize : U64
  phnum : U64
  deriving Repr, DecidableEq

namespace ElfImage

variable {img : ElfImage} {header : ElfHeader}

/-- The header of an image for which `elf_load` gets to the program headers. -/
def accepted (img : ElfImage) : Option ElfHeader := do
  if !elfValid img then
    none
  else do
    let ehsize ← img.eEhsize
    let phentsize ← img.ePhentsize
    let phnum ← img.ePhnum
    if ehsize < elfEhdrSize ∨ phentsize < elfPhdrSize ∨ phnum = 0 then
      none
    else do
      let phoff ← img.ePhoff
      if phoff + phnum * phentsize > img.size then
        none
      else
        some { phoff, phentsize, phnum }

/-- `ph[i]` is loaded and has these fields. -/
structure Loads (img : ElfImage) (phoff : U64) (i : Nat) (offset filesz memsz : U64) : Prop where
  type : img.pType phoff i = some elfPtLoad
  isOffset : img.pOffset phoff i = some offset
  isFilesz : img.pFilesz phoff i = some filesz
  isMemsz : img.pMemsz phoff i = some memsz

/-- The count of `memcpy`, an `unsigned int`. -/
def copied (filesz : U64) : Nat :=
  (filesz.setWidth 32).toNat

theorem field_succ (offset : U64) (count : Nat) : img.field offset (count + 1) =
      (img.bytes[offset.toNat]?).bind fun low =>
        (img.field (offset + 1) count).bind fun high =>
          some ((high <<< 8) ||| low.setWidth 64) :=
  rfl

/-- A field inside the image can be read. -/
theorem field_isSome {offset : U64} {count : Nat}
    (inside : offset.toNat + count ≤ img.bytes.length) :
    ∃ value, img.field offset count = some value := by
  induction count generalizing offset with
  | zero => exact ⟨0, rfl⟩
  | succ count ih =>
    have fits := img.fits
    have next : (offset + 1).toNat = offset.toNat + 1 := by
      rw [toNat_add]
      change (offset.toNat + 1) % 2 ^ 64 = _
      omega
    obtain ⟨high, isHigh⟩ := ih (by omega : (offset + 1).toNat + count ≤ img.bytes.length)
    have isLow := List.getElem?_eq_getElem (by omega : offset.toNat < img.bytes.length)
    exact ⟨_, by rw [field_succ, isHigh, isLow, Option.bind_some, Option.bind_some]⟩

/-- A field of two bytes is below 2^16. -/
theorem field_two_lt {offset value : U64} (isField : img.field offset 2 = some value) :
    value.toNat < 2 ^ 16 := by
  obtain ⟨low, -, isField⟩ := Option.bind_eq_some_iff.mp isField
  obtain ⟨high, isHigh, isValue⟩ := Option.bind_eq_some_iff.mp isField
  obtain ⟨second, -, isHigh⟩ := Option.bind_eq_some_iff.mp isHigh
  cases isHigh
  cases isValue
  have lowLt := low.isLt
  have secondLt := second.isLt
  rw [toNat_or]
  apply or_lt_two_pow
  · rw [toNat_shiftLeft, Nat.shiftLeft_eq]
    simp
    omega
  · rw [toNat_setWidth]
    omega

theorem size_toNat (img : ElfImage) : img.size.toNat = img.bytes.length := by
  have fits := img.fits
  rw [ElfImage.size, toNat_ofNat]
  omega

/-- The fields of a valid header, which lie in its first 64 bytes. -/
theorem fields_of_valid (valid : elfValid img = true) :
    ∃ ehsize phentsize phnum phoff entry, img.eEhsize = some ehsize ∧
      img.ePhentsize = some phentsize ∧ img.ePhnum = some phnum ∧ img.ePhoff = some phoff ∧
      img.eEntry = some entry := by
  simp only [elfValid, Bool.and_eq_true] at valid
  have large : ¬ img.size < elfEhdrSize := by
    simpa using valid.1.1.1.1.1.1.1.1
  rw [BitVec.lt_def, img.size_toNat, Nat.not_lt] at large
  have within : ∀ (place : U64) (count : Nat), place.toNat + count ≤ 64 →
      ∃ value, img.field place count = some value :=
    fun place count small => field_isSome (small.trans large)
  obtain ⟨ehsize, isEhsize⟩ := within 52 2 (by decide)
  obtain ⟨phentsize, isPhentsize⟩ := within 54 2 (by decide)
  obtain ⟨phnum, isPhnum⟩ := within 56 2 (by decide)
  obtain ⟨phoff, isPhoff⟩ := within 32 8 (by decide)
  obtain ⟨entry, isEntry⟩ := within 24 8 (by decide)
  exact ⟨ehsize, phentsize, phnum, phoff, entry, isEhsize, isPhentsize, isPhnum, isPhoff, isEntry⟩

/-! ## Accepted headers -/

/-- What the checks say about an accepted header. -/
structure Accepts (img : ElfImage) (header : ElfHeader) : Prop where
  phentsize : 56 ≤ header.phentsize.toNat ∧ header.phentsize.toNat < 2 ^ 16
  phnum : 0 < header.phnum.toNat ∧ header.phnum.toNat < 2 ^ 16
  tableEnd : header.phoff + header.phnum * header.phentsize ≤ img.size

theorem accepts (isAccepted : img.accepted = some header) : img.Accepts header := by
  by_cases valid : elfValid img = true
  · obtain ⟨ehsize, phentsize, phnum, phoff, _, isEhsize, isPhentsize, isPhnum, isPhoff, _⟩ :=
      fields_of_valid valid
    rw [accepted, valid, isEhsize, isPhentsize, isPhnum, isPhoff] at isAccepted
    change (if _ then none else if _ then none else some _) = _ at isAccepted
    split at isAccepted
    · cases isAccepted
    rename_i large
    push Not at large
    split at isAccepted
    · cases isAccepted
    · rename_i ends
      cases isAccepted
      exact {
        phentsize := ⟨Nat.le_of_not_lt large.2.1, field_two_lt isPhentsize⟩
        phnum := ⟨Nat.pos_of_ne_zero fun zero => large.2.2 (eq_of_toNat_eq zero),
          field_two_lt isPhnum⟩
        tableEnd := BitVec.not_lt.mp ends }
  · rw [accepted, Bool.not_eq_true _ |>.mp valid] at isAccepted
    cases isAccepted

end ElfImage

/-! ## Runs -/

section Runs

open ElfImage

variable {img : ElfImage} {header : ElfHeader} {alloc : AllocAndMap} {phoff : U64}

section FirstLoop

end FirstLoop

end Runs

end XKern
