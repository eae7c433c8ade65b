import XKern.UserMemory

namespace XKern

/-!
# The ELF loader

Model of `bsd/kern/elf/elf.c`.  Header fields are read from the bytes of the
image as they are used; program headers are indexed with the size of `struct
elf64_phdr`, whatever `e_phentsize` says.
-/

/-- `img` and `size`: the address of the image and its bytes. -/
structure ElfImage where
  base : U64
  bytes : List U8
  fits : bytes.length < 2 ^ 32

namespace ElfImage

/-- `size`, widened. -/
def size (img : ElfImage) : U64 :=
  .ofNat 64 img.bytes.length

/-- A little-endian field of `count` bytes; `none` lies outside the image. -/
def field (img : ElfImage) (offset : U64) : Nat → Option U64
  | 0 => some 0
  | count + 1 => do
      let low ← img.bytes[offset.toNat]?
      let high ← img.field (offset + 1) count
      return (high <<< 8) ||| low.setWidth 64

end ElfImage

/-- `ELF_PT_LOAD`. -/
def elfPtLoad : U64 := 1

/-- `ELF_ET_EXEC`. -/
def elfEtExec : U64 := 2

/-- `ELF_EM_X86_64`. -/
def elfEmX8664 : U64 := 62

/-- `sizeof(struct elf64_ehdr)`. -/
def elfEhdrSize : U64 := 64

/-- `sizeof(struct elf64_phdr)`. -/
def elfPhdrSize : U64 := 56

namespace ElfImage

/-- `e_entry`, `e_phoff`, `e_ehsize`, `e_phentsize` and `e_phnum`. -/
def eEntry (img : ElfImage) : Option U64 := img.field 24 8

@[inherit_doc eEntry]
def ePhoff (img : ElfImage) : Option U64 := img.field 32 8

@[inherit_doc eEntry]
def eEhsize (img : ElfImage) : Option U64 := img.field 52 2

@[inherit_doc eEntry]
def ePhentsize (img : ElfImage) : Option U64 := img.field 54 2

@[inherit_doc eEntry]
def ePhnum (img : ElfImage) : Option U64 := img.field 56 2

/-- The offset of `ph[i]` in the image. -/
def phdr (phoff : U64) (i : Nat) : U64 :=
  phoff + .ofNat 64 i * elfPhdrSize

/-- The fields of `ph[i]` that the loader reads. -/
def pType (img : ElfImage) (phoff : U64) (i : Nat) : Option U64 :=
  img.field (phdr phoff i) 4

@[inherit_doc pType]
def pOffset (img : ElfImage) (phoff : U64) (i : Nat) : Option U64 :=
  img.field (phdr phoff i + 8) 8

@[inherit_doc pType]
def pVaddr (img : ElfImage) (phoff : U64) (i : Nat) : Option U64 :=
  img.field (phdr phoff i + 16) 8

@[inherit_doc pType]
def pFilesz (img : ElfImage) (phoff : U64) (i : Nat) : Option U64 :=
  img.field (phdr phoff i + 32) 8

@[inherit_doc pType]
def pMemsz (img : ElfImage) (phoff : U64) (i : Nat) : Option U64 :=
  img.field (phdr phoff i + 40) 8

end ElfImage

/-- `elf_valid`; the image pointer is not null. -/
def elfValid (img : ElfImage) : Bool :=
  !(img.size < elfEhdrSize) &&
    img.field 0 1 = some 0x7F && img.field 1 1 = some 0x45 &&
    img.field 2 1 = some 0x4C && img.field 3 1 = some 0x46 &&
    img.field 4 1 = some 2 && img.field 5 1 = some 1 &&
    img.field 16 2 = some elfEtExec && img.field 18 2 = some elfEmX8664

/-- A load from the image. -/
def fetch (value : Option U64) : KernelM U64 :=
  match value with
  | some value => return value
  | none => throw .outsideImage

/-- `vaddr & ~(PAGE_SIZE - 1)`. -/
def segmentStart (vaddr : U64) : U64 :=
  vaddr &&& ~~~(pageSize - 1)

/-- `(vaddr + memsz + PAGE_SIZE - 1) & ~(PAGE_SIZE - 1)`. -/
def segmentEnd (vaddr memsz : U64) : U64 :=
  (vaddr + memsz + pageSize - 1) &&& ~~~(pageSize - 1)

/-- `PAGE_WRITE | PAGE_USER`. -/
def segmentFlags : U32 := 0x06

/-- The first loop of `elf_load`, from header `i` on: whether it runs through. -/
def mapSegments (alloc : AllocAndMap) (img : ElfImage) (phoff : U64) : Nat → Nat → KernelM Bool
  | 0, _ => return true
  | remaining + 1, i => do
      let type ← fetch (img.pType phoff i)
      if type ≠ elfPtLoad then
        mapSegments alloc img phoff remaining (i + 1)
      else do
        let offset ← fetch (img.pOffset phoff i)
        let filesz ← fetch (img.pFilesz phoff i)
        if offset + filesz > img.size then
          return false
        else do
          let memsz ← fetch (img.pMemsz phoff i)
          if memsz < filesz then
            return false
          else do
            let vaddr ← fetch (img.pVaddr phoff i)
            let allMapped ← mapPages alloc segmentFlags (segmentEnd vaddr memsz)
              pageLoopFuel (segmentStart vaddr)
            if allMapped then
              mapSegments alloc img phoff remaining (i + 1)
            else
              return false

/-- `memcpy(va, img + offset, count)`. -/
def copyFromImage (img : ElfImage) (count : Nat) (va offset : U64) : KernelM Unit :=
  moveAccesses (fun place size => fetch (img.field place size))
    (memcpyWidths va (img.base + offset) count) va offset

/--
One round of the second loop of `elf_load`, for a segment to be loaded.  The
counts of `memcpy` and `memset` are `unsigned int`s.
-/
def fillSegment (img : ElfImage) (phoff : U64) (i : Nat)
    (fsize msize : U64) : KernelM U64 := do
  let vaddr ← fetch (img.pVaddr phoff i)
  if fsize ≠ 0 then do
    let offset ← fetch (img.pOffset phoff i)
    copyFromImage img (fsize.setWidth 32).toNat vaddr offset
  if fsize < msize then
    memsetZero (vaddr + fsize) ((msize - fsize).setWidth 32).toNat
  return vaddr

/-- The second loop of `elf_load`, from header `i` on, with `lo` and `hi`. -/
def fillSegments (img : ElfImage) (phoff : U64) :
    Nat → Nat → U64 → U64 → KernelM (U64 × U64)
  | 0, _, lo, hi => return (lo, hi)
  | remaining + 1, i, lo, hi => do
      let fsize ← fetch (img.pFilesz phoff i)
      let msize ← fetch (img.pMemsz phoff i)
      let type ← fetch (img.pType phoff i)
      if type ≠ elfPtLoad then
        fillSegments img phoff remaining (i + 1) lo hi
      else do
        let vaddr ← fillSegment img phoff i fsize msize
        fillSegments img phoff remaining (i + 1)
          (if vaddr < lo then vaddr else lo)
          (if vaddr + msize > hi then vaddr + msize else hi)

/-- `*entry_out`, `*lo_out` and `*hi_out`. -/
structure LoadedImage where
  entry : U64
  lo : U64
  hi : U64
  deriving Repr, DecidableEq

/-- `elf_load`; `none` is the result -1. -/
def elfLoad (alloc : AllocAndMap) (img : ElfImage) : KernelM (Option LoadedImage) := do
  if !elfValid img then
    return none
  else do
    let ehsize ← fetch img.eEhsize
    let phentsize ← fetch img.ePhentsize
    let phnum ← fetch img.ePhnum
    if ehsize < elfEhdrSize ∨ phentsize < elfPhdrSize ∨ phnum = 0 then
      return none
    else do
      let phoff ← fetch img.ePhoff
      if phoff + phnum * phentsize > img.size then
        return none
      else do
        let allMapped ← mapSegments alloc img phoff phnum.toNat 0
        if !allMapped then
          return none
        else do
          let (lo, hi) ←
            fillSegments img phoff phnum.toNat 0 (BitVec.allOnes 64) 0
          if lo = BitVec.allOnes 64 then
            return none
          else do
            let entry ← fetch img.eEntry
            return some { entry, lo, hi }

/-- `elf_load_pd`. -/
def elfLoadPd (alloc : AllocAndMap) (pdPhys : U64) (img : ElfImage) :
    KernelM (Option LoadedImage) :=
  if pdPhys = 0 then
    return none
  else
    withCr3 pdPhys (elfLoad alloc img)

end XKern
