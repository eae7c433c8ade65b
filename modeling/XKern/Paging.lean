import XKern.Machine
import XKern.RadixStore

namespace XKern

/-!
# Four-level page tables

Model of the table edits of `osfmk/vm/paging.c` and of the hardware walk that
gives them their meaning.  `pt_ptr` is a plain physical pointer, since every
table lies in the identity-mapped low 4 GiB.  An early `return` after a failed
`pmm_alloc` is an `Except.error` that carries the machine at that point.
-/

/-- `PAGE_PRESENT`. -/
def pagePresent : U64 := 0x01

/-- `PAGE_WRITE`. -/
def pageWrite : U64 := 0x02

/-- `PAGE_USER`. -/
def pageUser : U64 := 0x04

/-- `PAGE_PWT`. -/
def pagePwt : U64 := 0x08

/-- `PAGE_PCD`. -/
def pagePcd : U64 := 0x10

/-- `PAGE_PS`: the entry is a large leaf. -/
def pagePs : U64 := 0x80

/-- `PAGE_NOEXEC`. -/
def pageNoexec : U64 := 0x8000000000000000

/-- `PT_FLAG_MASK`. -/
def ptFlagMask : U64 := 0xFFF

/-- `PML4_INDEX` and its siblings: the nine bits from `shift` on. -/
def tableIndex (shift : Nat) (va : U64) : Fin 512 :=
  ⟨((va >>> shift) &&& 0x1FF).toNat, by
    rw [show (0x1FF : U64) = LowBits.mask 64 9 from rfl, LowBits.toNat_and_mask (by decide)]
    exact Nat.mod_lt _ (by decide)⟩

/-- `PML4_INDEX`. -/
def pml4Index : U64 → Fin 512 := tableIndex 39

/-- `PDPT_INDEX`. -/
def pdptIndex : U64 → Fin 512 := tableIndex 30

/-- `PD_INDEX`. -/
def pdIndex : U64 → Fin 512 := tableIndex 21

/-- `PT_INDEX`. -/
def ptIndex : U64 → Fin 512 := tableIndex 12

/-- `e & PAGE_PRESENT`. -/
def Present (entry : U64) : Prop :=
  entry &&& pagePresent ≠ 0

/-- `e & PAGE_PS`. -/
def IsLarge (entry : U64) : Prop :=
  entry &&& pagePs ≠ 0

instance (entry : U64) : Decidable (Present entry) :=
  inferInstanceAs (Decidable (entry &&& pagePresent ≠ 0))

instance (entry : U64) : Decidable (IsLarge entry) :=
  inferInstanceAs (Decidable (entry &&& pagePs ≠ 0))

/-! ## The kernel's edits -/

/-- `pt_ptr`. -/
def ptPtr (tablePhys : U64) : U64 :=
  tablePhys &&& ~~~ptFlagMask

/-- `paging_load_cr3`, and every other load of CR3. -/
def pagingLoadCr3 (phys : U64) (machine : Machine) : Machine :=
  { machine with cr3 := phys }

/-- `zero_page_table`. -/
def zeroPageTable (memory : Memory) (phys : U64) : Memory :=
  memory.fill (ptPtr phys) fun _ => 0

/-- An allocation branch of `paging_map_page`: a zeroed table for the slot. -/
def newTable (table : U64) (index : Fin 512) (machine : Machine) :
    Except Machine Machine :=
  match pmmAlloc machine.pmm with
  | (t, pmm) =>
      if t = 0 then
        .error { machine with pmm }
      else
        .ok { machine with
          pmm
          memory := (zeroPageTable machine.memory t).write table index
            (t ||| pagePresent ||| pageWrite) }

/-- `leaf_flags`. -/
def leafFlags (leaf : U64) : U64 :=
  leaf &&& (pagePresent ||| pageWrite ||| pageUser ||| pagePwt ||| pagePcd)

/-- `flags & (PAGE_PWT | PAGE_PCD)`. -/
def mmioFlags (flags : U32) : U64 :=
  flags.setWidth 64 &&& (pagePwt ||| pagePcd)

/-- `nt[i]` of a split 2 MiB leaf. -/
def splitEntry (leaf : U64) (flags : U32) (i : Fin 512) : U64 :=
  let twoMbBase := leaf &&& ~~~(((1 : U64) <<< 21) - 1)
  let e := (twoMbBase + (BitVec.ofNat 64 i.val <<< 12)) ||| leafFlags leaf
  if mmioFlags flags ≠ 0 then
    (e &&& ~~~(pagePwt ||| pagePcd)) ||| mmioFlags flags
  else
    e

/-- The split branch of `paging_map_page`. -/
def splitLeaf (table : U64) (index : Fin 512) (flags : U32) (machine : Machine) :
    Except Machine Machine :=
  let leaf := machine.memory table index
  match pmmAlloc machine.pmm with
  | (t, pmm) =>
      if t = 0 then
        .error { machine with pmm }
      else
        .ok { machine with
          pmm
          memory :=
            ((zeroPageTable machine.memory t).fill (ptPtr t)
              (splitEntry leaf flags)).write table index
                (t ||| pagePresent ||| pageWrite |||
                  (leafFlags leaf &&& ~~~pagePresent)) }

/-- A level of the walk: a missing table is made. -/
def ensureTable (table : U64) (index : Fin 512) (machine : Machine) :
    Except Machine Machine :=
  if Present (machine.memory table index) then
    .ok machine
  else
    newTable table index machine

/-- The third level: a missing table is allocated and a 2 MiB leaf is split. -/
def ensurePageTable (table : U64) (index : Fin 512) (flags : U32) (machine : Machine) :
    Except Machine Machine :=
  if ¬ Present (machine.memory table index) then
    newTable table index machine
  else if IsLarge (machine.memory table index) then
    splitLeaf table index flags machine
  else
    .ok machine

/-- The leaf entry that `paging_map_page` writes. -/
def leafEntry (physicalAddr : U64) (flags : U32) : U64 :=
  (physicalAddr &&& ~~~ptFlagMask) |||
    ((flags &&& 0xFFF).setWidth 64 &&& ~~~pagePs) ||| pagePresent

/-- The body of `paging_map_page`. -/
def mapPage (virtualAddr physicalAddr : U64) (flags : U32) (machine : Machine) :
    Except Machine Machine := do
  let a := pml4Index virtualAddr
  let b := pdptIndex virtualAddr
  let c := pdIndex virtualAddr
  let d := ptIndex virtualAddr
  let pml4 := ptPtr machine.cr3
  let machine ← ensureTable pml4 a machine
  let pdpt := ptPtr (machine.memory pml4 a)
  let machine ← ensureTable pdpt b machine
  let pd := ptPtr (machine.memory pdpt b)
  let machine ← ensurePageTable pd c flags machine
  let pt := ptPtr (machine.memory pd c)
  return { machine with
    memory := machine.memory.write pt d (leafEntry physicalAddr flags) }

/-- `paging_map_page`: the machine at whichever `return` is taken. -/
def pagingMapPage (virtualAddr physicalAddr : U64) (flags : U32)
    (machine : Machine) : Machine :=
  match mapPage virtualAddr physicalAddr flags machine with
  | .ok machine => machine
  | .error machine => machine

/-- The arguments of a `paging_map_page` call. -/
structure MapCall where
  virtualAddr : U64
  physicalAddr : U64
  flags : U32
  deriving Repr, DecidableEq

/-- A sequence of `paging_map_page` calls. -/
def pagingMapPages (calls : List MapCall) (machine : Machine) : Machine :=
  calls.foldl
    (fun machine call =>
      pagingMapPage call.virtualAddr call.physicalAddr call.flags machine)
    machine

/--
`paging_map_region`; `none` is a call that never returns.  The diagnostics
before the loop only read the tables.
-/
def pagingMapRegion (virtualAddr physicalAddr size : U64) (flags : U32)
    (machine : Machine) : Option Machine :=
  (WordLoop.forWords pageSize (virtualAddr + size)
    (fun v (p, machine) => (p + pageSize, pagingMapPage v p flags machine))
    pageLoopFuel virtualAddr (physicalAddr, machine)).map Prod.snd

/-! ## The hardware walk -/

/-- The bits of an entry that give a frame. -/
def frameBits : U64 := 0x000FFFFFFFFFF000

/-- An address that the processor accepts. -/
def Canonical (va : U64) : Prop :=
  va.toNat < 2 ^ 47 ∨ 2 ^ 64 - 2 ^ 47 ≤ va.toNat

instance (va : U64) : Decidable (Canonical va) :=
  inferInstanceAs (Decidable (_ ∨ _))

/-- The table that the processor continues with after reading an entry. -/
def hardwareLink : RadixStore.Link U64 (Fin 512) U64 :=
  fun depth _ entry =>
    if Present entry ∧ (depth = 0 ∨ depth < 3 ∧ ¬ IsLarge entry) then
      some (entry &&& frameBits)
    else
      none

/-- The indices that select the four entries of an address. -/
def vaPath (va : U64) : List (Fin 512) :=
  [pml4Index va, pdptIndex va, pdIndex va, ptIndex va]

/-- What an address is translated to. -/
structure Translation where
  /-- The physical address. -/
  phys : U64
  /-- The leaf entry. -/
  leaf : U64
  /-- `PAGE_WRITE` and `PAGE_USER` as granted by all levels together. -/
  rights : U64
  /-- The size of the page is two to this power. -/
  pageBits : Nat
  deriving Repr, DecidableEq

/-- The translation by a leaf for pages of the given size. -/
def leafTranslation (va : U64) (pageBits : Nat) (words : List U64) (leaf : U64) :
    Translation where
  phys := (leaf &&& frameBits &&& ~~~LowBits.mask 64 pageBits) |||
    (va &&& LowBits.mask 64 pageBits)
  leaf := leaf
  rights := words.foldl (· &&& ·) (pageWrite ||| pageUser)
  pageBits := pageBits

/--
The entries read for an address decide its translation: the last one is a leaf
of 1 GiB, 2 MiB or 4 KiB if it is present.
-/
def translate (va : U64) (words : List U64) : Option Translation :=
  match words with
  | [_, leaf] =>
      if Present leaf then some (leafTranslation va 30 words leaf) else none
  | [_, _, leaf] =>
      if Present leaf then some (leafTranslation va 21 words leaf) else none
  | [_, _, _, leaf] =>
      if Present leaf then some (leafTranslation va 12 words leaf) else none
  | _ => none

/-- The translation by the processor. -/
def walk (memory : Memory) (cr3 va : U64) : Option Translation :=
  if Canonical va then
    translate va
      (RadixStore.trail hardwareLink memory 0 (cr3 &&& frameBits) (vaPath va))
  else
    none

end XKern
