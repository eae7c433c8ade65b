import XKern.Heap
import XKern.GuardedRun
import XKern.LowBits

namespace XKern.Usb

open GuardedRun List BitVec Nat

/-!
# The DMA pool of the USB drivers

Model of the pool in `iokit/IOUSBFamily/core/usb.c`.  `supply` is the sequence of results
of the calls of `pmm_alloc` to come, with zero for a failed one.  The pages that
`paging_map_page` maps and the ranges that `memset` clears are recorded.  The cache line
size that `usb_dma_detect_cpu` finds is left out, as the allocator does not read it.
-/

/-- `struct usb_dma_page`. -/
structure DmaPage where
  phys : U64
  used : U32
  deriving Repr, DecidableEq

/-- The variables of the pool; `pages` is the part of `g_dma_pages` in use. -/
structure DmaPool where
  pages : List DmaPage
  cur : Nat
  vaBase : U64
  vaEnd : U64
  total : U32
  supply : List U64
  mapped : List U64
  cleared : List (U64 × U64)
  deriving Repr, DecidableEq

def DmaPool.initial (supply : List U64) : DmaPool :=
  ⟨[], 0, 0, 0, 0, supply, [], []⟩

/-- `USB_DMA_PAGE_SIZE`. -/
def usbDmaPageSize : U32 := 4096

/-- `USB_DMA_MAX_PAGES`. -/
def usbDmaMaxPages : Nat := 2048

/-- `USB_DMA_MIN_ALIGN`. -/
def usbDmaMinAlign : U32 := 256

/-- `ALIGN` of two 32-bit words. -/
def align (x a : U32) : U32 :=
  (x + a - 1) &&& ~~~(a - 1)

/-- `ALIGN` of a 64-bit word, where the complement is that of a 32-bit word. -/
def alignSize (x : U64) (a : U32) : U64 :=
  (x + a.setWidth 64 - 1) &&& (~~~(a - 1)).setWidth 64

/-- `ALIGN` with the signed constant `USB_DMA_MIN_ALIGN`. -/
def alignSizeMin (x : U64) : U64 :=
  (x + 256 - 1) &&& ~~~(256 - 1)

def addPage (pool : DmaPool) (phys : U64) (supply : List U64) : DmaPool :=
  { pool with
    pages := pool.pages ++ [⟨phys, 0⟩]
    cur := pool.pages.length
    vaBase := if pool.vaBase = 0 ∨ phys < pool.vaBase then phys else pool.vaBase
    vaEnd := if pool.vaEnd < phys + 4096 then phys + 4096 else pool.vaEnd
    supply
    mapped := pool.mapped ++ [phys] }

/-- `usb_dma_grow_page`; `true` for the result 0. -/
def usbDmaGrowPage (pool : DmaPool) : Bool × DmaPool :=
  if usbDmaMaxPages ≤ pool.pages.length then
    (false, pool)
  else
    match pool.supply with
    | [] => (false, pool)
    | phys :: supply =>
        if phys = 0 then (false, { pool with supply }) else (true, addPage pool phys supply)

/-- `usb_dma_pool_init`. -/
def usbDmaPoolInit (pool : DmaPool) : DmaPool :=
  if pool.pages.length = 0 then (usbDmaGrowPage pool).2 else pool

/-- `usb_dma_reset`. -/
def usbDmaReset (pool : DmaPool) : DmaPool :=
  { pool with
    pages := pool.pages.map fun page => { page with used := 0 }
    cur := 0
    total := 0 }

/-- Take a block from the current page. -/
def takeBlock (pool : DmaPool) (page : DmaPage) (start size : U32) : U64 × DmaPool :=
  (page.phys + start.setWidth 64,
    { pool with
      pages := pool.pages.set pool.cur { page with used := start + size }
      total := pool.total + size })

/-- The loop of `usb_dma_carve`; `none` is a page out of the array, or a loop that goes
on. -/
def carveLoop (size a : U32) : Nat → DmaPool → Option (U64 × DmaPool)
  | 0, _ => none
  | fuel + 1, pool => do
      let page ← pool.pages[pool.cur]?
      let start := align page.used a
      if start + size ≤ usbDmaPageSize then
        return takeBlock pool page start size
      else if pool.cur + 1 < pool.pages.length then
        carveLoop size a fuel { pool with cur := pool.cur + 1 }
      else
        match usbDmaGrowPage pool with
        | (false, pool) => return (0, pool)
        | (true, pool) => carveLoop size a fuel pool

/-- `usb_dma_carve`.  Each round of the loop looks at a later page. -/
def usbDmaCarve (pool : DmaPool) (size a : U32) : Option (U64 × DmaPool) :=
  let a := if a < 16 then 16 else a
  if pool.pages.length = 0 then
    match usbDmaGrowPage pool with
    | (false, pool) => return (0, pool)
    | (true, pool) => carveLoop size a usbDmaMaxPages pool
  else
    carveLoop size a usbDmaMaxPages pool

/-- Clear the block that was returned. -/
def clearBlock (size : U64) : U64 × DmaPool → U64 × DmaPool
  | (va, pool) =>
      if va = 0 then (0, pool) else (va, { pool with cleared := pool.cleared ++ [(va, size)] })

/-- `usb_dma_alloc`. -/
def usbDmaAlloc (pool : DmaPool) (size : U64) : Option (U64 × DmaPool) :=
  (usbDmaCarve pool ((alignSizeMin size).setWidth 32) usbDmaMinAlign).map (clearBlock size)

/-- `usb_dma_alloc_aligned`. -/
def usbDmaAllocAligned (pool : DmaPool) (size : U64) (a : U32) : Option (U64 × DmaPool) :=
  let a := if a < usbDmaMinAlign then usbDmaMinAlign else a
  (usbDmaCarve pool ((alignSize size a).setWidth 32) a).map (clearBlock size)

/-! ## What a pool holds -/

namespace DmaPool

def owned (pool : DmaPool) : List U64 :=
  pool.pages.map DmaPage.phys

/-- The byte has been handed out since the last reset, or skipped for an alignment. -/
def Taken (pool : DmaPool) (byte : Nat) : Prop :=
  ∃ (i : Nat) (page : DmaPage), pool.pages[i]? = some page ∧
    page.phys.toNat ≤ byte ∧ byte < page.phys.toNat + page.used.toNat

/-- What holds between any two calls. -/
structure Valid (pool : DmaPool) : Prop where
  distinct : (pool.owned ++ suppliedFrames pool.supply).Nodup
  aligned : ∀ frame ∈ pool.owned ++ suppliedFrames pool.supply, frame.toNat % 4096 = 0
  used : ∀ page ∈ pool.pages, page.used.toNat ≤ 4096
  count : pool.pages.length ≤ usbDmaMaxPages
  cur : 0 < pool.pages.length → pool.cur < pool.pages.length

end DmaPool

/-! ## Rounding -/

variable {exponent : Nat} {pool : DmaPool}

section Rounding

def power (exponent : Nat) : U32 :=
  .ofNat 32 (2 ^ exponent)

theorem two_pow_le_page (small : exponent ≤ 12) : 2 ^ exponent ≤ 4096 ∧ 2 ^ exponent ∣ 4096 := by
  have divides : 2 ^ exponent ∣ 2 ^ 12 := pow_dvd_pow 2 small
  exact ⟨le_of_dvd (by decide) divides, divides⟩

theorem toNat_power (small : exponent ≤ 12) : (power exponent).toNat = 2 ^ exponent := by
  have bound := (two_pow_le_page small).1
  rw [power, toNat_ofNat, mod_eq_of_lt (by omega)]

theorem power_sub_one (small : exponent ≤ 12) : power exponent - 1 = LowBits.mask 32 exponent := by
  have value := toNat_power small
  have positive : 0 < 2 ^ exponent := Nat.two_pow_pos exponent
  apply eq_of_toNat_eq
  rw [LowBits.toNat_mask (by omega), ← value]
  bv_omega

/-- Rounding goes up to a multiple of the alignment, and not beyond a number of pages. -/
theorem toNat_align (small : exponent ≤ 12) {x : U32} {limit : Nat} (pages : 4096 ∣ limit)
    (low : limit ≤ 2 ^ 30) (inPages : x.toNat ≤ limit) :
    2 ^ exponent ∣ (align x (power exponent)).toNat ∧ x.toNat ≤ (align x (power exponent)).toNat ∧
      (align x (power exponent)).toNat ≤ limit := by
  have value := toNat_power small
  have positive : 0 < 2 ^ exponent := Nat.two_pow_pos exponent
  have bound := (two_pow_le_page small).1
  have sum : (x + power exponent - 1).toNat = x.toNat + 2 ^ exponent - 1 := by
    rw [← value]
    bv_omega
  have floor : (align x (power exponent)).toNat =
      (x.toNat + 2 ^ exponent - 1) / 2 ^ exponent * 2 ^ exponent := by
    rw [align, power_sub_one small, LowBits.toNat_and_not_mask (by omega), sum,
      div_mul_self_eq_mod_sub_self]
  rw [floor]
  refine ⟨dvd_mul_left _ _, ?_, ?_⟩
  · have split := div_add_mod (x.toNat + 2 ^ exponent - 1) (2 ^ exponent)
    rw [mul_comm] at split
    omega
  · obtain ⟨count, isLimit⟩ := (two_pow_le_page small).2.trans pages
    have quotient : (x.toNat + 2 ^ exponent - 1) / 2 ^ exponent ≤ count := by
      rw [← Nat.lt_add_one_iff, Nat.div_lt_iff_lt_mul positive, Nat.add_mul, Nat.one_mul,
        mul_comm count]
      omega
    calc (x.toNat + 2 ^ exponent - 1) / 2 ^ exponent * 2 ^ exponent
        ≤ count * 2 ^ exponent := mul_le_mul_right _ quotient
      _ = limit := by rw [mul_comm, ← isLimit]

theorem setWidth_alignSize (x : U64) (a : U32) :
    (alignSize x a).setWidth 32 = align (x.setWidth 32) a := by
  have sum : (x + a.setWidth 64 - 1).setWidth 32 = x.setWidth 32 + a - 1 := by
    apply eq_of_toNat_eq
    bv_omega
  rw [alignSize, setWidth_and, sum, align]
  simp

theorem setWidth_alignSizeMin (x : U64) :
    (alignSizeMin x).setWidth 32 = align (x.setWidth 32) usbDmaMinAlign := by
  have sum : (x + 256 - 1).setWidth 32 = x.setWidth 32 + usbDmaMinAlign - 1 := by
    rw [usbDmaMinAlign]
    apply eq_of_toNat_eq
    bv_omega
  rw [alignSizeMin, setWidth_and, sum, align]
  rfl

end Rounding

theorem usbDmaMinAlign_eq : usbDmaMinAlign = power 8 :=
  rfl

/-! ## Growing -/

/-- The pool grows by a frame of the supply, or all but the supply stays as it is. -/
theorem usbDmaGrowPage_cases (pool : DmaPool) :
    (∃ supply, usbDmaGrowPage pool = (false, { pool with supply }) ∧ supply <:+ pool.supply) ∨
      ∃ phys supply, usbDmaGrowPage pool = (true, addPage pool phys supply) ∧
        pool.pages.length < usbDmaMaxPages ∧ pool.supply = phys :: supply ∧ phys ≠ 0 := by
  rw [usbDmaGrowPage]
  split
  · exact .inl ⟨pool.supply, rfl, suffix_rfl⟩
  · rename_i room
    split
    · exact .inl ⟨pool.supply, rfl, suffix_rfl⟩
    · rename_i phys supply isSupply
      split
      · exact .inl ⟨supply, rfl, isSupply ▸ suffix_cons phys supply⟩
      · rename_i nonzero
        exact .inr ⟨phys, supply, rfl, Nat.lt_of_not_le room, isSupply, nonzero⟩

namespace DmaPool

variable {supply : List U64}

theorem Valid.shrink (valid : pool.Valid) (isSuffix : supply <:+ pool.supply) :
    Valid { pool with supply } := by
  have sublist : List.Sublist (pool.owned ++ suppliedFrames supply)
      (pool.owned ++ suppliedFrames pool.supply) :=
    List.Sublist.append_left (isSuffix.sublist.filter _) _
  exact {
    distinct := valid.distinct.sublist sublist
    aligned := fun frame member => valid.aligned frame (sublist.subset member)
    used := valid.used
    count := valid.count
    cur := valid.cur }

theorem Valid.addPage (valid : pool.Valid) {phys : U64}
    (room : pool.pages.length < usbDmaMaxPages) (isSupply : pool.supply = phys :: supply)
    (nonzero : phys ≠ 0) :
    (addPage pool phys supply).Valid := by
  have frames : pool.owned ++ suppliedFrames pool.supply =
      (Usb.addPage pool phys supply).owned ++ suppliedFrames supply := by
    rw [isSupply, suppliedFrames, filter_cons_of_pos (by simpa using nonzero)]
    simp [owned, Usb.addPage, suppliedFrames]
  exact {
    distinct := frames ▸ valid.distinct
    aligned := frames ▸ valid.aligned
    used := fun page member => by
      rcases mem_append.mp member with before | here
      · exact valid.used page before
      · rw [mem_singleton.mp here]
        exact zero_le _
    count := by
      rw [Usb.addPage, length_append]
      exact room
    cur := fun _ => by
      rw [Usb.addPage, length_append]
      exact lt_succ_self _ }

theorem taken_addPage (pool : DmaPool) (phys : U64) (supply : List U64) (byte : Nat) :
    (Usb.addPage pool phys supply).Taken byte ↔ pool.Taken byte := by
  constructor
  · rintro ⟨i, page, isPage, low, high⟩
    rcases lt_or_ge i pool.pages.length with before | behind
    · rw [Usb.addPage, getElem?_append_left before] at isPage
      exact ⟨i, page, isPage, low, high⟩
    · rw [Usb.addPage, getElem?_append_right behind] at isPage
      rw [mem_singleton.mp (mem_of_getElem? isPage)] at low high
      exact absurd high (not_lt.mpr low)
  · rintro ⟨i, page, isPage, low, high⟩
    refine ⟨i, page, ?_, low, high⟩
    rw [Usb.addPage, getElem?_append_left (List.getElem?_eq_some_iff.mp isPage).1]
    exact isPage

theorem Valid.index_unique (valid : pool.Valid) {i j : Nat} {first second : DmaPage}
    (isFirst : pool.pages[i]? = some first) (isSecond : pool.pages[j]? = some second) (byte : Nat)
    (inFirst : first.phys.toNat ≤ byte ∧ byte < first.phys.toNat + 4096)
    (inSecond : second.phys.toNat ≤ byte ∧ byte < second.phys.toNat + 4096) :
    i = j := by
  have firstFrame : pool.owned[i]? = some first.phys := by
    rw [owned, getElem?_map, isFirst]
    rfl
  have secondFrame : pool.owned[j]? = some second.phys := by
    rw [owned, getElem?_map, isSecond]
    rfl
  have firstAligned := valid.aligned first.phys
    (mem_append_left _ (mem_of_getElem? firstFrame))
  have secondAligned := valid.aligned second.phys
    (mem_append_left _ (mem_of_getElem? secondFrame))
  have same : first.phys = second.phys := eq_of_toNat_eq (by omega)
  have nodup := (nodup_append.mp valid.distinct).1
  apply (getElem?_inj (List.getElem?_eq_some_iff.mp firstFrame).1 nodup).mp
  rw [firstFrame, secondFrame, same]

end DmaPool

/-! ## Carving -/

/-- What a call returns and leaves. -/
structure Carved
    (pool : DmaPool)
    (size : Nat)
    (exponent : Nat)
    (va : U64)
    (after : DmaPool) : Prop where
  valid : after.Valid
  owned : pool.owned <+: after.owned
  kept : ∀ byte, pool.Taken byte → after.Taken byte
  aligned : va ≠ 0 → 2 ^ exponent ∣ va.toNat
  inside : va ≠ 0 → ∃ page ∈ after.pages,
    page.phys.toNat ≤ va.toNat ∧ va.toNat + size ≤ page.phys.toNat + 4096
  fresh : va ≠ 0 → ∀ byte, va.toNat ≤ byte → byte < va.toNat + size →
    ¬ pool.Taken byte ∧ after.Taken byte

namespace Carved

variable {middle after : DmaPool} {size : Nat} {va : U64}

theorem null (valid : after.Valid) (owned : pool.owned <+: after.owned)
    (kept : ∀ byte, pool.Taken byte → after.Taken byte) :
    Carved pool size exponent 0 after :=
  ⟨valid, owned, kept, fun nonzero => absurd rfl nonzero, fun nonzero => absurd rfl nonzero,
    fun nonzero => absurd rfl nonzero⟩

theorem of_same (carved : Carved middle size exponent va after)
    (owned : pool.owned <+: middle.owned) (same : ∀ byte, middle.Taken byte ↔ pool.Taken byte) :
    Carved pool size exponent va after where
  valid := carved.valid
  owned := owned.trans carved.owned
  kept := fun byte taken => carved.kept byte ((same byte).mpr taken)
  aligned := carved.aligned
  inside := carved.inside
  fresh := fun nonzero byte low high => by
    obtain ⟨isFree, isTaken⟩ := carved.fresh nonzero byte low high
    exact ⟨fun taken => isFree ((same byte).mpr taken), isTaken⟩

theorem shorten {less : Nat} (carved : Carved pool size exponent va after) (isLess : less ≤ size) :
    Carved pool less exponent va after where
  valid := carved.valid
  owned := carved.owned
  kept := carved.kept
  aligned := carved.aligned
  inside := fun nonzero => by
    obtain ⟨page, member, low, high⟩ := carved.inside nonzero
    exact ⟨page, member, low, by omega⟩
  fresh := fun nonzero byte low high => carved.fresh nonzero byte low (by omega)

end Carved

section Take

variable {page : DmaPage} {start size : U32}

theorem owned_takeBlock (isPage : pool.pages[pool.cur]? = some page) (start size : U32) :
    (takeBlock pool page start size).2.owned = pool.owned := by
  obtain ⟨below, isHere⟩ := List.getElem?_eq_some_iff.mp isPage
  rw [DmaPool.owned, takeBlock, map_set, DmaPool.owned]
  apply ext_getElem?
  intro i
  rw [getElem?_set, getElem?_map, length_map, if_pos below]
  split
  · rename_i isCur
    rw [← isCur, isPage]
    rfl
  · rfl

theorem getElem?_takeBlock (isPage : pool.pages[pool.cur]? = some page) (i : Nat) :
    (takeBlock pool page start size).2.pages[i]? =
      if pool.cur = i then some { page with used := start + size } else pool.pages[i]? := by
  rw [takeBlock, getElem?_set, if_pos (List.getElem?_eq_some_iff.mp isPage).1]

theorem valid_takeBlock (valid : pool.Valid) (isPage : pool.pages[pool.cur]? = some page)
    (fits : start.toNat + size.toNat ≤ 4096) :
    (takeBlock pool page start size).2.Valid where
  distinct := (owned_takeBlock isPage start size).symm ▸ valid.distinct
  aligned := (owned_takeBlock isPage start size).symm ▸ valid.aligned
  used := fun other member => by
    obtain ⟨i, isOther⟩ := getElem?_of_mem member
    rw [getElem?_takeBlock isPage] at isOther
    split at isOther
    · cases isOther
      change (start + size).toNat ≤ 4096
      rw [toNat_add, mod_eq_of_lt (by omega)]
      exact fits
    · exact valid.used other (mem_of_getElem? isOther)
  count := by
    rw [takeBlock, length_set]
    exact valid.count
  cur := by
    rw [takeBlock, length_set]
    exact valid.cur

theorem toNat_takeBlock (valid : pool.Valid) (isPage : pool.pages[pool.cur]? = some page)
    (positive : 0 < size.toNat) (fits : start.toNat + size.toNat ≤ 4096) :
    (takeBlock pool page start size).1.toNat = page.phys.toNat + start.toNat := by
  have frame : page.phys ∈ pool.owned := mem_map_of_mem (mem_of_getElem? isPage)
  have aligned := valid.aligned page.phys (mem_append_left _ frame)
  have widened : (start.setWidth 64).toNat = start.toNat := by
    rw [toNat_setWidth, mod_eq_of_lt (by omega)]
  rw [takeBlock, toNat_add, widened, mod_eq_of_lt (by omega)]

theorem carved_takeBlock (valid : pool.Valid) (small : exponent ≤ 12)
    (isPage : pool.pages[pool.cur]? = some page) (divides : 2 ^ exponent ∣ start.toNat)
    (behind : page.used.toNat ≤ start.toNat) (positive : 0 < size.toNat)
    (fits : start.toNat + size.toNat ≤ 4096) :
    Carved pool size.toNat exponent (takeBlock pool page start size).1
      (takeBlock pool page start size).2 := by
  have isStart := toNat_takeBlock valid isPage positive fits
  have isUsed : (start + size).toNat = start.toNat + size.toNat := by
    rw [toNat_add, mod_eq_of_lt (by omega)]
  have isHere : (takeBlock pool page start size).2.pages[pool.cur]? =
      some { page with used := start + size } := by
    rw [getElem?_takeBlock isPage, if_pos rfl]
  exact {
    valid := valid_takeBlock valid isPage fits
    owned := by rw [owned_takeBlock isPage]
    kept := fun byte taken => by
      obtain ⟨i, other, isOther, low, high⟩ := taken
      by_cases isCur : pool.cur = i
      · rw [← isCur, isPage] at isOther
        cases isOther
        exact ⟨pool.cur, _, isHere, low, by
          change byte < page.phys.toNat + (start + size).toNat
          omega⟩
      · refine ⟨i, other, ?_, low, high⟩
        rw [getElem?_takeBlock isPage, if_neg isCur, isOther]
    aligned := fun _ => by
      have frame : page.phys ∈ pool.owned := mem_map_of_mem (mem_of_getElem? isPage)
      have aligned := valid.aligned page.phys (mem_append_left _ frame)
      rw [isStart]
      exact dvd_add ((two_pow_le_page small).2.trans (dvd_of_mod_eq_zero aligned)) divides
    inside := fun _ =>
      ⟨_, mem_of_getElem? isHere, by rw [isStart]; exact le_add_right _ _, by
        rw [isStart, add_assoc]
        exact Nat.add_le_add_left fits _⟩
    fresh := fun _ byte low high => by
      rw [isStart] at low high
      refine ⟨?_, pool.cur, _, isHere, ?_, ?_⟩
      · -- A taken byte of this page lies before the block, and other pages lie elsewhere.
        rintro ⟨i, other, isOther, otherLow, otherHigh⟩
        have usedLe := valid.used other (mem_of_getElem? isOther)
        have same := valid.index_unique isPage isOther byte
          ⟨by omega, by omega⟩ ⟨otherLow, by omega⟩
        rw [← same, isPage] at isOther
        cases isOther
        omega
      · exact le_trans (le_add_right _ _) low
      · change byte < page.phys.toNat + (start + size).toNat
        omega }

end Take

theorem exists_carveLoop {size : U32} {fuel : Nat} (small : exponent ≤ 12)
    (positive : 0 < size.toNat) (low : size.toNat ≤ 2 ^ 30) (valid : pool.Valid)
    (nonempty : 0 < pool.pages.length) (enough : usbDmaMaxPages - pool.cur ≤ fuel) :
    ∃ va after, carveLoop size (power exponent) fuel pool = some (va, after) ∧
      Carved pool size.toNat exponent va after := by
  have below := valid.cur nonempty
  have count := valid.count
  induction fuel generalizing pool with
  | zero => omega
  | succ fuel ih =>
    obtain ⟨page, isPage⟩ : ∃ page, pool.pages[pool.cur]? = some page :=
      ⟨_, List.getElem?_eq_getElem below⟩
    have inPage := valid.used page (mem_of_getElem? isPage)
    obtain ⟨divides, behind, startLe⟩ := toNat_align small dvd_rfl (by decide) inPage
    have sum : (align page.used (power exponent) + size).toNat =
        (align page.used (power exponent)).toNat + size.toNat := by
      rw [toNat_add, mod_eq_of_lt (by omega)]
    rw [carveLoop, isPage, Option.bind_eq_bind, Option.bind_some]
    dsimp only
    by_cases hasRoom : align page.used (power exponent) + size ≤ usbDmaPageSize
    · rw [if_pos hasRoom]
      rw [le_def, sum] at hasRoom
      exact ⟨_, _, rfl, carved_takeBlock valid small isPage divides behind positive hasRoom⟩
    rw [if_neg hasRoom]
    by_cases more : pool.cur + 1 < pool.pages.length
    · rw [if_pos more]
      have moved : DmaPool.Valid { pool with cur := pool.cur + 1 } :=
        { valid with cur := fun _ => more }
      obtain ⟨va, after, ran, carved⟩ :=
        ih moved nonempty (by dsimp only; omega) more count
      exact ⟨va, after, ran, carved.of_same prefix_rfl fun _ => Iff.rfl⟩
    rw [if_neg more]
    rcases usbDmaGrowPage_cases pool with ⟨supply, grown, isSuffix⟩ |
      ⟨phys, supply, grown, room, isSupply, nonzero⟩
    · rw [grown]
      exact ⟨0, _, rfl, .null (valid.shrink isSuffix) prefix_rfl fun _ taken => taken⟩
    · rw [grown]
      have added := valid.addPage room isSupply nonzero
      obtain ⟨va, after, ran, carved⟩ := ih added
        (by simp [addPage]) (by simp only [addPage]; omega) (added.cur (by simp [addPage]))
        added.count
      refine ⟨va, after, ran, carved.of_same ?_ (DmaPool.taken_addPage pool phys supply)⟩
      simp [DmaPool.owned, addPage]

theorem exists_usbDmaCarve {size : U32} (large : 4 ≤ exponent) (small : exponent ≤ 12)
    (positive : 0 < size.toNat) (low : size.toNat ≤ 2 ^ 30) (valid : pool.Valid) :
    ∃ va after, usbDmaCarve pool size (power exponent) = some (va, after) ∧
      Carved pool size.toNat exponent va after := by
  have notLess : ¬ power exponent < 16 := by
    have atLeast : 2 ^ 4 ≤ 2 ^ exponent := Nat.pow_le_pow_right (by decide) large
    rw [lt_def, toNat_power small]
    exact not_lt.mpr atLeast
  rw [usbDmaCarve, if_neg notLess]
  by_cases empty : pool.pages.length = 0
  · rw [if_pos empty]
    rcases usbDmaGrowPage_cases pool with ⟨supply, grown, isSuffix⟩ |
      ⟨phys, supply, grown, room, isSupply, nonzero⟩
    · rw [grown]
      exact ⟨0, _, rfl, .null (valid.shrink isSuffix) prefix_rfl fun _ taken => taken⟩
    · rw [grown]
      obtain ⟨va, after, ran, carved⟩ := exists_carveLoop small positive low
        (valid.addPage room isSupply nonzero) (by simp [addPage]) (sub_le _ _)
      refine ⟨va, after, ran, carved.of_same ?_ (DmaPool.taken_addPage pool phys supply)⟩
      simp [DmaPool.owned, addPage]
  · rw [if_neg empty]
    exact exists_carveLoop small positive low valid (pos_of_ne_zero empty) (sub_le _ _)

/-! ## Allocation -/

/-- A size of at most a page. -/
abbrev BlockSize := { size : U64 // 1 ≤ size.toNat ∧ size.toNat ≤ 4096 }

/-- An alignment of at most a page. -/
abbrev BlockAlign := { a : U32 // ∃ exponent ≤ 12, a = power exponent }

theorem Carved.clear {after : DmaPool} {size : Nat} {va : U64}
    (carved : Carved pool size exponent va after) (cleared : U64) :
    Carved pool size exponent (clearBlock cleared (va, after)).1
      (clearBlock cleared (va, after)).2 := by
  rw [clearBlock]
  split
  · rename_i isNull
    exact isNull ▸ carved
  · exact ⟨{ carved.valid with }, carved.owned, carved.kept, carved.aligned, carved.inside,
      carved.fresh⟩

/-- A block that is handed out is no larger than a page. -/
theorem Carved.fits {after : DmaPool} {size : Nat} {va : U64}
    (carved : Carved pool size exponent va after) (given : va ≠ 0) : size ≤ 4096 := by
  obtain ⟨page, -, first, last⟩ := carved.inside given
  omega

section Alloc

variable {size : U64} (positive : 0 < size.toNat) (low : size.toNat ≤ 2 ^ 30)
include positive low

theorem exists_alloc (large : 4 ≤ exponent) (small : exponent ≤ 12) (valid : pool.Valid) :
    ∃ va after,
      (usbDmaCarve pool (align (size.setWidth 32) (power exponent)) (power exponent)).map
          (clearBlock size) = some (va, after) ∧
        Carved pool size.toNat exponent va after := by
  have cut : (size.setWidth 32).toNat = size.toNat := by
    rw [toNat_setWidth, mod_eq_of_lt (by omega)]
  obtain ⟨-, roundedGe, roundedLe⟩ := toNat_align small (by decide) le_rfl (cut.trans_le low)
  rw [cut] at roundedGe
  obtain ⟨va, after, ran, carved⟩ := exists_usbDmaCarve large small
    (lt_of_lt_of_le positive roundedGe) roundedLe valid
  rw [ran]
  exact ⟨_, _, rfl, (carved.shorten roundedGe).clear size⟩

theorem exists_usbDmaAlloc (valid : pool.Valid) :
    ∃ va after, usbDmaAlloc pool size = some (va, after) ∧ Carved pool size.toNat 8 va after := by
  rw [usbDmaAlloc, setWidth_alignSizeMin, usbDmaMinAlign_eq]
  exact exists_alloc positive low (by decide) (by decide) valid

omit positive low in
theorem max_power (small : exponent ≤ 12) :
    (if power exponent < usbDmaMinAlign then usbDmaMinAlign else power exponent) =
      power (max exponent 8) := by
  have isLess : power exponent < usbDmaMinAlign ↔ exponent < 8 := by
    rw [lt_def, toNat_power small, show usbDmaMinAlign.toNat = 2 ^ 8 from rfl]
    exact Nat.pow_lt_pow_iff_right (by decide)
  by_cases less : exponent < 8
  · rw [if_pos (isLess.mpr less), max_eq_right (le_of_lt less)]
    rfl
  · rw [if_neg (mt isLess.mp less), max_eq_left (Nat.le_of_not_lt less)]

theorem exists_usbDmaAllocAligned (small : exponent ≤ 12) (valid : pool.Valid) :
    ∃ va after, usbDmaAllocAligned pool size (power exponent) = some (va, after) ∧
      Carved pool size.toNat (max exponent 8) va after := by
  rw [usbDmaAllocAligned, max_power small, setWidth_alignSize]
  exact exists_alloc positive low (by omega) (by omega) valid

end Alloc

/-- Below the least alignment both allocators do the same. -/
theorem usbDmaAllocAligned_eq (pool : DmaPool) (size : U64) {a : U32} (low : a < usbDmaMinAlign) :
    usbDmaAllocAligned pool size a = usbDmaAlloc pool size := by
  rw [usbDmaAllocAligned, if_pos low, setWidth_alignSize, usbDmaAlloc, setWidth_alignSizeMin]

/-- The caller of `usb_dma_alloc` gets memory and not the null pointer. -/
def DmaPool.Grants (pool : DmaPool) (size : U64) : Prop :=
  ∃ result, usbDmaAlloc pool size = some result ∧ result.1 ≠ 0

/-- A pool before its first allocation, with one frame to be had. -/
def freshPool : DmaPool :=
  .initial [0x100000]

theorem freshPool_valid : freshPool.Valid where
  distinct := by decide
  aligned := by simp [freshPool, DmaPool.initial, DmaPool.owned, suppliedFrames]
  used := by simp [freshPool, DmaPool.initial]
  count := by simp [freshPool, DmaPool.initial]
  cur := by simp [freshPool, DmaPool.initial]

theorem freshPool_grants {size : U64} (fits : size.toNat ≤ 4096) : freshPool.Grants size := by
  have cut : (size.setWidth 32).toNat = size.toNat := by
    rw [toNat_setWidth, mod_eq_of_lt (by omega)]
  have rounded := (toNat_align (show 8 ≤ 12 by decide) dvd_rfl (by decide)
    (cut.trans_le fits)).2.2
  have room : align 0 usbDmaMinAlign + align (size.setWidth 32) usbDmaMinAlign ≤
      usbDmaPageSize := by
    rw [show align 0 usbDmaMinAlign = 0#32 from rfl, BitVec.zero_add]
    exact rounded
  obtain ⟨fuel, isFuel⟩ : ∃ fuel, usbDmaMaxPages = fuel + 1 := ⟨2047, rfl⟩
  have grown : usbDmaGrowPage freshPool = (true, addPage freshPool 0x100000 []) := by
    simp [usbDmaGrowPage, freshPool, DmaPool.initial, usbDmaMaxPages]
  have first : (addPage freshPool 0x100000 []).pages[(addPage freshPool 0x100000 []).cur]? =
      some ⟨0x100000, 0⟩ := rfl
  have carved : usbDmaCarve freshPool (align (size.setWidth 32) usbDmaMinAlign) usbDmaMinAlign =
      some (takeBlock (addPage freshPool 0x100000 []) ⟨0x100000, 0⟩ (align 0 usbDmaMinAlign)
        (align (size.setWidth 32) usbDmaMinAlign)) := by
    rw [usbDmaCarve, if_neg (show ¬ usbDmaMinAlign < 16 by decide),
      if_pos (show freshPool.pages.length = 0 from rfl), grown, isFuel]
    dsimp only
    rw [carveLoop, first, Option.bind_eq_bind, Option.bind_some, if_pos room]
    rfl
  have start : (0x100000 : U64) + (align 0 usbDmaMinAlign).setWidth 64 = 0x100000 := by decide
  refine ⟨_, by rw [usbDmaAlloc, setWidth_alignSizeMin, carved, Option.map_some], ?_⟩
  rw [takeBlock, clearBlock, start, if_neg (by decide)]
  exact show (0x100000 : U64) ≠ 0 by decide

/-- Memory is to be had exactly for what fits into one page. -/
theorem exists_grants_iff {size : U64} (low : size.toNat ≤ 2 ^ 30) :
    (∃ pool : DmaPool, pool.Valid ∧ pool.Grants size) ↔ size.toNat ≤ 4096 := by
  constructor
  · rintro ⟨pool, valid, result, ran, given⟩
    rcases Nat.eq_zero_or_pos size.toNat with zero | positive
    · omega
    · obtain ⟨_, _, alsoRan, carved⟩ := exists_usbDmaAlloc positive low valid
      rw [ran] at alsoRan
      cases alsoRan
      exact carved.fits given
  · exact fun fits => ⟨freshPool, freshPool_valid, freshPool_grants fits⟩

/-! ## Sequences of calls -/

/-- A block that was returned. -/
structure DmaBlock where
  start : U64
  size : BlockSize
  align : BlockAlign

def DmaBlock.Has (block : DmaBlock) (byte : Nat) : Prop :=
  block.start.toNat ≤ byte ∧ byte < block.start.toNat + block.size.val.toNat

/-- The pool and the blocks returned since the last reset. -/
structure DmaSystem where
  pool : DmaPool
  blocks : List DmaBlock

/-- The calls of the pool. -/
inductive DmaCall where
  | poolInit
  | reset
  | alloc (size : BlockSize)
  | allocAligned (size : BlockSize) (a : BlockAlign)

/-- Note the block that was returned. -/
def noteBlock (system : DmaSystem) (size : BlockSize) (a : BlockAlign) :
    U64 × DmaPool → DmaSystem
  | (va, pool) => ⟨pool, if va = 0 then system.blocks else ⟨va, size, a⟩ :: system.blocks⟩

theorem isPower_usbDmaMinAlign : ∃ exponent ≤ 12, usbDmaMinAlign = power exponent :=
  ⟨8, by decide, usbDmaMinAlign_eq⟩

/-- One call. -/
def dmaStep (system : DmaSystem) : DmaCall → Option DmaSystem
  | .poolInit => some { system with pool := usbDmaPoolInit system.pool }
  | .reset => some ⟨usbDmaReset system.pool, []⟩
  | .alloc size =>
      (usbDmaAlloc system.pool size.val).map
        (noteBlock system size ⟨usbDmaMinAlign, isPower_usbDmaMinAlign⟩)
  | .allocAligned size a =>
      (usbDmaAllocAligned system.pool size.val a.val).map (noteBlock system size a)

/-- What users of the blocks rely on. -/
structure BlocksSound (system : DmaSystem) : Prop where
  aligned : ∀ block ∈ system.blocks, max block.align.val.toNat 256 ∣ block.start.toNat
  inside : ∀ block ∈ system.blocks, ∃ frame ∈ system.pool.owned,
    frame.toNat ≤ block.start.toNat ∧
      block.start.toNat + block.size.val.toNat ≤ frame.toNat + 4096
  apart : system.blocks.Pairwise fun first second => ∀ byte, first.Has byte → ¬ second.Has byte

/-- What every call keeps. -/
structure SystemValid (system : DmaSystem) : Prop where
  pool : system.pool.Valid
  sound : BlocksSound system
  taken : ∀ block ∈ system.blocks, ∀ byte, block.Has byte → system.pool.Taken byte

variable {system : DmaSystem} {supply : List U64}

theorem SystemValid.grow (valid : SystemValid system) (poolValid : pool.Valid)
    (owned : system.pool.owned <+: pool.owned)
    (kept : ∀ byte, system.pool.Taken byte → pool.Taken byte) :
    SystemValid { system with pool } where
  pool := poolValid
  sound := {
    aligned := valid.sound.aligned
    inside := fun block member => by
      obtain ⟨frame, isOwned, bounds⟩ := valid.sound.inside block member
      exact ⟨frame, owned.subset isOwned, bounds⟩
    apart := valid.sound.apart }
  taken := fun block member byte has => kept byte (valid.taken block member byte has)

theorem SystemValid.note (valid : SystemValid system) {size : BlockSize} {a : BlockAlign}
    {va : U64} (isAlign : max a.val.toNat 256 = 2 ^ exponent)
    (carved : Carved system.pool size.val.toNat exponent va pool) :
    SystemValid (noteBlock system size a (va, pool)) := by
  have grown := valid.grow carved.valid carved.owned carved.kept
  rw [noteBlock]
  by_cases isNull : va = 0
  · rw [if_pos isNull]
    exact grown
  rw [if_neg isNull]
  exact {
    pool := carved.valid
    sound := {
      aligned := fun block member => by
        rcases mem_cons.mp member with rfl | before
        · dsimp only
          rw [isAlign]
          exact carved.aligned isNull
        · exact grown.sound.aligned block before
      inside := fun block member => by
        rcases mem_cons.mp member with rfl | before
        · obtain ⟨page, isPage, bounds⟩ := carved.inside isNull
          exact ⟨page.phys, mem_map_of_mem isPage, bounds⟩
        · exact grown.sound.inside block before
      apart := by
        refine pairwise_cons.mpr ⟨?_, valid.sound.apart⟩
        intro other before byte has otherHas
        exact (carved.fresh isNull byte has.1 has.2).1 (valid.taken other before byte otherHas) }
    taken := fun block member byte has => by
      rcases mem_cons.mp member with rfl | before
      · exact (carved.fresh isNull byte has.1 has.2).2
      · exact grown.taken block before byte has }

theorem max_align (small : exponent ≤ 12) :
    max (power exponent).toNat 256 = 2 ^ max exponent 8 := by
  change max (power exponent).toNat (2 ^ 8) = _
  rw [toNat_power small]
  rcases le_total exponent 8 with below | above
  · have powers : 2 ^ exponent ≤ 2 ^ 8 := Nat.pow_le_pow_right (by decide) below
    rw [max_eq_right below, max_eq_right powers]
  · have powers : 2 ^ 8 ≤ 2 ^ exponent := Nat.pow_le_pow_right (by decide) above
    rw [max_eq_left above, max_eq_left powers]

theorem usbDmaPoolInit_valid (valid : pool.Valid) :
    (usbDmaPoolInit pool).Valid ∧ pool.owned <+: (usbDmaPoolInit pool).owned ∧
      ∀ byte, pool.Taken byte → (usbDmaPoolInit pool).Taken byte := by
  rw [usbDmaPoolInit]
  split
  · rcases usbDmaGrowPage_cases pool with ⟨supply, grown, isSuffix⟩ |
      ⟨phys, supply, grown, room, isSupply, nonzero⟩
    · rw [grown]
      exact ⟨valid.shrink isSuffix, prefix_rfl, fun _ taken => taken⟩
    · rw [grown]
      refine ⟨valid.addPage room isSupply nonzero, ?_, fun byte taken =>
        (DmaPool.taken_addPage pool phys supply byte).mpr taken⟩
      simp [DmaPool.owned, addPage]
  · exact ⟨valid, prefix_rfl, fun _ taken => taken⟩

theorem owned_usbDmaReset (pool : DmaPool) : (usbDmaReset pool).owned = pool.owned := by
  rw [DmaPool.owned, usbDmaReset, map_map]
  rfl

theorem usbDmaReset_valid (valid : pool.Valid) : (usbDmaReset pool).Valid where
  distinct := (owned_usbDmaReset pool).symm ▸ valid.distinct
  aligned := (owned_usbDmaReset pool).symm ▸ valid.aligned
  used := fun page member => by
    obtain ⟨_, -, rfl⟩ := mem_map.mp member
    exact zero_le _
  count := by
    rw [usbDmaReset, length_map]
    exact valid.count
  cur := fun nonempty => nonempty

theorem exists_dmaStep (valid : SystemValid system) (call : DmaCall) :
    ∃ next, dmaStep system call = some next ∧ SystemValid next ∧
      system.pool.owned <+: next.pool.owned := by
  cases call with
  | poolInit =>
    obtain ⟨poolValid, owned, kept⟩ := usbDmaPoolInit_valid valid.pool
    exact ⟨_, rfl, valid.grow poolValid owned kept, owned⟩
  | reset =>
    refine ⟨_, rfl, ?_, ?_⟩
    · exact {
        pool := usbDmaReset_valid valid.pool
        sound := ⟨by simp, by simp, .nil⟩
        taken := by simp }
    · rw [owned_usbDmaReset]
  | alloc size =>
    obtain ⟨va, pool, ran, carved⟩ :=
      exists_usbDmaAlloc size.property.1 (size.property.2.trans (by decide)) valid.pool
    refine ⟨_, by rw [dmaStep, ran, Option.map_some], valid.note ?_ carved, carved.owned⟩
    rfl
  | allocAligned size a =>
    obtain ⟨a, exponent, small, rfl⟩ := a
    obtain ⟨va, pool, ran, carved⟩ := exists_usbDmaAllocAligned size.property.1
      (size.property.2.trans (by decide)) small valid.pool
    exact ⟨_, by rw [dmaStep, ran, Option.map_some], valid.note (max_align small) carved,
      carved.owned⟩

theorem systemValid_initial (distinct : (suppliedFrames supply).Nodup)
    (aligned : ∀ frame ∈ supply, frame.toNat % 4096 = 0) :
    SystemValid ⟨DmaPool.initial supply, []⟩ where
  pool := {
    distinct
    aligned := fun frame member => aligned frame (mem_filter.mp member).1
    used := by simp [DmaPool.initial]
    count := by simp [DmaPool.initial]
    cur := by simp [DmaPool.initial] }
  sound := ⟨by simp, by simp, .nil⟩
  taken := by simp

/-- Whatever the calls, the blocks returned since the last reset are sound, and no call
gives up a frame. -/
theorem usb_dma_pool_sound (supply : List U64) (distinct : (suppliedFrames supply).Nodup)
    (aligned : ∀ frame ∈ supply, frame.toNat % 4096 = 0) (calls : List DmaCall) :
    ∃ trace final, trace.map Prod.snd = calls ∧
      Run dmaStep ⟨DmaPool.initial supply, []⟩ trace final ∧
      Throughout BlocksSound trace final ∧
      ∀ taken ∈ trace, ∀ next, dmaStep taken.1 taken.2 = some next →
        taken.1.pool.owned <+: next.pool.owned := by
  have takes : ∀ system call, SystemValid system →
      ∃ next, dmaStep system call = some next ∧ SystemValid next := by
    intro system call valid
    obtain ⟨next, taken, nextValid, -⟩ := exists_dmaStep valid call
    exact ⟨next, taken, nextValid⟩
  obtain ⟨trace, final, names, run, throughout⟩ := Run.start.exists_throughout takes calls
    (throughout_start (systemValid_initial distinct aligned))
  refine ⟨trace, final, names, run, ⟨fun taken member => ?_, throughout.2.sound⟩, ?_⟩
  · exact (throughout.1 taken member).sound
  · intro taken member next step
    obtain ⟨other, alsoTaken, -, owned⟩ := exists_dmaStep (throughout.1 taken member) taken.2
    rw [step] at alsoTaken
    cases alsoTaken
    exact owned

def someFrames : List U64 :=
  [0x200000, 0x100000, 0, 0x300000]

def someCalls : List DmaCall :=
  [.poolInit, .alloc ⟨24, by decide⟩, .reset,
    .allocAligned ⟨4096, by decide⟩ ⟨power 12, 12, by decide, rfl⟩,
    .allocAligned ⟨64, by decide⟩ ⟨power 4, 4, by decide, rfl⟩]

/-- Three pages and a failed allocation. -/
theorem someCalls_sound :
    ∃ trace final, trace.map Prod.snd = someCalls ∧
      Run dmaStep ⟨DmaPool.initial someFrames, []⟩ trace final ∧
      Throughout BlocksSound trace final ∧
      ∀ taken ∈ trace, ∀ next, dmaStep taken.1 taken.2 = some next →
        taken.1.pool.owned <+: next.pool.owned :=
  usb_dma_pool_sound someFrames (by decide) (by simp [someFrames]) someCalls

end XKern.Usb
