import XKern.Pmm

namespace XKern

/-!
# Physical memory

Memory is a function from the base of a page and the index of a word in that
page to the word.  Kernel code reaches every frame it allocates through the
identity map of the low 4 GiB, so a pointer to a frame is its physical address
and `t[i]` on a table `t` is `memory t i`.
-/

/-- A page holds words, so that an index into it may be a numeral. -/
instance pageWords_neZero : NeZero 512 := ⟨by decide⟩

/-- Memory as words of pages. -/
abbrev Memory := U64 → Fin 512 → U64

/-- The part of the machine that memory management works on. -/
structure Machine where
  pmm : Pmm
  memory : Memory
  cr3 : U64

namespace Memory

/-- Store a word. -/
def write (memory : Memory) (page : U64) (index : Fin 512) (word : U64) :
    Memory :=
  fun otherPage otherIndex =>
    if otherPage = page ∧ otherIndex = index then word
    else memory otherPage otherIndex

/-- Store a whole page. -/
def fill (memory : Memory) (page : U64) (words : Fin 512 → U64) : Memory :=
  fun otherPage index =>
    if otherPage = page then words index else memory otherPage index

def wordAddress (page : U64) (index : Fin 512) : U64 :=
  page + .ofNat 64 (8 * index.val)

/-- Clear the words of the `size` bytes at `start`. -/
def clear (memory : Memory) (start size : U64) : Memory :=
  fun page index =>
    if wordAddress page index - start < size then 0 else memory page index

@[simp] theorem write_same (memory : Memory) (page : U64) (index : Fin 512) (word : U64) :
    memory.write page index word page index = word := by
  simp [write]

theorem write_other_page (memory : Memory) {page otherPage : U64} (index otherIndex : Fin 512)
    (word : U64) (different : otherPage ≠ page) :
    memory.write page index word otherPage otherIndex = memory otherPage otherIndex := by
  simp [write, different]

theorem write_other_index (memory : Memory) (page otherPage : U64) {index otherIndex : Fin 512}
    (word : U64) (different : otherIndex ≠ index) :
    memory.write page index word otherPage otherIndex = memory otherPage otherIndex := by
  simp [write, different]

@[simp] theorem fill_same (memory : Memory) (page : U64) (words : Fin 512 → U64) (index : Fin 512) :
    memory.fill page words page index = words index := by
  simp [fill]

theorem fill_other (memory : Memory) {page otherPage : U64} (words : Fin 512 → U64)
    (index : Fin 512) (different : otherPage ≠ page) :
    memory.fill page words otherPage index = memory otherPage index := by
  simp [fill, different]

end Memory

end XKern
