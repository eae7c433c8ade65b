import XKern.Pmm
import XKern.RecordedMemory

namespace XKern.Libkern

open Slices RecordedMemory List

/-!
# Copies of memory

Model of `memcpy`, `memmove` and `memset` in `libkern/libkern/string.c`.  An address is
a number, so that no address wraps.  A copy of a word reads all its bytes and then
stores them.
-/

/-- Memory with a record of the stores. -/
abbrev Ram := Recorded U8

/-! ## The functions -/

/-- The variables `d`, `s` and `n` of `memcpy`, and memory. -/
structure CopyVars where
  d : Nat
  s : Nat
  n : Nat
  ram : Ram

/-- `while (n >= size) { *dw++ = *sw++; n -= size; }`, with words of `size` bytes. -/
def copyWords (size : Nat) (v : CopyVars) : CopyVars :=
  if _ : 0 < size ∧ size ≤ v.n then
    copyWords size {
      d := v.d + size
      s := v.s + size
      n := v.n - size
      ram := v.ram.store v.d (slice v.ram.content v.s size) }
  else
    v
termination_by v.n

/-- The loop over words, if both pointers are aligned to them. -/
def copyAligned (size : Nat) (v : CopyVars) : CopyVars :=
  if (v.d ||| v.s) &&& (size - 1) = 0 then copyWords size v else v

/-- `memcpy`. -/
def memcpy (dest src : Nat) (n : U32) (ram : Ram) : Ram :=
  let v := copyAligned 8 { d := dest, s := src, n := n.toNat, ram }
  let v := copyAligned 4 v
  (copyWords 1 v).ram

/-- `while (n--) *--d = *--s`, for the pointers behind the ends. -/
def copyBackwards (dest src : Nat) : Nat → Ram → Ram
  | 0, ram => ram
  | n + 1, ram => copyBackwards dest src n (ram.store (dest + n) [ram.content (src + n)])

/-- `memmove`. -/
def memmove (dest src : Nat) (n : U32) (ram : Ram) : Ram :=
  if dest = src then
    ram
  else if dest < src then
    memcpy dest src n ram
  else
    copyBackwards dest src n.toNat ram

def wordInMemory (word : U32) : List U8 :=
  [word.setWidth 8, (word >>> 8).setWidth 8, (word >>> 16).setWidth 8, (word >>> 24).setWidth 8]

/-- The variables `p` and `n` of `memset`, and memory. -/
structure FillVars where
  p : Nat
  n : Nat
  ram : Ram

/-- A loop of `memset`, which stores some bytes in each round. -/
def fillLoop (bytes : List U8) (v : FillVars) : FillVars :=
  if _ : 0 < bytes.length ∧ bytes.length ≤ v.n then
    fillLoop bytes {
      p := v.p + bytes.length
      n := v.n - bytes.length
      ram := v.ram.store v.p bytes }
  else
    v
termination_by v.n

/-- `(u32)c8`. -/
def fillWord (c : U32) : U32 :=
  let c8 : U64 := (c.setWidth 8).setWidth 64 * 0x0101010101010101
  c8.setWidth 32

/-- The loop of `memset` over words, if `p` is aligned. -/
def fillAligned (c : U32) (v : FillVars) : FillVars :=
  if v.p &&& 3 = 0 then fillLoop (wordInMemory (fillWord c)) v else v

/-- `memset`. -/
def memset (s : Nat) (c n : U32) (ram : Ram) : Ram :=
  (fillLoop [c.setWidth 8] (fillAligned c { p := s, n := n.toNat, ram })).ram

/-! ## Copies in ascending order -/

/-- No byte of the source is overwritten before it is read. -/
def ReadsAhead (dest src n : Nat) : Prop :=
  dest ≤ src ∨ src + n ≤ dest

/-- The variables after `done` bytes were copied. -/
structure Copying (dest src n : Nat) (start : Ram) (done : Nat) (v : CopyVars) : Prop where
  atD : v.d = dest + done
  atS : v.s = src + done
  left : done + v.n = n
  copied : Filled dest (slice start.content src done) start v.ram

section Forward

variable {dest src n done size : Nat} {start : Ram} {v : CopyVars}

theorem copyWords_copying (ahead : ReadsAhead dest src n) (positive : 0 < size)
    (copying : Copying dest src n start done v) :
    ∃ later, Copying dest src n start later (copyWords size v) ∧ (copyWords size v).n < size := by
  fun_induction copyWords size v generalizing done with
  | case1 v more ih =>
    have unread : slice v.ram.content v.s size = slice start.content (src + done) size := by
      apply slice_congr
      intro i inWord
      have left := copying.left
      rw [copying.atS]
      apply copying.copied.content_outside
      rw [length_slice]
      rcases ahead with below | above
      · omega
      · omega
    apply ih
    exact {
      atD := by rw [copying.atD, add_assoc]
      atS := by rw [copying.atS, add_assoc]
      left := by
        have left := copying.left
        show done + size + (v.n - size) = n
        omega
      copied := by
        have stored := filled_store v.d (slice v.ram.content v.s size) v.ram
        rw [unread, copying.atD] at stored
        rw [slice_add, unread, copying.atD]
        exact copying.copied.append (by rwa [length_slice]) }
  | case2 v stops => exact ⟨done, copying, by omega⟩

theorem copyAligned_copying (ahead : ReadsAhead dest src n) (positive : 0 < size)
    (copying : Copying dest src n start done v) :
    ∃ later, Copying dest src n start later (copyAligned size v) := by
  rw [copyAligned]
  split
  · obtain ⟨later, copyingLater, -⟩ := copyWords_copying ahead positive copying
    exact ⟨later, copyingLater⟩
  · exact ⟨done, copying⟩

end Forward

theorem memcpy_filled {dest src : Nat} {n : U32} (ahead : ReadsAhead dest src n.toNat) (ram : Ram) :
    Filled dest (slice ram.content src n.toNat) ram (memcpy dest src n ram) := by
  have start : Copying dest src n.toNat ram 0 { d := dest, s := src, n := n.toNat, ram } := {
    atD := rfl
    atS := rfl
    left := zero_add _
    copied := filled_nil dest ram }
  obtain ⟨eights, afterEights⟩ := copyAligned_copying ahead (show 0 < 8 by decide) start
  obtain ⟨fours, afterFours⟩ := copyAligned_copying ahead (show 0 < 4 by decide) afterEights
  obtain ⟨all, copying, none⟩ := copyWords_copying ahead one_pos afterFours
  have left := copying.left
  have isAll : all = n.toNat := by omega
  rw [isAll] at copying
  exact copying.copied

/-! ## Copies in descending order -/

theorem copyBackwards_filled {dest src : Nat} (behind : src ≤ dest) (n : Nat) (values : List U8)
    {start ram : Ram} (copied : Filled (dest + n) values start ram) :
    Filled dest (slice start.content src n ++ values) start (copyBackwards dest src n ram) := by
  induction n generalizing values ram with
  | zero =>
    rw [slice_zero, nil_append]
    exact copied
  | succ n ih =>
    have unread : ram.content (src + n) = start.content (src + n) :=
      copied.content_outside (.inl (by omega))
    have next : Filled (dest + n) ([start.content (src + n)] ++ values) start
        (ram.store (dest + n) [ram.content (src + n)]) := by
      rw [unread]
      exact copied.prepend (filled_store (dest + n) [start.content (src + n)] ram)
    have all := ih _ next
    rw [← append_assoc] at all
    rw [copyBackwards, slice_add]
    exact all

/-! ## Fills -/

theorem wordInMemory_repeated : ∀ c : U8,
    wordInMemory ((c.setWidth 64 * 0x0101010101010101 : U64).setWidth 32) = replicate 4 c := by
  decide

theorem wordInMemory_fillWord (c : U32) : wordInMemory (fillWord c) = replicate 4 (c.setWidth 8) :=
  wordInMemory_repeated (c.setWidth 8)

/-- The variables after `done` bytes were set. -/
structure Filling (s n : Nat) (byte : U8) (start : Ram) (done : Nat) (v : FillVars) : Prop where
  atP : v.p = s + done
  left : done + v.n = n
  set : Filled s (replicate done byte) start v.ram

theorem fillLoop_filling {s n done size : Nat} {byte : U8} {start : Ram} {v : FillVars}
    (positive : 0 < size) (filling : Filling s n byte start done v) :
    ∃ later, Filling s n byte start later (fillLoop (replicate size byte) v) ∧
      (fillLoop (replicate size byte) v).n < size := by
  fun_induction fillLoop (replicate size byte) v generalizing done with
  | case1 v more ih =>
    rw [length_replicate] at ih more ⊢
    apply ih
    exact {
      atP := by rw [filling.atP, add_assoc]
      left := by
        have left := filling.left
        show done + size + (v.n - size) = n
        omega
      set := by
        have stored := filled_store v.p (replicate size byte) v.ram
        rw [filling.atP] at stored ⊢
        rw [← replicate_append_replicate]
        exact filling.set.append (by rwa [length_replicate]) }
  | case2 v stops =>
    rw [length_replicate] at stops
    exact ⟨done, filling, by omega⟩

theorem memset_filled (s : Nat) (c n : U32) (ram : Ram) :
    Filled s (replicate n.toNat (c.setWidth 8)) ram (memset s c n ram) := by
  have start : Filling s n.toNat (c.setWidth 8) ram 0 { p := s, n := n.toNat, ram } := {
    atP := rfl
    left := zero_add _
    set := filled_nil s ram }
  obtain ⟨words, afterWords⟩ : ∃ words, Filling s n.toNat (c.setWidth 8) ram words
      (fillAligned c { p := s, n := n.toNat, ram }) := by
    rw [fillAligned, wordInMemory_fillWord]
    split
    · obtain ⟨words, afterWords, -⟩ := fillLoop_filling (show 0 < 4 by decide) start
      exact ⟨words, afterWords⟩
    · exact ⟨0, start⟩
  obtain ⟨all, filling, none⟩ := fillLoop_filling one_pos afterWords
  have left := filling.left
  have isAll : all = n.toNat := by omega
  rw [isAll] at filling
  exact filling.set

/-! ## What the functions do -/

/-- These bytes, and no others, have this value afterwards. -/
def SetsBytes (s n : Nat) (byte : U8) (before after : Ram) : Prop :=
  (∀ i < n, after.content (s + i) = byte) ∧
    ∀ address, address < s ∨ s + n ≤ address → after.content address = before.content address

/-- The destination holds what the source held before, and no other byte is changed. -/
def MovesBytes (dest src n : Nat) (before after : Ram) : Prop :=
  (∀ i < n, after.content (dest + i) = before.content (src + i)) ∧
    ∀ address, address < dest ∨ dest + n ≤ address →
      after.content address = before.content address

theorem movesBytes_of_filled {dest src n : Nat} {before after : Ram}
    (filled : Filled dest (slice before.content src n) before after) :
    MovesBytes dest src n before after := by
  constructor
  · intro i inside
    exact filled.content_inside (getElem?_slice before.content src inside)
  · intro address outside
    apply filled.content_outside
    rwa [length_slice]

theorem memmove_moves (dest src : Nat) (n : U32) (ram : Ram) :
    MovesBytes dest src n.toNat ram (memmove dest src n ram) := by
  rw [memmove]
  split
  · rename_i same
    rw [same]
    exact ⟨fun _ _ => rfl, fun _ _ => rfl⟩
  · split
    · rename_i below
      exact movesBytes_of_filled (memcpy_filled (.inl (le_of_lt below)) ram)
    · rename_i _ notBelow
      have filled := copyBackwards_filled (Nat.le_of_not_lt notBelow) n.toNat []
        (filled_nil (dest + n.toNat) ram)
      rw [append_nil] at filled
      exact movesBytes_of_filled filled

/-- `memset` sets its range, `memcpy` copies ranges that do not overlap and `memmove` any
ranges, and none of them changes another byte. -/
theorem memoryPrimitives_correct (ram : Ram) (dest src : Nat) (c n : U32) :
    SetsBytes dest n.toNat (c.setWidth 8) ram (memset dest c n ram) ∧
      (dest + n.toNat ≤ src ∨ src + n.toNat ≤ dest →
        MovesBytes dest src n.toNat ram (memcpy dest src n ram)) ∧
      MovesBytes dest src n.toNat ram (memmove dest src n ram) := by
  have set := memset_filled dest c n ram
  refine ⟨⟨?_, ?_⟩, ?_, memmove_moves dest src n ram⟩
  · intro i inside
    exact set.content_inside (getElem?_replicate_of_lt inside)
  · intro address outside
    apply set.content_outside
    rwa [length_replicate]
  · intro apart
    exact movesBytes_of_filled (memcpy_filled (apart.imp_left (by omega)) ram)

/-- Four bytes to the address 0. -/
theorem fourBytes_copied :
    MovesBytes 0 4 (4 : U32).toNat (.fresh fun address => .ofNat 8 address)
      (memcpy 0 4 4 (.fresh fun address => .ofNat 8 address)) :=
  (memoryPrimitives_correct (.fresh fun address => .ofNat 8 address) 0 4 0 4).2.1
    (.inl (by decide))

end XKern.Libkern
