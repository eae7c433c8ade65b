import Mathlib.Logic.Relation
import XKern.Ext3Checked
import XKern.FaultTriple

namespace XKern

open Slices FaultTriple List BitVec

/-!
# Directories of an ext3 file system

Model of `bsd/ext3/src/dir.cpp`.  A directory is read into one frame; the loads of
the entry walks are checked against the bytes that were read, and the walks run on
fuel, so that a load outside and a walk without an end are faults.
-/

/-- `i_mode`. -/
def Inode.mode (inode : Inode) : U16 :=
  (littleEndian (inode.raw.take 2)).setWidth 16

/-- `Inode::is_dir`. -/
def Inode.isDir (inode : Inode) : Bool :=
  inode.mode &&& 0xF000 = 0x4000

/-- `m_data`: the frame, and the bytes that were read into it. -/
structure DirectoryData where
  addr : U64
  bytes : List U8

/-- `class Directory`. -/
structure Directory where
  data : Option DirectoryData
  size : U32
  entryCount : U32

/-- `Directory::Directory`. -/
def Directory.new : Directory where
  data := none
  size := 0
  entryCount := 0

/-- What `Directory::free` does to the frames; it leaves the directory as a new one. -/
def Directory.free (dir : Directory) (pmm : Pmm) : Pmm :=
  match dir.data with
  | some data => pmmFree pmm data.addr
  | none => pmm

/-! ## Entries -/

/-- A field of an entry, little endian. -/
def entryField (data : List U8) (offset width : Nat) : U32 :=
  littleEndian ((data.drop offset).take width)

/-- `de->inode`. -/
def entryInode (data : List U8) (pos : Nat) : U32 := entryField data pos 4

/-- `de->rec_len`. -/
def entryRecLen (data : List U8) (pos : Nat) : U32 := entryField data (pos + 4) 2

/-- `de->name_len`. -/
def entryNameLen (data : List U8) (pos : Nat) : U32 := entryField data (pos + 6) 1

/-- A load of `width` bytes of the directory. -/
def loadAt (data : List U8) (offset width : Nat) : Except Ext3Fault (List U8) :=
  if offset + width ≤ data.length then
    .ok ((data.drop offset).take width)
  else
    .error .directoryData

def loadField (data : List U8) (offset width : Nat) : Except Ext3Fault U32 :=
  (loadAt data offset width).map littleEndian

/-- The loop of `Directory::read` that counts the entries. -/
def countEntries (data : List U8) (limit : U32) : Nat → U32 → U32 → Except Ext3Fault U32
  | 0, _, _ => .error .endless
  | fuel + 1, pos, count =>
      if pos < limit then do
        let inode ← loadField data pos.toNat 4
        let recLen ← loadField data (pos.toNat + 4) 2
        if inode = 0 ∧ recLen = 0 then
          return count
        else if recLen = 0 then
          return count
        else
          countEntries data limit fuel (pos + recLen) (count + 1)
      else
        .ok count

/-- `strncmp(de->name, name, name_len) == 0`, for the bytes of a name. -/
def nameMatches (data : List U8) : Nat → List U8 → Except Ext3Fault Bool
  | _, [] => .ok true
  | offset, char :: rest => do
      let stored ← loadAt data offset 1
      if stored ≠ [char] then
        return false
      else if char = 0 then
        return true
      else
        nameMatches data (offset + 1) rest

/-- The comparison of `Directory::lookup` with the name of an entry. -/
def sameName (data : List U8) (pos : Nat) (name : List U8) : Except Ext3Fault Bool := do
  let nameLen ← loadField data (pos + 6) 1
  if nameLen = .ofNat 32 name.length then
    nameMatches data (pos + 8) (name.take nameLen.toNat)
  else
    return false

/-- The loop of `Directory::lookup`; `none` is the result -1. -/
def lookupLoop (data : List U8) (size : U32) (name : List U8) :
    Nat → U32 → Except Ext3Fault (Option U32)
  | 0, _ => .error .endless
  | fuel + 1, pos =>
      if pos < size then do
        let inode ← loadField data pos.toNat 4
        if inode = 0 then
          let recLen ← loadField data (pos.toNat + 4) 2
          if recLen = 0 then
            return none
          else
            lookupLoop data size name fuel (pos + recLen)
        else
          let isSame ← sameName data pos.toNat name
          if isSame then
            return some inode
          else
            let recLen ← loadField data (pos.toNat + 4) 2
            if recLen = 0 then
              return none
            else
              lookupLoop data size name fuel (pos + recLen)
      else
        .ok none

/-- `Directory::lookup`, for pointers that are not null. -/
def Directory.lookup (dir : Directory) (name : List U8) : Except Ext3Fault (Option U32) :=
  match dir.data with
  | none => .ok none
  | some data => lookupLoop data.bytes dir.size name (dir.size.toNat + 1) 0

/-- `struct DirEntry`. -/
structure DirEntry where
  inode : U32
  recLen : U32
  nameLen : U32
  fileType : U32
  name : List U8
  deriving DecidableEq

/-- `EXT3_NAME_LEN`. -/
def ext3NameLen : U32 := 255

/-- The entry that `Directory::get_entry` copies. -/
def copyEntry (data : List U8) (pos : Nat) (inode : U32) : Except Ext3Fault DirEntry := do
  let recLen ← loadField data (pos + 4) 2
  let nameLen ← loadField data (pos + 6) 1
  let fileType ← loadField data (pos + 7) 1
  let copyLen := if nameLen > ext3NameLen then ext3NameLen else nameLen
  let name ← loadAt data (pos + 8) copyLen.toNat
  return ⟨inode, recLen, nameLen, fileType, name⟩

/-- The loop of `Directory::get_entry`; `none` is the result -1. -/
def getEntryLoop (data : List U8) (size : U32) (index : U32) :
    Nat → U32 → U32 → Except Ext3Fault (Option DirEntry)
  | 0, _, _ => .error .endless
  | fuel + 1, pos, i =>
      if pos < size then do
        let inode ← loadField data pos.toNat 4
        if inode = 0 then
          let recLen ← loadField data (pos.toNat + 4) 2
          if recLen = 0 then
            return none
          else
            getEntryLoop data size index fuel (pos + recLen) i
        else if i = index then
          let entry ← copyEntry data pos.toNat inode
          return some entry
        else
          let recLen ← loadField data (pos.toNat + 4) 2
          if recLen = 0 then
            return none
          else
            getEntryLoop data size index fuel (pos + recLen) (i + 1)
      else
        .ok none

/-- `Directory::get_entry`, for a pointer that is not null. -/
def Directory.getEntry (dir : Directory) (index : U32) : Except Ext3Fault (Option DirEntry) :=
  match dir.data with
  | none => .ok none
  | some data => getEntryLoop data.bytes dir.size index (dir.size.toNat + 1) 0 0

/-! ## The walks -/

theorem littleEndian_lt (bytes : List U8) :
    (littleEndian bytes).toNat < 2 ^ (8 * bytes.length) := by
  induction bytes with
  | nil => decide
  | cons byte bytes ih =>
    have first : byte.toNat < 2 ^ 8 := byte.isLt
    have wider : 2 ^ 8 ≤ 2 ^ (8 * (byte :: bytes).length) :=
      Nat.pow_le_pow_right (by decide) (by rw [length_cons]; omega)
    have shifted : (littleEndian bytes).toNat <<< 8 % 2 ^ 32 <
        2 ^ (8 * (byte :: bytes).length) := by
      have power : 2 ^ (8 * (byte :: bytes).length) = 2 ^ (8 * bytes.length) * 2 ^ 8 := by
        rw [length_cons, Nat.mul_add, Nat.pow_add]
      have le := Nat.mod_le ((littleEndian bytes).toNat <<< 8) (2 ^ 32)
      rw [Nat.shiftLeft_eq] at le ⊢
      omega
    rw [littleEndian, foldr_cons, ← littleEndian, toNat_or, toNat_shiftLeft, toNat_setWidth]
    exact Nat.or_lt_two_pow shifted ((Nat.mod_le _ _).trans_lt (first.trans_le wider))

section Walks

variable {data : List U8}

theorem toNat_entryRecLen_lt (data : List U8) (pos : Nat) :
    (entryRecLen data pos).toNat < 2 ^ 16 := by
  refine (littleEndian_lt _).trans_le (Nat.pow_le_pow_right (by decide) ?_)
  rw [length_take]
  omega

theorem toNat_entryNameLen_lt (data : List U8) (pos : Nat) :
    (entryNameLen data pos).toNat < 2 ^ 8 := by
  refine (littleEndian_lt _).trans_le (Nat.pow_le_pow_right (by decide) ?_)
  rw [length_take]
  omega

variable {offset fuel : Nat} {pos : U32}

theorem loadField_of_le {width : Nat} (inside : offset + width ≤ data.length) :
    loadField data offset width = .ok (entryField data offset width) := by
  rw [loadField, loadAt, if_pos inside]
  rfl

theorem loadField_of_not_le {width : Nat} (outside : ¬ offset + width ≤ data.length) :
    loadField data offset width = .error .directoryData := by
  rw [loadField, loadAt, if_neg outside]
  rfl

/-- The walks go from one entry to the next. -/
def NextEntry (data : List U8) (pos next : Nat) : Prop :=
  pos < data.length ∧ entryRecLen data pos ≠ 0 ∧ next = pos + (entryRecLen data pos).toNat

/-- The walks get to this offset. -/
def IsEntry (data : List U8) : Nat → Prop :=
  Relation.ReflTransGen (NextEntry data) 0

/-- What the walks load of an entry lies in the directory. -/
structure EntryFits (data : List U8) (pos : Nat) : Prop where
  header : pos + 6 ≤ data.length
  name : entryInode data pos ≠ 0 → pos + 8 + (entryNameLen data pos).toNat ≤ data.length

/-- All entries of the chain of record lengths lie in the directory. -/
def EntriesFit (data : List U8) : Prop :=
  ∀ pos, IsEntry data pos → pos < data.length → EntryFits data pos

theorem countEntries_entry {limit : U32} (inside : pos < limit)
    (header : pos.toNat + 6 ≤ data.length) (fuel : Nat) (count : U32) :
    countEntries data limit (fuel + 1) pos count = if entryRecLen data pos.toNat = 0 then .ok count
      else countEntries data limit fuel (pos + entryRecLen data pos.toNat) (count + 1) := by
  rw [countEntries, if_pos inside, loadField_of_le (by omega), loadField_of_le (by omega),
    ok_bind, ok_bind, ← entryRecLen]
  by_cases last : entryRecLen data pos.toNat = 0
  · rw [if_pos last, if_pos last]
    exact ite_self _
  · rw [if_neg last, if_neg last, if_neg fun both => last both.2]

variable {size : U32} (sized : size.toNat = data.length) (small : data.length ≤ 4096)

include small in
theorem toNat_next (inside : pos.toNat < data.length) :
    (pos + entryRecLen data pos.toNat).toNat = pos.toNat + (entryRecLen data pos.toNat).toNat := by
  have bounded := toNat_entryRecLen_lt data pos.toNat
  rw [toNat_add, Nat.mod_eq_of_lt (by omega)]

theorem nextEntry {pos : Nat} (inside : pos < data.length) (more : entryRecLen data pos ≠ 0) :
    NextEntry data pos (pos + (entryRecLen data pos).toNat) :=
  ⟨inside, more, rfl⟩

include sized in
theorem lt_size_iff : pos < size ↔ pos.toNat < data.length := by
  rw [lt_def, sized]

include sized small

/-- Counting goes through when the headers of all entries lie in the directory. -/
theorem countEntries_ok (enough : data.length - pos.toNat < fuel)
    (headers : ∀ place, Relation.ReflTransGen (NextEntry data) pos.toNat place →
      place < data.length → place + 6 ≤ data.length) (count : U32) :
    ∃ total, countEntries data size fuel pos count = .ok total := by
  induction fuel generalizing pos count with
  | zero => omega
  | succ fuel ih =>
    by_cases inside : pos < size
    · have inData := (lt_size_iff sized).mp inside
      rw [countEntries_entry inside (headers _ .refl inData)]
      by_cases last : entryRecLen data pos.toNat = 0
      · exact ⟨count, if_pos last⟩
      · have next := toNat_next small inData
        have moves := toNat_pos last
        rw [if_neg last]
        refine ih (by omega) (fun place reached => ?_) _
        rw [next] at reached
        exact headers place (.head (nextEntry inData last) reached)
    · rw [countEntries, if_neg inside]
      exact ⟨count, rfl⟩

theorem headers_of_countEntries {count total : U32}
    (counted : countEntries data size fuel pos count = .ok total) {place : Nat}
    (reached : Relation.ReflTransGen (NextEntry data) pos.toNat place)
    (inData : place < data.length) :
    place + 6 ≤ data.length := by
  induction fuel generalizing pos count with
  | zero => cases counted
  | succ fuel ih =>
    have header (inside : pos.toNat < data.length) : pos.toNat + 6 ≤ data.length := by
      by_contra short
      rw [countEntries, if_pos ((lt_size_iff sized).mpr inside)] at counted
      obtain ⟨inode, -, counted⟩ := result_bind_eq_ok_iff.mp counted
      rw [loadField_of_not_le (by omega)] at counted
      cases counted
    obtain same | ⟨next, ⟨inside, more, rfl⟩, rest⟩ := reached.cases_head
    · rw [← same] at inData ⊢
      exact header inData
    · rw [countEntries_entry ((lt_size_iff sized).mpr inside) (header inside), if_neg more]
        at counted
      rw [← toNat_next small inside] at rest
      exact ih counted rest

omit sized small in
theorem nameMatches_ok {name : List U8} (inside : offset + name.length ≤ data.length) :
    ∃ isSame, nameMatches data offset name = .ok isSame := by
  induction name generalizing offset with
  | nil => exact ⟨true, rfl⟩
  | cons char rest ih =>
    rw [length_cons] at inside
    rw [nameMatches, loadAt, if_pos (by omega), ok_bind]
    split
    · exact ⟨false, rfl⟩
    · split
      · exact ⟨true, rfl⟩
      · exact ih (by omega)

omit sized small in
theorem sameName_ok {pos : Nat} (nameFits : pos + 8 + (entryNameLen data pos).toNat ≤ data.length)
    (name : List U8) :
    ∃ isSame, sameName data pos name = .ok isSame := by
  rw [sameName, loadField_of_le (by omega), ok_bind, ← entryNameLen]
  split
  · exact nameMatches_ok (by rw [length_take]; omega)
  · exact ⟨false, rfl⟩

omit sized small in
theorem lookupLoop_entry (inside : pos < size) (fits : EntryFits data pos.toNat) (name : List U8)
    (fuel : Nat) :
    (∃ found, lookupLoop data size name (fuel + 1) pos = .ok found) ∨
      (entryRecLen data pos.toNat ≠ 0 ∧ lookupLoop data size name (fuel + 1) pos =
        lookupLoop data size name fuel (pos + entryRecLen data pos.toNat)) := by
  have header := fits.header
  rw [lookupLoop, if_pos inside, loadField_of_le (by omega), ok_bind, ← entryInode,
    loadField_of_le (by omega : pos.toNat + 4 + 2 ≤ data.length), ← entryRecLen]
  by_cases free : entryInode data pos.toNat = 0
  · rw [if_pos free, ok_bind]
    by_cases last : entryRecLen data pos.toNat = 0
    · exact .inl ⟨none, if_pos last⟩
    · exact .inr ⟨last, if_neg last⟩
  · obtain ⟨isSame, compared⟩ := sameName_ok (fits.name free) name
    rw [if_neg free]
    rw [compared, ok_bind]
    by_cases found : isSame = true
    · exact .inl ⟨_, if_pos found⟩
    · rw [if_neg found, ok_bind]
      by_cases last : entryRecLen data pos.toNat = 0
      · exact .inl ⟨none, if_pos last⟩
      · exact .inr ⟨last, if_neg last⟩

theorem lookupLoop_ok (name : List U8) (enough : data.length - pos.toNat < fuel)
    (fits : ∀ place, Relation.ReflTransGen (NextEntry data) pos.toNat place →
      place < data.length → EntryFits data place) :
    ∃ found, lookupLoop data size name fuel pos = .ok found := by
  induction fuel generalizing pos with
  | zero => omega
  | succ fuel ih =>
    by_cases inside : pos < size
    · have inData := (lt_size_iff sized).mp inside
      obtain done | ⟨more, goesOn⟩ := lookupLoop_entry inside (fits _ .refl inData) name fuel
      · exact done
      · have next := toNat_next small inData
        have moves := toNat_pos more
        rw [goesOn]
        refine ih (by omega) fun place reached => ?_
        rw [next] at reached
        exact fits place (.head (nextEntry inData more) reached)
    · rw [lookupLoop, if_neg inside]
      exact ⟨none, rfl⟩

omit sized small in
theorem cut_entryNameLen (data : List U8) (pos : Nat) :
    (if entryNameLen data pos > ext3NameLen then ext3NameLen else entryNameLen data pos) =
      entryNameLen data pos := by
  have bounded := toNat_entryNameLen_lt data pos
  have limit : ext3NameLen.toNat = 255 := rfl
  rw [if_neg (by rw [gt_iff_lt, lt_def]; omega)]

omit sized small in
theorem copyEntry_ok {pos : Nat} (nameFits : pos + 8 + (entryNameLen data pos).toNat ≤ data.length)
    (inode : U32) :
    ∃ entry, copyEntry data pos inode = .ok entry := by
  rw [copyEntry, loadField_of_le (by omega), ok_bind, loadField_of_le (by omega), ok_bind,
    loadField_of_le (by omega), ok_bind, ← entryNameLen]
  dsimp only
  rw [cut_entryNameLen, loadAt, if_pos (by omega), ok_bind]
  exact ⟨_, rfl⟩

omit sized small in
theorem nameFits_of_copyEntry {pos : Nat} {inode : U32} {entry : DirEntry}
    (copied : copyEntry data pos inode = .ok entry) :
    pos + 8 + (entryNameLen data pos).toNat ≤ data.length := by
  obtain ⟨recLen, -, copied⟩ := result_bind_eq_ok_iff.mp copied
  obtain ⟨nameLen, isNameLen, copied⟩ := result_bind_eq_ok_iff.mp copied
  obtain ⟨fileType, -, copied⟩ := result_bind_eq_ok_iff.mp copied
  obtain ⟨name, isName, -⟩ := result_bind_eq_ok_iff.mp copied
  by_cases inside : pos + 6 + 1 ≤ data.length
  · rw [loadField_of_le inside, Except.ok.injEq, ← entryNameLen] at isNameLen
    rw [← isNameLen, cut_entryNameLen, loadAt] at isName
    split at isName
    · assumption
    · cases isName
  · rw [loadField_of_not_le inside] at isNameLen
    cases isNameLen

omit sized small in
theorem getEntryLoop_passes {i index : U32} (inside : pos < size)
    (header : pos.toNat + 6 ≤ data.length) (other : entryInode data pos.toNat = 0 ∨ i ≠ index)
    (fuel : Nat) :
    getEntryLoop data size index (fuel + 1) pos i = if entryRecLen data pos.toNat = 0 then .ok none
      else getEntryLoop data size index fuel (pos + entryRecLen data pos.toNat)
        (if entryInode data pos.toNat = 0 then i else i + 1) := by
  rw [getEntryLoop, if_pos inside, loadField_of_le (by omega), ok_bind, ← entryInode,
    loadField_of_le (by omega : pos.toNat + 4 + 2 ≤ data.length), ← entryRecLen]
  by_cases free : entryInode data pos.toNat = 0
  · rw [if_pos free, if_pos free, ok_bind]
    rfl
  · rw [if_neg free, if_neg free, if_neg (other.resolve_left free), ok_bind]
    rfl

omit sized small in
theorem getEntryLoop_found {index : U32} (inside : pos < size)
    (header : pos.toNat + 4 ≤ data.length) (used : entryInode data pos.toNat ≠ 0) (fuel : Nat) :
    getEntryLoop data size index (fuel + 1) pos index =
      (do return some (← copyEntry data pos.toNat (entryInode data pos.toNat))) := by
  rw [getEntryLoop, if_pos inside, loadField_of_le (by omega), ok_bind, ← entryInode,
    if_neg used, if_pos rfl]

theorem getEntryLoop_ok (index : U32) (enough : data.length - pos.toNat < fuel)
    (fits : ∀ place, Relation.ReflTransGen (NextEntry data) pos.toNat place →
      place < data.length → EntryFits data place) (i : U32) :
    ∃ found, getEntryLoop data size index fuel pos i = .ok found := by
  induction fuel generalizing pos i with
  | zero => omega
  | succ fuel ih =>
    by_cases inside : pos < size
    · have inData := (lt_size_iff sized).mp inside
      have entryFits := fits _ .refl inData
      have header := entryFits.header
      by_cases other : entryInode data pos.toNat = 0 ∨ i ≠ index
      · rw [getEntryLoop_passes inside header other]
        by_cases last : entryRecLen data pos.toNat = 0
        · exact ⟨none, if_pos last⟩
        · have next := toNat_next small inData
          have moves := toNat_pos last
          rw [if_neg last]
          refine ih (by omega) (fun place reached => ?_) _
          rw [next] at reached
          exact fits place (.head (nextEntry inData last) reached)
      · obtain ⟨used, same⟩ := not_or.mp other
        obtain ⟨entry, copied⟩ := copyEntry_ok (entryFits.name used) (entryInode data pos.toNat)
        rw [← not_not.mp same, getEntryLoop_found inside (by omega) used, copied]
        exact ⟨some entry, rfl⟩
    · rw [getEntryLoop, if_neg inside]
      exact ⟨none, rfl⟩

/-- When every index from some number on can be asked for, the names behind it fit. -/
theorem nameFits_of_getEntryLoop {i : U32} (few : i.toNat ≤ pos.toNat)
    (headers : ∀ place, Relation.ReflTransGen (NextEntry data) pos.toNat place →
      place < data.length → place + 6 ≤ data.length)
    (asked : ∀ index : U32, i.toNat ≤ index.toNat →
      ∃ found, getEntryLoop data size index fuel pos i = .ok found) {place : Nat}
    (reached : Relation.ReflTransGen (NextEntry data) pos.toNat place)
    (inData : place < data.length) (used : entryInode data place ≠ 0) :
    place + 8 + (entryNameLen data place).toNat ≤ data.length := by
  induction fuel generalizing pos i with
  | zero =>
    obtain ⟨found, isFound⟩ := asked i (le_refl _)
    cases isFound
  | succ fuel ih =>
    obtain same | ⟨next, ⟨inside, more, rfl⟩, rest⟩ := reached.cases_head
    · rw [← same] at inData used ⊢
      have header := headers _ .refl inData
      obtain ⟨found, isFound⟩ := asked i (le_refl _)
      rw [getEntryLoop_found ((lt_size_iff sized).mpr inData) (by omega) used] at isFound
      obtain ⟨entry, copied, -⟩ := result_bind_eq_ok_iff.mp isFound
      exact nameFits_of_copyEntry copied
    · have header := headers _ .refl inside
      have next := toNat_next small inside
      have moves := toNat_pos more
      have counted : (i + 1).toNat = i.toNat + 1 := by
        rw [toNat_add, show (1 : U32).toNat = 1 from rfl, Nat.mod_eq_of_lt (by omega)]
      have fewer : (if entryInode data pos.toNat = 0 then i else i + 1).toNat ≤
          (pos + entryRecLen data pos.toNat).toNat := by
        split
        · omega
        · omega
      refine ih fewer ?_ (fun index later => ?_) (next ▸ rest)
      · intro place reached
        rw [next] at reached
        exact headers place (.head (nextEntry inside more) reached)
      · have other : entryInode data pos.toNat = 0 ∨ i ≠ index := by
          by_cases free : entryInode data pos.toNat = 0
          · exact .inl free
          · rw [if_neg free, counted] at later
            exact .inr fun same => by rw [same] at later; omega
        have above : i.toNat ≤ index.toNat := by
          split at later
          · exact later
          · omega
        have answered := asked index above
        rw [getEntryLoop_passes ((lt_size_iff sized).mpr inside) header other, if_neg more]
          at answered
        exact answered

end Walks

/-! ## Reading a directory -/

section ReadDirectory

variable (disk : Disk) (sb : Superblock) (stale : U32 → Nat → U8)

/-- `Directory::read` behind `pmm_alloc`. -/
def fillDirectory (inode : Inode) (addr : U64) : EStateM Ext3Fault Pmm (Option Directory) := do
  let alloc := (inode.size + 4095) &&& ~~~4095
  if pageSize.toNat < alloc.toNat then
    throw .dataBuffer
  else
    let (bytes, data) ← lift (loadData disk sb.blockSize stale inode pageSize.toNat 0 inode.size)
    if bytes ≤ 0 then
      modify fun pmm => pmmFree pmm addr
      return none
    else
      let limit := BitVec.ofInt 32 bytes
      let count ← lift (countEntries data limit (limit.toNat + 1) 0 0)
      return some ⟨some ⟨addr, data⟩, inode.size, count⟩

/-- `Directory::read`; `none` is the result -1. -/
def readDirectory (dir : Directory) (inode : Inode) :
    EStateM Ext3Fault Pmm (Option Directory) := do
  modify dir.free
  if inode.isDir = false then
    return none
  else if inode.size = 0 then
    return some Directory.new
  else
    let addr ← modifyGet pmmAlloc
    if addr = 0 then
      return none
    else
      fillDirectory disk sb stale inode addr

end ReadDirectory

end XKern
