import Mathlib.Data.List.DropRight
import XKern.MemoryCopy
import XKern.Ramfs

namespace XKern

open List Option Slices

/-!
# The class `RamFS`

Model of `add`, `lookup` and `remove` in `bsd/fs/ramfs/src/ramfs.cpp`, for names below 63
characters, which are copied whole; `sanitize_name` is `storedName`.  The block copy in
`remove` runs forward to lower addresses, so that it closes the gap: `closeGap_holds`.
-/

/-- `RAMFS_MAX_ENTRIES`. -/
def ramfsMaxEntries : Nat := 128

/-- `m_files` and `m_count`, the length. -/
structure RamFS (Data : Type) where
  files : List (RamfsFile Data)
  bounded : files.length ≤ ramfsMaxEntries

/-- A name that is passed to a call. -/
abbrev ShortName := { name : List U8 // name.length < ramfsNameMax - 1 }

/-- The name as `sanitize_name` leaves it. -/
def ShortName.stored (name : ShortName) : RamfsName :=
  ⟨storedName name.val, lt_of_le_of_lt (length_storedName_le _) name.property⟩

namespace RamFS

variable {Data : Type}

/-- `klibc.strcmp(m_files[i].name, p) == 0`, for a path behind its slashes. -/
def hasName (path : List U8) (file : RamfsFile Data) : Bool :=
  file.name.chars = skipSlashes path

/-- `RamFS::lookup`. -/
def lookup (fs : RamFS Data) (path : List U8) : Option (RamfsFile Data) :=
  fs.files.find? (hasName path)

theorem append_bounded {fs : RamFS Data} (room : fs.files.length < ramfsMaxEntries)
    (file : RamfsFile Data) : (fs.files ++ [file]).length ≤ ramfsMaxEntries := by
  rw [length_append, length_singleton]
  exact room

/-- `RamFS::add`. -/
def add (fs : RamFS Data) (name : ShortName) (data : Data) : Int × RamFS Data :=
  if room : fs.files.length < ramfsMaxEntries then
    (0, ⟨fs.files ++ [⟨name.stored, data⟩], append_bounded room _⟩)
  else
    (-1, fs)

/-- `RamFS::remove`. -/
def remove (fs : RamFS Data) (name : ShortName) : Int × RamFS Data :=
  match fs.files.findIdx? (hasName name.val) with
  | none => (-1, fs)
  | some i => (0, ⟨fs.files.eraseIdx i, (eraseIdx_sublist _ _).length_le.trans fs.bounded⟩)

/-! ## The block copy -/

/-- Memory holds the entries of a table from `base` on. -/
def HoldsTable {Entry : Type} (encode : Entry → List U8) (size base : Nat) (table : List Entry)
    (ram : Libkern.Ram) : Prop :=
  ∀ j entry, table[j]? = some entry → slice ram.content (base + j * size) size = encode entry

/-- The overlapping `memcpy` of `remove` moves the entries behind the removed one down. -/
theorem closeGap_holds {Entry : Type} {encode : Entry → List U8} {size base i : Nat}
    {table : List Entry} {ram : Libkern.Ram} (holds : HoldsTable encode size base table ram)
    (inside : i < table.length) {n : U32} (count : n.toNat = size * (table.length - 1 - i)) :
    HoldsTable encode size base (table.eraseIdx i)
      (Libkern.memcpy (base + i * size) (base + (i + 1) * size) n ram) := by
  have filled := Libkern.memcpy_filled
    (.inl (by rw [Nat.succ_mul]; omega) :
      Libkern.ReadsAhead (base + i * size) (base + (i + 1) * size) n.toNat) ram
  intro j entry isEntry
  rw [getElem?_eraseIdx] at isEntry
  split at isEntry
  · rename_i before
    rw [← holds j entry isEntry]
    have ends : (j + 1) * size ≤ i * size := Nat.mul_le_mul_right size before
    rw [Nat.succ_mul] at ends
    refine slice_congr fun k small => filled.content_outside (.inl ?_)
    omega
  · rename_i behind
    obtain ⟨d, rfl⟩ := Nat.exists_eq_add_of_le (Nat.le_of_not_lt behind)
    rw [← holds (i + d + 1) entry isEntry]
    have last : (d + 1) * size ≤ n.toNat := by
      have bound := (List.getElem?_eq_some_iff.mp isEntry).1
      rw [count, Nat.mul_comm size]
      exact Nat.mul_le_mul_right size (by omega)
    refine slice_congr fun k small => ?_
    have moved := filled.content_inside
      (getElem?_slice ram.content (base + (i + 1) * size) (i := d * size + k)
        (by rw [Nat.succ_mul] at last; omega))
    rw [show base + (i + d) * size + k = base + i * size + (d * size + k) by ring, moved]
    congr 1
    ring

/-! ## The laws of a map -/

/-- A call that changes the table. -/
inductive Call (Data : Type) where
  | add (name : ShortName) (data : Data)
  | remove (name : ShortName)

/-- Names that are stored under another path are found as before. -/
def Unaffected (before after : RamFS Data) (name : ShortName) : Prop :=
  ∀ other, storedName other ≠ storedName name.val → after.lookup other = before.lookup other

/-- What a call does on a finite map. -/
def Lawful (fs : RamFS Data) : Call Data → Prop
  | .add name data =>
      ((fs.add name data).1 = 0 →
        ((fs.add name data).2.lookup name.val).map RamfsFile.data = some data) ∧
      Unaffected fs (fs.add name data).2 name
  | .remove name =>
      ((fs.remove name).1 = 0 ↔ (fs.lookup name.val).isSome) ∧
      ((fs.remove name).1 = 0 → (fs.remove name).2.lookup name.val = none) ∧
      Unaffected fs (fs.remove name).2 name

/--
The name that is added is looked up as it is stored, and it is new or has this data; no file
of the name that is removed stands behind the first one.
-/
def Unambiguous (fs : RamFS Data) : Call Data → Prop
  | .add name data =>
      fs.files.length = ramfsMaxEntries ∨
        ((fs.lookup name.val = none ∧ storedName name.val = skipSlashes name.val ∨
            (fs.lookup name.val).map RamfsFile.data = some data) ∧
          (storedName (storedName name.val) = storedName name.val ∨
            (fs.lookup (storedName name.val)).isSome))
  | .remove name => fs.files.countP (hasName name.val) ≤ 1

/-- The table after a call. -/
def step (fs : RamFS Data) : Call Data → RamFS Data
  | .add name data => (fs.add name data).2
  | .remove name => (fs.remove name).2

/-- Every call of a sequence has a property in the table that it is made on. -/
def Each (property : RamFS Data → Call Data → Prop) (fs : RamFS Data) : List (Call Data) → Prop
  | [] => True
  | call :: calls => property fs call ∧ (fs.step call).Each property calls

theorem skipSlashes_skipSlashes (path : List U8) :
    skipSlashes (skipSlashes path) = skipSlashes path :=
  dropWhile_idempotent (· = slash) path

theorem storedName_skipSlashes (path : List U8) :
    storedName (skipSlashes path) = storedName path := by
  rw [storedName, skipSlashes_skipSlashes, ← storedName]

section Add

variable {fs : RamFS Data} (room : fs.files.length < ramfsMaxEntries) (name : ShortName)
  (data : Data)

include room

theorem lookup_add (path : List U8) : (fs.add name data).2.lookup path =
      (fs.lookup path).or
        (if storedName name.val = skipSlashes path then some ⟨name.stored, data⟩ else none) := by
  rw [add, dif_pos room, lookup, lookup, find?_append, find?_singleton]
  by_cases same : storedName name.val = skipSlashes path
  · simp [hasName, ShortName.stored, same]
  · simp [hasName, ShortName.stored, same]

theorem lookup_added_iff :
    ((fs.add name data).2.lookup name.val).map RamfsFile.data = some data ↔
      fs.lookup name.val = none ∧ storedName name.val = skipSlashes name.val ∨
        (fs.lookup name.val).map RamfsFile.data = some data := by
  rw [lookup_add room]
  cases fs.lookup name.val with
  | none => by_cases same : storedName name.val = skipSlashes name.val <;> simp [same]
  | some file => simp

theorem unaffected_add_iff : Unaffected fs (fs.add name data).2 name ↔
      storedName (storedName name.val) = storedName name.val ∨
        (fs.lookup (storedName name.val)).isSome := by
  have noSlash : skipSlashes (storedName name.val) = storedName name.val :=
    skipSlashes_skipSlashes _
  constructor
  · intro unaffected
    refine Classical.or_iff_not_imp_left.mpr fun changes => ?_
    have same := unaffected (storedName name.val) changes
    rw [lookup_add room, if_pos noSlash.symm] at same
    rw [← same]
    simp
  · intro condition other different
    rw [lookup_add room]
    split
    · rename_i found
      have stored : storedName other = storedName (storedName name.val) := by
        rw [found, storedName_skipSlashes]
      have sameLookup : fs.lookup other = fs.lookup (storedName name.val) := by
        rw [lookup, lookup]
        congr 1
        funext file
        rw [hasName, hasName, noSlash, found]
      rcases condition with fixed | isFile
      · exact absurd (stored.trans fixed) different
      · obtain ⟨file, isFile⟩ := isSome_iff_exists.mp isFile
        rw [sameLookup, isFile, some_or]
    · exact or_none

end Add

theorem find?_eraseP {Item : Type} {first second : Item → Bool} {items : List Item}
    (apart : ∀ item, first item = true → second item = false) :
    (items.eraseP first).find? second = items.find? second := by
  induction items with
  | nil => rfl
  | cons item items ih =>
    by_cases isFirst : first item = true
    · rw [eraseP_cons_of_pos isFirst, find?_cons_of_neg (by simp [apart item isFirst])]
    · rw [eraseP_cons_of_neg isFirst, find?_cons, find?_cons, ih]

theorem find?_eraseP_self {Item : Type} (test : Item → Bool) (items : List Item) :
    (items.eraseP test).find? test = none ↔ items.countP test ≤ 1 := by
  induction items with
  | nil => simp
  | cons item items ih =>
    by_cases holds : test item = true
    · rw [eraseP_cons_of_pos holds, countP_cons_of_pos holds, Nat.add_one_le_iff, Nat.lt_one_iff,
        countP_eq_zero, find?_eq_none]
    · rw [eraseP_cons_of_neg holds, countP_cons_of_neg holds, find?_cons_of_neg holds, ih]

theorem remove_of_find (fs : RamFS Data) (name : ShortName) :
    (fs.remove name).2.files = fs.files.eraseP (hasName name.val) ∧
      ((fs.remove name).1 = 0 ↔ (fs.lookup name.val).isSome) := by
  rw [lookup, find?_isSome, remove, eraseP_eq_eraseIdx]
  cases isFound : fs.files.findIdx? (hasName name.val) with
  | none => simpa using findIdx?_eq_none_iff.mp isFound
  | some i =>
    obtain ⟨inside, holds, -⟩ := findIdx?_eq_some_iff_getElem.mp isFound
    exact ⟨rfl, fun _ => ⟨_, getElem_mem inside, holds⟩, fun _ => rfl⟩

theorem lawful_remove_iff (fs : RamFS Data) (name : ShortName) :
    fs.Lawful (.remove name) ↔ fs.Unambiguous (.remove name) := by
  obtain ⟨files, returned⟩ := remove_of_find fs name
  have unaffected : Unaffected fs (fs.remove name).2 name := by
    intro other different
    rw [lookup, files]
    refine find?_eraseP fun file isRemoved => ?_
    simp only [hasName, decide_eq_true_eq, decide_eq_false_iff_not] at isRemoved ⊢
    intro same
    rw [isRemoved] at same
    exact different (by rw [← storedName_skipSlashes, ← same, storedName_skipSlashes])
  have gone : (fs.remove name).2.lookup name.val = none ↔
      fs.files.countP (hasName name.val) ≤ 1 := by
    rw [lookup, files, find?_eraseP_self]
  rw [Lawful, Unambiguous, ← gone]
  refine ⟨fun lawful => ?_, fun isGone => ⟨returned, fun _ => isGone, unaffected⟩⟩
  by_cases succeeds : (fs.remove name).1 = 0
  · exact lawful.2.1 succeeds
  · rw [returned, not_isSome_iff_eq_none, lookup, find?_eq_none] at succeeds
    rw [gone, countP_eq_zero.mpr succeeds]
    exact Nat.zero_le _

theorem lawful_iff (fs : RamFS Data) (call : Call Data) :
    fs.Lawful call ↔ fs.Unambiguous call := by
  cases call with
  | remove name => exact lawful_remove_iff fs name
  | add name data =>
    rw [Lawful, Unambiguous]
    by_cases room : fs.files.length < ramfsMaxEntries
    · have returned : (fs.add name data).1 = 0 := by
        rw [add, dif_pos room]
      simp only [returned, true_imp_iff, ne_of_lt room, false_or]
      rw [lookup_added_iff room, unaffected_add_iff room]
    · have same : fs.add name data = (-1, fs) := dif_neg room
      have isFull : fs.files.length = ramfsMaxEntries :=
        le_antisymm fs.bounded (Nat.le_of_not_lt room)
      simp [same, isFull, Unaffected]

/-- The calls of a sequence do what they do on a finite map just when the table is never
ambiguous for the next one. -/
theorem ramFS_lawful_iff (fs : RamFS Data) (calls : List (Call Data)) :
    fs.Each Lawful calls ↔ fs.Each Unambiguous calls := by
  induction calls generalizing fs with
  | nil => rfl
  | cons call calls ih => exact and_congr (lawful_iff fs call) (ih (fs.step call))

/-- The table with one file `a`. -/
def letterFS : RamFS Nat :=
  ⟨[⟨⟨[0x61], letterName_fits⟩, 1⟩], by decide⟩

/-- A second file `a` is added, and the first one is found. -/
theorem secondFile_hidden :
    (letterFS.add ⟨[0x61], by decide⟩ 2).1 = 0 ∧
      ¬ letterFS.Each Lawful [.add ⟨[0x61], by decide⟩ 2] :=
  ⟨rfl, fun lawful => absurd (lawful.1.1 rfl) (by decide)⟩

end RamFS

end XKern
