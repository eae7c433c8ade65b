import XKern.Pmm

namespace XKern

open List

/-!
# The file table of the initial ramdisk

Model of `ramfs_add` and `ramfs_lookup` in `bsd/fs/ramfs/src/compat.cpp`.
Strings are lists of characters as far as their terminator.  What `data` and
`size` of a file stand for is left open here: the unpacker stores a range of
the archive there, and the loader reads an image.
-/

/-- `RAMFS_MAX_FILES`. -/
def ramfsMaxFiles : Nat := 32

/-- `RAMFS_NAME_MAX`. -/
def ramfsNameMax : Nat := 64

/-- A name in the table, cut at its limit. -/
structure RamfsName where
  chars : List U8
  fits : chars.length < ramfsNameMax - 1
  deriving DecidableEq

/-- `struct ramfs_file`. -/
structure RamfsFile (Data : Type) where
  name : RamfsName
  data : Data
  deriving DecidableEq

/-- `struct ramfs`; `count` is the length. -/
structure Ramfs (Data : Type) where
  files : List (RamfsFile Data)
  bounded : files.length ≤ ramfsMaxFiles

/-- `count = 0`. -/
def Ramfs.empty (Data : Type) : Ramfs Data where
  files := []
  bounded := Nat.zero_le _

theorem singleFile_bounded {Data : Type} (file : RamfsFile Data) : [file].length ≤ ramfsMaxFiles :=
  Nat.succ_le_of_lt (by decide : 0 < ramfsMaxFiles)

def Ramfs.single {Data : Type} (file : RamfsFile Data) : Ramfs Data where
  files := [file]
  bounded := singleFile_bounded file

theorem letterName_fits : ([0x61] : List U8).length < ramfsNameMax - 1 := by
  decide

/-- The character `/`. -/
def slash : U8 := 0x2F

/-- The character `.`. -/
def dot : U8 := 0x2E

/-- `while (*p == '/') p++`. -/
def skipSlashes (path : List U8) : List U8 :=
  path.dropWhile (· = slash)

/-- `while (p[0] == '.' && p[1] == '/') p += 2`. -/
def skipDotSlashes : List U8 → List U8
  | first :: second :: rest =>
      if first = dot ∧ second = slash then
        skipDotSlashes rest
      else
        first :: second :: rest
  | path => path

/-- The name under which `ramfs_add` stores a file. -/
def storedName (name : List U8) : List U8 :=
  skipSlashes (skipDotSlashes (skipSlashes name))

section Table

variable {Data : Type}

/--
`ramfs_add`.  A full table is left as it is.  `none` is the runaway copy of a
name that does not fit, as in `copyName`.
-/
def ramfsAdd (fs : Ramfs Data) (name : List U8) (data : Data) :
    Option (Ramfs Data) :=
  if room : fs.files.length < ramfsMaxFiles then
    if fits : (storedName name).length < ramfsNameMax - 1 then
      some {
        files := fs.files ++ [{ name := ⟨storedName name, fits⟩, data }]
        bounded := by
          rw [length_append, length_singleton]
          exact room }
    else
      none
  else
    some fs

/-- `ramfs_lookup`: the first file of that name. -/
def ramfsLookup (fs : Ramfs Data) (path : List U8) : Option (RamfsFile Data) :=
  fs.files.find? fun file => file.name.chars = skipSlashes path

def Ramfs.entries (fs : Ramfs Data) : List (List U8 × Data) :=
  fs.files.map fun file => (file.name.chars, file.data)

end Table

theorem length_skipDotSlashes_le (path : List U8) : (skipDotSlashes path).length ≤ path.length := by
  induction path using skipDotSlashes.induct with
  | case1 first second rest prefixed ih =>
    rw [skipDotSlashes, if_pos prefixed, length_cons, length_cons]
    omega
  | case2 first second rest other =>
    rw [skipDotSlashes, if_neg other]
  | case3 path short =>
    rw [skipDotSlashes]
    exact short

theorem length_storedName_le (name : List U8) : (storedName name).length ≤ name.length := by
  calc
    (storedName name).length ≤ (skipDotSlashes (skipSlashes name)).length :=
      (dropWhile_sublist _).length_le
    _ ≤ (skipSlashes name).length := length_skipDotSlashes_le _
    _ ≤ name.length := (dropWhile_sublist _).length_le

section Entries

variable {Data : Type} (fs : Ramfs Data)

theorem ramfsAdd_entries {name : List U8} (fits : name.length < ramfsNameMax - 1) (data : Data) :
    ∃ after, ramfsAdd fs name data = some after ∧ after.entries =
        (fs.entries ++ [(storedName name, data)]).take ramfsMaxFiles := by
  have shorter := length_storedName_le name
  have count : fs.entries.length = fs.files.length := length_map _
  by_cases room : fs.files.length < ramfsMaxFiles
  · refine ⟨_, by rw [ramfsAdd, dif_pos room, dif_pos (by omega)], ?_⟩
    rw [take_of_length_le (by simpa [count] using room)]
    simp [Ramfs.entries]
  · have bounded := fs.bounded
    refine ⟨fs, by rw [ramfsAdd, dif_neg room], ?_⟩
    rw [take_append_of_le_length (by omega), take_of_length_le (by omega)]

theorem Ramfs.entries_injective : Function.Injective (@Ramfs.entries Data) := by
  rintro ⟨files, _⟩ ⟨others, _⟩ same
  have sameFiles : files = others := by
    apply map_injective_iff.mpr _ same
    rintro ⟨⟨chars, _⟩, data⟩ ⟨⟨otherChars, _⟩, otherData⟩ sameEntry
    cases sameEntry
    rfl
  cases sameFiles
  rfl

end Entries

end XKern
