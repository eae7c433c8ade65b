import XKern.Ext3Paths
import XKern.Devfs
import XKern.Fs

namespace XKern

open FaultTriple List

/-!
# Directory readers

Model of `fs_getdents` in `bsd/kern/init_ram_getty/fs.c` with the two functions behind it,
of `devfs_vfs_getdents` in `bsd/devfs/devfs.c`, and of `FileSystem::getdents` once more,
now with the length of its copy.  `none` is a call that does not write to `name`.
-/

/-- The return value, and the characters of which the first `len` are copied to `name`. -/
structure Dent where
  result : Int
  chars : List U8
  len : U32

namespace Dent

/-- `if (len >= namelen) len = namelen - 1`, which wraps for a `namelen` of 0. -/
def cut (result : Int) (chars : List U8) (len namelen : U32) : Dent :=
  ⟨result, chars, if len ≥ namelen then namelen - 1 else len⟩

/-- The name that a reader of the entry sees. -/
def name (dent : Dent) : List U8 :=
  dent.chars.take dent.len.toNat

/-- The number of bytes written: the copy and the terminator. -/
def written (dent : Dent) : Nat :=
  dent.len.toNat + 1

end Dent

/-- `XKERN_DT_REG`. -/
def xkernDtReg : Int := 1

/-- `XKERN_DT_DIR`. -/
def xkernDtDir : Int := 2

/-! ## The readers -/

/-- `/proc`: the children are the pids of the tasks. -/
def pidChild (pids : List U32) (index namelen : U32) : Option Dent :=
  pids[index.toNat]?.map fun pid =>
    let tmp := (Nat.toDigits 10 pid.toNat).map fun digit => .ofNat 8 digit.toNat
    .cut xkernDtDir tmp (.ofNat 32 tmp.length) namelen

/-- `/proc/N`; the number of `parse_pid` is not used. -/
def statusChild (p : List U8) (index namelen : U32) : Option Dent :=
  let isDigit := fun (c : U8) => 0x30 ≤ c ∧ c ≤ 0x39
  let status : List U8 := [0x73, 0x74, 0x61, 0x74, 0x75, 0x73]
  if p.takeWhile isDigit ≠ [] ∧ p.dropWhile isDigit = slash :: status ∧ index = 0 ∧
      ¬ namelen < 7 then
    some ⟨xkernDtReg, status, 6⟩
  else
    none

/-- `procfs_child`, for a path that `is_procfs` accepts. -/
def procfsChild (pids : List U32) (path : List U8) (index namelen : U32) : Option Dent :=
  match (skipSlashes path).drop 4 with
  | [] => pidChild pids index namelen
  | c :: p =>
      if c ≠ slash then
        none
      else if p = [] then
        pidChild pids index namelen
      else
        statusChild p index namelen

/-- `n + plen`, if the name begins with the directory. -/
def behind (dir name : List U8) : Option (List U8) :=
  if dir = [] then
    some name
  else if name.take (dir.length + 1) = dir ++ [slash] then
    some (name.drop (dir.length + 1))
  else
    none

/--
The loop of `dir_child`, over what is behind the directory in the names that begin with
it; both loops pass over the others.  A name is a duplicate if its component is that of an
earlier one.
-/
def childLoop (want namelen : U32) : List (List U8) → List (List U8) → U32 → Option Dent
  | _, [], _ => none
  | earlier, child :: rest, seen =>
      if child = [] ∨ pathComponent child ∈ earlier.map pathComponent then
        childLoop want namelen (child :: earlier) rest seen
      else if seen + 1 = want then
        some (.cut (if slash ∈ child then xkernDtDir else xkernDtReg) child (segLen child) namelen)
      else
        childLoop want namelen (child :: earlier) rest (seen + 1)

section Readers

variable {Data Hook : Type}

/-- The parts of names behind the path. -/
def Ramfs.below (fs : Ramfs Data) (path : List U8) : List (List U8) :=
  fs.files.filterMap fun file => behind (skipSlashes path) file.name.chars

/-- `dir_child`. -/
def dirChild (fs : Ramfs Data) (dir : List U8) (index namelen : U32) : Option Dent :=
  if ramfsNameMax ≤ (skipSlashes dir).length then
    none
  else
    childLoop (index + 1) namelen [] (fs.below dir) 0

/-- `fs_getdents`. -/
def fsGetdents (pids : List U32) (fs : Ramfs Data) (path : List U8) (index namelen : U32) :
    Option Dent :=
  if isProcfs path then
    procfsChild pids path index namelen
  else
    dirChild fs path index namelen

/-- `default_getdents` as far as the child. -/
def devfsChild (devfs : Devfs Hook) (path : List U8) (index : U32) : Option (DevfsNode Hook) := do
  let dir ← devfsNodeFind devfs path
  if (devfs.nodes dir).type ≠ .dir then
    none
  else
    (devfs.nodes dir).children[index.toNat]?.map devfs.nodes

/-- `devfs_vfs_getdents`. -/
def devfsVfsGetdents (devfs : Devfs Hook) (path : List U8) (index namelen : U32) : Option Dent :=
  (devfsChild devfs path index).map fun child =>
    .cut (if child.type = .dir then xkernDtDir else xkernDtReg) child.name.chars
      (.ofNat 32 child.name.chars.length) namelen

end Readers

section Ext3

variable (fs : FileSystem) (stale : U32 → Nat → U8)

/-- `FileSystem::getdents` as far as `get_entry`. -/
def findEntry (path : Option (List U8)) (index : U32) :
    EStateM Ext3Fault Pmm (Option DirEntry) := do
  match ← resolvePath fs stale path with
  | none => return none
  | some ino => withDirectory fs stale ino fun dir => dir.getEntry index

/-- The entry whose name is copied, if the call gets that far. -/
def ext3Entry (path : Option (List U8)) (index : U32) (hasName : Bool) (pmm : Pmm) :
    Option DirEntry :=
  match hasName, findEntry fs stale path index pmm with
  | true, .ok entry _ => entry
  | _, _ => none

/-- What `FileSystem::getdents` copies. -/
def ext3Dent (path : Option (List U8)) (index : U32) (hasName : Bool) (namelen : U32) (pmm : Pmm) :
    Option Dent :=
  (ext3Entry fs stale path index hasName pmm).map fun entry =>
    .cut 0 entry.name entry.nameLen namelen

variable {fs stale}

end Ext3

/-! ## The bound of the writes -/

/-- What is written to `name` has at most `namelen` bytes. -/
def Bounded (namelen : U32) (dent : Option Dent) : Prop :=
  ∀ written ∈ dent.map Dent.written, written ≤ namelen.toNat

theorem bounded_map_cut {Found : Type} (found : Option Found) (result : Found → Int)
    (chars : Found → List U8) (len : Found → U32) (namelen : U32) :
    Bounded namelen (found.map fun item => .cut (result item) (chars item) (len item) namelen) ↔
      namelen ≠ 0 ∨ found = none := by
  cases found with
  | none => simp [Bounded]
  | some item =>
    simp only [Bounded, Option.map_some, Option.mem_def, Option.some.injEq, forall_eq',
      Dent.written, Dent.cut, reduceCtorEq, or_false]
    split
    · bv_omega
    · bv_omega

/-- The children of a directory: the names that are no duplicates. -/
def freshChildren : List (List U8) → List (List U8) → List (List U8)
  | _, [] => []
  | earlier, child :: rest =>
      if child = [] ∨ pathComponent child ∈ earlier.map pathComponent then
        freshChildren (child :: earlier) rest
      else
        child :: freshChildren (child :: earlier) rest

theorem childLoop_eq (namelen index seen : U32) (earlier rest : List (List U8)) :
    childLoop (seen + index + 1) namelen earlier rest seen =
      (freshChildren earlier rest)[index.toNat]?.map fun child =>
        .cut (if slash ∈ child then xkernDtDir else xkernDtReg) child (segLen child) namelen := by
  induction rest generalizing earlier seen index with
  | nil => rfl
  | cons child rest ih =>
    rw [childLoop, freshChildren]
    split
    · exact ih index seen (child :: earlier)
    · by_cases first : index = 0
      · subst first
        rw [if_pos (by bv_omega)]
        rfl
      · have before : seen + index + 1 = seen + 1 + (index - 1) + 1 := by bv_omega
        have later : index.toNat = (index - 1).toNat + 1 := by bv_omega
        rw [if_neg (by bv_omega), before, ih, later, getElem?_cons_succ]

section Bound

variable {Data Hook : Type}

theorem behind_eq_none {dir name : List U8} (short : name.length < dir.length)
    (nonempty : dir ≠ []) : behind dir name = none := by
  rw [behind, if_neg nonempty, if_neg]
  intro same
  have lengths := congrArg length same
  rw [length_take, length_append, length_singleton] at lengths
  omega

theorem dirChild_eq (fs : Ramfs Data) (path : List U8) (index namelen : U32) :
    dirChild fs path index namelen =
      (freshChildren [] (fs.below path))[index.toNat]?.map fun child =>
        .cut (if slash ∈ child then xkernDtDir else xkernDtReg) child (segLen child) namelen := by
  rw [dirChild]
  split
  · rename_i long
    have none : fs.below path = [] := by
      refine filterMap_eq_nil_iff.mpr fun file _ => behind_eq_none ?_ ?_
      · have fits := file.name.fits
        omega
      · exact ne_nil_of_length_pos (lt_of_lt_of_le (by decide) long)
    rw [none]
    rfl
  · have start := childLoop_eq namelen index 0 [] (fs.below path)
    rwa [zero_add] at start

/-- The directory has a child of this index. -/
def HasChild (pids : List U32) (fs : Ramfs Data) (path : List U8) (index : U32) : Prop :=
  if isProcfs path then
    (skipSlashes path).drop 4 ∈ [[], [slash]] ∧ index.toNat < pids.length
  else
    index.toNat < (freshChildren [] (fs.below path)).length

theorem bounded_pidChild (pids : List U32) (index namelen : U32) :
    Bounded namelen (pidChild pids index namelen) ↔ namelen ≠ 0 ∨ ¬ index.toNat < pids.length := by
  rw [pidChild, bounded_map_cut, getElem?_eq_none_iff, not_lt]

theorem bounded_statusChild (p : List U8) (index namelen : U32) :
    Bounded namelen (statusChild p index namelen) := by
  rw [statusChild]
  split
  · rename_i found
    simp only [Bounded, Option.map_some, Option.mem_def, Option.some.injEq, forall_eq',
      Dent.written]
    bv_omega
  · simp [Bounded]

theorem bounded_fsGetdents (pids : List U32) (fs : Ramfs Data) (path : List U8)
    (index namelen : U32) :
    Bounded namelen (fsGetdents pids fs path index namelen) ↔
      namelen ≠ 0 ∨ ¬ HasChild pids fs path index := by
  rw [fsGetdents, HasChild]
  split
  · rw [procfsChild]
    split
    · rename_i atEnd
      simpa [atEnd] using bounded_pidChild pids index namelen
    · rename_i c p isRest
      rw [isRest]
      split
      · rename_i other
        simp [Bounded, other]
      · rename_i isSlash
        split
        · rename_i atEnd
          simpa [atEnd, not_not.mp isSlash] using bounded_pidChild pids index namelen
        · rename_i more
          simpa [more] using bounded_statusChild p index namelen
  · rw [dirChild_eq, bounded_map_cut, getElem?_eq_none_iff, not_lt]

/--
Each reader keeps to `namelen` bytes just when `namelen` is not 0, or there is no such child
whose name it would copy.
-/
theorem getdents_bounded_iff (pids : List U32) (ramfs : Ramfs Data) (devfs : Devfs Hook)
    (fs : FileSystem) (stale : U32 → Nat → U8) (pmm : Pmm) (path : List U8)
    (fsPath : Option (List U8)) (hasName : Bool) (index namelen : U32) :
    (Bounded namelen (fsGetdents pids ramfs path index namelen) ↔
      namelen ≠ 0 ∨ ¬ HasChild pids ramfs path index) ∧
    (Bounded namelen (devfsVfsGetdents devfs path index namelen) ↔
      namelen ≠ 0 ∨ devfsChild devfs path index = none) ∧
    (Bounded namelen (ext3Dent fs stale fsPath index hasName namelen pmm) ↔
      namelen ≠ 0 ∨ ext3Entry fs stale fsPath index hasName pmm = none) :=
  ⟨bounded_fsGetdents .., bounded_map_cut .., bounded_map_cut ..⟩

/-- A table with the file `a` only. -/
def letterTable : Ramfs Unit :=
  .single ⟨⟨[0x61], letterName_fits⟩, ()⟩

/-- The root has a file `a`, and no byte of room is offered for its name. -/
theorem noRoom_not_bounded : ¬ Bounded 0 (fsGetdents [] letterTable [slash] 0 0) := by
  rw [bounded_fsGetdents, HasChild]
  decide

/-! ## What is listed -/

/-- Every component of the name has a character. -/
def NoEmptyComponent (name : List U8) : Prop :=
  ∀ before after, name = before ++ after → before = [] ∨ before.getLast? = some slash →
    pathComponent after ≠ []

theorem pathComponent_behind {dir name child : List U8} (whole : NoEmptyComponent name)
    (isChild : behind dir name = some child) :
    pathComponent child ≠ [] ∧ child.length ≤ name.length := by
  rw [behind] at isChild
  split at isChild
  · cases isChild
    exact ⟨whole [] name rfl (.inl rfl), le_refl _⟩
  · split at isChild
    · rename_i begins
      cases isChild
      refine ⟨whole (dir ++ [slash]) _ ?_ (.inr getLast?_concat), (drop_sublist _ _).length_le⟩
      rw [← begins, take_append_drop]
    · cases isChild

theorem map_freshChildren {rest : List (List U8)} (whole : ∀ child ∈ rest, pathComponent child ≠ [])
    (earlier : List (List U8)) :
    (freshChildren earlier rest).map pathComponent =
      ((rest.map pathComponent).filter (· ∉ earlier.map pathComponent)).eraseDups := by
  induction rest generalizing earlier with
  | nil => rfl
  | cons child rest ih =>
    have next := ih (fun other member => whole other (mem_cons_of_mem _ member)) (child :: earlier)
    have nonempty : child ≠ [] := by
      rintro rfl
      exact whole [] mem_cons_self rfl
    rw [freshChildren, map_cons]
    by_cases seen : pathComponent child ∈ earlier.map pathComponent
    · rw [if_pos (.inr seen), next, filter_cons_of_neg (by simpa using seen)]
      congr 1
      refine filter_congr fun name _ => decide_eq_decide.mpr ?_
      rw [map_cons, mem_cons, not_or]
      exact ⟨And.right, fun new => ⟨fun same => new (same ▸ seen), new⟩⟩
    · rw [if_neg (not_or.mpr ⟨nonempty, seen⟩), map_cons, next,
        filter_cons_of_pos (by simpa using seen), eraseDups_cons, filter_filter]
      congr 2
      refine filter_congr fun name _ => Bool.eq_iff_iff.mpr ?_
      simp

theorem freshChildren_subset (earlier rest : List (List U8)) :
    freshChildren earlier rest ⊆ rest := by
  induction rest generalizing earlier with
  | nil => exact Subset.refl _
  | cons child rest ih =>
    rw [freshChildren]
    split
    · exact subset_cons_of_subset _ (ih _)
    · exact cons_subset_cons _ (ih _)

/--
With an index one after the other, the names that are returned are the components below
the directory, each where it is first seen, and then there are no more.
-/
theorem fs_getdents_components (pids : List U32) (fs : Ramfs Data) (path : List U8) (namelen : U32)
    (whole : ∀ file ∈ fs.files, NoEmptyComponent file.name.chars) (outside : isProcfs path = false)
    (room : 64 ≤ namelen.toNat) (index : U32) :
    (fsGetdents pids fs path index namelen).map Dent.name =
      ((fs.below path).map pathComponent).eraseDups[index.toNat]? := by
  have children : ∀ child ∈ fs.below path, pathComponent child ≠ [] ∧ child.length < 64 := by
    intro child member
    obtain ⟨file, isFile, isChild⟩ := mem_filterMap.mp member
    obtain ⟨nonempty, shorter⟩ := pathComponent_behind (whole file isFile) isChild
    exact ⟨nonempty, lt_of_le_of_lt shorter (lt_of_lt_of_le file.name.fits (by decide))⟩
  rw [fsGetdents, if_neg (by simp [outside]), dirChild_eq, Option.map_map]
  have listed := map_freshChildren (fun child member => (children child member).1) []
  rw [map_nil, filter_eq_self.mpr (by simp)] at listed
  rw [← listed, getElem?_map]
  refine Option.map_congr fun child isChild => ?_
  have short := (children child (freshChildren_subset _ _ (mem_of_getElem? isChild))).2
  have isPrefix := takeWhile_prefix (· ≠ slash) (l := child)
  have lengths : (pathComponent child).length ≤ child.length := isPrefix.length_le
  have isLen : (segLen child).toNat = (pathComponent child).length := by
    rw [segLen, BitVec.toNat_ofNat, Nat.mod_eq_of_lt (by omega)]
  have notCut : ¬ segLen child ≥ namelen := by
    rw [ge_iff_le, BitVec.le_def, isLen]
    omega
  simp only [Function.comp_apply, Dent.name, Dent.cut, if_neg notCut, isLen]
  exact (prefix_iff_eq_take.mp isPrefix).symm

theorem noEmptyComponent_of_splits {name : List U8}
    (each : ∀ k ≤ name.length, name.take k = [] ∨ (name.take k).getLast? = some slash →
      pathComponent (name.drop k) ≠ []) :
    NoEmptyComponent name := by
  rintro before after rfl starts
  have whole := each before.length (by rw [length_append]; omega)
  rw [take_left, drop_left] at whole
  exact whole starts

/-- The files `a/b`, `a/c` and `d`. -/
def twoLevelTable : Ramfs Unit where
  files := [⟨⟨[0x61, slash, 0x62], by decide⟩, ()⟩, ⟨⟨[0x61, slash, 0x63], by decide⟩, ()⟩,
    ⟨⟨[0x64], by decide⟩, ()⟩]
  bounded := by decide

/-- The second name in the root is `d`, as `a` comes once. -/
theorem twoLevelTable_components :
    (fsGetdents [] twoLevelTable [slash] 1 64).map Dent.name =
        ((twoLevelTable.below [slash]).map pathComponent).eraseDups[(1 : U32).toNat]? ∧
      ((twoLevelTable.below [slash]).map pathComponent).eraseDups = [[0x61], [0x64]] := by
  refine ⟨fs_getdents_components [] twoLevelTable [slash] 64 ?_ rfl (by decide) 1, by decide⟩
  intro file member
  apply noEmptyComponent_of_splits
  simp only [twoLevelTable, mem_cons, not_mem_nil, or_false] at member
  rcases member with rfl | rfl | rfl <;> decide

end Bound

end XKern
