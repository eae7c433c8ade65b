import Mathlib.Data.List.DropRight
import XKern.Ramfs

namespace XKern

open List

/-!
# Paths of the device tree

Model of `normalize_path`, `path_leaf` and the parts of `devfs_node_add` and
`devfs_node_find` in `bsd/devfs/devfs.c` that take a path apart.  A string is
the list of its characters as far as the terminator, and an output buffer the
list of the characters written so far.
-/

/-- `DEVFS_PATH_MAX`. -/
def devfsPathMax : Nat := 64

/-- `BSD_DEVFS_NAME_MAX`. -/
def devfsNameMax : Nat := 32

/-- Give up the last character and then all as far as the next slash. -/
def backUp (out : List U8) : List U8 :=
  out.dropLast.rdropWhile (· ≠ slash)

/-- One round of `normalize_path`: what is left of `p`, and `out`. -/
def normalizeRound (path out : List U8) : List U8 × List U8 :=
  if path.take 1 = [slash] then
    (skipSlashes path, out ++ [slash])
  else if path.take 2 = [dot, slash] then
    (path.drop 2, out)
  else if path.take 3 = [dot, dot, slash] then
    (path.drop 3, backUp out)
  else
    (path.drop 1, out ++ path.take 1)

/-- The loop of `normalize_path`; every round takes characters off the path. -/
def normalizeLoop : Nat → List U8 → List U8 → List U8
  | 0, _, out => out
  | fuel + 1, path, out =>
      if path ≠ [] ∧ out.length < devfsPathMax - 1 then
        normalizeLoop fuel (normalizeRound path out).1 (normalizeRound path out).2
      else
        out

/-- The end of `normalize_path`: a trailing slash stays only alone. -/
def trimSlash (out : List U8) : List U8 :=
  if out = [] then
    [slash]
  else if out.getLast? = some slash ∧ out.length ≠ 1 then
    out.dropLast
  else
    out

/-- `normalize_path` into a buffer of `DEVFS_PATH_MAX` bytes. -/
def normalizePath (path : List U8) : List U8 :=
  trimSlash (normalizeLoop path.length (skipSlashes path) [])

/-- `path_leaf`. -/
def pathLeaf (path : List U8) : List U8 :=
  path.rtakeWhile (· ≠ slash)

/-- `parent_path` in `devfs_node_add`. -/
def parentPath (path : List U8) : List U8 :=
  if path.length > 1 then
    path.dropLast.rdropWhile (· ≠ slash)
  else
    [slash]

/-- A component that has been collected, if it has any characters. -/
def collected (component : List U8) : List (List U8) :=
  if component = [] then [] else [component]

/--
The values of `component` in the loop `while (*seg)`: slashes separate, and a
component that fills its buffer ends as well.
-/
def componentsFrom : List U8 → List U8 → List (List U8)
  | [], component => collected component
  | c :: rest, component =>
      if c = slash then
        collected component ++ componentsFrom rest []
      else if component.length < devfsNameMax - 1 then
        componentsFrom rest (component ++ [c])
      else
        component :: componentsFrom rest [c]

def components (path : List U8) : List (List U8) :=
  componentsFrom path []

/-- The first segment is skipped if it is the name of the root. -/
def afterRoot (rootName : List U8) : List (List U8) → List (List U8)
  | first :: rest => if first = rootName then rest else first :: rest
  | [] => []

/-! ## Components -/

theorem componentsFrom_slash (first second component : List U8) :
    componentsFrom (first ++ slash :: second) component =
      componentsFrom first component ++ components second := by
  induction first generalizing component with
  | nil => simp [componentsFrom, components]
  | cons c rest ih =>
    rw [cons_append, componentsFrom, componentsFrom]
    split
    · rw [ih, append_assoc]
    · split
      · exact ih _
      · rw [ih, cons_append]

theorem components_slash (first second : List U8) :
    components (first ++ slash :: second) = components first ++ components second :=
  componentsFrom_slash first second []

theorem componentsFrom_of_noSlash {name component : List U8} (noSlash : slash ∉ name)
    (fits : component.length + name.length ≤ devfsNameMax - 1) :
    componentsFrom name component = collected (component ++ name) := by
  induction name generalizing component with
  | nil => rw [componentsFrom, append_nil]
  | cons c rest ih =>
    rw [mem_cons, not_or] at noSlash
    rw [length_cons] at fits
    rw [componentsFrom, if_neg (Ne.symm noSlash.1), if_pos (by omega),
      ih noSlash.2 (by simpa using by omega),
      append_assoc]
    rfl

theorem components_of_noSlash {name : List U8} (noSlash : slash ∉ name) (nonempty : name ≠ [])
    (fits : name.length ≤ devfsNameMax - 1) :
    components name = [name] := by
  rw [components, componentsFrom_of_noSlash noSlash (by simpa using fits),
    nil_append, collected, if_neg nonempty]

theorem mem_componentsFrom_ne_nil {path component found : List U8}
    (member : found ∈ componentsFrom path component) : found ≠ [] := by
  induction path generalizing component with
  | nil =>
    rw [componentsFrom, collected] at member
    split at member
    · cases member
    · rename_i nonempty
      rw [mem_singleton] at member
      exact member ▸ nonempty
  | cons c rest ih =>
    rw [componentsFrom] at member
    split at member
    · rw [mem_append, collected] at member
      rcases member with first | later
      · split at first
        · cases first
        · rename_i nonempty
          rw [mem_singleton] at first
          exact first ▸ nonempty
      · exact ih later
    · split at member
      · exact ih member
      · rename_i full
        rcases List.mem_cons.mp member with first | later
        · rintro rfl
          exact full (by rw [← first]; decide)
        · exact ih later

theorem ne_nil_of_mem_components {path found : List U8}
    (member : found ∈ components path) : found ≠ [] :=
  mem_componentsFrom_ne_nil member

/-! ## The last component -/

theorem noSlash_pathLeaf (path : List U8) : slash ∉ pathLeaf path := by
  intro member
  have isOther := mem_rtakeWhile_imp member
  simp at isOther

theorem rdropWhile_append_pathLeaf (path : List U8) :
    path.rdropWhile (· ≠ slash) ++ pathLeaf path = path := by
  rw [pathLeaf, rdropWhile, rtakeWhile, ← reverse_append,
    takeWhile_append_dropWhile, reverse_reverse]

theorem rdropWhile_eq_nil_or_concat (path : List U8) : path.rdropWhile (· ≠ slash) = [] ∨
      ∃ front, path.rdropWhile (· ≠ slash) = front ++ [slash] := by
  by_cases empty : path.rdropWhile (· ≠ slash) = []
  · exact .inl empty
  · right
    have last := rdropWhile_last_not (· ≠ slash) path empty
    refine ⟨(path.rdropWhile (· ≠ slash)).dropLast, ?_⟩
    conv_lhs => rw [← dropLast_append_getLast empty]
    simpa using last

theorem components_parentPath {path : List U8} (nonempty : pathLeaf path ≠ []) :
    components (parentPath path) = components (path.rdropWhile (· ≠ slash)) := by
  rcases eq_nil_or_concat path with rfl | ⟨front, last, rfl⟩
  · exact absurd rfl nonempty
  · rw [concat_eq_append] at nonempty ⊢
    have lastNe : last ≠ slash := by
      rintro rfl
      exact nonempty (rtakeWhile_concat_neg _ _ _ (by simp))
    rw [rdropWhile_concat_pos _ _ _ (by simpa using lastNe), parentPath]
    split
    · rw [dropLast_concat]
    · rename_i short
      have none : front = [] := by
        rw [length_append, length_singleton] at short
        exact length_eq_zero_iff.mp (by omega)
      rw [none]
      decide

theorem components_eq_parent {path : List U8} (nonempty : pathLeaf path ≠ [])
    (fits : (pathLeaf path).length ≤ devfsNameMax - 1) :
    components path = components (parentPath path) ++ [pathLeaf path] := by
  have leafOnly := components_of_noSlash (noSlash_pathLeaf path) nonempty fits
  rw [components_parentPath nonempty]
  conv_lhs => rw [← rdropWhile_append_pathLeaf path]
  rcases rdropWhile_eq_nil_or_concat path with empty | ⟨front, ends⟩
  · rw [empty, nil_append, leafOnly]
    rfl
  · rw [ends, append_assoc, singleton_append, components_slash, leafOnly, components_slash]
    rw [show components [] = [] from rfl, append_nil]

end XKern
