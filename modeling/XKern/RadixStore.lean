import Mathlib.Data.Set.Basic
import Mathlib.Tactic

namespace XKern.RadixStore

open List Option

/-!
# Radix trees kept in a store

A store maps the address of a table and an index to a word.  `link depth index
word` is the table that such a word refers to, if any, when the table stands
at the given depth.  Several roots may share subtrees.

`tableAt` is the table at the end of a path and `trail` lists the words that a
lookup reads.  Two edits are described: `Graft` hangs a fresh table into an
empty slot, and a fresh root may copy slots of another one.  Both need that
each table has one path only (`Separated`).
-/

variable {Addr Idx Word : Type}

/-- Words by table and index. -/
abbrev Store (Addr Idx Word : Type) := Addr → Idx → Word

/-- The table that a word refers to. -/
abbrev Link (Addr Idx Word : Type) := Nat → Idx → Word → Option Addr

/-- Follow a path from a table. -/
def descend (link : Link Addr Idx Word) (store : Store Addr Idx Word) :
    Nat → Addr → List Idx → Option Addr
  | _, table, [] => some table
  | depth, table, index :: rest =>
      (link depth index (store table index)).bind
        fun next => descend link store (depth + 1) next rest

/-- The table at the end of a path. -/
def tableAt (link : Link Addr Idx Word) (store : Store Addr Idx Word) (root : Addr)
    (path : List Idx) : Option Addr :=
  descend link store 0 root path

/-- The words read along a path, up to the first one without a table. -/
def trail (link : Link Addr Idx Word) (store : Store Addr Idx Word) :
    Nat → Addr → List Idx → List Word
  | _, _, [] => []
  | depth, table, index :: rest =>
      store table index ::
        match link depth index (store table index) with
        | none => []
        | some next => trail link store (depth + 1) next rest

variable {link : Link Addr Idx Word} {before after : Store Addr Idx Word} {roots : Set Addr}
  {root : Addr} {depth : Nat}

section Paths

variable {store : Store Addr Idx Word}

@[simp] theorem tableAt_nil (root : Addr) :
    tableAt link store root [] = some root := rfl

theorem descend_append (depth : Nat) (table : Addr) (first second : List Idx) :
    descend link store depth table (first ++ second) =
      (descend link store depth table first).bind fun next =>
        descend link store (depth + first.length) next second := by
  induction first generalizing depth table with
  | nil => simp [descend]
  | cons index first ih =>
    simp only [cons_append, descend, length_cons]
    cases link depth index (store table index) with
    | none => rfl
    | some next =>
      simp only [bind_some]
      rw [ih, add_right_comm, add_assoc]

variable {first : List Idx}

theorem tableAt_append {table : Addr} (reached : tableAt link store root first = some table)
    (second : List Idx) :
    tableAt link store root (first ++ second) = descend link store first.length table second := by
  rw [tableAt, descend_append]
  rw [tableAt] at reached
  rw [reached, bind_some, zero_add]

theorem tableAt_concat {table : Addr} {path : List Idx}
    (reached : tableAt link store root path = some table) (index : Idx) :
    tableAt link store root (path ++ [index]) = link path.length index (store table index) := by
  rw [tableAt_append reached]
  simp only [descend]
  cases link path.length index (store table index) <;> rfl

theorem tableAt_of_append {table : Addr} {second : List Idx}
    (reached : tableAt link store root (first ++ second) = some table) :
    ∃ ancestor, tableAt link store root first = some ancestor := by
  rw [tableAt, descend_append] at reached
  cases found : descend link store 0 root first with
  | none => simp [found] at reached
  | some ancestor => exact ⟨ancestor, found⟩

theorem trail_append {table : Addr} (reached : descend link store depth root first = some table)
    (second : List Idx) :
    trail link store depth root (first ++ second) = trail link store depth root first ++
        trail link store (depth + first.length) table second := by
  induction first generalizing depth root with
  | nil =>
    rw [descend, Option.some.injEq] at reached
    simp [trail, reached]
  | cons index first ih =>
    simp only [descend] at reached
    simp only [cons_append, trail, length_cons]
    cases found : link depth index (store root index) with
    | none => simp [found] at reached
    | some next =>
      rw [found, bind_some] at reached
      simp only
      rw [ih reached, add_right_comm, add_assoc]

theorem length_trail {table : Addr} {path : List Idx}
    (reached : descend link store depth root path = some table) :
    (trail link store depth root path).length = path.length := by
  induction path generalizing depth root with
  | nil => rfl
  | cons index rest ih =>
    simp only [descend] at reached
    cases found : link depth index (store root index) with
    | none => simp [found] at reached
    | some next =>
      rw [found, bind_some] at reached
      simp only [trail, found, length_cons]
      rw [ih reached]

theorem trail_stop {table : Addr} {index : Idx}
    (empty : link depth index (store table index) = none) (rest : List Idx) :
    trail link store depth table (index :: rest) = [store table index] := by
  simp [trail, empty]

theorem trail_link_congr {other : Link Addr Idx Word}
    (same : ∀ later, depth ≤ later → ∀ index word, other later index word = link later index word)
    (table : Addr) (path : List Idx) :
    trail other store depth table path = trail link store depth table path := by
  induction path generalizing depth table with
  | nil => rfl
  | cons index rest ih =>
    simp only [trail]
    rw [same depth (le_refl _)]
    cases link depth index (store table index) with
    | none => rfl
    | some next =>
      simp only
      rw [ih (fun later bound => same later (by omega))]

end Paths

section Congruence

/-- The words along a path are the same. -/
def SameAlong (link : Link Addr Idx Word) (before after : Store Addr Idx Word) (depth : Nat)
    (root : Addr)
    (path : List Idx) : Prop :=
  ∀ first index second table,
    path = first ++ index :: second →
    descend link before depth root first = some table →
    after table index = before table index

theorem SameAlong.head {index : Idx} {rest : List Idx}
    (same : SameAlong link before after depth root (index :: rest)) :
    after root index = before root index :=
  same [] index rest root rfl rfl

theorem SameAlong.tail {next : Addr} {index : Idx} {rest : List Idx}
    (same : SameAlong link before after depth root (index :: rest))
    (linked : link depth index (before root index) = some next) :
    SameAlong link before after (depth + 1) next rest := by
  intro first other second table shape reached
  apply same (index :: first) other second table
  · rw [shape, cons_append]
  · simp [descend, linked, reached]

theorem SameAlong.descend_eq {path : List Idx}
    (same : SameAlong link before after depth root path) :
    descend link after depth root path = descend link before depth root path := by
  induction path generalizing depth root with
  | nil => rfl
  | cons index rest ih =>
    simp only [descend, same.head]
    cases linked : link depth index (before root index) with
    | none => rfl
    | some next =>
      simp only [bind_some]
      exact ih (same.tail linked)

theorem SameAlong.trail_eq {path : List Idx} (same : SameAlong link before after depth root path) :
    trail link after depth root path = trail link before depth root path := by
  induction path generalizing depth root with
  | nil => rfl
  | cons index rest ih =>
    simp only [trail, same.head]
    cases linked : link depth index (before root index) with
    | none => rfl
    | some next =>
      simp only
      rw [ih (same.tail linked)]

end Congruence

section Edits

/-- Every table has one path. -/
def Separated (link : Link Addr Idx Word) (store : Store Addr Idx Word)
    (roots : Set Addr) : Prop :=
  ∀ root ∈ roots, ∀ other ∈ roots, ∀ path otherPath table,
    tableAt link store root path = some table →
    tableAt link store other otherPath = some table →
    path = otherPath

/-- No path leads to the table. -/
def Unreached (link : Link Addr Idx Word) (store : Store Addr Idx Word) (roots : Set Addr)
    (table : Addr) : Prop :=
  ∀ root ∈ roots, ∀ path, tableAt link store root path ≠ some table

/--
The table at `path` gets a new word at `index`; apart from that only tables in
`scratch` change, which no root reaches.
-/
structure Edit
    (link : Link Addr Idx Word)
    (roots : Set Addr)
    (before after : Store Addr Idx Word)
    (path : List Idx)
    (table : Addr)
    (index : Idx)
    (scratch : Set Addr) : Prop where
  separated : Separated link before roots
  reached : ∃ owner ∈ roots, tableAt link before owner path = some table
  unreached : ∀ other ∈ scratch, Unreached link before roots other
  elsewhere : ∀ other slot, other ∉ scratch → (other = table → slot ≠ index) →
    after other slot = before other slot

namespace Edit

variable {scratch : Set Addr} {path : List Idx} {table : Addr} {index : Idx}

section

variable (edit : Edit link roots before after path table index scratch)

include edit

theorem sameAlong (member : root ∈ roots) {query : List Idx}
    (avoids : tableAt link before root path = some table → ¬ path ++ [index] <+: query) :
    SameAlong link before after 0 root query := by
  obtain ⟨owner, ownerRoot, reached⟩ := edit.reached
  intro first slot second visited shape visitedAt
  apply edit.elsewhere
  · intro inScratch
    exact edit.unreached visited inScratch root member first visitedAt
  · rintro rfl rfl
    have samePath : first = path := edit.separated root member owner ownerRoot first path visited
        visitedAt reached
    subst samePath
    apply avoids visitedAt
    rw [shape]
    exact ⟨second, by simp⟩

theorem sameAlong_path (member : root ∈ roots) :
    SameAlong link before after 0 root path := by
  apply edit.sameAlong member
  intro _ longer
  have length := longer.length_le
  simp at length

theorem trail_through (member : root ∈ roots)
    (reached : tableAt link before root path = some table) (rest : List Idx) :
    trail link after 0 root (path ++ index :: rest) = trail link before 0 root path ++
        trail link after path.length table (index :: rest) := by
  have same := edit.sameAlong_path member
  have reachedAfter := same.descend_eq.trans reached
  rw [trail_append reachedAfter, same.trail_eq, zero_add]

theorem tableAt_of_unlinked (emptyBefore : link path.length index (before table index) = none)
    (emptyAfter : link path.length index (after table index) = none) (member : root ∈ roots)
    (query : List Idx) :
    tableAt link after root query = tableAt link before root query := by
  by_cases passes : tableAt link before root path = some table ∧ path ++ [index] <+: query
  · obtain ⟨reached, rest, rfl⟩ := passes
    have reachedAfter : tableAt link after root path = some table :=
      (edit.sameAlong_path member).descend_eq.trans reached
    rw [append_assoc, tableAt_append reached, tableAt_append reachedAfter]
    simp [descend, emptyBefore, emptyAfter]
  · rw [not_and] at passes
    exact (edit.sameAlong member passes).descend_eq

end

theorem tableAt_graft {fresh : Addr} (edit : Edit link roots before after path table index {fresh})
    (empty : link path.length index (before table index) = none)
    (linked : link path.length index (after table index) = some fresh)
    (barren : ∀ slot, link (path.length + 1) slot (after fresh slot) = none)
    (member : root ∈ roots) (query : List Idx) (found : Addr) :
    tableAt link after root query = some found ↔ tableAt link before root query = some found ∨
        (tableAt link before root path = some table ∧ query = path ++ [index] ∧ found = fresh) := by
  by_cases passes : tableAt link before root path = some table ∧ path ++ [index] <+: query
  · obtain ⟨reached, rest, rfl⟩ := passes
    have reachedAfter : tableAt link after root path = some table :=
      (edit.sameAlong_path member).descend_eq.trans reached
    rw [append_assoc, tableAt_append reached, tableAt_append reachedAfter]
    cases rest with
    | nil => simp [descend, empty, linked, reached, eq_comm]
    | cons slot rest => simp [descend, empty, linked, barren]
  · have same : tableAt link after root query = tableAt link before root query := by
      rw [not_and] at passes
      exact (edit.sameAlong member passes).descend_eq
    rw [same]
    constructor
    · exact Or.inl
    · rintro (reached | ⟨reached, rfl, _⟩)
      · exact reached
      · exact (passes ⟨reached, prefix_refl _⟩).elim

theorem separated_graft {fresh : Addr}
    (edit : Edit link roots before after path table index {fresh})
    (empty : link path.length index (before table index) = none)
    (linked : link path.length index (after table index) = some fresh)
    (barren : ∀ slot, link (path.length + 1) slot (after fresh slot) = none) :
    Separated link after roots := by
  have unreached := edit.unreached fresh rfl
  intro root member other otherMember first second found
  rw [edit.tableAt_graft empty linked barren member,
    edit.tableAt_graft empty linked barren otherMember]
  rintro (old | ⟨_, isSlot, isFresh⟩) (otherOld | ⟨_, otherSlot, otherFresh⟩)
  · exact edit.separated root member other otherMember _ _ _ old otherOld
  · exact (unreached root member _ (otherFresh ▸ old)).elim
  · exact (unreached other otherMember _ (isFresh ▸ otherOld)).elim
  · rw [isSlot, otherSlot]

end Edit

/-! ## A fresh root -/

variable {source fresh : Addr}

section

variable (unreached : Unreached link before roots fresh)
  (elsewhere : ∀ other, other ≠ fresh → after other = before other)

include unreached elsewhere

theorem sameAlong_of_unreached (member : root ∈ roots) (query : List Idx) :
    SameAlong link before after 0 root query := by
  intro first slot second visited _ visitedAt
  rw [elsewhere]
  rintro rfl
  exact unreached root member first visitedAt

theorem descend_copied (member : source ∈ roots) {slot : Idx}
    (copied : after fresh slot = before source slot) (rest : List Idx) :
    tableAt link after fresh (slot :: rest) = tableAt link before source (slot :: rest) ∧
      trail link after 0 fresh (slot :: rest) = trail link before 0 source (slot :: rest) := by
  have same := sameAlong_of_unreached unreached elsewhere member (slot :: rest)
  have sourceSame := same.head
  have atSource : tableAt link after fresh (slot :: rest) =
      tableAt link after source (slot :: rest) := by
    simp only [tableAt, descend, copied, sourceSame]
  have trailAtSource : trail link after 0 fresh (slot :: rest) =
      trail link after 0 source (slot :: rest) := by
    simp only [trail, copied, sourceSame]
  exact ⟨atSource.trans same.descend_eq, trailAtSource.trans same.trail_eq⟩

theorem tableAt_fresh_root (member : source ∈ roots) (slots : ∀ slot, after fresh slot = before
      source slot ∨ link 0 slot (after fresh slot) = none) {path : List Idx} {found : Addr}
    (reached : tableAt link after fresh path = some found) :
    (path = [] ∧ found = fresh) ∨ (path ≠ [] ∧ tableAt link before source path = some found) := by
  cases path with
  | nil =>
    rw [tableAt_nil, Option.some.injEq] at reached
    exact .inl ⟨rfl, reached.symm⟩
  | cons slot rest =>
    rcases slots slot with copied | empty
    · rw [(descend_copied unreached elsewhere member copied rest).1] at reached
      exact .inr ⟨cons_ne_nil _ _, reached⟩
    · simp [tableAt, descend, empty] at reached

end

theorem separated_fresh_root (separated : Separated link before roots)
    (unreached : Unreached link before roots fresh)
    (elsewhere : ∀ other, other ≠ fresh → after other = before other) (member : source ∈ roots)
    (slots : ∀ slot, after fresh slot = before source slot ∨
      link 0 slot (after fresh slot) = none) :
    Separated link after (insert fresh roots) := by
  -- Every path of the new forest is a path of an old root, or the new root.
  have origin : ∀ root ∈ insert fresh roots, ∀ path found,
      tableAt link after root path = some found →
      (path = [] ∧ found = fresh) ∨ ∃ old ∈ roots, tableAt link before old path = some found := by
    intro root isRoot path found reached
    rcases isRoot with rfl | isOld
    · rcases tableAt_fresh_root unreached elsewhere member slots reached with
        isFresh | ⟨_, old⟩
      · exact .inl isFresh
      · exact .inr ⟨source, member, old⟩
    · rw [tableAt, (sameAlong_of_unreached unreached elsewhere isOld path).descend_eq] at reached
      exact Or.inr ⟨root, isOld, reached⟩
  intro root isRoot other isOther path otherPath found reached otherReached
  rcases origin root isRoot path found reached with
    ⟨rfl, rfl⟩ | ⟨old, oldRoot, oldReached⟩
  · rcases origin other isOther otherPath found otherReached with
      ⟨rfl, _⟩ | ⟨old, oldRoot, oldReached⟩
    · rfl
    · exact (unreached old oldRoot otherPath oldReached).elim
  · rcases origin other isOther otherPath found otherReached with
      ⟨_, rfl⟩ | ⟨otherOld, otherRoot, otherOldReached⟩
    · exact (unreached old oldRoot path oldReached).elim
    · exact separated old oldRoot otherOld otherRoot path otherPath found oldReached otherOldReached

end Edits

end XKern.RadixStore
