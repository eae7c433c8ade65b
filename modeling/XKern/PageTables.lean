import XKern.PageEntries

namespace XKern

open RadixStore List

/-!
# Well-formed page tables and the ways to edit memory

Apart from the recursive slot 511 of a PML4, the tables of one or several
address spaces form a radix tree in memory.  `WellFormed` says that each table
has one path, that no table is on the free stack and that every link fits a
physical address.

`paging_map_page` edits the tables in two ways only: a `HangStep` pops a frame
and hangs it into a slot that has no table, and a `LeafStep` writes a leaf
entry.  A `DataStep` writes to a page that is no table.  What each of them does
to well-formedness and to the walk of every address is stated once here.
-/

/-- The links between tables, without the recursive slot. -/
def tableLink : Link U64 (Fin 512) U64 :=
  fun depth index entry =>
    if depth = 0 ∧ index = 511 then none else hardwareLink depth index entry

variable {depth : Nat} {entry root va : U64}

theorem tableLink_ordinary {index : Fin 512} (ordinary : depth = 0 → index ≠ 511) (entry : U64) :
    tableLink depth index entry = hardwareLink depth index entry := by
  rw [tableLink, if_neg]
  rintro ⟨top, recursive⟩
  exact ordinary top recursive

theorem tableLink_absent (depth : Nat) (index : Fin 512) (absent : ¬ Present entry) :
    tableLink depth index entry = none := by
  simp [tableLink, hardwareLink, absent]

theorem tableLink_leaf (index : Fin 512) (entry : U64) (bottom : 3 ≤ depth) :
    tableLink depth index entry = none := by
  have notTop : depth ≠ 0 := by omega
  have notAbove : ¬ depth < 3 := by omega
  simp [tableLink, hardwareLink, notTop, notAbove]

theorem tableLink_large (index : Fin 512) (below : depth ≠ 0) (large : IsLarge entry) :
    tableLink depth index entry = none := by
  simp [tableLink, hardwareLink, below, large]

theorem tableLink_pointsTo {index : Fin 512} {t : U64} (ordinary : depth = 0 → index ≠ 511)
    (above : depth < 3) (points : PointsTo entry t) :
    tableLink depth index entry = some t := by
  rw [tableLink_ordinary ordinary, hardwareLink,
    if_pos ⟨points.present, .inr ⟨above, points.small⟩⟩, points.frame]

theorem walk_eq_translate (rootTable : IsTable root) (ordinary : pml4Index va ≠ 511)
    (memory : Memory) :
    walk memory root va =
      if Canonical va then
        translate va (trail tableLink memory 0 root (vaPath va))
      else
        none := by
  have below : ∀ later, 1 ≤ later → ∀ index entry,
      hardwareLink later index entry = tableLink later index entry := by
    intro later bound index entry
    rw [tableLink_ordinary (by omega)]
  have same : trail hardwareLink memory 0 root (vaPath va) =
      trail tableLink memory 0 root (vaPath va) := by
    simp only [vaPath, trail, tableLink_ordinary (fun _ => ordinary)]
    cases hardwareLink 0 (pml4Index va) (memory root (pml4Index va)) with
    | none => rfl
    | some next =>
      have later : trail hardwareLink memory 1 next [pdptIndex va, pdIndex va, ptIndex va] =
          trail tableLink memory 1 next [pdptIndex va, pdIndex va, ptIndex va] :=
        trail_link_congr below next _
      simp only [trail] at later
      simp only [later]
  rw [walk, show root &&& frameBits = root from rootTable, same]

theorem canonical_of_walk {memory : Memory} {cr3 : U64} {translation : Translation}
    (translated : walk memory cr3 va = some translation) :
    Canonical va := by
  by_contra noncanonical
  rw [walk, if_neg noncanonical] at translated
  cases translated

theorem translate_absent (va : U64) (words : List U64) {last : U64} (absent : ¬ Present last) :
    translate va (words ++ [last]) = none := by
  rcases words with _ | ⟨_, _ | ⟨_, _ | ⟨_, _ | ⟨_, _⟩⟩⟩⟩ <;>
    simp [translate, absent]

/--
The address spaces with the given PML4 tables are well formed: apart from the
recursive slots every table has one path, no table is free, PDPT entries are
never large, and links have no bits above the physical address.
-/
structure WellFormed (roots : Set U64) (machine : Machine) : Prop where
  separated : Separated tableLink machine.memory roots
  rootTable : ∀ root ∈ roots, IsTable root
  linkedLow : ∀ root ∈ roots, ∀ path table index,
    tableAt tableLink machine.memory root path = some table →
    tableLink path.length index (machine.memory table index) ≠ none →
    (machine.memory table index).toNat < 2 ^ 52
  noHuge : ∀ root ∈ roots, ∀ slot table index,
    tableAt tableLink machine.memory root [slot] = some table →
    Present (machine.memory table index) →
    ¬ IsLarge (machine.memory table index)
  spare : ∀ frame ∈ machine.pmm.stack,
    Unreached tableLink machine.memory roots frame
  valid : machine.pmm.Valid
  spareLow : ∀ frame ∈ machine.pmm.stack, frame.toNat < 2 ^ 52

theorem WellFormed.loadCr3 {roots : Set U64} {machine : Machine}
    (wellFormed : WellFormed roots machine) (phys : U64) :
    WellFormed roots (pagingLoadCr3 phys machine) :=
  ⟨wellFormed.separated, wellFormed.rootTable, wellFormed.linkedLow,
    wellFormed.noHuge, wellFormed.spare, wellFormed.valid, wellFormed.spareLow⟩

/-- `pmm_alloc` returns a frame that can become a table. -/
structure FreshFrame
    (roots : Set U64)
    (machine : Machine)
    (frame : U64)
    (rest : Pmm) : Prop where
  popped : pmmAlloc machine.pmm = (frame, rest)
  stack : machine.pmm.stack = rest.stack ++ [frame]
  nonzero : frame ≠ 0
  isTable : IsTable frame
  unreached : Unreached tableLink machine.memory roots frame

theorem WellFormed.freshFrame {roots : Set U64} {machine : Machine}
    (wellFormed : WellFormed roots machine) (free : machine.pmm.stack ≠ []) :
    ∃ frame rest, FreshFrame roots machine frame rest := by
  obtain ⟨others, frame, shape⟩ := (eq_nil_or_concat _).resolve_left free
  rw [concat_eq_append] at shape
  obtain ⟨top, remaining⟩ := pmmAlloc_concat shape
  have inStack : frame ∈ machine.pmm.stack := by simp [shape]
  have isFrame := wellFormed.valid.frames frame inStack
  exact ⟨frame, (pmmAlloc machine.pmm).2, {
    popped := Prod.ext top rfl
    stack := by rw [shape, remaining]
    nonzero := isFrame.nonzero
    isTable := (isTable_iff frame).mpr
      ⟨isFrame.aligned, wellFormed.spareLow frame inStack⟩
    unreached := wellFormed.spare frame inStack
  }⟩

variable {roots : Set U64} {owner table : U64} {path : List (Fin 512)} {index : Fin 512}
  {before after : Machine}

namespace FreshFrame

variable {machine : Machine} {frame : U64} {rest : Pmm}

variable (fresh : FreshFrame roots machine frame rest)

include fresh

theorem ne_table (ownerRoot : owner ∈ roots)
    (reached : tableAt tableLink machine.memory owner path = some table) :
    frame ≠ table := by
  rintro rfl
  exact fresh.unreached owner ownerRoot path reached

theorem subset {free : U64} (member : free ∈ rest.stack) :
    free ∈ machine.pmm.stack := by
  rw [fresh.stack]
  exact mem_append_left _ member

theorem not_left (wellFormed : WellFormed roots machine) :
    frame ∉ rest.stack := by
  have nodup := wellFormed.valid.nodup
  rw [fresh.stack] at nodup
  exact fun left => disjoint_of_nodup_append nodup left (mem_singleton_self frame)

theorem wellFormed (wellFormed : WellFormed roots machine) :
    WellFormed roots { machine with pmm := rest } := by
  have nodup := wellFormed.valid.nodup
  rw [fresh.stack] at nodup
  exact {
    separated := wellFormed.separated
    rootTable := wellFormed.rootTable
    linkedLow := wellFormed.linkedLow
    noHuge := wellFormed.noHuge
    spare := fun free member => wellFormed.spare free (fresh.subset member)
    valid := {
      nodup := nodup.of_append_left
      frames := fun free member =>
        wellFormed.valid.frames free (fresh.subset member)
    }
    spareLow := fun free member =>
      wellFormed.spareLow free (fresh.subset member)
  }

end FreshFrame

/--
A frame is popped and hung into the slot `index` of the table at `path`.  It
holds zeros if the slot was empty and the pieces of the leaf if that was a
2 MiB leaf.
-/
structure HangStep
    (flags : U32)
    (owner : U64)
    (path : List (Fin 512))
    (index : Fin 512)
    (table fresh : U64)
    (before after : Machine) : Prop where
  reached : tableAt tableLink before.memory owner path = some table
  above : path.length < 3
  ordinary : path.length = 0 → index ≠ 511
  stack : before.pmm.stack = after.pmm.stack ++ [fresh]
  cr3 : after.cr3 = before.cr3
  elsewhere : ∀ other slot, other ≠ fresh → (other = table → slot ≠ index) →
    after.memory other slot = before.memory other slot
  content :
    (¬ Present (before.memory table index) ∧
      after.memory table index = fresh ||| pagePresent ||| pageWrite ∧
      ∀ slot, after.memory fresh slot = 0) ∨
    (path.length = 2 ∧
      Present (before.memory table index) ∧
      IsLarge (before.memory table index) ∧
      after.memory table index =
        fresh ||| pagePresent ||| pageWrite |||
          (leafFlags (before.memory table index) &&& ~~~pagePresent) ∧
      ∀ slot, after.memory fresh slot =
        splitEntry (before.memory table index) flags slot)

namespace HangStep

variable {flags : U32} {fresh : U64}

variable (step : HangStep flags owner path index table fresh before after)

include step

theorem fresh_mem : fresh ∈ before.pmm.stack := by
  rw [step.stack]
  simp

theorem freshTable (wellFormed : WellFormed roots before) : IsTable fresh := by
  rw [isTable_iff]
  exact ⟨(wellFormed.valid.frames fresh step.fresh_mem).aligned,
    wellFormed.spareLow fresh step.fresh_mem⟩

theorem empty : tableLink path.length index (before.memory table index) = none := by
  rcases step.content with ⟨absent, _⟩ | ⟨depth, _, large, _⟩
  · exact tableLink_absent _ _ absent
  · exact tableLink_large _ (by omega) large

theorem pointsTo (wellFormed : WellFormed roots before) :
    PointsTo (after.memory table index) fresh := by
  have freshTable := step.freshTable wellFormed
  rcases step.content with ⟨_, entry, _⟩ | ⟨_, _, _, entry, _⟩
  · rw [entry]
    exact pointsTo_new freshTable
  · rw [entry]
    exact pointsTo_split freshTable _

theorem linked (wellFormed : WellFormed roots before) :
    tableLink path.length index (after.memory table index) = some fresh :=
  tableLink_pointsTo step.ordinary step.above (step.pointsTo wellFormed)

theorem barren (slot : Fin 512) :
    tableLink (path.length + 1) slot (after.memory fresh slot) = none := by
  rcases step.content with ⟨_, _, zero⟩ | ⟨depth, _⟩
  · rw [zero]
    exact tableLink_absent _ _ (by decide)
  · exact tableLink_leaf _ _ (by omega)

section

variable (wellFormed : WellFormed roots before) (ownerRoot : owner ∈ roots)

include wellFormed ownerRoot

theorem edit : Edit tableLink roots before.memory after.memory path table index {fresh} where
  separated := wellFormed.separated
  reached := ⟨owner, ownerRoot, step.reached⟩
  unreached := by
    rintro other rfl
    exact wellFormed.spare _ step.fresh_mem
  elsewhere := step.elsewhere

theorem tableAt_iff (member : root ∈ roots) (query : List (Fin 512)) (found : U64) :
    tableAt tableLink after.memory root query = some found ↔
      tableAt tableLink before.memory root query = some found ∨
        (tableAt tableLink before.memory root path = some table ∧
          query = path ++ [index] ∧ found = fresh) :=
  (step.edit wellFormed ownerRoot).tableAt_graft step.empty
    (step.linked wellFormed) step.barren member query found

theorem walk_of_avoids (member : root ∈ roots) (ordinary : pml4Index va ≠ 511)
    (avoids : tableAt tableLink before.memory root path = some table →
      ¬ path ++ [index] <+: vaPath va) :
    walk after.memory root va = walk before.memory root va := by
  have rootTable := wellFormed.rootTable root member
  have same := (step.edit wellFormed ownerRoot).sameAlong member avoids
  rw [walk_eq_translate rootTable ordinary, walk_eq_translate rootTable ordinary, same.trail_eq]

theorem trail_of_passes (member : root ∈ roots)
    (reached : tableAt tableLink before.memory root path = some table) (slot : Fin 512)
    (rest : List (Fin 512)) :
    trail tableLink before.memory 0 root (path ++ index :: slot :: rest) =
        trail tableLink before.memory 0 root path ++ [before.memory table index] ∧
      trail tableLink after.memory 0 root (path ++ index :: slot :: rest) =
        trail tableLink before.memory 0 root path ++
          [after.memory table index, after.memory fresh slot] := by
  constructor
  · rw [trail_append reached, zero_add, trail_stop step.empty]
  · rw [(step.edit wellFormed ownerRoot).trail_through member reached, trail,
      step.linked wellFormed]
    simp only
    rw [trail_stop (step.barren slot)]

/--
A step changes no walk, except that the addresses of a split leaf are
translated by the pieces, with the same result.
-/
theorem walk_cases (member : root ∈ roots) (ordinary : pml4Index va ≠ 511) :
    walk after.memory root va = walk before.memory root va ∨
      (path.length = 2 ∧ path ++ [index] <+: vaPath va ∧ IsLarge (before.memory table index) ∧
        ∃ old new, walk before.memory root va = some old ∧ walk after.memory root va = some new ∧
          old.pageBits = 21 ∧ Kept flags old new) := by
  have rootTable := wellFormed.rootTable root member
  by_cases passes : tableAt tableLink before.memory root path = some table ∧
      path ++ [index] <+: vaPath va
  · obtain ⟨reached, through⟩ := passes
    obtain ⟨rest, shape⟩ := through
    rw [append_assoc, singleton_append] at shape
    cases rest with
    | nil =>
      have length := congrArg List.length shape
      have above := step.above
      simp [vaPath] at length
      omega
    | cons slot rest =>
      obtain ⟨trailBefore, trailAfter⟩ :=
        step.trail_of_passes wellFormed ownerRoot member reached slot rest
      rw [walk_eq_translate rootTable ordinary,
        walk_eq_translate rootTable ordinary, ← shape, trailBefore, trailAfter]
      have prefixLength := length_trail reached
      by_cases canonical : Canonical va
      · simp only [if_pos canonical]
        rcases step.content with
          ⟨absent, _, zero⟩ | ⟨depth, present, large, entry, pieces⟩
        · left
          rw [append_cons, zero, translate_absent _ _ absent, translate_absent _ _ (by decide)]
        · right
          rw [depth] at prefixLength
          obtain ⟨pml4e, pdpte, words⟩ := length_eq_two.mp prefixLength
          have isPtIndex : slot = ptIndex va := by
            obtain ⟨first, second, pathShape⟩ := length_eq_two.mp depth
            rw [pathShape] at shape
            simp only [vaPath, cons_append, nil_append, List.cons.injEq] at shape
            exact shape.2.2.2.1
          have pieceBit : Present (splitEntry (before.memory table index) flags slot) := by
            rw [present_iff] at present ⊢
            rw [getLsbD_splitEntry]
            simpa using present
          refine ⟨depth, ⟨slot :: rest, by simp⟩, large,
            leafTranslation va 21 [pml4e, pdpte, before.memory table index]
              (before.memory table index),
            leafTranslation va 12 [pml4e, pdpte, after.memory table index, after.memory fresh slot]
              (after.memory fresh slot), ?_, ?_, rfl, ?_⟩
          · simp [words, translate, present]
          · simp [words, translate, pieces, pieceBit]
          · rw [entry, pieces, isPtIndex]
            exact kept_split va pml4e pdpte _ fresh flags (step.freshTable wellFormed)
      · left
        simp only [if_neg canonical]
  · left
    rw [not_and] at passes
    exact step.walk_of_avoids wellFormed ownerRoot member ordinary passes

end

theorem wellFormed (wellFormed : WellFormed roots before) (ownerRoot : owner ∈ roots) :
    WellFormed roots after := by
  have edit := step.edit wellFormed ownerRoot
  have nodup := wellFormed.valid.nodup
  rw [step.stack] at nodup
  have stackSubset : ∀ frame ∈ after.pmm.stack, frame ∈ before.pmm.stack := by
    intro frame member
    rw [step.stack]
    exact mem_append_left _ member
  exact {
    separated := edit.separated_graft step.empty (step.linked wellFormed)
      step.barren
    rootTable := wellFormed.rootTable
    linkedLow := by
      intro root member query found slot reached links
      rw [step.tableAt_iff wellFormed ownerRoot member] at reached
      rcases reached with old | ⟨_, rfl, rfl⟩
      · by_cases edited : found = table ∧ slot = index
        · rw [edited.1, edited.2]
          exact (step.pointsTo wellFormed).low
        · have same : after.memory found slot = before.memory found slot := by
            apply step.elsewhere
            · rintro rfl
              exact wellFormed.spare _ step.fresh_mem root member query old
            · exact fun isTable isIndex => edited ⟨isTable, isIndex⟩
          rw [same] at links ⊢
          exact wellFormed.linkedLow root member query found slot old links
      · rw [length_append, length_singleton] at links
        exact (links (step.barren slot)).elim
    noHuge := by
      intro root member top found slot reached present
      rw [step.tableAt_iff wellFormed ownerRoot member] at reached
      rcases reached with old | ⟨_, isSlot, rfl⟩
      · by_cases edited : found = table ∧ slot = index
        · rw [edited.1, edited.2]
          exact (step.pointsTo wellFormed).small
        · have same : after.memory found slot = before.memory found slot := by
            apply step.elsewhere
            · rintro rfl
              exact wellFormed.spare _ step.fresh_mem root member [top] old
            · exact fun isTable isIndex => edited ⟨isTable, isIndex⟩
          rw [same] at present ⊢
          exact wellFormed.noHuge root member top found slot old present
      · have depth : path.length = 0 := by
          have length := congrArg List.length isSlot
          simpa using length
        rcases step.content with ⟨_, _, zero⟩ | ⟨notTop, _⟩
        · rw [zero] at present
          exact absurd present (by decide)
        · omega
    spare := by
      intro frame free root member query reached
      rw [step.tableAt_iff wellFormed ownerRoot member] at reached
      rcases reached with old | ⟨_, _, rfl⟩
      · exact wellFormed.spare frame (stackSubset frame free) root member
          query old
      · exact (disjoint_of_nodup_append nodup) free (by simp)
    valid := {
      nodup := nodup.of_append_left
      frames := fun frame member =>
        wellFormed.valid.frames frame (stackSubset frame member)
    }
    spareLow := fun frame member =>
      wellFormed.spareLow frame (stackSubset frame member)
  }

end HangStep

/-- A leaf entry is written into the slot `index` of the table at `path`. -/
structure LeafStep
    (owner : U64)
    (path : List (Fin 512))
    (index : Fin 512)
    (table word : U64)
    (before after : Machine) : Prop where
  reached : tableAt tableLink before.memory owner path = some table
  bottom : path.length = 3
  pmm : after.pmm = before.pmm
  cr3 : after.cr3 = before.cr3
  memory : after.memory = before.memory.write table index word

namespace LeafStep

variable {word : U64}

variable (step : LeafStep owner path index table word before after)

include step

theorem elsewhere {other : U64} {slot : Fin 512} (different : other = table → slot ≠ index) :
    after.memory other slot = before.memory other slot := by
  rw [step.memory]
  by_cases samePage : other = table
  · exact Memory.write_other_index _ _ _ _ (different samePage)
  · exact Memory.write_other_page _ _ _ _ samePage

section

variable (wellFormed : WellFormed roots before) (ownerRoot : owner ∈ roots)

include wellFormed ownerRoot

theorem edit :
    Edit tableLink roots before.memory after.memory path table index ∅ where
  separated := wellFormed.separated
  reached := ⟨owner, ownerRoot, step.reached⟩
  unreached := fun _ member => member.elim
  elsewhere := fun _ _ _ different => step.elsewhere different

theorem tableAt_eq (member : root ∈ roots) (query : List (Fin 512)) :
    tableAt tableLink after.memory root query = tableAt tableLink before.memory root query :=
  (step.edit wellFormed ownerRoot).tableAt_of_unlinked (tableLink_leaf _ _ (by rw [step.bottom]))
    (tableLink_leaf _ _ (by rw [step.bottom])) member query

/-- Addresses of other pages, or of spaces without the table, are untouched. -/
theorem walk_of_avoids (member : root ∈ roots) (ordinary : pml4Index va ≠ 511)
    (avoids : tableAt tableLink before.memory root path = some table →
      path ++ [index] ≠ vaPath va) :
    walk after.memory root va = walk before.memory root va := by
  have rootTable := wellFormed.rootTable root member
  have same : SameAlong tableLink before.memory after.memory 0 root (vaPath va) := by
    apply (step.edit wellFormed ownerRoot).sameAlong member
    intro reached through
    apply avoids reached
    apply through.eq_of_length
    simp [step.bottom, vaPath]
  rw [walk_eq_translate rootTable ordinary, walk_eq_translate rootTable ordinary, same.trail_eq]

theorem walk_here (member : root ∈ roots) (ordinary : pml4Index va ≠ 511) (canonical : Canonical va)
    (reached : tableAt tableLink before.memory root path = some table)
    (here : path ++ [index] = vaPath va) (present : Present word) :
    ∃ words, walk after.memory root va = some (leafTranslation va 12 words word) := by
  have rootTable := wellFormed.rootTable root member
  have prefixLength := length_trail reached
  rw [step.bottom] at prefixLength
  obtain ⟨pml4e, pdpte, pde, words⟩ := length_eq_three.mp prefixLength
  have entry : after.memory table index = word := by
    rw [step.memory, Memory.write_same]
  refine ⟨[pml4e, pdpte, pde, word], ?_⟩
  rw [walk_eq_translate rootTable ordinary, if_pos canonical, ← here,
    (step.edit wellFormed ownerRoot).trail_through member reached, words,
    trail_stop (tableLink_leaf _ _ (by rw [step.bottom])), entry]
  simp [translate, present]

end

theorem wellFormed (wellFormed : WellFormed roots before) (ownerRoot : owner ∈ roots) :
    WellFormed roots after := by
  -- The table of the leaf stands at depth three and at no other depth.
  have untouched : ∀ root ∈ roots, ∀ query found slot,
      tableAt tableLink before.memory root query = some found →
      query.length < 3 →
      after.memory found slot = before.memory found slot := by
    intro root member query found slot reached above
    apply step.elsewhere
    rintro rfl
    have samePath := wellFormed.separated root member owner ownerRoot query path
      found reached step.reached
    rw [samePath, step.bottom] at above
    omega
  exact {
    separated := by
      intro root member other otherMember first second found
      rw [step.tableAt_eq wellFormed ownerRoot member,
        step.tableAt_eq wellFormed ownerRoot otherMember]
      exact wellFormed.separated root member other otherMember first second found
    rootTable := wellFormed.rootTable
    linkedLow := by
      intro root member query found slot reached links
      rw [step.tableAt_eq wellFormed ownerRoot member] at reached
      by_cases above : query.length < 3
      · rw [untouched root member query found slot reached above] at links ⊢
        exact wellFormed.linkedLow root member query found slot reached links
      · exact (links (tableLink_leaf _ _ (by omega))).elim
    noHuge := by
      intro root member top found slot reached
      rw [step.tableAt_eq wellFormed ownerRoot member] at reached
      rw [untouched root member [top] found slot reached (by simp)]
      exact wellFormed.noHuge root member top found slot reached
    spare := by
      rw [step.pmm]
      intro frame free root member query
      rw [step.tableAt_eq wellFormed ownerRoot member]
      exact wellFormed.spare frame free root member query
    valid := step.pmm ▸ wellFormed.valid
    spareLow := step.pmm ▸ wellFormed.spareLow
  }

end LeafStep

/-- Words of one page are written, and nothing else changes. -/
structure DataStep (frame : U64) (before after : Machine) : Prop where
  pmm : after.pmm = before.pmm
  cr3 : after.cr3 = before.cr3
  elsewhere : ∀ other, other ≠ frame → after.memory other = before.memory other

namespace DataStep

variable {frame : U64}

variable (step : DataStep frame before after)

include step

theorem tableAt_eq (unreached : Unreached tableLink before.memory roots frame) {root : U64}
    (member : root ∈ roots) (query : List (Fin 512)) :
    tableAt tableLink after.memory root query = tableAt tableLink before.memory root query :=
  (sameAlong_of_unreached unreached step.elsewhere member query).descend_eq

theorem walk_eq (wellFormed : WellFormed roots before)
    (unreached : Unreached tableLink before.memory roots frame) {root va : U64}
    (member : root ∈ roots) (ordinary : pml4Index va ≠ 511) :
    walk after.memory root va = walk before.memory root va := by
  have rootTable := wellFormed.rootTable root member
  rw [walk_eq_translate rootTable ordinary, walk_eq_translate rootTable ordinary,
    (sameAlong_of_unreached unreached step.elsewhere member _).trail_eq]

theorem keeps_unreached (unreached : Unreached tableLink before.memory roots frame) {other : U64}
    (otherUnreached : Unreached tableLink before.memory roots other) :
    Unreached tableLink after.memory roots other := by
  intro root member query
  rw [step.tableAt_eq unreached member]
  exact otherUnreached root member query

theorem wellFormed (wellFormed : WellFormed roots before)
    (unreached : Unreached tableLink before.memory roots frame) :
    WellFormed roots after := by
  have contents : ∀ root ∈ roots, ∀ path table,
      tableAt tableLink before.memory root path = some table →
      after.memory table = before.memory table := by
    intro root member path table reached
    apply step.elsewhere
    rintro rfl
    exact unreached root member path reached
  exact {
    separated := by
      intro root member other otherMember path otherPath table
      rw [step.tableAt_eq unreached member, step.tableAt_eq unreached otherMember]
      exact wellFormed.separated root member other otherMember path otherPath
        table
    rootTable := wellFormed.rootTable
    linkedLow := by
      intro root member path table index reached links
      rw [step.tableAt_eq unreached member] at reached
      rw [contents root member path table reached] at links ⊢
      exact wellFormed.linkedLow root member path table index reached links
    noHuge := by
      intro root member slot table index reached
      rw [step.tableAt_eq unreached member] at reached
      rw [contents root member [slot] table reached]
      exact wellFormed.noHuge root member slot table index reached
    spare := by
      rw [step.pmm]
      exact fun free member =>
        step.keeps_unreached unreached (wellFormed.spare free member)
    valid := step.pmm ▸ wellFormed.valid
    spareLow := step.pmm ▸ wellFormed.spareLow
  }

end DataStep

end XKern
