import XKern.BootTables

namespace XKern

open RadixStore List

/-!
# What `paging_map_page` does

A call is a run of `HangStep`s along the path of the address, followed by one
`LeafStep` unless the frames run out first.  From this follow the effect on
every walk, the number of frames taken and the pages written.
-/

/-- The three upper indices of an address: its 2 MiB region. -/
def regionPath (va : U64) : List (Fin 512) :=
  [pml4Index va, pdptIndex va, pdIndex va]

/-- The paths of the three tables below the PML4 on the way to an address. -/
def tablePaths (va : U64) : List (List (Fin 512)) :=
  [[pml4Index va], [pml4Index va, pdptIndex va], regionPath va]

/-- The tables that are missing on the way to the addresses. -/
def missingTables (memory : Memory) (root : U64) (vas : List U64) :
    Finset (List (Fin 512)) :=
  (vas.flatMap tablePaths).toFinset.filter
    fun path => tableAt tableLink memory root path = none

/--
The tables of a space grow by those at the paths `hung`, which take the frames
`popped` from the stack.  Only tables are written.
-/
structure TableGrowth
    (root : U64)
    (hung : List (List (Fin 512)))
    (popped : List U64)
    (before after : Machine) : Prop where
  stack : before.pmm.stack = after.pmm.stack ++ popped
  length : popped.length = hung.length
  nodup : hung.Nodup
  missing : ∀ path ∈ hung, tableAt tableLink before.memory root path = none
  remaining : ∀ path,
    tableAt tableLink after.memory root path = none ↔
      tableAt tableLink before.memory root path = none ∧ path ∉ hung
  tables : ∀ page,
    (∃ path, tableAt tableLink after.memory root path = some page) ↔
      (∃ path, tableAt tableLink before.memory root path = some page) ∨
        page ∈ popped
  memory : ∀ page,
    (∀ path, tableAt tableLink after.memory root path ≠ some page) →
    after.memory page = before.memory page

variable {hung later : List (List (Fin 512))} {before middle after machine : Machine}
  {roots : Set U64} {owner : U64}

namespace TableGrowth

variable {root : U64} {popped laterPopped : List U64}

theorem refl (root : U64) (machine : Machine) : TableGrowth root [] [] machine machine where
  stack := by simp
  length := rfl
  nodup := nodup_nil
  missing := by simp
  remaining := by simp
  tables := by simp
  memory := fun _ _ => rfl

theorem trans (first : TableGrowth root hung popped before middle)
    (second : TableGrowth root later laterPopped middle after) :
    TableGrowth root (hung ++ later) (laterPopped ++ popped) before after where
  stack := by rw [first.stack, second.stack, append_assoc]
  length := by
    rw [length_append, length_append, first.length, second.length, add_comm]
  nodup := by
    rw [nodup_append]
    refine ⟨first.nodup, second.nodup, ?_⟩
    rintro path inFirst _ inSecond rfl
    exact ((first.remaining path).mp (second.missing path inSecond)).2 inFirst
  missing := by
    intro path member
    rcases List.mem_append.mp member with inFirst | inSecond
    · exact first.missing path inFirst
    · exact ((first.remaining path).mp (second.missing path inSecond)).1
  remaining := by
    intro path
    rw [second.remaining, first.remaining, mem_append, not_or, and_assoc]
  tables := by
    intro page
    rw [second.tables, first.tables, mem_append, or_assoc, or_comm (a := page ∈ popped)]
  memory := by
    intro page unreached
    have unreachedBefore : ∀ path, tableAt tableLink middle.memory root path ≠ some page := by
      intro path reached
      obtain ⟨later, still⟩ := (second.tables page).mpr (.inl ⟨path, reached⟩)
      exact unreached later still
    rw [second.memory page unreached, first.memory page unreachedBefore]

end TableGrowth

/-- A hung table is one more of the owner's. -/
theorem HangStep.growth {flags : U32} {path : List (Fin 512)} {index : Fin 512}
    {table fresh : U64} (step : HangStep flags owner path index table fresh before after)
    (wellFormed : WellFormed roots before) (ownerRoot : owner ∈ roots) :
    TableGrowth owner [path ++ [index]] [fresh] before after := by
  have added := fun query found =>
    step.tableAt_iff wellFormed ownerRoot ownerRoot query found
  have wasMissing := (tableAt_concat step.reached index).trans step.empty
  exact {
    stack := step.stack
    length := rfl
    nodup := nodup_singleton _
    missing := by
      intro query member
      rw [List.mem_singleton.mp member]
      exact wasMissing
    remaining := by
      intro query
      rw [Option.eq_none_iff_forall_ne_some, Option.eq_none_iff_forall_ne_some, mem_singleton]
      simp only [ne_eq, added, not_or, step.reached, true_and]
      grind
    tables := by
      intro page
      simp only [added, step.reached, true_and, exists_or, mem_singleton]
      grind
    memory := by
      intro page unreached
      funext slot
      apply step.elsewhere
      · rintro rfl
        exact unreached _ ((added _ _).mpr (.inr ⟨step.reached, rfl, rfl⟩))
      · rintro rfl
        exact (unreached _ ((added _ _).mpr (.inl step.reached))).elim
  }

/-- A leaf entry adds no table. -/
theorem LeafStep.growth {path : List (Fin 512)} {index : Fin 512} {table word : U64}
    (step : LeafStep owner path index table word before after)
    (wellFormed : WellFormed roots before) (ownerRoot : owner ∈ roots) :
    TableGrowth owner [] [] before after where
  stack := by simp [step.pmm]
  length := rfl
  nodup := nodup_nil
  missing := by simp
  remaining := by
    simp [step.tableAt_eq wellFormed ownerRoot ownerRoot]
  tables := by
    simp [step.tableAt_eq wellFormed ownerRoot ownerRoot]
  memory := by
    intro page unreached
    funext slot
    apply step.elsewhere
    rintro rfl
    apply (unreached path _).elim
    rw [step.tableAt_eq wellFormed ownerRoot ownerRoot]
    exact step.reached

/-- A sequence of hang steps, with the paths of the new tables. -/
inductive HangRun (flags : U32) (owner : U64) :
    List (List (Fin 512)) → Machine → Machine → Prop where
  | done (machine : Machine) : HangRun flags owner [] machine machine
  | step
      {path : List (Fin 512)}
      {index : Fin 512}
      {table fresh : U64}
      {before middle after : Machine}
      {hung : List (List (Fin 512))}
      (first : HangStep flags owner path index table fresh before middle)
      (rest : HangRun flags owner hung middle after) :
      HangRun flags owner ((path ++ [index]) :: hung) before after

namespace HangRun

variable {flags : U32}

theorem trans (first : HangRun flags owner hung before middle)
    (second : HangRun flags owner later middle after) :
    HangRun flags owner (hung ++ later) before after := by
  induction first with
  | done => exact second
  | step step _ ih =>
    exact .step step (ih second)

variable (run : HangRun flags owner hung before after)

include run

theorem wellFormed (wellFormed : WellFormed roots before) (ownerRoot : owner ∈ roots) :
    WellFormed roots after := by
  induction run with
  | done => exact wellFormed
  | step step _ ih =>
    exact ih (step.wellFormed wellFormed ownerRoot)

theorem cr3 : after.cr3 = before.cr3 := by
  induction run with
  | done => rfl
  | step step _ ih => exact ih.trans step.cr3

theorem growth (wellFormed : WellFormed roots before) (ownerRoot : owner ∈ roots) :
    ∃ popped, TableGrowth owner hung popped before after := by
  induction run with
  | done machine => exact ⟨[], .refl owner machine⟩
  | step step _ ih =>
    obtain ⟨popped, later⟩ := ih (step.wellFormed wellFormed ownerRoot)
    exact ⟨_, (step.growth wellFormed ownerRoot).trans later⟩

end HangRun

/-- What a table-ensuring step of `paging_map_page` may result in. -/
def Ensured (flags : U32) (owner : U64) (path : List (Fin 512)) (index : Fin 512) (table : U64)
    (machine : Machine) : Except Machine Machine → Prop
  | .ok after =>
      (∃ hung, HangRun flags owner hung machine after ∧
        ∀ query ∈ hung, query = path ++ [index]) ∧
      tableAt tableLink after.memory owner (path ++ [index]) =
        some (ptPtr (after.memory table index))
  | .error after =>
      after = machine ∧ machine.pmm.stack = [] ∧
        tableAt tableLink machine.memory owner (path ++ [index]) = none

section Ensure

variable {path : List (Fin 512)} {index : Fin 512} {table : U64}

theorem ptPtr_eq_self {t : U64} (isTable : IsTable t) : ptPtr t = t := by
  have low := (isTable_iff t).mp isTable
  rw [ptPtr_eq_frame low.2]
  exact isTable

/-- A table that is hung in ensures its level. -/
theorem ensured_of_hangStep {flags : U32} {fresh : U64} (wellFormed : WellFormed roots machine)
    (ownerRoot : owner ∈ roots) (step : HangStep flags owner path index table fresh machine after) :
    Ensured flags owner path index table machine (.ok after) := by
  refine ⟨⟨[path ++ [index]], .step step (.done after), by simp⟩, ?_⟩
  rw [(step.pointsTo wellFormed).ptr, step.tableAt_iff wellFormed ownerRoot ownerRoot]
  exact .inr ⟨step.reached, rfl, rfl⟩

section

variable (flags : U32) (wellFormed : WellFormed roots machine) (ownerRoot : owner ∈ roots)
  (reached : tableAt tableLink machine.memory owner path = some table)

include flags wellFormed ownerRoot reached

/-- A slot with a table needs nothing. -/
theorem ensured_of_linked
    (linked : tableLink path.length index (machine.memory table index) =
      some (machine.memory table index &&& frameBits)) :
    Ensured flags owner path index table machine (.ok machine) := by
  refine ⟨⟨[], .done machine, by simp⟩, ?_⟩
  have low := wellFormed.linkedLow owner ownerRoot path table index reached (by simp [linked])
  rw [tableAt_concat reached, linked, ptPtr_eq_frame low]

theorem newTable_ensured (above : path.length < 3) (ordinary : path.length = 0 → index ≠ 511)
    (absent : ¬ Present (machine.memory table index)) :
    Ensured flags owner path index table machine (newTable table index machine) := by
  unfold newTable
  by_cases empty : machine.pmm.stack = []
  · rw [pmmAlloc_nil empty]
    exact ⟨rfl, empty, (tableAt_concat reached index).trans (tableLink_absent _ _ absent)⟩
  · obtain ⟨t, rest, fresh⟩ := wellFormed.freshFrame empty
    have notTable := fresh.ne_table ownerRoot reached
    simp only [fresh.popped, if_neg fresh.nonzero]
    apply ensured_of_hangStep wellFormed ownerRoot
    refine {
      reached, above, ordinary
      stack := fresh.stack
      cr3 := rfl
      elsewhere := ?_
      content := Or.inl ⟨absent, Memory.write_same _ _ _ _, ?_⟩
    }
    · intro other slot notFresh different
      simp only [zeroPageTable, ptPtr_eq_self fresh.isTable, Memory.write, Memory.fill]
      grind
    · intro slot
      simp only [zeroPageTable, ptPtr_eq_self fresh.isTable, Memory.write, Memory.fill]
      grind

theorem splitLeaf_ensured (depth : path.length = 2) (present : Present (machine.memory table index))
    (large : IsLarge (machine.memory table index)) :
    Ensured flags owner path index table machine (splitLeaf table index flags machine) := by
  unfold splitLeaf
  by_cases empty : machine.pmm.stack = []
  · rw [pmmAlloc_nil empty]
    exact ⟨rfl, empty, (tableAt_concat reached index).trans (tableLink_large _ (by omega) large)⟩
  · obtain ⟨t, rest, fresh⟩ := wellFormed.freshFrame empty
    have notTable := fresh.ne_table ownerRoot reached
    simp only [fresh.popped, if_neg fresh.nonzero]
    apply ensured_of_hangStep wellFormed ownerRoot
    refine {
      reached
      above := by omega
      ordinary := by omega
      stack := fresh.stack
      cr3 := rfl
      elsewhere := ?_
      content := Or.inr
        ⟨depth, present, large, Memory.write_same _ _ _ _, ?_⟩
    }
    · intro other slot notFresh different
      simp only [zeroPageTable, ptPtr_eq_self fresh.isTable, Memory.write, Memory.fill]
      grind
    · intro slot
      simp only [zeroPageTable, ptPtr_eq_self fresh.isTable, Memory.write, Memory.fill]
      grind

end

theorem ensureTable_ensured (flags : U32) (index : Fin 512) (wellFormed : WellFormed roots machine)
    (ownerRoot : owner ∈ roots) (reached : tableAt tableLink machine.memory owner path = some table)
    (upper : path.length < 2) (ordinary : path.length = 0 → index ≠ 511) :
    Ensured flags owner path index table machine (ensureTable table index machine) := by
  unfold ensureTable
  split
  · rename_i present
    apply ensured_of_linked flags wellFormed ownerRoot reached
    rw [tableLink_ordinary ordinary, hardwareLink, if_pos]
    refine ⟨present, ?_⟩
    rcases lt_or_ge 0 path.length with below | top
    · right
      obtain ⟨slot, shape⟩ := length_eq_one_iff.mp (by omega : path.length = 1)
      rw [shape] at reached
      exact ⟨by omega, wellFormed.noHuge owner ownerRoot slot table index reached present⟩
    · left
      omega
  · rename_i absent
    exact newTable_ensured flags wellFormed ownerRoot reached (by omega) ordinary absent

theorem ensurePageTable_ensured (flags : U32) (index : Fin 512)
    (wellFormed : WellFormed roots machine) (ownerRoot : owner ∈ roots)
    (reached : tableAt tableLink machine.memory owner path = some table) (depth : path.length = 2) :
    Ensured flags owner path index table machine (ensurePageTable table index flags machine) := by
  unfold ensurePageTable
  split
  · rename_i absent
    exact newTable_ensured flags wellFormed ownerRoot reached (by omega) (by omega) absent
  · rename_i present
    rw [not_not] at present
    split
    · rename_i large
      exact splitLeaf_ensured flags wellFormed ownerRoot reached depth present large
    · rename_i small
      apply ensured_of_linked flags wellFormed ownerRoot reached
      rw [tableLink_ordinary (by omega), hardwareLink, if_pos]
      exact ⟨present, .inr ⟨by omega, small⟩⟩

end Ensure

/-! ## The whole call -/

theorem mem_missingTables {memory : Memory} {root : U64} {vas : List U64} {path : List (Fin 512)} :
    path ∈ missingTables memory root vas ↔ (∃ va ∈ vas, path ∈ tablePaths va) ∧
        tableAt tableLink memory root path = none := by
  simp [missingTables]

theorem card_missingTables_le (memory : Memory) (root va : U64) :
    (missingTables memory root [va]).card ≤ 3 := by
  refine (Finset.card_filter_le _ _).trans ?_
  refine (toFinset_card_le _).trans ?_
  simp [tablePaths]

theorem tableAt_of_tablePaths {memory : Memory} {root va pt : U64}
    (reached : tableAt tableLink memory root (regionPath va) = some pt) {path : List (Fin 512)}
    (member : path ∈ tablePaths va) :
    tableAt tableLink memory root path ≠ none := by
  obtain ⟨rest, shape⟩ : ∃ rest, path ++ rest = regionPath va := by
    simp only [tablePaths, mem_cons, not_mem_nil, or_false] at member
    rcases member with rfl | rfl | rfl
    · exact ⟨[pdptIndex va, pdIndex va], rfl⟩
    · exact ⟨[pdIndex va], rfl⟩
    · exact ⟨[], rfl⟩
  rw [← shape] at reached
  obtain ⟨ancestor, found⟩ := tableAt_of_append reached
  simp [found]

/--
The outcome of `paging_map_page`.  Either all missing tables are hung in and
the leaf entry is written, or the free stack is used up before that.
-/
inductive MapOutcome
    (va pa : U64)
    (flags : U32)
    (machine after : Machine) : Prop where
  | mapped
      {hung : List (List (Fin 512))}
      {middle : Machine}
      {pt : U64}
      (run : HangRun flags (ptPtr machine.cr3) hung machine middle)
      (along : ∀ path ∈ hung, path ∈ tablePaths va)
      (leaf : LeafStep (ptPtr machine.cr3) (regionPath va) (ptIndex va) pt
        (leafEntry pa flags) middle after)
  | starved
      {hung : List (List (Fin 512))}
      {path : List (Fin 512)}
      (run : HangRun flags (ptPtr machine.cr3) hung machine after)
      (along : ∀ path ∈ hung, path ∈ tablePaths va)
      (empty : after.pmm.stack = [])
      (onPath : path ∈ tablePaths va)
      (missing : tableAt tableLink after.memory (ptPtr machine.cr3) path = none)

/-- Level by level, the call has one of the outcomes. -/
theorem pagingMapPage_outcome (wellFormed : WellFormed roots machine)
    (ownerRoot : ptPtr machine.cr3 ∈ roots) {va : U64} (ordinary : pml4Index va ≠ 511) (pa : U64)
    (flags : U32) :
    MapOutcome va pa flags machine (pagingMapPage va pa flags machine) := by
  unfold pagingMapPage mapPage
  simp only [bind, Except.bind, pure, Except.pure]
  -- First level: the slot of the PML4.
  have top : tableAt tableLink machine.memory (ptPtr machine.cr3) [] =
      some (ptPtr machine.cr3) := rfl
  have first := ensureTable_ensured flags (pml4Index va) wellFormed ownerRoot
    top (by simp) (fun _ => ordinary)
  cases firstResult : ensureTable (ptPtr machine.cr3) (pml4Index va) machine with
  | error stuck =>
    rw [firstResult] at first
    obtain ⟨rfl, empty, missing⟩ := first
    exact .starved (.done stuck) (by simp) empty (by simp [tablePaths]) missing
  | ok one =>
    rw [firstResult] at first
    obtain ⟨⟨hungOne, runOne, alongOne⟩, reachedOne⟩ := first
    have wellFormedOne := runOne.wellFormed wellFormed ownerRoot
    have alongOnePaths : ∀ path ∈ hungOne, path ∈ tablePaths va := by
      intro path member
      simp [alongOne path member, tablePaths]
    -- Second level: the slot of the PDPT.
    have second := ensureTable_ensured flags (pdptIndex va) wellFormedOne
      ownerRoot reachedOne (by simp) (by simp)
    simp only
    cases secondResult : ensureTable (ptPtr (one.memory (ptPtr machine.cr3) (pml4Index va)))
        (pdptIndex va) one with
    | error stuck =>
      rw [secondResult] at second
      obtain ⟨rfl, empty, missing⟩ := second
      exact .starved runOne alongOnePaths empty (by simp [tablePaths]) missing
    | ok two =>
      rw [secondResult] at second
      obtain ⟨⟨hungTwo, runTwo, alongTwo⟩, reachedTwo⟩ := second
      have wellFormedTwo := runTwo.wellFormed wellFormedOne ownerRoot
      have alongTwoPaths : ∀ path ∈ hungOne ++ hungTwo, path ∈ tablePaths va := by
        intro path member
        rcases List.mem_append.mp member with old | new
        · exact alongOnePaths path old
        · simp [alongTwo path new, tablePaths]
      -- Third level: the slot of the PD, which may hold a leaf.
      have third := ensurePageTable_ensured flags (pdIndex va) wellFormedTwo
        ownerRoot reachedTwo (by simp)
      simp only
      cases thirdResult : ensurePageTable (ptPtr (two.memory
            (ptPtr (one.memory (ptPtr machine.cr3) (pml4Index va)))
            (pdptIndex va)))
          (pdIndex va) flags two with
      | error stuck =>
        rw [thirdResult] at third
        obtain ⟨rfl, empty, missing⟩ := third
        exact .starved (runOne.trans runTwo) alongTwoPaths empty
          (by simp [tablePaths, regionPath]) missing
      | ok three =>
        rw [thirdResult] at third
        obtain ⟨⟨hungThree, runThree, alongThree⟩, reachedThree⟩ := third
        refine .mapped ((runOne.trans runTwo).trans runThree) ?_ {
          reached := reachedThree
          bottom := rfl
          pmm := rfl
          cr3 := rfl
          memory := rfl
        }
        intro path member
        rcases List.mem_append.mp member with old | new
        · exact alongTwoPaths path old
        · simp [alongThree path new, tablePaths, regionPath]

theorem region_eq_of_regionPath_eq {va other : U64} (canonical : Canonical va)
    (otherCanonical : Canonical other) (samePath : regionPath va = regionPath other) :
    va.toNat / 2 ^ 21 = other.toNat / 2 ^ 21 := by
  simp only [regionPath, cons.injEq, and_true, pml4Index, pdptIndex,
    pdIndex, Fin.ext_iff, val_tableIndex] at samePath
  unfold Canonical at canonical otherCanonical
  omega

/--
The translation of an address is unchanged, or it was given by the 2 MiB leaf
that the edit at `target` split, and is kept.
-/
def WalkKept (flags : U32) (target va : U64)
    (before after : Option Translation) : Prop :=
  after = before ∨
    (regionPath target = regionPath va ∧
      ∃ old new,
        before = some old ∧ after = some new ∧
          old.pageBits = 21 ∧ Kept flags old new)

theorem WalkKept.trans {flags : U32} {target va : U64} {first second third : Option Translation}
    (before : WalkKept flags target va first second)
    (after : WalkKept flags target va second third) :
    WalkKept flags target va first third := by
  rcases before with rfl | ⟨region, old, middle, isOld, rfl, large, kept⟩
  · exact after
  · rcases after with rfl | ⟨_, again, new, isAgain, isNew, _, keptAgain⟩
    · exact .inr ⟨region, old, middle, isOld, rfl, large, kept⟩
    · rw [Option.some.injEq] at isAgain
      subst isAgain
      exact .inr ⟨region, old, new, isOld, isNew, large, kept.trans keptAgain⟩

/-- New tables keep every translation. -/
theorem HangRun.walkKept {flags : U32} {target : U64}
    (run : HangRun flags owner hung before after)
    (along : ∀ path ∈ hung, path ∈ tablePaths target) (wellFormed : WellFormed roots before)
    (ownerRoot : owner ∈ roots) {root va : U64} (member : root ∈ roots)
    (ordinary : pml4Index va ≠ 511) :
    WalkKept flags target va (walk before.memory root va) (walk after.memory root va) := by
  induction run with
  | done => exact .inl rfl
  | @step path index _ _ _ _ _ _ step _ ih =>
    have later := ih (fun query isLater => along query (mem_cons_of_mem _ isLater))
      (step.wellFormed wellFormed ownerRoot)
    refine .trans ?_ later
    rcases step.walk_cases wellFormed ownerRoot member ordinary with
      same | ⟨depth, through, _, old, new, isOld, isNew, large, kept⟩
    · exact .inl same
    · refine .inr ⟨?_, old, new, isOld, isNew, large, kept⟩
      -- The split slot is the one of the 2 MiB region of both addresses.
      have onPath := along _ mem_cons_self
      have length : (path ++ [index]).length = 3 := by simp [depth]
      have ofTarget : path ++ [index] = regionPath target := by
        simp only [tablePaths, mem_cons, not_mem_nil, or_false]
          at onPath
        rcases onPath with shape | shape | shape
        · simp [shape] at length
        · simp [shape] at length
        · exact shape
      have ofVa : regionPath va <+: vaPath va := ⟨[ptIndex va], rfl⟩
      rw [← ofTarget]
      exact List.IsPrefix.eq_of_length (prefix_of_prefix_length_le through ofVa
          (by simp [length, regionPath]))
        (by simp [length, regionPath])

namespace MapOutcome

variable {va pa : U64} {flags : U32}

variable (outcome : MapOutcome va pa flags machine after)

include outcome

theorem wellFormed (wellFormed : WellFormed roots machine) (ownerRoot : ptPtr machine.cr3 ∈ roots) :
    WellFormed roots after := by
  cases outcome with
  | mapped run _ leaf =>
    exact leaf.wellFormed (run.wellFormed wellFormed ownerRoot) ownerRoot
  | starved run => exact run.wellFormed wellFormed ownerRoot

theorem cr3 : after.cr3 = machine.cr3 := by
  cases outcome with
  | mapped run _ leaf => exact leaf.cr3.trans run.cr3
  | starved run => exact run.cr3

theorem walkKept (wellFormed : WellFormed roots machine) (ownerRoot : ptPtr machine.cr3 ∈ roots)
    {root other : U64} (member : root ∈ roots) (ordinary : pml4Index other ≠ 511)
    (otherPage : vaPath va ≠ vaPath other) :
    WalkKept flags va other (walk machine.memory root other) (walk after.memory root other) := by
  cases outcome with
  | mapped run along leaf =>
    have kept := run.walkKept along wellFormed ownerRoot member ordinary
    rw [leaf.walk_of_avoids (run.wellFormed wellFormed ownerRoot) ownerRoot
      member ordinary (fun _ => otherPage)]
    exact kept
  | starved run along =>
    exact run.walkKept along wellFormed ownerRoot member ordinary

/-- With enough frames the leaf entry is written. -/
theorem mapped_of_enough (wellFormed : WellFormed roots machine)
    (ownerRoot : ptPtr machine.cr3 ∈ roots)
    (enough : (missingTables machine.memory (ptPtr machine.cr3) [va]).card ≤
      machine.pmm.stack.length) :
    ∃ middle pt, WellFormed roots middle ∧
        LeafStep (ptPtr machine.cr3) (regionPath va) (ptIndex va) pt
          (leafEntry pa flags) middle after := by
  cases outcome with
  | @mapped _ middle pt run _ leaf =>
    exact ⟨middle, pt, run.wellFormed wellFormed ownerRoot, leaf⟩
  | @starved hung path run along empty onPath missing =>
    obtain ⟨popped, growth⟩ := run.growth wellFormed ownerRoot
    rw [growth.remaining] at missing
    -- The run used every frame, yet one more table is missing.
    have oneMore : (path :: hung).toFinset ⊆
        missingTables machine.memory (ptPtr machine.cr3) [va] := by
      intro query member
      rw [mem_toFinset, mem_cons] at member
      rw [mem_missingTables]
      rcases member with rfl | isHung
      · exact ⟨⟨va, by simp, onPath⟩, missing.1⟩
      · exact ⟨⟨va, by simp, along query isHung⟩, growth.missing query isHung⟩
    have count := Finset.card_le_card oneMore
    rw [toFinset_card_of_nodup (nodup_cons.mpr ⟨missing.2, growth.nodup⟩), length_cons]
      at count
    rw [growth.stack, empty, nil_append, growth.length] at enough
    omega

end MapOutcome

/-! ## Correctness of one call -/

theorem walk_ptPtr (memory : Memory) (cr3 va : U64) :
    walk memory (ptPtr cr3) va = walk memory cr3 va := by
  have same : ptPtr cr3 &&& frameBits = cr3 &&& frameBits := by
    rw [ptPtr, BitVec.and_assoc]
    congr 1
  rw [walk, walk, same]

/--
The effect of `paging_map_page(va, pa, flags)` on the active space.  A 2 MiB
leaf around `va` is split; its other pages keep physical address, rights and
the bits present, write, user and no-execute, and their caching bits unless
`flags` asks for others.  Every other page keeps its whole leaf entry.
-/
structure MapsPage
    (va pa : U64)
    (flags : U32)
    (before after : Machine) : Prop where
  page : ∀ addr : U64, addr.toNat / 4096 = va.toNat / 4096 →
    ∃ translation,
      walk after.memory after.cr3 addr = some translation ∧
        translation.pageBits = 12 ∧
        translation.phys = (pa &&& frameBits) ||| (addr &&& ptFlagMask) ∧
        translation.leaf &&& ptFlagMask =
          ((flags &&& 0xFFF).setWidth 64 &&& ~~~pagePs) ||| pagePresent
  otherPages : ∀ addr : U64, pml4Index addr ≠ 511 →
    addr.toNat / 4096 ≠ va.toNat / 4096 →
    walk after.memory after.cr3 addr = walk before.memory before.cr3 addr ∨
      (addr.toNat / 2 ^ 21 = va.toNat / 2 ^ 21 ∧
        ∃ old new,
          walk before.memory before.cr3 addr = some old ∧
          walk after.memory after.cr3 addr = some new ∧
          old.pageBits = 21 ∧ Kept flags old new)
  wellFormed : WellFormed {ptPtr after.cr3} after

theorem phys_leafEntry (va pa : U64) (flags : U32) (words : List U64) :
    (leafTranslation va 12 words (leafEntry pa flags)).phys =
      (pa &&& frameBits) ||| (va &&& ptFlagMask) := by
  simp only [leafTranslation, leafEntry_and_frameBits, BitVec.and_assoc]
  rfl

theorem leafEntry_flags (pa : U64) (flags : U32) : leafEntry pa flags &&& ptFlagMask =
      ((flags &&& 0xFFF).setWidth 64 &&& ~~~pagePs) ||| pagePresent := by
  apply BitVec.eq_of_getLsbD_eq
  intro index _
  rw [BitVec.getLsbD_and, leafEntry, BitVec.or_assoc, BitVec.getLsbD_or,
    ptFlagMask_eq_mask, BitVec.getLsbD_and, BitVec.getLsbD_not,
    LowBits.getLsbD_mask, BitVec.getLsbD_or,
    show pagePresent = BitVec.twoPow 64 0 from rfl, BitVec.getLsbD_twoPow,
    BitVec.getLsbD_and, BitVec.getLsbD_setWidth, BitVec.getLsbD_and,
    show (0xFFF : U32) = LowBits.mask 32 12 from rfl, LowBits.getLsbD_mask]
  grind

theorem canonical_of_page_eq {va other : U64} (canonical : Canonical va)
    (samePage : other.toNat / 4096 = va.toNat / 4096) :
    Canonical other := by
  unfold Canonical at canonical ⊢
  omega

/-- On physical memory `paging_map_page` maps the page and keeps everything else. -/
theorem pagingMapPage_mapsPage (machine : Machine) (va pa : U64) (flags : U32)
    (wellFormed : WellFormed {ptPtr machine.cr3} machine) (canonical : Canonical va)
    (ordinary : pml4Index va ≠ 511)
    (enough : (missingTables machine.memory (ptPtr machine.cr3) [va]).card ≤
      machine.pmm.stack.length) :
    MapsPage va pa flags machine (pagingMapPage va pa flags machine) := by
  have ownerRoot : ptPtr machine.cr3 ∈ ({ptPtr machine.cr3} : Set U64) := rfl
  have outcome := pagingMapPage_outcome wellFormed ownerRoot ordinary pa flags
  have sameCr3 := outcome.cr3
  refine ⟨?_, ?_, sameCr3 ▸ outcome.wellFormed wellFormed ownerRoot⟩
  · intro addr samePage
    obtain ⟨middle, pt, middleWellFormed, leaf⟩ :=
      outcome.mapped_of_enough wellFormed ownerRoot enough
    have samePath := vaPath_eq_of_page_eq samePage
    have sameSlot : pml4Index addr = pml4Index va := by
      simp only [vaPath, cons.injEq] at samePath
      exact samePath.1
    obtain ⟨words, translated⟩ := leaf.walk_here middleWellFormed ownerRoot
      ownerRoot (sameSlot ▸ ordinary) (canonical_of_page_eq canonical samePage)
      leaf.reached samePath.symm (present_leafEntry pa flags)
    rw [sameCr3, ← walk_ptPtr]
    exact ⟨_, translated, rfl, phys_leafEntry addr pa flags words, leafEntry_flags pa flags⟩
  · intro addr addrOrdinary otherPage
    rw [sameCr3, ← walk_ptPtr, ← walk_ptPtr machine.memory]
    by_cases addrCanonical : Canonical addr
    · have otherPath : vaPath va ≠ vaPath addr := by
        intro samePath
        exact otherPage (page_eq_of_vaPath_eq canonical addrCanonical samePath).symm
      rcases outcome.walkKept wellFormed ownerRoot ownerRoot addrOrdinary
        otherPath with same | ⟨sameRegion, kept⟩
      · exact .inl same
      · exact .inr ⟨(region_eq_of_regionPath_eq canonical addrCanonical sameRegion).symm, kept⟩
    · left
      simp only [walk, if_neg addrCanonical]

end XKern
