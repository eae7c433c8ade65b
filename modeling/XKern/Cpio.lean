import XKern.Orbit
import XKern.Ramfs

namespace XKern

open Orbit List

/-!
# Unpacking the initial ramdisk

Model of `cpio_unpack` in `bsd/fs/ramfs/src/compat.cpp`.  Offsets are `u32`
and wrap.  One round of the loop reads a header and a name and either ends the
loop or moves to the next header; which files it adds on the way depends on
the headers only.
-/

/-- `arc` and `len`. -/
structure CpioArc where
  bytes : List U8
  fits : bytes.length < 2 ^ 32

/-- `len`. -/
def CpioArc.len (arc : CpioArc) : U32 :=
  .ofNat 32 arc.bytes.length

/-- `data` relative to the archive, and `size`. -/
structure CpioFile where
  dataOff : U32
  filesize : U32
  deriving Repr, DecidableEq

/-- The value of a hexadecimal digit; `char` is signed. -/
def hexDigit (c : U8) : U32 :=
  if 0x30 ≤ c ∧ c ≤ 0x39 then
    c.signExtend 32 - 0x30
  else
    (c.signExtend 32 ||| 0x20) - 0x61 + 10

/-- The lambda `hex`. -/
def hex (digits : List U8) : U32 :=
  digits.foldl (fun v c => v * 16 + hexDigit c) 0

/-- `CPIO_NEWC_HDR`. -/
def cpioNewcHdr : U32 := 110

/-- `"TRAILER!!!"`. -/
def trailerName : List U8 :=
  [0x54, 0x52, 0x41, 0x49, 0x4C, 0x45, 0x52, 0x21, 0x21, 0x21]

namespace CpioArc

/-- The bytes at some indices; `none` if one of them is outside the archive. -/
def read (arc : CpioArc) (indices : List Nat) : Option (List U8) :=
  if ∀ index ∈ indices, index < arc.bytes.length then
    some (indices.map fun index => arc.bytes.getD index 0)
  else
    none

/-- `hex(h + place, 8)`. -/
def headerField (arc : CpioArc) (offset : U32) (place : Nat) : Option U32 :=
  (arc.read ((List.range 8).map fun i => offset.toNat + place + i)).map hex

/-- The characters copied to `name`; the index is a `u32`. -/
def nameBytes (arc : CpioArc) (offset namesize : U32) : Option (List U8) :=
  arc.read ((List.range (namesize.toNat - 1)).map fun i =>
    (offset + cpioNewcHdr + .ofNat 32 i).toNat)

end CpioArc

/-- What one round of the loop does. -/
inductive CpioStep
  /-- The loop ends and `cpio_unpack` returns 0. -/
  | finished
  /-- `cpio_unpack` returns -1. -/
  | rejected
  /-- A byte outside the archive is read. -/
  | outside
  /-- The file to be added, if there is one, and the next offset. -/
  | entry (file : Option (List U8 × CpioFile)) (next : U32)
  deriving DecidableEq

/-- `name` is `.` or starts with `./`. -/
def isDotName (name : List U8) : Bool :=
  name = [dot] || [dot, slash].isPrefixOf name

/-- The rest of a round, once the header and the name have been read. -/
def cpioEntry (arc : CpioArc) (offset filesize namesize : U32) (name : List U8) :
    CpioStep :=
  if name = trailerName then
    .finished
  else
    let dataOff := (offset + cpioNewcHdr + namesize + 3) &&& ~~~3
    if dataOff + filesize > arc.len then
      .rejected
    else
      .entry (if isDotName name then none else some (name, ⟨dataOff, filesize⟩))
        ((dataOff + filesize + 3) &&& ~~~3)

/-- One round of the loop of `cpio_unpack`. -/
def cpioStep (arc : CpioArc) (offset : U32) : CpioStep :=
  if offset + cpioNewcHdr ≤ arc.len then
    match arc.headerField offset 54, arc.headerField offset 94 with
    | some filesize, some namesize =>
        if namesize < 2 ∨ namesize.toNat ≥ ramfsNameMax then
          .rejected
        else
          match arc.nameBytes offset namesize with
          | some bytes =>
              cpioEntry arc offset filesize namesize (bytes.takeWhile (· ≠ 0))
          | none => .outside
    | _, _ => .outside
  else
    .finished

/-- How `cpio_unpack` ends. -/
inductive CpioOutcome
  | returned (result : Int) (fs : Ramfs CpioFile)
  | outside
  /-- The runaway copy of a long name. -/
  | runaway

/-- The loop of `cpio_unpack`, with a bound on its rounds. -/
def cpioLoop (arc : CpioArc) : Nat → U32 → Ramfs CpioFile → Option CpioOutcome
  | 0, _, _ => none
  | fuel + 1, offset, fs =>
      match cpioStep arc offset with
      | .finished => some (.returned 0 fs)
      | .rejected => some (.returned (-1) fs)
      | .outside => some .outside
      | .entry none next => cpioLoop arc fuel next fs
      | .entry (some (name, data)) next =>
          match ramfsAdd fs name data with
          | some fs => cpioLoop arc fuel next fs
          | none => some .runaway

/-- `cpio_unpack` ends so. -/
def CpioUnpacks (arc : CpioArc) (outcome : CpioOutcome) : Prop :=
  ∃ fuel, cpioLoop arc fuel 0 (.empty CpioFile) = some outcome

/-! ## The headers that are visited -/

def cpioNext (arc : CpioArc) (offset : U32) : Option U32 :=
  match cpioStep arc offset with
  | .entry _ next => some next
  | _ => none

/-- The files that the next `count` rounds ask to add. -/
def cpioFiles (arc : CpioArc) : Nat → U32 → List (List U8 × CpioFile)
  | 0, _ => []
  | count + 1, offset =>
      match cpioStep arc offset with
      | .entry file next => file.toList ++ cpioFiles arc count next
      | _ => []

/-- The result of a round that is the last. -/
def CpioStep.ending (fs : Ramfs CpioFile) : CpioStep → CpioOutcome
  | .rejected => .returned (-1) fs
  | .outside => .outside
  | _ => .returned 0 fs

/-- The table after some additions, up to its limit. -/
def addedEntries {Data : Type} (entries : List (List U8 × Data))
    (files : List (List U8 × Data)) : List (List U8 × Data) :=
  (entries ++ files.map fun file => (storedName file.1, file.2)).take
    ramfsMaxFiles

theorem CpioArc.length_read {arc : CpioArc} {indices : List Nat} {bytes : List U8}
    (copied : arc.read indices = some bytes) :
    bytes.length = indices.length := by
  unfold CpioArc.read at copied
  split at copied
  · obtain rfl := Option.some.inj copied
    exact length_map _
  · cases copied

/-- The header at `offset` and its name can be read and have these values. -/
structure CpioHeader
    (arc : CpioArc)
    (offset filesize namesize : U32)
    (name : List U8) : Prop where
  guard : offset + cpioNewcHdr ≤ arc.len
  isFilesize : arc.headerField offset 54 = some filesize
  isNamesize : arc.headerField offset 94 = some namesize
  nonempty : 2 ≤ namesize.toNat
  short : namesize.toNat < ramfsNameMax
  isName : (arc.nameBytes offset namesize).map (takeWhile (· ≠ 0)) = some name

namespace CpioHeader

variable {arc : CpioArc} {offset filesize namesize : U32} {name : List U8}

theorem step_eq (header : CpioHeader arc offset filesize namesize name) :
    cpioStep arc offset = cpioEntry arc offset filesize namesize name := by
  have sizes : ¬ (namesize < 2 ∨ namesize.toNat ≥ ramfsNameMax) := by
    rw [not_or, BitVec.lt_def]
    exact ⟨not_lt.mpr header.nonempty, not_le.mpr header.short⟩
  obtain ⟨bytes, copied, isName⟩ := Option.map_eq_some_iff.mp header.isName
  simp only [cpioStep, if_pos header.guard, header.isFilesize, header.isNamesize,
    if_neg sizes, copied, isName]

theorem length_name (header : CpioHeader arc offset filesize namesize name) :
    name.length < ramfsNameMax - 1 := by
  obtain ⟨bytes, copied, rfl⟩ := Option.map_eq_some_iff.mp header.isName
  have count := CpioArc.length_read copied
  rw [length_map, length_range] at count
  calc
    (bytes.takeWhile (· ≠ 0)).length ≤ bytes.length := (takeWhile_sublist _).length_le
    _ = namesize.toNat - 1 := count
    _ < ramfsNameMax - 1 := by
      have nonempty := header.nonempty
      have short := header.short
      omega

theorem of_entry {file : Option (List U8 × CpioFile)} {next : U32}
    (step : cpioStep arc offset = .entry file next) :
    ∃ filesize namesize name, CpioHeader arc offset filesize namesize name ∧
        cpioEntry arc offset filesize namesize name = .entry file next := by
  unfold cpioStep at step
  split at step
  · rename_i guard
    split at step
    · rename_i filesize namesize isFilesize isNamesize
      split at step
      · cases step
      · rename_i sizes
        rw [not_or, BitVec.lt_def] at sizes
        split at step
        · rename_i bytes copied
          refine ⟨filesize, namesize, _, ?_, step⟩
          exact {
            guard, isFilesize, isNamesize
            nonempty := not_lt.mp sizes.1
            short := not_le.mp sizes.2
            isName := by rw [copied, Option.map_some]
          }
        · cases step
    · cases step
  · cases step

end CpioHeader

theorem cpioEntry_file {arc : CpioArc} {offset filesize namesize next : U32} {name stored : List U8}
    {file : CpioFile}
    (entry : cpioEntry arc offset filesize namesize name =
      .entry (some (stored, file)) next) :
    stored = name ∧ file.dataOff + file.filesize ≤ arc.len := by
  unfold cpioEntry at entry
  split at entry
  · cases entry
  · dsimp only at entry
    split at entry
    · cases entry
    · rename_i inside
      rw [CpioStep.entry.injEq] at entry
      obtain ⟨added, _⟩ := entry
      split at added
      · cases added
      · cases added
        exact ⟨rfl, BitVec.not_lt.mp inside⟩

/-! ## Whole runs -/

section Runs

variable {arc : CpioArc}

theorem addedEntries_nil (fs : Ramfs CpioFile) : addedEntries fs.entries [] = fs.entries := by
  have bounded := fs.bounded
  simp [addedEntries, Ramfs.entries, bounded]

theorem addedEntries_append (entries first second : List (List U8 × CpioFile)) :
    addedEntries (addedEntries entries first) second = addedEntries entries (first ++ second) := by
  have taken : ∀ front back : List (List U8 × CpioFile),
      (front.take ramfsMaxFiles ++ back).take ramfsMaxFiles =
        (front ++ back).take ramfsMaxFiles := by
    intro front back
    rw [take_append, take_append, take_take, min_self, length_take]
    congr 2
    omega
  rw [addedEntries, addedEntries, taken, append_assoc, ← map_append]
  rfl

theorem cpioLoop_entry {offset next : U32} {file : Option (List U8 × CpioFile)}
    (step : cpioStep arc offset = .entry file next) (fs : Ramfs CpioFile) :
    ∃ after, after.entries = addedEntries fs.entries file.toList ∧
      ∀ fuel, cpioLoop arc (fuel + 1) offset fs = cpioLoop arc fuel next after := by
  cases file with
  | none =>
    exact ⟨fs, (addedEntries_nil fs).symm, fun fuel => by rw [cpioLoop, step]⟩
  | some file =>
    obtain ⟨name, data⟩ := file
    obtain ⟨filesize, namesize, _, header, entry⟩ := CpioHeader.of_entry step
    obtain ⟨rfl, _⟩ := cpioEntry_file entry
    obtain ⟨after, added, entries⟩ := ramfsAdd_entries fs header.length_name data
    refine ⟨after, entries, fun fuel => ?_⟩
    rw [cpioLoop, step]
    simp only [added]

theorem cpioLoop_orbit (count : Nat) {start offset : U32}
    (reached : orbit (cpioNext arc) start count = some offset) (fs : Ramfs CpioFile) :
    ∃ after, after.entries = addedEntries fs.entries (cpioFiles arc count start) ∧
        ∀ fuel, cpioLoop arc (count + fuel) start fs = cpioLoop arc fuel offset after := by
  induction count generalizing start fs with
  | zero =>
    obtain rfl := Option.some.inj reached
    exact ⟨fs, (addedEntries_nil fs).symm, fun fuel => by rw [zero_add]⟩
  | succ count ih =>
    rw [orbit_succ, Option.bind_eq_some_iff] at reached
    obtain ⟨next, moves, later⟩ := reached
    unfold cpioNext at moves
    split at moves
    · rename_i file _ step
      obtain rfl := Option.some.inj moves
      obtain ⟨middle, added, first⟩ := cpioLoop_entry step fs
      obtain ⟨after, rest, remaining⟩ := ih later middle
      refine ⟨after, ?_, ?_⟩
      · rw [rest, added, addedEntries_append, cpioFiles, step]
      · intro fuel
        rw [add_right_comm, first, remaining]
    · cases moves

theorem cpioLoop_last {offset : U32} (stops : cpioNext arc offset = none) (fuel : Nat)
    (fs : Ramfs CpioFile) :
    cpioLoop arc (fuel + 1) offset fs = some ((cpioStep arc offset).ending fs) := by
  unfold cpioNext at stops
  rw [cpioLoop]
  cases step : cpioStep arc offset with
  | entry file next =>
    rw [step] at stops
    cases stops
  | finished => rfl
  | rejected => rfl
  | outside => rfl

theorem cpioUnpacks_iff {outcome : CpioOutcome} : CpioUnpacks arc outcome ↔ ∃ count offset fs,
        orbit (cpioNext arc) 0 count = some offset ∧ cpioNext arc offset = none ∧
          fs.entries = addedEntries [] (cpioFiles arc count 0) ∧
          outcome = (cpioStep arc offset).ending fs := by
  constructor
  · rintro ⟨fuel, ran⟩
    cases reached : orbit (cpioNext arc) 0 fuel with
    | some offset =>
      obtain ⟨after, _, rounds⟩ := cpioLoop_orbit fuel reached (Ramfs.empty CpioFile)
      have starved := rounds 0
      rw [add_zero, ran] at starved
      cases starved
    | none =>
      obtain ⟨count, offset, before, isLast, stops⟩ := exists_last (cpioNext arc) reached
      obtain ⟨after, entries, rounds⟩ := cpioLoop_orbit count isLast (Ramfs.empty CpioFile)
      have last := rounds (fuel - count - 1 + 1)
      rw [show count + (fuel - count - 1 + 1) = fuel by omega, ran, cpioLoop_last stops] at last
      exact ⟨count, offset, after, isLast, stops, entries, Option.some.inj last⟩
  · rintro ⟨count, offset, fs, isLast, stops, entries, rfl⟩
    obtain ⟨after, sameEntries, rounds⟩ := cpioLoop_orbit count isLast (Ramfs.empty CpioFile)
    have same : after = fs := Ramfs.entries_injective (sameEntries.trans entries.symm)
    exact ⟨count + 1, by rw [rounds 1, cpioLoop_last stops 0, same]⟩

theorem CpioUnpacks.unique {outcome other : CpioOutcome} (unpacks : CpioUnpacks arc outcome)
    (alsoUnpacks : CpioUnpacks arc other) :
    outcome = other := by
  obtain ⟨count, offset, fs, isLast, stops, entries, rfl⟩ := cpioUnpacks_iff.mp unpacks
  obtain ⟨otherCount, otherOffset, otherFs, otherLast, otherStops, otherEntries, rfl⟩ :=
    cpioUnpacks_iff.mp alsoUnpacks
  obtain rfl := last_unique _ isLast stops otherLast otherStops
  obtain rfl := Option.some.inj (isLast.symm.trans otherLast)
  obtain rfl : fs = otherFs := Ramfs.entries_injective (entries.trans otherEntries.symm)
  rfl

end Runs

/-! ## Safety -/

theorem cpioFiles_checked {arc : CpioArc} {count : Nat} {start : U32} {file : List U8 × CpioFile}
    (member : file ∈ cpioFiles arc count start) :
    file.2.dataOff + file.2.filesize ≤ arc.len := by
  induction count generalizing start with
  | zero => cases member
  | succ count ih =>
    rw [cpioFiles] at member
    split at member
    · rename_i asked next step
      rcases mem_append.mp member with isAsked | later
      · rw [Option.mem_toList] at isAsked
        rw [isAsked] at step
        obtain ⟨_, _, _, _, entry⟩ := CpioHeader.of_entry step
        exact (cpioEntry_file entry).2
      · exact ih later
    · cases member

/-- `cpio_unpack` returns, and what it stores lies in the archive. -/
def UnpackSafe (arc : CpioArc) : Prop :=
  ∃ result fs,
    CpioUnpacks arc (.returned result fs) ∧
      ∀ file ∈ fs.files,
        file.data.dataOff.toNat + file.data.filesize.toNat ≤ arc.bytes.length

/-- The header fields and the name that the round at `offset` reads. -/
structure HeaderInside (arc : CpioArc) (offset : U32) : Prop where
  fields : offset.toNat + 102 ≤ arc.bytes.length
  name : ∀ namesize,
    arc.headerField offset 94 = some namesize →
    2 ≤ namesize.toNat →
    namesize.toNat < ramfsNameMax →
    ∀ i < namesize.toNat - 1,
      (offset + cpioNewcHdr + .ofNat 32 i).toNat < arc.bytes.length

/--
What the unpacker relies on: the headers and names that it comes to lie inside
the archive, it comes to no header twice, and the ends of the files that it
adds do not wrap.
-/
structure CpioOrderly (arc : CpioArc) : Prop where
  inside : ∀ count offset,
    orbit (cpioNext arc) 0 count = some offset →
    offset + cpioNewcHdr ≤ arc.len →
    HeaderInside arc offset
  once : VisitsOnce (cpioNext arc) 0
  noWrap : ∀ count, ∀ file ∈ (cpioFiles arc count 0).take ramfsMaxFiles,
    file.2.dataOff.toNat + file.2.filesize.toNat < 2 ^ 32

theorem CpioArc.read_isSome (arc : CpioArc) (indices : List Nat) :
    (arc.read indices).isSome ↔ ∀ index ∈ indices, index < arc.bytes.length := by
  unfold CpioArc.read
  split
  · rename_i inside
    simpa using inside
  · rename_i outside
    simpa using outside

theorem CpioArc.headerField_isSome (arc : CpioArc) (offset : U32) (place : Nat) :
    (arc.headerField offset place).isSome ↔ offset.toNat + place + 8 ≤ arc.bytes.length := by
  rw [headerField, Option.isSome_map, read_isSome, forall_mem_map]
  constructor
  · intro inside
    have last := inside 7 (by simp)
    omega
  · intro room i member
    have small := mem_range.mp member
    omega

theorem cpioEntry_ne_outside (arc : CpioArc) (offset filesize namesize : U32) (name : List U8) :
    cpioEntry arc offset filesize namesize name ≠ .outside := by
  unfold cpioEntry
  split
  · exact nofun
  · dsimp only
    split <;> exact nofun

theorem cpioStep_outside_iff (arc : CpioArc) (offset : U32) : cpioStep arc offset = .outside ↔
      offset + cpioNewcHdr ≤ arc.len ∧ ¬ HeaderInside arc offset := by
  by_cases guard : offset + cpioNewcHdr ≤ arc.len
  · rw [cpioStep, if_pos guard, and_iff_right guard]
    by_cases fields : offset.toNat + 102 ≤ arc.bytes.length
    · obtain ⟨filesize, isFilesize⟩ := Option.isSome_iff_exists.mp
        ((arc.headerField_isSome offset 54).mpr (by omega))
      obtain ⟨namesize, isNamesize⟩ := Option.isSome_iff_exists.mp
        ((arc.headerField_isSome offset 94).mpr (by omega))
      simp only [isFilesize, isNamesize]
      split
      · -- The name is not read at all.
        rename_i sizes
        refine iff_of_false nofun (not_not.mpr ⟨fields, ?_⟩)
        intro other isOther nonempty short
        cases isNamesize.symm.trans isOther
        rw [BitVec.lt_def] at sizes
        exact (sizes.elim (not_lt.mpr nonempty) (not_le.mpr short)).elim
      · rename_i sizes
        rw [not_or, BitVec.lt_def] at sizes
        have nameSome := arc.read_isSome ((List.range (namesize.toNat - 1)).map fun i =>
            (offset + cpioNewcHdr + BitVec.ofNat 32 i).toNat)
        rw [forall_mem_map] at nameSome
        split
        · rename_i bytes copied
          refine iff_of_false (cpioEntry_ne_outside _ _ _ _ _) (not_not.mpr ⟨fields, ?_⟩)
          intro other isOther _ _ i small
          cases isNamesize.symm.trans isOther
          exact nameSome.mp (Option.isSome_iff_exists.mpr ⟨bytes, copied⟩) i
            (mem_range.mpr small)
        · rename_i failed
          refine iff_of_true rfl fun inside => ?_
          have copied := nameSome.mpr fun i member =>
            inside.name namesize isNamesize (not_lt.mp sizes.1)
              (not_le.mp sizes.2) i (mem_range.mp member)
          rw [CpioArc.nameBytes] at failed
          rw [failed] at copied
          cases copied
    · have missing : arc.headerField offset 94 = none := by
        rw [← Option.not_isSome_iff_eq_none, arc.headerField_isSome]
        omega
      rw [missing]
      refine iff_of_true ?_ fun inside => fields inside.fields
      cases arc.headerField offset 54 <;> rfl
  · rw [cpioStep, if_neg guard]
    exact iff_of_false nofun fun outside => guard outside.1

theorem cpioFiles_prefix (arc : CpioArc) (count more : Nat) (start : U32) :
    cpioFiles arc count start <+: cpioFiles arc (count + more) start := by
  induction count generalizing start with
  | zero => exact nil_prefix
  | succ count ih =>
    rw [add_right_comm, cpioFiles, cpioFiles]
    cases cpioStep arc start with
    | entry file next =>
      exact (prefix_append_right_inj _).mpr (ih next)
    | finished => exact prefix_rfl
    | rejected => exact prefix_rfl
    | outside => exact prefix_rfl

theorem cpioFiles_last {arc : CpioArc} {count : Nat} {start offset : U32}
    (isLast : orbit (cpioNext arc) start count = some offset) (stops : cpioNext arc offset = none)
    (more : Nat) :
    cpioFiles arc (count + more) start = cpioFiles arc count start := by
  induction count generalizing start with
  | zero =>
    obtain rfl := Option.some.inj isLast
    cases more with
    | zero => rfl
    | succ more =>
      unfold cpioNext at stops
      rw [zero_add, cpioFiles, cpioFiles]
      split at stops
      · cases stops
      · rfl
  | succ count ih =>
    rw [orbit_succ, Option.bind_eq_some_iff] at isLast
    obtain ⟨next, moves, later⟩ := isLast
    unfold cpioNext at moves
    split at moves
    · rename_i file _ step
      obtain rfl := Option.some.inj moves
      rw [add_right_comm, cpioFiles, cpioFiles, step]
      exact congrArg _ (ih later)
    · cases moves

instance : Finite U32 :=
  Finite.of_injective BitVec.toFin fun _ _ same => BitVec.eq_of_toFin_eq same

/-- The data of the files of the table are those of the files that were asked for. -/
theorem forall_data_iff {arc : CpioArc} {count : Nat} {fs : Ramfs CpioFile}
    (entries : fs.entries = addedEntries [] (cpioFiles arc count 0)) (holds : CpioFile → Prop) :
    (∀ file ∈ fs.files, holds file.data) ↔
      ∀ file ∈ (cpioFiles arc count 0).take ramfsMaxFiles, holds file.2 := by
  have table : fs.files.map RamfsFile.data =
      ((cpioFiles arc count 0).take ramfsMaxFiles).map Prod.snd := by
    have second := congrArg (map Prod.snd) entries
    simpa [Ramfs.entries, addedEntries, map_take, Function.comp_def] using second
  have same : (∀ data ∈ fs.files.map RamfsFile.data, holds data) ↔
      ∀ data ∈ ((cpioFiles arc count 0).take ramfsMaxFiles).map Prod.snd, holds data := by
    rw [table]
  rwa [forall_mem_map, forall_mem_map] at same

theorem CpioStep.ending_returned_iff {step : CpioStep} {fs other : Ramfs CpioFile} :
    (∃ result, .returned result fs = step.ending other) ↔ step ≠ .outside ∧ fs = other := by
  cases step with
  | entry file next => simp [CpioStep.ending]
  | finished => simp [CpioStep.ending]
  | rejected => simp [CpioStep.ending]
  | outside => simp [CpioStep.ending]

theorem cpioReturns_iff {arc : CpioArc} {fs : Ramfs CpioFile} :
    (∃ result, CpioUnpacks arc (.returned result fs)) ↔ ∃ count offset,
        orbit (cpioNext arc) 0 count = some offset ∧ cpioNext arc offset = none ∧
          fs.entries = addedEntries [] (cpioFiles arc count 0) ∧
          cpioStep arc offset ≠ .outside := by
  simp only [cpioUnpacks_iff]
  constructor
  · rintro ⟨result, count, offset, other, isLast, stops, entries, ending⟩
    obtain ⟨inside, rfl⟩ := CpioStep.ending_returned_iff.mp ⟨result, ending⟩
    exact ⟨count, offset, isLast, stops, entries, inside⟩
  · rintro ⟨count, offset, isLast, stops, entries, inside⟩
    obtain ⟨result, ending⟩ := CpioStep.ending_returned_iff.mpr ⟨inside, rfl⟩
    exact ⟨result, count, offset, fs, isLast, stops, entries, ending⟩

theorem CpioOrderly.range {arc : CpioArc} (orderly : CpioOrderly arc) {count : Nat}
    {file : List U8 × CpioFile} (asked : file ∈ (cpioFiles arc count 0).take ramfsMaxFiles) :
    file.2.dataOff.toNat + file.2.filesize.toNat ≤ arc.bytes.length := by
  have noWrap := orderly.noWrap count file asked
  have checked := cpioFiles_checked (mem_of_mem_take asked)
  rw [BitVec.le_def, BitVec.toNat_add, Nat.mod_eq_of_lt noWrap, CpioArc.len,
    BitVec.toNat_ofNat, Nat.mod_eq_of_lt arc.fits] at checked
  exact checked

/-- The unpacker is safe on exactly the orderly archives. -/
theorem unpackSafe_iff (arc : CpioArc) : UnpackSafe arc ↔ CpioOrderly arc := by
  constructor
  · rintro ⟨result, fs, unpacks, ranges⟩
    obtain ⟨count, offset, isLast, stops, entries, inside⟩ := cpioReturns_iff.mp ⟨result, unpacks⟩
    have stopped : orbit (cpioNext arc) 0 (count + 1) = none := by
      rw [orbit, isLast]
      exact stops
    have inArchive := (forall_data_iff entries fun data =>
      data.dataOff.toNat + data.filesize.toNat ≤ arc.bytes.length).mp ranges
    exact {
      inside := by
        intro round visited reached guard
        by_contra outside
        -- A round that reads outside would have been the last one.
        have isOutside := (cpioStep_outside_iff arc visited).mpr ⟨guard, outside⟩
        have alsoStops : cpioNext arc visited = none := by
          rw [cpioNext, isOutside]
        obtain rfl := last_unique _ reached alsoStops isLast stops
        obtain rfl := Option.some.inj (reached.symm.trans isLast)
        exact inside isOutside
      once := (stops_iff_visitsOnce (cpioNext arc) 0).mp ⟨count + 1, stopped⟩
      noWrap := by
        intro rounds file member
        have longer := cpioFiles_prefix arc rounds count 0
        rw [add_comm, cpioFiles_last isLast stops] at longer
        have range := inArchive file ((longer.take ramfsMaxFiles).subset member)
        exact lt_of_le_of_lt range arc.fits
    }
  · intro orderly
    obtain ⟨count, stopped⟩ := (stops_iff_visitsOnce (cpioNext arc) 0).mpr orderly.once
    obtain ⟨last, offset, _, isLast, stops⟩ := exists_last _ stopped
    obtain ⟨fs, entries, _⟩ := cpioLoop_orbit last isLast (Ramfs.empty CpioFile)
    have inside : cpioStep arc offset ≠ .outside := by
      intro step
      obtain ⟨guard, outside⟩ := (cpioStep_outside_iff arc offset).mp step
      exact outside (orderly.inside last offset isLast guard)
    obtain ⟨result, unpacks⟩ := cpioReturns_iff.mpr ⟨last, offset, isLast, stops, entries, inside⟩
    have inArchive := (forall_data_iff entries fun data =>
      data.dataOff.toNat + data.filesize.toNat ≤ arc.bytes.length).mpr
        fun file asked => orderly.range asked
    exact ⟨result, fs, unpacks, inArchive⟩

/-- A header with these digits for `c_filesize` and `c_namesize`, else zeros. -/
def plainHeader (filesize namesize : List U8) : List U8 :=
  [0x30, 0x37, 0x30, 0x37, 0x30, 0x31] ++ replicate 48 0x30 ++ filesize ++
    replicate 32 0x30 ++ namesize ++ replicate 8 0x30

/-- An archive with the file `a`, whose size is FFFFFF90. -/
def loopingArc : CpioArc where
  bytes :=
    plainHeader [0x46, 0x46, 0x46, 0x46, 0x46, 0x46, 0x39, 0x30]
      [0x30, 0x30, 0x30, 0x30, 0x30, 0x30, 0x30, 0x32] ++ [0x61, 0]
  fits := by decide

/-- The end of the file wraps to the start of the archive, for ever. -/
theorem loopingArc_unsafe :
    cpioStep loopingArc 0 =
        .entry (some ([0x61], { dataOff := 112, filesize := 0xFFFFFF90 })) 0 ∧
      ¬ UnpackSafe loopingArc := by
  have step : cpioStep loopingArc 0 =
      .entry (some ([0x61], { dataOff := 112, filesize := 0xFFFFFF90 })) 0 := by
    decide
  refine ⟨step, ?_⟩
  rintro ⟨result, fs, unpacks, _⟩
  obtain ⟨count, offset, _, isLast, stops, _⟩ := cpioUnpacks_iff.mp unpacks
  have again : orbit (cpioNext loopingArc) 0 1 = some 0 := by
    rw [orbit, orbit, Option.bind_some, cpioNext, step]
  apply runs_of_repeat (cpioNext loopingArc) zero_lt_one rfl again (count + 1)
  rw [orbit, isLast]
  exact stops

end XKern
