import Mathlib
import XKern.Cpio

namespace XKern

open Orbit List Nat
open BitVec (ofNat_add toNat_ofNat)

/-!
# Unpacking well-formed archives

What a newc archive is, said without the unpacker: headers of hexadecimal
digits in either case, names with their terminator, paddings to four bytes and
a trailer.  On such an archive the unpacker comes to the headers of the
records one after the other and asks for exactly their names and data.
-/

/-- A file to be archived. -/
structure CpioRecord where
  name : List U8
  data : List U8
  deriving DecidableEq

/-- A hexadecimal digit, in one of its two spellings. -/
structure HexChar where
  upper : Bool
  digit : Fin 16

def HexChar.char (c : HexChar) : U8 :=
  if c.digit < 10 then
    0x30 + .ofNat 8 c.digit
  else if c.upper then
    0x41 + .ofNat 8 (c.digit - 10)
  else
    0x61 + .ofNat 8 (c.digit - 10)

/-- Eight hexadecimal digits of this value. -/
def HexField (chars : List U8) (value : Nat) : Prop :=
  ∃ digits : List HexChar,
    digits.length = 8 ∧ chars = digits.map HexChar.char ∧
      digits.foldl (fun v c => v * 16 + c.digit.val) 0 = value

/-- `070701`. -/
def newcMagic : List U8 := [0x30, 0x37, 0x30, 0x37, 0x30, 0x31]

/-- A header for these two sizes. -/
structure NewcHeader (header : List U8) (filesize namesize : Nat) : Prop where
  length : header.length = 110
  magic : header.take 6 = newcMagic
  field : ∀ index < 13, ∃ value,
    HexField ((header.drop (6 + 8 * index)).take 8) value
  isFilesize : HexField ((header.drop 54).take 8) filesize
  isNamesize : HexField ((header.drop 94).take 8) namesize

/-- The smallest padding that makes `count` bytes a multiple of four. -/
def Pads (count : Nat) (padding : List U8) : Prop :=
  padding.length < 4 ∧ (count + padding.length) % 4 = 0

/-- The bytes of one record, with any padding. -/
def NewcEntry (record : CpioRecord) (bytes : List U8) : Prop :=
  ∃ header namePad dataPad,
    NewcHeader header record.data.length (record.name.length + 1) ∧
      Pads (header.length + (record.name.length + 1)) namePad ∧
      Pads record.data.length dataPad ∧
      bytes = header ++ (record.name ++ 0 :: (namePad ++ (record.data ++ dataPad)))

/-- A well-formed archive; anything may follow the trailer. -/
inductive NewcArchive : List CpioRecord → List U8 → Prop
  | trailer
      {bytes : List U8}
      (entry : NewcEntry { name := trailerName, data := [] } bytes)
      (rest : List U8) :
      NewcArchive [] (bytes ++ rest)
  | record
      {record : CpioRecord}
      {records : List CpioRecord}
      {bytes rest : List U8}
      (entry : NewcEntry record bytes)
      (text : 0 ∉ record.name)
      (ordinary : record.name ≠ trailerName)
      (later : NewcArchive records rest) :
      NewcArchive (record :: records) (bytes ++ rest)

/-- The bytes of a file of the table are these, and so is its size. -/
def CpioArc.Holds (arc : CpioArc) (file : CpioFile) (data : List U8) : Prop :=
  file.filesize.toNat = data.length ∧
    (arc.bytes.drop file.dataOff.toNat).take data.length = data

/-! ## Reading a header -/

theorem hexDigit_char (c : HexChar) : hexDigit c.char = BitVec.ofNat 32 c.digit := by
  obtain ⟨upper, digit⟩ := c
  revert upper digit
  decide

theorem hex_foldl (digits : List HexChar) (start : Nat) :
    (digits.map HexChar.char).foldl (fun v c => v * 16 + hexDigit c) (BitVec.ofNat 32 start) =
      .ofNat 32 (digits.foldl (fun v c => v * 16 + c.digit.val) start) := by
  induction digits generalizing start with
  | nil => rfl
  | cons c digits ih =>
    rw [map_cons, foldl_cons, foldl_cons, hexDigit_char, ← ih, ofNat_add, BitVec.ofNat_mul]
    rfl

theorem HexField.hex_eq {chars : List U8} {value : Nat} (field : HexField chars value) :
    hex chars = .ofNat 32 value := by
  obtain ⟨digits, _, rfl, rfl⟩ := field
  exact hex_foldl digits 0

theorem roundUp_eq {count : Nat} {padding : List U8} (padded : Pads count padding) :
    (BitVec.ofNat 32 count + 3) &&& ~~~3 = BitVec.ofNat 32 (count + padding.length) := by
  obtain ⟨short, aligned⟩ := padded
  apply BitVec.eq_of_toNat_eq
  change ((.ofNat 32 count + 3) &&& ~~~LowBits.mask 32 2).toNat = _
  rw [LowBits.toNat_and_not_mask (by decide), BitVec.toNat_add,
    toNat_ofNat, toNat_ofNat]
  simp only [BitVec.reduceToNat]
  omega

/-! ## Places in the archive -/

variable {arc : CpioArc} {front rest bytes : List U8}

section Places

variable {middle : List U8}

theorem CpioArc.toNat_place (isBytes : arc.bytes = front ++ rest) :
    (BitVec.ofNat 32 front.length).toNat = front.length := by
  have fits := arc.fits
  rw [isBytes, length_append] at fits
  rw [toNat_ofNat, mod_eq_of_lt (by omega)]

theorem CpioArc.place_le_len (isBytes : arc.bytes = front ++ rest) :
    .ofNat 32 front.length ≤ arc.len := by
  have whole : (BitVec.ofNat 32 arc.bytes.length).toNat = arc.bytes.length :=
    arc.toNat_place (append_nil _).symm
  rw [BitVec.le_def, arc.toNat_place isBytes, CpioArc.len, whole, isBytes, length_append]
  omega

theorem CpioArc.read_part (isBytes : arc.bytes = front ++ (middle ++ rest)) :
    arc.read ((range middle.length).map fun i => front.length + i) = some middle := by
  have inside : ∀ index ∈ (range middle.length).map fun i => front.length + i,
      index < arc.bytes.length := by
    rw [forall_mem_map]
    intro i member
    have small := List.mem_range.mp member
    rw [isBytes, length_append, length_append]
    omega
  rw [CpioArc.read, if_pos inside]
  congr 1
  apply ext_getElem
  · simp
  · intro i _ small
    rw [getElem_map, getElem_map, getElem_range, isBytes,
      getD_eq_getElem?_getD, getElem?_append_right (le_add_right _ _),
      Nat.add_sub_cancel_left, getElem?_append_left small,
      getElem?_eq_getElem small, Option.getD_some]

end Places

/-! ## One record -/

/-- A name that fits the table. -/
def AcceptedName (name : List U8) : Prop :=
  0 < name.length ∧ name.length + 1 < ramfsNameMax

instance (name : List U8) : Decidable (AcceptedName name) :=
  inferInstanceAs (Decidable (_ ∧ _))

section Entry

variable {record : CpioRecord}

theorem NewcHeader.headerField_eq {header tail : List U8} {filesize namesize : Nat}
    (isHeader : NewcHeader header filesize namesize)
    (isBytes : arc.bytes = front ++ (header ++ tail)) {place value : Nat} (inside : place + 8 ≤ 110)
    (field : HexField ((header.drop place).take 8) value) :
    arc.headerField (BitVec.ofNat 32 front.length) place = some (BitVec.ofNat 32 value) := by
  have whole := isHeader.length
  have parts : arc.bytes = (front ++ header.take place) ++
      ((header.drop place).take 8 ++ ((header.drop place).drop 8 ++ tail)) := by
    rw [isBytes, ← append_assoc ((header.drop place).take 8), take_append_drop, append_assoc front,
      ← append_assoc (header.take place), take_append_drop]
  have read := CpioArc.read_part parts
  rw [length_append, length_take, length_take, length_drop,
    min_eq_left (by omega), min_eq_left (by omega)] at read
  rw [CpioArc.headerField, arc.toNat_place isBytes, read, Option.map_some, field.hex_eq]

/-- The header of a record with an accepted name is read as it was written. -/
theorem NewcEntry.header (entry : NewcEntry record bytes)
    (isBytes : arc.bytes = front ++ (bytes ++ rest)) (text : 0 ∉ record.name)
    (accepted : AcceptedName record.name) :
    CpioHeader arc (.ofNat 32 front.length) (.ofNat 32 record.data.length)
      (.ofNat 32 (record.name.length + 1)) record.name := by
  obtain ⟨header, namePad, dataPad, isHeader, _, _, rfl⟩ := entry
  obtain ⟨nonempty, short⟩ := accepted
  rw [append_assoc] at isBytes
  have afterHeader : arc.bytes = (front ++ header) ++
      (record.name ++ (0 :: (namePad ++ (record.data ++ dataPad)) ++ rest)) := by
    rw [isBytes]
    simp only [append_assoc, cons_append]
  have place : .ofNat 32 front.length + cpioNewcHdr =
      .ofNat 32 (front ++ header).length := by
    rw [length_append, ofNat_add, isHeader.length]
    rfl
  have namesize : (BitVec.ofNat 32 (record.name.length + 1)).toNat = record.name.length + 1 := by
    rw [toNat_ofNat, mod_eq_of_lt]
    exact short.trans (by decide)
  have indices : ∀ i ∈ range record.name.length,
      (BitVec.ofNat 32 (front ++ header).length + BitVec.ofNat 32 i).toNat =
        (front ++ header).length + i := by
    intro i member
    have small := List.mem_range.mp member
    have fits := arc.fits
    rw [afterHeader, length_append, @length_append _ record.name] at fits
    rw [← ofNat_add, toNat_ofNat, mod_eq_of_lt (by omega)]
  exact {
    guard := by
      rw [place]
      exact arc.place_le_len afterHeader
    isFilesize :=
      isHeader.headerField_eq isBytes (by decide) isHeader.isFilesize
    isNamesize :=
      isHeader.headerField_eq isBytes (by decide) isHeader.isNamesize
    nonempty := by rw [namesize]; omega
    short := by rw [namesize]; exact short
    isName := by
      rw [CpioArc.nameBytes, namesize, Nat.add_sub_cancel, place,
        map_congr_left indices, CpioArc.read_part afterHeader,
        Option.map_some, takeWhile_eq_self_iff.mpr]
      intro c member
      have notNul : c ≠ 0 := fun isNul => text (isNul ▸ member)
      simpa using notNul
  }

theorem cpioEntry_data {lead dataPad : List U8}
    (isBytes : arc.bytes = lead ++ (record.data ++ (dataPad ++ rest)))
    (padded : Pads (lead ++ record.data).length dataPad) (ordinary : record.name ≠ trailerName)
    {offset namesize : U32}
    (dataOff : (offset + cpioNewcHdr + namesize + 3) &&& ~~~3 = BitVec.ofNat 32 lead.length) :
    ∃ file, arc.Holds file record.data ∧
      cpioEntry arc offset (BitVec.ofNat 32 record.data.length) namesize record.name =
        .entry (if isDotName record.name then none else some (record.name, file))
          (BitVec.ofNat 32 (lead ++ record.data ++ dataPad).length) := by
  have afterData : arc.bytes = (lead ++ record.data) ++ (dataPad ++ rest) := by
    rw [isBytes, append_assoc]
  have dataEnd : BitVec.ofNat 32 lead.length + BitVec.ofNat 32 record.data.length =
      BitVec.ofNat 32 (lead ++ record.data).length := by
    rw [length_append, ofNat_add]
  refine ⟨⟨BitVec.ofNat 32 lead.length, BitVec.ofNat 32 record.data.length⟩, ⟨?_, ?_⟩, ?_⟩
  · have fits := arc.fits
    rw [afterData, length_append, length_append] at fits
    rw [toNat_ofNat, mod_eq_of_lt (by omega)]
  · rw [arc.toNat_place isBytes, isBytes, drop_left, take_left]
  · rw [cpioEntry, if_neg ordinary]
    dsimp only
    rw [dataOff, dataEnd, if_neg (BitVec.not_lt.mpr (arc.place_le_len afterData)),
      roundUp_eq padded, @length_append _ _ dataPad]

/-- A record with an accepted name is asked for, unless its name is a dot name. -/
theorem NewcEntry.step (entry : NewcEntry record bytes)
    (isBytes : arc.bytes = front ++ (bytes ++ rest)) (aligned : front.length % 4 = 0)
    (text : 0 ∉ record.name) (ordinary : record.name ≠ trailerName)
    (accepted : AcceptedName record.name) :
    ∃ file, arc.Holds file record.data ∧ cpioStep arc (.ofNat 32 front.length) =
        .entry (if isDotName record.name then none else some (record.name, file))
          (.ofNat 32 (front ++ bytes).length) ∧
      (front ++ bytes).length % 4 = 0 := by
  rw [(entry.header isBytes text accepted).step_eq]
  obtain ⟨header, namePad, dataPad, isHeader, namePadded, dataPadded, rfl⟩ := entry
  obtain ⟨lead, isLead⟩ :
      ∃ lead, lead = front ++ (header ++ (record.name ++ 0 :: namePad)) := ⟨_, rfl⟩
  have whole : front ++ (header ++ (record.name ++
      0 :: (namePad ++ (record.data ++ dataPad)))) = lead ++ record.data ++ dataPad := by
    simp [isLead]
  have count : lead.length =
      front.length + header.length + (record.name.length + 1) + namePad.length := by
    simp only [isLead, length_append, length_cons]
    omega
  have leadPadded : Pads (front.length + header.length + (record.name.length + 1)) namePad := by
    refine ⟨namePadded.1, ?_⟩
    have padded := namePadded.2
    omega
  have endPadded : Pads (lead ++ record.data).length dataPad := by
    refine ⟨dataPadded.1, ?_⟩
    have first := leadPadded.2
    have second := dataPadded.2
    rw [length_append]
    omega
  have dataOff : (.ofNat 32 front.length + cpioNewcHdr +
      .ofNat 32 (record.name.length + 1) + 3) &&& ~~~3 = .ofNat 32 lead.length := by
    rw [count, ← roundUp_eq leadPadded, ofNat_add (front.length + _),
      ofNat_add front.length, isHeader.length]
    rfl
  have beforeData : arc.bytes = lead ++ (record.data ++ (dataPad ++ rest)) := by
    rw [isBytes, ← append_assoc front, whole]
    simp only [append_assoc]
  obtain ⟨file, holds, entry⟩ := cpioEntry_data beforeData endPadded ordinary dataOff
  refine ⟨file, holds, ?_, ?_⟩
  · rw [entry, whole]
  · rw [whole, length_append]
    exact endPadded.2

theorem NewcEntry.rejected (entry : NewcEntry record bytes)
    (isBytes : arc.bytes = front ++ (bytes ++ rest)) (refused : ¬ AcceptedName record.name) :
    cpioStep arc (.ofNat 32 front.length) = .rejected := by
  obtain ⟨header, namePad, dataPad, isHeader, _, _, rfl⟩ := entry
  rw [append_assoc] at isBytes
  have guard : .ofNat 32 front.length + cpioNewcHdr ≤ arc.len := by
    rw [← append_assoc] at isBytes
    have place := arc.place_le_len isBytes
    rw [length_append, ofNat_add, isHeader.length] at place
    exact place
  have fits := arc.fits
  have small : (BitVec.ofNat 32 (record.name.length + 1)).toNat = record.name.length + 1 := by
    rw [isBytes] at fits
    simp only [length_append, length_cons] at fits
    rw [toNat_ofNat, mod_eq_of_lt (by omega)]
  have sizes : BitVec.ofNat 32 (record.name.length + 1) < 2 ∨
      (BitVec.ofNat 32 (record.name.length + 1)).toNat ≥ ramfsNameMax := by
    rw [BitVec.lt_def, small]
    by_contra both
    rw [not_or] at both
    have nonempty : 2 ≤ record.name.length + 1 := not_lt.mp both.1
    exact refused ⟨by omega, Nat.lt_of_not_le both.2⟩
  rw [cpioStep, if_pos guard, isHeader.headerField_eq isBytes (by decide) isHeader.isFilesize,
    isHeader.headerField_eq isBytes (by decide) isHeader.isNamesize]
  exact if_pos sizes

end Entry

/-! ## Whole archives -/

/-- The records that are not skipped. -/
def keptRecords (records : List CpioRecord) : List CpioRecord :=
  records.filter fun record => !isDotName record.name

/-- The entry asks for this record. -/
def CpioArc.Asks (arc : CpioArc) (record : CpioRecord)
    (asked : List U8 × CpioFile) : Prop :=
  asked.1 = record.name ∧ arc.Holds asked.2 record.data

/-- The file of the table is this record, under its stored name. -/
def CpioArc.Stores (arc : CpioArc) (record : CpioRecord)
    (file : RamfsFile CpioFile) : Prop :=
  file.name.chars = storedName record.name ∧ arc.Holds file.data record.data

namespace NewcArchive

variable {records : List CpioRecord}

theorem visits (archive : NewcArchive records bytes) (isBytes : arc.bytes = front ++ bytes)
    (aligned : front.length % 4 = 0) (accepted : ∀ record ∈ records, AcceptedName record.name) :
    ∃ last, orbit (cpioNext arc) (BitVec.ofNat 32 front.length) records.length = some last ∧
        cpioStep arc last = .finished ∧
        List.Forall₂ arc.Asks (keptRecords records)
          (cpioFiles arc records.length (BitVec.ofNat 32 front.length)) := by
  induction archive generalizing front with
  | trailer entry rest =>
    refine ⟨_, rfl, ?_, .nil⟩
    rw [(entry.header isBytes (by decide) (by decide)).step_eq]
    exact if_pos rfl
  | @record record records bytes rest entry text ordinary later ih =>
    rw [forall_mem_cons] at accepted
    obtain ⟨file, holds, step, nextAligned⟩ := entry.step isBytes aligned text ordinary accepted.1
    rw [← append_assoc] at isBytes
    obtain ⟨last, reached, finished, asks⟩ := ih isBytes nextAligned accepted.2
    refine ⟨last, ?_, finished, ?_⟩
    · rw [length_cons, orbit_succ, cpioNext, step, Option.bind_some, reached]
    · rw [length_cons, cpioFiles, step, keptRecords, filter_cons]
      cases isDotName record.name with
      | true => exact asks
      | false => exact .cons ⟨rfl, holds⟩ asks

theorem gives_up (archive : NewcArchive records bytes) (isBytes : arc.bytes = front ++ bytes)
    (aligned : front.length % 4 = 0) (refused : ∃ record ∈ records, ¬ AcceptedName record.name) :
    ∃ count last, orbit (cpioNext arc) (BitVec.ofNat 32 front.length) count = some last ∧
        cpioStep arc last = .rejected := by
  induction archive generalizing front with
  | trailer entry rest =>
    obtain ⟨_, member, _⟩ := refused
    cases member
  | @record record records bytes rest entry text ordinary later ih =>
    by_cases accepted : AcceptedName record.name
    · obtain ⟨file, holds, step, nextAligned⟩ := entry.step isBytes aligned text ordinary accepted
      rw [← append_assoc] at isBytes
      obtain ⟨count, last, reached, rejected⟩ := ih isBytes
        nextAligned (by simpa [accepted] using refused)
      refine ⟨count + 1, last, ?_, rejected⟩
      rw [orbit_succ, cpioNext, step, Option.bind_some, reached]
    · exact ⟨0, _, rfl, entry.rejected isBytes accepted⟩

/-- With accepted names only, the table holds the first records that are kept. -/
theorem unpacks (archive : NewcArchive records arc.bytes)
    (accepted : ∀ record ∈ records, AcceptedName record.name) :
    ∃ fs, CpioUnpacks arc (.returned 0 fs) ∧
      List.Forall₂ arc.Stores ((keptRecords records).take ramfsMaxFiles) fs.files := by
  obtain ⟨last, reached, finished, asks⟩ := archive.visits (nil_append _).symm rfl accepted
  have stops : cpioNext arc last = none := by
    rw [cpioNext, finished]
  obtain ⟨fs, entries, _⟩ := cpioLoop_orbit records.length reached (.empty CpioFile)
  refine ⟨fs, cpioUnpacks_iff.mpr ⟨records.length, last, fs, reached, stops,
    entries, by rw [finished]; rfl⟩, ?_⟩
  have stored : List.Forall₂ (fun record (entry : List U8 × CpioFile) =>
        entry.1 = storedName record.name ∧ arc.Holds entry.2 record.data)
      ((keptRecords records).take ramfsMaxFiles) fs.entries := by
    rw [entries]
    apply forall₂_take
    rw [show (Ramfs.empty CpioFile).entries = [] from rfl, nil_append, forall₂_map_right_iff]
    exact asks.imp fun record asked isAsked => ⟨by rw [isAsked.1], isAsked.2⟩
  rw [Ramfs.entries, forall₂_map_right_iff] at stored
  exact stored

theorem not_unpacks (archive : NewcArchive records arc.bytes)
    (refused : ∃ record ∈ records, ¬ AcceptedName record.name) (fs : Ramfs CpioFile) :
    ¬ CpioUnpacks arc (.returned 0 fs) := by
  intro unpacks
  obtain ⟨count, last, reached, rejected⟩ := archive.gives_up (nil_append _).symm rfl refused
  have stops : cpioNext arc last = none := by
    rw [cpioNext, rejected]
  obtain ⟨otherCount, otherLast, _, otherReached, otherStops, _, ending⟩ :=
    cpioUnpacks_iff.mp unpacks
  obtain rfl := last_unique _ reached stops otherReached otherStops
  obtain rfl := Option.some.inj (reached.symm.trans otherReached)
  rw [rejected] at ending
  cases ending

end NewcArchive

theorem find?_forall₂ {Left Right : Type} {related : Left → Right → Prop} {isLeft : Left → Bool}
    {isRight : Right → Bool}
    (agree : ∀ left right, related left right → isLeft left = isRight right) {lefts : List Left}
    {rights : List Right} (table : List.Forall₂ related lefts rights) :
    Option.Rel related (lefts.find? isLeft) (rights.find? isRight) := by
  induction table with
  | nil => exact .none
  | @cons left right _ _ first _ ih =>
    rw [find?_cons, find?_cons, ← agree left right first]
    cases isLeft left with
    | true => exact .some first
    | false => exact ih

theorem lookup_stored {records : List CpioRecord} {fs : Ramfs CpioFile}
    (table : List.Forall₂ arc.Stores records fs.files) (path : List U8) :
    Option.Rel arc.Stores (records.find? fun record => storedName record.name = skipSlashes path)
      (ramfsLookup fs path) :=
  find?_forall₂ (fun record file stored => by rw [stored.1]) table

theorem CpioArc.Holds.unique {file : CpioFile} {data other : List U8}
    (holds : arc.Holds file data) (alsoHolds : arc.Holds file other) :
    data = other := by
  have sameLength := holds.1.symm.trans alsoHolds.1
  have contents := holds.2
  rw [sameLength, alsoHolds.2] at contents
  exact contents.symm

/-! ## Encoding -/

def hexChars (value : Nat) : List HexChar :=
  (range 8).reverse.map fun place =>
    { upper := false, digit := .ofNat 16 (value / 16 ^ place) }

def zeroPad (count : Nat) : List U8 :=
  replicate ((4 - count % 4) % 4) 0

/-- The header of a record, with zeros in the other fields. -/
def newcHeaderOf (record : CpioRecord) : List U8 :=
  plainHeader ((hexChars record.data.length).map HexChar.char)
    ((hexChars (record.name.length + 1)).map HexChar.char)

/-- A record with padding of zeros. -/
def newcEntryOf (record : CpioRecord) : List U8 :=
  newcHeaderOf record ++ (record.name ++ 0 ::
    (zeroPad (110 + (record.name.length + 1)) ++
      (record.data ++ zeroPad record.data.length)))

/-- The archive of some records, with its trailer. -/
def newcArchiveOf : List CpioRecord → List U8
  | [] => newcEntryOf { name := trailerName, data := [] }
  | record :: records => newcEntryOf record ++ newcArchiveOf records

theorem zeroPad_pads (count : Nat) : Pads count (zeroPad count) := by
  rw [Pads, zeroPad, length_replicate]
  omega

theorem foldl_digits (value places start : Nat) :
    ((range places).reverse.map fun place => value / 16 ^ place % 16).foldl
        (fun read digit => read * 16 + digit) start =
      start * 16 ^ places + value % 16 ^ places := by
  induction places generalizing start with
  | zero => simp [mod_one]
  | succ places ih =>
    rw [range_succ, reverse_concat, map_cons, foldl_cons, ih, mod_pow_succ, pow_succ]
    ring

theorem hexField_hexChars {value : Nat} (small : value < 2 ^ 32) :
    HexField ((hexChars value).map HexChar.char) value := by
  refine ⟨hexChars value, rfl, rfl, ?_⟩
  have digits := foldl_digits value 8 0
  rw [mod_eq_of_lt (by omega), Nat.zero_mul, zero_add, foldl_map]
    at digits
  rw [hexChars, foldl_map]
  exact digits

theorem newcHeaderOf_header {record : CpioRecord} (dataFits : record.data.length < 2 ^ 32)
    (nameFits : record.name.length + 1 < 2 ^ 32) :
    NewcHeader (newcHeaderOf record) record.data.length (record.name.length + 1) := by
  have zeros : HexField (replicate 8 0x30) 0 :=
    ⟨replicate 8 { upper := false, digit := 0 }, rfl, rfl, rfl⟩
  have isFilesize := hexField_hexChars dataFits
  have isNamesize := hexField_hexChars nameFits
  exact {
    length := rfl
    magic := rfl
    field := by
      intro index small
      interval_cases index
      case «6» => exact ⟨_, isFilesize⟩
      case «11» => exact ⟨_, isNamesize⟩
      all_goals exact ⟨_, zeros⟩
    isFilesize := isFilesize
    isNamesize := isNamesize
  }

theorem newcArchiveOf_archive {records : List CpioRecord}
    (dataFits : ∀ record ∈ records, record.data.length < 2 ^ 32)
    (nameFits : ∀ record ∈ records, record.name.length + 1 < 2 ^ 32)
    (text : ∀ record ∈ records, 0 ∉ record.name)
    (ordinary : ∀ record ∈ records, record.name ≠ trailerName) :
    NewcArchive records (newcArchiveOf records) := by
  have entryOf : ∀ record : CpioRecord, record.data.length < 2 ^ 32 →
      record.name.length + 1 < 2 ^ 32 →
      NewcEntry record (newcEntryOf record) := by
    intro record dataFits nameFits
    exact ⟨_, _, _, newcHeaderOf_header dataFits nameFits, zeroPad_pads _, zeroPad_pads _, rfl⟩
  induction records with
  | nil =>
    rw [newcArchiveOf, ← append_nil (newcEntryOf _)]
    exact .trailer (entryOf _ (by decide) (by decide)) []
  | cons record records ih =>
    rw [forall_mem_cons] at dataFits nameFits text ordinary
    exact .record (entryOf record dataFits.1 nameFits.1) text.1 ordinary.1
      (ih dataFits.2 nameFits.2 text.2 ordinary.2)

/-! ## The round trip -/

/-- A name that is stored as it is. -/
structure OrdinaryName (name : List U8) : Prop where
  nonempty : 0 < name.length
  short : name.length + 1 < ramfsNameMax
  noSlash : name.head? ≠ some slash
  notDot : name ≠ [dot]
  noDotSlash : ¬ [dot, slash] <+: name

theorem skipSlashes_eq_self {path : List U8} (noSlash : path.head? ≠ some slash) :
    skipSlashes path = path := by
  cases path with
  | nil => rfl
  | cons first rest =>
    have other : ¬ first = slash := fun isSlash => noSlash (by rw [isSlash]; rfl)
    rw [skipSlashes, dropWhile_cons_of_neg (by simpa using other)]

theorem skipSlashes_replicate (count : Nat) (path : List U8) :
    skipSlashes (replicate count slash ++ path) = skipSlashes path := by
  induction count with
  | zero => rfl
  | succ count ih =>
    rw [replicate_succ, cons_append, skipSlashes, dropWhile_cons_of_pos (by simp)]
    exact ih

theorem skipDotSlashes_eq_self {path : List U8} (noDotSlash : ¬ [dot, slash] <+: path) :
    skipDotSlashes path = path := by
  induction path using skipDotSlashes.induct with
  | case1 first second rest prefixed _ =>
    obtain ⟨rfl, rfl⟩ := prefixed
    exact (noDotSlash (by simp)).elim
  | case2 first second rest other =>
    rw [skipDotSlashes, if_neg other]
  | case3 path short =>
    rw [skipDotSlashes]
    exact short

namespace OrdinaryName

variable {name : List U8}

theorem storedName_eq (ordinary : OrdinaryName name) : storedName name = name := by
  rw [storedName, skipSlashes_eq_self ordinary.noSlash, skipDotSlashes_eq_self ordinary.noDotSlash,
    skipSlashes_eq_self ordinary.noSlash]

theorem accepted (ordinary : OrdinaryName name) : AcceptedName name :=
  ⟨ordinary.nonempty, ordinary.short⟩

theorem not_isDotName (ordinary : OrdinaryName name) : isDotName name = false := by
  have noDotSlash := ordinary.noDotSlash
  rw [← isPrefixOf_iff_prefix, Bool.not_eq_true] at noDotSlash
  simp [isDotName, ordinary.notDot, noDotSlash]

end OrdinaryName

theorem keptRecords_eq_self {records : List CpioRecord}
    (ordinary : ∀ record ∈ records, OrdinaryName record.name) :
    keptRecords records = records := by
  rw [keptRecords, filter_eq_self]
  intro record member
  rw [(ordinary record member).not_isDotName]
  rfl

theorem find?_ordinary {records : List CpioRecord} (distinct : (records.map CpioRecord.name).Nodup)
    (ordinary : ∀ record ∈ records, OrdinaryName record.name) {record : CpioRecord}
    (member : record ∈ records) :
    records.find? (fun other => storedName other.name = record.name) = some record := by
  cases found : records.find? (fun other => storedName other.name = record.name) with
  | none =>
    have missed := find?_eq_none.mp found record member
    rw [(ordinary record member).storedName_eq] at missed
    exact (missed (decide_eq_true rfl)).elim
  | some other =>
    have isMember := mem_of_find?_eq_some found
    have sameName : storedName other.name = record.name := by
      simpa using find?_some found
    rw [(ordinary other isMember).storedName_eq] at sameName
    rw [inj_on_of_nodup_map distinct isMember member sameName]

/--
Unpacking an archive of at most 32 files with distinct ordinary names returns
0 and fills the table with these files in order; each of them is found again,
with any number of slashes before its name.
-/
theorem newc_roundTrip {records : List CpioRecord} {arc : CpioArc}
    (archive : NewcArchive records arc.bytes) (few : records.length ≤ ramfsMaxFiles)
    (distinct : (records.map CpioRecord.name).Nodup)
    (ordinary : ∀ record ∈ records, OrdinaryName record.name) :
    ∃ fs, (∀ outcome, CpioUnpacks arc outcome ↔ outcome = .returned 0 fs) ∧
      List.Forall₂
        (fun record file => file.name.chars = record.name ∧
          arc.Holds file.data record.data)
        records fs.files ∧
      ∀ record ∈ records, ∀ slashes, ∃ file,
        ramfsLookup fs (List.replicate slashes slash ++ record.name) = some file ∧
          arc.Holds file.data record.data := by
  obtain ⟨fs, unpacks, table⟩ :=
    archive.unpacks fun record member => (ordinary record member).accepted
  rw [keptRecords_eq_self ordinary, take_of_length_le few] at table
  refine ⟨fs, ?_, ?_, ?_⟩
  · intro outcome
    constructor
    · exact fun other => other.unique unpacks
    · rintro rfl
      exact unpacks
  · have both := (forall₂_and_left _ _).mpr ⟨ordinary, table⟩
    exact both.imp fun record file ⟨isOrdinary, stored⟩ =>
      ⟨by rw [stored.1, isOrdinary.storedName_eq], stored.2⟩
  · intro record member slashes
    have found := lookup_stored table (replicate slashes slash ++ record.name)
    rw [skipSlashes_replicate, skipSlashes_eq_self (ordinary record member).noSlash,
      find?_ordinary distinct ordinary member] at found
    generalize ramfsLookup fs (replicate slashes slash ++ record.name) = result
      at found ⊢
    cases found with
    | some stored => exact ⟨_, rfl, stored.2⟩

def twoRecords : List CpioRecord :=
  [{ name := [0x61], data := [1, 2, 3] }, { name := [0x62, slash, 0x63], data := [] }]

def twoArc : CpioArc where
  bytes := newcArchiveOf twoRecords
  fits := by decide +kernel

/-- A file and an empty one in a directory. -/
theorem twoRecords_roundTrip :
    ∃ fs,
      (∀ outcome, CpioUnpacks twoArc outcome ↔
        outcome = .returned 0 fs) ∧
      List.Forall₂
        (fun record file => file.name.chars = record.name ∧
          twoArc.Holds file.data record.data)
        twoRecords fs.files ∧
      ∀ record ∈ twoRecords, ∀ slashes, ∃ file,
        ramfsLookup fs (List.replicate slashes slash ++ record.name) = some file ∧
          twoArc.Holds file.data record.data := by
  apply newc_roundTrip
  · exact newcArchiveOf_archive (by decide) (by decide) (by decide) (by decide)
  · decide
  · decide
  · intro record member
    simp only [twoRecords, mem_cons, not_mem_nil, or_false] at member
    rcases member with rfl | rfl <;> constructor <;> decide

/-! ## Files that get lost -/

/-- The data of the last record of a name. -/
def lastData (records : List CpioRecord) (name : List U8) : Option (List U8) :=
  (records.reverse.find? fun record => record.name = name).map CpioRecord.data

/-- After an unpacking that returns 0 every record is found under its name. -/
def NoSilentLoss (records : List CpioRecord) (arc : CpioArc) : Prop :=
  ∀ fs, CpioUnpacks arc (.returned 0 fs) →
    ∀ record ∈ records, record.name ≠ [dot] →
      ∃ file data, ramfsLookup fs record.name = some file ∧
        lastData records record.name = some data ∧
        arc.Holds file.data data

/--
The record that a lookup comes to: the first one that is stored under the name,
among the 32 that fit into the table.
-/
def retrieved (records : List CpioRecord) (name : List U8) : Option (List U8) :=
  (((keptRecords records).take ramfsMaxFiles).find? fun record =>
    storedName record.name = skipSlashes name).map CpioRecord.data

theorem lastData_isSome {records : List CpioRecord} {record : CpioRecord}
    (member : record ∈ records) :
    ∃ data, lastData records record.name = some data := by
  apply Option.isSome_iff_exists.mp
  rw [lastData, Option.isSome_map, find?_isSome]
  exact ⟨record, mem_reverse.mpr member, decide_eq_true rfl⟩

/--
Nothing gets lost exactly when the unpacking fails because of a name, or each
name leads to the last record of that name.
-/
theorem noSilentLoss_iff {records : List CpioRecord} {arc : CpioArc}
    (archive : NewcArchive records arc.bytes) :
    NoSilentLoss records arc ↔
      (∃ record ∈ records, ¬ AcceptedName record.name) ∨
        ∀ record ∈ records, record.name ≠ [dot] →
          retrieved records record.name = lastData records record.name := by
  by_cases accepted : ∀ record ∈ records, AcceptedName record.name
  · obtain ⟨fs, unpacks, table⟩ := archive.unpacks accepted
    constructor
    · intro noLoss
      right
      intro record member notDot
      obtain ⟨file, data, isFile, isLast, holds⟩ := noLoss fs unpacks record member notDot
      have found := lookup_stored table record.name
      rw [isFile] at found
      rw [retrieved, isLast]
      generalize find? _ _ = result at found ⊢
      cases found with
      | some stored => rw [Option.map_some, stored.2.unique holds]
    · rintro (⟨record, member, refused⟩ | retrieves)
      · exact (refused (accepted record member)).elim
      · intro other alsoUnpacks record member notDot
        cases alsoUnpacks.unique unpacks
        have isLast := retrieves record member notDot
        obtain ⟨data, isData⟩ := lastData_isSome member
        rw [isData, retrieved, Option.map_eq_some_iff] at isLast
        obtain ⟨stored, isStored, rfl⟩ := isLast
        have found := lookup_stored table record.name
        rw [isStored] at found
        generalize ramfsLookup fs record.name = result at found ⊢
        cases found with
        | some stores => exact ⟨_, _, rfl, isData, stores.2⟩
  · push Not at accepted
    refine iff_of_true ?_ (.inl accepted)
    intro fs unpacks
    exact (archive.not_unpacks accepted fs unpacks).elim

/-- One file whose name starts with `./`. -/
def dotRecords : List CpioRecord :=
  [{ name := [dot, slash, 0x61], data := [1] }]

def dotArc : CpioArc where
  bytes := newcArchiveOf dotRecords
  fits := by decide +kernel

/-- An archive with the record `.`. -/
theorem dotRecords_noSilentLoss_iff :
    NewcArchive dotRecords dotArc.bytes ∧
      (NoSilentLoss dotRecords dotArc ↔
        (∃ record ∈ dotRecords, ¬ AcceptedName record.name) ∨
          ∀ record ∈ dotRecords, record.name ≠ [dot] →
            retrieved dotRecords record.name = lastData dotRecords record.name) := by
  have archive : NewcArchive dotRecords dotArc.bytes :=
    newcArchiveOf_archive (by decide) (by decide) (by decide) (by decide)
  exact ⟨archive, noSilentLoss_iff archive⟩

/-- The unpacking returns 0 and leaves an empty table. -/
theorem dotRecords_lost :
    NewcArchive dotRecords dotArc.bytes ∧
      CpioUnpacks dotArc
        (.returned 0 (.empty CpioFile)) ∧
      ¬ NoSilentLoss dotRecords dotArc := by
  have archive : NewcArchive dotRecords dotArc.bytes :=
    newcArchiveOf_archive (by decide) (by decide) (by decide) (by decide)
  have unpacks : CpioUnpacks dotArc (.returned 0 (.empty CpioFile)) := by
    obtain ⟨⟨files, bounded⟩, unpacks, table⟩ := archive.unpacks (by decide)
    cases table
    exact unpacks
  refine ⟨archive, unpacks, ?_⟩
  intro noLoss
  obtain ⟨file, data, isFile, _⟩ := noLoss _ unpacks _ mem_cons_self (by decide)
  cases isFile

end XKern
