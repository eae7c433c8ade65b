import Mathlib.Logic.Relation
import Mathlib.Tactic
import XKern.UsbDma

namespace XKern.Usb

open List BitVec

/-!
# Walking configuration descriptors

Model of `get_device_config`, of the interface collection of `configure_usb_device` and of
`usb_find_desc` in `iokit/IOUSBFamily/core/usb.c`.  The blob is the memory that a device
fills: as many bytes as its first answer gives in `wTotalLength`.  Pointers are offsets
into the blob, and a read of another byte is a fault.
-/

/-- `USB_DT_INTERFACE`. -/
def usbDtInterface : U8 := 4

/-- `USB_DT_ENDPOINT`. -/
def usbDtEndpoint : U8 := 5

/-- `USB_MAX_IFACES`. -/
def usbMaxIfaces : Nat := 8

/-- The transfer types, `USB_ENDPOINT_XFER_CONTROL` and so on. -/
inductive XferType where
  | control
  | isoc
  | bulk
  | interrupt
  deriving Repr, DecidableEq

def XferType.code : XferType → U8
  | control => 0
  | isoc => 1
  | bulk => 2
  | interrupt => 3

/-- `USB_DIR_OUT` and `USB_DIR_IN`. -/
inductive Direction where
  | out
  | into
  deriving Repr, DecidableEq

def Direction.code : Direction → U8
  | out => 0
  | into => 0x80

/-- What `usb_find_desc` looks for. -/
structure EndpointKind where
  type : XferType
  dir : Direction
  deriving Repr, DecidableEq

/-- What can go wrong in a walk. -/
inductive DescFault where
  | outside
  | endless
  deriving Repr, DecidableEq

/-- Programs that read the blob. -/
abbrev DescM := Except DescFault

/-- A load from the blob. -/
def byteAt (blob : List U8) (offset : Nat) : DescM U8 :=
  match blob[offset]? with
  | some byte => .ok byte
  | none => .error .outside

/-- `config->wTotalLength`. -/
def wTotalLength (blob : List U8) : DescM Nat := do
  let low ← byteAt blob 2
  let high ← byteAt blob 3
  return low.toNat + 256 * high.toNat

/-- `usb_alloc`. -/
abbrev usbAlloc := usbDmaAlloc

/-- `get_device_config` from its first answer on: whether it returns the blob, which is all
that the second transfer brings. -/
def getDeviceConfig (pool : DmaPool) (blob : List U8) : DescM Bool :=
  match usbAlloc pool (.ofNat 64 blob.length) with
  | none => .error .endless
  | some (config, _) =>
      if config = 0 then
        return false
      else do
        let total ← wTotalLength blob
        return total = blob.length

/-- The loop of `configure_usb_device` that collects the interfaces. -/
def collectLoop (blob : List U8) (configEnd : Nat) : Nat → Nat → List Nat → DescM (List Nat)
  | 0, _, _ => .error .endless
  | fuel + 1, p, ifaces =>
      if p < configEnd then do
        let len ← byteAt blob p
        if len < 2 ∨ configEnd < p + len.toNat then
          return ifaces
        let type ← byteAt blob (p + 1)
        if type = usbDtInterface then
          if len < 9 ∨ ifaces.length = usbMaxIfaces then
            return ifaces
          collectLoop blob configEnd fuel (p + len.toNat) (ifaces ++ [p])
        else
          collectLoop blob configEnd fuel (p + len.toNat) ifaces
      else
        return ifaces

/-- The interfaces that `configure_usb_device` collects, behind the header of 9 bytes. -/
def collectInterfaces (blob : List U8) : DescM (List Nat) := do
  let configEnd ← wTotalLength blob
  collectLoop blob configEnd (configEnd + 1) 9 []

/-- Each interface with its `imax`: the distance to the next one, or to the end. -/
def interfaceParts (configEnd : Nat) : List Nat → List (Nat × Nat)
  | [] => []
  | iface :: rest => (iface, rest.headD configEnd - iface) :: interfaceParts configEnd rest

/-- The test of `usb_find_desc` for an endpoint. -/
def matchesEndpoint (blob : List U8) (epdesc : Nat) (bDescriptorType : U8) (kind : EndpointKind) :
    DescM Bool := do
  if bDescriptorType ≠ usbDtEndpoint then
    return false
  let bEndpointAddress ← byteAt blob (epdesc + 2)
  if bEndpointAddress &&& 0x80 ≠ kind.dir.code then
    return false
  let bmAttributes ← byteAt blob (epdesc + 3)
  return bmAttributes &&& 0x03 = kind.type.code

/-- The loop of `usb_find_desc`. -/
def findDescLoop (blob : List U8) (last : Nat) (kind : EndpointKind) :
    Nat → Nat → DescM (Option Nat)
  | 0, _ => .error .endless
  | fuel + 1, epdesc =>
      if last ≤ epdesc then
        return none
      else do
        let bDescriptorType ← byteAt blob (epdesc + 1)
        if bDescriptorType = usbDtInterface then
          return none
        if ← matchesEndpoint blob epdesc bDescriptorType kind then
          return some epdesc
        let bLength ← byteAt blob epdesc
        findDescLoop blob last kind fuel (epdesc + bLength.toNat)

/-- `usb_find_desc`, which starts behind the 9 bytes of an interface descriptor, for some
number of rounds. -/
def usbFindDesc (fuel : Nat) (blob : List U8) (part : Nat × Nat) (kind : EndpointKind) :
    DescM (Option Nat) :=
  findDescLoop blob (part.1 + part.2) kind fuel (part.1 + 9)

/-! ## What lies in a blob -/

/-- A byte of a descriptor. -/
def field (blob : List U8) (place index : Nat) : U8 :=
  blob.getD (place + index) 0

/-- The endpoint descriptor of the kind lies between the two offsets as a whole. -/
structure CompleteEndpoint
    (blob : List U8)
    (first last place : Nat)
    (kind : EndpointKind) : Prop where
  from_first : first ≤ place
  long : 7 ≤ (field blob place 0).toNat
  to_last : place + (field blob place 0).toNat ≤ last
  isEndpoint : field blob place 1 = usbDtEndpoint
  isDir : field blob place 2 &&& 0x80 = kind.dir.code
  isType : field blob place 3 &&& 0x03 = kind.type.code

/-- The search returns, with a whole endpoint if any. -/
def FindsSoundly (blob : List U8) (part : Nat × Nat) (kind : EndpointKind) : Prop :=
  ∃ fuel found, usbFindDesc fuel blob part kind = .ok found ∧
    ∀ place, found = some place →
      CompleteEndpoint blob part.1 (part.1 + part.2) place kind

/-- A blob is as long as the 16 bits of `wTotalLength` in the first answer say. -/
structure ConfigBlob where
  bytes : List U8
  short : bytes.length < 2 ^ 16

/-- Whatever the pool, both walks over the blob return without a read outside of it, and the
second one finds complete endpoints only. -/
def WalksSoundly (blob : ConfigBlob) : Prop :=
  ∀ pool : DmaPool, pool.Valid →
    ∃ accepted, getDeviceConfig pool blob.bytes = .ok accepted ∧
      (accepted = true →
        ∃ ifaces, collectInterfaces blob.bytes = .ok ifaces ∧
          ∀ part ∈ interfaceParts blob.bytes.length ifaces, ∀ kind,
            FindsSoundly blob.bytes part kind)

/-- The places of the descriptors from an offset on that have two bytes or more and end in
the blob. -/
def descriptorPlaces (blob : List U8) : Nat → Nat → List Nat
  | 0, _ => []
  | count + 1, place =>
      if place < blob.length ∧ 2 ≤ (field blob place 0).toNat ∧
          place + (field blob place 0).toNat ≤ blob.length then
        place :: descriptorPlaces blob count (place + (field blob place 0).toNat)
      else
        []

def isInterface (blob : List U8) (place : Nat) : Bool :=
  field blob place 1 = usbDtInterface

/-- What is at the place is no interface descriptor that is too short. -/
def notShort (blob : List U8) (place : Nat) : Bool :=
  ¬ (field blob place 1 = usbDtInterface ∧ field blob place 0 < 9)

/-- The interfaces of a configuration, eight at most, before one that is too short. -/
def interfacesOf (blob : List U8) : List Nat :=
  (((descriptorPlaces blob blob.length 9).takeWhile (notShort blob)).filter
    (isInterface blob)).take usbMaxIfaces

section Places

variable (blob : List U8) (last : Nat) (kind : EndpointKind) (place : Nat)

/-- An endpoint of the direction is here. -/
def HasDirection : Prop :=
  field blob place 1 = usbDtEndpoint ∧ field blob place 2 &&& 0x80 = kind.dir.code

/-- An endpoint of the kind is here. -/
def HasKind : Prop :=
  HasDirection blob kind place ∧ field blob place 3 &&& 0x03 = kind.type.code

/-- The bytes that tell whether an endpoint of the kind is at the place are there. -/
structure Readable : Prop where
  header : place + 1 < blob.length
  address : field blob place 1 = usbDtEndpoint → place + 2 < blob.length
  attributes : HasDirection blob kind place → place + 3 < blob.length

/-- The search goes on to `next`. -/
def Passes (next : Nat) : Prop :=
  place < last ∧ field blob place 1 ≠ usbDtInterface ∧ ¬ HasKind blob kind place ∧
    next = place + (field blob place 0).toNat

/-- What the search does at a place is sound. -/
structure PlaceSound : Prop where
  readable : Readable blob kind place
  advances : ∀ next, Passes blob last kind place next → place < next
  complete : HasKind blob kind place →
    7 ≤ (field blob place 0).toNat ∧ place + (field blob place 0).toNat ≤ last

end Places

/-- The search gets to this place. -/
def Visits (blob : List U8) (part : Nat × Nat) (kind : EndpointKind) (place : Nat) : Prop :=
  Relation.ReflTransGen (Passes blob (part.1 + part.2) kind) (part.1 + 9) place ∧
    place < part.1 + part.2

/-! ## Reading -/

variable {blob : List U8}

theorem byteAt_field {place index : Nat} (inside : place + index < blob.length) :
    byteAt blob (place + index) = .ok (field blob place index) := by
  rw [byteAt, field, getD_eq_getElem?_getD, List.getElem?_eq_getElem inside]
  rfl

theorem byteAt_start {place : Nat} (inside : place < blob.length) :
    byteAt blob place = .ok (field blob place 0) := by
  rw [← byteAt_field (by omega), add_zero]

theorem byteAt_outside {place : Nat} (outside : blob.length ≤ place) :
    byteAt blob place = .error .outside := by
  rw [byteAt, List.getElem?_eq_none outside]

/-- `wTotalLength` of the blob. -/
def totalOf (blob : List U8) : Nat :=
  (field blob 0 2).toNat + 256 * (field blob 0 3).toNat

theorem wTotalLength_eq (long : 4 ≤ blob.length) : wTotalLength blob = .ok (totalOf blob) := by
  rw [wTotalLength, show (2 : Nat) = 0 + 2 from rfl, byteAt_field (by omega),
    show (3 : Nat) = 0 + 3 from rfl, byteAt_field (by omega)]
  rfl

theorem wTotalLength_short (short : blob.length < 4) : wTotalLength blob = .error .outside := by
  rw [wTotalLength]
  rcases lt_or_ge 2 blob.length with three | fewer
  · rw [show (2 : Nat) = 0 + 2 from rfl, byteAt_field three, byteAt_outside (by omega)]
    rfl
  · rw [byteAt_outside fewer]
    rfl

/-! ## The collection -/

theorem descriptorPlaces_nil {place : Nat}
    (isEnd : ¬ (place < blob.length ∧ 2 ≤ (field blob place 0).toNat ∧
      place + (field blob place 0).toNat ≤ blob.length))
    (count : Nat) :
    descriptorPlaces blob count place = [] := by
  cases count with
  | zero => rfl
  | succ count => rw [descriptorPlaces, if_neg isEnd]

theorem descriptorPlaces_cons {place : Nat}
    (isPlace : place < blob.length ∧ 2 ≤ (field blob place 0).toNat ∧
      place + (field blob place 0).toNat ≤ blob.length)
    (count : Nat) :
    descriptorPlaces blob (count + 1) place =
      place :: descriptorPlaces blob count (place + (field blob place 0).toNat) := by
  rw [descriptorPlaces, if_pos isPlace]

theorem collectLoop_eq {fuel count place : Nat} {ifaces : List Nat}
    (enough : blob.length - place < fuel) (enoughPlaces : blob.length - place ≤ count)
    (room : ifaces.length ≤ usbMaxIfaces) :
    collectLoop blob blob.length fuel place ifaces =
      .ok (ifaces ++ (((descriptorPlaces blob count place).takeWhile (notShort blob)).filter
        (isInterface blob)).take (usbMaxIfaces - ifaces.length)) := by
  induction fuel generalizing count place ifaces with
  | zero => omega
  | succ fuel ih =>
    rw [collectLoop]
    by_cases below : place < blob.length
    swap
    · rw [if_neg below, descriptorPlaces_nil fun isPlace => below isPlace.1]
      simp [pure, Except.pure]
    obtain ⟨count, rfl⟩ : ∃ fewer, count = fewer + 1 := ⟨count - 1, by omega⟩
    rw [if_pos below, byteAt_start below]
    change (if _ then _ else _ : DescM (List Nat)) = _
    by_cases whole : 2 ≤ (field blob place 0).toNat ∧
        place + (field blob place 0).toNat ≤ blob.length
    swap
    · have isBreak : field blob place 0 < 2 ∨ blob.length < place + (field blob place 0).toNat := by
        rw [lt_def]
        change (field blob place 0).toNat < 2 ∨ _
        omega
      rw [if_pos isBreak, descriptorPlaces_nil fun isPlace => whole isPlace.2]
      simp [pure, Except.pure]
    have noBreak : ¬ (field blob place 0 < 2 ∨
        blob.length < place + (field blob place 0).toNat) := by
      rw [lt_def]
      change ¬ ((field blob place 0).toNat < 2 ∨ _)
      omega
    rw [if_neg noBreak, descriptorPlaces_cons ⟨below, whole⟩, byteAt_field (by omega)]
    change (if _ then _ else _ : DescM (List Nat)) = _
    by_cases interface : field blob place 1 = usbDtInterface
    swap
    · -- Another descriptor is passed over.
      have goesOn : notShort blob place = true := decide_eq_true fun both => interface both.1
      rw [if_neg interface, takeWhile_cons_of_pos goesOn,
        filter_cons_of_neg (by simp [isInterface, interface])]
      exact ih (by omega) (by omega) room
    rw [if_pos interface]
    by_cases short : field blob place 0 < 9
    · have stops : ¬ notShort blob place = true :=
        fun isTrue => of_decide_eq_true isTrue ⟨interface, short⟩
      rw [if_pos (.inl short), takeWhile_cons_of_neg stops]
      simp [pure, Except.pure]
    have goesOn : notShort blob place = true := decide_eq_true fun both => short both.2
    have isHere : isInterface blob place = true := decide_eq_true interface
    rw [takeWhile_cons_of_pos goesOn, filter_cons_of_pos isHere]
    by_cases full : ifaces.length = usbMaxIfaces
    · rw [if_pos (.inr full), full, Nat.sub_self, take_zero, append_nil]
      rfl
    · rw [if_neg fun stop => stop.elim short full]
      obtain ⟨left, isLeft⟩ : ∃ left, usbMaxIfaces - ifaces.length = left + 1 :=
        ⟨usbMaxIfaces - ifaces.length - 1, by omega⟩
      have fewer : usbMaxIfaces - (ifaces ++ [place]).length = left := by
        rw [length_append, length_singleton]
        omega
      have later : blob.length - (place + (field blob place 0).toNat) ≤ count := by omega
      rw [ih (by omega) later
        (by rw [length_append, length_singleton]; omega), fewer, isLeft,
        take_succ_cons, List.append_assoc]
      rfl

theorem collectInterfaces_eq (long : 4 ≤ blob.length) (isTotal : totalOf blob = blob.length) :
    collectInterfaces blob = .ok (interfacesOf blob) := by
  rw [collectInterfaces, wTotalLength_eq long, isTotal]
  change collectLoop blob blob.length (blob.length + 1) 9 [] = _
  rw [collectLoop_eq (by omega) (Nat.sub_le _ _) (Nat.zero_le _)]
  rfl

/-! ## The search -/

section Search

variable {last : Nat} {kind : EndpointKind} {place : Nat}

theorem matchesEndpoint_outside (header : place + 1 < blob.length)
    (notReadable : ¬ Readable blob kind place) :
    matchesEndpoint blob place (field blob place 1) kind = .error .outside := by
  rw [matchesEndpoint]
  by_cases isEndpoint : field blob place 1 = usbDtEndpoint
  swap
  · exact absurd
      ⟨header, fun contra => absurd contra isEndpoint, fun contra => absurd contra.1 isEndpoint⟩
      notReadable
  rw [if_neg (not_not_intro isEndpoint)]
  by_cases hasAddress : place + 2 < blob.length
  swap
  · rw [byteAt_outside (Nat.le_of_not_lt hasAddress)]
    rfl
  rw [byteAt_field hasAddress]
  change (if _ then _ else _ : DescM Bool) = _
  by_cases isDir : field blob place 2 &&& 0x80 = kind.dir.code
  swap
  · exact absurd ⟨header, fun _ => hasAddress, fun contra => absurd contra.2 isDir⟩ notReadable
  rw [if_neg (not_not_intro isDir)]
  by_cases hasAttributes : place + 3 < blob.length
  · exact absurd ⟨header, fun _ => hasAddress, fun _ => hasAttributes⟩ notReadable
  · rw [byteAt_outside (Nat.le_of_not_lt hasAttributes)]
    rfl

theorem matchesEndpoint_eq (readable : Readable blob kind place) :
    ∃ isMatch, matchesEndpoint blob place (field blob place 1) kind = .ok isMatch ∧
      (isMatch = true ↔ HasKind blob kind place) := by
  rw [matchesEndpoint]
  by_cases isEndpoint : field blob place 1 = usbDtEndpoint
  swap
  · rw [if_pos isEndpoint]
    refine ⟨false, rfl, iff_of_false Bool.false_ne_true ?_⟩
    exact fun hasKind => isEndpoint hasKind.1.1
  rw [if_neg (not_not_intro isEndpoint), byteAt_field (readable.address isEndpoint)]
  dsimp only [bind, Except.bind]
  by_cases isDir : field blob place 2 &&& 0x80 = kind.dir.code
  swap
  · rw [if_pos isDir]
    refine ⟨false, rfl, iff_of_false Bool.false_ne_true ?_⟩
    exact fun hasKind => isDir hasKind.1.2
  rw [if_neg (not_not_intro isDir), byteAt_field (readable.attributes ⟨isEndpoint, isDir⟩)]
  refine ⟨_, rfl, ?_⟩
  rw [decide_eq_true_iff]
  exact ⟨fun isType => ⟨⟨isEndpoint, isDir⟩, isType⟩, fun hasKind => hasKind.2⟩

theorem findDescLoop_outside (inPart : place < last) (notReadable : ¬ Readable blob kind place)
    (notInterface : place + 1 < blob.length → field blob place 1 ≠ usbDtInterface) (fuel : Nat) :
    findDescLoop blob last kind (fuel + 1) place = .error .outside := by
  rw [findDescLoop, if_neg (not_le.mpr inPart)]
  by_cases header : place + 1 < blob.length
  · rw [byteAt_field header]
    change (if _ then _ else _ : DescM (Option Nat)) = _
    rw [if_neg (notInterface header), matchesEndpoint_outside header notReadable]
    rfl
  · rw [byteAt_outside (Nat.le_of_not_lt header)]
    rfl

theorem findDescLoop_readable (inPart : place < last) (readable : Readable blob kind place)
    (notInterface : field blob place 1 ≠ usbDtInterface) (fuel : Nat) :
    (HasKind blob kind place ∧ findDescLoop blob last kind (fuel + 1) place = .ok (some place)) ∨
      (¬ HasKind blob kind place ∧ findDescLoop blob last kind (fuel + 1) place =
        findDescLoop blob last kind fuel (place + (field blob place 0).toNat)) := by
  obtain ⟨isMatch, matched, matchIff⟩ := matchesEndpoint_eq readable
  have start : place < blob.length := Nat.lt_of_succ_lt readable.header
  have round : findDescLoop blob last kind (fuel + 1) place =
      if isMatch = true then .ok (some place)
      else findDescLoop blob last kind fuel (place + (field blob place 0).toNat) := by
    rw [findDescLoop, if_neg (not_le.mpr inPart), byteAt_field readable.header]
    change (if _ then _ else _ : DescM (Option Nat)) = _
    rw [if_neg notInterface, matched, byteAt_start start]
    rfl
  by_cases hasKind : HasKind blob kind place
  · exact .inl ⟨hasKind, by rw [round, if_pos (matchIff.mpr hasKind)]⟩
  · exact .inr ⟨hasKind, by rw [round, if_neg (mt matchIff.mp hasKind)]⟩

theorem findDescLoop_interface (inPart : place < last) (header : place + 1 < blob.length)
    (interface : field blob place 1 = usbDtInterface) (fuel : Nat) :
    findDescLoop blob last kind (fuel + 1) place = .ok none := by
  rw [findDescLoop, if_neg (not_le.mpr inPart), byteAt_field header]
  change (if _ then _ else _ : DescM (Option Nat)) = _
  rw [if_pos interface]
  rfl

theorem usbDtInterface_ne : usbDtInterface ≠ usbDtEndpoint := by
  decide

theorem placeSound_interface (header : place + 1 < blob.length)
    (interface : field blob place 1 = usbDtInterface) :
    PlaceSound blob last kind place := by
  have notEndpoint : field blob place 1 ≠ usbDtEndpoint := interface ▸ usbDtInterface_ne
  exact {
    readable := ⟨header, fun contra => absurd contra notEndpoint,
      fun contra => absurd contra.1 notEndpoint⟩
    advances := fun _ passes => absurd interface passes.2.1
    complete := fun hasKind => absurd hasKind.1.1 notEndpoint }

theorem findDescLoop_passes {next : Nat} (readable : Readable blob kind place)
    (passes : Passes blob last kind place next) (fuel : Nat) :
    findDescLoop blob last kind (fuel + 1) place = findDescLoop blob last kind fuel next := by
  obtain ⟨inPart, notInterface, notKind, rfl⟩ := passes
  rcases findDescLoop_readable inPart readable notInterface fuel with ⟨hasKind, -⟩ | ⟨-, round⟩
  · exact absurd hasKind notKind
  · exact round

theorem findDescLoop_endless (readable : Readable blob kind place)
    (passes : Passes blob last kind place place) (fuel : Nat) :
    findDescLoop blob last kind fuel place = .error .endless := by
  induction fuel with
  | zero => rfl
  | succ fuel ih => rw [findDescLoop_passes readable passes, ih]

theorem placeSound_of_round {fuel : Nat} {found : Option Nat}
    (returned : findDescLoop blob last kind (fuel + 1) place = .ok found)
    (sound : ∀ place, found = some place →
      7 ≤ (field blob place 0).toNat ∧ place + (field blob place 0).toNat ≤ last)
    (inPart : place < last) :
    PlaceSound blob last kind place := by
  by_cases interface : place + 1 < blob.length ∧ field blob place 1 = usbDtInterface
  · exact placeSound_interface interface.1 interface.2
  have notInterface : place + 1 < blob.length → field blob place 1 ≠ usbDtInterface :=
    fun header contra => interface ⟨header, contra⟩
  by_cases readable : Readable blob kind place
  swap
  · rw [findDescLoop_outside inPart readable notInterface] at returned
    cases returned
  refine ⟨readable, fun next passes => ?_, fun hasKind => ?_⟩
  · -- Without a step the search would not have returned.
    have isNext := passes.2.2.2
    by_contra notLess
    have same : next = place := by omega
    rw [same] at passes
    rw [findDescLoop_endless readable passes] at returned
    cases returned
  · rcases findDescLoop_readable inPart readable (notInterface readable.header) fuel with
      ⟨-, round⟩ | ⟨notKind, -⟩
    · rw [round] at returned
      cases returned
      exact sound place rfl
    · exact absurd hasKind notKind

theorem placeSound_of_found {fuel start : Nat} {found : Option Nat}
    (returned : findDescLoop blob last kind fuel start = .ok found)
    (sound : ∀ place, found = some place →
      7 ≤ (field blob place 0).toNat ∧ place + (field blob place 0).toNat ≤ last)
    (reached : Relation.ReflTransGen (Passes blob last kind) start place) (inPart : place < last) :
    PlaceSound blob last kind place := by
  induction fuel generalizing start with
  | zero => cases returned
  | succ fuel ih =>
    rcases Relation.ReflTransGen.cases_head reached with rfl | ⟨next, passes, later⟩
    · exact placeSound_of_round returned sound inPart
    · have startSound := placeSound_of_round returned sound passes.1
      rw [findDescLoop_passes startSound.readable passes] at returned
      exact ih returned later

theorem exists_found {first start rounds : Nat} (bounded : last - start ≤ rounds)
    (behind : first ≤ start)
    (sound : ∀ place, Relation.ReflTransGen (Passes blob last kind) start place →
      place < last → PlaceSound blob last kind place) :
    ∃ found, findDescLoop blob last kind (rounds + 1) start = .ok found ∧
      ∀ place, found = some place → CompleteEndpoint blob first last place kind := by
  induction rounds generalizing start with
  | zero =>
    refine ⟨none, ?_, fun _ contra => by cases contra⟩
    rw [findDescLoop, if_pos (by omega)]
    rfl
  | succ rounds ih =>
    by_cases inPart : start < last
    swap
    · refine ⟨none, ?_, fun _ contra => by cases contra⟩
      rw [findDescLoop, if_pos (Nat.le_of_not_lt inPart)]
      rfl
    have here := sound start .refl inPart
    by_cases interface : field blob start 1 = usbDtInterface
    · exact ⟨none, findDescLoop_interface inPart here.readable.header interface _,
        fun _ contra => by cases contra⟩
    rcases findDescLoop_readable inPart here.readable interface (rounds + 1) with
      ⟨hasKind, round⟩ | ⟨notKind, round⟩
    · refine ⟨some start, round, fun place isPlace => ?_⟩
      cases isPlace
      obtain ⟨long, inside⟩ := here.complete hasKind
      exact ⟨behind, long, inside, hasKind.1.1, hasKind.1.2, hasKind.2⟩
    · have passes : Passes blob last kind start (start + (field blob start 0).toNat) :=
        ⟨inPart, interface, notKind, rfl⟩
      have advances := here.advances _ passes
      rw [round]
      exact ih (by omega) (by omega) fun place reached =>
        sound place (.head passes reached)

end Search

theorem findsSoundly_iff (part : Nat × Nat) (kind : EndpointKind) : FindsSoundly blob part kind ↔
      ∀ place, Visits blob part kind place → PlaceSound blob (part.1 + part.2) kind place := by
  constructor
  · rintro ⟨fuel, found, returned, complete⟩ place ⟨reached, inPart⟩
    refine placeSound_of_found returned (fun place isFound => ?_) reached inPart
    exact ⟨(complete place isFound).long, (complete place isFound).to_last⟩
  · intro sound
    obtain ⟨found, returned, complete⟩ := exists_found (le_refl _)
      (Nat.le_add_right part.1 9) fun place reached inPart => sound place ⟨reached, inPart⟩
    exact ⟨_, found, returned, complete⟩

/-! ## The whole walk -/

theorem getDeviceConfig_granted {pool : DmaPool}
    (granted : pool.Grants (.ofNat 64 blob.length)) :
    getDeviceConfig pool blob =
      (wTotalLength blob).map fun total => decide (total = blob.length) := by
  obtain ⟨⟨config, after⟩, ran, given⟩ := granted
  rw [getDeviceConfig, usbAlloc, ran]
  dsimp only
  rw [if_neg given]
  rfl

/-- Without memory nothing of the blob is read. -/
theorem getDeviceConfig_refused {pool : DmaPool} (valid : pool.Valid) (positive : 0 < blob.length)
    (short : blob.length < 2 ^ 16) (refused : ¬ pool.Grants (.ofNat 64 blob.length)) :
    getDeviceConfig pool blob = .ok false := by
  have size : (BitVec.ofNat 64 blob.length).toNat = blob.length := by
    rw [toNat_ofNat, Nat.mod_eq_of_lt (by omega)]
  obtain ⟨va, after, ran, -⟩ := exists_usbDmaAlloc (size.symm ▸ positive) (by omega) valid
  have isNull : va = 0 := by
    by_contra given
    exact refused ⟨_, ran, given⟩
  rw [getDeviceConfig, usbAlloc, ran]
  dsimp only
  rw [if_pos isNull]
  rfl

/-- The walks over a blob are sound exactly if it is too long for `usb_alloc`, or if it has
its total length, and if that is the length of the blob, each place on the way of a search
is sound. -/
theorem walks_soundly_iff (blob : ConfigBlob) :
    WalksSoundly blob ↔
      4096 < blob.bytes.length ∨
        4 ≤ blob.bytes.length ∧
          (totalOf blob.bytes = blob.bytes.length →
            ∀ part ∈ interfaceParts blob.bytes.length (interfacesOf blob.bytes), ∀ kind place,
              Visits blob.bytes part kind place →
                PlaceSound blob.bytes (part.1 + part.2) kind place) := by
  obtain ⟨blob, short⟩ := blob
  have size : (BitVec.ofNat 64 blob.length).toNat = blob.length := by
    rw [toNat_ofNat, Nat.mod_eq_of_lt (by omega)]
  have grants := exists_grants_iff (show (BitVec.ofNat 64 blob.length).toNat ≤ 2 ^ 30 by omega)
  rw [size] at grants
  simp only [← findsSoundly_iff]
  constructor
  · intro walks
    by_cases fits : blob.length ≤ 4096
    swap
    · exact .inl (Nat.lt_of_not_le fits)
    right
    obtain ⟨pool, valid, granted⟩ := grants.mpr fits
    obtain ⟨accepted, isAccepted, finds⟩ := walks pool valid
    rw [getDeviceConfig_granted granted] at isAccepted
    have long : 4 ≤ blob.length := by
      by_contra notLong
      rw [wTotalLength_short (Nat.lt_of_not_le notLong)] at isAccepted
      cases isAccepted
    rw [wTotalLength_eq long] at isAccepted
    cases isAccepted
    refine ⟨long, fun isTotal => ?_⟩
    obtain ⟨ifaces, collected, finds⟩ := finds (decide_eq_true isTotal)
    rw [collectInterfaces_eq long isTotal] at collected
    cases collected
    exact finds
  · intro sound pool valid
    have positive : 0 < blob.length := by
      rcases sound with long | ⟨long, -⟩ <;> omega
    by_cases granted : pool.Grants (.ofNat 64 blob.length)
    swap
    · exact ⟨false, getDeviceConfig_refused valid positive short granted, nofun⟩
    have fits := grants.mp ⟨pool, valid, granted⟩
    obtain ⟨long, finds⟩ := sound.resolve_left (not_lt.mpr fits)
    refine ⟨decide (totalOf blob = blob.length), ?_, fun isAccepted => ?_⟩
    · rw [getDeviceConfig_granted granted, wTotalLength_eq long]
      rfl
    · have isTotal := of_decide_eq_true isAccepted
      exact ⟨_, collectInterfaces_eq long isTotal, finds isTotal⟩

/-- An interface without endpoints, and two bytes 0 behind it. -/
def zeroTail : List U8 :=
  [9, 2, 20, 0, 1, 1, 0, 0x80, 50, 9, 4, 0, 0, 0, 8, 6, 0x50, 0, 0, 0]

theorem zeroTail_accepted : getDeviceConfig freshPool zeroTail = .ok true := by
  rw [getDeviceConfig_granted (freshPool_grants (by decide)), wTotalLength_eq (by decide)]
  rfl

/-- The search does not end on a descriptor of the length 0. -/
theorem zeroTail_endless :
    interfacesOf zeroTail = [9] ∧
      (∀ fuel kind, usbFindDesc fuel zeroTail (9, 11) kind = .error .endless) ∧
      ¬ WalksSoundly ⟨zeroTail, by decide⟩ := by
  have passes : ∀ kind, Passes zeroTail 20 kind 18 18 := fun kind =>
    ⟨by decide, by decide, fun hasKind => absurd hasKind.1.1 (by decide), rfl⟩
  have readable : ∀ kind, Readable zeroTail kind 18 := fun kind =>
    ⟨by decide, fun contra => absurd contra (by decide), fun contra => absurd contra.1 (by decide)⟩
  have endless : ∀ fuel kind, usbFindDesc fuel zeroTail (9, 11) kind = .error .endless :=
    fun fuel kind => findDescLoop_endless (readable kind) (passes kind) fuel
  have collected : collectInterfaces zeroTail = .ok [9] := by decide
  refine ⟨by decide, endless, ?_⟩
  intro sound
  obtain ⟨accepted, isAccepted, walks⟩ := sound freshPool freshPool_valid
  dsimp only at isAccepted walks
  rw [zeroTail_accepted] at isAccepted
  cases isAccepted
  obtain ⟨ifaces, isIfaces, finds⟩ := walks rfl
  rw [collected] at isIfaces
  cases isIfaces
  obtain ⟨fuel, found, returned, -⟩ := finds (9, 11) mem_cons_self ⟨.bulk, .into⟩
  rw [endless] at returned
  cases returned

end XKern.Usb
