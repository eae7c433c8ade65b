import XKern.DevfsLookup
import XKern.UsbDma

namespace XKern

open BitVec

/-!
# Device nodes of USB input devices

Model of `usbhid_add_node` and its callers in `iokit/IOUSBFamily/hid/usbhid.c`
and of the boot order in `osfmk/kern/main.c`: `usb_setup` comes before
`io_storage_init`, which calls `devfs_init`.  The other calls of
`io_storage_init` register block devices in a table of their own and leave the
device tree alone.
-/

/-- The hooks of the nodes. -/
inductive HidHook
  | kbdRead
  | hidRead
  deriving Repr, DecidableEq

/-- The kinds of devices. -/
inductive HidKind
  | keyboard
  | mouse
  | generic
  deriving Repr, DecidableEq

namespace HidKind

/-- The first part of the name of a node. -/
def nodePrefix : HidKind → List U8
  -- ukbd, umouse, uhid
  | keyboard => [0x75, 0x6B, 0x62, 0x64]
  | mouse => [0x75, 0x6D, 0x6F, 0x75, 0x73, 0x65]
  | generic => [0x75, 0x68, 0x69, 0x64]

/-- `usbhid_kbd_ops`, `usbhid_mouse_ops` and `usbhid_hid_ops`. -/
def ops (kind : HidKind) : DevfsOps HidHook where
  name := kind.nodePrefix
  devclass :=
    match kind with
    | keyboard => .hidKbd
    | mouse => .hidMouse
    | generic => .usb
  openHook := none
  closeHook := none
  readHook :=
    match kind with
    | keyboard => some .kbdRead
    | mouse => some .hidRead
    | generic => some .hidRead
  writeHook := none

end HidKind

/-- An interface whose setup succeeds, with its `struct pipe_node`. -/
structure HidInterface where
  kind : HidKind
  pipeNode : U64
  deriving Repr, DecidableEq

/-- The state of the set-up of USB devices. -/
structure UsbBoot where
  devfs : Devfs HidHook
  usbDirMade : Bool
  /-- `g_ukbd_idx`, `g_umouse_idx` and `g_uhid_idx`. -/
  indices : HidKind → U32

/-- `/dev/usb`. -/
def usbDir : List U8 := [0x2F, 0x64, 0x65, 0x76, 0x2F, 0x75, 0x73, 0x62]

/-- `%d`. -/
def decimal (value : U32) : List U8 :=
  let digits := (Nat.toDigits 10 value.toInt.natAbs).map fun digit =>
    .ofNat 8 digit.toNat
  if value.toInt < 0 then 0x2D :: digits else digits

/-- `/dev/usb/<prefix><index>`. -/
def hidPath (kind : HidKind) (index : U32) : List U8 :=
  usbDir ++ [slash] ++ kind.nodePrefix ++ decimal index

/-- `usbhid_add_node`; what the devfs calls return is ignored. -/
def usbhidAddNode (kind : HidKind) (index : U32) (pipeNode : U64)
    (boot : UsbBoot) : Option UsbBoot := do
  let made ←
    if boot.usbDirMade then
      some boot
    else do
      let (_, devfs) ← devfsMkdir usbDir boot.devfs
      return { boot with devfs, usbDirMade := true }
  let (_, devfs) ←
    devfsAddDevice (hidPath kind index) .char (some kind.ops) pipeNode made.devfs
  return { made with devfs }

/-- The end of a setup function: the call of `usbhid_add_node` with the next index. -/
def addIndexedNode (kind : HidKind) (pipeNode : U64) (boot : UsbBoot) : Option UsbBoot :=
  let index := boot.indices kind
  usbhidAddNode kind index pipeNode
    { boot with indices := Function.update boot.indices kind (index + 1) }

/-- `usb_kbd_setup`, once `hid_boot_init` has given a node. -/
def usbKbdSetup : U64 → UsbBoot → Option UsbBoot :=
  addIndexedNode .keyboard

/-- `usb_mouse_setup`, once `hid_boot_init` has given a node. -/
def usbMouseSetup : U64 → UsbBoot → Option UsbBoot :=
  addIndexedNode .mouse

/-- `usb_hid_generic_setup`, once the pipe and the node are allocated. -/
def usbHidGenericSetup : U64 → UsbBoot → Option UsbBoot :=
  addIndexedNode .generic

/-- The calls of the setup functions in `usbdev_attach`. -/
def hidSetup (boot : UsbBoot) (interface : HidInterface) : Option UsbBoot :=
  match interface.kind with
  | .keyboard => usbKbdSetup interface.pipeNode boot
  | .mouse => usbMouseSetup interface.pipeNode boot
  | .generic => usbHidGenericSetup interface.pipeNode boot

/-- The zeroed static data before `usb_setup`. -/
def UsbBoot.unset : UsbBoot where
  devfs := .unset
  usbDirMade := false
  indices := fun _ => 0

/-- `usb_setup`, as far as it sets up HID interfaces. -/
def usbSetup (interfaces : List HidInterface) : Option UsbBoot :=
  interfaces.foldlM hidSetup UsbBoot.unset

/-- `io_storage_init`, as far as it changes the device tree. -/
def ioStorageInit (boot : UsbBoot) : UsbBoot :=
  { boot with devfs := devfsInit }

/-- The index that an interface gets: the number of its kind before it. -/
def hidIndex (earlier : List HidInterface) (kind : HidKind) : U32 :=
  .ofNat 32 (earlier.countP fun interface => interface.kind = kind)

/-- Every interface has its node once `io_storage_init` has returned. -/
def HidNodesSurvive (interfaces : List HidInterface) : Prop :=
  ∃ boot, usbSetup interfaces = some boot ∧
    ∀ earlier interface later, interfaces = earlier ++ interface :: later →
      ∃ slot, devfsNodeFind (ioStorageInit boot).devfs
          (hidPath interface.kind (hidIndex earlier interface.kind)) = some slot ∧
        ((ioStorageInit boot).devfs.nodes slot).type = .char ∧
        ((ioStorageInit boot).devfs.nodes slot).ops = some interface.kind.ops ∧
        ((ioStorageInit boot).devfs.nodes slot).priv = interface.pipeNode

theorem find_devfsInit {path : List U8} {index : DevfsIndex}
    (found : devfsNodeFind (devfsInit : Devfs HidHook) path = some index) :
    index = 0 := by
  have below := NameForest.Forest.below_of_resolve
    ((devfsInit_isTree.find_eq path).symm.trans found)
  have counted := devfsInit_isTree.below_counted one_pos below
  exact Fin.ext (Nat.lt_one_iff.mp counted)

/-- Of any interfaces that are set up early, none has a node after boot. -/
theorem hidNodesSurvive_iff (interfaces : List HidInterface) :
    HidNodesSurvive interfaces ↔ interfaces = [] := by
  constructor
  · rintro ⟨boot, _, survives⟩
    cases interfaces with
    | nil => rfl
    | cons interface later =>
      obtain ⟨slot, found, isChar, _⟩ := survives [] interface later rfl
      -- the only node that can be found is the root, which is a directory
      rw [find_devfsInit found] at isChar
      cases isChar
  · rintro rfl
    refine ⟨UsbBoot.unset, rfl, ?_⟩
    intro earlier interface later impossible
    simp at impossible

/-- A keyboard that is set up during `usb_setup`. -/
def bootKeyboard : HidInterface where
  kind := .keyboard
  pipeNode := 0x300000

/-- `/dev/usb/ukbd0` leads nowhere, before `devfs_init` and after it. -/
theorem bootKeyboard_lost :
    (usbSetup [bootKeyboard]).map (fun boot =>
        (devfsNodeFind boot.devfs (hidPath .keyboard 0),
          devfsNodeFind (ioStorageInit boot).devfs (hidPath .keyboard 0))) =
      some (none, none) ∧
    ¬ HidNodesSurvive [bootKeyboard] := by
  refine ⟨by decide, ?_⟩
  rintro ⟨boot, _, survives⟩
  obtain ⟨slot, found, isChar, _⟩ := survives [] bootKeyboard [] rfl
  rw [find_devfsInit found] at isChar
  cases isChar

/-! ## Report buffers -/

inductive UsbController
  | uhci
  | ohci
  | ehci
  | xhci
  deriving Repr, DecidableEq

/-- `u8 data[16]` of `poll_nodes` and `u8 last_report[16]` of a node. -/
def reportBuffer : Nat := 16

/-- What the setup of an interrupt pipe reads of `struct usb_endpoint_descriptor` and of the
speed of the device. -/
structure IntrEndpoint where
  wMaxPacketSize : U16
  bInterval : U8
  highSpeed : Bool
  deriving Repr, DecidableEq

/-- `usb_get_period`. -/
def usbGetPeriod (endpoint : IntrEndpoint) : Nat :=
  let period := endpoint.bInterval.toNat
  if endpoint.highSpeed then
    if period ≤ 4 then 0 else period - 4
  else
    if period = 0 then 0 else period.log2

/-- The size of the data buffer of an interrupt pipe.  `ohci_alloc_intr_pipe` takes one
packet for each of its `count` transfer descriptors. -/
def UsbController.intrData (controller : UsbController) (endpoint : IntrEndpoint) : U64 :=
  match controller with
  | ohci =>
      let ms := 2 ^ min (usbGetPeriod endpoint) 5
      let count := (2 + ms - 1) / ms + 1
      endpoint.wMaxPacketSize.setWidth 64 * .ofNat 64 count
  | _ => endpoint.wMaxPacketSize.setWidth 64

/-- The data buffer of the pipe that `usb_alloc_pipe` sets up; without one there is no
pipe. -/
def UsbController.allocIntrData (controller : UsbController) (pool : Usb.DmaPool)
    (endpoint : IntrEndpoint) : Option (U64 × Usb.DmaPool) :=
  match controller with
  | ehci => Usb.usbDmaAllocAligned pool (controller.intrData endpoint) 32
  | _ => Usb.usbDmaAlloc pool (controller.intrData endpoint)

/-- The packet sizes that the setup function lets through. -/
def HidKind.lets (kind : HidKind) (maxpacket : U16) : Prop :=
  match kind with
  | keyboard => ¬ (maxpacket < 8 ∨ 16 < maxpacket)
  | mouse => ¬ (maxpacket < 3 ∨ 4 + 4 < maxpacket)
  | generic => True

/-- The setup function can succeed: it lets the packet size through, and some pool has the
memory for the pipe. -/
def HidKind.accepts (kind : HidKind) (controller : UsbController) (endpoint : IntrEndpoint) :
    Prop :=
  kind.lets endpoint.wMaxPacketSize ∧
    ∃ (pool : Usb.DmaPool) (result : U64 × Usb.DmaPool), pool.Valid ∧
      controller.allocIntrData pool endpoint = some result ∧ result.1 ≠ 0

/-- `report_size`, which only `usb_hid_generic_setup` sets. -/
def HidKind.reportSize (kind : HidKind) (maxpacket : U16) : U8 :=
  match kind with
  | generic => if maxpacket < 1 ∨ 64 < maxpacket then 8 else maxpacket.setWidth 8
  | _ => 0

/-- How many bytes `usbhid_hid_read` copies out of `last_report`. -/
def usbhidHidRead (reportSize : U8) (len : U32) : U32 :=
  let sz := if reportSize ≠ 0 then reportSize else 8
  if sz.setWidth 32 < len then sz.setWidth 32 else len

namespace UsbController

/-- How many bytes the pipe asks for: a field of 11 bits, of 15 bits, or the whole size. -/
def requested (controller : UsbController) (maxpacket : U16) : Nat :=
  match controller with
  | uhci =>
      let field := if 0 < maxpacket then (maxpacket - 1) &&& 0x7FF else 0x7FF
      (field.toNat + 1) % 2048
  | ehci => (maxpacket &&& 0x7FFF).toNat
  | _ => maxpacket.toNat

/-- How many bytes the poll function copies once the device has sent its bytes. -/
def pollIntr (controller : UsbController) (maxpacket : U16) (sent : Nat) : Nat :=
  match controller with
  | uhci => sent
  | ehci => maxpacket.toNat - (controller.requested maxpacket - sent)
  | _ => maxpacket.toNat

end UsbController

/-- Polling stays in the local buffer, and reading the node in the last report. -/
def ReportsInside (kind : HidKind) (controller : UsbController) (maxpacket : U16) : Prop :=
  (∀ sent ≤ controller.requested maxpacket,
    controller.pollIntr maxpacket sent ≤ reportBuffer) ∧
  (kind.ops.readHook = some .hidRead →
    ∀ len, (usbhidHidRead (kind.reportSize maxpacket) len).toNat ≤ reportBuffer)

theorem requested_uhci (maxpacket : U16) :
    UsbController.uhci.requested maxpacket = maxpacket.toNat % 2048 := by
  have low : (0x7FF : U16).toNat = 2 ^ 11 - 1 := rfl
  rw [UsbController.requested]
  split
  · rename_i positive
    rw [lt_def] at positive
    rw [toNat_and, low, Nat.and_two_pow_sub_one_eq_mod, toNat_sub]
    simp at positive ⊢
    omega
  · rename_i zero
    simp at zero
    rw [zero]
    rfl

theorem polls_inside_iff (controller : UsbController) (maxpacket : U16) :
    (∀ sent ≤ controller.requested maxpacket, controller.pollIntr maxpacket sent ≤ reportBuffer) ↔
    if controller = .uhci then maxpacket.toNat % 2048 ≤ 16 else maxpacket.toNat ≤ 16 := by
  constructor
  · intro inside
    have full := inside _ le_rfl
    cases controller <;> simpa [UsbController.pollIntr, reportBuffer, requested_uhci] using full
  · intro small sent isSent
    cases controller <;>
      simp [UsbController.pollIntr, reportBuffer, requested_uhci] at small isSent ⊢ <;> omega

theorem reads_inside_iff (reportSize : U8) :
    (∀ len, (usbhidHidRead reportSize len).toNat ≤ reportBuffer) ↔ reportSize.toNat ≤ 16 := by
  have wide : (reportSize.setWidth 32).toNat = reportSize.toNat := by
    rw [toNat_setWidth]
    omega
  constructor
  · intro inside
    have full := inside (allOnes 32)
    by_cases zero : reportSize = 0
    · simp [zero]
    · rw [usbhidHidRead, if_pos zero, if_pos (by rw [lt_def, wide]; simp; omega), wide] at full
      exact full
  · intro small len
    rw [usbhidHidRead]
    split_ifs with large
    all_goals simp [lt_def, reportBuffer] at * <;> omega

theorem usbGetPeriod_count (endpoint : IntrEndpoint) :
    (2 + 2 ^ min (usbGetPeriod endpoint) 5 - 1) / 2 ^ min (usbGetPeriod endpoint) 5 + 1 =
      if usbGetPeriod endpoint = 0 then 3 else 2 := by
  have few : min (usbGetPeriod endpoint) 5 < 6 := by omega
  generalize isExp : min (usbGetPeriod endpoint) 5 = exp at few
  have zero_iff : usbGetPeriod endpoint = 0 ↔ exp = 0 := by omega
  simp only [zero_iff]
  interval_cases exp <;> rfl

/-- The bytes of the data buffer. -/
def UsbController.dataBytes (controller : UsbController) (endpoint : IntrEndpoint) : Nat :=
  endpoint.wMaxPacketSize.toNat *
    if controller = .ohci then if usbGetPeriod endpoint = 0 then 3 else 2 else 1

theorem toNat_intrData (controller : UsbController) (endpoint : IntrEndpoint) :
    (controller.intrData endpoint).toNat = controller.dataBytes endpoint := by
  have small := endpoint.wMaxPacketSize.isLt
  cases controller with
  | ohci =>
      rw [UsbController.intrData, UsbController.dataBytes, usbGetPeriod_count, toNat_mul,
        toNat_setWidth, if_pos rfl]
      split <;> simp <;> omega
  | _ => simp [UsbController.intrData, UsbController.dataBytes]; omega

/-- A setup can succeed exactly if the data buffer fits into a page. -/
theorem accepts_iff (kind : HidKind) (controller : UsbController) (endpoint : IntrEndpoint) :
    kind.accepts controller endpoint ↔
      kind.lets endpoint.wMaxPacketSize ∧ controller.dataBytes endpoint ≤ 4096 := by
  have low : (controller.intrData endpoint).toNat ≤ 2 ^ 30 := by
    have small := endpoint.wMaxPacketSize.isLt
    rw [toNat_intrData, UsbController.dataBytes]
    split_ifs <;> omega
  have same (pool : Usb.DmaPool) : controller.allocIntrData pool endpoint =
      Usb.usbDmaAlloc pool (controller.intrData endpoint) := by
    cases controller with
    | ehci => exact Usb.usbDmaAllocAligned_eq _ _ (by decide)
    | _ => rfl
  rw [HidKind.accepts, ← toNat_intrData, ← Usb.exists_grants_iff low]
  simp only [same, Usb.DmaPool.Grants, exists_and_left]

/--
Reports stay inside the buffers exactly when the data buffer of a generic device is more
than a page, so that there is no pipe, or its endpoint asks for at most 16 bytes; the field
of a UHCI descriptor keeps the size modulo 2048.
-/
theorem reports_inside_iff (kind : HidKind) (controller : UsbController)
    (endpoint : IntrEndpoint) :
    (kind.accepts controller endpoint →
        ReportsInside kind controller endpoint.wMaxPacketSize) ↔
      (kind = .generic →
        4096 < controller.dataBytes endpoint ∨
          if controller = .uhci then endpoint.wMaxPacketSize.toNat % 2048 ≤ 16
          else endpoint.wMaxPacketSize.toNat ≤ 16) := by
  rw [accepts_iff, ReportsInside, polls_inside_iff, reads_inside_iff]
  cases kind with
  | keyboard =>
      simp only [reduceCtorEq, false_imp_iff, iff_true]
      rintro ⟨isLet, -⟩
      simp [HidKind.lets, lt_def] at isLet
      exact ⟨by split <;> omega, nofun⟩
  | mouse =>
      simp only [reduceCtorEq, false_imp_iff, iff_true]
      rintro ⟨isLet, -⟩
      simp [HidKind.lets, lt_def] at isLet
      exact ⟨by split <;> omega, fun _ => Nat.zero_le 16⟩
  | generic =>
      simp only [HidKind.lets, true_and, true_imp_iff]
      rw [← not_le, ← imp_iff_not_or]
      refine imp_congr_right fun _ => and_iff_left_iff_imp.mpr fun small _ => ?_
      rw [HidKind.reportSize]
      split
      · decide
      · rename_i middle
        simp [lt_def] at middle small ⊢
        split at small <;> omega

/-- The endpoint of a tablet with packets of 64 bytes. -/
def tabletEndpoint : IntrEndpoint where
  wMaxPacketSize := 64
  bInterval := 4
  highSpeed := false

/-- On an XHCI controller its reports leave both buffers. -/
theorem tablet_overruns :
    HidKind.generic.accepts .xhci tabletEndpoint ∧ UsbController.xhci.pollIntr 64 8 = 64 ∧
      usbhidHidRead (HidKind.generic.reportSize 64) 100 = 64 ∧
      ¬ ReportsInside .generic .xhci tabletEndpoint.wMaxPacketSize := by
  refine ⟨(accepts_iff _ _ _).mpr ⟨trivial, by decide⟩, by decide, by decide, ?_⟩
  intro inside
  exact absurd (inside.1 0 (Nat.zero_le _)) (by decide)

end XKern
