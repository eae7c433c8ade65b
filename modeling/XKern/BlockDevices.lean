import XKern.GuardedRun
import XKern.Pmm

namespace XKern.Storage

open GuardedRun List Function

/-!
# The registry of block devices

Model of `iokit/IOStorageFamily/devfs/devfs.c`.  A pointer that `devfs_find` returns is the
number of its slot; `Disk::open` keeps it.
-/

/-- `enum devfs_type`. -/
inductive DevfsType
  | blockDev
  | charDev
  deriving Repr, DecidableEq

/-- How large a device is, as `struct devfs_device` tells it. -/
structure Geometry where
  blockSize : U32
  blockCount : U32
  deriving Repr, DecidableEq

/-- A string that `strncpy` copies whole within `n` bytes.  From `n` characters on it runs away. -/
def CopiedString (n : Nat) : Type := { chars : List U8 // chars.length < n ∧ 0 ∉ chars }
  deriving DecidableEq

/-- A name within `DEVFS_NAME_MAX - 1`. -/
abbrev DevName := CopiedString 23

/-- `struct devfs_device`. -/
structure DevfsDevice (Priv Call : Type) extends Geometry where
  name : DevName
  type : DevfsType
  model : CopiedString 47
  priv : Priv
  read : Call
  write : Call

variable {Priv Call : Type}

/-- `g_devices` and `g_dev_count`; a slot keeps its contents when it is given up. -/
structure Registry (Priv Call : Type) where
  slots : Nat → DevfsDevice Priv Call
  count : Nat

/-- `devfs_find`. -/
def devfsFind (registry : Registry Priv Call) (name : DevName) : Option Nat :=
  (range registry.count).find? fun i => (registry.slots i).name = name

/-- `devfs_register`; `none` if the device is refused. -/
def devfsRegister (device : DevfsDevice Priv Call) (registry : Registry Priv Call) :
    Option (Registry Priv Call) :=
  if 32 ≤ registry.count then
    none
  else if (devfsFind registry device.name).isSome then
    none
  else
    some {
      slots := update registry.slots registry.count device
      count := registry.count + 1 }

/-- `devfs_unregister`; `none` if there is no such device. -/
def devfsUnregister (name : DevName) (registry : Registry Priv Call) :
    Option (Registry Priv Call) :=
  (devfsFind registry name).map fun i => {
    slots := (range' i (registry.count - 1 - i)).foldl
      (fun slots j => update slots j (slots (j + 1))) registry.slots
    count := registry.count - 1 }

/-- A call that changes the registry. -/
inductive RegistryCall (Priv Call : Type)
  | register (device : DevfsDevice Priv Call)
  | unregister (name : DevName)

/-- The registry after a call; one that fails leaves it as it is. -/
def RegistryCall.apply (registry : Registry Priv Call) :
    RegistryCall Priv Call → Registry Priv Call
  | register device => (devfsRegister device registry).getD registry
  | unregister name => (devfsUnregister name registry).getD registry

/-- The calls up to the one that unregisters the device of that name. -/
def callWhileNamed (name : DevName) (registry : Registry Priv Call) :
    RegistryCall Priv Call → Option (Registry Priv Call)
  | .unregister other =>
      if other = name then none else some (RegistryCall.apply registry (.unregister other))
  | call => some (call.apply registry)

variable {registry : Registry Priv Call} {name : DevName}

theorem callWhileNamed_eq_some {next : Registry Priv Call} {call : RegistryCall Priv Call}
    (taken : callWhileNamed name registry call = some next) :
    call ≠ .unregister name ∧ call.apply registry = next := by
  cases call with
  | register device => exact ⟨nofun, Option.some.inj taken⟩
  | unregister other =>
    rw [callWhileNamed, Option.ite_none_left_eq_some] at taken
    exact ⟨fun same => taken.1 (RegistryCall.unregister.inj same), Option.some.inj taken.2⟩

/-- No two devices have the same name. -/
def NamesDiffer (registry : Registry Priv Call) : Prop :=
  ∀ i j, i < j → j < registry.count → (registry.slots i).name ≠ (registry.slots j).name

theorem devfsFind_eq_some {i : Nat} (found : devfsFind registry name = some i) :
    i < registry.count ∧ (registry.slots i).name = name :=
  ⟨mem_range.mp (mem_of_find?_eq_some found), by
    have same := find?_some found
    exact of_decide_eq_true same⟩

theorem devfsFind_eq_none (missing : devfsFind registry name = none) (i : Nat)
    (inUse : i < registry.count) :
    (registry.slots i).name ≠ name := by
  have differs := find?_eq_none.mp missing i (mem_range.mpr inUse)
  exact fun same => differs (decide_eq_true same)

theorem foldl_shift {Value : Type} (slots : Nat → Value) (i length j : Nat) :
    (range' i length).foldl (fun slots j => update slots j (slots (j + 1)))
      slots j = if i ≤ j ∧ j < i + length then slots (j + 1) else slots j := by
  induction length generalizing i slots with
  | zero => rw [range'_zero, foldl_nil, if_neg (by omega)]
  | succ length ih =>
    rw [range'_succ, foldl_cons, ih]
    rcases lt_trichotomy j i with below | rfl | above
    · rw [if_neg (by omega), if_neg (by omega), update_of_ne (by omega)]
    · rw [if_neg (by omega), if_pos (by omega), update_self]
    · rw [update_of_ne (by omega), update_of_ne (by omega)]
      exact if_congr (by omega) rfl rfl

/-- What a call does: nothing, fill the next slot, or close the gap of a device. -/
theorem apply_cases (registry : Registry Priv Call) (call : RegistryCall Priv Call) :
    (∃ device, call = .register device ∧ (devfsRegister device registry = none ∧
        call.apply registry = registry ∨ (devfsRegister device registry).isSome ∧
        (∀ i < registry.count, (registry.slots i).name ≠ device.name) ∧
        (call.apply registry).count = registry.count + 1 ∧
        (call.apply registry).slots = update registry.slots registry.count device)) ∨
    ∃ other, call = .unregister other ∧
      (devfsFind registry other = none ∧ call.apply registry = registry ∨
      ∃ i, devfsFind registry other = some i ∧ i < registry.count ∧
        (registry.slots i).name = other ∧ (call.apply registry).count = registry.count - 1 ∧
        ∀ j, (call.apply registry).slots j =
          if i ≤ j ∧ j < registry.count - 1 then registry.slots (j + 1)
          else registry.slots j) := by
  cases call with
  | register device =>
    refine Or.inl ⟨device, rfl, ?_⟩
    rw [RegistryCall.apply, devfsRegister]
    by_cases full : 32 ≤ registry.count
    · simp [full]
    cases found : devfsFind registry device.name with
    | some i => simp [full]
    | none =>
      refine Or.inr ?_
      simpa [full] using devfsFind_eq_none found
  | unregister other =>
    refine Or.inr ⟨other, rfl, ?_⟩
    rw [RegistryCall.apply, devfsUnregister]
    cases found : devfsFind registry other with
    | none => exact Or.inl ⟨rfl, rfl⟩
    | some i =>
      obtain ⟨inUse, named⟩ := devfsFind_eq_some found
      refine Or.inr ⟨i, rfl, inUse, named, rfl, ?_⟩
      intro j
      refine (foldl_shift _ _ _ _).trans (if_congr ?_ rfl rfl)
      omega

theorem namesDiffer_apply (differ : NamesDiffer registry) (call : RegistryCall Priv Call) :
    NamesDiffer (call.apply registry) := by
  intro first second before below
  obtain ⟨device, -, ⟨-, same⟩ | ⟨-, fresh, count, slots⟩⟩ |
    ⟨other, -, ⟨-, same⟩ | ⟨i, -, removed, -, count, slots⟩⟩ := apply_cases registry call
  · rw [same] at below ⊢
    exact differ first second before below
  · rw [slots, update_of_ne (by omega)]
    by_cases last : second = registry.count
    · rw [last, update_self]
      exact fresh first (by omega)
    · rw [update_of_ne last]
      exact differ first second before (by omega)
  · rw [same] at below ⊢
    exact differ first second before below
  · rw [slots, slots]
    split <;> split <;> exact differ _ _ (by omega) (by omega)

theorem namesDiffer_foldl (differ : NamesDiffer registry) (calls : List (RegistryCall Priv Call)) :
    NamesDiffer (calls.foldl RegistryCall.apply registry) := by
  induction calls generalizing registry with
  | nil => exact differ
  | cons call calls ih =>
    exact ih (namesDiffer_apply differ call)

/-- A device of this name is registered, once. -/
def StillNamed (name : DevName) (registry : Registry Priv Call) : Prop :=
  NamesDiffer registry ∧ ∃ i < registry.count, (registry.slots i).name = name

theorem stillNamed_step (registry : Registry Priv Call) (call : RegistryCall Priv Call)
    (next : Registry Priv Call) (before : StillNamed name registry)
    (taken : callWhileNamed name registry call = some next) : StillNamed name next := by
  obtain ⟨differ, place, inUse, named⟩ := before
  obtain ⟨isOther, rfl⟩ := callWhileNamed_eq_some taken
  refine ⟨namesDiffer_apply differ call, ?_⟩
  obtain ⟨device, -, ⟨-, same⟩ | ⟨-, fresh, count, slots⟩⟩ |
    ⟨other, rfl, ⟨-, same⟩ | ⟨i, -, removed, rfl, count, slots⟩⟩ := apply_cases registry call
  · exact ⟨place, by rwa [same], by rwa [same]⟩
  · refine ⟨place, by omega, ?_⟩
    rwa [slots, update_of_ne (by omega)]
  · exact ⟨place, by rwa [same], by rwa [same]⟩
  · have elsewhere : place ≠ i := by
      rintro rfl
      exact isOther (congrArg _ named)
    by_cases behind : i < place
    · refine ⟨place - 1, by omega, ?_⟩
      rwa [slots, if_pos (by omega), Nat.sub_add_cancel (by omega)]
    · refine ⟨place, by omega, ?_⟩
      rwa [slots, if_neg (by omega)]

/--
A call leaves a slot alone: no device is registered into it, and none before it is
unregistered while another is registered behind it.
-/
def LeavesSlot (slot : Nat) (registry : Registry Priv Call) : RegistryCall Priv Call → Prop
  | .register device => (devfsRegister device registry).isSome → registry.count ≠ slot
  | .unregister other => ∀ i, devfsFind registry other = some i →
      ¬ (i < slot ∧ slot + 1 < registry.count)

/-- A slot that holds the record, in use or given up, keeps it if it is left alone. -/
theorem keepsSlot_iff {record : DevfsDevice Priv Call} (isNamed : record.name = name) (slot : Nat)
    (registry : Registry Priv Call) (call : RegistryCall Priv Call) (next : Registry Priv Call)
    (before : StillNamed name registry) (kept : registry.slots slot = record)
    (taken : callWhileNamed name registry call = some next) :
    next.slots slot = record ↔ LeavesSlot slot registry call := by
  obtain ⟨differ, place, inUse, named⟩ := before
  obtain ⟨isOther, rfl⟩ := callWhileNamed_eq_some taken
  obtain ⟨device, rfl, ⟨refused, same⟩ | ⟨accepted, fresh, -, slots⟩⟩ |
    ⟨other, rfl, ⟨missing, same⟩ | ⟨i, found, removed, rfl, -, slots⟩⟩ :=
    apply_cases registry call
  · simp [LeavesSlot, refused, same, kept]
  · rw [LeavesSlot, slots, imp_iff_right accepted]
    constructor
    · intro stays sameSlot
      rw [sameSlot, update_self] at stays
      have sameName : device.name = name := by rw [← isNamed, ← stays]
      exact fresh place inUse (named.trans sameName.symm)
    · intro free
      rwa [update_of_ne (Ne.symm free)]
  · simp [LeavesSlot, missing, same, kept]
  · rw [LeavesSlot, slots, found]
    constructor
    · rintro stays _ ⟨⟩ ⟨before, behind⟩
      rw [if_pos (by omega), ← kept] at stays
      exact differ slot (slot + 1) (by omega) behind (by rw [stays])
    · intro leaves
      have outside := leaves i rfl
      have notSelf : i ≠ slot := by
        rintro rfl
        exact isOther (congrArg _ ((congrArg _ kept).trans isNamed))
      rwa [if_neg (by omega)]

/--
After any calls since boot, a pointer that `devfs_find` returns denotes its device until
that is unregistered exactly when every call in between leaves the slot alone.
-/
theorem handle_stable_iff (initial : Nat → DevfsDevice Priv Call)
    (calls : List (RegistryCall Priv Call)) {registry final : Registry Priv Call}
    (reached : calls.foldl RegistryCall.apply ⟨initial, 0⟩ = registry)
    {name : DevName} {slot : Nat} (found : devfsFind registry name = some slot)
    {trace : List (Registry Priv Call × RegistryCall Priv Call)}
    (run : Run (callWhileNamed name) registry trace final) :
    Throughout (fun later => later.slots slot = registry.slots slot) trace final ↔
      AllAllowed (LeavesSlot slot) trace := by
  obtain ⟨inUse, named⟩ := devfsFind_eq_some found
  have differ : NamesDiffer registry := by
    rw [← reached]
    exact namesDiffer_foldl (fun _ _ _ below => absurd below (Nat.not_lt_zero _)) calls
  have started : StillNamed name registry := ⟨differ, slot, inUse, named⟩
  exact run.throughout_iff started rfl stillNamed_step (keepsSlot_iff named slot)

/-- The names `a`, `b` and `c`. -/
def nameA : DevName := ⟨[97], by decide⟩
def nameB : DevName := ⟨[98], by decide⟩
def nameC : DevName := ⟨[99], by decide⟩

/-- A disk of 100 sectors. -/
def smallDisk (name : DevName) (priv : U64) : DevfsDevice U64 U64 :=
  ⟨⟨512, 100⟩, name, .blockDev, ⟨[], by decide⟩, priv, 0, 0⟩

/-- The disks a, b and c in this order. -/
def threeDisks : Registry U64 U64 :=
  [.register (smallDisk nameA 1), .register (smallDisk nameB 2),
    .register (smallDisk nameC 3)].foldl RegistryCall.apply ⟨fun _ => smallDisk nameA 0, 0⟩

/-- The last device goes, and the handle of the second stays. -/
theorem lastUnregistered_stable :
    (RegistryCall.apply threeDisks (.unregister nameC)).slots 1 = threeDisks.slots 1 := by
  have found : devfsFind threeDisks nameB = some 1 := by decide
  have run : Run (callWhileNamed nameB) threeDisks [(threeDisks, .unregister nameC)]
      (RegistryCall.apply threeDisks (.unregister nameC)) := Run.step Run.start rfl
  refine ((handle_stable_iff _ _ rfl found run).mpr ?_).2
  intro taken member
  cases mem_singleton.mp member
  have isLast : devfsFind threeDisks nameC = some 2 := by decide
  rintro i found ⟨before, -⟩
  cases isLast.symm.trans found
  exact absurd before (by decide)

/-- Once the disk a is gone, the pointer to b denotes c. -/
theorem firstUnregistered_moves :
    devfsFind threeDisks nameB = some 1 ∧ (threeDisks.slots 1).priv = 2 ∧
      callWhileNamed nameB threeDisks (.unregister nameA) =
        some (RegistryCall.apply threeDisks (.unregister nameA)) ∧
      ((RegistryCall.apply threeDisks (.unregister nameA)).slots 1).priv = 3 :=
  ⟨by decide, by decide, rfl, by decide⟩

end XKern.Storage
