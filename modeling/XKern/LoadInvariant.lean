import XKern.Argv
import XKern.Elf

namespace XKern

open FaultTriple

/-!
# What every load keeps

The ELF loader and the argument builder change the machine in three ways only:
they map new frames, they store through the tables and they switch CR3.  A
predicate that each of these keeps holds wherever a load ends, at a fault as
well as at a return, on any machine and for any image.
-/

/-- The three ways in which a load changes the machine keep `inv`. -/
structure LoadInvariant (inv : Machine → Prop) : Prop where
  maps : ∀ v flags machine,
    inv machine → inv (pagingAllocAndMap v flags machine).2
  stores : ∀ machine memory, inv machine → inv { machine with memory }
  switches : ∀ cr3 machine, inv machine → inv (pagingLoadCr3 cr3 machine)

/-- `inv` holds where the program ends if it holds where it starts. -/
def Keeps {Value : Type} (inv : Machine → Prop) (program : KernelM Value) : Prop :=
  Triple inv program (fun _ => inv) inv

namespace Keeps

variable {Value Result : Type} {inv : Machine → Prop}

theorem pure (value : Value) : Keeps inv (Pure.pure value) :=
  Triple.pure fun _ holds => holds

theorem bind {program : KernelM Value} {next : Value → KernelM Result} (first : Keeps inv program)
    (second : ∀ value, Keeps inv (next value)) :
    Keeps inv (program >>= next) :=
  Triple.bind first second

theorem ite {condition : Prop} [Decidable condition] {yes no : KernelM Value}
    (whenTrue : Keeps inv yes) (whenFalse : Keeps inv no) :
    Keeps inv (if condition then yes else no) :=
  Triple.ite (fun _ => whenTrue) (fun _ => whenFalse)

theorem fetch (value : Option U64) : Keeps inv (XKern.fetch value) := by
  cases value with
  | none => exact .throw fun _ holds => holds
  | some got => exact .pure got

end Keeps

namespace LoadInvariant

variable {inv : Machine → Prop}

variable (keeps : LoadInvariant inv)

include keeps

theorem mapPages (flags : U32) (stop : U64) (fuel : Nat) (v : U64) :
    Keeps inv (mapPages allocAndMap flags stop fuel v) := by
  induction fuel generalizing v with
  | zero => exact .throw fun _ holds => holds
  | succ fuel ih =>
    rw [XKern.mapPages]
    apply Keeps.ite
    · apply Keeps.bind
      · exact .modifyGet fun machine holds => keeps.maps v flags machine holds
      · exact fun phys => .ite (.pure false) (ih _)
    · exact .pure true

theorem storeVirt (write : Memory → U64 → Memory) (va : U64) : Keeps inv (storeVirt write va) := by
  intro machine holds
  rw [storeVirt_eq]
  cases walk machine.memory machine.cr3 va with
  | none => exact holds
  | some translation => exact keeps.stores machine _ holds

theorem storeBytes (bytes : List U8) (va : U64) : Keeps inv (storeBytes bytes va) := by
  induction bytes generalizing va with
  | nil => exact .pure ()
  | cons byte bytes ih =>
    exact .bind (keeps.storeVirt _ va) fun _ => ih _

theorem moveAccesses {load : U64 → Nat → KernelM U64}
    (loads : ∀ offset size, Keeps inv (load offset size)) (widths : List AccessWidth)
    (va offset : U64) :
    Keeps inv (moveAccesses load widths va offset) := by
  induction widths generalizing va offset with
  | nil => exact .pure ()
  | cons width rest ih =>
    refine .bind (loads offset width.size) fun value => ?_
    exact .bind (keeps.storeVirt _ va) fun _ => ih _ _

theorem memsetZero (p : U64) (n : Nat) : Keeps inv (memsetZero p n) :=
  keeps.moveAccesses (fun _ _ => .pure 0) _ _ _

theorem withCr3 {Value : Type} {program : KernelM Value} (cr3 : U64) (inside : Keeps inv program) :
    Keeps inv (withCr3 cr3 program) := by
  rw [XKern.withCr3]
  apply Keeps.bind
  · exact fun machine holds => holds
  · intro machine
    apply Keeps.bind
    · exact fun machine holds => keeps.switches cr3 machine holds
    · intro _
      apply Keeps.bind inside
      intro value
      apply Keeps.bind
      · exact fun machine holds => keeps.switches _ machine holds
      · exact fun _ => Keeps.pure value

/-! ## The ELF loader -/

theorem mapSegments (img : ElfImage) (phoff : U64) (remaining i : Nat) :
    Keeps inv (mapSegments allocAndMap img phoff remaining i) := by
  induction remaining generalizing i with
  | zero => exact .pure true
  | succ remaining ih =>
    rw [XKern.mapSegments]
    refine .bind (.fetch _) fun type => ?_
    refine .ite (ih _) ?_
    refine .bind (.fetch _) fun offset => ?_
    refine .bind (.fetch _) fun filesz => ?_
    refine .ite (.pure false) ?_
    refine .bind (.fetch _) fun memsz => ?_
    refine .ite (.pure false) ?_
    refine .bind (.fetch _) fun vaddr => ?_
    refine .bind (keeps.mapPages _ _ _ _) fun allMapped => ?_
    exact .ite (ih _) (.pure false)

theorem copyFromImage (img : ElfImage) (count : Nat) (va offset : U64) :
    Keeps inv (copyFromImage img count va offset) :=
  keeps.moveAccesses (fun _ _ => .fetch _) _ _ _

theorem fillSegment (img : ElfImage) (phoff : U64) (i : Nat) (fsize msize : U64) :
    Keeps inv (fillSegment img phoff i fsize msize) := by
  refine .bind (.fetch _) fun vaddr => ?_
  have cleared : Keeps inv (if fsize < msize then do
      XKern.memsetZero (vaddr + fsize) ((msize - fsize).setWidth 32).toNat
      Pure.pure vaddr
    else
      Pure.pure vaddr) :=
    .ite (.bind (keeps.memsetZero _ _) fun _ => .pure vaddr) (.pure vaddr)
  apply Keeps.ite
  · refine Keeps.bind (Keeps.fetch _) fun offset => ?_
    exact .bind (keeps.copyFromImage img _ _ _) fun _ => cleared
  · exact cleared

theorem fillSegments (img : ElfImage) (phoff : U64) (remaining i : Nat) (lo hi : U64) :
    Keeps inv (fillSegments img phoff remaining i lo hi) := by
  induction remaining generalizing i lo hi with
  | zero => exact .pure (lo, hi)
  | succ remaining ih =>
    rw [XKern.fillSegments]
    refine .bind (.fetch _) fun fsize => ?_
    refine .bind (.fetch _) fun msize => ?_
    refine .bind (.fetch _) fun type => ?_
    refine .ite (ih _ _ _) ?_
    exact .bind (keeps.fillSegment img phoff i fsize msize)
      fun vaddr => ih _ _ _

theorem elfLoad (img : ElfImage) : Keeps inv (elfLoad allocAndMap img) := by
  rw [XKern.elfLoad]
  refine .ite (.pure none) ?_
  refine .bind (.fetch _) fun ehsize => ?_
  refine .bind (.fetch _) fun phentsize => ?_
  refine .bind (.fetch _) fun phnum => ?_
  refine .ite (.pure none) ?_
  refine .bind (.fetch _) fun phoff => ?_
  refine .ite (.pure none) ?_
  refine .bind (keeps.mapSegments img phoff _ _) fun allMapped => ?_
  refine .ite (.pure none) ?_
  refine .bind (keeps.fillSegments img phoff _ _ _ _) fun bounds => ?_
  refine .ite (.pure none) ?_
  exact .bind (.fetch _) fun entry => .pure _

theorem elfLoadPd (pdPhys : U64) (img : ElfImage) :
    Keeps inv (elfLoadPd allocAndMap pdPhys img) :=
  .ite (.pure none) (keeps.withCr3 pdPhys (keeps.elfLoad img))

/-! ## The argument builder -/

theorem storeArgv (tokens : List (List U8)) (i : Nat) (s : U64) :
    Keeps inv (storeArgv tokens i s) := by
  induction tokens generalizing i s with
  | nil => exact .pure ()
  | cons token tokens ih =>
    refine .bind (keeps.storeVirt _ _) fun _ => ?_
    exact .bind (keeps.storeBytes _ s) fun _ => ih _ _

theorem taskBuildArgv (cr3 : U64) (name : TaskName) (argline : Option (List U8)) :
    Keeps inv (taskBuildArgv allocAndMap cr3 name argline) := by
  refine .ite (.pure none) (keeps.withCr3 cr3 ?_)
  refine .bind (keeps.mapPages _ _ _ _) fun allMapped => ?_
  refine .ite (.pure none) ?_
  refine .bind (keeps.storeArgv _ _ _) fun _ => ?_
  exact .bind (keeps.storeVirt _ _) fun _ => .pure _

end LoadInvariant

end XKern
