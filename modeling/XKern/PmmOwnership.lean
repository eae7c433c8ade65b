import XKern.Pmm
import XKern.TokenPool

namespace XKern

open List Option

/-!
# Exclusive ownership of frames

The allocator is used through `pmm_alloc`, `pmm_free` and `pmm_reserve`.  A
`PmmUse` is the allocator together with the frames its callers hold.  Every
call is a move of the token pool whose free tokens are the entries of the
stack, so the ownership discipline of `TokenPool` carries over to every run.
-/

/-- The calls of the allocator. -/
inductive PmmCall where
  | alloc
  | free (frame : U64)
  | reserve (addr size : U64)
  deriving Repr, DecidableEq

/-- The allocator and the frames in the hands of its callers. -/
structure PmmUse where
  pmm : Pmm
  held : List U64

namespace PmmUse

/-- The effect of one call; `none` is a call that never returns. -/
def call (use : PmmUse) : PmmCall → Option PmmUse
  | .alloc =>
      let (frame, pmm) := pmmAlloc use.pmm
      some ⟨pmm, if frame = 0 then use.held else frame :: use.held⟩
  | .free frame =>
      some ⟨pmmFree use.pmm frame, use.held.erase frame⟩
  | .reserve addr size =>
      (pmmReserve use.pmm addr size).map fun pmm => ⟨pmm, use.held⟩

/-- A sequence of calls. -/
def calls (use : PmmUse) (sequence : List PmmCall) : Option PmmUse :=
  sequence.foldlM call use

/-- A caller frees only frames that it holds, and reserves no wrapped range. -/
def Allowed (use : PmmUse) : PmmCall → Prop
  | .alloc => True
  | .free frame => frame ∈ use.held
  | .reserve addr size => addr.toNat + size.toNat < 2 ^ 64

/-- Every call of the sequence is allowed in the state in which it is made. -/
def AllAllowed (use : PmmUse) : List PmmCall → Prop
  | [] => True
  | first :: rest =>
      use.Allowed first ∧ ∀ next, use.call first = some next →
        next.AllAllowed rest

/-- The stack and the held frames are frames, without repetition, apart. -/
structure Exclusive (use : PmmUse) : Prop where
  stackNodup : use.pmm.stack.Nodup
  heldNodup : use.held.Nodup
  apart : ∀ frame ∈ use.pmm.stack, frame ∉ use.held
  frames : ∀ frame ∈ use.pmm.stack ++ use.held, IsFrame frame

/-- The pool of which this is a use. -/
def pool (use : PmmUse) : TokenPool U64 where
  free := { frame | frame ∈ use.pmm.stack }
  held := { frame | frame ∈ use.held }

end PmmUse

/-- The range of a reserve ends at or below the last page of the address space. -/
def PmmCall.EndsBelowLastPage : PmmCall → Prop
  | .reserve addr size => addr.toNat + size.toNat + 4096 ≤ 2 ^ 64
  | _ => True

namespace PmmUse

/-! ## One call is one move of the pool -/

variable {use : PmmUse}

section

variable (exclusive : use.Exclusive)

include exclusive

theorem Exclusive.of_step {next : PmmUse} {move : TokenPool.Move U64}
    (step : TokenPool.Step use.pool next.pool move) (stackNodup : next.pmm.stack.Nodup)
    (heldNodup : next.held.Nodup) :
    next.Exclusive where
  stackNodup := stackNodup
  heldNodup := heldNodup
  apart := step.exclusive exclusive.apart
  frames := by
    intro frame member
    apply exclusive.frames frame
    by_contra unknown
    rw [mem_append, not_or] at unknown
    have gone := step.gone unknown
    rcases List.mem_append.mp member with onStack | isHeld
    · exact gone.1 onStack
    · exact gone.2 isHeld

theorem call_alloc : ∃ next move,
      use.call .alloc = some next ∧ next.Exclusive ∧ TokenPool.Step use.pool next.pool move ∧
        ∀ frame, move ≠ .release frame := by
  rcases eq_nil_or_concat use.pmm.stack with
    empty | ⟨rest, top, shape⟩
  · refine ⟨use, .idle, ?_, exclusive,
      .idle (fun _ => Iff.rfl) (fun _ => Iff.rfl), fun frame => by simp⟩
    simp [call, pmmAlloc_nil empty]
  · rw [concat_eq_append] at shape
    obtain ⟨topValue, restValue⟩ := pmmAlloc_concat shape
    have onStack : ∀ frame, frame ∈ use.pmm.stack ↔ frame ∈ rest ∨ frame = top := by
      intro frame
      simp [shape]
    have topOnStack : top ∈ use.pmm.stack := by simp [shape]
    have topFrame : IsFrame top := exclusive.frames top (mem_append_left _ topOnStack)
    have stackNodup := exclusive.stackNodup
    rw [shape, nodup_append] at stackNodup
    obtain ⟨restNodup, _, topNotRest⟩ := stackNodup
    have restApart : ∀ frame ∈ rest, frame ≠ top :=
      fun frame member => topNotRest frame member top (by simp)
    let next : PmmUse := ⟨(pmmAlloc use.pmm).2, top :: use.held⟩
    have step : TokenPool.Step use.pool next.pool (.acquire top) := by
      refine .acquire topOnStack ?_ fun frame => mem_cons
      intro frame
      change frame ∈ (pmmAlloc use.pmm).2.stack ↔ frame ∈ use.pmm.stack ∧ frame ≠ top
      rw [restValue, onStack]
      constructor
      · intro inRest
        exact ⟨Or.inl inRest, restApart frame inRest⟩
      · rintro ⟨inRest | isTop, different⟩
        · exact inRest
        · exact (different isTop).elim
    refine ⟨next, .acquire top, ?_, exclusive.of_step step ?_ ?_, step, fun frame => by simp⟩
    · simp only [call, topValue, if_neg topFrame.nonzero, next]
    · change (pmmAlloc use.pmm).2.stack.Nodup
      rwa [restValue]
    · exact nodup_cons.mpr ⟨exclusive.apart top topOnStack, exclusive.heldNodup⟩

/-- `pmm_free` of a held frame releases it, or loses it when the stack is full. -/
theorem call_free {frame : U64} (isHeld : frame ∈ use.held) :
    ∃ next move, use.call (.free frame) = some next ∧ next.Exclusive ∧
        TokenPool.Step use.pool next.pool move ∧
        ∀ other, move = .release other → other = frame := by
  have isFrame : IsFrame frame := exclusive.frames frame (mem_append_right _ isHeld)
  have heldIff : ∀ other, other ∈ use.held.erase frame ↔ other ∈ use.held ∧ other ≠ frame := by
    intro other
    rw [exclusive.heldNodup.mem_erase_iff, and_comm]
  have notOnStack : frame ∉ use.pmm.stack := fun onStack => exclusive.apart frame onStack isHeld
  have freed := pmmFree_stack use.pmm frame
  rw [if_neg isFrame.nonzero] at freed
  let next : PmmUse := ⟨pmmFree use.pmm frame, use.held.erase frame⟩
  have heldNodup : next.held.Nodup := exclusive.heldNodup.erase frame
  by_cases room : use.pmm.stack.length < pmmStackSize
  · rw [take_of_length_le (by simpa using room)] at freed
    have step : TokenPool.Step use.pool next.pool (.release frame) := by
      refine .release isHeld ?_ heldIff
      intro other
      change other ∈ (pmmFree use.pmm frame).stack ↔ other = frame ∨ other ∈ use.pmm.stack
      rw [freed, mem_append, mem_singleton, or_comm]
    have stackNodup : next.pmm.stack.Nodup := by
      change (pmmFree use.pmm frame).stack.Nodup
      rw [freed, nodup_append]
      refine ⟨exclusive.stackNodup, nodup_singleton frame, ?_⟩
      intro other onStack last isLast same
      rw [mem_singleton] at isLast
      exact notOnStack (isLast ▸ same ▸ onStack)
    refine ⟨next, .release frame, rfl, exclusive.of_step step stackNodup heldNodup, step, ?_⟩
    intro other same
    injection same with same
    exact same.symm
  · have full : use.pmm.stack.length = pmmStackSize := by
      have bounded := use.pmm.bounded
      omega
    rw [take_append_of_le_length (by omega), take_of_length_le (by omega)] at freed
    have step : TokenPool.Step use.pool next.pool (.discard frame) := by
      refine .discard isHeld ?_ heldIff
      intro other
      change other ∈ (pmmFree use.pmm frame).stack ↔ other ∈ use.pmm.stack
      rw [freed]
    have stackNodup : next.pmm.stack.Nodup := by
      change (pmmFree use.pmm frame).stack.Nodup
      rw [freed]
      exact exclusive.stackNodup
    exact ⟨next, .discard frame, rfl, exclusive.of_step step stackNodup heldNodup, step,
      fun other same => by simp at same⟩

theorem call_reserve {addr size : U64} (room : addr.toNat + size.toNat + 4096 ≤ 2 ^ 64) :
    ∃ next move, use.call (.reserve addr size) = some next ∧ next.Exclusive ∧
        TokenPool.Step use.pool next.pool move ∧
        (∀ frame, move ≠ .release frame) ∧
        next.held = use.held ∧
        ∀ frame ∈ next.pmm.stack, ¬ MeetsRange addr size frame := by
  have valid : use.pmm.Valid := ⟨exclusive.stackNodup, fun frame member =>
      exclusive.frames frame (mem_append_left _ member)⟩
  obtain ⟨final, returns, nodup, onStack⟩ := pmmReserve_spec valid room
  have step : TokenPool.Step use.pool (PmmUse.pool ⟨final, use.held⟩)
      (.retire { frame | MeetsRange addr size frame }) :=
    .retire onStack (fun _ => Iff.rfl)
  exact ⟨⟨final, use.held⟩, .retire { frame | MeetsRange addr size frame }, by simp [call, returns],
    exclusive.of_step step nodup exclusive.heldNodup, step,
    fun frame => by simp, rfl,
    fun frame member => ((onStack frame).mp member).2⟩

theorem call_refines {request : PmmCall} (allowed : use.Allowed request)
    (low : request.EndsBelowLastPage) :
    ∃ next move, use.call request = some next ∧ next.Exclusive ∧
        TokenPool.Step use.pool next.pool move ∧
        ∀ frame, move = .release frame → request = .free frame := by
  cases request with
  | alloc =>
    obtain ⟨next, move, returns, kept, step, noRelease⟩ := call_alloc exclusive
    exact ⟨next, move, returns, kept, step, fun frame same => (noRelease frame same).elim⟩
  | free freed =>
    obtain ⟨next, move, returns, kept, step, onlyFreed⟩ := call_free exclusive allowed
    exact ⟨next, move, returns, kept, step, fun frame same => by rw [onlyFreed frame same]⟩
  | reserve addr size =>
    obtain ⟨next, move, returns, kept, step, noRelease, _⟩ := call_reserve exclusive low
    exact ⟨next, move, returns, kept, step, fun frame same => (noRelease frame same).elim⟩

end

/-! ## Runs of calls -/

theorem calls_cons (use : PmmUse) (first : PmmCall) (rest : List PmmCall) :
    use.calls (first :: rest) = (use.call first).bind fun next => next.calls rest :=
  rfl

theorem calls_append (use : PmmUse) (earlier later : List PmmCall) : use.calls (earlier ++ later) =
      (use.calls earlier).bind fun middle => middle.calls later := by
  simp only [calls, List.foldlM_append]
  rfl

theorem calls_refine (exclusive : use.Exclusive) {sequence : List PmmCall}
    (allowed : use.AllAllowed sequence) (low : ∀ request ∈ sequence, request.EndsBelowLastPage) :
    ∃ final moves, use.calls sequence = some final ∧ final.Exclusive ∧
        TokenPool.Run use.pool moves final.pool ∧
        ∀ frame, .release frame ∈ moves → .free frame ∈ sequence := by
  induction sequence generalizing use with
  | nil => exact ⟨use, [], rfl, exclusive, .done, by simp⟩
  | cons first rest ih =>
    obtain ⟨next, move, returns, nextExclusive, step, released⟩ :=
      call_refines exclusive allowed.1 (low first mem_cons_self)
    obtain ⟨final, moves, ran, kept, run, laterReleased⟩ :=
      ih nextExclusive (allowed.2 next returns)
        (fun request member => low request (mem_cons_of_mem _ member))
    refine ⟨final, move :: moves, ?_, kept, .step step run, ?_⟩
    · rw [calls_cons, returns]
      exact ran
    · intro frame member
      rcases List.mem_cons.mp member with isFirst | isLater
      · rw [released frame isFirst.symm]
        exact mem_cons_self
      · exact mem_cons_of_mem _ (laterReleased frame isLater)

theorem AllAllowed.append {middle : PmmUse} {earlier later : List PmmCall}
    (allowed : use.AllAllowed (earlier ++ later)) (ran : use.calls earlier = some middle) :
    use.AllAllowed earlier ∧ middle.AllAllowed later := by
  induction earlier generalizing use with
  | nil =>
    cases ran
    exact ⟨trivial, allowed⟩
  | cons first rest ih =>
    rw [calls_cons, bind_eq_some_iff] at ran
    obtain ⟨next, returns, restRan⟩ := ran
    obtain ⟨restAllowed, laterAllowed⟩ := ih (allowed.2 next returns) restRan
    refine ⟨⟨allowed.1, ?_⟩, laterAllowed⟩
    intro other otherReturns
    rw [returns] at otherReturns
    cases otherReturns
    exact restAllowed

theorem reserved_frame_was_held (exclusive : use.Exclusive) {addr size : U64}
    {later : List PmmCall} {final : PmmUse} (allowed : use.AllAllowed (.reserve addr size :: later))
    (low : ∀ request ∈ .reserve addr size :: later, request.EndsBelowLastPage)
    (ran : use.calls (.reserve addr size :: later) = some final) {frame : U64}
    (meets : MeetsRange addr size frame) (onStack : frame ∈ final.pmm.stack) :
    frame ∈ use.held ∧ .free frame ∈ later := by
  obtain ⟨next, _, returns, nextExclusive, _, _, sameHeld, cleared⟩ :=
    call_reserve exclusive (low _ mem_cons_self)
  obtain ⟨other, moves, laterRan, _, run, released⟩ :=
    calls_refine nextExclusive (allowed.2 next returns)
      (fun request member => low request (mem_cons_of_mem _ member))
  rw [calls_cons, returns, bind_some, laterRan] at ran
  cases ran
  have notFree : frame ∉ next.pool.free := fun isFree => cleared frame isFree meets
  obtain ⟨wasHeld, isReleased⟩ := run.held_and_released notFree onStack
  exact ⟨sameHeld ▸ wasHeld, released frame isReleased⟩

/--
Every run whose reserves end at or below the last page returns, and in the
state it reaches the frames are exclusively owned: the stack has no
repetition and is disjoint from the held frames, `pmm_alloc` does not return a
held frame, an alloc undone by a free restores the free count, and a frame
that met an earlier reserve is on the stack, or about to be allocated, only if
it was held at that reserve and freed since.
-/
theorem calls_keep_ownership (use : PmmUse) (exclusive : use.Exclusive) (sequence : List PmmCall)
    (allowed : use.AllAllowed sequence) (low : ∀ request ∈ sequence, request.EndsBelowLastPage) :
    ∃ final,
      use.calls sequence = some final ∧
        final.pmm.stack.Nodup ∧
        (∀ frame ∈ final.pmm.stack, frame ∉ final.held) ∧
        (pmmAlloc final.pmm).1 ∉ final.held ∧
        pmmGetFreePages
            (pmmFree (pmmAlloc final.pmm).2 (pmmAlloc final.pmm).1) =
          pmmGetFreePages final.pmm ∧
        ∀ earlier addr size later,
          sequence = earlier ++ .reserve addr size :: later →
          ∃ before,
            use.calls earlier = some before ∧
              ∀ frame,
                MeetsRange addr size frame →
                frame ∈ final.pmm.stack ∨
                  (frame ≠ 0 ∧ (pmmAlloc final.pmm).1 = frame) →
                frame ∈ before.held ∧ .free frame ∈ later := by
  obtain ⟨final, _, ran, kept, _, _⟩ := calls_refine exclusive allowed low
  refine ⟨final, ran, kept.stackNodup, kept.apart, ?_, ?_, ?_⟩
  · intro isHeld
    have nonzero := (kept.frames _ (mem_append_right _ isHeld)).nonzero
    exact kept.apart _ (pmmAlloc_mem nonzero) isHeld
  · have restored := pmmFree_pmmAlloc final.pmm (fun frame member =>
      (kept.frames frame (mem_append_left _ member)).nonzero)
    rw [pmmGetFreePages, restored, pmmGetFreePages]
  · intro earlier addr size later shape
    subst shape
    rw [calls_append, bind_eq_some_iff] at ran
    obtain ⟨before, earlierRan, laterRan⟩ := ran
    obtain ⟨earlierAllowed, laterAllowed⟩ := allowed.append earlierRan
    obtain ⟨other, _, otherRan, beforeExclusive, _⟩ := calls_refine exclusive earlierAllowed
        (fun request member => low request (mem_append_left _ member))
    rw [earlierRan] at otherRan
    cases otherRan
    refine ⟨before, earlierRan, ?_⟩
    intro frame meets free
    have onStack : frame ∈ final.pmm.stack := by
      rcases free with onStack | ⟨nonzero, allocated⟩
      · exact onStack
      · rw [← allocated] at nonzero ⊢
        exact pmmAlloc_mem nonzero
    exact reserved_frame_was_held beforeExclusive laterAllowed
      (fun request member => low request (mem_append_right _ member))
      laterRan meets onStack

/-- A pool with the single frame at 4 KiB, and nobody holding any. -/
def singleFrame : PmmUse where
  pmm :=
    { stack := [0x1000], totalMemory := 0, bounded := oneFrame_bounded }
  held := []

theorem singleFrame_exclusive : singleFrame.Exclusive where
  stackNodup := by decide
  heldNodup := by decide
  apart := by simp [singleFrame]
  frames := by
    intro frame member
    have isFrame : frame = 0x1000 := by
      simpa [singleFrame] using member
    exact isFrame ▸ ⟨by decide, by decide⟩

/-- The single frame is allocated, freed and reserved. -/
theorem calls_keep_ownership_single_frame :
    singleFrame.AllAllowed
        [.alloc, .free 0x1000, .reserve 0x1000 0x1000] ∧
      ∃ final,
        singleFrame.calls
            [.alloc, .free 0x1000, .reserve 0x1000 0x1000] = some final ∧
          final.pmm.stack.Nodup := by
  have allowed : singleFrame.AllAllowed [.alloc, .free 0x1000, .reserve 0x1000 0x1000] := by
    refine ⟨trivial, ?_⟩
    intro next returns
    cases returns
    refine ⟨?_, ?_⟩
    · simp [Allowed, singleFrame]
    · intro next _
      exact ⟨by simp [Allowed], fun _ _ => trivial⟩
  obtain ⟨final, ran, nodup, _⟩ := calls_keep_ownership singleFrame
    singleFrame_exclusive _ allowed (by simp [PmmCall.EndsBelowLastPage])
  exact ⟨allowed, final, ran, nodup⟩

/-- Reserving a byte of the last page of the address space never returns. -/
theorem calls_reserve_last_page_stuck :
    singleFrame.Exclusive ∧
      singleFrame.AllAllowed [.reserve 0xFFFFFFFFFFFFF000 1] ∧
      ¬ (∃ final,
        singleFrame.calls [.reserve 0xFFFFFFFFFFFFF000 1] = some final) ∧
      ∀ fuel,
        WordLoop.forWords pageSize (0xFFFFFFFFFFFFF000 + 1) pmmReserveFrame
          fuel (0xFFFFFFFFFFFFF000 &&& ~~~(pageSize - 1))
          singleFrame.pmm = none := by
  have stuck := pmmReserve_never_returns singleFrame.pmm
    (by decide : (0xFFFFFFFFFFFFF000 : U64).toNat + (1 : U64).toNat < 2 ^ 64)
    (by decide)
  refine ⟨singleFrame_exclusive, ⟨by simp [Allowed], fun _ _ => trivial⟩, ?_, stuck⟩
  rintro ⟨final, ran⟩
  have noReturn : pmmReserve singleFrame.pmm 0xFFFFFFFFFFFFF000 1 = none := stuck pageLoopFuel
  rw [calls_cons, call, noReturn] at ran
  cases ran

end PmmUse

end XKern
