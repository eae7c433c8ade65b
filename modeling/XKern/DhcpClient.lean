import XKern.DhcpCalls
import XKern.GuardedRun

namespace XKern.Net

open FaultTriple GuardedRun PackedBytes List

/-!
# Runs of the DHCP client

The client is started and polled, and datagrams with any contents reach it, in any
order.  Its state moves forwards only and the addresses of the stack are set by the
acknowledgement that binds it.  That acknowledgement and the offer before it may both
come without an address, and then the client is bound to the address 0.
-/

/-- What the client is called with. -/
inductive DhcpEvent where
  | start
  | poll
  | datagram (srcIp : U32) (sport : U16) (data : List U8)

def DhcpEvent.call : DhcpEvent → NetM Unit
  | .start => dhcpStart
  | .poll => dhcpPoll
  | .datagram srcIp sport data => dhcpRx srcIp sport data data.length

/-- One event, if the call returns. -/
def clientStep (stack : Stack) (event : DhcpEvent) : Option Stack :=
  match event.call stack with
  | .ok _ after => some after
  | .error _ _ => none

/-- The events of a run with the states in which they happened. -/
abbrev Trace := List (Stack × DhcpEvent)

/-! ## Single steps -/

/-- The event is an offer that the client takes. -/
structure AcceptsOffer (taken : Stack × DhcpEvent) (data : List U8) : Prop where
  inState : taken.1.dhcp.state = .discovering
  isDatagram : ∃ srcIp sport, taken.2 = .datagram srcIp sport data
  carries : Carries data data.length taken.1.dhcp.xid dhcpOffer

/-- In this state the event is an acknowledgement that is taken. -/
structure AcceptsAck (taken : Stack × DhcpEvent) (data : List U8) : Prop where
  inState : taken.1.dhcp.state = .requesting
  isDatagram : ∃ srcIp sport, taken.2 = .datagram srcIp sport data
  carries : Carries data data.length taken.1.dhcp.xid dhcpAck

structure SameAddresses (stack next : Stack) : Prop where
  ip : next.ip = stack.ip
  mask : next.mask = stack.mask
  gw : next.gw = stack.gw

/-- The event changes no state of the client. -/
structure Idles (stack : Stack) (event : DhcpEvent) (next : Stack) : Prop where
  state : next.dhcp.state = stack.dhcp.state
  xid : next.dhcp.xid = stack.dhcp.xid
  offerIp : next.dhcp.offerIp = stack.dhcp.offerIp
  addresses : SameAddresses stack next
  noOffer : ∀ data, ¬ AcceptsOffer (stack, event) data
  noAck : ∀ data, ¬ AcceptsAck (stack, event) data

/-- The step of `dhcp_start`. -/
structure Starts (stack : Stack) (event : DhcpEvent) (next : Stack) : Prop where
  isStart : event = .start
  from_off : stack.dhcp.state = .off
  to_discovering : next.dhcp.state = .discovering
  xid : next.dhcp.xid = (stack.io.inputs stack.io.taken).setWidth 32
  addresses : SameAddresses stack next

/-- The event takes the client to `requesting`. -/
structure Offers (stack : Stack) (event : DhcpEvent) (data : List U8) (next : Stack) : Prop where
  accepts : AcceptsOffer (stack, event) data
  to_requesting : next.dhcp.state = .requesting
  xid : next.dhcp.xid = stack.dhcp.xid
  offerIp : next.dhcp.offerIp = yiaddrOf data
  addresses : SameAddresses stack next

/-- The event binds the client. -/
structure Acks (stack : Stack) (event : DhcpEvent) (data : List U8) (next : Stack) : Prop where
  accepts : AcceptsAck (stack, event) data
  to_bound : next.dhcp.state = .bound
  xid : next.dhcp.xid = stack.dhcp.xid
  offerIp : next.dhcp.offerIp = stack.dhcp.offerIp
  ip : next.ip = if yiaddrOf data ≠ 0 then yiaddrOf data else stack.dhcp.offerIp

theorem clientStep_cases (stack : Stack) (event : DhcpEvent) :
    ∃ next, clientStep stack event = some next ∧ (Idles stack event next ∨ Starts stack event next ∨
        (∃ data, Offers stack event data next) ∨ ∃ data, Acks stack event data next) := by
  cases event with
  | start =>
    obtain ⟨after, ran, outcome⟩ := dhcpStart_cases stack
    have taken : clientStep stack .start = some after := by
      rw [clientStep, DhcpEvent.call, ran]
    refine ⟨after, taken, ?_⟩
    rcases outcome with ⟨-, rfl⟩ | ⟨isOff, nextTry, io, rfl⟩
    · refine .inl ⟨rfl, rfl, rfl, ⟨rfl, rfl, rfl⟩, ?_, ?_⟩
      · rintro data ⟨-, ⟨srcIp, sport, isDatagram⟩, -⟩
        cases isDatagram
      · rintro data ⟨-, ⟨srcIp, sport, isDatagram⟩, -⟩
        cases isDatagram
    · exact .inr (.inl ⟨rfl, isOff, rfl, rfl, ⟨rfl, rfl, rfl⟩⟩)
  | poll =>
    obtain ⟨nextTry, io, ran⟩ := exists_dhcpPoll stack
    have taken : clientStep stack .poll =
        some { stack with dhcp := { stack.dhcp with nextTryMs := nextTry }, io } := by
      rw [clientStep, DhcpEvent.call, ran]
    refine ⟨_, taken, .inl ⟨rfl, rfl, rfl, ⟨rfl, rfl, rfl⟩, ?_, ?_⟩⟩
    · rintro data ⟨-, ⟨srcIp, sport, isDatagram⟩, -⟩
      cases isDatagram
    · rintro data ⟨-, ⟨srcIp, sport, isDatagram⟩, -⟩
      cases isDatagram
  | datagram srcIp sport data =>
    obtain ⟨after, ran, outcome⟩ := dhcpRx_cases stack srcIp sport (le_refl data.length)
    have taken : clientStep stack (.datagram srcIp sport data) = some after := by
      rw [clientStep, DhcpEvent.call, ran]
    refine ⟨after, taken, ?_⟩
    rcases outcome with ⟨inState, carries, nextTry, io, rfl⟩ | ⟨inState, carries, io, rfl⟩ |
      ⟨noOffer, noAck, rfl⟩
    · exact .inr (.inr (.inl ⟨data, ⟨inState, ⟨srcIp, sport, rfl⟩, carries⟩, rfl, rfl, rfl,
        ⟨rfl, rfl, rfl⟩⟩))
    · exact .inr (.inr (.inr ⟨data, ⟨inState, ⟨srcIp, sport, rfl⟩, carries⟩, rfl, rfl, rfl, rfl⟩))
    · refine .inl ⟨rfl, rfl, rfl, ⟨rfl, rfl, rfl⟩, ?_, ?_⟩
      · rintro other ⟨inState, ⟨_, _, isDatagram⟩, carries⟩
        cases isDatagram
        exact noOffer ⟨inState, carries⟩
      · rintro other ⟨inState, ⟨_, _, isDatagram⟩, carries⟩
        cases isDatagram
        exact noAck ⟨inState, carries⟩

variable {event : DhcpEvent} {stack next : Stack} {taken : Stack × DhcpEvent} {data : List U8}
  {trace : Trace}

theorem cases_of_step (taken : clientStep stack event = some next) :
    Idles stack event next ∨ Starts stack event next ∨
      (∃ data, Offers stack event data next) ∨ ∃ data, Acks stack event data next := by
  obtain ⟨other, alsoTaken, outcome⟩ := clientStep_cases stack event
  rw [taken] at alsoTaken
  cases alsoTaken
  exact outcome

theorem AcceptsOffer.data_unique {other : List U8} (offer : AcceptsOffer taken data)
    (otherOffer : AcceptsOffer taken other) :
    data = other := by
  obtain ⟨_, _, isDatagram⟩ := offer.isDatagram
  obtain ⟨_, _, isOther⟩ := otherOffer.isDatagram
  cases isDatagram.symm.trans isOther
  rfl

theorem AcceptsAck.data_unique {other : List U8} (ack : AcceptsAck taken data)
    (otherAck : AcceptsAck taken other) :
    data = other := by
  obtain ⟨_, _, isDatagram⟩ := ack.isDatagram
  obtain ⟨_, _, isOther⟩ := otherAck.isDatagram
  cases isDatagram.symm.trans isOther
  rfl

/-- A datagram that is taken as an offer is not taken as an acknowledgement. -/
theorem AcceptsOffer.not_ack {other : List U8} (offer : AcceptsOffer taken data) :
    ¬ AcceptsAck taken other := by
  intro ack
  have inState := ack.inState
  rw [offer.inState] at inState
  cases inState

theorem exists_starts (isOff : stack.dhcp.state = .off) :
    ∃ next, clientStep stack .start = some next ∧ Starts stack .start next := by
  obtain ⟨after, ran, outcome⟩ := dhcpStart_cases stack
  have taken : clientStep stack .start = some after := by
    rw [clientStep, DhcpEvent.call, ran]
  refine ⟨after, taken, ?_⟩
  rcases outcome with ⟨notOff, -⟩ | ⟨-, nextTry, io, rfl⟩
  · exact absurd isOff notOff
  · exact ⟨rfl, isOff, rfl, rfl, ⟨rfl, rfl, rfl⟩⟩

theorem AcceptsOffer.step (offer : AcceptsOffer (stack, event) data) :
    ∃ next, clientStep stack event = some next ∧ Offers stack event data next := by
  obtain ⟨next, taken, outcome⟩ := clientStep_cases stack event
  refine ⟨next, taken, ?_⟩
  rcases outcome with idles | starts | ⟨other, offers⟩ | ⟨other, acks⟩
  · exact absurd offer (idles.noOffer data)
  · exact absurd (starts.from_off.symm.trans offer.inState) (by decide)
  · rwa [offer.data_unique offers.accepts]
  · exact absurd acks.accepts offer.not_ack

theorem AcceptsAck.step (ack : AcceptsAck (stack, event) data) :
    ∃ next, clientStep stack event = some next ∧ Acks stack event data next := by
  obtain ⟨next, taken, outcome⟩ := clientStep_cases stack event
  refine ⟨next, taken, ?_⟩
  rcases outcome with idles | starts | ⟨other, offers⟩ | ⟨other, acks⟩
  · exact absurd ack (idles.noAck data)
  · exact absurd (starts.from_off.symm.trans ack.inState) (by decide)
  · exact absurd ack offers.accepts.not_ack
  · rwa [ack.data_unique acks.accepts]

/-! ## What a run remembers -/

def IsOffered (stack : Stack) : Prop :=
  stack.dhcp.state = .requesting ∨ stack.dhcp.state = .bound

/-- What a state tells about the offers of the run that led to it. -/
structure History (trace : Trace) (stack : Stack) : Prop where
  offered : IsOffered stack →
    ∃ earlier ∈ trace, ∃ offer, AcceptsOffer earlier offer ∧
      earlier.1.dhcp.xid = stack.dhcp.xid
  kept : ∀ earlier ∈ trace, ∀ offer, AcceptsOffer earlier offer →
    IsOffered stack ∧ stack.dhcp.offerIp = yiaddrOf offer

/-- The history after a step that takes no offer and keeps the transaction. -/
theorem History.keep (history : History trace stack)
    (offeredBefore : IsOffered next → IsOffered stack)
    (offeredAfter : IsOffered stack → IsOffered next) (xid : next.dhcp.xid = stack.dhcp.xid)
    (offerIp : next.dhcp.offerIp = stack.dhcp.offerIp)
    (noOffer : ∀ data, ¬ AcceptsOffer (stack, event) data) :
    History (trace ++ [(stack, event)]) next where
  offered := fun isOffered => by
    obtain ⟨earlier, member, offer, accepts, same⟩ := history.offered (offeredBefore isOffered)
    exact ⟨earlier, mem_append_left _ member, offer, accepts, same.trans xid.symm⟩
  kept := fun earlier member offer accepts => by
    rcases mem_append.mp member with before | here
    · obtain ⟨isOffered, isIp⟩ := history.kept earlier before offer accepts
      exact ⟨offeredAfter isOffered, offerIp.trans isIp⟩
    · rw [mem_singleton.mp here] at accepts
      exact absurd accepts (noOffer offer)

theorem History.step (history : History trace stack) (taken : clientStep stack event = some next) :
    History (trace ++ [(stack, event)]) next := by
  rcases cases_of_step taken with idles | starts | ⟨data, offers⟩ | ⟨data, acks⟩
  · exact history.keep (fun isOffered => by rwa [IsOffered, idles.state] at isOffered)
      (fun isOffered => by rwa [IsOffered, idles.state]) idles.xid idles.offerIp idles.noOffer
  · -- No offer was taken before the start.
    have notOffered : ¬ IsOffered stack := by
      rw [IsOffered, starts.from_off]
      decide
    exact {
      offered := fun isOffered => by
        rw [IsOffered, starts.to_discovering] at isOffered
        rcases isOffered with isOffered | isOffered <;> cases isOffered
      kept := fun earlier member offer accepts => by
        rcases mem_append.mp member with before | here
        · exact absurd (history.kept earlier before offer accepts).1 notOffered
        · rw [mem_singleton.mp here] at accepts
          have inState := accepts.inState
          rw [starts.from_off] at inState
          cases inState }
  · have notOffered : ¬ IsOffered stack := by
      rw [IsOffered, offers.accepts.inState]
      decide
    exact {
      offered := fun _ =>
        ⟨(stack, event), mem_append_right _ mem_cons_self, data, offers.accepts,
          offers.xid.symm⟩
      kept := fun earlier member offer accepts => by
        rcases mem_append.mp member with before | here
        · exact absurd (history.kept earlier before offer accepts).1 notOffered
        · rw [mem_singleton.mp here] at accepts
          rw [accepts.data_unique offers.accepts]
          exact ⟨.inl offers.to_requesting, offers.offerIp⟩ }
  · exact history.keep (fun _ => .inl acks.accepts.inState) (fun _ => .inr acks.to_bound) acks.xid
      acks.offerIp (fun other accepts => accepts.not_ack acks.accepts)

theorem history_of_run {boot final : Stack} (isOff : boot.dhcp.state = .off)
    (run : Run clientStep boot trace final) :
    History trace final := by
  induction run with
  | start =>
    exact {
      offered := fun isOffered => by
        rw [IsOffered, isOff] at isOffered
        rcases isOffered with isOffered | isOffered <;> cases isOffered
      kept := fun earlier member => absurd member not_mem_nil }
  | step _ taken ih => exact ih.step taken

theorem history_at {boot final : Stack} {before later : Trace} (isOff : boot.dhcp.state = .off)
    (run : Run clientStep boot trace final) (isSplit : trace = before ++ taken :: later) :
    History before taken.1 := by
  induction run generalizing later with
  | start => exact absurd isSplit (by simp)
  | @step trace state next event earlier step ih =>
    rcases eq_nil_or_concat later with rfl | ⟨front, last, rfl⟩
    · obtain ⟨isBefore, isTaken⟩ := append_inj' isSplit rfl
      cases isTaken
      cases isBefore
      exact history_of_run isOff earlier
    · have whole : trace ++ [(state, event)] = (before ++ taken :: front) ++ [last] := by
        rw [isSplit, append_assoc, concat_eq_append]
        rfl
      exact ih (append_inj' whole rfl).1

/-! ## The client -/

/-- The moves of the client. -/
def Follows : DhState → DhState → Prop
  | .off, .discovering => True
  | .discovering, .requesting => True
  | .requesting, .bound => True
  | _, _ => False

/-- What is asked of a run. -/
structure ClientConforms (trace : Trace) (final : Stack) : Prop where
  inOrder : ∀ taken ∈ trace, ∀ next, clientStep taken.1 taken.2 = some next →
    next.dhcp.state = taken.1.dhcp.state ∨ Follows taken.1.dhcp.state next.dhcp.state
  configured : ∀ taken ∈ trace, ∀ next, clientStep taken.1 taken.2 = some next →
    ¬ SameAddresses taken.1 next → taken.1.dhcp.state ≠ .bound ∧ next.dhcp.state = .bound
  binding : ∀ before taken later, trace = before ++ taken :: later →
    ∀ next, clientStep taken.1 taken.2 = some next → taken.1.dhcp.state ≠ .bound →
      next.dhcp.state = .bound →
        ∃ ack, AcceptsAck taken ack ∧ ∃ earlier ∈ before, ∃ offer, AcceptsOffer earlier offer ∧
          earlier.1.dhcp.xid = taken.1.dhcp.xid
  addressed : Throughout (fun stack => stack.dhcp.state = .bound → stack.ip ≠ 0) trace final

/-- Wherever an acknowledgement is taken, it or the offer before it has an address. -/
def LeaseAddressed (trace : Trace) : Prop :=
  ∀ before taken later, trace = before ++ taken :: later →
    ∀ earlier ∈ before, ∀ offer ack, AcceptsOffer earlier offer → AcceptsAck taken ack →
      yiaddrOf offer ≠ 0 ∨ yiaddrOf ack ≠ 0

theorem step_inOrder (taken : clientStep stack event = some next) :
    next.dhcp.state = stack.dhcp.state ∨ Follows stack.dhcp.state next.dhcp.state := by
  rcases cases_of_step taken with idles | starts | ⟨data, offers⟩ | ⟨data, acks⟩
  · exact .inl idles.state
  · rw [starts.from_off, starts.to_discovering]
    exact .inr trivial
  · have inState : stack.dhcp.state = .discovering := offers.accepts.inState
    rw [inState, offers.to_requesting]
    exact .inr trivial
  · have inState : stack.dhcp.state = .requesting := acks.accepts.inState
    rw [inState, acks.to_bound]
    exact .inr trivial

theorem exists_acks (taken : clientStep stack event = some next)
    (notBound : stack.dhcp.state ≠ .bound) (isBound : next.dhcp.state = .bound) :
    ∃ data, Acks stack event data next := by
  rcases cases_of_step taken with idles | starts | ⟨data, offers⟩ | acks
  · exact absurd (idles.state.symm.trans isBound) notBound
  · rw [starts.to_discovering] at isBound
    cases isBound
  · rw [offers.to_requesting] at isBound
    cases isBound
  · exact acks

theorem step_configured (taken : clientStep stack event = some next)
    (changed : ¬ SameAddresses stack next) :
    stack.dhcp.state ≠ .bound ∧ next.dhcp.state = .bound := by
  rcases cases_of_step taken with idles | starts | ⟨data, offers⟩ | ⟨data, acks⟩
  · exact absurd idles.addresses changed
  · exact absurd starts.addresses changed
  · exact absurd offers.addresses changed
  · have inState : stack.dhcp.state = .requesting := acks.accepts.inState
    refine ⟨?_, acks.to_bound⟩
    rw [inState]
    decide

theorem step_addressed_iff (safe : stack.dhcp.state = .bound → stack.ip ≠ 0)
    (taken : clientStep stack event = some next) :
    (next.dhcp.state = .bound → next.ip ≠ 0) ↔
      ∀ ack, AcceptsAck (stack, event) ack → stack.dhcp.offerIp ≠ 0 ∨ yiaddrOf ack ≠ 0 := by
  rcases cases_of_step taken with idles | starts | ⟨data, offers⟩ | ⟨data, acks⟩
  · apply iff_of_true
    · rw [idles.state, idles.addresses.ip]
      exact safe
    · exact fun ack accepts => absurd accepts (idles.noAck ack)
  · apply iff_of_true
    · rw [starts.to_discovering]
      exact fun isBound => by cases isBound
    · intro ack accepts
      have inState : stack.dhcp.state = .requesting := accepts.inState
      rw [starts.from_off] at inState
      cases inState
  · apply iff_of_true
    · rw [offers.to_requesting]
      exact fun isBound => by cases isBound
    · exact fun ack accepts => absurd accepts offers.accepts.not_ack
  · rw [acks.to_bound, acks.ip]
    constructor
    · intro nonzero ack accepts
      rw [accepts.data_unique acks.accepts]
      by_cases hasAddress : yiaddrOf data ≠ 0
      · exact .inr hasAddress
      · have isNonzero := nonzero rfl
        rw [if_neg hasAddress] at isNonzero
        exact .inl isNonzero
    · intro lease _
      split
      · assumption
      · exact (lease data acks.accepts).resolve_right ‹_›

theorem addressed_iff {boot final : Stack} (isOff : boot.dhcp.state = .off)
    (run : Run clientStep boot trace final) :
    Throughout (fun stack => stack.dhcp.state = .bound → stack.ip ≠ 0) trace final ↔
      LeaseAddressed trace := by
  have judged : Throughout (fun stack => stack.dhcp.state = .bound → stack.ip ≠ 0) trace final ↔
      AllAllowed (fun stack event =>
        ∀ ack, AcceptsAck (stack, event) ack → stack.dhcp.offerIp ≠ 0 ∨ yiaddrOf ack ≠ 0)
        trace := by
    refine run.throughout_iff trivial ?_ (fun _ _ _ _ _ => trivial)
      (fun _ _ _ _ safe taken => step_addressed_iff safe taken)
    intro isBound
    rw [isOff] at isBound
    cases isBound
  rw [judged]
  constructor
  · intro allowed before taken later isSplit earlier member offer ack accepts acks
    have isIp := (history_at isOff run isSplit).kept earlier member offer accepts
    rw [← isIp.2]
    exact allowed taken (isSplit ▸ mem_append_right _ mem_cons_self) ack acks
  · intro lease taken member ack acks
    obtain ⟨before, later, isSplit⟩ := append_of_mem member
    have history := history_at isOff run isSplit
    obtain ⟨earlier, isEarlier, offer, accepts, -⟩ := history.offered (.inl acks.inState)
    rw [(history.kept earlier isEarlier offer accepts).2]
    exact lease before taken later isSplit earlier isEarlier offer ack accepts acks

theorem exists_run (boot : Stack) (events : List DhcpEvent) :
    ∃ final trace, trace.map Prod.snd = events ∧ Run clientStep boot trace final := by
  have takes : ∀ stack event, True → ∃ next, clientStep stack event = some next ∧ True := by
    intro stack event _
    obtain ⟨next, taken, -⟩ := clientStep_cases stack event
    exact ⟨next, taken, trivial⟩
  obtain ⟨trace, final, names, run, -⟩ :=
    Run.start.exists_throughout takes events (throughout_start trivial)
  exact ⟨final, trace, names, run⟩

/-- Any events make a run of the client from the state OFF, and it conforms exactly if
the offer or the acknowledgement that binds it has an address. -/
theorem client_conforms_iff (boot : Stack) (isOff : boot.dhcp.state = .off)
    (events : List DhcpEvent) :
    ∃ trace final, trace.map Prod.snd = events ∧ Run clientStep boot trace final ∧
      (ClientConforms trace final ↔ LeaseAddressed trace) := by
  obtain ⟨final, trace, names, run⟩ := exists_run boot events
  refine ⟨trace, final, names, run, ?_⟩
  rw [← addressed_iff isOff run]
  refine ⟨fun conforms => conforms.addressed, fun addressed => ?_⟩
  exact {
    inOrder := fun _ _ _ step => step_inOrder step
    configured := fun _ _ _ step changed => step_configured step changed
    binding := fun before taken later isSplit next step notBound isBound => by
      obtain ⟨ack, acks⟩ := exists_acks step notBound isBound
      have history := history_at isOff run isSplit
      exact ⟨ack, acks.accepts, history.offered (.inl acks.accepts.inState)⟩
    addressed }

/-! ## A lease without an address -/

/-- A message of a type for the transaction 0 that has the address 0. -/
def unaddressedMessage (type : U8) : List U8 :=
  replicate 236 0 ++ [0x63, 0x82, 0x53, 0x63, 53, 1, type, 255]

/-- A client is started, and is offered and granted the address 0 by 10.0.2.2. -/
def unaddressedLease : List DhcpEvent :=
  [.start, .datagram 0x0a000202 67 (unaddressedMessage dhcpOffer),
    .datagram 0x0a000202 67 (unaddressedMessage dhcpAck)]

/-- A lease without an address. -/
theorem client_conforms_iff_unaddressed :
    bootStack.dhcp.state = .off ∧
      ∃ trace final, trace.map Prod.snd = unaddressedLease ∧
        Run clientStep bootStack trace final ∧
        (ClientConforms trace final ↔ LeaseAddressed trace) :=
  ⟨rfl, client_conforms_iff bootStack rfl unaddressedLease⟩

theorem carries_unaddressedMessage {type : U8} (isType : type = dhcpOffer ∨ type = dhcpAck) :
    Carries (unaddressedMessage type) (unaddressedMessage type).length 0 type := by
  rcases isType with rfl | rfl
  · exact ⟨by decide +kernel, by decide, by decide, by decide +kernel⟩
  · exact ⟨by decide +kernel, by decide, by decide, by decide +kernel⟩

/-- The client is bound to the address 0. -/
theorem bound_without_address :
    ∃ trace final, trace.map Prod.snd = unaddressedLease ∧
      Run clientStep bootStack trace final ∧ final.dhcp.state = .bound ∧ final.ip = 0 ∧
      ¬ ClientConforms trace final := by
  obtain ⟨discovering, started, starts⟩ := exists_starts (show bootStack.dhcp.state = .off from rfl)
  have firstXid : discovering.dhcp.xid = 0 := starts.xid
  have offer : AcceptsOffer (discovering, .datagram 0x0a000202 67 (unaddressedMessage dhcpOffer))
      (unaddressedMessage dhcpOffer) := by
    refine ⟨starts.to_discovering, ⟨_, _, rfl⟩, ?_⟩
    rw [firstXid]
    exact carries_unaddressedMessage (.inl rfl)
  obtain ⟨requesting, offered, offers⟩ := offer.step
  have ack : AcceptsAck (requesting, .datagram 0x0a000202 67 (unaddressedMessage dhcpAck))
      (unaddressedMessage dhcpAck) := by
    refine ⟨offers.to_requesting, ⟨_, _, rfl⟩, ?_⟩
    rw [offers.xid, firstXid]
    exact carries_unaddressedMessage (.inr rfl)
  obtain ⟨bound, acked, acks⟩ := ack.step
  have noAddress : bound.ip = 0 := by
    rw [acks.ip, offers.offerIp]
    decide
  refine ⟨_, bound, ?_, ((Run.start.step started).step offered).step acked, acks.to_bound,
    noAddress, ?_⟩
  · rfl
  · exact fun conforms => conforms.addressed.2 acks.to_bound noAddress

end XKern.Net
