import Yaay.Net.SlotOwnership

set_option autoImplicit false

/-! Where an event goes: keys are recycled by the reactor alone, after the batch in which
they might still occur, so that an event finds the slot of its own registration. -/

namespace Yaay.Net.Reactor

open Yaay.Transition

variable {n : Nat} {s : State} {id : CellId} {reactor : ReactorId} {event : Event}

/-- The event's slot is that of its registration, and every dispatcher that it notifies is
attached to it and allocated. -/
structure Delivers (s : State) (reactor : ReactorId) (event : Event) (slot : Slot) : Prop where
  occupied : s.slab (reactor, event.key) = some slot
  owner : slot.owner = event.cell
  kept : (s.cells event.cell).removals = 0
  attached : ∀ addr ∈ slot.notified event.ready,
    ∃ side, (s.cells event.cell).handle side = .attached addr
  allocated : ∀ addr ∈ slot.notified event.ready, s.allocated addr = true

def Loop.batch : Loop → List Event
  | .returned events | .processing events => events
  | _ => []

theorem Loop.Current.of_batch {loop : Loop} {cells : CellId → Cell}
    (current : loop.Current reactor cells) (member : event ∈ loop.batch) :
    (cells event.cell).Holds ∧ (cells event.cell).place = (reactor, event.key) := by
  cases loop with
  | returned events => exact current event member
  | processing events => exact current event member
  | _ => cases member

theorem Inv.delivers (inv : Inv s) (member : event ∈ (s.loop reactor).batch) :
    Delivers s reactor event ((s.cells event.cell).slot event.cell) := by
  obtain ⟨holds, place⟩ := (inv.current reactor).of_batch member
  constructor
  · rw [← place]
    exact inv.slots.occupied event.cell holds
  · rfl
  · exact holds.2
  · exact fun addr notified => Slot.attached_of_notified notified
  · exact List.all_eq_true.mp (inv.notified_allocated event.ready)

/-- In every run the slot of an event is its registration's from the report to the
processing, and it notifies attached dispatchers; no key is removed from the slab while its
cell exists, nor twice. -/
theorem events_reach_their_registration (reached : (system n).Reachable anyAction s) :
    (∀ reactor, ∀ event ∈ (s.loop reactor).batch, ∃ slot, Delivers s reactor event slot) ∧
      (∀ reactor key final, s.loop reactor = .removing key final →
        ∃ slot, s.slab (reactor, key) = some slot ∧ (s.cells slot.owner).phase = .deferred ∧
          (s.cells slot.owner).removals = 0) ∧
      ∀ id, (s.cells id).removals ≤ 1 ∧
        ((s.cells id).phase.isCell = true → (s.cells id).removals = 0) := by
  have inv := reachable_inv reached
  refine ⟨?_, ?_, ?_⟩
  · intro reactor event member
    exact ⟨_, inv.delivers member⟩
  · intro reactor key final hand
    exact inv.removing hand
  · intro id
    constructor
    · exact (inv.slots.sound id).once
    · intro there
      exact (inv.holds_of_isCell there).2

def ready : Event := { cell := 0, key := 5, ready := { readable := true, writable := true } }

/-- The stream's reader ends, and its handle with it, between the report of an event and its
processing. -/
def readerEnds : List Action :=
  connected ++ [.check 0, .poll 0, .pollReturns 0 [ready], .del 0 .read, .free 0 .read,
    .dropHandle 0 .read, .lock 0]

private theorem readerEnds_runs : ((system 2).exec State.init readerEnds).isSome = true := by
  decide +kernel

def writerLeft : State := ((system 2).exec State.init readerEnds).get readerEnds_runs

private theorem writerLeft_reached : (system 2).Reachable anyAction writerLeft :=
  System.Reachable.replay_any (.initial State.init rfl) readerEnds_runs

theorem event_reaches_writer :
    ready ∈ (writerLeft.loop 0).batch ∧
      ∃ slot, Delivers writerLeft 0 ready slot ∧ slot.notified ready.ready = [200] := by
  have member : ready ∈ (writerLeft.loop 0).batch := by decide +kernel
  obtain ⟨slot, delivers⟩ := (events_reach_their_registration writerLeft_reached).1 0 ready member
  have found : writerLeft.slab (0, ready.key) =
      some { readableDispatcher := none, writableDispatcher := some 200, owner := 0 } := by
    decide +kernel
  have same := Option.some.inj (delivers.occupied.symm.trans found)
  refine ⟨member, slot, delivers, ?_⟩
  rw [same]
  rfl

end Yaay.Net.Reactor
