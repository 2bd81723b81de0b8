import Yaay.Net.SlotSteps

set_option autoImplicit false

/-! Who owns a slot: in every reachable state a cell's slot is occupied and points to the
dispatchers of its handles, so no assertion and no unchecked access of a slot fails. -/

namespace Yaay.Net.Reactor

open Yaay.Transition

variable {n : Nat} {s s' : State} {id : CellId} {side : Side} {addr : Addr}

theorem Inv.init : Inv State.init := by
  constructor
  · constructor
    · intro id
      exact ⟨fun _ => ⟨rfl, rfl⟩, rfl, Phase.noConfusion, fun removed => absurd rfl removed,
        Nat.zero_le 1⟩
    · rintro id ⟨inserted, _⟩
      cases inserted
    · intro place slot found
      cases found
    · exact fun _ => List.nodup_nil
    · intro reactor key waiting
      cases waiting
  · exact fun _ => trivial
  · constructor
    · intro id side addr owns
      cases side <;> cases owns
    · intro id side other otherSide addr owns
      cases side <;> cases owns
  · rfl

theorem Inv.step {action : Action} (inv : Inv s) (taken : step n s action = some s') : Inv s' := by
  cases action with
  | choose id kind => exact inv.choose taken
  | insert id key => exact inv.insert taken
  | register id => exact inv.register taken
  | registered id => exact inv.registered taken
  | registerFails id => exact inv.registerFails taken
  | allocate id side addr => exact inv.allocate taken
  | attach id side => exact inv.attach taken
  | del id side => exact inv.del taken
  | free id side => exact inv.free taken
  | dropHandle id side => exact inv.dropHandle taken
  | deregister id => exact inv.deregister taken
  | defer id => exact inv.defer taken
  | setShutdown =>
      cases taken
      exact ⟨inv.slots.repend rfl rfl (fun _ => .refl _), inv.current,
        ⟨inv.dispatchers.allocated, inv.dispatchers.unique⟩, inv.intact⟩
  | check reactor =>
      unfold Reactor.step at taken
      simp only at taken
      split at taken
      · exact inv.check taken
      · cases taken
  | poll reactor => exact inv.poll taken
  | pollReturns reactor events => exact inv.pollReturns taken
  | pollFails reactor => exact inv.pollFails taken
  | lock reactor => exact inv.lock taken
  | process reactor => exact inv.process taken
  | unlock reactor => exact inv.unlock taken
  | pushBatch reactor => exact inv.pushBatch taken
  | pop reactor => exact inv.pop taken
  | remove reactor => exact inv.remove taken

theorem reachable_inv (reached : (system n).Reachable anyAction s) : Inv s := by
  apply reached.invariant Inv
  · intro state start
    rw [start]
    exact Inv.init
  · exact fun _state _next _action _earlier inv _permitted taken => inv.step taken

/-- The `MIOCell` exists; it may be in its drop. -/
def Phase.isCell : Phase → Bool
  | .live | .dropping | .deregistered => true
  | _ => false

theorem Inv.holds_of_isCell (inv : Inv s) (there : (s.cells id).phase.isCell = true) :
    (s.cells id).Holds := by
  constructor
  · cases phase : (s.cells id).phase with
    | absent =>
        rw [phase] at there
        cases there
    | choosing =>
        rw [phase] at there
        cases there
    | _ => rfl
  · by_contra removed
    rw [(inv.slots.sound id).removed removed] at there
    cases there

theorem Handle.pointer_iff {handle : Handle} :
    handle.pointer = some addr ↔ handle = .attached addr := by
  constructor
  · exact Handle.attached_of_pointer
  · intro attached
    rw [attached]
    rfl

theorem Inv.cleared (inv : Inv s) (cleared : (s.cells id).handle side = .cleared addr)
    {place : ReactorId × Key} {slot : Slot} (found : s.slab place = some slot) :
    slot.readableDispatcher ≠ some addr ∧ slot.writableDispatcher ≠ some addr := by
  have owns : ((s.cells id).handle side).owns = some addr := by
    rw [cleared]
    rfl
  have elsewhere (other : Side) :
      ((s.cells slot.owner).handle other).pointer ≠ some addr := by
    intro points
    have attached := Handle.attached_of_pointer points
    have second : ((s.cells slot.owner).handle other).owns = some addr :=
      Handle.owns_of_pointer points
    obtain ⟨same, equal⟩ := inv.dispatchers.unique id side slot.owner other addr owns second
    rw [← same, ← equal, cleared] at attached
    cases attached
  rw [inv.slots.slot_eq found]
  exact ⟨elsewhere .read, elsewhere .write⟩

private theorem withSlot_allocated {change : Slot → Except Violation Slot} {done : Cell} :
    (withSlot s id change done).allocated = s.allocated := by
  unfold withSlot
  split
  · rfl
  · split <;> rfl

/-- A dispatcher is freed by the handle that has cleared it. -/
theorem freed_of_step {action : Action} (taken : step n s action = some s')
    (live : s.allocated addr = true) (freed : s'.allocated addr = false) :
    ∃ id side, (s.cells id).handle side = .cleared addr := by
  have changed : s'.allocated ≠ s.allocated := by
    intro same
    rw [same, live] at freed
    cases freed
  cases action with
  | allocate id side other =>
      change allocate s id side other = some s' at taken
      unfold allocate at taken
      split at taken
      · next enabled =>
          cases taken
          simp only [State.setCell, State.setAllocated] at freed
          by_cases same : addr = other
          · rw [same, Function.update_self] at freed
            cases freed
          · rw [Function.update_of_ne same, live] at freed
            cases freed
      · cases taken
  | free id side =>
      change free s id side = some s' at taken
      unfold free at taken
      split at taken
      · next other cleared =>
          cases taken
          simp only [State.setCell, State.setAllocated] at freed
          by_cases same : addr = other
          · rw [same]
            exact ⟨id, side, cleared⟩
          · rw [Function.update_of_ne same, live] at freed
            cases freed
      · cases taken
  | attach id side =>
      change attach s id side = some s' at taken
      unfold attach at taken
      repeat' split at taken
      all_goals cases taken
      exact absurd withSlot_allocated changed
  | del id side =>
      change del s id side = some s' at taken
      unfold del at taken
      repeat' split at taken
      all_goals cases taken
      exact absurd withSlot_allocated changed
  | _ =>
      simp only [step, choose, insert, register, registered, registerFails, dropHandle, deregister,
        defer, check, poll, pollReturns, pollFails, lock, process, unlock, pushBatch, pop,
        remove] at taken
      repeat' split at taken
      all_goals cases taken
      all_goals exact absurd rfl changed

/-- In every run a cell's key is occupied in the slab of its reactor and no other cell has
it; the slot points to the dispatchers of the cell's reader and writer and to no others; a
dispatcher is freed after its pointer was cleared; and no check fails. -/
theorem slot_ownership (reached : (system n).Reachable anyAction s) :
    s.violation = none ∧
      (∀ id, (s.cells id).phase.isCell = true →
        ∃ slot, s.slab (s.cells id).place = some slot ∧ slot.owner = id ∧
          (∀ addr, slot.readableDispatcher = some addr ↔ (s.cells id).read = .attached addr) ∧
          ∀ addr, slot.writableDispatcher = some addr ↔ (s.cells id).write = .attached addr) ∧
      (∀ id other, (s.cells id).phase.isCell = true → (s.cells other).phase.isCell = true →
        (s.cells id).place = (s.cells other).place → id = other) ∧
      (∀ place slot, s.slab place = some slot → ∀ addr,
        slot.readableDispatcher = some addr ∨ slot.writableDispatcher = some addr →
          (s.cells slot.owner).phase = .live ∧ s.allocated addr = true) ∧
      ∀ action s' addr, step n s action = some s' → s.allocated addr = true →
        s'.allocated addr = false → ∀ place slot, s.slab place = some slot →
          slot.readableDispatcher ≠ some addr ∧ slot.writableDispatcher ≠ some addr := by
  have inv := reachable_inv reached
  refine ⟨inv.intact, ?_, ?_, ?_, ?_⟩
  · intro id there
    have found := inv.slots.occupied id (inv.holds_of_isCell there)
    exact ⟨_, found, rfl, fun _ => Handle.pointer_iff, fun _ => Handle.pointer_iff⟩
  · intro id other there also same
    exact inv.slots.owner_unique (inv.holds_of_isCell there) (inv.holds_of_isCell also) same
  · intro place slot found addr points
    rw [inv.slots.slot_eq found] at points
    have handle : ∃ side, ((s.cells slot.owner).handle side).pointer = some addr := by
      rcases points with readable | writable
      · exact ⟨.read, readable⟩
      · exact ⟨.write, writable⟩
    obtain ⟨side, pointer⟩ := handle
    refine ⟨?_, inv.pointer_allocated pointer⟩
    have attached := Handle.attached_of_pointer pointer
    have there : (s.cells slot.owner).handle side ≠ .absent :=
      ne_of_eq_of_ne attached Handle.noConfusion
    exact (inv.live there).1
  · intro action s' addr taken live freed place slot found
    obtain ⟨id, side, cleared⟩ := freed_of_step taken live freed
    exact inv.cleared cleared found

def connected : List Action :=
  [.choose 0 .rw, .insert 0 5, .register 0, .registered 0, .allocate 0 .read 100,
    .attach 0 .read, .allocate 0 .write 200, .attach 0 .write]

private theorem connected_runs : ((system 2).exec State.init connected).isSome = true := by decide

def streaming : State := ((system 2).exec State.init connected).get connected_runs

private theorem streaming_reached : (system 2).Reachable anyAction streaming :=
  System.Reachable.replay_any (.initial State.init rfl) connected_runs

theorem slot_ownership_of_stream :
    (streaming.cells 0).phase.isCell = true ∧
      ∃ slot, streaming.slab (0, 5) = some slot ∧ slot.owner = 0 ∧
        slot.readableDispatcher = some 100 ∧ slot.writableDispatcher = some 200 := by
  have there : (streaming.cells 0).phase.isCell = true := rfl
  obtain ⟨slot, found, owner, readable, writable⟩ :=
    (slot_ownership streaming_reached).2.1 0 there
  exact ⟨there, slot, found, owner, (readable 100).mpr rfl, (writable 200).mpr rfl⟩

end Yaay.Net.Reactor
