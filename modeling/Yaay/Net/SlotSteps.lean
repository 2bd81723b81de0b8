import Yaay.Net.SlotInvariant

set_option autoImplicit false

/-! Every step of a cell, of a handle and of a reactor keeps the invariant, so that none of
the checks on the way fails. -/

namespace Yaay.Net.Reactor

open Yaay.Transition

variable {s s' : State} {id : CellId} {cell : Cell} {side : Side} {addr : Addr}
  {reactor : ReactorId} {key : Key}

theorem Cell.Bare.rephase {phase : Phase} (bare : cell.Bare) :
    Cell.Bare { cell with phase := phase } :=
  ⟨bare.read, bare.write, bare.strong, bare.kept⟩

theorem Cell.Sound.setHandle {handle : Handle} (sound : cell.Sound)
    (before : cell.handle side ≠ .absent) (after : handle ≠ .absent) :
    (cell.setHandle side handle).Sound := by
  have live := sound.live_of_handle before
  have counted (there : Handle) (present : there ≠ .absent) : there.count = 1 := by
    cases there with
    | absent => exact absurd rfl present
    | _ => rfl
  have strong := sound.strong
  cases side with
  | read =>
      rw [counted cell.read before] at strong
      refine ⟨fun dead => absurd live dead, ?_, sound.alive, sound.removed, sound.once⟩
      change cell.strong = handle.count + cell.write.count
      rw [counted handle after]
      exact strong
  | write =>
      rw [counted cell.write before] at strong
      refine ⟨fun dead => absurd live dead, ?_, sound.alive, sound.removed, sound.once⟩
      change cell.strong = cell.read.count + handle.count
      rw [counted handle after]
      exact strong

theorem Inv.recell (inv : Inv s) (slots : Slots s') (cells : s'.cells = (s.setCell id cell).cells)
    (loop : s'.loop = s.loop) (allocated : s'.allocated = s.allocated)
    (violation : s'.violation = s.violation)
    (holds : (s.cells id).Holds → cell.place = (s.cells id).place) (kept : cell.removals = 0)
    (held : (s.cells id).Holds → cell.phase.isInserted = true)
    (owns : ∀ side, (cell.handle side).owns = none ∨
      (cell.handle side).owns = ((s.cells id).handle side).owns) : Inv s' := by
  constructor
  · exact slots
  · intro reactor
    rw [loop, cells]
    apply (inv.current reactor).setCell
    · exact fun before _ => ⟨⟨held before, kept⟩, holds before⟩
    · exact fun removed _ => absurd kept removed
  · have moved := inv.dispatchers.setCell owns
    constructor
    · rw [cells, allocated]
      exact moved.allocated
    · rw [cells]
      exact moved.unique
  · rw [violation]
    exact inv.intact

theorem Inv.setCell (inv : Inv s) (holds : (s.cells id).Holds) (held : cell.Holds)
    (sound : cell.Sound) (place : cell.place = (s.cells id).place)
    (ends : (s.cells id).phase = .deferred → cell.phase = .deferred)
    (pointers : cell.slot id = (s.cells id).slot id)
    (owns : ∀ side, (cell.handle side).owns = none ∨
      (cell.handle side).owns = ((s.cells id).handle side).owns) : Inv (s.setCell id cell) :=
  inv.recell (inv.slots.setCell holds held sound place ends pointers) rfl rfl rfl rfl
    (fun _ => place) held.2 (fun _ => held.1) owns

theorem Inv.rephase {phase : Phase} (inv : Inv s) (before : (s.cells id).phase.isInserted = true)
    (dead : (s.cells id).phase ≠ .live) (waits : (s.cells id).phase ≠ .deferred)
    (after : phase.isInserted = true) (still : phase ≠ .live) :
    Inv (s.setCell id { s.cells id with phase := phase }) := by
  have bare := (inv.slots.sound id).bare dead waits
  have held : Cell.Holds { s.cells id with phase := phase } := ⟨after, bare.kept⟩
  apply inv.setCell ⟨before, bare.kept⟩ held (bare.rephase.sound still) rfl
  · exact fun deferred => absurd deferred waits
  · rfl
  · intro side
    cases side <;> exact Or.inr rfl

theorem Inv.choose {n : Nat} {kind : Kind} (inv : Inv s)
    (taken : choose n s id kind = some s') : Inv s' := by
  unfold Reactor.choose at taken
  split at taken
  · next enabled =>
      cases taken
      have absent := enabled.2
      have dead : (s.cells id).phase ≠ .live := ne_of_eq_of_ne absent Phase.noConfusion
      have waits : (s.cells id).phase ≠ .deferred := ne_of_eq_of_ne absent Phase.noConfusion
      have outside : ¬ (s.cells id).Holds := by
        apply Cell.not_holds
        rw [absent]
        rfl
      have bare := (inv.slots.sound id).bare dead waits
      let chosen : Cell :=
        { s.cells id with phase := .choosing, kind := kind, localI := s.counter.toNat % n }
      have still : ¬ chosen.Holds := Cell.not_holds rfl
      have empty : chosen.Sound :=
        Cell.Bare.sound ⟨bare.read, bare.write, bare.strong, bare.kept⟩ Phase.noConfusion
      have slots := inv.slots.setCell_outside outside still empty
      have counted : Slots { s.setCell id chosen with counter := s.counter + 1 } :=
        slots.repend rfl rfl (fun _ => .refl _)
      apply inv.recell counted rfl rfl rfl rfl
      · exact fun holds => absurd holds outside
      · exact bare.kept
      · exact fun holds => absurd holds outside
      · intro side
        cases side <;> exact Or.inr rfl
  · cases taken

theorem Inv.insert (inv : Inv s) (taken : insert s id key = some s') : Inv s' := by
  unfold Reactor.insert at taken
  split at taken
  · next enabled =>
      cases taken
      obtain ⟨choosing, _unlocked, vacant⟩ := enabled
      have dead : (s.cells id).phase ≠ .live := ne_of_eq_of_ne choosing Phase.noConfusion
      have waits : (s.cells id).phase ≠ .deferred := ne_of_eq_of_ne choosing Phase.noConfusion
      have outside : ¬ (s.cells id).Holds := by
        apply Cell.not_holds
        rw [choosing]
        rfl
      have bare := (inv.slots.sound id).bare dead waits
      let inserted : Cell := { s.cells id with phase := .inserted, key := key }
      have held : inserted.Holds := ⟨rfl, bare.kept⟩
      have empty : inserted.Sound :=
        Cell.Bare.sound ⟨bare.read, bare.write, bare.strong, bare.kept⟩ Phase.noConfusion
      have null : inserted.slot id =
          { readableDispatcher := none, writableDispatcher := none, owner := id } := by
        simp only [Cell.slot, inserted, bare.read, bare.write, Handle.pointer]
      have slots : Slots ((s.setSlot inserted.place (some (inserted.slot id))).setCell id
          inserted) := by
        apply inv.slots.recell held empty
        · intro other _different taken same
          have occupied := inv.slots.occupied other taken
          rw [same] at occupied
          cases vacant.symm.trans occupied
        · exact fun holds => absurd holds outside
        · exact fun holds => absurd holds outside
      rw [null] at slots
      apply inv.recell slots rfl rfl rfl rfl
      · exact fun holds => absurd holds outside
      · exact bare.kept
      · exact fun holds => absurd holds outside
      · intro side
        cases side <;> exact Or.inr rfl
  · cases taken

theorem Inv.register (inv : Inv s) (taken : register s id = some s') : Inv s' := by
  unfold Reactor.register at taken
  split at taken
  · next inserted =>
      cases taken
      apply inv.rephase <;> simp only [inserted, Phase.isInserted, ne_eq, reduceCtorEq,
        not_false_eq_true]
  · cases taken

theorem Inv.registerFails (inv : Inv s) (taken : registerFails s id = some s') : Inv s' := by
  unfold Reactor.registerFails at taken
  split at taken
  · next registering =>
      cases taken
      apply inv.rephase <;> simp only [registering, Phase.isInserted, ne_eq, reduceCtorEq,
        not_false_eq_true]
  · cases taken

theorem Inv.deregister (inv : Inv s) (taken : deregister s id = some s') : Inv s' := by
  unfold Reactor.deregister at taken
  split at taken
  · next dropping =>
      cases taken
      apply inv.rephase <;> simp only [dropping, Phase.isInserted, ne_eq, reduceCtorEq,
        not_false_eq_true]
  · cases taken

theorem Inv.registered (inv : Inv s) (taken : registered s id = some s') : Inv s' := by
  unfold Reactor.registered at taken
  split at taken
  · next registering =>
      cases taken
      have sound := inv.slots.sound id
      have bare : (s.cells id).Bare := by
        apply sound.bare <;> rw [registering] <;> exact Phase.noConfusion
      have inserted : (s.cells id).phase.isInserted = true := by
        rw [registering]
        rfl
      let made : Cell :=
        { s.cells id with
          phase := .live
          strong := (s.cells id).kind.handles
          read := if (s.cells id).kind.reads then .free else .absent
          write := if (s.cells id).kind.writes then .free else .absent }
      have held : made.Holds := ⟨rfl, bare.kept⟩
      have whole : made.Sound := by
        constructor
        · exact fun dead => absurd rfl dead
        · simp only [made]
          cases (s.cells id).kind <;> rfl
        · intro _live
          simp only [made]
          cases (s.cells id).kind <;> decide
        · exact fun removed => absurd bare.kept removed
        · exact sound.once
      apply inv.setCell ⟨inserted, bare.kept⟩ held whole rfl
      · rw [registering]
        exact Phase.noConfusion
      · simp only [Cell.slot, made, bare.read, bare.write]
        cases (s.cells id).kind <;> rfl
      · intro side
        left
        cases side
        · simp only [Cell.handle, made]
          cases (s.cells id).kind <;> rfl
        · simp only [Cell.handle, made]
          cases (s.cells id).kind <;> rfl
  · cases taken

theorem Cell.setHandle_keeps (cell : Cell) (side : Side) (handle : Handle) :
    (cell.setHandle side handle).phase = cell.phase ∧
      (cell.setHandle side handle).place = cell.place ∧
      (cell.setHandle side handle).removals = cell.removals := by
  cases side <;> exact ⟨rfl, rfl, rfl⟩

theorem Inv.live (inv : Inv s) (there : (s.cells id).handle side ≠ .absent) :
    (s.cells id).phase = .live ∧ (s.cells id).Holds := by
  have sound := inv.slots.sound id
  have live := sound.live_of_handle there
  exact ⟨live, sound.holds_of_live live⟩

theorem Cell.setHandle_other {handle : Handle} {other : Side} (different : other ≠ side) :
    ((cell.setHandle side handle).handle other).owns = (cell.handle other).owns := by
  rw [Cell.handle_setHandle, if_neg different]

theorem Cell.setHandle_self {handle : Handle} :
    (cell.setHandle side handle).handle side = handle := by
  rw [Cell.handle_setHandle, if_pos rfl]

theorem Cell.slot_setHandle {handle : Handle}
    (same : handle.pointer = (cell.handle side).pointer) :
    (cell.setHandle side handle).slot id = cell.slot id := by
  cases side with
  | read =>
      simp only [Cell.slot, Cell.setHandle]
      rw [same]
      rfl
  | write =>
      simp only [Cell.slot, Cell.setHandle]
      rw [same]
      rfl

theorem Inv.held_setHandle {handle : Handle} (inv : Inv s)
    (there : (s.cells id).handle side ≠ .absent) :
    ((s.cells id).setHandle side handle).Holds := by
  obtain ⟨_live, inserted, kept⟩ := inv.live there
  obtain ⟨phase, _place, removals⟩ := (s.cells id).setHandle_keeps side handle
  exact ⟨phase ▸ inserted, removals ▸ kept⟩

/-- A handle changes together with its pointer in the slot. -/
theorem Inv.repoint {handle : Handle} (inv : Inv s) (there : (s.cells id).handle side ≠ .absent)
    (still : handle ≠ .absent) (owns : handle.owns = ((s.cells id).handle side).owns) :
    Inv ((s.setSlot (s.cells id).place
      (some (((s.cells id).setHandle side handle).slot id))).setCell id
        ((s.cells id).setHandle side handle)) := by
  have held : ((s.cells id).setHandle side handle).Holds := inv.held_setHandle there
  obtain ⟨live, holds⟩ := inv.live there
  obtain ⟨phase, place, _removals⟩ := (s.cells id).setHandle_keeps side handle
  have slots := inv.slots.reslot holds held ((inv.slots.sound id).setHandle there still) place
    (fun deferred => phase.trans deferred)
  rw [place] at slots
  apply inv.recell slots rfl rfl rfl rfl
  · exact fun _ => place
  · exact held.2
  · exact fun _ => held.1
  · intro other
    right
    by_cases same : other = side
    · rw [same, Cell.setHandle_self]
      exact owns
    · exact Cell.setHandle_other same

private theorem withSlot_ok {change : Slot → Except Violation Slot} {changed : Slot} (inv : Inv s)
    (holds : (s.cells id).Holds) (fine : change ((s.cells id).slot id) = .ok changed)
    (done : Cell) :
    withSlot s id change done =
      (s.setSlot (s.cells id).place (some changed)).setCell id done := by
  unfold withSlot
  rw [inv.slots.occupied id holds]
  simp only [fine]

theorem Inv.attach (inv : Inv s) (taken : attach s id side = some s') : Inv s' := by
  unfold Reactor.attach at taken
  split at taken
  · next addr allocated =>
      split at taken
      · cases taken
        have there : (s.cells id).handle side ≠ .absent :=
          ne_of_eq_of_ne allocated Handle.noConfusion
        have fine : attachSlot side.ready addr ((s.cells id).slot id) =
            .ok (((s.cells id).setHandle side (.attached addr)).slot id) := by
          cases side with
          | read =>
              change (s.cells id).read = .allocated addr at allocated
              simp only [attachSlot, Side.ready, Cell.slot, allocated]
              rfl
          | write =>
              change (s.cells id).write = .allocated addr at allocated
              simp only [attachSlot, Side.ready, Cell.slot, allocated]
              rfl
        rw [withSlot_ok inv (inv.live there).2 fine]
        apply inv.repoint there Handle.noConfusion
        rw [allocated]
        rfl
      · cases taken
  · cases taken

theorem Inv.pointer_ne (inv : Inv s) (attached : (s.cells id).write = .attached addr) :
    (s.cells id).read.pointer ≠ some addr := by
  intro points
  have first : ((s.cells id).handle .read).owns = some addr := Handle.owns_of_pointer points
  have second : ((s.cells id).handle .write).owns = some addr := by
    rw [Cell.handle, attached]
    rfl
  cases (inv.dispatchers.unique id .read id .write addr first second).2

theorem Inv.del (inv : Inv s) (taken : del s id side = some s') : Inv s' := by
  unfold Reactor.del at taken
  split at taken
  · next addr attached =>
      split at taken
      · cases taken
        have there : (s.cells id).handle side ≠ .absent :=
          ne_of_eq_of_ne attached Handle.noConfusion
        have fine : delSlot addr ((s.cells id).slot id) =
            .ok (((s.cells id).setHandle side (.cleared addr)).slot id) := by
          cases side with
          | read =>
              change (s.cells id).read = .attached addr at attached
              simp only [delSlot, Cell.slot, attached, Handle.pointer, if_true]
              rfl
          | write =>
              change (s.cells id).write = .attached addr at attached
              have different := inv.pointer_ne attached
              have points : (s.cells id).write.pointer = some addr := by
                rw [attached]
                rfl
              simp only [delSlot, Cell.slot, if_neg different, points, if_true]
              rfl
        rw [withSlot_ok inv (inv.live there).2 fine]
        apply inv.repoint there Handle.noConfusion
        rw [attached]
        rfl
      · cases taken
  · cases taken

theorem Inv.unslotted {handle : Handle} {live : Bool} (inv : Inv s)
    (there : (s.cells id).handle side ≠ .absent) (still : handle ≠ .absent)
    (pointers : handle.pointer = ((s.cells id).handle side).pointer)
    (dispatchers : Dispatchers ((s.setAllocated addr live).setCell id
      ((s.cells id).setHandle side handle))) :
    Inv ((s.setAllocated addr live).setCell id ((s.cells id).setHandle side handle)) := by
  have held : ((s.cells id).setHandle side handle).Holds := inv.held_setHandle there
  obtain ⟨_live, holds⟩ := inv.live there
  obtain ⟨phase, place, _removals⟩ := (s.cells id).setHandle_keeps side handle
  have slots := inv.slots.setCell holds held ((inv.slots.sound id).setHandle there still) place
    (fun deferred => phase.trans deferred) (Cell.slot_setHandle pointers)
  constructor
  · exact slots.repend rfl rfl (fun _ => .refl _)
  · intro reactor
    apply (inv.current reactor).setCell
    · exact fun _ _ => ⟨held, place⟩
    · exact fun removed _ => absurd held.2 removed
  · exact dispatchers
  · exact inv.intact

theorem Inv.allocate (inv : Inv s) (taken : allocate s id side addr = some s') : Inv s' := by
  unfold Reactor.allocate at taken
  split at taken
  · next enabled =>
      cases taken
      obtain ⟨free, fresh⟩ := enabled
      have there : (s.cells id).handle side ≠ .absent :=
        ne_of_eq_of_ne free Handle.noConfusion
      apply inv.unslotted there Handle.noConfusion
      · rw [free]
        rfl
      · apply inv.dispatchers.allocate fresh
        · rw [Cell.setHandle_self]
          rfl
        · exact fun _ different => Cell.setHandle_other different
  · cases taken

theorem Inv.free (inv : Inv s) (taken : free s id side = some s') : Inv s' := by
  unfold Reactor.free at taken
  split at taken
  · next addr cleared =>
      cases taken
      have there : (s.cells id).handle side ≠ .absent :=
        ne_of_eq_of_ne cleared Handle.noConfusion
      apply inv.unslotted there Handle.noConfusion
      · rw [cleared]
        rfl
      · apply inv.dispatchers.free
        · rw [cleared]
          rfl
        · rw [Cell.setHandle_self]
          rfl
        · exact fun _ different => Cell.setHandle_other different
  · cases taken

theorem Cell.Sound.dropHandle (sound : cell.Sound) (free : cell.handle side = .free) :
    Cell.Sound { cell.setHandle side .absent with
      strong := cell.strong - 1
      phase := if cell.strong = 1 then .dropping else cell.phase } := by
  have there : cell.handle side ≠ .absent := by
    rw [free]
    exact Handle.noConfusion
  have live := sound.live_of_handle there
  have kept : cell.removals = 0 := (sound.holds_of_live live).2
  have strong := sound.strong
  have counted : cell.strong - 1 =
      (cell.setHandle side .absent).read.count + (cell.setHandle side .absent).write.count ∧
      (cell.strong = 1 → (cell.setHandle side .absent).read = .absent ∧
        (cell.setHandle side .absent).write = .absent) := by
    have none (handle : Handle) (zero : handle.count = 0) : handle = .absent := by
      cases handle with
      | absent => rfl
      | _ => cases zero
    cases side with
    | read =>
        change cell.read = .free at free
        rw [free] at strong
        change cell.strong = 1 + cell.write.count at strong
        refine ⟨?_, fun last => ⟨rfl, none cell.write ?_⟩⟩
        · change cell.strong - 1 = 0 + cell.write.count
          omega
        · omega
    | write =>
        change cell.write = .free at free
        rw [free] at strong
        change cell.strong = cell.read.count + 1 at strong
        refine ⟨?_, fun last => ⟨none cell.read ?_, rfl⟩⟩
        · change cell.strong - 1 = cell.read.count + 0
          omega
        · omega
  have positive := sound.alive live
  have removals := (cell.setHandle_keeps side .absent).2.2
  constructor
  · intro dead
    apply counted.2
    by_contra more
    rw [if_neg more] at dead
    exact dead live
  · exact counted.1
  · intro alive
    have more : cell.strong ≠ 1 := by
      intro last
      rw [if_pos last] at alive
      cases alive
    change 0 < cell.strong - 1
    omega
  · intro removed
    exact absurd (removals.trans kept) removed
  · change (cell.setHandle side .absent).removals ≤ 1
    omega

theorem Inv.dropHandle (inv : Inv s) (taken : dropHandle s id side = some s') : Inv s' := by
  unfold Reactor.dropHandle at taken
  split at taken
  · next free =>
      cases taken
      have there : (s.cells id).handle side ≠ .absent :=
        ne_of_eq_of_ne free Handle.noConfusion
      obtain ⟨live, holds⟩ := inv.live there
      obtain ⟨_phase, place, removals⟩ := (s.cells id).setHandle_keeps side .absent
      have pointers : Handle.absent.pointer = ((s.cells id).handle side).pointer := by
        rw [free]
        rfl
      have sound := (inv.slots.sound id).dropHandle free
      have inserted : Phase.isInserted
          (if (s.cells id).strong = 1 then .dropping else (s.cells id).phase) = true := by
        split
        · rfl
        · exact holds.1
      have held : Cell.Holds { (s.cells id).setHandle side .absent with
          strong := (s.cells id).strong - 1
          phase := if (s.cells id).strong = 1 then .dropping else (s.cells id).phase } :=
        ⟨inserted, removals.trans holds.2⟩
      apply inv.setCell holds held sound place
      · rw [live]
        exact Phase.noConfusion
      · exact Cell.slot_setHandle pointers
      · intro other
        by_cases same : other = side
        · left
          rw [same]
          exact congrArg Handle.owns Cell.setHandle_self
        · right
          exact Cell.setHandle_other same
  · cases taken

theorem Inv.defer (inv : Inv s) (taken : defer s id = some s') : Inv s' := by
  unfold Reactor.defer at taken
  split at taken
  · next enabled =>
      obtain ⟨deregistered, _unlocked⟩ := enabled
      have dead : (s.cells id).phase ≠ .live := ne_of_eq_of_ne deregistered Phase.noConfusion
      have waits : (s.cells id).phase ≠ .deferred :=
        ne_of_eq_of_ne deregistered Phase.noConfusion
      have bare := (inv.slots.sound id).bare dead waits
      have holds : (s.cells id).Holds := by
        refine ⟨?_, bare.kept⟩
        rw [deregistered]
        rfl
      have found := inv.slots.occupied id holds
      rw [found] at taken
      have null : ((s.cells id).slot id).readableDispatcher = none ∧
          ((s.cells id).slot id).writableDispatcher = none := by
        simp only [Cell.slot, bare.read, bare.write]
        exact ⟨rfl, rfl⟩
      simp only [null, and_self, if_true] at taken
      cases taken
      let ended : Cell := { s.cells id with phase := .deferred }
      have held : ended.Holds := ⟨rfl, bare.kept⟩
      have whole : ended.Sound := bare.rephase.sound Phase.noConfusion
      apply inv.recell (inv.slots.defer holds held whole rfl rfl waits rfl) rfl rfl rfl rfl
      · exact fun _ => rfl
      · exact bare.kept
      · exact fun _ => rfl
      · intro side
        cases side <;> exact Or.inr rfl
  · cases taken

theorem Inv.setLoop {loop : Loop} (inv : Inv s) (hand : loop.inHand = (s.loop reactor).inHand)
    (current : loop.Current reactor s.cells) : Inv (s.setLoop reactor loop) := by
  constructor
  · refine inv.slots.repend rfl rfl ?_
    intro other
    by_cases same : other = reactor
    · subst other
      simp only [State.pending, State.setLoop, Function.update_self, hand]
      exact .refl _
    · simp only [State.pending, State.setLoop, Function.update_of_ne same]
      exact .refl _
  · intro other
    by_cases same : other = reactor
    · subst other
      simp only [State.setLoop, Function.update_self]
      exact current
    · simp only [State.setLoop, Function.update_of_ne same]
      exact inv.current other
  · exact ⟨inv.dispatchers.allocated, inv.dispatchers.unique⟩
  · exact inv.intact

theorem Inv.check (inv : Inv s) (taken : check s reactor = some s') : Inv s' := by
  unfold Reactor.check at taken
  split at taken
  · next top =>
      cases taken
      apply inv.setLoop
      · rw [top]
        cases s.shutdown <;> rfl
      · cases s.shutdown <;> trivial
  · cases taken

/-- What has been removed was deregistered before. -/
theorem Inv.poll (inv : Inv s) (taken : poll s reactor = some s') : Inv s' := by
  unfold Reactor.poll at taken
  split at taken
  · next calling =>
      cases taken
      apply inv.setLoop
      · rw [calling]
        rfl
      · intro id _here removed
        change (s.cells id).phase.isDeregistered = true
        rw [(inv.slots.sound id).removed removed]
        rfl
  · cases taken

theorem Inv.reported {stale : CellId → Bool} {event : Event} (inv : Inv s)
    (polling : s.loop reactor = .polling stale)
    (may : s.mayReport reactor stale event = true) :
    (s.cells event.cell).Holds ∧ (s.cells event.cell).place = (reactor, event.key) := by
  unfold State.mayReport at may
  rw [Bool.and_eq_true, Bool.and_eq_true, decide_eq_true_eq, Bool.not_eq_true'] at may
  obtain ⟨⟨reports, place⟩, fresh⟩ := may
  refine ⟨⟨?_, ?_⟩, place⟩
  · cases phase : (s.cells event.cell).phase with
    | absent =>
        rw [phase] at reports
        cases reports
    | choosing =>
        rw [phase] at reports
        cases reports
    | _ => rfl
  · by_contra removed
    have current := inv.current reactor
    rw [polling] at current
    rw [current event.cell (Prod.mk.inj place).1 removed] at fresh
    cases fresh

theorem Inv.pollReturns {events : List Event} (inv : Inv s)
    (taken : pollReturns s reactor events = some s') : Inv s' := by
  unfold Reactor.pollReturns at taken
  split at taken
  · next stale polling =>
      split at taken
      · next may =>
          cases taken
          apply inv.setLoop
          · rw [polling]
            rfl
          · intro event member
            exact inv.reported polling (List.all_eq_true.mp may event member)
      · cases taken
  · cases taken

theorem Inv.pollFails (inv : Inv s) (taken : pollFails s reactor = some s') : Inv s' := by
  unfold Reactor.pollFails at taken
  split at taken
  · next stale polling =>
      cases taken
      apply inv.setLoop
      · rw [polling]
        rfl
      · trivial
  · cases taken

theorem Inv.lock (inv : Inv s) (taken : lock s reactor = some s') : Inv s' := by
  unfold Reactor.lock at taken
  split at taken
  · next events returned =>
      cases taken
      have current := inv.current reactor
      rw [returned] at current
      apply inv.setLoop
      · rw [returned]
        rfl
      · exact current
  · cases taken

theorem Inv.pointer_allocated (inv : Inv s)
    (points : ((s.cells id).handle side).pointer = some addr) : s.allocated addr = true := by
  apply inv.dispatchers.allocated id side
  exact Handle.owns_of_pointer points

theorem Inv.notified_allocated (inv : Inv s) (ready : Ready) :
    (((s.cells id).slot id).notified ready).all s.allocated = true := by
  rw [List.all_eq_true]
  intro addr member
  obtain ⟨side, attached⟩ := Slot.attached_of_notified member
  apply inv.dispatchers.allocated id side
  rw [attached]
  rfl

theorem Inv.process (inv : Inv s) (taken : process s reactor = some s') : Inv s' := by
  unfold Reactor.process at taken
  split at taken
  · next event rest processing =>
      have current := inv.current reactor
      rw [processing] at current
      obtain ⟨holds, place⟩ := current event List.mem_cons_self
      have found := inv.slots.occupied event.cell holds
      rw [place] at found
      simp only [found, inv.notified_allocated, if_true] at taken
      cases taken
      apply inv.setLoop
      · rw [processing]
        rfl
      · exact fun later member => current later (List.mem_cons_of_mem event member)
  · cases taken

theorem Inv.unlock (inv : Inv s) (taken : unlock s reactor = some s') : Inv s' := by
  unfold Reactor.unlock at taken
  split at taken
  · next processing =>
      cases taken
      apply inv.setLoop
      · rw [processing]
        rfl
      · trivial
  · cases taken

theorem Inv.pushBatch (inv : Inv s) (taken : pushBatch s reactor = some s') : Inv s' := by
  unfold Reactor.pushBatch at taken
  split at taken
  · next pushing =>
      cases taken
      apply inv.setLoop
      · rw [pushing]
        rfl
      · trivial
  · cases taken

theorem Inv.pop (inv : Inv s) (taken : pop s reactor = some s') : Inv s' := by
  unfold Reactor.pop at taken
  split at taken
  · next final draining =>
      split at taken
      · next key last =>
          cases taken
          have whole : (s.deferredRemove reactor).dropLast ++ [key] = s.deferredRemove reactor :=
            List.dropLast_append_getLast? key last
          constructor
          · refine inv.slots.repend rfl rfl ?_
            intro other
            by_cases same : other = reactor
            · subst other
              simp only [State.pending, State.setLoop, State.setDeferred, Function.update_self,
                draining, Loop.inHand, List.nil_append]
              rw [← whole]
              simp only [List.dropLast_concat]
              exact List.perm_append_comm
            · simp only [State.pending, State.setLoop, State.setDeferred,
                Function.update_of_ne same]
              exact .refl _
          · intro other
            by_cases same : other = reactor
            · subst other
              simp only [State.setLoop, Function.update_self]
              trivial
            · simp only [State.setLoop, State.setDeferred, Function.update_of_ne same]
              exact inv.current other
          · exact ⟨inv.dispatchers.allocated, inv.dispatchers.unique⟩
          · exact inv.intact
      · cases taken
        apply inv.setLoop
        · rw [draining]
          cases final <;> rfl
        · cases final <;> trivial
  · cases taken

/-- The registration whose key is removed has ended, and its key was never removed. -/
theorem Inv.removing {final : Bool} (inv : Inv s) (hand : s.loop reactor = .removing key final) :
    ∃ slot, s.slab (reactor, key) = some slot ∧ (s.cells slot.owner).phase = .deferred ∧
      (s.cells slot.owner).removals = 0 := by
  obtain ⟨slot, found, holds, deferred, _place⟩ := inv.slots.removing hand
  exact ⟨slot, found, deferred, holds.2⟩

theorem Inv.remove (inv : Inv s) (taken : remove s reactor = some s') : Inv s' := by
  unfold Reactor.remove at taken
  split at taken
  · next key final hand =>
      obtain ⟨slot, found, deferred, none⟩ := inv.removing hand
      rw [found] at taken
      cases taken
      have local' : (s.cells slot.owner).localI = reactor :=
        (Prod.mk.inj (inv.slots.owned _ slot found).2).1
      constructor
      · exact inv.slots.remove hand found
      · intro other
        by_cases same : other = reactor
        · subst other
          simp only [State.setLoop, Function.update_self]
          trivial
        · simp only [State.setLoop, State.setCell, State.setSlot, Function.update_of_ne same]
          apply (inv.current other).setCell
          · exact fun _ here => absurd (here.symm.trans local') same
          · exact fun _ here => absurd (here.symm.trans local') same
      · have moved : Dispatchers (s.setCell slot.owner
            { s.cells slot.owner with removals := (s.cells slot.owner).removals + 1 }) := by
          apply inv.dispatchers.setCell
          intro side
          cases side <;> exact Or.inr rfl
        exact ⟨moved.allocated, moved.unique⟩
      · exact inv.intact
  · cases taken

end Yaay.Net.Reactor
