import Mathlib.Data.List.Nodup
import Yaay.Net.Reactor

set_option autoImplicit false

/-! What every reachable state of the reactors and cells satisfies: a slot that is occupied
belongs to one registration, whose handles say what the slot's pointers are; a key is on its
way to be removed only after its cell ended; and every dispatcher has one handle. -/

namespace Yaay.Net.Reactor

open Yaay.Transition

def Phase.isInserted : Phase → Bool
  | .absent | .choosing => false
  | _ => true

def Cell.Holds (cell : Cell) : Prop := cell.phase.isInserted = true ∧ cell.removals = 0

/-- What a slot points to while the handle is in this state. -/
def Handle.pointer : Handle → Option Addr
  | .attached addr => some addr
  | _ => none

def Handle.owns : Handle → Option Addr
  | .allocated addr | .attached addr | .cleared addr => some addr
  | _ => none

def Handle.count : Handle → Nat
  | .absent => 0
  | _ => 1

def Cell.slot (cell : Cell) (id : CellId) : Slot :=
  { readableDispatcher := cell.read.pointer
    writableDispatcher := cell.write.pointer
    owner := id }

structure Cell.Sound (cell : Cell) : Prop where
  handles : cell.phase ≠ .live → cell.read = .absent ∧ cell.write = .absent
  strong : cell.strong = cell.read.count + cell.write.count
  alive : cell.phase = .live → 0 < cell.strong
  removed : cell.removals ≠ 0 → cell.phase = .deferred
  once : cell.removals ≤ 1

/-- The keys that the reactor is to remove: one that it holds, and the deferred ones. -/
def Loop.inHand : Loop → List Key
  | .removing key _ => [key]
  | _ => []

def State.pending (s : State) (reactor : ReactorId) : List Key :=
  (s.loop reactor).inHand ++ s.deferredRemove reactor

structure Slots (s : State) : Prop where
  sound : ∀ id, (s.cells id).Sound
  occupied : ∀ id, (s.cells id).Holds → s.slab (s.cells id).place = some ((s.cells id).slot id)
  owned : ∀ place slot, s.slab place = some slot →
    (s.cells slot.owner).Holds ∧ (s.cells slot.owner).place = place
  distinct : ∀ reactor, (s.pending reactor).Nodup
  due : ∀ reactor, ∀ key ∈ s.pending reactor, ∃ id,
    (s.cells id).Holds ∧ (s.cells id).phase = .deferred ∧ (s.cells id).place = (reactor, key)

/-- The registrations of a batch have not been removed, and what has been removed is stale. -/
def Loop.Current (reactor : ReactorId) (cells : CellId → Cell) : Loop → Prop
  | .polling stale =>
      ∀ id, (cells id).localI = reactor → (cells id).removals ≠ 0 → stale id = true
  | .returned events | .processing events =>
      ∀ event ∈ events,
        (cells event.cell).Holds ∧ (cells event.cell).place = (reactor, event.key)
  | _ => True

structure Dispatchers (s : State) : Prop where
  allocated : ∀ id side addr, ((s.cells id).handle side).owns = some addr →
    s.allocated addr = true
  unique : ∀ id side other otherSide addr, ((s.cells id).handle side).owns = some addr →
    ((s.cells other).handle otherSide).owns = some addr → id = other ∧ side = otherSide

structure Inv (s : State) : Prop where
  slots : Slots s
  current : ∀ reactor, (s.loop reactor).Current reactor s.cells
  dispatchers : Dispatchers s
  intact : s.violation = none

variable {s s' : State} {id : CellId} {cell : Cell} {side : Side} {addr : Addr}
  {reactor : ReactorId} {key : Key}

theorem Cell.Sound.live_of_handle (sound : cell.Sound) (there : cell.handle side ≠ .absent) :
    cell.phase = .live := by
  by_contra dead
  obtain ⟨read, write⟩ := sound.handles dead
  cases side with
  | read => exact there read
  | write => exact there write

theorem Cell.Sound.not_removed (sound : cell.Sound) (waits : cell.phase ≠ .deferred) :
    cell.removals = 0 := by
  by_contra removed
  exact waits (sound.removed removed)

theorem Cell.Sound.holds_of_live (sound : cell.Sound) (live : cell.phase = .live) :
    cell.Holds := by
  constructor
  · rw [live]
    rfl
  · apply sound.not_removed
    rw [live]
    exact Phase.noConfusion

/-- A registration without reader and writer, whose slot was not vacated. -/
structure Cell.Bare (cell : Cell) : Prop where
  read : cell.read = .absent
  write : cell.write = .absent
  strong : cell.strong = 0
  kept : cell.removals = 0

theorem Cell.Sound.bare (sound : cell.Sound) (dead : cell.phase ≠ .live)
    (waits : cell.phase ≠ .deferred) : cell.Bare := by
  obtain ⟨read, write⟩ := sound.handles dead
  have strong := sound.strong
  rw [read, write] at strong
  exact ⟨read, write, strong, sound.not_removed waits⟩

theorem Cell.Bare.sound (bare : cell.Bare) (still : cell.phase ≠ .live) : cell.Sound := by
  constructor
  · exact fun _ => ⟨bare.read, bare.write⟩
  · rw [bare.read, bare.write]
    exact bare.strong
  · exact fun live => absurd live still
  · exact fun removed => absurd bare.kept removed
  · rw [bare.kept]
    exact Nat.zero_le 1

theorem Cell.not_holds (outside : cell.phase.isInserted = false) : ¬ cell.Holds := by
  rintro ⟨inserted, _⟩
  rw [outside] at inserted
  cases inserted

theorem Handle.attached_of_pointer {handle : Handle} (points : handle.pointer = some addr) :
    handle = .attached addr := by
  cases handle with
  | attached other =>
      cases points
      rfl
  | _ => cases points

theorem Handle.owns_of_pointer {handle : Handle} (points : handle.pointer = some addr) :
    handle.owns = some addr := by
  rw [Handle.attached_of_pointer points]
  rfl

theorem Slot.attached_of_notified {ready : Ready}
    (member : addr ∈ (cell.slot id).notified ready) :
    ∃ side, cell.handle side = .attached addr := by
  unfold Slot.notified at member
  rcases List.mem_append.mp member with readable | writable
  · split at readable
    · exact ⟨.read, Handle.attached_of_pointer (Option.mem_toList.mp readable)⟩
    · cases readable
  · split at writable
    · exact ⟨.write, Handle.attached_of_pointer (Option.mem_toList.mp writable)⟩
    · cases writable

theorem Slots.slot_eq (slots : Slots s) {place : ReactorId × Key} {slot : Slot}
    (found : s.slab place = some slot) : slot = (s.cells slot.owner).slot slot.owner := by
  obtain ⟨holds, same⟩ := slots.owned place slot found
  have entry := slots.occupied slot.owner holds
  rw [same, found] at entry
  exact Option.some.inj entry

theorem Slots.owner_unique (slots : Slots s) {other : CellId} (holds : (s.cells id).Holds)
    (held : (s.cells other).Holds) (same : (s.cells id).place = (s.cells other).place) :
    id = other := by
  have first := slots.occupied id holds
  have second := slots.occupied other held
  rw [same, second] at first
  exact (congrArg Slot.owner (Option.some.inj first)).symm

theorem Slots.recell (slots : Slots s) (held : cell.Holds) (sound : cell.Sound)
    (room : ∀ other, other ≠ id → (s.cells other).Holds → (s.cells other).place ≠ cell.place)
    (own : (s.cells id).Holds → (s.cells id).place = cell.place)
    (ends : (s.cells id).Holds → (s.cells id).phase = .deferred → cell.phase = .deferred) :
    Slots ((s.setSlot cell.place (some (cell.slot id))).setCell id cell) := by
  constructor
  · intro other
    by_cases same : other = id
    · subst other
      simp only [State.setCell, Function.update_self]
      exact sound
    · simp only [State.setCell, State.setSlot, Function.update_of_ne same]
      exact slots.sound other
  · intro other
    by_cases same : other = id
    · subst other
      simp only [State.setCell, State.setSlot, Function.update_self]
      exact fun _ => trivial
    · simp only [State.setCell, State.setSlot, Function.update_of_ne same]
      intro holds
      rw [Function.update_of_ne (room other same holds)]
      exact slots.occupied other holds
  · intro place slot found
    simp only [State.setCell, State.setSlot] at found ⊢
    by_cases here : place = cell.place
    · subst place
      rw [Function.update_self] at found
      cases found
      rw [Cell.slot, Function.update_self]
      exact ⟨held, rfl⟩
    · rw [Function.update_of_ne here] at found
      have before := slots.owned place slot found
      have different : slot.owner ≠ id := by
        intro same
        rw [same] at before
        exact here (before.2.symm.trans (own before.1))
      rw [Function.update_of_ne different]
      exact before
  · exact slots.distinct
  · intro reactor key waiting
    obtain ⟨other, holds, deferred, place⟩ := slots.due reactor key waiting
    refine ⟨other, ?_⟩
    by_cases same : other = id
    · subst other
      simp only [State.setCell, Function.update_self]
      exact ⟨held, ends holds deferred, (own holds).symm.trans place⟩
    · simp only [State.setCell, State.setSlot, Function.update_of_ne same]
      exact ⟨holds, deferred, place⟩

theorem Slots.reslot (slots : Slots s) (holds : (s.cells id).Holds) (held : cell.Holds)
    (sound : cell.Sound) (place : cell.place = (s.cells id).place)
    (ends : (s.cells id).phase = .deferred → cell.phase = .deferred) :
    Slots ((s.setSlot cell.place (some (cell.slot id))).setCell id cell) := by
  apply slots.recell held sound
  · intro other different taken same
    exact different (slots.owner_unique taken holds (same.trans place))
  · exact fun _ => place.symm
  · exact fun _ => ends

theorem State.setSlot_same {place : ReactorId × Key} {slot : Slot}
    (found : s.slab place = some slot) : s.setSlot place (some slot) = s := by
  rw [State.setSlot, ← found, Function.update_eq_self]

theorem Slots.setCell (slots : Slots s) (holds : (s.cells id).Holds) (held : cell.Holds)
    (sound : cell.Sound) (place : cell.place = (s.cells id).place)
    (ends : (s.cells id).phase = .deferred → cell.phase = .deferred)
    (pointers : cell.slot id = (s.cells id).slot id) : Slots (s.setCell id cell) := by
  have moved := slots.reslot holds held sound place ends
  rw [place, pointers, State.setSlot_same (slots.occupied id holds)] at moved
  exact moved

theorem Slots.setCell_outside (slots : Slots s) (outside : ¬ (s.cells id).Holds)
    (still : ¬ cell.Holds) (sound : cell.Sound) : Slots (s.setCell id cell) := by
  constructor
  · intro other
    by_cases same : other = id
    · subst other
      simp only [State.setCell, Function.update_self]
      exact sound
    · simp only [State.setCell, Function.update_of_ne same]
      exact slots.sound other
  · intro other
    by_cases same : other = id
    · subst other
      simp only [State.setCell, Function.update_self]
      exact fun holds => absurd holds still
    · simp only [State.setCell, Function.update_of_ne same]
      exact slots.occupied other
  · intro place slot found
    have before := slots.owned place slot found
    have different : slot.owner ≠ id := by
      intro same
      rw [same] at before
      exact outside before.1
    simp only [State.setCell, Function.update_of_ne different]
    exact before
  · exact slots.distinct
  · intro reactor key waiting
    obtain ⟨other, holds, deferred⟩ := slots.due reactor key waiting
    have different : other ≠ id := by
      intro same
      rw [same] at holds
      exact outside holds
    refine ⟨other, ?_⟩
    simp only [State.setCell, Function.update_of_ne different]
    exact ⟨holds, deferred⟩

theorem Slots.repend (slots : Slots s) (cells : s'.cells = s.cells) (slab : s'.slab = s.slab)
    (pending : ∀ reactor, (s'.pending reactor).Perm (s.pending reactor)) : Slots s' := by
  constructor
  · rw [cells]
    exact slots.sound
  · rw [cells, slab]
    exact slots.occupied
  · rw [cells, slab]
    exact slots.owned
  · intro reactor
    exact (pending reactor).nodup_iff.mpr (slots.distinct reactor)
  · intro reactor key waiting
    rw [cells]
    exact slots.due reactor key ((pending reactor).mem_iff.mp waiting)

theorem Slots.defer (slots : Slots s) (holds : (s.cells id).Holds) (held : cell.Holds)
    (sound : cell.Sound) (place : cell.place = (s.cells id).place)
    (pointers : cell.slot id = (s.cells id).slot id)
    (before : (s.cells id).phase ≠ .deferred) (after : cell.phase = .deferred) :
    Slots ((s.setDeferred cell.localI (s.deferredRemove cell.localI ++ [cell.key])).setCell
      id cell) := by
  have moved := slots.setCell holds held sound place (fun _ => after) pointers
  have fresh : cell.key ∉ s.pending cell.localI := by
    intro waiting
    obtain ⟨other, owns, deferred, same⟩ := slots.due cell.localI cell.key waiting
    have equal := slots.owner_unique owns holds (same.trans place)
    rw [equal] at deferred
    exact before deferred
  have pending : ∀ reactor,
      ((s.setDeferred cell.localI (s.deferredRemove cell.localI ++ [cell.key])).setCell
        id cell).pending reactor =
        if reactor = cell.localI then s.pending reactor ++ [cell.key] else s.pending reactor := by
    intro reactor
    by_cases same : reactor = cell.localI
    · subst reactor
      simp only [State.pending, State.setCell, State.setDeferred, Function.update_self, if_true,
        List.append_assoc]
    · simp only [State.pending, State.setCell, State.setDeferred, Function.update_of_ne same,
        if_neg same]
  constructor
  · exact moved.sound
  · exact moved.occupied
  · exact moved.owned
  · intro reactor
    rw [pending]
    split
    · next same =>
        subst same
        apply List.Nodup.append (slots.distinct _) (List.nodup_singleton _)
        intro key waiting single
        rw [List.mem_singleton.mp single] at waiting
        exact fresh waiting
    · exact slots.distinct reactor
  · intro reactor key waiting
    rw [pending] at waiting
    have choice : key ∈ s.pending reactor ∨ (reactor = cell.localI ∧ key = cell.key) := by
      split at waiting
      · next same =>
          rcases List.mem_append.mp waiting with earlier | single
          · exact Or.inl earlier
          · exact Or.inr ⟨same, List.mem_singleton.mp single⟩
      · exact Or.inl waiting
    rcases choice with earlier | ⟨here, same⟩
    · exact moved.due reactor key earlier
    · refine ⟨id, ?_⟩
      simp only [State.setCell, Function.update_self]
      rw [here, same]
      exact ⟨held, after, rfl⟩

theorem Slots.removing {final : Bool} (slots : Slots s)
    (hand : s.loop reactor = .removing key final) :
    ∃ slot, s.slab (reactor, key) = some slot ∧ (s.cells slot.owner).Holds ∧
      (s.cells slot.owner).phase = .deferred ∧ (s.cells slot.owner).place = (reactor, key) := by
  have first : key ∈ s.pending reactor := by
    rw [State.pending, hand]
    exact List.mem_cons_self
  obtain ⟨id, holds, deferred, place⟩ := slots.due reactor key first
  have found := slots.occupied id holds
  rw [place] at found
  exact ⟨_, found, holds, deferred, place⟩

theorem Slots.remaining {final : Bool} (slots : Slots s)
    (hand : s.loop reactor = .removing key final) (other : ReactorId) :
    ((s.setLoop reactor (.draining final)).pending other).Nodup ∧
      ∀ waiting ∈ (s.setLoop reactor (.draining final)).pending other,
        waiting ∈ s.pending other ∧ (other, waiting) ≠ (reactor, key) := by
  by_cases same : other = reactor
  · subst other
    have whole : s.pending reactor = key :: s.deferredRemove reactor := by
      rw [State.pending, hand]
      rfl
    have alone := slots.distinct reactor
    rw [whole] at alone
    obtain ⟨fresh, distinct⟩ := List.nodup_cons.mp alone
    simp only [State.pending, State.setLoop, Function.update_self, Loop.inHand, List.nil_append]
    refine ⟨distinct, ?_⟩
    intro waiting member
    constructor
    · rw [hand]
      exact List.mem_cons_of_mem key member
    · intro equal
      rw [(Prod.mk.inj equal).2] at member
      exact fresh member
  · simp only [State.pending, State.setLoop, Function.update_of_ne same]
    refine ⟨slots.distinct other, ?_⟩
    intro waiting member
    exact ⟨member, fun equal => same (Prod.mk.inj equal).1⟩

theorem Cell.Sound.vacate (sound : cell.Sound) (deferred : cell.phase = .deferred)
    (kept : cell.removals = 0) : Cell.Sound { cell with removals := cell.removals + 1 } := by
  refine ⟨sound.handles, sound.strong, sound.alive, fun _ => deferred, ?_⟩
  simp only [kept]
  exact Nat.le_refl 1

theorem Slots.remove (slots : Slots s) {slot : Slot} {final : Bool}
    (hand : s.loop reactor = .removing key final) (found : s.slab (reactor, key) = some slot) :
    Slots (((s.setSlot (reactor, key) none).setCell slot.owner
      { s.cells slot.owner with removals := (s.cells slot.owner).removals + 1 }).setLoop
        reactor (.draining final)) := by
  obtain ⟨_slot, here, holds, deferred, owned⟩ := slots.removing hand
  rw [found] at here
  cases here
  have gone : ¬ Cell.Holds
      { s.cells slot.owner with removals := (s.cells slot.owner).removals + 1 } := by
    rintro ⟨_inserted, none⟩
    cases none
  constructor
  · intro other
    by_cases same : other = slot.owner
    · rw [same]
      simp only [State.setLoop, State.setCell, Function.update_self]
      exact (slots.sound slot.owner).vacate deferred holds.2
    · simp only [State.setLoop, State.setCell, State.setSlot, Function.update_of_ne same]
      exact slots.sound other
  · intro other
    by_cases same : other = slot.owner
    · rw [same]
      simp only [State.setLoop, State.setCell, Function.update_self]
      exact fun holds => absurd holds gone
    · simp only [State.setLoop, State.setCell, State.setSlot, Function.update_of_ne same]
      intro held
      have elsewhere : (s.cells other).place ≠ (reactor, key) := by
        intro here
        exact same (slots.owner_unique held holds (here.trans owned.symm))
      rw [Function.update_of_ne elsewhere]
      exact slots.occupied other held
  · intro there other taken
    simp only [State.setLoop, State.setCell, State.setSlot] at taken ⊢
    have elsewhere : there ≠ (reactor, key) := by
      intro here
      rw [here, Function.update_self] at taken
      cases taken
    rw [Function.update_of_ne elsewhere] at taken
    obtain ⟨held, here⟩ := slots.owned there other taken
    have different : other.owner ≠ slot.owner := by
      intro same
      rw [same, owned] at here
      exact elsewhere here.symm
    rw [Function.update_of_ne different]
    exact ⟨held, here⟩
  · intro other
    exact (slots.remaining hand other).1
  · intro other waiting member
    obtain ⟨earlier, elsewhere⟩ := (slots.remaining hand other).2 waiting member
    obtain ⟨id, held, ended, here⟩ := slots.due other waiting earlier
    have different : id ≠ slot.owner := by
      intro same
      rw [same, owned] at here
      exact elsewhere here.symm
    refine ⟨id, ?_⟩
    simp only [State.setLoop, State.setCell, State.setSlot, Function.update_of_ne different]
    exact ⟨held, ended, here⟩

theorem Loop.Current.setCell {loop : Loop} (current : loop.Current reactor s.cells)
    (holds : (s.cells id).Holds → (s.cells id).localI = reactor →
      cell.Holds ∧ cell.place = (s.cells id).place)
    (removed : cell.removals ≠ 0 → cell.localI = reactor →
      (s.cells id).removals ≠ 0 ∧ (s.cells id).localI = reactor) :
    loop.Current reactor (s.setCell id cell).cells := by
  have reported (events : List Event) (before : ∀ event ∈ events,
      (s.cells event.cell).Holds ∧ (s.cells event.cell).place = (reactor, event.key)) :
      ∀ event ∈ events, ((s.setCell id cell).cells event.cell).Holds ∧
        ((s.setCell id cell).cells event.cell).place = (reactor, event.key) := by
    intro event member
    obtain ⟨held, place⟩ := before event member
    by_cases same : event.cell = id
    · rw [same] at held place ⊢
      obtain ⟨still, kept⟩ := holds held (Prod.mk.inj place).1
      simp only [State.setCell, Function.update_self]
      exact ⟨still, kept.trans place⟩
    · simp only [State.setCell, Function.update_of_ne same]
      exact ⟨held, place⟩
  cases loop with
  | polling stale =>
      intro other here gone
      by_cases same : other = id
      · subst other
        simp only [State.setCell, Function.update_self] at here gone
        obtain ⟨before, there⟩ := removed gone here
        exact current id there before
      · simp only [State.setCell, Function.update_of_ne same] at here gone
        exact current other here gone
  | returned events => exact reported events current
  | processing events => exact reported events current
  | _ => trivial

theorem Cell.handle_setHandle (handle : Handle) (other : Side) :
    (cell.setHandle side handle).handle other =
      if other = side then handle else cell.handle other := by
  cases side <;> cases other <;> rfl

theorem Dispatchers.setCell (dispatchers : Dispatchers s)
    (owns : ∀ side, (cell.handle side).owns = none ∨
      (cell.handle side).owns = ((s.cells id).handle side).owns) :
    Dispatchers (s.setCell id cell) := by
  have before : ∀ other side addr,
      (((s.setCell id cell).cells other).handle side).owns = some addr →
        ((s.cells other).handle side).owns = some addr := by
    intro other side addr owner
    by_cases same : other = id
    · subst other
      simp only [State.setCell, Function.update_self] at owner
      rcases owns side with none | kept
      · rw [none] at owner
        cases owner
      · rw [← kept]
        exact owner
    · simp only [State.setCell, Function.update_of_ne same] at owner
      exact owner
  constructor
  · intro other side addr owner
    exact dispatchers.allocated other side addr (before other side addr owner)
  · intro other side second otherSide addr owner another
    exact dispatchers.unique other side second otherSide addr (before other side addr owner)
      (before second otherSide addr another)

theorem Dispatchers.allocate (dispatchers : Dispatchers s) (fresh : s.allocated addr = false)
    (here : (cell.handle side).owns = some addr)
    (others : ∀ other, other ≠ side →
      (cell.handle other).owns = ((s.cells id).handle other).owns) :
    Dispatchers ((s.setAllocated addr true).setCell id cell) := by
  have before : ∀ other otherSide found,
      ((((s.setAllocated addr true).setCell id cell).cells other).handle otherSide).owns =
        some found →
      (other = id ∧ otherSide = side ∧ found = addr) ∨
        (found ≠ addr ∧ ((s.cells other).handle otherSide).owns = some found) := by
    intro other otherSide found owner
    have known (earlier : ((s.cells other).handle otherSide).owns = some found) :
        found ≠ addr := by
      intro same
      have live := dispatchers.allocated other otherSide found earlier
      rw [same, fresh] at live
      cases live
    by_cases same : other = id
    · subst other
      simp only [State.setCell, Function.update_self] at owner
      by_cases equal : otherSide = side
      · subst otherSide
        rw [here] at owner
        exact Or.inl ⟨rfl, rfl, (Option.some.inj owner).symm⟩
      · rw [others otherSide equal] at owner
        exact Or.inr ⟨known owner, owner⟩
    · simp only [State.setCell, State.setAllocated, Function.update_of_ne same] at owner
      exact Or.inr ⟨known owner, owner⟩
  constructor
  · intro other otherSide found owner
    simp only [State.setCell, State.setAllocated]
    rcases before other otherSide found owner with ⟨_here, _same, equal⟩ | ⟨different, earlier⟩
    · rw [equal, Function.update_self]
    · rw [Function.update_of_ne different]
      exact dispatchers.allocated other otherSide found earlier
  · intro other otherSide second secondSide found owner another
    rcases before other otherSide found owner with ⟨first, firstSide, equal⟩ | ⟨different, earlier⟩
    · rcases before second secondSide found another with ⟨last, lastSide, _same⟩ | ⟨different, _⟩
      · exact ⟨first.trans last.symm, firstSide.trans lastSide.symm⟩
      · exact absurd equal different
    · rcases before second secondSide found another with ⟨_, _, equal⟩ | ⟨_, later⟩
      · exact absurd equal different
      · exact dispatchers.unique other otherSide second secondSide found earlier later

theorem Dispatchers.free (dispatchers : Dispatchers s)
    (owner : ((s.cells id).handle side).owns = some addr)
    (gone : (cell.handle side).owns = none)
    (others : ∀ other, other ≠ side →
      (cell.handle other).owns = ((s.cells id).handle other).owns) :
    Dispatchers ((s.setAllocated addr false).setCell id cell) := by
  have before : ∀ other otherSide found,
      ((((s.setAllocated addr false).setCell id cell).cells other).handle otherSide).owns =
        some found →
      found ≠ addr ∧ ((s.cells other).handle otherSide).owns = some found := by
    intro other otherSide found owns
    have distinct (earlier : ((s.cells other).handle otherSide).owns = some found)
        (elsewhere : ¬ (other = id ∧ otherSide = side)) : found ≠ addr := by
      intro same
      rw [same] at earlier
      exact elsewhere (dispatchers.unique other otherSide id side addr earlier owner)
    by_cases same : other = id
    · subst other
      simp only [State.setCell, Function.update_self] at owns
      have different : otherSide ≠ side := by
        intro equal
        rw [equal, gone] at owns
        cases owns
      rw [others otherSide different] at owns
      exact ⟨distinct owns (fun both => different both.2), owns⟩
    · simp only [State.setCell, State.setAllocated, Function.update_of_ne same] at owns
      exact ⟨distinct owns (fun both => same both.1), owns⟩
  constructor
  · intro other otherSide found owns
    obtain ⟨different, earlier⟩ := before other otherSide found owns
    simp only [State.setCell, State.setAllocated, Function.update_of_ne different]
    exact dispatchers.allocated other otherSide found earlier
  · intro other otherSide second secondSide found owns another
    exact dispatchers.unique other otherSide second secondSide found
      (before other otherSide found owns).2 (before second secondSide found another).2

end Yaay.Net.Reactor
