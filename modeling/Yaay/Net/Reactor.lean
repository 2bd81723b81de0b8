import Yaay.Transition

set_option autoImplicit false

/-! The registrations of the crate: the cells and handles of `container.rs`, the attaching
and detaching of dispatchers in `dispatcher.rs`, and the event loops of `shared.rs`, for any
number of reactors. The handles and their tasks are on any threads; every critical section
of one lock is one action. A failing check is recorded. -/

namespace Yaay.Net.Reactor

open Yaay.Transition

abbrev ReactorId := Nat

abbrev Key := Nat

abbrev Addr := Nat

abbrev CellId := Nat

structure Ready where
  readable : Bool
  writable : Bool
  deriving DecidableEq

/-- `owner` is the registration that the slot was inserted for. -/
structure Slot where
  readableDispatcher : Option Addr
  writableDispatcher : Option Addr
  owner : CellId
  deriving DecidableEq

inductive Side
  | read
  | write
  deriving DecidableEq

/-- What `MIO::new_r` and `MIO::new_w` pass to the dispatcher. -/
def Side.ready : Side → Ready
  | .read => { readable := true, writable := false }
  | .write => { readable := false, writable := true }

/-- Where a handle is with its one `MIO`: its dispatcher is allocated, then attached, and
cleared from the slot before it is freed. -/
inductive Handle
  | absent
  | free
  | allocated (addr : Addr)
  | attached (addr : Addr)
  | cleared (addr : Addr)
  deriving DecidableEq

/-- `new_r`, `new_w` and `new_rw`, from the `fetch_add` of the counter on, then
`MIOCell::drop`. `leaked` is a registration that failed. -/
inductive Phase
  | absent
  | choosing
  | inserted
  | registering
  | live
  | dropping
  | deregistered
  | deferred
  | leaked
  deriving DecidableEq

inductive Kind
  | r
  | w
  | rw
  deriving DecidableEq

/-- `strong` is the strong count of the `Arc`, `removals` says how often the key was removed
from the slab. -/
structure Cell where
  phase : Phase
  kind : Kind
  localI : ReactorId
  key : Key
  strong : Nat
  read : Handle
  write : Handle
  removals : Nat

/-- An event of a batch: its token, and the registration it was reported for. -/
structure Event where
  cell : CellId
  key : Key
  ready : Ready
  deriving DecidableEq

/-- Where a reactor's thread is. `stale` names the registrations whose deregistration had
returned when the poll started; `final` tells the drain loop after the shutdown. -/
inductive Loop
  | top
  | calling
  | polling (stale : CellId → Bool)
  | returned (events : List Event)
  | processing (events : List Event)
  | pushing
  | draining (final : Bool)
  | removing (key : Key) (final : Bool)
  | exited
  | dead

/-- The checks of the code that may fail, and its unchecked accesses. -/
inductive Violation
  | uncheckedSlot
  | assertFailed
  | unreachable
  | invalidKey
  | freedDispatcher
  deriving DecidableEq

structure State where
  counter : BitVec 64
  shutdown : Bool
  slab : ReactorId × Key → Option Slot
  deferredRemove : ReactorId → List Key
  loop : ReactorId → Loop
  cells : CellId → Cell
  allocated : Addr → Bool
  violation : Option Violation

inductive Action
  | choose (cell : CellId) (kind : Kind)
  | insert (cell : CellId) (key : Key)
  | register (cell : CellId)
  | registered (cell : CellId)
  | registerFails (cell : CellId)
  | allocate (cell : CellId) (side : Side) (addr : Addr)
  | attach (cell : CellId) (side : Side)
  | del (cell : CellId) (side : Side)
  | free (cell : CellId) (side : Side)
  | dropHandle (cell : CellId) (side : Side)
  | deregister (cell : CellId)
  | defer (cell : CellId)
  | setShutdown
  | check (reactor : ReactorId)
  | poll (reactor : ReactorId)
  | pollReturns (reactor : ReactorId) (events : List Event)
  | pollFails (reactor : ReactorId)
  | lock (reactor : ReactorId)
  | process (reactor : ReactorId)
  | unlock (reactor : ReactorId)
  | pushBatch (reactor : ReactorId)
  | pop (reactor : ReactorId)
  | remove (reactor : ReactorId)

def Kind.reads : Kind → Bool
  | .r | .rw => true
  | .w => false

def Kind.writes : Kind → Bool
  | .w | .rw => true
  | .r => false

def Kind.handles : Kind → Nat
  | .r | .w => 1
  | .rw => 2

def Cell.place (cell : Cell) : ReactorId × Key := (cell.localI, cell.key)

def Cell.handle (cell : Cell) : Side → Handle
  | .read => cell.read
  | .write => cell.write

def Cell.setHandle (cell : Cell) (side : Side) (handle : Handle) : Cell :=
  match side with
  | .read => { cell with read := handle }
  | .write => { cell with write := handle }

def Phase.reports : Phase → Bool
  | .registering | .live | .dropping | .deregistered | .deferred | .leaked => true
  | .absent | .choosing | .inserted => false

def Phase.isDeregistered : Phase → Bool
  | .deregistered | .deferred => true
  | _ => false

def Loop.locks : Loop → Bool
  | .processing _ => true
  | _ => false

namespace State

def setCell (s : State) (cell : CellId) (value : Cell) : State :=
  { s with cells := Function.update s.cells cell value }

def setSlot (s : State) (place : ReactorId × Key) (slot : Option Slot) : State :=
  { s with slab := Function.update s.slab place slot }

def setLoop (s : State) (reactor : ReactorId) (loop : Loop) : State :=
  { s with loop := Function.update s.loop reactor loop }

def setDeferred (s : State) (reactor : ReactorId) (keys : List Key) : State :=
  { s with deferredRemove := Function.update s.deferredRemove reactor keys }

def setAllocated (s : State) (addr : Addr) (live : Bool) : State :=
  { s with allocated := Function.update s.allocated addr live }

def violate (s : State) (violation : Violation) : State :=
  { s with violation := some violation }

def unlocked (s : State) (cell : CellId) : Bool := !(s.loop (s.cells cell).localI).locks

def init : State :=
  { counter := 0
    shutdown := false
    slab := fun _ => none
    deferredRemove := fun _ => []
    loop := fun _ => .top
    cells := fun _ =>
      { phase := .absent, kind := .r, localI := 0, key := 0, strong := 0, read := .absent,
        write := .absent, removals := 0 }
    allocated := fun _ => false
    violation := none }

end State

/-! ### Creation of a cell -/

def choose (n : Nat) (s : State) (cell : CellId) (kind : Kind) : Option State :=
  if 0 < n ∧ (s.cells cell).phase = .absent then
    some { s.setCell cell
        { s.cells cell with phase := .choosing, kind := kind, localI := s.counter.toNat % n }
      with counter := s.counter + 1 }
  else none

/-- `insert` of the slab takes some key that is vacant. -/
def insert (s : State) (cell : CellId) (key : Key) : Option State :=
  if (s.cells cell).phase = .choosing ∧ s.unlocked cell = true ∧
      s.slab ((s.cells cell).localI, key) = none then
    some ((s.setSlot ((s.cells cell).localI, key)
        (some { readableDispatcher := none, writableDispatcher := none, owner := cell })).setCell
      cell { s.cells cell with phase := .inserted, key := key })
  else none

def register (s : State) (cell : CellId) : Option State :=
  if (s.cells cell).phase = .inserted then
    some (s.setCell cell { s.cells cell with phase := .registering })
  else none

def registered (s : State) (cell : CellId) : Option State :=
  if (s.cells cell).phase = .registering then
    some (s.setCell cell
      { s.cells cell with
        phase := .live
        strong := (s.cells cell).kind.handles
        read := if (s.cells cell).kind.reads then .free else .absent
        write := if (s.cells cell).kind.writes then .free else .absent })
  else none

/-- The `unwrap` panics, and the key stays in the slab. -/
def registerFails (s : State) (cell : CellId) : Option State :=
  if (s.cells cell).phase = .registering then
    some (s.setCell cell { s.cells cell with phase := .leaked })
  else none

/-! ### A dispatcher -/

/-- `do_new` in `Dispatcher::new_from_waker`. The handle is borrowed. -/
def allocate (s : State) (cell : CellId) (side : Side) (addr : Addr) : Option State :=
  if (s.cells cell).handle side = .free ∧ s.allocated addr = false then
    some ((s.setAllocated addr true).setCell cell
      ((s.cells cell).setHandle side (.allocated addr)))
  else none

/-- The critical section of `Dispatcher::new_from_waker`. -/
def attachSlot (ready : Ready) (addr : Addr) (slot : Slot) : Except Violation Slot :=
  if ready.readable then
    if slot.readableDispatcher = none then .ok { slot with readableDispatcher := some addr }
    else .error .assertFailed
  else if ready.writable then
    if slot.writableDispatcher = none then .ok { slot with writableDispatcher := some addr }
    else .error .assertFailed
  else .error .unreachable

def delSlot (addr : Addr) (slot : Slot) : Except Violation Slot :=
  if slot.readableDispatcher = some addr then .ok { slot with readableDispatcher := none }
  else if slot.writableDispatcher = some addr then .ok { slot with writableDispatcher := none }
  else .error .unreachable

/-- `get_unchecked_mut` of the cell's slot, and what is done to it. -/
def withSlot (s : State) (cell : CellId) (change : Slot → Except Violation Slot)
    (done : Cell) : State :=
  match s.slab (s.cells cell).place with
  | none => s.violate .uncheckedSlot
  | some slot =>
      match change slot with
      | .error violation => s.violate violation
      | .ok changed => (s.setSlot (s.cells cell).place (some changed)).setCell cell done

def attach (s : State) (cell : CellId) (side : Side) : Option State :=
  match (s.cells cell).handle side with
  | .allocated addr =>
      if s.unlocked cell = true then
        some (withSlot s cell (attachSlot side.ready addr)
          ((s.cells cell).setHandle side (.attached addr)))
      else none
  | _ => none

def del (s : State) (cell : CellId) (side : Side) : Option State :=
  match (s.cells cell).handle side with
  | .attached addr =>
      if s.unlocked cell = true then
        some (withSlot s cell (delSlot addr) ((s.cells cell).setHandle side (.cleared addr)))
      else none
  | _ => none

/-- `do_drop` at the end of `Dispatcher::del`. -/
def free (s : State) (cell : CellId) (side : Side) : Option State :=
  match (s.cells cell).handle side with
  | .cleared addr =>
      some ((s.setAllocated addr false).setCell cell ((s.cells cell).setHandle side .free))
  | _ => none

/-! ### The end of a cell -/

def dropHandle (s : State) (cell : CellId) (side : Side) : Option State :=
  if (s.cells cell).handle side = .free then
    some (s.setCell cell
      { (s.cells cell).setHandle side .absent with
        strong := (s.cells cell).strong - 1
        phase := if (s.cells cell).strong = 1 then .dropping else (s.cells cell).phase })
  else none

def deregister (s : State) (cell : CellId) : Option State :=
  if (s.cells cell).phase = .dropping then
    some (s.setCell cell { s.cells cell with phase := .deregistered })
  else none

/-- The critical section of `MIOCell::drop`. -/
def defer (s : State) (cell : CellId) : Option State :=
  if (s.cells cell).phase = .deregistered ∧ s.unlocked cell = true then
    match s.slab (s.cells cell).place with
    | none => some (s.violate .uncheckedSlot)
    | some slot =>
        if slot.readableDispatcher = none ∧ slot.writableDispatcher = none then
          some ((s.setDeferred (s.cells cell).localI
              (s.deferredRemove (s.cells cell).localI ++ [(s.cells cell).key])).setCell cell
            { s.cells cell with phase := .deferred })
        else some (s.violate .assertFailed)
  else none

/-! ### The event loop -/

def check (s : State) (reactor : ReactorId) : Option State :=
  match s.loop reactor with
  | .top => some (s.setLoop reactor (if s.shutdown then .draining true else .calling))
  | _ => none

def poll (s : State) (reactor : ReactorId) : Option State :=
  match s.loop reactor with
  | .calling =>
      some (s.setLoop reactor (.polling (fun cell => (s.cells cell).phase.isDeregistered)))
  | _ => none

/-- What mio may report: a registration made on this reactor, under its token, unless it was
deregistered before the poll. -/
def State.mayReport (s : State) (reactor : ReactorId) (stale : CellId → Bool) (event : Event) :
    Bool :=
  (s.cells event.cell).phase.reports && decide ((s.cells event.cell).place = (reactor, event.key))
    && !(stale event.cell)

def pollReturns (s : State) (reactor : ReactorId) (events : List Event) : Option State :=
  match s.loop reactor with
  | .polling stale =>
      if events.all (s.mayReport reactor stale) = true then
        some (s.setLoop reactor (.returned events))
      else none
  | _ => none

/-- The `unwrap` of the poll's result panics. -/
def pollFails (s : State) (reactor : ReactorId) : Option State :=
  match s.loop reactor with
  | .polling _ => some (s.setLoop reactor .dead)
  | _ => none

def lock (s : State) (reactor : ReactorId) : Option State :=
  match s.loop reactor with
  | .returned events => some (s.setLoop reactor (.processing events))
  | _ => none

def Slot.notified (slot : Slot) (ready : Ready) : List Addr :=
  (if ready.readable then slot.readableDispatcher.toList else []) ++
    (if ready.writable then slot.writableDispatcher.toList else [])

/-- The body of the loop over the events. The pushes in between touch no slot. -/
def process (s : State) (reactor : ReactorId) : Option State :=
  match s.loop reactor with
  | .processing (event :: rest) =>
      match s.slab (reactor, event.key) with
      | none => some (s.violate .uncheckedSlot)
      | some slot =>
          if (slot.notified event.ready).all s.allocated = true then
            some (s.setLoop reactor (.processing rest))
          else some (s.violate .freedDispatcher)
  | _ => none

def unlock (s : State) (reactor : ReactorId) : Option State :=
  match s.loop reactor with
  | .processing [] => some (s.setLoop reactor .pushing)
  | _ => none

def pushBatch (s : State) (reactor : ReactorId) : Option State :=
  match s.loop reactor with
  | .pushing => some (s.setLoop reactor (.draining false))
  | _ => none

def pop (s : State) (reactor : ReactorId) : Option State :=
  match s.loop reactor with
  | .draining final =>
      match (s.deferredRemove reactor).getLast? with
      | some key =>
          some ((s.setDeferred reactor (s.deferredRemove reactor).dropLast).setLoop reactor
            (.removing key final))
      | none => some (s.setLoop reactor (if final then .exited else .top))
  | _ => none

/-- `remove` of the slab panics when the key is vacant. -/
def remove (s : State) (reactor : ReactorId) : Option State :=
  match s.loop reactor with
  | .removing key final =>
      match s.slab (reactor, key) with
      | none => some (s.violate .invalidKey)
      | some slot =>
          some (((s.setSlot (reactor, key) none).setCell slot.owner
            { s.cells slot.owner with removals := (s.cells slot.owner).removals + 1 }).setLoop
              reactor (.draining final))
  | _ => none

def step (n : Nat) (s : State) : Action → Option State
  | .choose cell kind => choose n s cell kind
  | .insert cell key => insert s cell key
  | .register cell => register s cell
  | .registered cell => registered s cell
  | .registerFails cell => registerFails s cell
  | .allocate cell side addr => allocate s cell side addr
  | .attach cell side => attach s cell side
  | .del cell side => del s cell side
  | .free cell side => free s cell side
  | .dropHandle cell side => dropHandle s cell side
  | .deregister cell => deregister s cell
  | .defer cell => defer s cell
  | .setShutdown => some { s with shutdown := true }
  | .check reactor => if reactor < n then check s reactor else none
  | .poll reactor => poll s reactor
  | .pollReturns reactor events => pollReturns s reactor events
  | .pollFails reactor => pollFails s reactor
  | .lock reactor => lock s reactor
  | .process reactor => process s reactor
  | .unlock reactor => unlock s reactor
  | .pushBatch reactor => pushBatch s reactor
  | .pop reactor => pop s reactor
  | .remove reactor => remove s reactor

/-- `n` reactors; those from `n` on never start. -/
def system (n : Nat) : System State Action :=
  { initial := fun s => s = State.init
    step := step n }

end Yaay.Net.Reactor
