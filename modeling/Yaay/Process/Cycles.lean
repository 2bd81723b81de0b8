import Mathlib.Tactic.Ring
import Mathlib.Tactic.Simps.Basic
import Yaay.Transition

set_option autoImplicit false

/-! One process that calls `run_with` again and again, with `mio_spawn_event_loop` as
its `on_start` and `mio_shutdown` as its `on_shutdown`. The statics of both crates
outlive a cycle; everything else belongs to the cycle that made it. What a turn of the
event loop does to the slots is left out: an event is the task that it wakes. -/

namespace Yaay.Process

open Yaay.Transition

structure Config where
  workers : Nat → Nat
  reactors : Nat → Nat
  workers_pos : ∀ cycle, 0 < workers cycle
  reactors_pos : ∀ cycle, 0 < reactors cycle

/-- A `LocalData` of `yaay-mio`, by the reactor thread that built it. It is never freed. -/
structure LocalData where
  cycle : Nat
  tid : Nat
  deriving DecidableEq

/-- `GlobalData`, whose pointers may be null. -/
structure GlobalData where
  locals : List (Option LocalData)
  counter : Nat
  deriving DecidableEq

/-- `MIOCell`, with the cycle it was created in, whether the `on_start` of that cycle had
published its `GlobalData` by then, and the `LocalData` it was registered at. -/
structure MIOCell where
  cycle : Nat
  started : Bool
  home : Option LocalData
  localI : Nat
  deriving DecidableEq

/-- What is allocated of the runtime of one cycle. -/
structure Memory where
  shared : Bool
  epoch : Bool
  workers : Nat → Bool

/-- A reactor thread in the closure that `GlobalData::build` spawns. `dispatch` counts
the events that are done and those that are left; `faulted` has followed a null or freed
pointer, or failed the assertion of `BatchGuard::new`. -/
inductive ReactorPc
  | absent
  | build
  | store
  | parked
  | relock
  | notify
  | batchGuard
  | loopTest
  | poll
  | dispatch (done left : Nat)
  | pushBatch
  | deferredRemove
  | drain
  | dropGuard
  | finished
  | faulted
  deriving DecidableEq

/-- The main thread in `run_with` and in the hooks: `start` is `WorkerManager::new` to
`wait`, `spawn` to `storeGlobal` are `GlobalData::build`, `setShutdown` and
`joinReactors` are `mio_shutdown`, `freeWorker` to `clearGlobal` are
`WorkerGuard::drop`. -/
inductive MainPc
  | start
  | spawn (tid : Nat)
  | check
  | parked
  | collect
  | storeGlobal (locals : List (Option LocalData))
  | run
  | joinWorkers
  | setShutdown
  | joinReactors (tid : Nat)
  | freeWorker (worker : Nat)
  | dropTasks
  | freeEpoch
  | freeShared
  | clearGlobal
  | exit
  deriving DecidableEq

def MainPc.published : MainPc → Prop
  | .start | .spawn _ | .check | .parked | .collect | .storeGlobal _ => False
  | .run | .joinWorkers | .setShutdown | .joinReactors _ | .freeWorker _ | .dropTasks
  | .freeEpoch | .freeShared | .clearGlobal | .exit => True

instance : DecidablePred MainPc.published
  | .start | .spawn _ | .check | .parked | .collect | .storeGlobal _ => isFalse id
  | .run | .joinWorkers | .setShutdown | .joinReactors _ | .freeWorker _ | .dropTasks
  | .freeEpoch | .freeShared | .clearGlobal | .exit => isTrue trivial

/-- `localPtr` and `batch` are the thread locals `LOCAL` of `yaay-mio` and of the runtime;
a batch is given by the lengths of its task lists. -/
structure Reactor where
  pc : ReactorPc
  localPtr : Option LocalData
  batch : Option (List Nat)

/-- `global`, `mioGlobal` and `shutdown` are the statics. `ptrs` is the array that the
reactors of a cycle fill, `returned` counts the workers of the present cycle that have
left their main loop, and `born` says that a task has been created. -/
structure State (cfg : Config) where
  cycle : Nat
  main : MainPc
  global : Option Nat
  memory : Nat → Memory
  mioGlobal : Option GlobalData
  shutdown : Bool
  reactor : Nat → Nat → Reactor
  ptrs : Nat → List (Option LocalData)
  returned : Nat
  born : Bool
  cells : List MIOCell

/-- A reactor's step is told how many events its `poll` returns, and for an event the
worker whose task it wakes. `newCell` is a thread that registers with a reactor: a
worker in a task, or a thread that a task has started and that may outlive its cycle. -/
inductive Action
  | main
  | wakeMain
  | reactor (cycle tid : Nat) (events : Nat) (woken : Option Nat)
  | wakeReactor (cycle tid : Nat)
  | workerReturns
  | newCell

variable {cfg : Config}

@[simps] def State.setMain (s : State cfg) (main : MainPc) : State cfg := { s with main := main }

@[simps] def State.setReactor (s : State cfg) (cycle tid : Nat) (reactor : Reactor) :
    State cfg :=
  { s with reactor :=
      Function.update s.reactor cycle (Function.update (s.reactor cycle) tid reactor) }

@[simps] def State.setPtrs (s : State cfg) (cycle : Nat) (ptrs : List (Option LocalData)) :
    State cfg :=
  { s with ptrs := Function.update s.ptrs cycle ptrs }

@[simps] def State.setMemory (s : State cfg) (cycle : Nat) (memory : Memory) : State cfg :=
  { s with memory := Function.update s.memory cycle memory }

def State.init (cfg : Config) : State cfg :=
  { cycle := 0, main := .start, global := none
    memory := fun _ => { shared := false, epoch := false, workers := fun _ => false }
    mioGlobal := none, shutdown := false
    reactor := fun _ _ => { pc := .absent, localPtr := none, batch := none }
    ptrs := fun cycle => List.replicate (cfg.reactors cycle) none
    returned := 0, born := false, cells := [] }

/-! ### `RuntimeSharedData` and `BatchGuard` -/

/-- `RuntimeSharedData::get`: the cycle whose data the pointer leads to, if it leads
anywhere. -/
def State.shared (s : State cfg) : Option Nat :=
  s.global.filter (fun cycle => (s.memory cycle).shared)

def State.newBatch (s : State cfg) : Option (List Nat) :=
  s.shared.map (fun cycle => List.replicate (cfg.workers cycle) 0)

/-- `push_batch` moves every list that is not empty to its worker, and calls `next_epoch`
if there was one. -/
def State.pushBatch (s : State cfg) (lists : List Nat) : Option (List Nat) :=
  match s.shared with
  | none => none
  | some cycle =>
      if (∀ worker ∈ List.range lists.length,
            lists.getD worker 0 = 0 ∨ (s.memory cycle).workers worker = true) ∧
          ((∀ tasks ∈ lists, tasks = 0) ∨ (s.memory cycle).epoch = true) then
        some (lists.map (fun _ => 0))
      else none

/-- One event: every 128th is preceded by a `push_batch`, and a task that it wakes is
pushed to the list of its worker. -/
def State.dispatch (s : State cfg) (lists : List Nat) (k : Nat) (woken : Option Nat) :
    Option (List Nat) :=
  match if (k + 1) % 128 = 0 then s.pushBatch lists else some lists with
  | none => none
  | some pushed =>
      match woken with
      | none => some pushed
      | some worker =>
          if worker < pushed.length then some (pushed.modify worker (· + 1)) else none

/-! ### The reactor threads -/

/-- `guard.iter().all(|x| !x.is_null())`. -/
def allBuilt (ptrs : List (Option LocalData)) : Bool := ptrs.all (·.isSome)

def Reactor.setPc (r : Reactor) (pc : ReactorPc) : Reactor := { r with pc := pc }

def Reactor.setBatch (r : Reactor) (pc : ReactorPc) (batch : Option (List Nat)) : Reactor :=
  { r with pc := pc, batch := batch }

def Reactor.woken (r : Reactor) : Reactor :=
  match r.pc with
  | .parked => r.setPc .relock
  | _ => r

/-- `cond.notify_all()`; a main thread that is woken tests the array again. -/
@[simps] def State.notifyAll (s : State cfg) (cycle : Nat) : State cfg :=
  { s with
    main := if s.cycle = cycle ∧ s.main = .parked then .check else s.main
    reactor := Function.update s.reactor cycle (fun tid => (s.reactor cycle tid).woken) }

/-- `BatchGuard::new`, which asserts that the thread local is null. -/
def State.batchGuard (s : State cfg) (r : Reactor) : Reactor :=
  match s.newBatch, r.batch with
  | some lists, none => r.setBatch .loopTest (some lists)
  | _, _ => r.setPc .faulted

/-- `RT::push_batch(&batch)` behind the events. -/
def State.pushTurn (s : State cfg) (r : Reactor) : Reactor :=
  match r.batch.bind s.pushBatch with
  | some lists => r.setBatch .deferredRemove (some lists)
  | none => r.setPc .faulted

def State.dropGuard (s : State cfg) (r : Reactor) : Reactor :=
  match r.batch.bind s.pushBatch with
  | some _ => r.setBatch .finished none
  | none => r.setPc .faulted

def State.dispatchOne (s : State cfg) (r : Reactor) (k left : Nat) (woken : Option Nat) :
    Reactor :=
  match r.batch.bind (fun lists => s.dispatch lists k woken) with
  | some lists => r.setBatch (.dispatch (k + 1) left) (some lists)
  | none => r.setPc .faulted

/-- The ids of the workers whose tasks wake are those of the cycle's workers. -/
def reactor (s : State cfg) (cycle tid events : Nat) (woken : Option Nat) :
    Option (State cfg) :=
  match (s.reactor cycle tid).pc with
  | .absent | .parked | .finished | .faulted => none
  | .build =>
      some (s.setReactor cycle tid { s.reactor cycle tid with
        pc := .store
        localPtr := some ⟨cycle, tid⟩ })
  | .store =>
      some ((s.setPtrs cycle ((s.ptrs cycle).set tid (s.reactor cycle tid).localPtr)).setReactor
        cycle tid ((s.reactor cycle tid).setPc
          (if allBuilt ((s.ptrs cycle).set tid (s.reactor cycle tid).localPtr) then .notify
            else .parked)))
  | .relock =>
      some (s.setReactor cycle tid ((s.reactor cycle tid).setPc
        (if allBuilt (s.ptrs cycle) then .notify else .parked)))
  | .notify =>
      some ((s.notifyAll cycle).setReactor cycle tid
        ((s.reactor cycle tid).setPc .batchGuard))
  | .batchGuard => some (s.setReactor cycle tid (s.batchGuard (s.reactor cycle tid)))
  | .loopTest =>
      some (s.setReactor cycle tid ((s.reactor cycle tid).setPc
        (if s.shutdown then .drain else .poll)))
  | .poll => some (s.setReactor cycle tid ((s.reactor cycle tid).setPc (.dispatch 0 events)))
  | .dispatch _ 0 => some (s.setReactor cycle tid ((s.reactor cycle tid).setPc .pushBatch))
  | .dispatch k (left + 1) =>
      if ∀ worker ∈ woken, worker < cfg.workers cycle then
        some (s.setReactor cycle tid (s.dispatchOne (s.reactor cycle tid) k left woken))
      else none
  | .pushBatch => some (s.setReactor cycle tid (s.pushTurn (s.reactor cycle tid)))
  | .deferredRemove => some (s.setReactor cycle tid ((s.reactor cycle tid).setPc .loopTest))
  | .drain => some (s.setReactor cycle tid ((s.reactor cycle tid).setPc .dropGuard))
  | .dropGuard => some (s.setReactor cycle tid (s.dropGuard (s.reactor cycle tid)))

def wakeReactor (s : State cfg) (cycle tid : Nat) : Option (State cfg) :=
  if (s.reactor cycle tid).pc = .parked then
    some (s.setReactor cycle tid ((s.reactor cycle tid).setPc .relock))
  else none

/-! ### The main thread and the tasks -/

def State.getI (s : State cfg) (i : Nat) : Option LocalData :=
  s.mioGlobal.bind (fun data => data.locals.getD i none)

def ReactorPc.ended : ReactorPc → Bool
  | .finished | .faulted => true
  | _ => false

/-- The next step of the main thread. Every `run_with` but the last is followed by
another. -/
def main (s : State cfg) : Option (State cfg) :=
  match s.main with
  | .start =>
      some { (s.setMain (.spawn 0)).setMemory s.cycle
          { shared := true, epoch := true, workers := fun w => w < cfg.workers s.cycle } with
        global := some s.cycle
        returned := 0 }
  | .spawn tid =>
      if tid < cfg.reactors s.cycle then
        some ((s.setMain (.spawn (tid + 1))).setReactor s.cycle tid
          { pc := .build, localPtr := none, batch := none })
      else some (s.setMain .check)
  | .check => some (s.setMain (if allBuilt (s.ptrs s.cycle) then .collect else .parked))
  | .parked => none
  | .collect => some (s.setMain (.storeGlobal (s.ptrs s.cycle)))
  | .storeGlobal locals =>
      some { s.setMain .run with mioGlobal := some { locals := locals, counter := 0 } }
  | .run => some { s.setMain .joinWorkers with born := true }
  | .joinWorkers =>
      if s.returned = cfg.workers s.cycle then some (s.setMain .setShutdown) else none
  | .setShutdown => some { s.setMain (.joinReactors 0) with shutdown := true }
  | .joinReactors tid =>
      if tid < cfg.reactors s.cycle then
        if (s.reactor s.cycle tid).pc.ended then some (s.setMain (.joinReactors (tid + 1)))
        else none
      else some (s.setMain (.freeWorker 0))
  | .freeWorker worker =>
      if worker < cfg.workers s.cycle then
        some ((s.setMain (.freeWorker (worker + 1))).setMemory s.cycle
          { s.memory s.cycle with
            workers := Function.update (s.memory s.cycle).workers worker false })
      else some (s.setMain .dropTasks)
  | .dropTasks => some (s.setMain .freeEpoch)
  | .freeEpoch =>
      some ((s.setMain .freeShared).setMemory s.cycle { s.memory s.cycle with epoch := false })
  | .freeShared =>
      some ((s.setMain .clearGlobal).setMemory s.cycle
        { s.memory s.cycle with shared := false })
  | .clearGlobal => some { s.setMain .exit with global := none }
  | .exit => some { s.setMain .start with cycle := s.cycle + 1 }

def wakeMain (s : State cfg) : Option (State cfg) :=
  if s.main = .parked then some (s.setMain .check) else none

def workerReturns (s : State cfg) : Option (State cfg) :=
  if s.born = true ∧ s.returned < cfg.workers s.cycle then
    some { s with returned := s.returned + 1 }
  else none

/-- `MIOHandle::new_r`, `new_w` or `new_rw`. -/
def newCell (s : State cfg) : Option (State cfg) :=
  if s.born = true then
    match s.mioGlobal with
    | none => none
    | some data =>
        if data.locals.length = 0 then none
        else
          some { s with
            mioGlobal := some { data with counter := (data.counter + 1) % 2 ^ 64 }
            cells :=
              { cycle := s.cycle
                started := decide s.main.published
                home := s.getI (data.counter % data.locals.length)
                localI := data.counter % data.locals.length } :: s.cells }
  else none

def step (s : State cfg) : Action → Option (State cfg)
  | .main => main s
  | .wakeMain => wakeMain s
  | .reactor cycle tid events woken => reactor s cycle tid events woken
  | .wakeReactor cycle tid => wakeReactor s cycle tid
  | .workerReturns => workerReturns s
  | .newCell => newCell s

def system (cfg : Config) : System (State cfg) Action :=
  { initial := fun s => s = State.init cfg
    step := step }

end Yaay.Process
