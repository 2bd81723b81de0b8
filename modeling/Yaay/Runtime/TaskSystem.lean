import Mathlib.Tactic.Simps.Basic
import Yaay.Runtime.Task
import Yaay.Transition

set_option autoImplicit false

/-! The tasks of one runtime under arbitrary threads. Every atomic operation of
`Task::wake`, `Task::poll`, `Task::drop_in_place`, `rc_inc` and `rc_dec`, every
locked list operation, every call and return of a future's poll or destructor
and every step of `WorkerGuard::drop` is one action. The list of a `TaskList`
stands for the nodes from head to tail. -/

namespace Yaay.TaskSystem

open Yaay.Transition

abbrev TaskRef := Nat

abbrev WorkerId := Nat

/-- `main` is the thread that called `run_with` and drops the `WorkerGuard`. -/
structure Config where
  workers : Nat
  threads : Nat
  main : Fin threads

/-- The header fields that the task operations read and write. -/
structure Task where
  status : BitVec 8
  rc : Nat
  workerId : WorkerId

/-- What has happened to a task so far. No operation of the source reads it:
`woken` says that a wake's `fetch_or` followed the latest start of the poll,
`wakers` names the live owned wakers, `released` the runtime's reference. -/
structure History where
  created : Bool := false
  woken : Bool := false
  ready : Bool := false
  drops : Nat := 0
  released : Bool := false
  deallocs : Nat := 0
  wakers : List Nat := []

/-- The thread local slot of `shared.rs`, tagged with who stored it. -/
inductive Local
  | null
  | worker (worker : WorkerId)
  | runtimeLocal
  deriving DecidableEq

/-- A worker's queue, one entry of a batch's `task_lists`, or the list that
`WorkerGuard::drop` gathers. -/
inductive ListId (cfg : Config)
  | queue (worker : WorkerId)
  | batch (thread : Fin cfg.threads) (worker : WorkerId)
  | teardown
  deriving DecidableEq

/-- Where a thread is between taking a task off a list and letting it go. -/
inductive Frame
  | idle
  | stolen (task : TaskRef)
  | popped (task : TaskRef)
  | cleared (task : TaskRef)
  | polling (task : TaskRef)
  | pending (task : TaskRef) (prev : BitVec 8)
  | ready (task : TaskRef)
  | retiring (task : TaskRef) (teardown : Bool)
  | dropping (task : TaskRef) (teardown : Bool)
  | releasing (task : TaskRef)
  | deallocating (task : TaskRef) (unwound : Bool)
  | tearing (task : TaskRef)
  | dropInPlace (task : TaskRef)
  | checkRc (task : TaskRef)
  | unwinding (task : TaskRef)
  | dead

/-- The waker a wake is invoked through: the one lent to a running poll, a
borrowed owned waker, or an owned waker given up by the call. -/
inductive Via (cfg : Config)
  | lent (worker : Fin cfg.threads)
  | byRef (waker : Nat)
  | byValue (waker : Nat)

/-- Who calls `Task::new`: `WorkerGuard::run`, `MTRuntime::spawn`, `defer` and
`shutdown_async`, or `Shutdown::poll`. -/
inductive Maker
  | run
  | spawn
  | defer
  | shutdownAsync
  | shutdown
  deriving DecidableEq

/-- The runtime function that the thread's user code is inside of. -/
inductive Call (cfg : Config)
  | none
  | placing (task : TaskRef) (worker : WorkerId) (front : Bool) (maker : Maker)
  | wake (task : TaskRef) (via : Via cfg)
  | push (task : TaskRef) (via : Via cfg)
  | nextEpoch (task : TaskRef) (via : Via cfg)
  | rcDec (task : TaskRef) (waker : Nat)
  | dealloc (task : TaskRef)
  | pushBatch (worker : WorkerId) (moved : Bool) (closing : Bool)

inductive Stage
  | running
  | collecting (worker : WorkerId)
  | freeing (worker : WorkerId)
  | draining
  | finished
  deriving DecidableEq

/-- `worker` tells which `WorkerBuilder` has been built on the thread, which is since in that
worker's `main_loop`, and `guarded` whether a `BatchGuard` made on it is still alive. -/
structure State (cfg : Config) where
  tasks : TaskRef → Task
  history : TaskRef → History
  lists : ListId cfg → List TaskRef
  slot : Fin cfg.threads → Local
  worker : Fin cfg.threads → Option WorkerId
  guarded : Fin cfg.threads → Bool
  frame : Fin cfg.threads → Frame
  call : Fin cfg.threads → Call cfg
  stage : Stage
  epochs : Nat

inductive Action (cfg : Config)
  | build (thread : Fin cfg.threads) (worker : WorkerId)
  | batchNew (thread : Fin cfg.threads)
  | pushBatch (thread guard : Fin cfg.threads) (closing : Bool)
  | pushBatchNext (thread : Fin cfg.threads)
  | create (thread : Fin cfg.threads) (task : TaskRef) (worker : WorkerId) (front : Bool)
      (maker : Maker)
  | place (thread : Fin cfg.threads)
  | rngGen (thread : Fin cfg.threads)
  | shutdownPoll (thread : Fin cfg.threads)
  | pop (thread : Fin cfg.threads) (worker : WorkerId)
  | setWorkerId (thread : Fin cfg.threads)
  | clearNotified (thread : Fin cfg.threads)
  | callPoll (thread : Fin cfg.threads)
  | pollReturn (thread : Fin cfg.threads) (ready : Bool)
  | pollPanic (thread : Fin cfg.threads)
  | compareExchangeWeak (thread : Fin cfg.threads) (spurious : Bool)
  | setDropped (thread : Fin cfg.threads)
  | callDropInPlace (thread : Fin cfg.threads)
  | dropReturn (thread : Fin cfg.threads)
  | release (thread : Fin cfg.threads)
  | fnDealloc (thread : Fin cfg.threads)
  | unwind (thread : Fin cfg.threads)
  | cloneWaker (thread : Fin cfg.threads) (task : TaskRef) (via : Via cfg) (fresh : Nat)
  | wake (thread : Fin cfg.threads) (task : TaskRef) (via : Via cfg)
  | wakeFetchOr (thread : Fin cfg.threads)
  | wakePush (thread : Fin cfg.threads) (misread : ListId cfg)
  | wakeNextEpoch (thread : Fin cfg.threads)
  | dropWaker (thread : Fin cfg.threads) (task : TaskRef) (waker : Nat)
  | rcDec (thread : Fin cfg.threads)
  | callDealloc (thread : Fin cfg.threads)
  | teardown
  | collect
  | freeWorker
  | teardownPop
  | assertRc
  | dropTask
  | checkRc

def Action.thread {cfg : Config} : Action cfg → Fin cfg.threads
  | .build thread _ | .batchNew thread | .pushBatch thread _ _
  | .pushBatchNext thread | .create thread _ _ _ _ | .place thread | .rngGen thread
  | .shutdownPoll thread | .pop thread _ | .setWorkerId thread
  | .clearNotified thread | .callPoll thread | .pollReturn thread _ | .pollPanic thread
  | .compareExchangeWeak thread _ | .setDropped thread | .callDropInPlace thread
  | .dropReturn thread | .release thread | .fnDealloc thread | .unwind thread
  | .cloneWaker thread _ _ _ | .wake thread _ _ | .wakeFetchOr thread
  | .wakePush thread _ | .wakeNextEpoch thread | .dropWaker thread _ _ | .rcDec thread
  | .callDealloc thread => thread
  | .teardown | .collect | .freeWorker | .teardownPop | .assertRc | .dropTask
  | .checkRc => cfg.main

/-- User code of the thread is running: outside every poll, in one, or in a
future's destructor. -/
def Frame.userCode : Frame → Bool
  | .idle | .polling _ | .dropping _ _ => true
  | _ => false

def Call.uses {cfg : Config} (task : TaskRef) (waker : Nat) : Call cfg → Bool
  | .wake held (.byRef name) | .push held (.byRef name) | .nextEpoch held (.byRef name)
  | .wake held (.byValue name) | .push held (.byValue name)
  | .nextEpoch held (.byValue name) | .rcDec held name => held == task && name == waker
  | _ => false

def Call.consumes {cfg : Config} (task : TaskRef) (waker : Nat) : Call cfg → Bool
  | .wake held (.byValue name) | .push held (.byValue name)
  | .nextEpoch held (.byValue name) | .rcDec held name => held == task && name == waker
  | _ => false

def Call.lentBy {cfg : Config} (task : TaskRef) (worker : Fin cfg.threads) :
    Call cfg → Bool
  | .wake held (.lent lender) | .push held (.lent lender)
  | .nextEpoch held (.lent lender) => held == task && lender == worker
  | _ => false

def Frame.polls (task : TaskRef) : Frame → Bool
  | .polling held => held == task
  | _ => false

variable {cfg : Config}

/-! ### State updates -/

@[simps] def State.setFrame (s : State cfg) (thread : Fin cfg.threads) (frame : Frame) :
    State cfg :=
  { s with frame := Function.update s.frame thread frame }

@[simps] def State.setCall (s : State cfg) (thread : Fin cfg.threads) (call : Call cfg) :
    State cfg :=
  { s with call := Function.update s.call thread call }

@[simps] def State.setSlot (s : State cfg) (thread : Fin cfg.threads) (slot : Local) :
    State cfg :=
  { s with slot := Function.update s.slot thread slot }

@[simps] def State.setList (s : State cfg) (list : ListId cfg) (tasks : List TaskRef) :
    State cfg :=
  { s with lists := Function.update s.lists list tasks }

@[simps] def State.setTask (s : State cfg) (task : TaskRef) (header : Task) : State cfg :=
  { s with tasks := Function.update s.tasks task header }

@[simps] def State.record (s : State cfg) (task : TaskRef) (history : History) :
    State cfg :=
  { s with history := Function.update s.history task history }

abbrev State.setStatus (s : State cfg) (task : TaskRef) (status : BitVec 8) :
    State cfg :=
  s.setTask task { s.tasks task with status := status }

def State.init (cfg : Config) : State cfg :=
  { tasks := fun _ => { status := 0, rc := 0, workerId := 0 }
    history := fun _ => {}
    lists := fun _ => []
    slot := fun _ => .null
    worker := fun _ => none
    guarded := fun _ => false
    frame := fun _ => .idle
    call := fun _ => .none
    stage := .running
    epochs := 0 }

/-! ### `LOCAL` and `BatchGuard` -/

def Frame.isIdle : Frame → Bool
  | .idle | .dead => true
  | _ => false

def Call.isNone : Call cfg → Bool
  | .none => true
  | _ => false

/-- `WorkerBuilder::build` on a spawned thread that has done nothing else, and behind it
`Worker::get().main_loop()`. Builders have distinct ids. -/
def build (s : State cfg) (thread : Fin cfg.threads) (worker : WorkerId) :
    Option (State cfg) :=
  if (s.frame thread).isIdle ∧ (s.call thread).isNone ∧ s.guarded thread = false ∧
      s.worker thread = none ∧ worker < cfg.workers ∧
      (∀ other, s.worker other ≠ some worker) ∧ s.stage = .running then
    some { s.setSlot thread (.worker worker) with
      worker := Function.update s.worker thread (some worker) }
  else none

/-- `BatchGuard::new`, which asserts that the slot is null. -/
def batchNew (s : State cfg) (thread : Fin cfg.threads) : Option (State cfg) :=
  if s.slot thread = .null then
    some { s.setSlot thread .runtimeLocal with
      guarded := Function.update s.guarded thread true }
  else none

/-- Entry of `push_batch` with the guard that was made on the thread `guard`, also from the
drop of that guard (`closing`). The slot is read unchecked. -/
def pushBatch (s : State cfg) (thread guard : Fin cfg.threads) (closing : Bool) :
    Option (State cfg) :=
  match s.call thread with
  | .none =>
      if s.guarded guard ∧ (s.frame thread).userCode then
        some { s.setCall thread (.pushBatch 0 false closing) with
          guarded := if closing then Function.update s.guarded guard false else s.guarded }
      else none
  | _ => none

/-- `push_batch` behind its loop: `next_epoch` runs if anything was moved, and a closing
guard clears the slot. -/
@[simps] def State.batched (s : State cfg) (thread : Fin cfg.threads) (moved closing : Bool) :
    State cfg :=
  { s with
    call := Function.update s.call thread .none
    slot := if closing then Function.update s.slot thread .null else s.slot
    epochs := if moved then s.epochs + 1 else s.epochs }

/-- One round of the loop over `task_lists`, or its end. A null pointer cannot be read; the
lists of a `Worker` that is taken for a `RuntimeLocalData` are no lists of the model. -/
def pushBatchNext (s : State cfg) (thread : Fin cfg.threads) : Option (State cfg) :=
  match s.call thread, s.slot thread with
  | .pushBatch worker moved closing, .runtimeLocal =>
      if worker < cfg.workers then
        match s.lists (.batch thread worker) with
        | [] => some (s.setCall thread (.pushBatch (worker + 1) moved closing))
        | task :: rest =>
            some (((s.setList (.batch thread worker) []).setList (.queue worker)
              (s.lists (.queue worker) ++ task :: rest)).setCall thread
                (.pushBatch (worker + 1) true closing))
      else some (s.batched thread moved closing)
  | .pushBatch _ moved closing, .worker _ => some (s.batched thread moved closing)
  | _, _ => none

/-! ### Creation and the worker queues -/

/-- `Task::new`; the creating thread goes on to push the task. -/
def create (s : State cfg) (thread : Fin cfg.threads) (task : TaskRef)
    (worker : WorkerId) (front : Bool) (maker : Maker) : Option (State cfg) :=
  match s.call thread with
  | .none =>
      if (s.history task).created = false ∧ (s.frame thread).userCode ∧
          worker < cfg.workers then
        some (((s.setTask task
          { status := Task.initialStatus, rc := 1, workerId := 0 }).record task
            { s.history task with created := true }).setCall thread
              (.placing task worker front maker))
      else none
  | _ => none

/-- The push behind `Task::new`. `spawn` and `defer` call `Worker::get` for it; where that is
no `Worker`, the queue is whatever the misread bytes name. -/
def place (s : State cfg) (thread : Fin cfg.threads) : Option (State cfg) :=
  match s.call thread with
  | .placing task worker front _ =>
      some ((s.setList (.queue worker)
        (if front then task :: s.lists (.queue worker)
          else s.lists (.queue worker) ++ [task])).setCall thread .none)
  | _ => none

/-- `MTRuntime::rng_gen`; the seed that it advances is the scheduler's. -/
def rngGen (s : State cfg) (thread : Fin cfg.threads) : Option (State cfg) :=
  if (s.frame thread).userCode ∧ (s.call thread).isNone then some s else none

/-- `Shutdown::poll` gets its thread's worker, whose flag is the scheduler's. -/
def shutdownPoll (s : State cfg) (thread : Fin cfg.threads) : Option (State cfg) :=
  match s.frame thread, s.call thread with
  | .polling _, .none => some s
  | _, _ => none

/-- `pop_front` on the worker's own queue, or on a victim's in `try_steal`. -/
def pop (s : State cfg) (thread : Fin cfg.threads) (worker : WorkerId) :
    Option (State cfg) :=
  match s.worker thread, s.frame thread, s.call thread, s.lists (.queue worker) with
  | some own, .idle, .none, task :: rest =>
      if s.stage = .running then
        some ((s.setList (.queue worker) rest).setFrame thread
          (if worker = own then .popped task else .stolen task))
      else none
  | _, _, _, _ => none

def setWorkerId (s : State cfg) (thread : Fin cfg.threads) : Option (State cfg) :=
  match s.worker thread, s.frame thread with
  | some own, .stolen task =>
      some ((s.setTask task { s.tasks task with workerId := own }).setFrame thread
        (.popped task))
  | _, _ => none

/-! ### `Task::poll` -/

def clearNotified (s : State cfg) (thread : Fin cfg.threads) : Option (State cfg) :=
  match s.frame thread with
  | .popped task =>
      some ((s.setStatus task (Task.clearNotified (s.tasks task).status)).setFrame thread
        (.cleared task))
  | _ => none

def callPoll (s : State cfg) (thread : Fin cfg.threads) : Option (State cfg) :=
  match s.frame thread with
  | .cleared task =>
      some ((s.record task { s.history task with woken := false }).setFrame thread
        (.polling task))
  | _ => none

/-- The future's poll returns; the waker it was lent is no longer borrowed. -/
def pollReturn (s : State cfg) (thread : Fin cfg.threads) (ready : Bool) :
    Option (State cfg) :=
  match s.frame thread, s.call thread with
  | .polling task, .none =>
      if ∀ other, (s.call other).lentBy task thread = false then
        if ready then
          some ((s.record task { s.history task with ready := true }).setFrame thread
            (.ready task))
        else some (s.setFrame thread (.pending task Task.muted))
      else none
  | _, _ => none

def pollPanic (s : State cfg) (thread : Fin cfg.threads) : Option (State cfg) :=
  match s.frame thread, s.call thread with
  | .polling task, .none =>
      if ∀ other, (s.call other).lentBy task thread = false then
        some (s.setFrame thread (.unwinding task))
      else none
  | _, _ => none

/-- One round of the `'cas` loop after a pending poll. -/
def compareExchangeWeak (s : State cfg) (thread : Fin cfg.threads) (spurious : Bool) :
    Option (State cfg) :=
  match s.frame thread with
  | .pending task prev =>
      if (s.tasks task).status = prev ∧ spurious = false then
        if prev = Task.muted then
          some ((s.setStatus task 0).setFrame thread .idle)
        else some ((s.setStatus task Task.muted).setFrame thread (.cleared task))
      else some (s.setFrame thread (.pending task (s.tasks task).status))
  | _ => none

def setDropped (s : State cfg) (thread : Fin cfg.threads) : Option (State cfg) :=
  match s.frame thread with
  | .ready task =>
      some ((s.setStatus task (Task.setDropped (s.tasks task).status)).setFrame thread
        (.retiring task false))
  | _ => none

def callDropInPlace (s : State cfg) (thread : Fin cfg.threads) : Option (State cfg) :=
  match s.frame thread with
  | .retiring task teardown =>
      some ((s.record task
        { s.history task with drops := (s.history task).drops + 1 }).setFrame thread
          (.dropping task teardown))
  | _ => none

def dropReturn (s : State cfg) (thread : Fin cfg.threads) : Option (State cfg) :=
  match s.frame thread, s.call thread with
  | .dropping task teardown, .none =>
      some (s.setFrame thread (if teardown then .checkRc task else .releasing task))
  | _, _ => none

/-- The `fetch_sub` of the `rc_dec` by which the runtime gives up its reference. -/
def release (s : State cfg) (thread : Fin cfg.threads) : Option (State cfg) :=
  match s.frame thread with
  | .releasing task =>
      some (((s.setTask task { s.tasks task with rc := (s.tasks task).rc - 1 }).record task
        { s.history task with released := true }).setFrame thread
          (if (s.tasks task).rc = 1 then .deallocating task false else .idle))
  | _ => none

def fnDealloc (s : State cfg) (thread : Fin cfg.threads) : Option (State cfg) :=
  match s.frame thread with
  | .deallocating task unwound =>
      some ((s.record task
        { s.history task with deallocs := (s.history task).deallocs + 1 }).setFrame thread
          (if unwound then .dead else .idle))
  | _ => none

/-- Unwinding drops the local `waker`, whose `fn_drop` is an `rc_dec`. -/
def unwind (s : State cfg) (thread : Fin cfg.threads) : Option (State cfg) :=
  match s.frame thread with
  | .unwinding task =>
      some ((s.setTask task { s.tasks task with rc := (s.tasks task).rc - 1 }).setFrame thread
        (if (s.tasks task).rc = 1 then .deallocating task true else .dead))
  | _ => none

/-! ### Wakers -/

/-- The waker exists and no call is giving it up; one that is given up must not
be borrowed either. A lent waker lives as long as the poll it was lent to. -/
def State.available (s : State cfg) (task : TaskRef) : Via cfg → Prop
  | .lent worker => (s.frame worker).polls task = true
  | .byRef waker =>
      waker ∈ (s.history task).wakers ∧
        ∀ other, (s.call other).consumes task waker = false
  | .byValue waker =>
      waker ∈ (s.history task).wakers ∧
        ∀ other, (s.call other).uses task waker = false

instance (s : State cfg) (task : TaskRef) :
    (via : Via cfg) → Decidable (s.available task via)
  | .lent _ => inferInstanceAs (Decidable (_ = true))
  | .byRef _ => inferInstanceAs (Decidable (_ ∧ _))
  | .byValue _ => inferInstanceAs (Decidable (_ ∧ _))

def cloneWaker (s : State cfg) (thread : Fin cfg.threads) (task : TaskRef)
    (via : Via cfg) (fresh : Nat) : Option (State cfg) :=
  match s.call thread with
  | .none =>
      if s.available task via ∧ fresh ∉ (s.history task).wakers ∧
          (s.frame thread).userCode then
        some ((s.setTask task { s.tasks task with rc := (s.tasks task).rc + 1 }).record task
          { s.history task with wakers := fresh :: (s.history task).wakers })
      else none
  | _ => none

/-- `fn_wake` or `fn_wake_by_ref` is entered. -/
def wake (s : State cfg) (thread : Fin cfg.threads) (task : TaskRef) (via : Via cfg) :
    Option (State cfg) :=
  match s.call thread with
  | .none =>
      if s.available task via ∧ (s.frame thread).userCode then
        some (s.setCall thread (.wake task via))
      else none
  | _ => none

/-- What is left after `Task::wake`: `fn_wake` goes on with `rc_dec`. -/
def afterWake (task : TaskRef) : Via cfg → Call cfg
  | .byValue waker => .rcDec task waker
  | _ => .none

def wakeFetchOr (s : State cfg) (thread : Fin cfg.threads) : Option (State cfg) :=
  match s.call thread with
  | .wake task via =>
      some (((s.setStatus task (Task.wakeStatus (s.tasks task).status)).record task
        { s.history task with woken := true }).setCall thread
          (if Task.schedules (s.tasks task).status then .push task via
            else afterWake task via))
  | _ => none

/-- The push of `Task::wake`. `RuntimeLocalData::get` takes any pointer that is
not null for a `RuntimeLocalData`, also the `Worker` of a worker thread; the
list it then pushes to is whatever the misread bytes name. -/
def wakePush (s : State cfg) (thread : Fin cfg.threads) (misread : ListId cfg) :
    Option (State cfg) :=
  match s.call thread with
  | .push task via =>
      match s.slot thread with
      | .null =>
          if s.stage = .finished then none
          else
            some ((s.setList (.queue (s.tasks task).workerId)
              (s.lists (.queue (s.tasks task).workerId) ++ [task])).setCall thread
                (.nextEpoch task via))
      | .runtimeLocal =>
          some ((s.setList (.batch thread (s.tasks task).workerId)
            (s.lists (.batch thread (s.tasks task).workerId) ++ [task])).setCall thread
              (afterWake task via))
      | .worker _ =>
          some ((s.setList misread (s.lists misread ++ [task])).setCall thread
            (afterWake task via))
  | _ => none

def wakeNextEpoch (s : State cfg) (thread : Fin cfg.threads) : Option (State cfg) :=
  match s.call thread with
  | .nextEpoch task via =>
      some { s with
        call := Function.update s.call thread (afterWake task via)
        epochs := s.epochs + 1 }
  | _ => none

def dropWaker (s : State cfg) (thread : Fin cfg.threads) (task : TaskRef)
    (waker : Nat) : Option (State cfg) :=
  match s.call thread with
  | .none =>
      if s.available task (.byValue waker) ∧ (s.frame thread).userCode then
        some (s.setCall thread (.rcDec task waker))
      else none
  | _ => none

/-- The `fetch_sub` of the `rc_dec` by which an owned waker ends. -/
def rcDec (s : State cfg) (thread : Fin cfg.threads) : Option (State cfg) :=
  match s.call thread with
  | .rcDec task waker =>
      some (((s.setTask task { s.tasks task with rc := (s.tasks task).rc - 1 }).record task
        { s.history task with
          wakers := (s.history task).wakers.erase waker }).setCall thread
            (if (s.tasks task).rc = 1 then .dealloc task else .none))
  | _ => none

def callDealloc (s : State cfg) (thread : Fin cfg.threads) : Option (State cfg) :=
  match s.call thread with
  | .dealloc task =>
      some ((s.record task
        { s.history task with deallocs := (s.history task).deallocs + 1 }).setCall thread
          .none)
  | _ => none

/-! ### `WorkerGuard::drop` -/

/-- Every worker has been joined, so only the other threads may be inside a call. -/
def teardown (s : State cfg) : Option (State cfg) :=
  if s.stage = .running ∧ (∀ thread, (s.frame thread).isIdle = true) ∧
      (∀ thread, (s.worker thread).isSome = true → (s.call thread).isNone = true) ∧
      (s.call cfg.main).isNone = true then
    some { s with stage := .collecting 0 }
  else none

def collect (s : State cfg) : Option (State cfg) :=
  match s.stage with
  | .collecting worker =>
      if worker < cfg.workers then
        some { (s.setList (.queue worker) []).setList .teardown
          (s.lists .teardown ++ s.lists (.queue worker)) with stage := .freeing worker }
      else some { s with stage := .draining }
  | _ => none

def freeWorker (s : State cfg) : Option (State cfg) :=
  match s.stage with
  | .freeing worker => some { s with stage := .collecting (worker + 1) }
  | _ => none

/-- The iteration over the gathered tasks; after it the epoch, the shared data
and the global pointer go. -/
def teardownPop (s : State cfg) : Option (State cfg) :=
  match s.stage, s.frame cfg.main, s.call cfg.main with
  | .draining, .idle, .none =>
      match s.lists .teardown with
      | [] => some { s with stage := .finished }
      | task :: rest => some ((s.setList .teardown rest).setFrame cfg.main (.tearing task))
  | _, _, _ => none

def assertRc (s : State cfg) : Option (State cfg) :=
  match s.frame cfg.main with
  | .tearing task =>
      if 0 < (s.tasks task).rc then some (s.setFrame cfg.main (.dropInPlace task)) else none
  | _ => none

/-- The `fetch_or` of `Task::drop_in_place`. -/
def dropTask (s : State cfg) : Option (State cfg) :=
  match s.frame cfg.main with
  | .dropInPlace task =>
      some ((s.setStatus task (Task.setDropped (s.tasks task).status)).setFrame cfg.main
        (if Task.undropped (s.tasks task).status then .retiring task true
          else .checkRc task))
  | _ => none

/-- The load before the warning about remaining references. -/
def checkRc (s : State cfg) : Option (State cfg) :=
  match s.frame cfg.main with
  | .checkRc task => some (s.setFrame cfg.main (.releasing task))
  | _ => none

def step (s : State cfg) : Action cfg → Option (State cfg)
  | .build thread worker => build s thread worker
  | .batchNew thread => batchNew s thread
  | .pushBatch thread guard closing => pushBatch s thread guard closing
  | .pushBatchNext thread => pushBatchNext s thread
  | .create thread task worker front maker => create s thread task worker front maker
  | .place thread => place s thread
  | .rngGen thread => rngGen s thread
  | .shutdownPoll thread => shutdownPoll s thread
  | .pop thread worker => pop s thread worker
  | .setWorkerId thread => setWorkerId s thread
  | .clearNotified thread => clearNotified s thread
  | .callPoll thread => callPoll s thread
  | .pollReturn thread ready => pollReturn s thread ready
  | .pollPanic thread => pollPanic s thread
  | .compareExchangeWeak thread spurious => compareExchangeWeak s thread spurious
  | .setDropped thread => setDropped s thread
  | .callDropInPlace thread => callDropInPlace s thread
  | .dropReturn thread => dropReturn s thread
  | .release thread => release s thread
  | .fnDealloc thread => fnDealloc s thread
  | .unwind thread => unwind s thread
  | .cloneWaker thread task via fresh => cloneWaker s thread task via fresh
  | .wake thread task via => wake s thread task via
  | .wakeFetchOr thread => wakeFetchOr s thread
  | .wakePush thread misread => wakePush s thread misread
  | .wakeNextEpoch thread => wakeNextEpoch s thread
  | .dropWaker thread task waker => dropWaker s thread task waker
  | .rcDec thread => rcDec s thread
  | .callDealloc thread => callDealloc s thread
  | .teardown => teardown s
  | .collect => collect s
  | .freeWorker => freeWorker s
  | .teardownPop => teardownPop s
  | .assertRc => assertRc s
  | .dropTask => dropTask s
  | .checkRc => checkRc s

def system (cfg : Config) : System (State cfg) (Action cfg) :=
  { initial := fun s => s = State.init cfg
    step := step }

def noPanic : State cfg → Action cfg → Prop
  | _, .pollPanic _ => False
  | _, _ => True

end Yaay.TaskSystem
