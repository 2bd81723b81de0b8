import Mathlib.Data.List.FinRange
import Mathlib.Tactic.Simps.Basic
import Yaay.Runtime.Epoch
import Yaay.Runtime.Rng
import Yaay.Transition

set_option autoImplicit false

/-! The workers' `main_loop` and everything that pushes tasks to their queues. Each
locked queue operation, each operation on the epoch's word, each access of a
shutdown flag and each parking operation is one step. -/

namespace Yaay.Scheduler

open Yaay.Transition

variable {n : Nat}

inductive Thread (n : Nat)
  | worker (worker : Fin n)
  | external (name : Nat)
  deriving DecidableEq

/-- What a queued task runs: a future of the program, or `Shutdown`. -/
inductive Work
  | task (name : Nat)
  | shutdown
  deriving DecidableEq

/-- How far a queued task has been announced: pushed by the queue's own worker, who
announces nothing; pushed by a thread that has yet to call `next_epoch`; counted
by that call, whose `unpark_all` is to come; or announced. No step reads it. -/
inductive Stamp (n : Nat)
  | own
  | pushed (thread : Thread n)
  | announcing (thread : Thread n) (epoch : Nat)
  | announced (epoch : Nat)
  deriving DecidableEq

@[ext] structure Entry (n : Nat) where
  work : Work
  stamp : Stamp n
  deriving DecidableEq

structure Insert (n : Nat) where
  target : Fin n
  works : List Work
  front : Bool

inductive Origin
  | push
  | shutdownAsync
  deriving DecidableEq

/-- The producer that a thread is inside of. `pushing` has insertions to make before
its `next_epoch`; the loop of `Shutdown::poll` reads another worker's flag and
pushes if it is not set. -/
inductive Call (n : Nat)
  | none
  | pushing (todo : List (Insert n)) (origin : Origin)
  | shutdownRead (other : Fin n) (rest : List (Fin n))
  | shutdownPush (other : Fin n) (rest : List (Fin n))
  | unpark (origin : Origin)

/-- A status read by a worker. `readAt` counts the calls of `next_epoch` before the
read, `pass` the passes of the inner loop since `set_inactive`. -/
structure Snapshot where
  status : BitVec 32
  readAt : Nat
  pass : Nat
  deriving DecidableEq

/-- Where a worker is in `main_loop`. `steal` counts the rounds of the `for` loop,
`recheck` to `parked` is the branch for an active count of zero. -/
inductive Pc (n : Nat)
  | drain
  | poll (work : Work)
  | polling (work : Work)
  | check
  | deactivate
  | search (old : Snapshot)
  | steal (old : Snapshot) (tries : Nat)
  | stealPop (old : Snapshot) (tries : Nat) (victim : Fin n)
  | recheck (old : Snapshot)
  | wait (old : Snapshot)
  | park (old : Snapshot)
  | parked (old : Snapshot)
  | reread (old : Snapshot)
  | popChanged (new : Snapshot)
  | activate (work : Work)
  | unpark (work : Work)
  | returned
  deriving DecidableEq

/-- `calls` counts the calls of `next_epoch`, `stays` a worker's calls of
`set_inactive`; `stopped` says that a call of `shutdown_async` has returned. -/
structure State (n : Nat) where
  word : BitVec 32
  queue : Fin n → List (Entry n)
  seed : Fin n → BitVec 32
  shutdown : Fin n → Bool
  pc : Fin n → Pc n
  call : Thread n → Call n
  calls : Nat
  stays : Fin n → Nat
  stopped : Bool

inductive Action (n : Nat)
  | work (worker : Fin n) (refuse : Bool)
  | call (thread : Thread n)
  | run (name : Nat) (task : Nat)
  | wake (name : Nat) (target : Fin n) (task : Nat)
  | pushBatch (name : Nat) (tasks : Fin n → List Nat)
  | shutdownAsync (thread : Thread n)
  | spawn (worker : Fin n) (task : Nat)
  | defer (worker : Fin n) (task : Nat)
  | rngGen (worker : Fin n)

/-! ### State updates -/

@[simps] def State.setPc (s : State n) (w : Fin n) (pc : Pc n) : State n :=
  { s with pc := Function.update s.pc w pc }

@[simps] def State.setQueue (s : State n) (w : Fin n) (queue : List (Entry n)) : State n :=
  { s with queue := Function.update s.queue w queue }

@[simps] def State.setCall (s : State n) (thread : Thread n) (call : Call n) : State n :=
  { s with call := Function.update s.call thread call }

@[simps] def State.setSeed (s : State n) (w : Fin n) (seed : BitVec 32) : State n :=
  { s with seed := Function.update s.seed w seed }

/-- `push_back_batch` or `push_front` under the lock of the target's queue. -/
def State.insert (s : State n) (insert : Insert n) (stamp : Stamp n) : State n :=
  s.setQueue insert.target
    (if insert.front then insert.works.map (⟨·, stamp⟩) ++ s.queue insert.target
      else s.queue insert.target ++ insert.works.map (⟨·, stamp⟩))

def State.popFront (s : State n) (w victim : Fin n) (empty : Pc n) (found : Work → Pc n) :
    State n :=
  match s.queue victim with
  | [] => s.setPc w empty
  | entry :: rest => (s.setQueue victim rest).setPc w (found entry.work)

@[simps] def State.restamp (s : State n) (change : Stamp n → Stamp n) : State n :=
  { s with queue := fun w =>
      (s.queue w).map (fun entry => { entry with stamp := change entry.stamp }) }

def Pc.unparked : Pc n → Pc n
  | .parked old => .reread old
  | pc => pc

@[simps] def State.unparkAll (s : State n) : State n :=
  { s with pc := fun w => (s.pc w).unparked }

/-! ### Producers -/

/-- `other_workers`: all but the worker itself, in the order of their ids. -/
def others (w : Fin n) : List (Fin n) := (List.finRange n).filter (fun other => other ≠ w)

/-- The head of the loop over `other_workers` in `Shutdown::poll`, or its end. -/
def shutdownLoop : List (Fin n) → Call n
  | [] => .pushing [] .push
  | other :: rest => .shutdownRead other rest

@[simps] def State.finish (s : State n) (thread : Thread n) (origin : Origin) : State n :=
  { s.setCall thread .none with stopped := s.stopped || origin == .shutdownAsync }

/-- `Epoch::next_epoch` up to `wake_all_slow`. -/
def nextEpoch (s : State n) (thread : Thread n) (origin : Origin) : State n :=
  let counted := { s with word := s.word + Epoch.epochUnit, calls := s.calls + 1 }
  if Epoch.activeCount s.word = 0 then
    (counted.restamp (fun stamp =>
      if stamp = .pushed thread then .announcing thread (s.calls + 1) else stamp)).setCall
        thread (.unpark origin)
  else
    (counted.restamp (fun stamp =>
      if stamp = .pushed thread then .announced (s.calls + 1) else stamp)).finish thread origin

def wakeAllSlow (s : State n) (thread : Thread n) (origin : Origin) : State n :=
  (s.unparkAll.restamp (fun stamp =>
    match stamp with
    | .announcing other epoch => if other = thread then .announced epoch else stamp
    | stamp => stamp)).finish thread origin

def callStep (s : State n) (thread : Thread n) : Option (State n) :=
  match s.call thread with
  | .none => none
  | .pushing (insert :: rest) origin =>
      some ((s.insert insert (.pushed thread)).setCall thread (.pushing rest origin))
  | .pushing [] origin => some (nextEpoch s thread origin)
  | .shutdownRead other rest =>
      some (s.setCall thread
        (if s.shutdown other then shutdownLoop rest else .shutdownPush other rest))
  | .shutdownPush other rest =>
      some ((s.insert ⟨other, [.shutdown], true⟩ (.pushed thread)).setCall thread
        (shutdownLoop rest))
  | .unpark origin => some (wakeAllSlow s thread origin)

/-- User code runs on the thread: outside the workers, or in a future's poll. -/
def State.userCode (s : State n) : Thread n → Bool
  | .external _ => true
  | .worker w =>
      match s.pc w with
      | .polling (.task _) => true
      | _ => false

def Call.isNone : Call n → Bool
  | .none => true
  | _ => false

def enter (s : State n) (thread : Thread n) (todo : List (Insert n)) (origin : Origin) :
    Option (State n) :=
  if s.userCode thread ∧ (s.call thread).isNone then
    some (s.setCall thread (.pushing todo origin))
  else none

def run (s : State n) (name task : Nat) : Option (State n) :=
  if positive : 0 < n then enter s (.external name) [⟨⟨0, positive⟩, [.task task], false⟩] .push
  else none

/-- The push of `Task::wake` on a thread whose slot is null. A wake that schedules its task on a
worker's thread takes the `Worker` in the slot for a `RuntimeLocalData` and gets to no queue; it
is none of these actions. -/
def wake (s : State n) (name : Nat) (target : Fin n) (task : Nat) : Option (State n) :=
  enter s (.external name) [⟨target, [.task task], false⟩] .push

/-- `BatchGuard::push_batch` with something to move. -/
def pushBatch (s : State n) (name : Nat) (tasks : Fin n → List Nat) : Option (State n) :=
  match (List.finRange n).filter (fun target => tasks target ≠ []) with
  | [] => none
  | targets =>
      enter s (.external name)
        (targets.map (fun target => ⟨target, (tasks target).map .task, false⟩)) .push

def shutdownAsync (s : State n) (thread : Thread n) : Option (State n) :=
  enter s thread ((List.finRange n).map (fun target => ⟨target, [.shutdown], true⟩))
    .shutdownAsync

/-- `Worker::spawn`: the seed picks another worker or, for one residue, this one. -/
def spawn (s : State n) (w : Fin n) (task : Nat) : Option (State n) :=
  if s.userCode (.worker w) ∧ (s.call (.worker w)).isNone then
    let index := (s.seed w).toNat % n
    let next := s.setSeed w (Rng.nextSeed (s.seed w))
    if index + 1 ≠ n then
      match (others w)[index]? with
      | some target => enter next (.worker w) [⟨target, [.task task], false⟩] .push
      | none => none
    else some (next.insert ⟨w, [.task task], false⟩ .own)
  else none

def defer (s : State n) (w : Fin n) (task : Nat) : Option (State n) :=
  if s.userCode (.worker w) ∧ (s.call (.worker w)).isNone then
    some (s.insert ⟨w, [.task task], true⟩ .own)
  else none

def rngGen (s : State n) (w : Fin n) : Option (State n) :=
  if s.userCode (.worker w) ∧ (s.call (.worker w)).isNone then
    some (s.setSeed w (Rng.nextSeed (s.seed w)))
  else none

/-! ### `main_loop` -/

/-- `Task::poll` of the popped task starts; `Shutdown::poll` sets the worker's flag. -/
def pollTask (s : State n) (w : Fin n) : Work → State n
  | .task name => s.setPc w (.polling (.task name))
  | .shutdown =>
      { (s.setPc w (.polling .shutdown)).setCall (.worker w) (shutdownLoop (others w)) with
        shutdown := Function.update s.shutdown w true }

/-- `Epoch::set_inactive`, whose result is the first `old_status`. -/
def setInactive (s : State n) (w : Fin n) : State n :=
  { s.setPc w (.search ⟨s.word - 1, s.calls, 0⟩) with
    word := s.word - 1
    stays := Function.update s.stays w (s.stays w + 1) }

/-- `Epoch::set_active` up to `wake_all_slow`. -/
def setActive (s : State n) (w : Fin n) (work : Work) : State n :=
  { s.setPc w (if Epoch.activeCount s.word = 0 then .unpark work else .poll work) with
    word := s.word + 1 }

/-- `try_steal` up to the lock. A lone worker has no victim: `% 0` panics. -/
def trySteal (s : State n) (w : Fin n) (old : Snapshot) (tries : Nat) : Option (State n) :=
  if n - 1 = 0 then none
  else
    match (others w)[(s.seed w).toNat % (n - 1)]? with
    | none => none
    | some victim =>
        if (s.queue victim).isEmpty then
          some ((s.setSeed w (Rng.nextSeed (s.seed w))).setPc w (.steal old (tries + 1)))
        else some (s.setPc w (.stealPop old tries victim))

def stealPop (s : State n) (w : Fin n) (old : Snapshot) (tries : Nat) (victim : Fin n) :
    State n :=
  match s.queue victim with
  | [] => (s.setSeed w (Rng.nextSeed (s.seed w))).setPc w (.steal old (tries + 1))
  | entry :: rest => (s.setQueue victim rest).setPc w (.activate entry.work)

def State.getStatus (s : State n) (old : Snapshot) : Snapshot :=
  ⟨s.word, s.calls, old.pass + 1⟩

/-- The next step of the worker. `refuse` lets the validation of `wait_slow` fail,
as a weak exchange may and as one that comes too late does. -/
def work (s : State n) (w : Fin n) (refuse : Bool) : Option (State n) :=
  match s.pc w with
  | .drain => some (s.popFront w w .deactivate .poll)
  | .poll work => some (pollTask s w work)
  | .polling _ => if (s.call (.worker w)).isNone then some (s.setPc w .check) else none
  | .check => some (s.setPc w (if s.shutdown w then .returned else .drain))
  | .deactivate => some (setInactive s w)
  | .search old =>
      some (s.setPc w
        (if Epoch.activeCount old.status = 0 then .recheck old else .steal old 0))
  | .steal old tries =>
      if tries = 4 * n then some (s.setPc w (.reread old)) else trySteal s w old tries
  | .stealPop old tries victim => some (stealPop s w old tries victim)
  | .recheck old => some (s.popFront w w (.wait old) .activate)
  | .wait old => some (s.setPc w (if s.word = old.status then .park old else .reread old))
  | .park old =>
      some (s.setPc w
        (if s.word = old.status ∧ refuse = false then .parked old else .reread old))
  | .parked _ => none
  | .reread old =>
      some (s.setPc w
        (if Epoch.epoch old.status < Epoch.epoch s.word then .popChanged (s.getStatus old)
          else .search (s.getStatus old)))
  | .popChanged new => some (s.popFront w w (.search new) .activate)
  | .activate work => some (setActive s w work)
  | .unpark work => some (s.unparkAll.setPc w (.poll work))
  | .returned => none

def step (s : State n) : Action n → Option (State n)
  | .work w refuse => work s w refuse
  | .call thread => callStep s thread
  | .run name task => run s name task
  | .wake name target task => wake s name target task
  | .pushBatch name tasks => pushBatch s name tasks
  | .shutdownAsync thread => shutdownAsync s thread
  | .spawn w task => spawn s w task
  | .defer w task => defer s w task
  | .rngGen w => rngGen s w

/-- `Epoch::new(n)`, and every worker before its first pop, with any seed. -/
structure Initial (s : State n) : Prop where
  word : s.word = BitVec.ofNat 32 n
  queue : ∀ w, s.queue w = []
  shutdown : ∀ w, s.shutdown w = false
  pc : ∀ w, s.pc w = .drain
  call : ∀ thread, s.call thread = .none
  calls : s.calls = 0
  stopped : s.stopped = false

def system (n : Nat) : System (State n) (Action n) := { initial := Initial, step := step }

end Yaay.Scheduler
