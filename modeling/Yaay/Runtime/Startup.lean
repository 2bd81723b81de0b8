import Mathlib.Data.List.OfFn
import Mathlib.Tactic.Ring
import Yaay.Latch
import Yaay.Transition

set_option autoImplicit false

/-! The start of the workers in `worker_manager.rs`: `n` threads in `WorkerBuilder::build`
and the main thread in `WorkerManager::wait`. Taking a mutex, every access under it,
releasing it and `notify_all` are one step each; `Condvar::wait` unlocks and parks in
one step and locks again when it is woken. -/

namespace Yaay.Startup

open Yaay.Transition

inductive Thread (n : Nat)
  | builder (id : Fin n)
  | main
  deriving DecidableEq

abbrev Ptr := Nat

def NonNull.new (ptr : Ptr) : Option Ptr := if ptr = 0 then none else some ptr

structure Worker where
  workerId : Nat
  nWorkers : Nat
  epoch : Ptr
  otherWorkers : List Ptr
  deriving DecidableEq

structure RuntimeSharedData where
  epoch : Ptr
  workerPtrs : List Ptr
  deriving DecidableEq

/-- Where a thread is: `alloc` to `notifyBuilt` in `build`, `lockBuilt` to `unlockBuilt`
in the wait that `build` and `wait` share, `lockRead` to `setGlobal` in `wait`. -/
inductive Pc
  | alloc
  | lockStore
  | store
  | testStored
  | unlockStored (flag : Bool)
  | notifyPtrs
  | lockPtrs
  | testPtrs
  | parkPtrs
  | parkedPtrs
  | unlockPtrs
  | lockCollect
  | collect
  | write (otherWorkers : List Ptr)
  | lockCount
  | count
  | testCounted
  | unlockCounted (flag : Bool)
  | notifyBuilt
  | lockBuilt
  | testBuilt
  | parkBuilt
  | parkedBuilt
  | unlockBuilt
  | lockRead
  | read
  | setGlobal (workerPtrs : List Ptr)
  | returned
  | panicked
  deriving DecidableEq

/-- `workerPtrs`, `nBuilt` and `epoch` are the fields of `WorkerManagerData`, with the
owners of the two mutexes; `slot` is a thread's `worker_ptr`, which `Worker::set` stores
in `LOCAL`; `memory` holds the workers that were written behind their pointers. -/
structure State (n : Nat) where
  epoch : Ptr
  workerPtrs : List Ptr
  ptrsOwner : Option (Thread n)
  nBuilt : Nat
  builtOwner : Option (Thread n)
  slot : Fin n → Ptr
  memory : Ptr → Option Worker
  global : Option RuntimeSharedData
  pc : Thread n → Pc

/-- `wake` is a spurious wake-up. -/
inductive Action (n : Nat)
  | alloc (id : Fin n) (address : Ptr)
  | run (thread : Thread n)
  | wake (thread : Thread n)

variable {n : Nat}

@[simps] def State.setPc (s : State n) (thread : Thread n) (pc : Pc) : State n :=
  { s with pc := Function.update s.pc thread pc }

/-- `guard.iter_mut().all(|x| !x.is_null())`. -/
def State.allStored (s : State n) : Bool := s.workerPtrs.all (fun ptr => ptr != 0)

/-- `*guard == self.data.n_workers`. -/
def State.allBuilt (s : State n) : Bool := s.nBuilt == n

def State.lockPtrs (s : State n) (thread : Thread n) (pc : Pc) : Option (State n) :=
  if s.ptrsOwner = none then some { s.setPc thread pc with ptrsOwner := some thread } else none

@[simps] def State.unlockPtrs (s : State n) (thread : Thread n) (pc : Pc) : State n :=
  { s.setPc thread pc with ptrsOwner := none }

def State.lockBuilt (s : State n) (thread : Thread n) (pc : Pc) : Option (State n) :=
  if s.builtOwner = none then some { s.setPc thread pc with builtOwner := some thread } else none

@[simps] def State.unlockBuilt (s : State n) (thread : Thread n) (pc : Pc) : State n :=
  { s.setPc thread pc with builtOwner := none }

/-- Behind `wait` on `worker_ptrs_cond` or `n_built_cond` the mutex is locked again. -/
def Pc.wokenPtrs : Pc → Pc
  | .parkedPtrs => .lockPtrs
  | pc => pc

def Pc.wokenBuilt : Pc → Pc
  | .parkedBuilt => .lockBuilt
  | pc => pc

@[simps] def State.notifyPtrs (s : State n) : State n :=
  { s with pc := fun thread => (s.pc thread).wokenPtrs }

@[simps] def State.notifyBuilt (s : State n) : State n :=
  { s with pc := fun thread => (s.pc thread).wokenBuilt }

/-- `enumerate().filter(|&(i, _)| i != id).map(|(_, x)| NonNull::new(*x).unwrap())`. -/
def collectOthers (workerPtrs : List Ptr) (id : Nat) : Option (List Ptr) :=
  (workerPtrs.zipIdx.filter (fun entry => entry.2 != id)).mapM (fun entry => NonNull.new entry.1)

/-- The allocator returns an address that is in no other thread's hands. -/
def alloc (s : State n) (id : Fin n) (address : Ptr) : Option (State n) :=
  if s.pc (.builder id) = .alloc ∧ address ≠ 0 ∧ ∀ other, s.slot other ≠ address then
    some { s.setPc (.builder id) .lockStore with slot := Function.update s.slot id address }
  else none

/-- The steps of `build` that name the worker. -/
def build (s : State n) (id : Fin n) : Option (State n) :=
  match s.pc (.builder id) with
  | .store =>
      some { s.setPc (.builder id) .testStored with
        workerPtrs := s.workerPtrs.set id (s.slot id) }
  | .collect =>
      some (s.unlockPtrs (.builder id) (match collectOthers s.workerPtrs id with
        | some otherWorkers => .write otherWorkers
        | none => .panicked))
  | .write otherWorkers =>
      some { s.setPc (.builder id) .lockCount with
        memory := Function.update s.memory (s.slot id) (some ⟨id, n, s.epoch, otherWorkers⟩) }
  | _ => none

def wait (s : State n) : Option (State n) :=
  match s.pc .main with
  | .lockRead => s.lockPtrs .main .read
  | .read =>
      some (s.unlockPtrs .main (match s.workerPtrs.mapM NonNull.new with
        | some workerPtrs => .setGlobal workerPtrs
        | none => .panicked))
  | .setGlobal workerPtrs =>
      some { s.setPc .main .returned with global := some ⟨s.epoch, workerPtrs⟩ }
  | _ => none

def Thread.built : Thread n → Pc
  | .builder _ => .returned
  | .main => .lockRead

def run (s : State n) (thread : Thread n) : Option (State n) :=
  match s.pc thread with
  | .alloc => none
  | .lockStore => s.lockPtrs thread .store
  | .testStored => some (s.setPc thread (.unlockStored s.allStored))
  | .unlockStored flag => some (s.unlockPtrs thread (if flag then .notifyPtrs else .lockPtrs))
  | .notifyPtrs => some (s.notifyPtrs.setPc thread .lockCollect)
  | .lockPtrs => s.lockPtrs thread .testPtrs
  | .testPtrs => some (s.setPc thread (if s.allStored then .unlockPtrs else .parkPtrs))
  | .parkPtrs => some (s.unlockPtrs thread .parkedPtrs)
  | .parkedPtrs => none
  | .unlockPtrs => some (s.unlockPtrs thread .lockCollect)
  | .lockCollect => s.lockPtrs thread .collect
  | .lockCount => s.lockBuilt thread .count
  | .count =>
      some { s.setPc thread .testCounted with nBuilt := (s.nBuilt + 1) % 2 ^ 32 }
  | .testCounted => some (s.setPc thread (.unlockCounted s.allBuilt))
  | .unlockCounted flag =>
      some (s.unlockBuilt thread (if flag then .notifyBuilt else .lockBuilt))
  | .notifyBuilt => some (s.notifyBuilt.setPc thread .returned)
  | .lockBuilt => s.lockBuilt thread .testBuilt
  | .testBuilt => some (s.setPc thread (if s.allBuilt then .unlockBuilt else .parkBuilt))
  | .parkBuilt => some (s.unlockBuilt thread .parkedBuilt)
  | .parkedBuilt => none
  | .unlockBuilt => some (s.unlockBuilt thread thread.built)
  | .store | .collect | .write _ | .lockRead | .read | .setGlobal _ =>
      match thread with
      | .builder id => build s id
      | .main => wait s
  | .returned => none
  | .panicked => none

/-- A thread that waits on a condition variable is woken for no reason. -/
def wake (s : State n) (thread : Thread n) : Option (State n) :=
  match s.pc thread with
  | .parkedPtrs => some (s.setPc thread .lockPtrs)
  | .parkedBuilt => some (s.setPc thread .lockBuilt)
  | _ => none

def step (s : State n) : Action n → Option (State n)
  | .alloc id address => alloc s id address
  | .run thread => run s thread
  | .wake thread => wake s thread

/-- `WorkerManager::new`: null pointers, nothing built; every `build` and the `wait`
at their first step. -/
structure Initial (s : State n) : Prop where
  workerPtrs : s.workerPtrs = List.replicate n 0
  ptrsOwner : s.ptrsOwner = none
  nBuilt : s.nBuilt = 0
  builtOwner : s.builtOwner = none
  slot : ∀ id, s.slot id = 0
  memory : ∀ ptr, s.memory ptr = none
  global : s.global = none
  builder : ∀ id, s.pc (.builder id) = .alloc
  main : s.pc .main = .lockBuilt

def system (n : Nat) : System (State n) (Action n) := { initial := Initial, step := step }

end Yaay.Startup
