import Mathlib.Data.List.Basic
import Mathlib.Tactic.Simps.Basic
import Yaay.Runtime.TaskList
import Yaay.Simulation

set_option autoImplicit false

/-! The `SyncTaskList` of `task_list.rs` under arbitrary threads, one memory access a step:
`raw_mutex`, the single loads and stores of the methods that a guard derefs to, and the load
of `is_empty`, which takes no lock. -/

namespace Yaay.SyncTaskList

open Yaay.Transition
open TaskSystem (TaskRef)

/-- The critical sections of the source, and the hint. A batch stands for the tasks from its
head to its tail; `takeAll` is `if !guard.is_empty() { .. guard.pop_all() }`. -/
inductive Op (Name : Type)
  | pushBackBatch (name : Name) (batch : List TaskRef)
  | pushFrontBatch (name : Name) (batch : List TaskRef)
  | popFront (name : Name)
  | takeAll (name : Name)
  | isEmpty (name : Name)
  deriving DecidableEq

inductive Reply (Batch : Type)
  | done
  | popped (task : Option TaskRef)
  | taken (batch : Batch)
  | empty (answer : Bool)
  deriving DecidableEq

def ends (batch : List TaskRef) : TaskList := { head := batch.head?, tail := batch.getLast? }

/-- What the thread goes on to access under the lock. -/
inductive Spot
  | pushBack (batch : List TaskRef)
  | linkTail (batch : List TaskRef) (tail : TaskRef)
  | fillHead (batch : List TaskRef)
  | storeTail (batch : List TaskRef)
  | pushFront (batch : List TaskRef)
  | linkBatch (batch : List TaskRef) (head : TaskRef)
  | fillTail (batch : List TaskRef)
  | storeHead (batch : List TaskRef)
  | popFront
  | loadTail (head : TaskRef)
  | clearHead (head : TaskRef)
  | clearTail (head : TaskRef)
  | loadNext (head : TaskRef)
  | advance (head : TaskRef) (link : Option TaskRef)
  | takeAll
  | takeHead
  | takeTail (head : Option TaskRef)
  | dropHead (batch : TaskList)
  | dropTail (batch : TaskList)
  | unlock (reply : Reply TaskList)

inductive Pc (Name : Type)
  | idle
  | lock (name : Name) (spot : Spot)
  | inside (name : Name) (spot : Spot)
  | load (name : Name)
  | returning (reply : Reply TaskList)

/-- Who may write a task's link. No access of a list reads it. -/
inductive Place (Name Thread : Type)
  | list (name : Name)
  | call (thread : Thread)
  | hand (thread : Thread)
  deriving DecidableEq

structure State (Name Thread : Type) where
  next : Links
  lists : Name → TaskList
  rawMutex : Name → Option Thread
  pc : Thread → Pc Name
  place : TaskRef → Place Name Thread

/-- `link` and `give` are the threads' own doing with tasks that they have. -/
inductive Action (Name Thread : Type)
  | call (thread : Thread) (op : Op Name)
  | access (thread : Thread)
  | ret (thread : Thread) (reply : Reply TaskList)
  | link (thread : Thread) (task : TaskRef) (link : Option TaskRef)
  | give (thread other : Thread) (task : TaskRef)

variable {Name Thread : Type} [DecidableEq Name] [DecidableEq Thread]

/-! ### State updates -/

@[simps] def State.goto (s : State Name Thread) (thread : Thread) (pc : Pc Name) :
    State Name Thread :=
  { s with pc := Function.update s.pc thread pc }

@[simps] def State.setHead (s : State Name Thread) (name : Name) (head : Option TaskRef) :
    State Name Thread :=
  { s with lists := Function.update s.lists name { s.lists name with head := head } }

@[simps] def State.setTail (s : State Name Thread) (name : Name) (tail : Option TaskRef) :
    State Name Thread :=
  { s with lists := Function.update s.lists name { s.lists name with tail := tail } }

@[simps] def State.setLink (s : State Name Thread) (task : TaskRef) (link : Option TaskRef) :
    State Name Thread :=
  { s with next := setNext s.next task link }

omit [DecidableEq Thread] in
theorem State.setHead_head (s : State Name Thread) (name : Name) (head : Option TaskRef) :
    ((s.setHead name head).lists name).head = head := by
  rw [State.setHead_lists, Function.update_self]

omit [DecidableEq Thread] in
theorem State.holds_setHead {s : State Name Thread} {name : Name} {head : Option TaskRef}
    {tasks : List TaskRef} (segment : Segment s.next head (s.lists name).tail tasks) :
    ((s.setHead name head).lists name).Holds s.next tasks := by
  rw [State.setHead_lists, Function.update_self]
  exact segment

omit [DecidableEq Thread] in
theorem State.setTail_head (s : State Name Thread) (name : Name) (tail : Option TaskRef) :
    ((s.setTail name tail).lists name).head = (s.lists name).head := by
  rw [State.setTail_lists, Function.update_self]

omit [DecidableEq Thread] in
theorem State.holds_setTail {s : State Name Thread} {name : Name} {tail : Option TaskRef}
    {tasks : List TaskRef} (segment : Segment s.next (s.lists name).head tail tasks) :
    ((s.setTail name tail).lists name).Holds s.next tasks := by
  rw [State.setTail_lists, Function.update_self]
  exact segment

@[simps] def State.settle (s : State Name Thread) (source target : Place Name Thread) :
    State Name Thread :=
  { s with place := fun task => if s.place task = source then target else s.place task }

@[simps] def State.move (s : State Name Thread) (tasks : List TaskRef)
    (target : Place Name Thread) : State Name Thread :=
  { s with place := fun task => if task ∈ tasks then target else s.place task }

/-! ### The accesses -/

def Op.start : Op Name → Pc Name
  | .pushBackBatch name batch => .lock name (.pushBack batch)
  | .pushFrontBatch name batch => .lock name (.pushFront batch)
  | .popFront name => .lock name .popFront
  | .takeAll name => .lock name .takeAll
  | .isEmpty name => .load name

def Op.batch : Op Name → List TaskRef
  | .pushBackBatch _ batch | .pushFrontBatch _ batch => batch
  | _ => []

/-- What the callers of the two pushes have to bring: a batch that is not empty, linked from
head to tail, of tasks that they have. -/
def State.Brings (s : State Name Thread) (thread : Thread) : Op Name → Prop
  | .pushBackBatch _ batch | .pushFrontBatch _ batch =>
      batch ≠ [] ∧ batch.IsChain (fun task after => s.next task = some after) ∧ batch.Nodup ∧
        ∀ task ∈ batch, s.place task = .hand thread
  | _ => True

instance (s : State Name Thread) (thread : Thread) :
    (op : Op Name) → Decidable (s.Brings thread op)
  | .pushBackBatch _ _ | .pushFrontBatch _ _ => inferInstanceAs (Decidable (_ ∧ _ ∧ _ ∧ _))
  | .popFront _ | .takeAll _ | .isEmpty _ => isTrue trivial

def Pc.isIdle : Pc Name → Bool
  | .idle => true
  | _ => false

def call (s : State Name Thread) (thread : Thread) (op : Op Name) : Option (State Name Thread) :=
  if (s.pc thread).isIdle ∧ s.Brings thread op then
    some ((s.move op.batch (.call thread)).goto thread op.start)
  else none

def inside (s : State Name Thread) (thread : Thread) (name : Name) :
    Spot → Option (State Name Thread)
  -- push_back_batch
  | .pushBack batch =>
      match (s.lists name).tail with
      | none => some (s.goto thread (.inside name (.fillHead batch)))
      | some tail => some (s.goto thread (.inside name (.linkTail batch tail)))
  | .linkTail batch tail =>
      some (((s.setLink tail (ends batch).head).move batch (.list name)).goto thread
        (.inside name (.storeTail batch)))
  | .fillHead batch =>
      some (((s.setHead name (ends batch).head).move batch (.list name)).goto thread
        (.inside name (.storeTail batch)))
  | .storeTail batch =>
      some ((s.setTail name (ends batch).tail).goto thread (.inside name (.unlock .done)))
  -- push_front_batch
  | .pushFront batch =>
      match (s.lists name).head with
      | none => some (s.goto thread (.inside name (.fillTail batch)))
      | some head => some (s.goto thread (.inside name (.linkBatch batch head)))
  | .linkBatch batch head =>
      (ends batch).tail.map (fun tail =>
        (s.setLink tail (some head)).goto thread (.inside name (.storeHead batch)))
  | .fillTail batch =>
      some ((s.setTail name (ends batch).tail).goto thread (.inside name (.storeHead batch)))
  | .storeHead batch =>
      some (((s.setHead name (ends batch).head).move batch (.list name)).goto thread
        (.inside name (.unlock .done)))
  -- pop_front
  | .popFront =>
      match (s.lists name).head with
      | none => some (s.goto thread (.inside name (.unlock (.popped none))))
      | some head => some (s.goto thread (.inside name (.loadTail head)))
  | .loadTail head =>
      some (s.goto thread (.inside name
        (if some head = (s.lists name).tail then .clearHead head else .loadNext head)))
  | .clearHead head =>
      some (((s.setHead name none).move [head] (.call thread)).goto thread
        (.inside name (.clearTail head)))
  | .clearTail head =>
      some ((s.setTail name none).goto thread (.inside name (.unlock (.popped (some head)))))
  | .loadNext head => some (s.goto thread (.inside name (.advance head (getNext s.next head))))
  | .advance head link =>
      some (((s.setHead name link).move [head] (.call thread)).goto thread
        (.inside name (.unlock (.popped (some head)))))
  -- is_empty and pop_all
  | .takeAll =>
      some (s.goto thread (.inside name
        (if (s.lists name).isEmpty then .unlock (.taken TaskList.new) else .takeHead)))
  | .takeHead => some (s.goto thread (.inside name (.takeTail (s.lists name).head)))
  | .takeTail head =>
      some (s.goto thread (.inside name (.dropHead { head := head, tail := (s.lists name).tail })))
  | .dropHead batch =>
      some (((s.setHead name none).settle (.list name) (.call thread)).goto thread
        (.inside name (.dropTail batch)))
  | .dropTail batch =>
      some ((s.setTail name none).goto thread (.inside name (.unlock (.taken batch))))
  | .unlock reply =>
      some { s.goto thread (.returning reply) with
        rawMutex := Function.update s.rawMutex name none }

def access (s : State Name Thread) (thread : Thread) : Option (State Name Thread) :=
  match s.pc thread with
  | .lock name spot =>
      if s.rawMutex name = none then
        some { s.goto thread (.inside name spot) with
          rawMutex := Function.update s.rawMutex name (some thread) }
      else none
  | .inside name spot => inside s thread name spot
  | .load name => some (s.goto thread (.returning (.empty (s.lists name).isEmpty)))
  | .idle | .returning _ => none

def ret (s : State Name Thread) (thread : Thread) (reply : Reply TaskList) :
    Option (State Name Thread) :=
  match s.pc thread with
  | .returning answer =>
      if answer = reply then some ((s.settle (.call thread) (.hand thread)).goto thread .idle)
      else none
  | _ => none

def link (s : State Name Thread) (thread : Thread) (task : TaskRef) (link : Option TaskRef) :
    Option (State Name Thread) :=
  if (s.pc thread).isIdle ∧ s.place task = .hand thread then some (s.setLink task link) else none

def give (s : State Name Thread) (thread other : Thread) (task : TaskRef) :
    Option (State Name Thread) :=
  if s.place task = .hand thread then some (s.move [task] (.hand other)) else none

def step (s : State Name Thread) : Action Name Thread → Option (State Name Thread)
  | .call thread op => call s thread op
  | .access thread => access s thread
  | .ret thread reply => ret s thread reply
  | .link thread task after => link s thread task after
  | .give thread other task => give s thread other task

/-- Every list is new, and every task is in the hand of some thread. -/
structure Initial (s : State Name Thread) : Prop where
  lists : ∀ name, s.lists name = TaskList.new
  rawMutex : ∀ name, s.rawMutex name = none
  pc : ∀ thread, s.pc thread = .idle
  place : ∀ task, ∃ thread, s.place task = .hand thread

def system : System (State Name Thread) (Action Name Thread) := { initial := Initial, step := step }

/-! ### What the lists are for -/

abbrev Queues (Name : Type) := Name → List TaskRef

/-- Each operation at one stroke. -/
def Queues.step (queues : Queues Name) : Op Name → Option (Reply (List TaskRef) × Queues Name)
  | .pushBackBatch name batch => some (.done, Function.update queues name (queues name ++ batch))
  | .pushFrontBatch name batch => some (.done, Function.update queues name (batch ++ queues name))
  | .popFront name =>
      some (.popped (queues name).head?, Function.update queues name (queues name).tail)
  | .takeAll name => some (.taken (queues name), Function.update queues name [])
  | .isEmpty name => some (.empty (queues name).isEmpty, queues)

def Queues.machine : Machine (Queues Name) (Op Name) (Reply (List TaskRef)) :=
  { step := Queues.step }

inductive Event (Name Thread : Type)
  | call (thread : Thread) (op : Op Name)
  | ret (thread : Thread) (reply : Reply TaskList)

def Reply.ends : Reply (List TaskRef) → Reply TaskList
  | .done => .done
  | .popped task => .popped task
  | .taken batch => .taken (SyncTaskList.ends batch)
  | .empty answer => .empty answer

def Action.event? : Action Name Thread → Option (Event Name Thread)
  | .call thread op => some (.call thread op)
  | .ret thread reply => some (.ret thread reply)
  | _ => none

def atomicEvent? :
    Atomic.Action Thread (Op Name) (Reply (List TaskRef)) → Option (Event Name Thread)
  | .call thread op => some (.call thread op)
  | .effect _ _ _ => none
  | .ret thread reply => some (.ret thread reply.ends)

end Yaay.SyncTaskList
