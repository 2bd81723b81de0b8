import Yaay.Runtime.IndexSafety
import Yaay.Runtime.ListRefinement

set_option autoImplicit false

/-! The `BatchGuard` of `batch.rs` and both paths of `Task::wake`, run by one thread while
no other acts: wakes gathered under a guard and pushed in batches end as direct wakes. -/

namespace Yaay.Batch

open TaskSystem (TaskRef WorkerId)

/-- A worker's queue, an entry of the thread's `task_lists`, or the list that `push_batch`
holds between its `pop_all` and its `push_back_batch`. -/
inductive Place where
  | queue (worker : WorkerId)
  | batch (worker : WorkerId)
  | tasks
  deriving DecidableEq

/-- What the workers' threads see of the calls: insertions into a queue and epochs. -/
inductive Effect where
  | inserted (worker : WorkerId)
  | nextEpoch
  deriving DecidableEq

/-- The slot `LOCAL` of the thread holds the `task_lists` of a guard, or null. -/
structure Memory where
  workers : Nat
  heap : Heap Place
  status : TaskRef → BitVec 8
  workerId : TaskRef → WorkerId
  guarded : Bool
  effects : List Effect

namespace Memory

def onHeap (m : Memory) (op : ListOp Place) : Option (ListReply × Memory) :=
  (m.heap.step op).map (fun (reply, heap) => (reply, { m with heap := heap }))

def effect (m : Memory) (effects : List Effect) : Memory :=
  { m with effects := m.effects ++ effects }

def marked (m : Memory) (task : TaskRef) : Memory :=
  { m with status := Function.update m.status task (Task.wakeStatus (m.status task)) }

/-- `Task::wake`. An index that is out of bounds names no list. -/
def wake (m : Memory) (task : TaskRef) : Option Memory :=
  if Task.schedules (m.status task) then
    if m.guarded then
      ((m.marked task).onHeap (.pushBack (.batch (m.workerId task)) task)).map Prod.snd
    else
      ((m.marked task).onHeap (.pushBack (.queue (m.workerId task)) task)).map (fun (_, m) =>
        m.effect [.inserted (m.workerId task), .nextEpoch])
  else some (m.marked task)

def wakeAll (m : Memory) : List TaskRef → Option Memory
  | [] => some m
  | task :: rest => (m.wake task).bind (wakeAll · rest)

def withLists (heap : Heap Place) (lists : WorkerId → Option TaskList) : Heap Place :=
  { heap with
    lists := fun place =>
      match place with
      | .queue worker => heap.lists (.queue worker)
      | .batch worker => lists worker
      | .tasks => heap.lists .tasks }

/-- `BatchGuard::new`, with its `assert!`: an empty list for each worker. -/
def newGuard (m : Memory) : Option Memory :=
  if m.guarded then none
  else
    some { m with
      heap := withLists m.heap
        (fun worker => if worker < m.workers then some TaskList.new else none)
      guarded := true }

/-- The body of the loop in `push_batch`, with its `all_empty`. -/
def pushList (m : Memory) (worker : WorkerId) (allEmpty : Bool) : Option (Bool × Memory) :=
  (m.onHeap (.isEmpty (.batch worker))).bind (fun (reply, m) =>
    if reply = .empty true then some (allEmpty, m)
    else
      (m.onHeap (.popAll (.batch worker) .tasks)).bind (fun (_, m) =>
        (m.onHeap (.pushBackBatch (.queue worker) .tasks)).map (fun (_, m) =>
          (false, m.effect [.inserted worker]))))

def pushLists (m : Memory) (allEmpty : Bool) : Nat → WorkerId → Option (Bool × Memory)
  | 0, _ => some (allEmpty, m)
  | left + 1, worker =>
      (m.pushList worker allEmpty).bind (fun (allEmpty, m) =>
        pushLists m allEmpty left (worker + 1))

def pushBatch (m : Memory) : Option Memory :=
  if m.guarded then
    (m.pushLists true m.workers 0).map (fun (allEmpty, m) =>
      if allEmpty then m else m.effect [.nextEpoch])
  else none

def unguarded (m : Memory) : Memory :=
  { m with heap := withLists m.heap (fun _ => none), guarded := false }

def drop (m : Memory) : Option Memory := m.pushBatch.map unguarded

inductive Op where
  | wake (task : TaskRef)
  | pushBatch

def step (m : Memory) : Op → Option Memory
  | .wake task => m.wake task
  | .pushBatch => m.pushBatch

def run (m : Memory) : List Op → Option Memory
  | [] => some m
  | op :: rest => (m.step op).bind (run · rest)

end Memory

def wakesOf : List Memory.Op → List TaskRef
  | [] => []
  | .wake task :: rest => task :: wakesOf rest
  | .pushBatch :: rest => wakesOf rest

def scheduledBy (status : TaskRef → BitVec 8) : List TaskRef → List TaskRef
  | [] => []
  | task :: rest =>
      let later := scheduledBy (Function.update status task (Task.wakeStatus (status task))) rest
      if Task.schedules (status task) then task :: later else later

def statusAfter (status : TaskRef → BitVec 8) : List TaskRef → TaskRef → BitVec 8
  | [] => status
  | task :: rest =>
      statusAfter (Function.update status task (Task.wakeStatus (status task))) rest

/-- The sequences of the queues, and of those batch lists that there are. -/
def contents (workers : Nat) (queues : WorkerId → List TaskRef)
    (batches : WorkerId → Option (List TaskRef)) : Sequences Place
  | .queue worker => if worker < workers then some (queues worker) else none
  | .batch worker => batches worker
  | .tasks => none

def held (workers : Nat) (lists : WorkerId → List TaskRef) : WorkerId → Option (List TaskRef) :=
  fun worker => if worker < workers then some (lists worker) else none

section Contents

variable {workers : Nat} {queues : WorkerId → List TaskRef}
  {batches : WorkerId → Option (List TaskRef)} {worker : WorkerId} {tasks : List TaskRef}

private theorem contents_queue (bound : worker < workers) :
    contents workers queues batches (.queue worker) = some (queues worker) := if_pos bound

private theorem contents_put_queue (bound : worker < workers) :
    (contents workers queues batches).put (.queue worker) tasks =
      contents workers (Function.update queues worker tasks) batches := by
  funext place
  cases place with
  | queue other =>
      by_cases same : other = worker
      · subst other
        simp only [Sequences.put, Function.update_self, contents, if_pos bound]
      · have elsewhere : Place.queue other ≠ .queue worker := by
          intro equal
          exact same (Place.queue.inj equal)
        simp only [Sequences.put, Function.update_of_ne elsewhere, contents,
          Function.update_of_ne same]
  | batch other => rfl
  | tasks => rfl

private theorem contents_update_batch {given : Option (List TaskRef)} :
    Function.update (contents workers queues batches) (.batch worker) given =
      contents workers queues (Function.update batches worker given) := by
  funext place
  cases place with
  | queue other => rfl
  | batch other =>
      by_cases same : other = worker
      · subst other
        simp only [Function.update_self, contents]
      · have elsewhere : Place.batch other ≠ .batch worker := by
          intro equal
          exact same (Place.batch.inj equal)
        simp only [Function.update_of_ne elsewhere, contents, Function.update_of_ne same]
  | tasks => rfl

private theorem contents_take_tasks :
    ((contents workers queues batches).put .tasks tasks).take .tasks =
      contents workers queues batches := by
  rw [Sequences.put, Sequences.take, Function.update_idem]
  exact Function.update_eq_self Place.tasks (contents workers queues batches)

private theorem held_update (bound : worker < workers) {lists : WorkerId → List TaskRef} :
    Function.update (held workers lists) worker (some tasks) =
      held workers (Function.update lists worker tasks) := by
  funext other
  by_cases same : other = worker
  · subst other
    simp only [Function.update_self, held, if_pos bound]
  · simp only [Function.update_of_ne same, held]

end Contents

namespace Memory

def Settled (status : TaskRef → BitVec 8) (tasks : List TaskRef) : Prop :=
  ∀ task ∈ tasks, Task.schedules (status task) = false

/-- The lists stand for these sequences, no task in one of them is idle, and every
`worker_id` names a worker. -/
structure Sound (m : Memory) (queues : WorkerId → List TaskRef)
    (batches : WorkerId → Option (List TaskRef)) : Prop where
  represents : Represents m.heap (contents m.workers queues batches)
  queued : ∀ worker, worker < m.workers → Settled m.status (queues worker)
  batched : ∀ worker, ∀ tasks ∈ batches worker, Settled m.status tasks
  indexed : ∀ task, m.workerId task < m.workers

/-- The lists with the tasks that the wakes add to them, each to its worker's. -/
def arriving (m : Memory) (tasks : List TaskRef) (lists : WorkerId → List TaskRef) :
    WorkerId → List TaskRef :=
  fun worker =>
    lists worker ++ (scheduledBy m.status tasks).filter (fun task => m.workerId task = worker)

variable {m : Memory} {queues lists : WorkerId → List TaskRef}
  {batches : WorkerId → Option (List TaskRef)} {task : TaskRef} {worker : WorkerId}

private theorem onHeap_spec {seqs seqs' : Sequences Place} {op : ListOp Place} {reply : ListReply}
    (answers : Represents.Answers m.heap seqs op) (above : seqs.step op = some (reply, seqs')) :
    ∃ heap, m.onHeap op = some (reply, { m with heap := heap }) ∧ Represents heap seqs' := by
  obtain ⟨answer, heap, last, same, ran, related⟩ := answers
  rw [above] at same
  cases same
  refine ⟨heap, ?_, related⟩
  rw [onHeap, ran]
  rfl

theorem Sound.fresh (sound : m.Sound queues batches)
    (idle : Task.schedules (m.status task) = true) :
    ∀ place, ∀ tasks ∈ contents m.workers queues batches place, task ∉ tasks := by
  intro place tasks present member
  have settled : Task.schedules (m.status task) = false := by
    cases place with
    | queue worker =>
        rw [contents] at present
        by_cases bound : worker < m.workers
        · rw [if_pos bound] at present
          cases present
          exact sound.queued worker bound task member
        · rw [if_neg bound] at present
          cases present
    | batch worker => exact sound.batched worker tasks present task member
    | tasks => cases present
  rw [idle] at settled
  cases settled

theorem Settled.wake {status : TaskRef → BitVec 8} {tasks : List TaskRef}
    (settled : Settled status tasks) (task : TaskRef) :
    Settled (Function.update status task (Task.wakeStatus (status task))) (tasks ++ [task]) := by
  intro other member
  by_cases same : other = task
  · rw [same, Function.update_self]
    exact Task.schedules_wakeStatus (status task)
  · rw [Function.update_of_ne same]
    rcases List.mem_append.mp member with before | added
    · exact settled other before
    · exact absurd (List.mem_singleton.mp added) same

theorem Settled.left {status : TaskRef → BitVec 8} {tasks moved : List TaskRef}
    (settled : Settled status (tasks ++ moved)) : Settled status tasks :=
  fun task member => settled task (List.mem_append_left moved member)

theorem Settled.append {status : TaskRef → BitVec 8} {tasks moved : List TaskRef}
    (left : Settled status tasks) (right : Settled status moved) :
    Settled status (tasks ++ moved) := by
  intro task member
  rcases List.mem_append.mp member with before | added
  · exact left task before
  · exact right task added

private theorem arriving_scheduled (idle : Task.schedules (m.status task) = true) :
    m.arriving [task] lists =
      Function.update lists (m.workerId task) (lists (m.workerId task) ++ [task]) := by
  funext worker
  have added : scheduledBy m.status [task] = [task] := by
    rw [scheduledBy, if_pos idle]
    rfl
  rw [arriving, added]
  by_cases same : worker = m.workerId task
  · subst worker
    rw [Function.update_self, List.filter_singleton, decide_eq_true rfl]
    rfl
  · rw [Function.update_of_ne same, List.filter_singleton, decide_eq_false (Ne.symm same)]
    exact List.append_nil _

private theorem arriving_settled (settled : Task.schedules (m.status task) = false) :
    m.arriving [task] lists = lists := by
  funext worker
  have none : scheduledBy m.status [task] = [] := by
    rw [scheduledBy, settled]
    rfl
  rw [arriving, none, List.filter_nil, List.append_nil]

theorem Sound.marked (sound : m.Sound queues batches) (task : TaskRef) :
    (m.marked task).Sound queues batches :=
  ⟨sound.represents, fun worker bound => ((sound.queued worker bound).wake task).left,
    fun worker tasks present => ((sound.batched worker tasks present).wake task).left,
    sound.indexed⟩

private theorem wake_direct (sound : m.Sound queues batches) (direct : m.guarded = false)
    (task : TaskRef) :
    ∃ heap effects,
      m.wake task = some { m.marked task with heap := heap, effects := effects } ∧
      { m.marked task with heap := heap, effects := effects }.Sound
        (m.arriving [task] queues) batches := by
  have marked := sound.marked task
  have bound := sound.indexed task
  cases idle : Task.schedules (m.status task) with
  | false =>
      refine ⟨m.heap, m.effects, ?_, ?_⟩
      · rw [wake, idle]
        rfl
      · rw [arriving_settled idle]
        exact marked
  | true =>
      have legal : (contents m.workers queues batches).Legal
          (.pushBack (.queue (m.workerId task)) task) := by
        constructor
        · rw [contents, if_pos bound]
          exact Option.some_ne_none _
        · exact sound.fresh idle
      have above : (contents m.workers queues batches).step
          (.pushBack (.queue (m.workerId task)) task) =
            some (.done, contents m.workers (m.arriving [task] queues) batches) := by
        rw [arriving_scheduled idle, ← contents_put_queue bound]
        simp only [Sequences.step, contents, if_pos bound, Option.map_some]
      obtain ⟨heap, ran, related⟩ :=
        onHeap_spec (marked.represents.pushBack_answers legal) above
      refine ⟨heap, m.effects ++ [.inserted (m.workerId task), .nextEpoch], ?_, ?_⟩
      · rw [wake, if_pos idle, direct, if_neg Bool.false_ne_true, ran]
        rfl
      · refine ⟨related, ?_, marked.batched, marked.indexed⟩
        intro worker here
        rw [arriving_scheduled idle]
        by_cases same : worker = m.workerId task
        · subst worker
          rw [Function.update_self]
          exact (sound.queued _ here).wake task
        · rw [Function.update_of_ne same]
          exact marked.queued worker here

private theorem wake_guarded (sound : m.Sound queues (held m.workers lists))
    (guarded : m.guarded = true)
    (task : TaskRef) :
    ∃ heap, m.wake task = some { m.marked task with heap := heap } ∧
      { m.marked task with heap := heap }.Sound queues
        (held m.workers (m.arriving [task] lists)) := by
  have marked := sound.marked task
  have bound := sound.indexed task
  have here : held m.workers lists (m.workerId task) = some (lists (m.workerId task)) :=
    if_pos bound
  cases idle : Task.schedules (m.status task) with
  | false =>
      refine ⟨m.heap, ?_, ?_⟩
      · rw [wake, idle]
        rfl
      · rw [arriving_settled idle]
        exact marked
  | true =>
      have legal : (contents m.workers queues (held m.workers lists)).Legal
          (.pushBack (.batch (m.workerId task)) task) := by
        constructor
        · rw [contents, here]
          exact Option.some_ne_none _
        · exact sound.fresh idle
      have above : (contents m.workers queues (held m.workers lists)).step
          (.pushBack (.batch (m.workerId task)) task) =
            some (.done, contents m.workers queues
              (held m.workers (m.arriving [task] lists))) := by
        rw [arriving_scheduled idle, ← held_update bound, ← contents_update_batch]
        simp only [Sequences.step, contents, here, Option.map_some]
        rfl
      obtain ⟨heap, ran, related⟩ :=
        onHeap_spec (marked.represents.pushBack_answers legal) above
      refine ⟨heap, ?_, related, marked.queued, ?_, marked.indexed⟩
      · rw [wake, if_pos idle, if_pos guarded, ran]
        rfl
      · intro worker tasks present
        rw [arriving_scheduled idle, ← held_update bound] at present
        by_cases same : worker = m.workerId task
        · subst worker
          rw [Function.update_self] at present
          cases present
          exact (sound.batched _ _ here).wake task
        · rw [Function.update_of_ne same] at present
          exact marked.batched worker tasks present

def insertions (moved : WorkerId → List TaskRef) (workers : List WorkerId) : List WorkerId :=
  workers.filter (fun worker => !(moved worker).isEmpty)

theorem Sound.pushTasks {moved : List TaskRef} (sound : m.Sound queues batches)
    (bound : worker < m.workers) (listed : batches worker = some moved) (nonempty : moved ≠ []) :
    ∃ popped heap,
      m.onHeap (.popAll (.batch worker) .tasks) = some (.done, { m with heap := popped }) ∧
      { m with heap := popped }.onHeap (.pushBackBatch (.queue worker) .tasks) =
        some (.done, { m with heap := heap }) ∧
      { m with heap := heap }.Sound (Function.update queues worker (queues worker ++ moved))
        (Function.update batches worker (some [])) := by
  have here : contents m.workers queues batches (.batch worker) = some moved := listed
  have known : contents m.workers queues batches (.batch worker) ≠ none := by
    rw [here]
    exact Option.some_ne_none moved
  let emptied := contents m.workers queues (Function.update batches worker (some []))
  have taken : (contents m.workers queues batches).step (.popAll (.batch worker) .tasks) =
      some (.done, emptied.put .tasks moved) := by
    simp only [Sequences.step, here, Option.map_some, Sequences.put, contents_update_batch,
      emptied]
  obtain ⟨popped, ran, related⟩ := onHeap_spec (sound.represents.popAll_answers known) taken
  have queue : emptied.put .tasks moved (.queue worker) = some (queues worker) := if_pos bound
  have tasks : emptied.put .tasks moved .tasks = some moved := Function.update_self ..
  have legal : (emptied.put .tasks moved).Legal (.pushBackBatch (.queue worker) .tasks) := by
    refine ⟨Place.noConfusion, ?_, ?_, ?_⟩
    · rw [queue]
      exact Option.some_ne_none _
    · rw [tasks]
      exact Option.some_ne_none _
    · rw [tasks]
      exact fun same => nonempty (Option.some.inj same)
  have above : (emptied.put .tasks moved).step (.pushBackBatch (.queue worker) .tasks) =
      some (.done, contents m.workers
        (Function.update queues worker (queues worker ++ moved))
        (Function.update batches worker (some []))) := by
    simp only [Sequences.step, queue, tasks, Option.bind_some, Option.map_some, emptied,
      contents_take_tasks, contents_put_queue bound]
  obtain ⟨heap, pushed, after⟩ := @onHeap_spec { m with heap := popped } _ _ _ _
    (related.pushBackBatch_answers legal) above
  refine ⟨popped, heap, ran, pushed, after, ?_, ?_, sound.indexed⟩
  · intro other within
    by_cases same : other = worker
    · subst other
      rw [Function.update_self]
      exact (sound.queued worker bound).append (sound.batched worker moved listed)
    · rw [Function.update_of_ne same]
      exact sound.queued other within
  · intro other tasks present
    by_cases same : other = worker
    · subst other
      rw [Function.update_self] at present
      cases present
      exact fun task none => absurd none List.not_mem_nil
    · rw [Function.update_of_ne same] at present
      exact sound.batched other tasks present

private theorem pushList_spec {moved : List TaskRef} (sound : m.Sound queues batches)
    (allEmpty : Bool) (bound : worker < m.workers)
    (listed : batches worker = some moved) :
    ∃ heap effects, m.pushList worker allEmpty =
        some (allEmpty && moved.isEmpty, { m with heap := heap, effects := effects }) ∧
      effects = m.effects ++ (if moved.isEmpty then [] else [.inserted worker]) ∧
      { m with heap := heap, effects := effects }.Sound
        (Function.update queues worker (queues worker ++ moved))
        (Function.update batches worker (some [])) := by
  have here : contents m.workers queues batches (.batch worker) = some moved := listed
  have known : contents m.workers queues batches (.batch worker) ≠ none := by
    rw [here]
    exact Option.some_ne_none moved
  have asked : (contents m.workers queues batches).step (.isEmpty (.batch worker)) =
      some (.empty moved.isEmpty, contents m.workers queues batches) := by
    simp only [Sequences.step, here, Option.map_some]
  obtain ⟨heap, ran, related⟩ := onHeap_spec (sound.represents.isEmpty_answers known) asked
  have checked : { m with heap := heap }.Sound queues batches :=
    ⟨related, sound.queued, sound.batched, sound.indexed⟩
  cases empty : moved.isEmpty with
  | true =>
      have none : moved = [] := List.isEmpty_iff.mp empty
      refine ⟨heap, m.effects, ?_, ?_, ?_⟩
      · simp only [pushList, ran, empty, Option.bind_some, if_true, Bool.and_true]
      · rw [if_pos rfl, List.append_nil]
      · rw [none, List.append_nil, Function.update_eq_self]
        have same : Function.update batches worker (some []) = batches := by
          rw [← none, ← listed]
          exact Function.update_eq_self worker batches
        rw [same]
        exact checked
  | false =>
      have some : moved ≠ [] := by
        intro none
        rw [none] at empty
        cases empty
      obtain ⟨popped, last, took, pushed, after⟩ := checked.pushTasks bound listed some
      refine ⟨last, m.effects ++ [.inserted worker], ?_, rfl, ?_⟩
      · simp only [pushList, ran, empty, Option.bind_some, ListReply.empty.injEq,
          Bool.false_eq_true, if_false, took, pushed, Option.map_some, Bool.and_false]
        rfl
      · exact ⟨after.represents, after.queued, after.batched, after.indexed⟩

private theorem insertions_succ (moved : WorkerId → List TaskRef) (worker left : Nat) :
    insertions moved (List.range' worker (left + 1)) =
      (if (moved worker).isEmpty then [] else [worker]) ++
        insertions moved (List.range' (worker + 1) left) := by
  rw [insertions, List.range'_succ, List.filter_cons]
  cases (moved worker).isEmpty <;> rfl

/-- What the loop has added to the queues, from one worker up to another. -/
def moving (first last : WorkerId) (queues moved : WorkerId → List TaskRef) :
    WorkerId → List TaskRef :=
  fun worker => if first ≤ worker ∧ worker < last then queues worker ++ moved worker
    else queues worker

def emptying (first last : WorkerId) (batches : WorkerId → Option (List TaskRef)) :
    WorkerId → Option (List TaskRef) :=
  fun worker => if first ≤ worker ∧ worker < last then some [] else batches worker

private theorem between_succ {worker first last : Nat} (different : worker ≠ first) :
    (first + 1 ≤ worker ∧ worker < last) ↔ (first ≤ worker ∧ worker < last) := by
  constructor
  · rintro ⟨above, below⟩
    omega
  · rintro ⟨above, below⟩
    omega

private theorem moving_succ {first last : WorkerId} (less : first < last)
    {moved : WorkerId → List TaskRef} :
    moving (first + 1) last (Function.update queues first (queues first ++ moved first)) moved =
      moving first last queues moved := by
  funext worker
  by_cases same : worker = first
  · subst worker
    rw [moving, if_neg (fun within => absurd within.1 (Nat.not_succ_le_self first)),
      Function.update_self, moving, if_pos ⟨Nat.le_refl first, less⟩]
  · rw [moving, moving, Function.update_of_ne same]
    simp only [between_succ same]

private theorem emptying_succ {first last : WorkerId} (less : first < last) :
    emptying (first + 1) last (Function.update batches first (some [])) =
      emptying first last batches := by
  funext worker
  by_cases same : worker = first
  · subst worker
    rw [emptying, if_neg (fun within => absurd within.1 (Nat.not_succ_le_self first)),
      Function.update_self, emptying, if_pos ⟨Nat.le_refl first, less⟩]
  · rw [emptying, emptying, Function.update_of_ne same]
    simp only [between_succ same]

private theorem pushLists_spec {left : Nat} {moved : WorkerId → List TaskRef} :
    ∀ {m : Memory} {queues : WorkerId → List TaskRef}
      {batches : WorkerId → Option (List TaskRef)} (allEmpty : Bool) {worker : WorkerId},
      m.Sound queues batches → worker + left ≤ m.workers →
      (∀ other, worker ≤ other → other < worker + left → batches other = some (moved other)) →
      ∃ heap effects, m.pushLists allEmpty left worker =
          some (allEmpty && (insertions moved (List.range' worker left)).isEmpty,
            { m with heap := heap, effects := effects }) ∧
        effects = m.effects ++
          (insertions moved (List.range' worker left)).map Effect.inserted ∧
        { m with heap := heap, effects := effects }.Sound
          (moving worker (worker + left) queues moved)
          (emptying worker (worker + left) batches) := by
  induction left with
  | zero =>
      intro m queues batches allEmpty worker sound _bound _listed
      refine ⟨m.heap, m.effects, ?_, ?_, ?_⟩
      · rw [pushLists, List.range'_zero, insertions, List.filter_nil, List.isEmpty_nil,
          Bool.and_true]
      · rw [List.range'_zero, insertions, List.filter_nil, List.map_nil, List.append_nil]
      · have queued : moving worker (worker + 0) queues moved = queues := by
          funext other
          exact if_neg (fun within => absurd within.2 (Nat.not_lt.mpr within.1))
        have batched : emptying worker (worker + 0) batches = batches := by
          funext other
          exact if_neg (fun within => absurd within.2 (Nat.not_lt.mpr within.1))
        rw [queued, batched]
        exact sound
  | succ left ih =>
      intro m queues batches allEmpty worker sound bound listed
      have less : worker < worker + (left + 1) := Nat.lt_add_of_pos_right (Nat.succ_pos left)
      have order : worker + 1 + left = worker + (left + 1) := Nat.add_right_comm worker 1 left
      obtain ⟨heap, effects, ran, added, after⟩ := pushList_spec sound allEmpty
        (Nat.lt_of_lt_of_le less bound) (listed worker (Nat.le_refl worker) less)
      have later : ∀ other, worker + 1 ≤ other → other < worker + 1 + left →
          Function.update batches worker (some []) other = some (moved other) := by
        intro other above below
        rw [Function.update_of_ne (Nat.ne_of_gt above)]
        exact listed other (Nat.le_of_succ_le above) (order ▸ below)
      obtain ⟨last, final, rest, grown, ends⟩ := ih (allEmpty && (moved worker).isEmpty) after
        (order ▸ bound) later
      refine ⟨last, final, ?_, ?_, ?_⟩
      · simp only [pushLists, ran, Option.bind_some, rest, insertions_succ]
        cases (moved worker).isEmpty
        · simp only [Bool.and_false, Bool.false_and, Bool.false_eq_true, if_false,
            List.singleton_append, List.isEmpty_cons]
        · simp only [Bool.and_true, if_true, List.nil_append]
      · rw [grown, added, insertions_succ, List.append_assoc, List.map_append]
        cases (moved worker).isEmpty <;> rfl
      · rw [order, moving_succ less, emptying_succ less] at ends
        exact ends

private theorem held_empty (workers : Nat) (lists : WorkerId → List TaskRef) :
    emptying 0 (0 + workers) (held workers lists) = held workers (fun _ => []) := by
  funext worker
  rw [emptying, held, held, Nat.zero_add]
  by_cases bound : worker < workers
  · rw [if_pos ⟨Nat.zero_le worker, bound⟩, if_pos bound]
  · rw [if_neg (fun within => bound within.2), if_neg bound, if_neg bound]

theorem Sound.congr {queues' : WorkerId → List TaskRef} (sound : m.Sound queues batches)
    (same : ∀ worker, worker < m.workers → queues worker = queues' worker) :
    m.Sound queues' batches := by
  have equal : contents m.workers queues batches = contents m.workers queues' batches := by
    funext place
    cases place with
    | queue worker =>
        by_cases bound : worker < m.workers
        · simp only [contents, if_pos bound, same worker bound]
        · simp only [contents, if_neg bound]
    | batch worker => rfl
    | tasks => rfl
  refine ⟨equal ▸ sound.represents, ?_, sound.batched, sound.indexed⟩
  intro worker bound
  rw [← same worker bound]
  exact sound.queued worker bound

/-- The epoch moves on if and only if something was inserted, and after all insertions. -/
theorem pushBatch_spec (sound : m.Sound queues (held m.workers lists))
    (guarded : m.guarded = true) :
    ∃ heap effects, m.pushBatch = some { m with heap := heap, effects := effects } ∧
      effects = m.effects ++
        (insertions lists (List.range m.workers)).map Effect.inserted ++
        (if (insertions lists (List.range m.workers)).isEmpty then [] else [.nextEpoch]) ∧
      { m with heap := heap, effects := effects }.Sound
        (fun worker => queues worker ++ lists worker) (held m.workers (fun _ => [])) := by
  have listed : ∀ other, 0 ≤ other → other < 0 + m.workers →
      held m.workers lists other = some (lists other) := by
    intro other _above below
    rw [Nat.zero_add] at below
    exact if_pos below
  obtain ⟨heap, effects, ran, grown, after⟩ := pushLists_spec true sound
    (Nat.le_of_eq (Nat.zero_add m.workers)) listed
  rw [held_empty] at after
  rw [← List.range_eq_range'] at ran grown
  rw [Bool.true_and] at ran
  have queued : ∀ worker, worker < m.workers →
      moving 0 (0 + m.workers) queues lists worker = queues worker ++ lists worker := by
    intro worker bound
    rw [moving, Nat.zero_add, if_pos ⟨Nat.zero_le worker, bound⟩]
  have settled := after.congr queued
  cases empty : (insertions lists (List.range m.workers)).isEmpty with
  | true =>
      refine ⟨heap, effects, ?_, ?_, settled⟩
      · simp only [pushBatch, guarded, ran, empty, Option.map_some, if_true]
      · rw [grown, if_pos rfl, List.append_nil]
  | false =>
      refine ⟨heap, effects ++ [.nextEpoch], ?_, ?_, ?_⟩
      · simp only [pushBatch, guarded, ran, empty, Option.map_some, if_true,
          Bool.false_eq_true, if_false]
        rfl
      · rw [grown]
        rfl
      · exact ⟨settled.represents, settled.queued, settled.batched, settled.indexed⟩

private theorem represents_withLists {workers : Nat} {heap : Heap Place}
    {lists : WorkerId → Option TaskList} {batches' : WorkerId → Option (List TaskRef)}
    (represents : Represents heap (contents workers queues batches))
    (holds : ∀ worker, Option.Rel (TaskList.Holds heap.next) (lists worker) (batches' worker))
    (empty : ∀ worker, ∀ tasks ∈ batches' worker, tasks = []) :
    Represents (withLists heap lists) (contents workers queues batches') := by
  constructor
  · intro place
    cases place with
    | queue worker => exact represents.holds (.queue worker)
    | batch worker => exact holds worker
    | tasks => exact represents.holds .tasks
  · intro place other different tasks member others present
    cases place with
    | batch worker =>
        rw [empty worker tasks member]
        exact List.disjoint_nil_left others
    | tasks => cases member
    | queue worker =>
        cases other with
        | batch second =>
            rw [empty second others present]
            exact List.disjoint_nil_right tasks
        | tasks => cases present
        | queue second =>
            exact represents.apart (.queue worker) (.queue second) different tasks member
              others present

theorem Sound.unguarded (sound : m.Sound queues batches) :
    m.unguarded.Sound queues (fun _ => none) := by
  refine ⟨represents_withLists sound.represents (fun _ => .none) ?_, sound.queued, ?_,
    sound.indexed⟩
  · intro worker tasks member
    cases member
  · intro worker tasks member
    cases member

private theorem newGuard_spec (sound : m.Sound queues (fun _ => none))
    (direct : m.guarded = false) :
    ∃ heap, m.newGuard = some { m with heap := heap, guarded := true } ∧
      { m with heap := heap, guarded := true }.Sound queues (held m.workers (fun _ => [])) := by
  have empty : ∀ worker, ∀ tasks ∈ held m.workers (fun _ => []) worker, tasks = [] := by
    intro worker tasks member
    rw [held] at member
    split at member
    · cases member
      rfl
    · cases member
  refine ⟨withLists m.heap
    (fun worker => if worker < m.workers then some TaskList.new else none), ?_, ?_⟩
  · rw [newGuard, direct]
    rfl
  · refine ⟨represents_withLists sound.represents ?_ empty, sound.queued, ?_, sound.indexed⟩
    · intro worker
      by_cases bound : worker < m.workers
      · rw [held, if_pos bound, if_pos bound]
        exact .some (TaskList.holds_new m.heap.next)
      · rw [held, if_neg bound, if_neg bound]
        exact .none
    · intro worker tasks member task queued
      rw [empty worker tasks member] at queued
      cases queued

private theorem arriving_append (tasks : List TaskRef) :
    (fun worker => queues worker ++ m.arriving tasks lists worker) =
      m.arriving tasks (fun worker => queues worker ++ lists worker) := by
  funext worker
  exact (List.append_assoc ..).symm

private theorem arriving_cons (task : TaskRef) (rest : List TaskRef) :
    (m.marked task).arriving rest (m.arriving [task] lists) = m.arriving (task :: rest) lists := by
  funext worker
  cases idle : Task.schedules (m.status task) with
  | false =>
      rw [arriving_settled idle, arriving, arriving, scheduledBy, idle]
      rfl
  | true =>
      have added : scheduledBy m.status [task] = [task] := by
        rw [scheduledBy, if_pos idle]
        rfl
      have first : scheduledBy m.status (task :: rest) =
          [task] ++ scheduledBy (m.marked task).status rest := by
        rw [scheduledBy, if_pos idle]
        rfl
      rw [arriving, arriving, arriving, added, first, List.filter_append, List.append_assoc]
      rfl

/-- Between the queues and the batch lists nothing is lost and the order is kept. -/
theorem run_spec (ops : List Op) :
    ∀ {m : Memory} {queues lists : WorkerId → List TaskRef},
      m.Sound queues (held m.workers lists) → m.guarded = true →
      ∃ heap effects queues' lists',
        m.run ops = some { m with
          heap := heap, effects := effects, status := statusAfter m.status (wakesOf ops) } ∧
        { m with
          heap := heap, effects := effects,
          status := statusAfter m.status (wakesOf ops) }.Sound queues' (held m.workers lists') ∧
        (fun worker => queues' worker ++ lists' worker) =
          m.arriving (wakesOf ops) (fun worker => queues worker ++ lists worker) := by
  induction ops with
  | nil =>
      intro m queues lists sound _guarded
      refine ⟨m.heap, m.effects, queues, lists, rfl, sound, ?_⟩
      funext worker
      exact (List.append_nil _).symm
  | cons op rest ih =>
      intro m queues lists sound guarded
      cases op with
      | wake task =>
          obtain ⟨heap, woken, after⟩ := wake_guarded sound guarded task
          obtain ⟨last, effects, queues', lists', ran, ends, whole⟩ := ih after guarded
          refine ⟨last, effects, queues', lists', ?_, ends, ?_⟩
          · rw [run, step, woken, Option.bind_some, ran]
            rfl
          · rw [whole, arriving_append]
            exact arriving_cons task (wakesOf rest)
      | pushBatch =>
          obtain ⟨heap, effects, pushed, _grown, after⟩ := pushBatch_spec sound guarded
          obtain ⟨last, final, queues', lists', ran, ends, whole⟩ := ih after guarded
          refine ⟨last, final, queues', lists', ?_, ends, ?_⟩
          · rw [run, step, pushed, Option.bind_some, ran]
            rfl
          · rw [whole]
            funext worker
            simp only [List.append_nil]
            rfl

private theorem wakeAll_spec (tasks : List TaskRef) :
    ∀ {m : Memory} {queues : WorkerId → List TaskRef},
      m.Sound queues batches → m.guarded = false →
      ∃ heap effects,
        m.wakeAll tasks = some { m with
          heap := heap, effects := effects, status := statusAfter m.status tasks } ∧
        { m with
          heap := heap, effects := effects, status := statusAfter m.status tasks }.Sound
          (m.arriving tasks queues) batches := by
  induction tasks with
  | nil =>
      intro m queues sound _direct
      refine ⟨m.heap, m.effects, rfl, ?_⟩
      have same : m.arriving [] queues = queues := by
        funext worker
        exact List.append_nil _
      rw [same]
      exact sound
  | cons task rest ih =>
      intro m queues sound direct
      obtain ⟨heap, effects, woken, after⟩ := wake_direct sound direct task
      obtain ⟨last, final, ran, ends⟩ := ih after direct
      refine ⟨last, final, ?_, ?_⟩
      · rw [wakeAll, woken, Option.bind_some, ran]
        rfl
      · rw [← arriving_cons]
        exact ends

def listAt {cfg : TaskSystem.Config} (thread : Fin cfg.threads) : Place → TaskSystem.ListId cfg
  | .queue worker => .queue worker
  | .batch worker => .batch thread worker
  | .tasks => .teardown

def gathered {cfg : TaskSystem.Config} (s : TaskSystem.State cfg) (thread : Fin cfg.threads) :
    WorkerId → Option (List TaskRef) :=
  if s.slot thread = .runtimeLocal then
    held cfg.workers (fun worker => s.lists (.batch thread worker))
  else fun _ => none

/-- The memory of one thread in a state of the whole system, with any links. -/
structure Mirrors {cfg : TaskSystem.Config} (m : Memory) (s : TaskSystem.State cfg)
    (thread : Fin cfg.threads) : Prop where
  workers : m.workers = cfg.workers
  status : ∀ task, m.status task = (s.tasks task).status
  workerId : ∀ task, m.workerId task = (s.tasks task).workerId
  guarded : m.guarded = true ↔ s.slot thread = .runtimeLocal
  holds : ∀ place, Option.Rel (TaskList.Holds m.heap.next) (m.heap.lists place)
    (contents m.workers (fun worker => s.lists (.queue worker)) (gathered s thread) place)

private theorem contents_of_state {cfg : TaskSystem.Config} {s : TaskSystem.State cfg}
    {thread : Fin cfg.threads} {workers : Nat} {place : Place} {tasks : List TaskRef}
    (present : tasks ∈
      contents workers (fun worker => s.lists (.queue worker)) (gathered s thread) place) :
    place ≠ .tasks ∧ tasks = s.lists (listAt thread place) := by
  cases place with
  | queue worker =>
      by_cases bound : worker < workers
      · simp only [contents, if_pos bound] at present
        cases present
        exact ⟨Place.noConfusion, rfl⟩
      · simp only [contents, if_neg bound] at present
        cases present
  | batch worker =>
      rw [contents, gathered] at present
      by_cases slot : s.slot thread = .runtimeLocal
      · rw [if_pos slot, held] at present
        by_cases bound : worker < cfg.workers
        · rw [if_pos bound] at present
          cases present
          exact ⟨Place.noConfusion, rfl⟩
        · rw [if_neg bound] at present
          cases present
      · rw [if_neg slot] at present
        cases present
  | tasks => cases present

private theorem listAt_injective {cfg : TaskSystem.Config} {thread : Fin cfg.threads}
    {place other : Place} (same : listAt thread place = listAt thread other) : place = other := by
  cases place <;> cases other <;> cases same <;> rfl

/-- In a reachable state every thread's memory is sound. -/
theorem Mirrors.sound {cfg : TaskSystem.Config} {s : TaskSystem.State cfg}
    {thread : Fin cfg.threads} (mirrors : m.Mirrors s thread) (some : 0 < cfg.workers)
    (reached : (TaskSystem.system cfg).Reachable TaskSystem.noPanic s) :
    m.Sound (fun worker => s.lists (.queue worker)) (gathered s thread) := by
  have inv := TaskSystem.reachable_inv reached
  have settled : ∀ list, Settled m.status (s.lists list) := by
    intro list task member
    obtain ⟨place, located⟩ := inv task
    have here := located.counts.place_of_list member
    subst here
    rw [mirrors.status task]
    exact Task.schedules_held located.settled.2.held
  refine ⟨⟨mirrors.holds, ?_⟩, fun worker _ => settled (.queue worker), ?_, ?_⟩
  · intro place other different tasks member others present task left right
    have first := (contents_of_state member).2
    have second := (contents_of_state present).2
    rw [first] at left
    rw [second] at right
    obtain ⟨where', located⟩ := inv task
    have here := located.counts.place_of_list left
    have there := located.counts.place_of_list right
    rw [here] at there
    have same := TaskSystem.Holder.list.inj (TaskSystem.Place.held.inj there)
    exact different (listAt_injective same)
  · intro worker tasks member
    have present : tasks ∈ contents m.workers (fun worker => s.lists (.queue worker))
        (gathered s thread) (.batch worker) := member
    rw [(contents_of_state present).2]
    exact settled (.batch thread worker)
  · intro task
    rw [mirrors.workers, mirrors.workerId task]
    exact (TaskSystem.reachable_indexed some reached).tasks task

/-- On a thread whose guard has empty batch lists, wakes that are pushed in batches end as
the same wakes do without the guard, and a push moves the epoch exactly if it inserted. -/
theorem batched_wakes_agree (sound : m.Sound queues (held m.workers (fun _ => [])))
    (guarded : m.guarded = true) (ops : List Op) :
    ∃ mid pushed dropped direct queues' lists',
      m.run ops = some mid ∧ mid.pushBatch = some pushed ∧ mid.drop = some dropped ∧
      m.unguarded.wakeAll (wakesOf ops) = some direct ∧
      mid.Sound queues' (held m.workers lists') ∧
      pushed.effects = mid.effects ++
        (insertions lists' (List.range m.workers)).map Effect.inserted ++
        (if (insertions lists' (List.range m.workers)).isEmpty then [] else [.nextEpoch]) ∧
      pushed.Sound (m.arriving (wakesOf ops) queues) (held m.workers (fun _ => [])) ∧
      dropped.Sound (m.arriving (wakesOf ops) queues) (fun _ => none) ∧
      direct.Sound (m.arriving (wakesOf ops) queues) (fun _ => none) ∧
      pushed.status = direct.status ∧ dropped.status = direct.status ∧
      pushed.workers = m.workers ∧ dropped.workers = m.workers ∧ direct.workers = m.workers := by
  obtain ⟨heap, effects, queues', lists', ran, middle, whole⟩ :=
    run_spec ops sound guarded
  obtain ⟨last, final, pushed, grown, after⟩ := pushBatch_spec middle guarded
  have dropped := congrArg (Option.map unguarded) pushed
  obtain ⟨_end, _trace, woken, alone⟩ := wakeAll_spec (wakesOf ops) sound.unguarded rfl
  have joined : (fun worker => queues' worker ++ lists' worker) =
      m.arriving (wakesOf ops) queues := by
    rw [whole]
    funext worker
    simp only [arriving, List.append_nil]
  refine ⟨_, _, _, _, queues', lists', ran, pushed, dropped, woken, middle, grown, ?_, ?_, alone,
    rfl, rfl, rfl, rfl, rfl⟩
  · exact joined ▸ after
  · exact joined ▸ after.unguarded

def oneQueued : Memory :=
  { workers := 2
    heap :=
      { next := fun _ => some 9
        lists := fun place =>
          match place with
          | .queue worker =>
              if worker = 0 then some { head := some 5, tail := some 5 }
              else if worker = 1 then some TaskList.new else none
          | _ => none }
    status := fun task => if task = 5 then Task.initialStatus else Task.idleStatus
    workerId := fun task => if task = 7 then 1 else 0
    guarded := false
    effects := [] }

private theorem oneQueued_sound :
    oneQueued.Sound (fun worker => if worker = 0 then [5] else []) (fun _ => none) := by
  constructor
  · constructor
    · intro place
      cases place with
      | queue worker =>
          match worker with
          | 0 => exact .some (Segment.single _ 5)
          | 1 => exact .some (TaskList.holds_new _)
          | _ + 2 => exact .none
      | batch worker => exact .none
      | tasks => exact .none
    · intro place other different tasks member others present task left right
      cases place with
      | queue worker =>
          cases other with
          | queue second =>
              simp only [contents, oneQueued] at member present
              have here : worker = 0 := by grind
              have there : second = 0 := by grind
              rw [here, there] at different
              contradiction
          | batch second => cases present
          | tasks => cases present
      | batch worker => cases member
      | tasks => cases member
  · intro worker _bound task member
    have five : task = 5 := by grind
    rw [five]
    rfl
  · intro worker tasks member
    cases member
  · intro task
    change (if task = 7 then 1 else 0) < 2
    split <;> decide

def someWakes : List Op := [.wake 7, .wake 8, .pushBatch, .wake 7, .wake 6]

theorem batched_wakes_agree_of_one_queued :
    ∃ guarded mid pushed first second, oneQueued.newGuard = some guarded ∧
      guarded.run someWakes = some mid ∧ mid.pushBatch = some pushed ∧
      pushed.heap.lists (.queue 0) = some first ∧ first.Holds pushed.heap.next [5, 8, 6] ∧
      pushed.heap.lists (.queue 1) = some second ∧ second.Holds pushed.heap.next [7] := by
  obtain ⟨heap, made, sound⟩ := newGuard_spec oneQueued_sound rfl
  obtain ⟨mid, pushed, _dropped, _direct, _queues, _lists, ran, flushed, _drop, _woken, _middle,
    _effects, after, _fell, _alone, _status, _marks, workers, _others⟩ :=
    batched_wakes_agree sound rfl someWakes
  have related := after.represents
  rw [workers] at related
  have front : oneQueued.arriving (wakesOf someWakes)
      (fun worker => if worker = 0 then [5] else []) 0 = [5, 8, 6] := by decide
  have rear : oneQueued.arriving (wakesOf someWakes)
      (fun worker => if worker = 0 then [5] else []) 1 = [7] := by decide
  obtain ⟨first, here, holds⟩ :=
    related.list ((contents_queue Nat.zero_lt_two).trans (congrArg some front))
  obtain ⟨second, there, carries⟩ :=
    related.list ((contents_queue Nat.one_lt_two).trans (congrArg some rear))
  exact ⟨_, mid, pushed, first, second, made, ran, flushed, here, holds, there, carries⟩

end Memory

end Yaay.Batch
