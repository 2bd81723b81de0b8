import Yaay.Runtime.SyncTaskList

set_option autoImplicit false

/-! What holds between the accesses of `SyncTaskList`s: an operation takes effect with its
store to the head, or to a link where it leaves the head, so that the head always tells
whether the sequence is empty. -/

namespace Yaay.SyncTaskList

open TaskSystem (TaskRef)

variable {Name Thread : Type} [DecidableEq Name] [DecidableEq Thread]

abbrev Spec (Name Thread : Type) :=
  Atomic.Object Thread (Queues Name) (Op Name) (Reply (List TaskRef))

abbrev SpecPhase (Name : Type) := Atomic.Phase (Op Name) (Reply (List TaskRef))

def Reply.tasks : Reply (List TaskRef) → List TaskRef
  | .popped task => task.toList
  | .taken batch => batch
  | .done | .empty _ => []

variable {s s' : State Name Thread} {a a' : Spec Name Thread} {thread : Thread} {name : Name}
  {spot : Spot} {phase : SpecPhase Name} {tasks batch : List TaskRef}

/-- A linked batch that only the thread's call reaches. -/
structure Carries (s : State Name Thread) (thread : Thread) (batch : List TaskRef) : Prop where
  linked : (ends batch).Holds s.next batch
  own : ∀ task ∈ batch, s.place task = .call thread

def Waiting (s : State Name Thread) (thread : Thread) (name : Name) (phase : SpecPhase Name) :
    Spot → Prop
  | .pushBack batch =>
      phase = .called (.pushBackBatch name batch) ∧ batch ≠ [] ∧ Carries s thread batch
  | .pushFront batch =>
      phase = .called (.pushFrontBatch name batch) ∧ batch ≠ [] ∧ Carries s thread batch
  | .popFront => phase = .called (.popFront name)
  | .takeAll => phase = .called (.takeAll name)
  | _ => False

/-- What the thread has loaded, and what its stores have made of the list so far. -/
def Inside (s : State Name Thread) (thread : Thread) (name : Name) (tasks : List TaskRef)
    (phase : SpecPhase Name) : Spot → Prop
  | .pushBack batch =>
      Waiting s thread name phase (.pushBack batch) ∧ (s.lists name).Holds s.next tasks
  | .linkTail batch tail =>
      Waiting s thread name phase (.pushBack batch) ∧ (s.lists name).Holds s.next tasks ∧
        (s.lists name).tail = some tail
  | .fillHead batch =>
      Waiting s thread name phase (.pushBack batch) ∧ (s.lists name).Holds s.next tasks ∧
        (s.lists name).tail = none
  | .storeTail batch =>
      phase = .answered .done ∧ Segment s.next (s.lists name).head (ends batch).tail tasks
  | .pushFront batch =>
      Waiting s thread name phase (.pushFront batch) ∧ (s.lists name).Holds s.next tasks
  | .linkBatch batch head =>
      Waiting s thread name phase (.pushFront batch) ∧ (s.lists name).Holds s.next tasks ∧
        (s.lists name).head = some head
  | .fillTail batch =>
      Waiting s thread name phase (.pushFront batch) ∧ (s.lists name).Holds s.next tasks ∧
        (s.lists name).head = none
  | .storeHead batch =>
      phase = .called (.pushFrontBatch name batch) ∧
        (∀ task ∈ batch, s.place task = .call thread) ∧
        Segment s.next (ends batch).head (s.lists name).tail (batch ++ tasks)
  | .popFront => Waiting s thread name phase .popFront ∧ (s.lists name).Holds s.next tasks
  | .loadTail head =>
      Waiting s thread name phase .popFront ∧ (s.lists name).Holds s.next tasks ∧
        (s.lists name).head = some head
  | .clearHead head =>
      Waiting s thread name phase .popFront ∧ (s.lists name).Holds s.next tasks ∧
        (s.lists name).head = some head ∧ (s.lists name).tail = some head
  | .clearTail head =>
      phase = .answered (.popped (some head)) ∧ s.place head = .call thread ∧ tasks = []
  | .loadNext head =>
      Waiting s thread name phase .popFront ∧ (s.lists name).Holds s.next tasks ∧
        (s.lists name).head = some head ∧ (s.lists name).tail ≠ some head
  | .advance head link =>
      Waiting s thread name phase .popFront ∧ (s.lists name).Holds s.next tasks ∧
        (s.lists name).head = some head ∧ (s.lists name).tail ≠ some head ∧ link = s.next head
  | .takeAll | .takeHead =>
      Waiting s thread name phase .takeAll ∧ (s.lists name).Holds s.next tasks
  | .takeTail head =>
      Waiting s thread name phase .takeAll ∧ (s.lists name).Holds s.next tasks ∧
        head = (s.lists name).head
  | .dropHead batch =>
      Waiting s thread name phase .takeAll ∧ (s.lists name).Holds s.next tasks ∧
        batch = s.lists name
  | .dropTail batch =>
      ∃ moved, phase = .answered (.taken moved) ∧ batch = ends moved ∧ Carries s thread moved ∧
        tasks = []
  | .unlock reply =>
      (∃ answer, phase = .answered answer ∧ reply = answer.ends ∧
        Carries s thread answer.tasks) ∧ (s.lists name).Holds s.next tasks

/-- The thread is as far as its call on the atomic lists. -/
def Agrees (s : State Name Thread) (queues : Queues Name) (thread : Thread)
    (phase : SpecPhase Name) : Pc Name → Prop
  | .idle => phase = .idle
  | .lock name spot => Waiting s thread name phase spot
  | .inside name spot =>
      s.rawMutex name = some thread ∧ Inside s thread name (queues name) phase spot
  | .load name => phase = .called (.isEmpty name)
  | .returning reply =>
      ∃ answer, phase = .answered answer ∧ reply = answer.ends ∧ Carries s thread answer.tasks

/-- The list has its tasks to itself; with nobody inside it represents their sequence. -/
structure Sound (s : State Name Thread) (name : Name) (tasks : List TaskRef) : Prop where
  member : ∀ task, task ∈ tasks ↔ s.place task = .list name
  head : (s.lists name).head = tasks.head?
  free : s.rawMutex name = none → (s.lists name).Holds s.next tasks
  held : ∀ thread, s.rawMutex name = some thread → ∃ spot, s.pc thread = .inside name spot

structure Represents (s : State Name Thread) (a : Spec Name Thread) : Prop where
  lists : ∀ name, Sound s name (a.shared name)
  threads : ∀ thread, Agrees s a.shared thread (a.phase thread) (s.pc thread)

/-- The step stays inside an area: what is elsewhere keeps its place and its link. -/
structure Touches (s s' : State Name Thread) (area : Place Name Thread → Prop) : Prop where
  place : ∀ task, ¬ area (s.place task) → s'.place task = s.place task
  next : ∀ task, ¬ area (s.place task) → s'.next task = s.next task
  kept : ∀ task, area (s.place task) → area (s'.place task)
  lists : ∀ name, ¬ area (.list name) → s'.lists name = s.lists name
  rawMutex : ∀ name, ¬ area (.list name) → s'.rawMutex name = s.rawMutex name
  pc : ∀ thread, ¬ area (.call thread) → s'.pc thread = s.pc thread

omit [DecidableEq Name] [DecidableEq Thread] in
theorem Carries.frame (carries : Carries s thread batch)
    (same : ∀ task, s.place task = .call thread →
      s'.next task = s.next task ∧ s'.place task = .call thread) : Carries s' thread batch where
  linked := carries.linked.congr (fun task member => (same task (carries.own task member)).1)
  own := fun task member => (same task (carries.own task member)).2

omit [DecidableEq Name] [DecidableEq Thread] in
theorem Waiting.frame (waiting : Waiting s thread name phase spot)
    (same : ∀ task, s.place task = .call thread →
      s'.next task = s.next task ∧ s'.place task = .call thread) :
    Waiting s' thread name phase spot := by
  cases spot with
  | pushBack batch | pushFront batch =>
      obtain ⟨called, some, carries⟩ := waiting
      exact ⟨called, some, carries.frame same⟩
  | popFront | takeAll => exact waiting
  | _ => exact waiting.elim

omit [DecidableEq Name] [DecidableEq Thread] in
theorem Inside.frame (inside : Inside s thread name tasks phase spot)
    (member : ∀ task ∈ tasks, s.place task = .list name) (lists : s'.lists name = s.lists name)
    (linked : ∀ task, s.place task = .list name → s'.next task = s.next task)
    (same : ∀ task, s.place task = .call thread →
      s'.next task = s.next task ∧ s'.place task = .call thread) :
    Inside s' thread name tasks phase spot := by
  have frame : ∀ task ∈ tasks, s'.next task = s.next task :=
    fun task here => linked task (member task here)
  have holds (before : (s.lists name).Holds s.next tasks) :
      (s'.lists name).Holds s'.next tasks := by
    rw [lists]
    exact before.congr frame
  cases spot with
  | pushBack batch | pushFront batch | popFront | takeAll | takeHead =>
      exact ⟨inside.1.frame same, holds inside.2⟩
  | linkTail batch tail | linkBatch batch head | fillHead batch | fillTail batch | loadTail head
  | takeTail head | dropHead batch =>
      obtain ⟨waiting, before, loaded⟩ := inside
      refine ⟨waiting.frame same, holds before, ?_⟩
      rw [lists]
      exact loaded
  | clearHead head | loadNext head =>
      obtain ⟨waiting, before, first, last⟩ := inside
      refine ⟨waiting.frame same, holds before, ?_⟩
      rw [lists]
      exact ⟨first, last⟩
  | advance head link =>
      obtain ⟨waiting, before, first, last, loaded⟩ := inside
      have listed : head ∈ tasks := by
        rw [before.head_eq] at first
        exact List.mem_of_head? first
      refine ⟨waiting.frame same, holds before, ?_⟩
      rw [lists, frame head listed]
      exact ⟨first, last, loaded⟩
  | storeTail batch =>
      refine ⟨inside.1, ?_⟩
      rw [lists]
      exact inside.2.congr frame
  | storeHead batch =>
      obtain ⟨called, own, segment⟩ := inside
      refine ⟨called, fun task here => (same task (own task here)).2, ?_⟩
      rw [lists]
      apply segment.congr
      intro task here
      rcases List.mem_append.mp here with mine | listed
      · exact (same task (own task mine)).1
      · exact frame task listed
  | clearTail head => exact ⟨inside.1, (same head inside.2.1).2, inside.2.2⟩
  | dropTail batch =>
      obtain ⟨moved, answered, shown, carries, none⟩ := inside
      exact ⟨moved, answered, shown, carries.frame same, none⟩
  | unlock reply =>
      obtain ⟨⟨answer, answered, shown, carries⟩, before⟩ := inside
      exact ⟨⟨answer, answered, shown, carries.frame same⟩, holds before⟩

omit [DecidableEq Name] [DecidableEq Thread] in
theorem Represents.opened (related : Represents s a) (here : s.pc thread = .inside name spot) :
    s.rawMutex name = some thread ∧
      Inside s thread name (a.shared name) (a.phase thread) spot := by
  have agrees := related.threads thread
  rw [here] at agrees
  exact agrees

omit [DecidableEq Name] [DecidableEq Thread] in
/-- A step answers for the lists and the threads of its area only. A lock's holder is in it
with the list. -/
theorem Represents.frame (related : Represents s a) {area : Place Name Thread → Prop}
    (touches : Touches s s' area)
    (closed : ∀ name thread, s.rawMutex name = some thread →
      (area (.list name) ↔ area (.call thread)))
    (shared : ∀ name, ¬ area (.list name) → a'.shared name = a.shared name)
    (phases : ∀ thread, ¬ area (.call thread) → a'.phase thread = a.phase thread)
    (lists : ∀ name, area (.list name) → Sound s' name (a'.shared name))
    (threads : ∀ thread, area (.call thread) →
      Agrees s' a'.shared thread (a'.phase thread) (s'.pc thread)) : Represents s' a' := by
  have elsewhere {place : Place Name Thread} (outside : ¬ area place) (task : TaskRef)
      (here : s.place task = place) :
      s'.next task = s.next task ∧ s'.place task = place := by
    rw [← here] at outside
    exact ⟨touches.next task outside, (touches.place task outside).trans here⟩
  constructor
  · intro name
    by_cases changed : area (.list name)
    · exact lists name changed
    · have before := related.lists name
      rw [shared name changed]
      constructor
      · intro task
        rw [before.member task]
        constructor
        · exact fun here => (elsewhere changed task here).2
        · intro here
          by_cases was : area (s.place task)
          · have still := touches.kept task was
            rw [here] at still
            exact absurd still changed
          · exact (touches.place task was).symm.trans here
      · rw [touches.lists name changed]
        exact before.head
      · intro free
        rw [touches.rawMutex name changed] at free
        rw [touches.lists name changed]
        exact (before.free free).congr
          (fun task member => (elsewhere changed task ((before.member task).mp member)).1)
      · intro thread held
        rw [touches.rawMutex name changed] at held
        have outside : ¬ area (.call thread) :=
          fun mine => changed ((closed name thread held).mpr mine)
        rw [touches.pc thread outside]
        exact before.held thread held
  · intro thread
    by_cases moved : area (.call thread)
    · exact threads thread moved
    · have before := related.threads thread
      have mine := elsewhere moved
      rw [touches.pc thread moved, phases thread moved]
      cases here : s.pc thread with
      | idle | load name =>
          rw [here] at before
          exact before
      | lock name spot =>
          rw [here] at before
          exact before.frame mine
      | returning reply =>
          rw [here] at before
          obtain ⟨answer, answered, shown, carries⟩ := before
          exact ⟨answer, answered, shown, carries.frame mine⟩
      | inside name spot =>
          rw [here] at before
          obtain ⟨held, inside⟩ := before
          have outside : ¬ area (.list name) :=
            fun listed => moved ((closed name thread held).mp listed)
          refine ⟨(touches.rawMutex name outside).trans held, ?_⟩
          rw [shared name outside]
          exact inside.frame (fun task => ((related.lists name).member task).mp)
            (touches.lists name outside)
            (fun task listed => (elsewhere outside task listed).1) mine

end Yaay.SyncTaskList
