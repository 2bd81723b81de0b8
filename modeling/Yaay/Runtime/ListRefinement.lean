import Mathlib.Data.Fintype.Basic
import Mathlib.Data.Option.Basic
import Yaay.Machine
import Yaay.Runtime.TaskList

set_option autoImplicit false

/-! Programs over any number of `TaskList`s that share the tasks' `next` fields answer as
programs over sequences do. -/

namespace Yaay

open TaskSystem (TaskRef)

/-- The lists that a program holds under their names, over the links of all tasks. -/
structure Heap (Name : Type) where
  next : Links
  lists : Name → Option TaskList

/-- A batch is passed by value, and an iteration consumes its list. -/
inductive ListOp (Name : Type) where
  | new (name : Name)
  | pushBack (name : Name) (task : TaskRef)
  | pushFront (name : Name) (task : TaskRef)
  | pushBackBatch (name batch : Name)
  | pushFrontBatch (name batch : Name)
  | popFront (name : Name)
  | popAll (name into : Name)
  | isEmpty (name : Name)
  | iterate (name : Name) (fuel : Nat)

inductive ListReply where
  | done
  | popped (task : Option TaskRef)
  | empty (answer : Bool)
  | visited (tasks : List TaskRef)
  deriving DecidableEq

variable {Name : Type} [DecidableEq Name]

namespace Heap

def put (heap : Heap Name) (name : Name) (pushed : Links × TaskList) : Heap Name :=
  { next := pushed.1, lists := Function.update heap.lists name (some pushed.2) }

def take (heap : Heap Name) (name : Name) : Heap Name :=
  { heap with lists := Function.update heap.lists name none }

def step (heap : Heap Name) : ListOp Name → Option (ListReply × Heap Name)
  | .new name => some (.done, heap.put name (heap.next, TaskList.new))
  | .pushBack name task =>
      (heap.lists name).map (fun list => (.done, heap.put name (list.pushBack heap.next task)))
  | .pushFront name task =>
      (heap.lists name).bind (fun list =>
        (list.pushFront heap.next task).map (fun pushed => (.done, heap.put name pushed)))
  | .pushBackBatch name batch =>
      (heap.lists batch).bind (fun tasks =>
        ((heap.take batch).lists name).map (fun list =>
          (.done, (heap.take batch).put name (list.pushBackBatch heap.next tasks))))
  | .pushFrontBatch name batch =>
      (heap.lists batch).bind (fun tasks =>
        ((heap.take batch).lists name).bind (fun list =>
          (list.pushFrontBatch heap.next tasks).map (fun pushed =>
            (.done, (heap.take batch).put name pushed))))
  | .popFront name =>
      (heap.lists name).map (fun list =>
        (.popped (list.popFront heap.next).1,
          heap.put name (heap.next, (list.popFront heap.next).2)))
  | .popAll name into =>
      (heap.lists name).map (fun list =>
        (.done, (heap.put name (heap.next, list.popAll.2)).put into (heap.next, list.popAll.1)))
  | .isEmpty name => (heap.lists name).map (fun list => (.empty list.isEmpty, heap))
  | .iterate name fuel =>
      (heap.lists name).bind (fun list =>
        (list.iterate heap.next fuel).map (fun tasks => (.visited tasks, heap.take name)))

def machine : Machine (Heap Name) (ListOp Name) ListReply := { step := step }

end Heap

abbrev Sequences (Name : Type) := Name → Option (List TaskRef)

namespace Sequences

def put (seqs : Sequences Name) (name : Name) (tasks : List TaskRef) : Sequences Name :=
  Function.update seqs name (some tasks)

def take (seqs : Sequences Name) (name : Name) : Sequences Name :=
  Function.update seqs name none

def step (seqs : Sequences Name) : ListOp Name → Option (ListReply × Sequences Name)
  | .new name => some (.done, seqs.put name [])
  | .pushBack name task =>
      (seqs name).map (fun tasks => (.done, seqs.put name (tasks ++ [task])))
  | .pushFront name task => (seqs name).map (fun tasks => (.done, seqs.put name (task :: tasks)))
  | .pushBackBatch name batch =>
      (seqs batch).bind (fun moved =>
        (seqs name).map (fun tasks => (.done, (seqs.take batch).put name (tasks ++ moved))))
  | .pushFrontBatch name batch =>
      (seqs batch).bind (fun moved =>
        (seqs name).map (fun tasks => (.done, (seqs.take batch).put name (moved ++ tasks))))
  | .popFront name =>
      (seqs name).map (fun tasks => (.popped tasks.head?, seqs.put name tasks.tail))
  | .popAll name into =>
      (seqs name).map (fun tasks => (.done, (seqs.put name []).put into tasks))
  | .isEmpty name => (seqs name).map (fun tasks => (.empty tasks.isEmpty, seqs))
  | .iterate name _fuel => (seqs name).map (fun tasks => (.visited tasks, seqs.take name))

def machine : Machine (Sequences Name) (ListOp Name) ListReply := { step := step }

/-- A pushed task is in no list, and a pushed batch is another list that is not empty. -/
def Legal (seqs : Sequences Name) : ListOp Name → Prop
  | .new _ => True
  | .pushBack name task | .pushFront name task =>
      seqs name ≠ none ∧ ∀ other, ∀ tasks ∈ seqs other, task ∉ tasks
  | .pushBackBatch name batch | .pushFrontBatch name batch =>
      batch ≠ name ∧ seqs name ≠ none ∧ seqs batch ≠ none ∧ seqs batch ≠ some []
  | .popFront name | .popAll name _ | .isEmpty name => seqs name ≠ none
  | .iterate name fuel => seqs name ≠ none ∧ ∀ tasks ∈ seqs name, tasks.length < fuel

instance decidableLegal [Fintype Name] (seqs : Sequences Name) :
    ∀ op, Decidable (seqs.Legal op)
  | .new _ => inferInstanceAs (Decidable True)
  | .pushBack name task | .pushFront name task =>
      inferInstanceAs (Decidable
        (seqs name ≠ none ∧ ∀ other, ∀ tasks ∈ seqs other, task ∉ tasks))
  | .pushBackBatch name batch | .pushFrontBatch name batch =>
      inferInstanceAs (Decidable
        (batch ≠ name ∧ seqs name ≠ none ∧ seqs batch ≠ none ∧ seqs batch ≠ some []))
  | .popFront name | .popAll name _ | .isEmpty name =>
      inferInstanceAs (Decidable (seqs name ≠ none))
  | .iterate name fuel =>
      inferInstanceAs (Decidable (seqs name ≠ none ∧ ∀ tasks ∈ seqs name, tasks.length < fuel))

end Sequences

theorem Sequences.of_take {seqs : Sequences Name} {name other : Name} {tasks : List TaskRef}
    (present : tasks ∈ (seqs.take name) other) : other ≠ name ∧ tasks ∈ seqs other := by
  rw [Sequences.take] at present
  by_cases same : other = name
  · rw [same, Function.update_self] at present
    cases present
  · rw [Function.update_of_ne same] at present
    exact ⟨same, present⟩

/-- Every list stands for its sequence, and no two sequences share a task. -/
structure Represents (heap : Heap Name) (seqs : Sequences Name) : Prop where
  holds : ∀ name, Option.Rel (TaskList.Holds heap.next) (heap.lists name) (seqs name)
  apart : ∀ name other, name ≠ other → ∀ tasks ∈ seqs name, ∀ others ∈ seqs other,
    tasks.Disjoint others

namespace Represents

variable {heap : Heap Name} {seqs : Sequences Name} {name other : Name}
  {tasks others : List TaskRef}

omit [DecidableEq Name] in
theorem list (related : Represents heap seqs) (named : seqs name = some tasks) :
    ∃ list, heap.lists name = some list ∧ list.Holds heap.next tasks := by
  have holds := related.holds name
  rw [named] at holds
  cases found : heap.lists name with
  | none =>
      rw [found] at holds
      cases holds
  | some list =>
      rw [found] at holds
      cases holds with
      | some holds => exact ⟨list, rfl, holds⟩

omit [DecidableEq Name] in
theorem known (related : Represents heap seqs) (there : seqs name ≠ none) :
    ∃ tasks list, seqs name = some tasks ∧ heap.lists name = some list ∧
      list.Holds heap.next tasks := by
  obtain ⟨tasks, named⟩ := Option.ne_none_iff_exists'.mp there
  obtain ⟨list, found, holds⟩ := related.list named
  exact ⟨tasks, list, named, found, holds⟩

theorem take (related : Represents heap seqs) (name : Name) :
    Represents (heap.take name) (seqs.take name) := by
  constructor
  · intro other
    by_cases same : other = name
    · subst other
      simp only [Heap.take, Sequences.take, Function.update_self]
      exact .none
    · simp only [Heap.take, Sequences.take, Function.update_of_ne same]
      exact related.holds other
  · intro first second different tasks member others present
    exact related.apart first second different tasks (Sequences.of_take member).2 others
      (Sequences.of_take present).2

/-- A list changes with links of none but its own tasks, old or new. -/
theorem put (related : Represents heap seqs) {next : Links} {list : TaskList}
    (holds : list.Holds next tasks)
    (frame : ∀ other, other ≠ name → ∀ others ∈ seqs other,
      ∀ task ∈ others, next task = heap.next task)
    (apart : ∀ other, other ≠ name → ∀ others ∈ seqs other, tasks.Disjoint others) :
    Represents (heap.put name (next, list)) (seqs.put name tasks) := by
  constructor
  · intro other
    by_cases same : other = name
    · subst other
      simp only [Heap.put, Sequences.put, Function.update_self]
      exact .some holds
    · simp only [Heap.put, Sequences.put, Function.update_of_ne same]
      cases here : seqs other with
      | none =>
          have before := related.holds other
          rw [here] at before
          cases found : heap.lists other with
          | none => exact .none
          | some list =>
              rw [found] at before
              cases before
      | some others =>
          obtain ⟨kept, found, before⟩ := related.list here
          rw [found]
          exact .some (before.congr (frame other same others here))
  · intro first second different tasks member others present
    rw [Sequences.put] at member present
    by_cases left : first = name
    · subst first
      rw [Function.update_self] at member
      cases member
      rw [Function.update_of_ne different.symm] at present
      exact apart second different.symm others present
    · rw [Function.update_of_ne left] at member
      by_cases right : second = name
      · subst second
        rw [Function.update_self] at present
        cases present
        exact List.disjoint_symm (apart first left tasks member)
      · rw [Function.update_of_ne right] at present
        exact related.apart first second different tasks member others present

private theorem shrink (related : Represents heap seqs) {list : TaskList} {kept : List TaskRef}
    (named : seqs name = some tasks) (holds : list.Holds heap.next kept)
    (fewer : ∀ task ∈ kept, task ∈ tasks) :
    Represents (heap.put name (heap.next, list)) (seqs.put name kept) := by
  refine related.put holds (fun _ _ _ _ _ _ => rfl) ?_
  intro other different others present task member
  exact related.apart name other different.symm tasks named others present (fewer task member)

private theorem grow (related : Represents heap seqs) {next : Links} {list : TaskList}
    {moved grown : List TaskRef} (holds : list.Holds next grown)
    (origin : ∀ task ∈ grown, task ∈ tasks ∨ task ∈ moved) (named : seqs name = some tasks)
    (frame : ∀ task, task ∉ tasks → task ∉ moved → next task = heap.next task)
    (apart : ∀ other, other ≠ name → ∀ others ∈ seqs other, moved.Disjoint others) :
    Represents (heap.put name (next, list)) (seqs.put name grown) := by
  have outside : ∀ other, other ≠ name → ∀ others ∈ seqs other, tasks.Disjoint others :=
    fun other different => related.apart name other different.symm tasks named
  apply related.put holds
  · intro other different others present task member
    exact frame task (fun mine => outside other different others present mine member)
      (fun mine => apart other different others present mine member)
  · intro other different others present task member
    rcases origin task member with mine | mine
    · exact outside other different others present mine
    · exact apart other different others present mine

def Answers (heap : Heap Name) (seqs : Sequences Name) (op : ListOp Name) : Prop :=
  ∃ reply heap' seqs', seqs.step op = some (reply, seqs') ∧
    heap.step op = some (reply, heap') ∧ Represents heap' seqs'

private theorem new_answers (related : Represents heap seqs) (name : Name) :
    Answers heap seqs (.new name) := by
  refine ⟨_, _, _, rfl, rfl, related.put (TaskList.holds_new _) (fun _ _ _ _ _ _ => rfl) ?_⟩
  intro other _different others _present
  exact List.disjoint_nil_left others

omit [DecidableEq Name] in
private theorem single_apart {task : TaskRef}
    (fresh : ∀ other, ∀ tasks ∈ seqs other, task ∉ tasks) :
    ∀ other, ∀ others ∈ seqs other, List.Disjoint [task] others :=
  fun other others present => List.singleton_disjoint.mpr (fresh other others present)

theorem pushBack_answers {task : TaskRef} (related : Represents heap seqs)
    (legal : seqs.Legal (.pushBack name task)) : Answers heap seqs (.pushBack name task) := by
  obtain ⟨known, fresh⟩ := legal
  obtain ⟨tasks, list, named, found, holds⟩ := related.known known
  have apart := single_apart fresh
  have single : TaskList.Holds heap.next { head := some task, tail := some task } [task] :=
    Segment.single heap.next task
  obtain ⟨pushed, frame⟩ := TaskList.pushBackBatch_spec holds single (List.cons_ne_nil task [])
    (List.disjoint_symm (apart name tasks named))
  refine ⟨.done, heap.put name (list.pushBack heap.next task),
    seqs.put name (tasks ++ [task]), ?_, ?_, ?_⟩
  · rw [Sequences.step, named]
    rfl
  · rw [Heap.step, found]
    rfl
  · exact related.grow pushed (fun _ => List.mem_append.mp) named
      (fun other outside _ => frame other outside) (fun other _ => apart other)

private theorem pushFront_answers {task : TaskRef} (related : Represents heap seqs)
    (legal : seqs.Legal (.pushFront name task)) : Answers heap seqs (.pushFront name task) := by
  obtain ⟨known, fresh⟩ := legal
  obtain ⟨tasks, list, named, found, holds⟩ := related.known known
  have apart := single_apart fresh
  have single : TaskList.Holds heap.next { head := some task, tail := some task } [task] :=
    Segment.single heap.next task
  obtain ⟨next, after, ran, pushed, frame⟩ := TaskList.pushFrontBatch_spec holds single
    (List.cons_ne_nil task []) (apart name tasks named)
  refine ⟨.done, heap.put name (next, after), seqs.put name (task :: tasks), ?_, ?_, ?_⟩
  · rw [Sequences.step, named]
    rfl
  · have given : list.pushFront heap.next task = some (next, after) := ran
    simp only [Heap.step, found, Option.bind_some, given, Option.map_some]
  · exact related.grow pushed (fun _ member => (List.mem_append.mp member).symm) named
      (fun other _ outside => frame other outside) (fun other _ => apart other)

private theorem given_up {batch : Name} (related : Represents heap seqs) (different : batch ≠ name)
    (known : seqs name ≠ none) (given : seqs batch ≠ none) :
    ∃ tasks moved list passed, seqs name = some tasks ∧ seqs batch = some moved ∧
      (seqs.take batch) name = some tasks ∧ heap.lists batch = some passed ∧
      (heap.take batch).lists name = some list ∧ list.Holds heap.next tasks ∧
      passed.Holds heap.next moved ∧ tasks.Disjoint moved ∧
      ∀ other, ∀ others ∈ (seqs.take batch) other, moved.Disjoint others := by
  obtain ⟨tasks, list, named, found, holds⟩ := related.known known
  obtain ⟨moved, passed, batched, there, carries⟩ := related.known given
  refine ⟨tasks, moved, list, passed, named, batched, ?_, there, ?_, holds, carries,
    related.apart name batch different.symm tasks named moved batched, ?_⟩
  · rw [Sequences.take, Function.update_of_ne different.symm]
    exact named
  · simp only [Heap.take, Function.update_of_ne different.symm]
    exact found
  · intro other others present
    obtain ⟨elsewhere, before⟩ := Sequences.of_take present
    exact related.apart batch other elsewhere.symm moved batched others before

theorem pushBackBatch_answers {batch : Name} (related : Represents heap seqs)
    (legal : seqs.Legal (.pushBackBatch name batch)) :
    Answers heap seqs (.pushBackBatch name batch) := by
  obtain ⟨different, known, given, nonempty⟩ := legal
  obtain ⟨tasks, moved, list, passed, named, batched, left, there, found, holds, carries,
    disjoint, apart⟩ := related.given_up different known given
  have some : moved ≠ [] := fun none => nonempty (batched.trans (congrArg Option.some none))
  obtain ⟨pushed, frame⟩ := TaskList.pushBackBatch_spec holds carries some disjoint
  refine ⟨.done, (heap.take batch).put name (list.pushBackBatch heap.next passed),
    (seqs.take batch).put name (tasks ++ moved), ?_, ?_, ?_⟩
  · simp only [Sequences.step, batched, named, Option.bind_some, Option.map_some]
  · simp only [Heap.step, there, found, Option.bind_some, Option.map_some]
  · exact (related.take batch).grow pushed (fun _ => List.mem_append.mp) left
      (fun other outside _ => frame other outside) (fun other _ => apart other)

private theorem pushFrontBatch_answers {batch : Name} (related : Represents heap seqs)
    (legal : seqs.Legal (.pushFrontBatch name batch)) :
    Answers heap seqs (.pushFrontBatch name batch) := by
  obtain ⟨different, known, given, nonempty⟩ := legal
  obtain ⟨tasks, moved, list, passed, named, batched, left, there, found, holds, carries,
    disjoint, apart⟩ := related.given_up different known given
  have some : moved ≠ [] := fun none => nonempty (batched.trans (congrArg Option.some none))
  obtain ⟨next, after, ran, pushed, frame⟩ :=
    TaskList.pushFrontBatch_spec holds carries some (List.disjoint_symm disjoint)
  refine ⟨.done, (heap.take batch).put name (next, after),
    (seqs.take batch).put name (moved ++ tasks), ?_, ?_, ?_⟩
  · simp only [Sequences.step, batched, named, Option.bind_some, Option.map_some]
  · simp only [Heap.step, there, found, ran, Option.bind_some, Option.map_some]
  · exact (related.take batch).grow pushed (fun _ member => (List.mem_append.mp member).symm)
      left (fun other _ outside => frame other outside) (fun other _ => apart other)

private theorem popFront_answers (related : Represents heap seqs) (known : seqs name ≠ none) :
    Answers heap seqs (.popFront name) := by
  obtain ⟨tasks, list, named, found, holds⟩ := related.known known
  obtain ⟨popped, rest⟩ := TaskList.popFront_spec holds
  refine ⟨.popped tasks.head?, heap.put name (heap.next, (list.popFront heap.next).2),
    seqs.put name tasks.tail, ?_, ?_, ?_⟩
  · rw [Sequences.step, named]
    rfl
  · rw [Heap.step, found, ← popped]
    rfl
  · exact related.shrink named rest (fun _ => List.mem_of_mem_tail)

theorem isEmpty_answers (related : Represents heap seqs) (known : seqs name ≠ none) :
    Answers heap seqs (.isEmpty name) := by
  obtain ⟨tasks, list, named, found, holds⟩ := related.known known
  refine ⟨.empty tasks.isEmpty, heap, seqs, ?_, ?_, related⟩
  · rw [Sequences.step, named]
    rfl
  · rw [Heap.step, found, ← TaskList.isEmpty_iff holds]
    rfl

private theorem iterate_answers {fuel : Nat} (related : Represents heap seqs)
    (legal : seqs.Legal (.iterate name fuel)) : Answers heap seqs (.iterate name fuel) := by
  obtain ⟨known, enough⟩ := legal
  obtain ⟨tasks, list, named, found, holds⟩ := related.known known
  have visited := TaskList.iterate_spec holds (enough tasks named)
  refine ⟨.visited tasks, heap.take name, seqs.take name, ?_, ?_, related.take name⟩
  · rw [Sequences.step, named]
    rfl
  · simp only [Heap.step, found, visited, Option.bind_some, Option.map_some]

private theorem emptied_apart (related : Represents heap seqs) (named : seqs name = some tasks) :
    ∀ other, ∀ others ∈ (seqs.put name []) other, tasks.Disjoint others := by
  intro other others present
  by_cases same : other = name
  · subst other
    rw [Sequences.put, Function.update_self] at present
    cases present
    exact List.disjoint_nil_right tasks
  · rw [Sequences.put, Function.update_of_ne same] at present
    exact related.apart name other (Ne.symm same) tasks named others present

theorem popAll_answers {into : Name} (related : Represents heap seqs) (known : seqs name ≠ none) :
    Answers heap seqs (.popAll name into) := by
  obtain ⟨tasks, list, named, found, holds⟩ := related.known known
  obtain ⟨taken, empty, _guarded⟩ := TaskList.popAll_spec holds
  refine ⟨.done, (heap.put name (heap.next, list.popAll.2)).put into (heap.next, list.popAll.1),
    (seqs.put name []).put into tasks, ?_, ?_, ?_⟩
  · rw [Sequences.step, named]
    rfl
  · rw [Heap.step, found]
    rfl
  · have emptied := related.shrink named empty (fun _ none => absurd none List.not_mem_nil)
    exact emptied.put taken (fun _ _ _ _ _ _ => rfl)
      (fun other _ => related.emptied_apart named other)

theorem answers (related : Represents heap seqs) {op : ListOp Name} (legal : seqs.Legal op) :
    Answers heap seqs op := by
  cases op with
  | new name => exact related.new_answers name
  | pushBack name task => exact related.pushBack_answers legal
  | pushFront name task => exact related.pushFront_answers legal
  | pushBackBatch name batch => exact related.pushBackBatch_answers legal
  | pushFrontBatch name batch => exact related.pushFrontBatch_answers legal
  | popFront name => exact related.popFront_answers legal
  | popAll name into => exact related.popAll_answers legal
  | isEmpty name => exact related.isEmpty_answers legal
  | iterate name fuel => exact related.iterate_answers legal

end Represents

/-- The lists act as the sequences that they stand for, whatever the links elsewhere, and
the callers of `push_back_batch` pass batches that are not empty. -/
theorem task_lists_refine_sequences {heap : Heap Name} {seqs : Sequences Name}
    {ops : List (ListOp Name)} (related : Represents heap seqs)
    (legal : Sequences.machine.Legal Sequences.Legal seqs ops) :
    (∃ replies heap' seqs', Sequences.machine.run seqs ops = some (replies, seqs') ∧
      Heap.machine.run heap ops = some (replies, heap') ∧ Represents heap' seqs') ∧
    ∀ name list, heap.lists name = some list → list.isEmpty = false →
      ∃ moved, seqs name = some moved ∧ moved ≠ [] ∧ list.popAll.1.Holds heap.next moved := by
  constructor
  · refine Machine.refines Represents ?_ related legal
    intro heap seqs op related legal
    exact related.answers legal
  · intro name list found guarded
    have holds := related.holds name
    rw [found] at holds
    cases named : seqs name with
    | none =>
        rw [named] at holds
        cases holds
    | some moved =>
        rw [named] at holds
        cases holds with
        | some holds =>
            obtain ⟨taken, _empty, nonempty⟩ := TaskList.popAll_spec holds
            exact ⟨moved, rfl, nonempty guarded, taken⟩

def movesBetween : List (ListOp Bool) :=
  [.new false, .new true, .pushBack false 7, .pushFront true 5, .pushBack false 8,
    .popFront false, .pushBack true 7, .popAll false false, .pushFrontBatch true false,
    .iterate true 4]

def noLists : Heap Bool := { next := fun _ => some 9, lists := fun _ => none }

private theorem noLists_represents : Represents noLists (fun _ => none) := by
  constructor
  · intro name
    exact .none
  · intro name other _different tasks member
    cases member

theorem task_lists_refine_sequences_of_moves :
    Represents noLists (fun _ => none) ∧
      Sequences.machine.Legal Sequences.Legal (fun _ => none) movesBetween ∧
      (Heap.machine.run noLists movesBetween).map Prod.fst =
        some [.done, .done, .done, .done, .done, .popped (some 7), .done, .done, .done,
          .visited [8, 5, 7]] := by
  have legal : Sequences.machine.Legal Sequences.Legal (fun _ => none) movesBetween := by
    decide
  obtain ⟨⟨replies, heap, seqs, above, below, _related⟩, _nonempty⟩ :=
    task_lists_refine_sequences noLists_represents legal
  refine ⟨noLists_represents, legal, ?_⟩
  have answers : (Sequences.machine.run (fun _ => none) movesBetween).map Prod.fst =
      some [.done, .done, .done, .done, .done, .popped (some 7), .done, .done, .done,
        .visited [8, 5, 7]] := by
    decide
  rw [above] at answers
  rw [below]
  exact answers

end Yaay
