import Mathlib.Data.Option.Basic
import Yaay.Runtime.TaskSystem
import Yaay.Segment

set_option autoImplicit false

/-! The `TaskList` of `task_list.rs`: a head and a tail over the `next` fields of the
tasks, which all lists share and which no operation clears. It refines a sequence. -/

namespace Yaay

open TaskSystem (TaskRef)

abbrev Links := TaskRef → Option TaskRef

def getNext (next : Links) (task : TaskRef) : Option TaskRef := next task

def setNext (next : Links) (task : TaskRef) (link : Option TaskRef) : Links :=
  Function.update next task link

structure TaskList where
  head : Option TaskRef
  tail : Option TaskRef
  deriving DecidableEq

namespace TaskList

def new : TaskList := { head := none, tail := none }

def isEmpty (list : TaskList) : Bool := list.head.isNone

def pushBackBatch (list : TaskList) (next : Links) (tasks : TaskList) : Links × TaskList :=
  match list.tail with
  | none => (next, { head := tasks.head, tail := tasks.tail })
  | some tail => (setNext next tail tasks.head, { list with tail := tasks.tail })

def pushBack (list : TaskList) (next : Links) (task : TaskRef) : Links × TaskList :=
  list.pushBackBatch next { head := some task, tail := some task }

/-- The batch's tail is dereferenced unchecked. -/
def pushFrontBatch (list : TaskList) (next : Links) (tasks : TaskList) :
    Option (Links × TaskList) :=
  match list.head with
  | none => some (next, { head := tasks.head, tail := tasks.tail })
  | some head =>
      tasks.tail.map (fun tail => (setNext next tail (some head), { list with head := tasks.head }))

def pushFront (list : TaskList) (next : Links) (task : TaskRef) : Option (Links × TaskList) :=
  list.pushFrontBatch next { head := some task, tail := some task }

def popFront (list : TaskList) (next : Links) : Option TaskRef × TaskList :=
  match list.head with
  | none => (none, list)
  | some head =>
      (some head,
        if list.head = list.tail then { head := none, tail := none }
        else { list with head := getNext next head })

def popAll (list : TaskList) : TaskList × TaskList :=
  ({ head := list.head, tail := list.tail }, { head := none, tail := none })

/-- The loop over `Iterator::next`; the fuel runs out where the loop would not end. -/
def iterate (next : Links) : Nat → TaskList → Option (List TaskRef)
  | 0, _ => none
  | fuel + 1, list =>
      match list.popFront next with
      | (none, _) => some []
      | (some task, rest) => (iterate next fuel rest).map (task :: ·)

abbrev Holds (next : Links) (list : TaskList) (tasks : List TaskRef) : Prop :=
  Segment next list.head list.tail tasks

variable {next : Links} {list batch : TaskList} {tasks moved : List TaskRef}

theorem holds_new (next : Links) : Holds next new [] := Segment.empty next

theorem isEmpty_iff (holds : Holds next list tasks) : list.isEmpty = tasks.isEmpty := by
  rw [isEmpty, holds.head_eq]
  cases tasks <;> rfl

/-- A push writes no link but that of a task in one of the two lists. -/
theorem pushBackBatch_spec (holds : Holds next list tasks) (given : Holds next batch moved)
    (nonempty : moved ≠ []) (apart : tasks.Disjoint moved) :
    Holds (list.pushBackBatch next batch).1 (list.pushBackBatch next batch).2 (tasks ++ moved) ∧
      ∀ task ∉ tasks, (list.pushBackBatch next batch).1 task = next task := by
  obtain ⟨first, rest, starting⟩ := List.exists_cons_of_ne_nil nonempty
  have head : batch.head = some first := by rw [given.head_eq, starting]; rfl
  cases tail : list.tail with
  | none =>
      have empty := holds.tail_eq_none.mp tail
      rw [pushBackBatch, tail, empty]
      exact ⟨given, fun _ _ => rfl⟩
  | some last =>
      rw [Holds, tail] at holds
      rw [Holds, head] at given
      rw [pushBackBatch, tail]
      constructor
      · rw [head]
        exact holds.join given apart
      · intro task outside
        refine Function.update_of_ne ?_ ..
        intro same
        rw [same] at outside
        exact outside (List.mem_of_getLast? holds.tail_eq.symm)

theorem pushFrontBatch_spec (holds : Holds next list tasks) (given : Holds next batch moved)
    (nonempty : moved ≠ []) (apart : moved.Disjoint tasks) :
    ∃ after pushed, list.pushFrontBatch next batch = some (after, pushed) ∧
      Holds after pushed (moved ++ tasks) ∧ ∀ task ∉ moved, after task = next task := by
  obtain ⟨last, ending⟩ : ∃ last, batch.tail = some last := by
    rw [← Option.isSome_iff_exists, Option.isSome_iff_ne_none, Ne, given.tail_eq_none]
    exact nonempty
  cases head : list.head with
  | none =>
      have empty := holds.head_eq_none.mp head
      refine ⟨next, batch, ?_, ?_, fun _ _ => rfl⟩
      · rw [pushFrontBatch, head]
      · rw [empty, List.append_nil]
        exact given
  | some first =>
      rw [Holds, head] at holds
      rw [Holds, ending] at given
      refine ⟨setNext next last (some first), { list with head := batch.head }, ?_, ?_, ?_⟩
      · rw [pushFrontBatch, head, ending]
        rfl
      · exact given.join holds apart
      · intro task outside
        refine Function.update_of_ne ?_ ..
        intro same
        rw [same] at outside
        exact outside (List.mem_of_getLast? given.tail_eq.symm)

theorem popFront_spec (holds : Holds next list tasks) :
    (list.popFront next).1 = tasks.head? ∧ Holds next (list.popFront next).2 tasks.tail := by
  cases head : list.head with
  | none =>
      have empty := holds.head_eq_none.mp head
      have popped : list.popFront next = (none, list) := by rw [popFront, head]
      rw [empty] at holds
      rw [popped, empty]
      exact ⟨rfl, holds⟩
  | some first =>
      have popped : list.popFront next = (some first,
          if some first = list.tail then { head := none, tail := none }
          else { head := getNext next first, tail := list.tail }) := by
        rw [popFront, head]
      rw [Holds, head] at holds
      obtain ⟨rest, starting, last, linked⟩ := holds.rest
      rw [popped, starting]
      constructor
      · rfl
      · by_cases single : rest = []
        · rw [if_pos (last.mpr single).symm, single]
          exact Segment.empty next
        · rw [if_neg (fun same => single (last.mp same.symm))]
          exact linked single

theorem iterate_spec {fuel : Nat} (holds : Holds next list tasks) (enough : tasks.length < fuel) :
    iterate next fuel list = some tasks := by
  induction fuel generalizing list tasks with
  | zero => omega
  | succ fuel ih =>
      obtain ⟨popped, rest⟩ := popFront_spec holds
      cases tasks with
      | nil =>
          have none : list.popFront next = (none, (list.popFront next).2) :=
            Prod.ext popped rfl
          rw [iterate, none]
      | cons first later =>
          have some : list.popFront next = (some first, (list.popFront next).2) :=
            Prod.ext popped rfl
          have visited := ih rest (by simpa using enough)
          rw [iterate, some]
          simp only [visited, Option.map_some, List.tail_cons]

/-- The batch that the callers of `push_back_batch` pass is not empty. -/
theorem popAll_spec (holds : Holds next list tasks) :
    Holds next list.popAll.1 tasks ∧ Holds next list.popAll.2 [] ∧
      (list.isEmpty = false → tasks ≠ []) := by
  refine ⟨holds, Segment.empty next, ?_⟩
  intro guarded none
  rw [isEmpty_iff holds, none] at guarded
  cases guarded

end TaskList

end Yaay
