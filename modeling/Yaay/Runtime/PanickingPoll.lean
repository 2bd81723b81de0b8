import Yaay.Runtime.LateWakes
import Yaay.Runtime.TaskLifetime

set_option autoImplicit false

/-! A poll that unwinds drops the waker that it lent, which was never counted: the
count is one too small from then on, and the last owned waker frees the memory of a
future that was not dropped. -/

namespace Yaay.TaskSystem

open Yaay.Transition

variable {cfg : Config} {s next : State cfg} {thread : Fin cfg.threads} {task : TaskRef}
  {place : Place cfg}

/-- What the end of a poll owes to its task: a right count, and memory that goes only
after the future. -/
structure Unharmed (s : State cfg) (task : TaskRef) : Prop where
  counted : (s.tasks task).rc =
    runtimeRefs (s.history task) + (s.history task).wakers.length
  dropped_first : ∀ actions later, (system cfg).exec s actions = some later →
    Freeing later task ∨ (later.history task).deallocs = 1 → (later.history task).drops = 1

/-- The runtime's reference is gone without a release, and the memory goes with the
last owned waker although the future is still in it. -/
structure Forsaken (s : State cfg) (task : TaskRef) : Prop where
  undropped : (s.history task).drops = 0
  unreleased : (s.history task).released = false
  counted : (s.tasks task).rc = (s.history task).wakers.length
  freed : (s.history task).wakers = [] → Freeing s task ∨ (s.history task).deallocs = 1

theorem Forsaken.harmed (forsaken : Forsaken s task) : ¬ Unharmed s task := by
  intro unharmed
  have counted := unharmed.counted
  rw [forsaken.counted, runtimeRefs, forsaken.unreleased, if_neg Bool.false_ne_true] at counted
  omega

theorem Ruined.forsaken (ruin : Ruined s task place) (ended : condition s place = .ruined) :
    Forsaken s task := by
  have counted := ruin.counted
  rw [ended, Condition.owed, Nat.zero_add] at counted
  refine ⟨ruin.lifetime.drops_eq, ruin.lifetime.released_eq, counted, ?_⟩
  intro none
  have wrecked := ruin.wrecked
  cases place with
  | unborn | idle => exact wrecked.elim
  | retired => exact absurd none wrecked
  | freed => exact Or.inr ruin.lifetime.deallocs_eq
  | held holder =>
      have member := ruin.counts.mem_of_held
      cases holder with
      | list list => exact wrecked.elim
      | frame thread =>
          change task ∈ (s.frame thread).held at member
          rw [Wrecked] at wrecked
          rw [condition] at ended
          cases frame : s.frame thread <;> rw [frame] at wrecked ended member
          case deallocating name unwound =>
            cases List.mem_singleton.mp member
            exact Or.inl ⟨thread, Or.inl ⟨unwound, frame⟩⟩
          case unwinding => cases ended
          all_goals exact wrecked.elim
      | call thread =>
          change task ∈ (s.call thread).held at member
          rw [Wrecked] at wrecked
          cases called : s.call thread <;> rw [called] at wrecked member
          case dealloc name =>
            cases List.mem_singleton.mp member
            exact Or.inl ⟨thread, Or.inr called⟩
          all_goals exact wrecked.elim

/-- Once the unwinding of its poll is over, a task stays forsaken in every run. -/
theorem Fate.forsaken {actions : List (Action cfg)} {later : State cfg}
    (fate : Fate (· = .ruined) s task) (ran : (system cfg).exec s actions = some later) :
    Forsaken later task := by
  have last : Fate (· = .ruined) later task := by
    apply System.exec_invariant (fun state => Fate (· = .ruined) state task) _ fate ran
    intro state action next fate taken
    exact fate.step (fun impossible => by cases impossible)
      (Or.inr (fun impossible => by cases impossible)) taken
  cases last with
  | placed place whole located => cases whole
  | ruined place broken ruin => exact ruin.forsaken broken

private theorem ruined_of_unwinding (reached : (system cfg).Reachable anyAction s)
    (unwinding : s.frame thread = .unwinding task) :
    Ruined s task (.held (.frame thread)) := by
  have member : task ∈ (s.frame thread).held := by rw [unwinding]; exact List.mem_singleton_self _
  cases reachable_fate reached task with
  | placed place whole located =>
      have settled := located.settled
      rw [located.counts.place_of_frame member, Settled, unwinding] at settled
      exact settled.elim
  | ruined place broken ruin =>
      rw [← ruin.counts.place_of_frame member]
      exact ruin

/-- A panic harms no task but the one that was polled. -/
theorem accounted_or_ruined (reached : (system cfg).Reachable anyAction s) (task : TaskRef) :
    Accounted s task ∨ ∃ place, Ruined s task place := by
  cases reachable_fate reached task with
  | placed place whole located => exact Or.inl located.accounted
  | ruined place broken ruin => exact Or.inr ⟨place, ruin⟩

/-- Whatever happened before and during the poll, no task survives its unwinding
unharmed. -/
theorem unwinding_harms (reached : (system cfg).Reachable anyAction s)
    (unwinding : s.frame thread = .unwinding task)
    (taken : step s (.unwind thread) = some next) :
    ¬ Unharmed next task ∧
      ∀ actions later, (system cfg).exec next actions = some later → Forsaken later task := by
  have fate : Fate (· = .ruined) next task := by
    obtain ⟨place, ruin, ended⟩ := (ruined_of_unwinding reached unwinding).unwound unwinding taken
    exact .ruined place ended ruin
  constructor
  · exact Forsaken.harmed (fate.forsaken (rfl : (system cfg).exec next [] = some next))
  · exact fun actions later ran => fate.forsaken ran

def cloneThenPanic : List (Action loneWorker) :=
  [.build runner 0, .create starter 8 0 false .run, .place starter, .pop runner 0,
    .clearNotified runner, .callPoll runner, .cloneWaker runner 8 (.lent runner) 5,
    .pollPanic runner]

private theorem cloneThenPanic_runs :
    ((system loneWorker).exec (State.init loneWorker) cloneThenPanic).isSome = true := by
  decide

def panicking : State loneWorker :=
  ((system loneWorker).exec (State.init loneWorker) cloneThenPanic).get cloneThenPanic_runs

private theorem panicking_reached : (system loneWorker).Reachable anyAction panicking :=
  System.Reachable.replay_any (.initial _ rfl) cloneThenPanic_runs

private theorem unwinding_runs : (step panicking (.unwind runner)).isSome = true := by decide

/-- The clone stays and the count, which is 1, covers the clone only. -/
def unwound : State loneWorker := (step panicking (.unwind runner)).get unwinding_runs

theorem cloned_task_harmed :
    (unwound.tasks 8).rc = 1 ∧ (unwound.history 8).wakers = [5] ∧ ¬ Unharmed unwound 8 ∧
      ∀ actions later, (system loneWorker).exec unwound actions = some later →
        Forsaken later 8 := by
  have taken : step panicking (.unwind runner) = some unwound := (Option.some_get _).symm
  exact ⟨rfl, rfl, unwinding_harms panicking_reached rfl taken⟩

def justPanic : List (Action loneWorker) :=
  [.build runner 0, .create starter 8 0 false .run, .place starter, .pop runner 0,
    .clearNotified runner, .callPoll runner, .pollPanic runner, .unwind runner]

private theorem justPanic_runs :
    ((system loneWorker).exec (State.init loneWorker) justPanic).isSome = true := by
  decide

def collapsed : State loneWorker :=
  ((system loneWorker).exec (State.init loneWorker) justPanic).get justPanic_runs

/-- Without a clone the thread that unwinds frees the memory at once, with the future in
it. -/
theorem freed_undropped :
    (system loneWorker).Reachable anyAction collapsed ∧
      (collapsed.history 8).wakers = [] ∧ (collapsed.history 8).released = false ∧
      (collapsed.tasks 8).rc = 0 ∧ ¬ Unharmed collapsed 8 ∧
      ∃ later, (system loneWorker).exec collapsed [.fnDealloc runner] = some later ∧
        (later.history 8).deallocs = 1 ∧ (later.history 8).drops = 0 := by
  refine ⟨System.Reachable.replay_any (.initial _ rfl) justPanic_runs, rfl, rfl, rfl, ?_,
    _, rfl, rfl, rfl⟩
  intro unharmed
  have counted := unharmed.counted
  exact absurd counted (by decide)

end Yaay.TaskSystem
