import Yaay.Runtime.TaskExclusivity
import Yaay.Runtime.TaskLocality

set_option autoImplicit false

/-! No wake is lost: whatever the wake's `fetch_or` met, the task is polled once
more, unless its future is over. -/

namespace Yaay.TaskSystem

open Yaay.Transition

variable {cfg : Config} {s : State cfg} {task : TaskRef}

/-- In a list, about to be pushed, or popped with `NOTIFIED` not yet cleared. -/
def Awaiting (s : State cfg) (task : TaskRef) : Prop :=
  (∃ list, task ∈ s.lists list) ∨
    (∃ thread worker front maker, s.call thread = .placing task worker front maker) ∨
    (∃ thread via, s.call thread = .push task via) ∨
    (∃ thread, s.frame thread = .stolen task ∨ s.frame thread = .popped task)

/-- The worker cleared `NOTIFIED` and can only go on to call the future's poll. -/
def Committed (s : State cfg) (task : TaskRef) : Prop :=
  ∃ thread, s.frame thread = .cleared task ∧
    ∀ action next, step s action = some next →
      next.frame thread = .cleared task ∨ next.frame thread = .polling task

/-- The worker is in the poll or about to leave it, and its next exchange cannot
store the idle status. -/
def Barred (s : State cfg) (task : TaskRef) : Prop :=
  (s.tasks task).status &&& Task.notified ≠ 0 ∧
    ∃ thread, (s.frame thread = .polling task ∨ ∃ prev, s.frame thread = .pending task prev) ∧
      ∀ spurious next, step s (.compareExchangeWeak thread spurious) = some next →
        (next.frame thread).held = [task]

def Over (s : State cfg) (task : TaskRef) : Prop :=
  (s.history task).ready = true ∨ (s.tasks task).status &&& Task.dropped ≠ 0

def TornDown (s : State cfg) (task : TaskRef) : Prop :=
  s.stage = .draining ∧ (s.frame cfg.main).torn = true ∧ (s.frame cfg.main).held = [task]

private theorem committed_of_cleared {thread : Fin cfg.threads}
    (frame : s.frame thread = .cleared task) : Committed s task := by
  refine ⟨thread, frame, ?_⟩
  intro action next taken
  by_cases other : action.thread = thread
  · subst other
    cases action with
    | callPoll thread =>
        simp only [Action.thread] at frame
        simp only [step, callPoll, frame] at taken
        cases taken
        exact Or.inr (by simp [Action.thread])
    | pop | setWorkerId | clearNotified | pollReturn | pollPanic | compareExchangeWeak
    | setDropped | callDropInPlace | dropReturn | release | fnDealloc | unwind
    | assertRc | dropTask | checkRc =>
        simp only [Action.thread] at frame
        simp [step, pop, setWorkerId, TaskSystem.clearNotified, pollReturn, pollPanic,
          compareExchangeWeak, TaskSystem.setDropped, callDropInPlace, dropReturn, release,
          fnDealloc, unwind, assertRc, dropTask, checkRc, frame] at taken
    | teardownPop =>
        simp only [Action.thread] at frame
        simp only [step, teardownPop, frame] at taken
        split at taken <;> simp_all
    | teardown | collect | freeWorker =>
        simp only [step, teardown, collect, freeWorker] at taken
        repeat' split at taken
        all_goals
          cases taken <;> exact Or.inl frame
    | _ =>
        rw [(step_ofCall rfl taken).2.1]
        exact Or.inl frame
  · rw [(step_other taken other).1]
    exact Or.inl frame

private theorem barred_of_scheduled {thread : Fin cfg.threads}
    (scheduled : Task.Scheduled (s.tasks task).status)
    (frame : s.frame thread = .polling task ∨ ∃ prev, s.frame thread = .pending task prev) :
    Barred s task := by
  refine ⟨by rw [scheduled]; decide, thread, frame, ?_⟩
  intro spurious next taken
  rcases frame with polling | ⟨prev, pending⟩
  · simp [step, compareExchangeWeak, polling] at taken
  · simp only [step, compareExchangeWeak, pending] at taken
    split at taken
    · rename_i success
      have notMuted : prev ≠ Task.muted := by
        intro muted
        rw [scheduled, muted] at success
        exact Task.initialStatus_ne_muted success.1
      rw [if_neg notMuted] at taken
      cases taken
      simp [Frame.held]
    · cases taken
      simp [Frame.held]

private theorem over_of_retired (retired : Task.Retired (s.tasks task).status) : Over s task := by
  rcases retired with status | status
  · exact Or.inr (by rw [status]; decide)
  · exact Or.inr (by rw [status]; decide)

/-- The answers to a wake: the task is scheduled, a poll is certain to follow, or
the future is over. -/
inductive Answered (s : State cfg) (task : TaskRef) : Prop
  | awaiting (answer : Awaiting s task)
  | committed (answer : Committed s task)
  | barred (answer : Barred s task)
  | finished (answer : Over s task)

theorem Frame.Settled.answered {thread : Fin cfg.threads}
    (settled : (s.frame thread).Settled (s.tasks task).status (s.history task))
    (held : (s.frame thread).held = [task]) (torn : TornWhileDraining s)
    (woken : (s.history task).woken = true) :
    Answered s task ∨ TornDown s task := by
  cases frame : s.frame thread with
  | idle | dead | unwinding =>
      rw [frame] at settled
      exact settled.elim
  | stolen name =>
      rw [frame] at held
      cases held
      exact Or.inl (.awaiting (Or.inr (Or.inr (Or.inr ⟨thread, Or.inl frame⟩))))
  | popped name =>
      rw [frame] at held
      cases held
      exact Or.inl (.awaiting (Or.inr (Or.inr (Or.inr ⟨thread, Or.inr frame⟩))))
  | cleared name =>
      rw [frame] at held
      cases held
      exact Or.inl (.committed (committed_of_cleared frame))
  | polling name =>
      rw [frame] at settled held
      cases held
      exact Or.inl (.barred (barred_of_scheduled (settled.2.2 woken) (Or.inl frame)))
  | pending name prev =>
      rw [frame] at settled held
      cases held
      exact Or.inl (.barred (barred_of_scheduled (settled.2.2 woken) (Or.inr ⟨prev, frame⟩)))
  | ready name =>
      rw [frame] at settled
      exact Or.inl (.finished (Or.inl settled.2.1))
  | retiring | dropping | releasing | checkRc =>
      rw [frame] at settled
      exact Or.inl (.finished (over_of_retired settled.2))
  | deallocating =>
      rw [frame] at settled
      exact Or.inl (.finished (over_of_retired settled.2.1))
  | tearing name | dropInPlace name =>
      obtain ⟨stage, main⟩ := torn thread (by rw [frame]; rfl)
      subst main
      exact Or.inr ⟨stage, by rw [frame]; rfl, held⟩

theorem Located.answered {place : Place cfg} (located : Located s task place)
    (torn : TornWhileDraining s) (woken : (s.history task).woken = true) :
    Answered s task ∨ TornDown s task := by
  have settled := located.settled
  cases place with
  | unborn =>
      have blank : s.history task = {} := settled
      rw [blank] at woken
      cases woken
  | idle =>
      rw [settled.2.2] at woken
      cases woken
  | retired | freed => exact Or.inl (.finished (over_of_retired settled.2.1))
  | held holder =>
      have member := located.counts.mem_of_held
      cases holder with
      | list list => exact Or.inl (.awaiting (Or.inl ⟨list, member⟩))
      | frame thread => exact Frame.Settled.answered settled (Frame.held_eq member) torn woken
      | call thread =>
          change task ∈ (s.call thread).held at member
          change (s.call thread).Settled _ _ at settled
          cases called : s.call thread with
          | placing name worker front maker =>
              rw [called] at member
              cases List.mem_singleton.mp member
              exact Or.inl (.awaiting (Or.inr (Or.inl ⟨thread, worker, front, maker, called⟩)))
          | push name via =>
              rw [called] at member
              cases List.mem_singleton.mp member
              exact Or.inl (.awaiting (Or.inr (Or.inr (Or.inl ⟨thread, via, called⟩))))
          | dealloc name =>
              rw [called] at settled
              exact Or.inl (.finished (over_of_retired settled.2.1))
          | none | wake | nextEpoch | rcDec | pushBatch =>
              rw [called] at settled
              exact settled.elim

theorem Located.unwoken_of_idle {place : Place cfg} (located : Located s task place)
    (status : (s.tasks task).status = Task.idleStatus) :
    (s.history task).woken = false := by
  have settled := located.settled
  cases place with
  | unborn =>
      have blank : s.history task = {} := settled
      rw [blank]
  | idle => exact settled.2.2
  | retired | freed => exact absurd status settled.2.1.ne_idle
  | held holder =>
      cases holder with
      | list list => exact absurd status settled.2.held.ne_idle
      | frame thread =>
          change (s.frame thread).Settled _ _ at settled
          cases frame : s.frame thread <;> rw [frame] at settled
          case idle | dead | unwinding => exact settled.elim
          case stolen | popped | tearing | dropInPlace =>
            exact absurd status settled.2.held.ne_idle
          case cleared => exact absurd status settled.2.ne_idle
          case polling | pending => exact absurd status settled.2.1.ne_idle
          case ready => exact absurd status settled.2.2.ne_idle
          case retiring | dropping | releasing | checkRc =>
            exact absurd status settled.2.ne_idle
          case deallocating => exact absurd status settled.2.1.ne_idle
      | call thread =>
          change (s.call thread).Settled _ _ at settled
          cases called : s.call thread <;> rw [called] at settled
          case placing | push => exact absurd status settled.2.held.ne_idle
          case dealloc => exact absurd status settled.2.1.ne_idle
          all_goals exact settled.elim

/-- A wake that has happened since the latest start of the poll is answered, unless
`WorkerGuard::drop` has taken the task to drop it; so the poll of an idle task
started after every wake. -/
theorem no_lost_wake (reached : (system cfg).Reachable noPanic s) (task : TaskRef) :
    ((s.history task).woken = true → Answered s task ∨ TornDown s task) ∧
      ((s.tasks task).status = Task.idleStatus → (s.history task).woken = false) := by
  obtain ⟨_place, located⟩ := reachable_inv reached task
  exact ⟨located.answered (reachable_torn reached), located.unwoken_of_idle⟩

theorem no_lost_wake_while_polled :
    (polledAndWoken.history 7).woken = true ∧
      (Answered polledAndWoken 7 ∨ TornDown polledAndWoken 7) :=
  ⟨rfl, (no_lost_wake polledAndWoken_reached 7).1 rfl⟩

end Yaay.TaskSystem
