import Yaay.Runtime.TaskExclusivity
import Yaay.Runtime.TaskLocality

set_option autoImplicit false

/-! Wakes after `WorkerGuard::drop` has begun to free the workers. They do no harm only
if no idle task can still be woken at that moment: such a task is never dropped. -/

namespace Yaay.TaskSystem

open Yaay.Transition

variable {cfg : Config} {s next : State cfg} {task : TaskRef} {thread : Fin cfg.threads}

def Stage.pastFirst : Stage → Bool
  | .running => false
  | .collecting worker | .freeing worker => decide (0 < worker)
  | .draining | .finished => true

def State.firstFreed (s : State cfg) : Prop := 0 < cfg.workers ∧ s.stage.pastFirst = true

/-- No wake is on its way to a queue, and none can get there: a task whose status lets a
wake schedule it has no live waker and no wake in progress. -/
structure Quiet (s : State cfg) : Prop where
  wakers : ∀ task, Task.schedules (s.tasks task).status = true → (s.history task).wakers = []
  waking : ∀ thread task via, s.call thread = .wake task via →
    Task.schedules (s.tasks task).status = false
  pushing : ∀ thread task via, s.call thread ≠ .push task via
  announcing : ∀ thread task via, s.call thread ≠ .nextEpoch task via

def woundDown (s : State cfg) (action : Action cfg) : Prop :=
  action = .freeWorker → s.stage = .freeing 0 → Quiet s

def Frame.halted : Frame → Bool
  | .idle | .retiring _ true | .dropping _ true | .releasing _ | .deallocating _ _
  | .tearing _ | .dropInPlace _ | .checkRc _ | .dead => true
  | _ => false

def Halted (s : State cfg) : Prop :=
  s.stage ≠ .running → ∀ thread, (s.frame thread).halted = true

private theorem halted_update {frame : Frame} (before : ∀ name, (s.frame name).halted = true)
    (halted : frame.halted = true) (name : Fin cfg.threads) :
    (Function.update s.frame thread frame name).halted = true := by
  by_cases same : name = thread
  · rw [same, Function.update_self, halted]
  · rw [Function.update_of_ne same, before name]

private theorem halted_of_idle {frame : Frame} (idle : frame.isIdle = true) :
    frame.halted = true := by
  cases frame <;> first | rfl | cases idle

private theorem halted_step {action : Action cfg} (halted : Halted s)
    (taken : step s action = some next) : Halted next := by
  intro stopped
  cases action with
  | build | batchNew | pushBatch | pushBatchNext | create | place | rngGen | shutdownPoll
  | cloneWaker | wake | wakeFetchOr | wakePush | wakeNextEpoch | dropWaker | rcDec
  | callDealloc =>
      obtain ⟨stage, frame, _⟩ := step_ofCall rfl taken
      rw [stage] at stopped
      rw [frame]
      exact halted stopped
  | teardown =>
      obtain ⟨joined, rfl⟩ := teardown_cases taken
      exact fun thread => halted_of_idle (joined.2.1 thread)
  | collect =>
      obtain ⟨worker, stage, ⟨_, rfl⟩ | ⟨_, rfl⟩⟩ := collect_cases taken
      · exact halted (by rw [stage]; simp)
      · exact halted (by rw [stage]; simp)
  | freeWorker =>
      obtain ⟨worker, stage, rfl⟩ := freeWorker_cases taken
      exact halted (by rw [stage]; simp)
  | teardownPop =>
      obtain ⟨stage, _, ⟨_, rfl⟩ | ⟨task, rest, _, rfl⟩⟩ := teardownPop_cases taken
      · exact halted (by rw [stage]; simp)
      · exact halted_update (halted (by rw [stage]; simp)) rfl
  | assertRc =>
      simp only [step, assertRc] at taken
      repeat' split at taken
      all_goals cases taken
      exact halted_update (halted stopped) rfl
  | dropTask =>
      simp only [step, dropTask] at taken
      split at taken
      · cases taken
        refine halted_update (halted stopped) ?_
        split <;> rfl
      · cases taken
  | checkRc =>
      simp only [step, checkRc] at taken
      split at taken
      · cases taken
        exact halted_update (halted stopped) rfl
      · cases taken
  | pop =>
      simp only [step, pop] at taken
      repeat' split at taken
      all_goals
        cases taken <;> exact absurd (by assumption) stopped
  | callDropInPlace name =>
      have stage := (step_ofFrame rfl taken).1
      rw [stage] at stopped
      have before := halted stopped name
      simp only [step, callDropInPlace] at taken
      split at taken
      · rename_i task teardown frame
        rw [frame] at before
        cases teardown with
        | true =>
            cases taken
            exact halted_update (halted stopped) rfl
        | false => cases before
      · cases taken
  | dropReturn name | release name | fnDealloc name =>
      have stage := (step_ofFrame rfl taken).1
      rw [stage] at stopped
      simp only [step, dropReturn, release, fnDealloc] at taken
      split at taken
      · cases taken
        refine halted_update (halted stopped) ?_
        split <;> rfl
      · cases taken
  | setWorkerId name | clearNotified name | callPoll name | pollReturn name | pollPanic name
  | compareExchangeWeak name | setDropped name | unwind name =>
      have stage := (step_ofFrame rfl taken).1
      rw [stage] at stopped
      have before := halted stopped name
      cases frame : s.frame name with
      | stolen | popped | cleared | polling | pending | ready | unwinding =>
          rw [frame] at before
          cases before
      | _ =>
          simp [step, setWorkerId, TaskSystem.clearNotified, callPoll, pollReturn, pollPanic,
            compareExchangeWeak, TaskSystem.setDropped, unwind, frame] at taken

theorem reachable_halted {permits : State cfg → Action cfg → Prop}
    (reached : (system cfg).Reachable permits s) : Halted s := by
  apply reached.invariant Halted
  · intro state start stopped
    rw [start] at stopped
    exact absurd rfl stopped
  · exact fun _state _next _action _earlier halted _permitted taken => halted_step halted taken

def Call.wakes : Call cfg → Bool
  | .wake _ _ | .push _ _ | .nextEpoch _ _ => true
  | _ => false

private theorem afterWake_wakes (task : TaskRef) (via : Via cfg) :
    (afterWake task via).wakes = false := by
  cases via <;> rfl

private theorem available_of_joined (halted : ∀ thread, (s.frame thread).halted = true)
    {via : Via cfg} (available : s.available task via) :
    (s.history task).wakers ≠ [] := by
  cases via with
  | lent worker =>
      have here := halted worker
      rw [Frame.polls_held available] at here
      cases here
  | byRef waker | byValue waker => exact List.ne_nil_of_mem available.1

section Joined

variable {action : Action cfg} (halted : ∀ thread, (s.frame thread).halted = true)
  (taken : step s action = some next)

include halted taken

private theorem status_of_joined (task : TaskRef) :
    (next.tasks task).status = (s.tasks task).status ∨
      Task.schedules (next.tasks task).status = false := by
  have written := header_step taken task
  generalize next.tasks task = header at written ⊢
  cases written with
  | created => exact Or.inr (Task.schedules_held (Or.inr rfl))
  | polled status frame =>
      have here := halted action.thread
      rcases frame with popped | ⟨prev, pending⟩
      · rw [popped] at here
        cases here
      · rw [pending] at here
        cases here
  | dropped => exact Or.inr (Task.schedules_setDropped _)
  | woken => exact Or.inr (Task.schedules_wakeStatus _)
  | same | moved | counted => exact Or.inl rfl

private theorem wakers_of_joined (none : (s.history task).wakers = []) :
    (next.history task).wakers = [] := by
  have recorded := history_step taken task
  generalize next.history task = after at recorded ⊢
  cases recorded with
  | cloned via fresh available => exact absurd none (available_of_joined halted available)
  | gone waker =>
      change (s.history task).wakers.erase waker = []
      rw [none]
      rfl
  | _ => exact none

/-- A thread comes to a push only through a wake that may schedule its task, and to such a
wake only with a live waker. -/
theorem call_of_joined (thread : Fin cfg.threads) :
    next.call thread = s.call thread ∨ (next.call thread).wakes = false ∨
      (∃ task via, next.call thread = .wake task via ∧ (s.history task).wakers ≠ []) ∨
      (∃ task via, s.call thread = .wake task via ∧
        Task.schedules (s.tasks task).status = true) ∨
      ∃ task via, s.call thread = .push task via := by
  by_cases mine : action.thread = thread
  · subst mine
    cases action with
    | wake name task via =>
        simp only [step, wake] at taken
        repeat' split at taken
        · rename_i allowed
          cases taken
          refine Or.inr (Or.inr (Or.inl ⟨task, via, ?_, available_of_joined halted allowed.1⟩))
          exact Function.update_self ..
        · cases taken
        · cases taken
    | wakeFetchOr name =>
        simp only [step, wakeFetchOr] at taken
        split at taken
        · rename_i task via called
          cases may : Task.schedules (s.tasks task).status with
          | true => exact Or.inr (Or.inr (Or.inr (Or.inl ⟨task, via, called, may⟩)))
          | false =>
              cases taken
              refine Or.inr (Or.inl ?_)
              simp only [Action.thread, State.setCall_call, Function.update_self, may]
              exact afterWake_wakes task via
        · cases taken
    | wakePush name misread =>
        simp only [step, wakePush] at taken
        split at taken
        · rename_i task via called
          exact Or.inr (Or.inr (Or.inr (Or.inr ⟨task, via, called⟩)))
        · cases taken
    | wakeNextEpoch name =>
        simp only [step, wakeNextEpoch] at taken
        split at taken
        · cases taken
          refine Or.inr (Or.inl ?_)
          simp only [Action.thread, Function.update_self]
          exact afterWake_wakes _ _
        · cases taken
    | pop | setWorkerId | clearNotified | callPoll | pollReturn | pollPanic
    | compareExchangeWeak | setDropped | callDropInPlace | dropReturn | release | fnDealloc
    | unwind =>
        rw [(step_ofFrame rfl taken).2.1]
        exact Or.inl rfl
    | teardown | collect | freeWorker | teardownPop | assertRc | dropTask | checkRc =>
        rw [(step_ofGuard rfl rfl taken).2.1]
        exact Or.inl rfl
    | _ =>
        simp only [step, build, batchNew, pushBatch, pushBatchNext, create, place, rngGen,
          shutdownPoll, cloneWaker, dropWaker, rcDec, callDealloc] at taken
        repeat' split at taken
        all_goals
          cases taken <;>
            first
            | exact Or.inl rfl
            | exact Or.inr (Or.inl (by simp [Action.thread, Call.wakes]))
  · exact Or.inl (step_other taken mine).2.1

private theorem wakes_of_joined (quiet : Quiet s) {call : Call cfg} (thread : Fin cfg.threads)
    (called : next.call thread = call) (wakes : call.wakes = true) :
    s.call thread = call ∨
      ∃ task via, call = .wake task via ∧ Task.schedules (s.tasks task).status = false := by
  rcases call_of_joined halted taken thread with
    same | quieted | ⟨task, via, entered, alive⟩ | ⟨task, via, waking, may⟩ | ⟨task, via, pushing⟩
  · exact Or.inl (same.symm.trans called)
  · rw [called, wakes] at quieted
    cases quieted
  · refine Or.inr ⟨task, via, called.symm.trans entered, ?_⟩
    cases may : Task.schedules (s.tasks task).status with
    | true => exact absurd (quiet.wakers task may) alive
    | false => rfl
  · rw [quiet.waking thread task via waking] at may
    cases may
  · exact absurd pushing (quiet.pushing thread task via)

private theorem quiet_step (quiet : Quiet s) : Quiet next := by
  have bars (task : TaskRef) (before : Task.schedules (s.tasks task).status = false) :
      Task.schedules (next.tasks task).status = false := by
    rcases status_of_joined halted taken task with same | barred
    · rw [same, before]
    · exact barred
  constructor
  · intro task may
    rcases status_of_joined halted taken task with same | barred
    · rw [same] at may
      exact wakers_of_joined halted taken (quiet.wakers task may)
    · rw [barred] at may
      cases may
  · intro thread task via called
    rcases wakes_of_joined halted taken quiet thread called rfl with
      before | ⟨name, other, entered, barred⟩
    · exact bars task (quiet.waking thread task via before)
    · cases entered
      exact bars task barred
  · intro thread task via called
    rcases wakes_of_joined halted taken quiet thread called rfl with
      before | ⟨name, other, entered, _barred⟩
    · exact quiet.pushing thread task via before
    · cases entered
  · intro thread task via called
    rcases wakes_of_joined halted taken quiet thread called rfl with
      before | ⟨name, other, entered, _barred⟩
    · exact quiet.announcing thread task via before
    · cases entered

end Joined

private theorem firstFreed_of_step {action : Action cfg} (taken : step s action = some next)
    (freed : next.firstFreed) :
    s.firstFreed ∨ (action = .freeWorker ∧ s.stage = .freeing 0) := by
  obtain ⟨positive, past⟩ := freed
  have kept (same : next.stage = s.stage) : s.firstFreed := by
    rw [same] at past
    exact ⟨positive, past⟩
  cases action with
  | collect =>
      obtain ⟨worker, stage, ⟨_, rfl⟩ | ⟨beyond, rfl⟩⟩ := collect_cases taken
      · exact Or.inl ⟨positive, by rw [stage]; exact past⟩
      · refine Or.inl ⟨positive, ?_⟩
        rw [stage]
        exact decide_eq_true (Nat.lt_of_lt_of_le positive (Nat.le_of_not_lt beyond))
  | freeWorker =>
      obtain ⟨worker, stage, rfl⟩ := freeWorker_cases taken
      cases worker with
      | zero => exact Or.inr ⟨rfl, stage⟩
      | succ worker => exact Or.inl ⟨positive, by rw [stage]; rfl⟩
  | teardownPop =>
      obtain ⟨stage, _⟩ := teardownPop_cases taken
      exact Or.inl ⟨positive, by rw [stage]; rfl⟩
  | teardown =>
      obtain ⟨_, rfl⟩ := teardown_cases taken
      cases past
  | assertRc | dropTask | checkRc =>
      simp only [step, assertRc, dropTask, checkRc] at taken
      repeat' split at taken
      all_goals
        cases taken <;> exact Or.inl (kept rfl)
  | pop | setWorkerId | clearNotified | callPoll | pollReturn | pollPanic | compareExchangeWeak
  | setDropped | callDropInPlace | dropReturn | release | fnDealloc | unwind =>
      exact Or.inl (kept (step_ofFrame rfl taken).1)
  | _ => exact Or.inl (kept (step_ofCall rfl taken).1)

private theorem quiet_of_freed (reached : (system cfg).Reachable woundDown s) :
    s.firstFreed → Quiet s := by
  refine reached.invariant (fun s => s.firstFreed → Quiet s) ?_ ?_
  · intro state start freed
    rw [start] at freed
    cases freed.2
  · intro state next action earlier quiet permitted taken freed
    have halted := reachable_halted earlier
    rcases firstFreed_of_step taken freed with before | ⟨first, stage⟩
    · have stopped : state.stage ≠ .running := by
        intro running
        have past := before.2
        rw [running] at past
        cases past
      exact quiet_step (halted stopped) taken (quiet before)
    · have stopped : state.stage ≠ .running := by
        rw [stage]
        exact fun other => by cases other
      exact quiet_step (halted stopped) taken (permitted first stage)

/-- In every run in which it is quiet when the first worker is freed, no wake reaches its
push from then on, so none reads a freed `Worker`, the freed `Epoch` or the null `GLOBAL`. -/
theorem no_push_after_first_freed (reached : (system cfg).Reachable woundDown s)
    (freed : s.firstFreed) (thread : Fin cfg.threads) :
    (∀ task via, s.call thread ≠ .push task via ∧ s.call thread ≠ .nextEpoch task via) ∧
      (∀ misread, step s (.wakePush thread misread) = none) ∧
      step s (.wakeNextEpoch thread) = none := by
  have quiet := quiet_of_freed reached freed
  refine ⟨?_, ?_, ?_⟩
  · intro task via
    exact ⟨quiet.pushing thread task via, quiet.announcing thread task via⟩
  · intro misread
    simp only [step, wakePush]
    split
    · rename_i task via called
      exact absurd called (quiet.pushing thread task via)
    · rfl
  · simp only [step, wakeNextEpoch]
    split
    · rename_i task via called
      exact absurd called (quiet.announcing thread task via)
    · rfl

/-- Where a waker of an idle task is left, the next wake through it reaches its push, at
whatever stage. -/
theorem push_of_idle_task {via : Via cfg} (idle : s.call thread = .none)
    (user : (s.frame thread).userCode = true) (available : s.available task via)
    (may : Task.schedules (s.tasks task).status = true) :
    ∃ last, (system cfg).exec s [.wake thread task via, .wakeFetchOr thread] = some last ∧
      last.stage = s.stage ∧ last.call thread = .push task via := by
  have entered : step s (.wake thread task via) = some (s.setCall thread (.wake task via)) := by
    simp only [step, wake, idle]
    exact if_pos ⟨available, user⟩
  have called : (s.setCall thread (.wake task via)).call thread = .wake task via :=
    Function.update_self ..
  have fetched : ∃ last, step (s.setCall thread (.wake task via)) (.wakeFetchOr thread) =
      some last ∧ last.stage = s.stage ∧ last.call thread = .push task via := by
    simp only [step, wakeFetchOr, called, State.setCall_tasks, may, if_true]
    exact ⟨_, rfl, rfl, Function.update_self ..⟩
  obtain ⟨last, taken, stage, call⟩ := fetched
  refine ⟨last, ?_, stage, call⟩
  simp [System.exec, system, entered, taken]

abbrev loneWorker : Config := { workers := 1, threads := 2, main := ⟨0, Nat.zero_lt_two⟩ }

abbrev starter : Fin loneWorker.threads := ⟨0, Nat.zero_lt_two⟩

abbrev runner : Fin loneWorker.threads := ⟨1, Nat.one_lt_two⟩

def pollOnce : List (Action loneWorker) :=
  [.build runner 0, .create starter 8 0 false .run, .place starter, .pop runner 0,
    .clearNotified runner, .callPoll runner, .cloneWaker runner 8 (.lent runner) 5,
    .pollReturn runner false, .compareExchangeWeak runner false]

def wakeAndGather : List (Action loneWorker) :=
  pollOnce ++ [.wake starter 8 (.byRef 5), .wakeFetchOr starter, .wakePush starter .teardown,
    .wakeNextEpoch starter, .teardown, .collect]

private theorem wakeAndGather_runs :
    ((system loneWorker).exec (State.init loneWorker) wakeAndGather).isSome = true := by
  decide

def gathered : State loneWorker :=
  ((system loneWorker).exec (State.init loneWorker) wakeAndGather).get wakeAndGather_runs

private theorem gathered_other {task : TaskRef} (other : task ≠ 8) :
    gathered.history task = {} := by
  change Function.update (Function.update (Function.update (Function.update
    (fun _ => History.mk false false false 0 false 0 []) 8 _) 8 _) 8 _) 8 _ task = {}
  simp only [Function.update_of_ne other]

private theorem gathered_calls (thread : Fin loneWorker.threads) :
    (gathered.call thread).wakes = false := by
  revert thread
  decide

private theorem gathered_quiet : Quiet gathered where
  wakers := by
    intro task may
    by_cases same : task = 8
    · rw [same] at may
      exact absurd may (by decide)
    · rw [gathered_other same]
  waking := by
    intro thread task via called
    have none := gathered_calls thread
    rw [called] at none
    cases none
  pushing := by
    intro thread task via called
    have none := gathered_calls thread
    rw [called] at none
    cases none
  announcing := by
    intro thread task via called
    have none := gathered_calls thread
    rw [called] at none
    cases none

def freeAndWake : List (Action loneWorker) :=
  [.freeWorker, .collect, .teardownPop, .assertRc, .dropTask, .callDropInPlace starter,
    .dropReturn starter, .checkRc, .release starter, .teardownPop, .wake starter 8 (.byRef 5),
    .wakeFetchOr starter]

private theorem freeAndWake_runs :
    ((system loneWorker).exec gathered freeAndWake).isSome = true := by
  decide

def wokenLate : State loneWorker :=
  ((system loneWorker).exec gathered freeAndWake).get freeAndWake_runs

private theorem wokenLate_reached : (system loneWorker).Reachable woundDown wokenLate := by
  have before : (system loneWorker).Reachable woundDown gathered := by
    refine System.Reachable.replay (.initial _ rfl) ?_ wakeAndGather_runs
    exact System.permitted_of_all wakeAndGather (by simp [wakeAndGather, pollOnce, woundDown]) _
  refine before.replay ?_ freeAndWake_runs
  refine And.intro (fun _ _ => gathered_quiet) ?_
  intro next taken
  exact System.permitted_of_all _ (by simp [woundDown]) _

theorem no_push_of_dropped_task :
    wokenLate.stage = .finished ∧ wokenLate.firstFreed ∧
      ∀ task via, wokenLate.call starter ≠ .push task via ∧
        wokenLate.call starter ≠ .nextEpoch task via := by
  have freed : wokenLate.firstFreed := ⟨by decide, rfl⟩
  exact ⟨rfl, freed, (no_push_after_first_freed wokenLate_reached freed starter).1⟩

/-- The task stays idle; the runtime is torn down, and then the task is woken. -/
def wakeLeftIdle : List (Action loneWorker) :=
  pollOnce ++ [.teardown, .collect, .freeWorker, .collect, .teardownPop,
    .wake starter 8 (.byRef 5), .wakeFetchOr starter]

private theorem wakeLeftIdle_runs :
    ((system loneWorker).exec (State.init loneWorker) wakeLeftIdle).isSome = true := by
  decide

def leftIdle : State loneWorker :=
  ((system loneWorker).exec (State.init loneWorker) wakeLeftIdle).get wakeLeftIdle_runs

/-- A task that is idle at shutdown is never dropped; the next wake goes on to push it
through the null `GLOBAL`. -/
theorem idle_task_pushed_after_teardown :
    (system loneWorker).Reachable anyAction leftIdle ∧ leftIdle.firstFreed ∧
      leftIdle.stage = .finished ∧ (leftIdle.history 8).drops = 0 ∧
      leftIdle.call starter = .push 8 (.byRef 5) ∧ leftIdle.slot starter = .null ∧
      ∀ misread, step leftIdle (.wakePush starter misread) = none := by
  refine ⟨?_, ⟨by decide, rfl⟩, rfl, rfl, rfl, rfl, fun _ => rfl⟩
  exact System.Reachable.replay_any (.initial _ rfl) wakeLeftIdle_runs

end Yaay.TaskSystem
