import Yaay.Runtime.LateWakes
import Yaay.Runtime.TaskLifetime

set_option autoImplicit false

/-! Where the futures are that `WorkerGuard::drop` has yet to drop: in a queue that it
has not gathered, in the list that it has gathered, or in the main thread's hands. A task
that is elsewhere when it starts is not dropped. -/

namespace Yaay.TaskSystem

open Yaay.Transition

variable {cfg : Config} {s next : State cfg} {task : TaskRef} {thread : Fin cfg.threads}
  {action : Action cfg}

/-- Every future that has not been dropped is in the queue of a worker: none is idle, in a
batch, or in the hands of a thread that is about to push it. -/
def Swept (s : State cfg) : Prop :=
  ∀ task, (s.history task).created = true → (s.history task).drops = 0 →
    ∃ worker < cfg.workers, task ∈ s.lists (.queue worker)

/-- No poll unwinds, `WorkerGuard::drop` starts where all futures are queued, and from then on
nobody calls `Task::new`. -/
def sweptTeardown (s : State cfg) (action : Action cfg) : Prop :=
  noPanic s action ∧ (action = .teardown → Swept s) ∧ (action.creates → s.stage = .running)

def Stage.ungathered (worker : WorkerId) : Stage → Prop
  | .running => True
  | .collecting first => first ≤ worker
  | .freeing last => last < worker
  | .draining | .finished => False

inductive Due (s : State cfg) (task : TaskRef) : Prop
  | queued (worker : WorkerId) (real : worker < cfg.workers)
      (left : s.stage.ungathered worker) (member : task ∈ s.lists (.queue worker))
  | gathered (unfinished : s.stage ≠ .finished) (member : task ∈ s.lists .teardown)
  | torn (draining : s.stage = .draining) (held : (s.frame cfg.main).held = [task])

def Settling (s : State cfg) : Prop :=
  s.stage ≠ .running → ∀ task, (s.history task).created = true →
    (s.history task).drops = 0 → Due s task

private theorem history_of_uncreating (quiet : ¬ action.creates) (taken : step s action = some next)
    (task : TaskRef) :
    (s.history task).drops ≤ (next.history task).drops ∧
      (next.history task).created = (s.history task).created := by
  have recorded := history_step taken task
  generalize next.history task = after at recorded ⊢
  cases recorded with
  | created made => exact absurd made quiet
  | dropped teardown frame => exact ⟨Nat.le_succ _, rfl⟩
  | _ => exact ⟨Nat.le_refl _, rfl⟩

/-- Only `collect` and `teardownPop` take tasks off the queues and the gathered list. -/
theorem lists_of_joined (stopped : s.stage ≠ .running) (taken : step s action = some next)
    (collects : action ≠ .collect) (pops : action ≠ .teardownPop) {list : ListId cfg}
    (apart : ∀ thread worker, list ≠ .batch thread worker) (member : task ∈ s.lists list) :
    task ∈ next.lists list := by
  have grown (other : ListId cfg) (tasks : List TaskRef)
      (more : list = other → task ∈ tasks) :
      task ∈ Function.update s.lists other tasks list := by
    by_cases here : list = other
    · rw [here, Function.update_self]
      exact more here
    · rw [Function.update_of_ne here]
      exact member
  cases action with
  | collect => exact absurd rfl collects
  | teardownPop => exact absurd rfl pops
  | pop =>
      simp only [step, pop] at taken
      repeat' split at taken
      all_goals
        cases taken <;> exact absurd (by assumption) stopped
  | place name =>
      simp only [step, place] at taken
      split at taken
      · rename_i task worker front maker called
        cases taken
        apply grown
        intro here
        rw [here] at member
        cases front with
        | true => exact List.mem_cons_of_mem _ member
        | false => exact List.mem_append_left _ member
      · cases taken
  | wakePush name misread =>
      simp only [step, wakePush] at taken
      repeat' split at taken
      all_goals
        cases taken <;>
          exact grown _ _ (fun here => List.mem_append_left _ (here ▸ member))
  | pushBatchNext name =>
      simp only [step, pushBatchNext] at taken
      split at taken
      · rename_i worker moved closing called slot
        split at taken
        · split at taken
          · cases taken
            exact member
          · cases taken
            have away := apart name worker
            by_cases here : list = .queue worker
            · rw [here] at member ⊢
              simp only [State.setCall_lists, State.setList_lists, Function.update_self]
              exact List.mem_append_left _ member
            · simp only [State.setCall_lists, State.setList_lists, Function.update_of_ne here,
                Function.update_of_ne away]
              exact member
        · cases taken
          exact member
      · cases taken
        exact member
      · cases taken
  | _ =>
      simp only [step, build, batchNew, pushBatch, create, rngGen, shutdownPoll, setWorkerId,
        TaskSystem.clearNotified, callPoll, pollReturn, pollPanic, compareExchangeWeak,
        TaskSystem.setDropped, callDropInPlace, dropReturn, release, fnDealloc, unwind, cloneWaker,
        wake, wakeFetchOr, wakeNextEpoch, dropWaker, rcDec, callDealloc,
        teardown, freeWorker, assertRc, dropTask, checkRc] at taken
      repeat' split at taken
      all_goals
        cases taken <;> exact member

private theorem stage_of_other (taken : step s action = some next) (starts : action ≠ .teardown)
    (collects : action ≠ .collect) (frees : action ≠ .freeWorker)
    (pops : action ≠ .teardownPop) : next.stage = s.stage := by
  cases action with
  | teardown => exact absurd rfl starts
  | collect => exact absurd rfl collects
  | freeWorker => exact absurd rfl frees
  | teardownPop => exact absurd rfl pops
  | assertRc | dropTask | checkRc =>
      simp only [step, assertRc, dropTask, checkRc] at taken
      repeat' split at taken
      all_goals cases taken <;> rfl
  | pop | setWorkerId | clearNotified | callPoll | pollReturn | pollPanic
  | compareExchangeWeak | setDropped | callDropInPlace | dropReturn | release | fnDealloc
  | unwind => exact (step_ofFrame rfl taken).1
  | _ => exact (step_ofCall rfl taken).1

/-- The main thread keeps the future that it is tearing down until it is dropped. -/
theorem torn_of_joined (inv : Inv s) (halted : ∀ thread, (s.frame thread).halted = true)
    (taken : step s action = some next) (held : (s.frame cfg.main).held = [task])
    (fresh : (s.history task).drops = 0) : (next.frame cfg.main).held = [task] := by
  by_cases mine : action.thread = cfg.main
  · have settled : (s.frame cfg.main).Settled (s.tasks task).status (s.history task) := by
      obtain ⟨place, located⟩ := inv task
      have settled := located.settled
      rw [located.counts.place_of_frame (by rw [held]; exact List.mem_singleton.mpr rfl)] at settled
      exact settled
    have here := halted cfg.main
    cases action with
    | release name | fnDealloc name =>
        simp only [Action.thread] at mine
        subst mine
        simp only [step, release, fnDealloc] at taken
        split at taken
        · rename_i frame
          rw [frame] at settled
          have once := settled.1.drops_eq
          omega
        · cases taken
    | compareExchangeWeak name | unwind name =>
        simp only [Action.thread] at mine
        subst mine
        simp only [step, compareExchangeWeak, unwind] at taken
        split at taken
        · rename_i frame
          rw [frame] at here
          cases here
        · cases taken
    | pop name worker =>
        simp only [Action.thread] at mine
        subst mine
        simp only [step, pop] at taken
        split at taken
        · rename_i idle _ _
          rw [idle] at held
          cases held
        · cases taken
    | teardownPop =>
        simp only [step, teardownPop] at taken
        split at taken
        · rename_i idle _
          rw [idle] at held
          cases held
        · cases taken
    | setWorkerId name | clearNotified name | callPoll name | pollReturn name | pollPanic name
    | setDropped name | callDropInPlace name | dropReturn name =>
        simp only [Action.thread] at mine
        subst mine
        simp only [step, setWorkerId, TaskSystem.clearNotified, callPoll, pollReturn, pollPanic,
          TaskSystem.setDropped, callDropInPlace, dropReturn] at taken
        repeat' split at taken
        all_goals
          cases taken <;> simp_all [Frame.held]
    | assertRc | dropTask | checkRc =>
        simp only [step, assertRc, dropTask, checkRc] at taken
        repeat' split at taken
        all_goals
          cases taken <;> simp_all [Frame.held]
    | teardown | collect | freeWorker =>
        simp only [step, teardown, collect, freeWorker] at taken
        repeat' split at taken
        all_goals
          cases taken <;> exact held
    | _ =>
        rw [(step_ofCall rfl taken).2.1]
        exact held
  · rw [(step_other taken mine).1]
    exact held

theorem Due.collect (due : Due s task) (taken : step s .collect = some next) :
    Due next task := by
  obtain ⟨first, stage, ⟨_, rfl⟩ | ⟨last, rfl⟩⟩ := collect_cases taken
  · cases due with
    | queued worker real left member =>
        rw [stage] at left
        by_cases here : worker = first
        · refine .gathered (by simp) ?_
          rw [here] at member
          simp only [State.setList_lists, Function.update_self]
          exact List.mem_append_right _ member
        · refine .queued worker real (Nat.lt_of_le_of_ne left (Ne.symm here)) ?_
          simp only [State.setList_lists, ne_eq, reduceCtorEq, not_false_eq_true,
            Function.update_of_ne, ListId.queue.injEq, here]
          exact member
    | gathered unfinished member =>
        refine .gathered (by simp) ?_
        simp only [State.setList_lists, Function.update_self]
        exact List.mem_append_left _ member
    | torn draining held => cases stage.symm.trans draining
  · cases due with
    | queued worker real left member =>
        rw [stage] at left
        exact absurd (Nat.lt_of_le_of_lt left real) last
    | gathered unfinished member => exact .gathered (by simp) member
    | torn draining held => cases stage.symm.trans draining

theorem Due.freeWorker (due : Due s task) (taken : step s .freeWorker = some next) :
    Due next task := by
  obtain ⟨last, stage, rfl⟩ := freeWorker_cases taken
  cases due with
  | queued worker real left member =>
      rw [stage] at left
      exact .queued worker real left member
  | gathered unfinished member => exact .gathered (by simp) member
  | torn draining held => cases stage.symm.trans draining

theorem Due.teardownPop (due : Due s task) (taken : step s .teardownPop = some next) :
    Due next task := by
  obtain ⟨stage, idle, finds⟩ := teardownPop_cases taken
  cases due with
  | queued worker real left member =>
      rw [stage] at left
      exact left.elim
  | gathered unfinished member =>
      obtain ⟨empty, _⟩ | ⟨first, rest, gathered, rfl⟩ := finds
      · rw [empty] at member
        cases member
      · rw [gathered] at member
        rcases List.mem_cons.mp member with same | later
        · refine .torn stage ?_
          rw [same]
          simp [Frame.held]
        · refine .gathered (by simp [stage]) ?_
          simpa using later
  | torn draining held =>
      rw [idle] at held
      cases held

theorem Settling.step (before : Settling s) (inv : Inv s) (halted : Halted s)
    (permitted : action = .teardown → Swept s) (created : action.creates → s.stage = .running)
    (taken : step s action = some next) : Settling next := by
  intro stopped task born fresh
  by_cases running : s.stage = .running
  · cases action with
    | teardown =>
        have swept := permitted rfl
        obtain ⟨_, rfl⟩ := teardown_cases taken
        obtain ⟨worker, real, member⟩ := swept task born fresh
        exact .queued worker real (Nat.zero_le _) member
    | collect =>
        obtain ⟨first, stage, _⟩ := collect_cases taken
        cases running.symm.trans stage
    | freeWorker =>
        obtain ⟨last, stage, _⟩ := freeWorker_cases taken
        cases running.symm.trans stage
    | teardownPop =>
        cases running.symm.trans (teardownPop_cases taken).1
    | _ =>
        have stage := stage_of_other taken nofun nofun nofun nofun
        exact absurd (stage.trans running) stopped
  · have quiet : ¬ action.creates := fun made => running (created made)
    obtain ⟨fewer, same⟩ := history_of_uncreating quiet taken task
    rw [same] at born
    have undropped : (s.history task).drops = 0 := by omega
    have due := before running task born undropped
    cases action with
    | collect => exact due.collect taken
    | freeWorker => exact due.freeWorker taken
    | teardownPop => exact due.teardownPop taken
    | teardown => exact absurd (teardown_cases taken).1.1 running
    | _ =>
        have stage := stage_of_other taken nofun nofun nofun nofun
        cases due with
        | queued worker real left member =>
            refine .queued worker real (by rw [stage]; exact left) ?_
            exact lists_of_joined running taken nofun nofun nofun member
        | gathered unfinished member =>
            refine .gathered (by rw [stage]; exact unfinished) ?_
            exact lists_of_joined running taken nofun nofun nofun member
        | torn draining held =>
            exact .torn (by rw [stage]; exact draining)
              (torn_of_joined inv (halted running) taken held undropped)

private theorem reachable_settling (reached : (system cfg).Reachable sweptTeardown s) :
    Settling s := by
  have quietly : ∀ {state}, (system cfg).Reachable sweptTeardown state →
      (system cfg).Reachable noPanic state :=
    fun run => run.weaken (fun _ _ _ permitted => permitted.1)
  apply reached.invariant Settling
  · intro state start stopped
    rw [start] at stopped
    exact absurd rfl stopped
  · intro state after action earlier before permitted taken
    exact before.step (reachable_inv (quietly earlier)) (reachable_halted earlier)
      permitted.2.1 permitted.2.2 taken

/-- Where `WorkerGuard::drop` starts with all futures queued and no task is created after that,
every future ever created has been dropped exactly once when it is over. -/
theorem all_dropped_at_end (reached : (system cfg).Reachable sweptTeardown s)
    (finished : s.stage = .finished) (task : TaskRef)
    (created : (s.history task).created = true) : (s.history task).drops = 1 := by
  have run : (system cfg).Reachable noPanic s :=
    reached.weaken (fun _ _ _ permitted => permitted.1)
  obtain ⟨_place, located⟩ := reachable_inv run task
  have bound := located.drops
  by_cases fresh : (s.history task).drops = 0
  · have due := reachable_settling reached (by rw [finished]; simp) task created fresh
    cases due with
    | queued worker real left member =>
        rw [finished] at left
        exact left.elim
    | gathered unfinished member => exact absurd finished unfinished
    | torn draining held =>
        rw [finished] at draining
        cases draining
  · omega

structure Missed (s : State cfg) (task : TaskRef) : Prop where
  stopped : s.stage ≠ .running
  hands : ∀ thread, task ∉ (s.frame thread).held
  queues : ∀ worker < cfg.workers, task ∉ s.lists (.queue worker)
  list : task ∉ s.lists .teardown

def Action.pushes : Action cfg → Bool
  | .place _ | .wakePush _ _ | .pushBatchNext _ => true
  | _ => false

theorem Missed.undropped (missed : Missed s task) (taken : step s action = some next) :
    (next.history task).drops = (s.history task).drops := by
  have recorded := history_step taken task
  generalize next.history task = after at recorded ⊢
  cases recorded with
  | dropped teardown frame =>
      have apart := missed.hands action.thread
      rw [frame] at apart
      exact absurd (List.mem_singleton.mpr rfl) apart
  | _ => rfl

/-- A frame gets a task from a list only, and no list has this one. -/
theorem Missed.step (missed : Missed s task) (taken : step s action = some next)
    (silent : action.pushes = false) : Missed next task := by
  have stopped := missed.stopped
  have hands (name : Fin cfg.threads) (frame : Frame) (apart : task ∉ frame.held) :
      ∀ thread, task ∉ (Function.update s.frame name frame thread).held := by
    intro thread
    by_cases same : thread = name
    · rw [same, Function.update_self]
      exact apart
    · rw [Function.update_of_ne same]
      exact missed.hands thread
  cases action with
  | place | wakePush | pushBatchNext => cases silent
  | pop name =>
      simp only [TaskSystem.step, pop] at taken
      repeat' split at taken
      all_goals
        cases taken <;> exact absurd (by assumption) stopped
  | teardown => exact absurd (teardown_cases taken).1.1 stopped
  | collect =>
      obtain ⟨first, _, ⟨real, rfl⟩ | ⟨_, rfl⟩⟩ := collect_cases taken
      · refine ⟨by simp, missed.hands, ?_, ?_⟩
        · intro worker bound
          have apart := missed.queues worker bound
          by_cases here : worker = first
          · simp [here]
          · simpa [here] using apart
        · have queue := missed.queues first real
          simpa using And.intro missed.list queue
      · exact ⟨by simp, missed.hands, missed.queues, missed.list⟩
  | freeWorker =>
      obtain ⟨_, _, rfl⟩ := freeWorker_cases taken
      exact ⟨by simp, missed.hands, missed.queues, missed.list⟩
  | teardownPop =>
      obtain ⟨_, _, ⟨_, rfl⟩ | ⟨first, rest, gathered, rfl⟩⟩ := teardownPop_cases taken
      · exact ⟨by simp, missed.hands, missed.queues, missed.list⟩
      · have apart := missed.list
        rw [gathered, List.mem_cons, not_or] at apart
        refine ⟨stopped, ?_, ?_, ?_⟩
        · exact hands _ _ (by simpa [Frame.held] using apart.1)
        · simpa using missed.queues
        · simpa using apart.2
  | setWorkerId name | clearNotified name | callPoll name | pollReturn name | pollPanic name
  | compareExchangeWeak name | setDropped name | callDropInPlace name | dropReturn name
  | release name | fnDealloc name | unwind name =>
      have apart := missed.hands name
      simp only [TaskSystem.step, setWorkerId, TaskSystem.clearNotified, callPoll, pollReturn,
        pollPanic, compareExchangeWeak, TaskSystem.setDropped, callDropInPlace, dropReturn, release,
        fnDealloc, unwind] at taken
      repeat' split at taken
      all_goals
        cases taken <;>
          exact ⟨stopped, hands _ _ (by simp_all [Frame.held]), missed.queues, missed.list⟩
  | assertRc | dropTask | checkRc =>
      have apart := missed.hands cfg.main
      simp only [TaskSystem.step, assertRc, dropTask, checkRc] at taken
      repeat' split at taken
      all_goals
        cases taken <;>
          exact ⟨stopped, hands _ _ (by simp_all [Frame.held]), missed.queues, missed.list⟩
  | _ =>
      simp only [TaskSystem.step, build, batchNew, pushBatch, create, rngGen, shutdownPoll,
        cloneWaker, wake, wakeFetchOr, wakeNextEpoch, dropWaker, rcDec, callDealloc] at taken
      repeat' split at taken
      all_goals
        cases taken <;> exact ⟨stopped, missed.hands, missed.queues, missed.list⟩

/-- A future that is in no queue when `WorkerGuard::drop` starts is never dropped, unless
somebody pushes its task before the end. -/
theorem left_behind {first last : State cfg} {actions : List (Action cfg)}
    (taken : step s .teardown = some first)
    (unqueued : ∀ worker < cfg.workers, task ∉ s.lists (.queue worker))
    (ungathered : task ∉ s.lists .teardown)
    (silent : ∀ action ∈ actions, action.pushes = false)
    (ran : (system cfg).exec first actions = some last) :
    (last.history task).drops = (s.history task).drops := by
  have start : Missed first task ∧ (first.history task).drops = (s.history task).drops := by
    obtain ⟨joined, rfl⟩ := teardown_cases taken
    refine ⟨⟨by simp, ?_, unqueued, ungathered⟩, rfl⟩
    intro thread
    have idle := joined.2.1 thread
    cases frame : s.frame thread <;> simp_all [Frame.isIdle, Frame.held]
  clear taken
  induction actions generalizing first with
  | nil =>
      have same : first = last := Option.some.inj ran
      rw [← same]
      exact start.2
  | cons action rest ih =>
      obtain ⟨next, taken, later⟩ := System.exec_cons ran
      have missed := start.1.step taken (silent action List.mem_cons_self)
      refine ih (fun other member => silent other (List.mem_cons_of_mem action member)) later ?_
      exact ⟨missed, (start.1.undropped taken).trans start.2⟩

def spawnOne : List (Action loneWorker) :=
  [.build runner 0, .create starter 8 0 false .run, .place starter]

private theorem spawnOne_runs :
    ((system loneWorker).exec (State.init loneWorker) spawnOne).isSome = true := by
  decide

def spawned : State loneWorker :=
  ((system loneWorker).exec (State.init loneWorker) spawnOne).get spawnOne_runs

private theorem spawned_swept : Swept spawned := by
  intro task created _fresh
  by_cases same : task = 8
  · rw [same]
    exact ⟨0, by decide, by decide⟩
  · have other : spawned.history task = {} := Function.update_of_ne same ..
    rw [other] at created
    cases created

def dropOne : List (Action loneWorker) :=
  [.teardown, .collect, .freeWorker, .collect, .teardownPop, .assertRc, .dropTask,
    .callDropInPlace starter, .dropReturn starter, .checkRc, .release starter,
    .fnDealloc starter, .teardownPop]

private theorem dropOne_runs : ((system loneWorker).exec spawned dropOne).isSome = true := by
  decide

def tornDown : State loneWorker :=
  ((system loneWorker).exec spawned dropOne).get dropOne_runs

private theorem tornDown_reached : (system loneWorker).Reachable sweptTeardown tornDown := by
  have before : (system loneWorker).Reachable sweptTeardown spawned := by
    refine System.Reachable.replay (.initial _ rfl) ?_ spawnOne_runs
    refine ⟨⟨trivial, by simp, False.elim⟩, fun first built => ?_⟩
    refine ⟨⟨trivial, by simp, fun _ => ?_⟩, fun second created => ?_⟩
    · cases built
      rfl
    · exact System.permitted_of_all _ (by simp [sweptTeardown, noPanic, Action.creates]) _
  refine before.replay ?_ dropOne_runs
  refine ⟨⟨trivial, fun _ => spawned_swept, False.elim⟩, fun next _taken => ?_⟩
  exact System.permitted_of_all _ (by simp [sweptTeardown, noPanic, Action.creates]) _

theorem queued_future_dropped :
    tornDown.stage = .finished ∧ (tornDown.history 8).drops = 1 :=
  ⟨rfl, all_dropped_at_end tornDown_reached rfl 8 rfl⟩

/-- A task is polled once and waits to be woken when the worker returns. -/
def dropWhileIdle : List (Action loneWorker) :=
  pollOnce ++ [.teardown, .collect, .freeWorker, .collect, .teardownPop]

private theorem dropWhileIdle_runs :
    ((system loneWorker).exec (State.init loneWorker) dropWhileIdle).isSome = true := by
  decide

def droppedWhileIdle : State loneWorker :=
  ((system loneWorker).exec (State.init loneWorker) dropWhileIdle).get dropWhileIdle_runs

theorem idle_future_not_dropped :
    (system loneWorker).Reachable noPanic droppedWhileIdle ∧
      droppedWhileIdle.stage = .finished ∧
      (droppedWhileIdle.history 8).created = true ∧ (droppedWhileIdle.history 8).drops = 0 := by
  refine ⟨?_, rfl, rfl, rfl⟩
  refine System.Reachable.replay (.initial _ rfl) ?_ dropWhileIdle_runs
  exact System.permitted_of_all dropWhileIdle (by simp [dropWhileIdle, pollOnce, noPanic]) _

end Yaay.TaskSystem
