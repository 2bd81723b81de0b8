import Yaay.Runtime.TaskSystem

set_option autoImplicit false

/-! What a step leaves alone: an action changes the frame, the call and the slot
of its own thread only, and all but the steps of `WorkerGuard::drop` keep the
stage. And what it does to the header and the history of a task and to the stage. -/

namespace Yaay.TaskSystem

open Yaay.Transition

variable {cfg : Config} {s next : State cfg} {task : TaskRef} {thread : Fin cfg.threads}

def Action.ofCall : Action cfg → Bool
  | .build _ _ | .batchNew _ | .pushBatch _ _ _ | .pushBatchNext _ | .create _ _ _ _ _
  | .place _ | .rngGen _ | .shutdownPoll _ | .cloneWaker _ _ _ _ | .wake _ _ _
  | .wakeFetchOr _ | .wakePush _ _ | .wakeNextEpoch _ | .dropWaker _ _ _ | .rcDec _
  | .callDealloc _ => true
  | _ => false

def Action.ofFrame : Action cfg → Bool
  | .pop _ _ | .setWorkerId _ | .clearNotified _ | .callPoll _ | .pollReturn _ _
  | .pollPanic _ | .compareExchangeWeak _ _ | .setDropped _ | .callDropInPlace _
  | .dropReturn _ | .release _ | .fnDealloc _ | .unwind _ => true
  | _ => false

def Frame.torn : Frame → Bool
  | .tearing _ | .dropInPlace _ => true
  | _ => false

theorem step_ofCall {action : Action cfg} (call : action.ofCall = true)
    (taken : step s action = some next) :
    next.stage = s.stage ∧ next.frame = s.frame ∧
      ∃ now slot, next.call = Function.update s.call action.thread now ∧
        next.slot = Function.update s.slot action.thread slot := by
  cases action with
  | build | batchNew | pushBatch | pushBatchNext | create | place | rngGen | shutdownPoll
  | cloneWaker | wake | wakeFetchOr | wakePush | wakeNextEpoch | dropWaker | rcDec
  | callDealloc =>
      simp only [step, build, batchNew, pushBatch, pushBatchNext, State.batched, create, place,
        rngGen, shutdownPoll, cloneWaker, wake, wakeFetchOr, wakePush, wakeNextEpoch, dropWaker,
        rcDec, callDealloc] at taken
      repeat' split at taken
      all_goals
        cases taken <;>
        exact ⟨rfl, rfl, _, _, by first | rfl | exact (Function.update_eq_self ..).symm,
          by first | rfl | exact (Function.update_eq_self ..).symm⟩
  | _ => cases call

theorem step_ofFrame {action : Action cfg} (framed : action.ofFrame = true)
    (taken : step s action = some next) :
    next.stage = s.stage ∧ next.call = s.call ∧ next.slot = s.slot ∧
      ∃ frame : Frame, frame.torn = false ∧
        next.frame = Function.update s.frame action.thread frame := by
  cases action with
  | pop | setWorkerId | clearNotified | callPoll | pollReturn | pollPanic
  | compareExchangeWeak | setDropped | callDropInPlace | dropReturn | release | fnDealloc
  | unwind =>
      simp only [step, pop, setWorkerId, clearNotified, callPoll, pollReturn, pollPanic,
        compareExchangeWeak, setDropped, callDropInPlace, dropReturn, release, fnDealloc,
        unwind] at taken
      repeat' split at taken
      all_goals cases taken <;> exact ⟨rfl, rfl, rfl, _, rfl, rfl⟩
  | _ => cases framed

theorem step_ofGuard {action : Action cfg} (called : action.ofCall = false)
    (framed : action.ofFrame = false) (taken : step s action = some next) :
    action.thread = cfg.main ∧ next.call = s.call ∧ next.slot = s.slot ∧
      ∃ frame : Frame, next.frame = Function.update s.frame cfg.main frame := by
  cases action with
  | teardown | collect | freeWorker | teardownPop | assertRc | dropTask | checkRc =>
      simp only [step, teardown, collect, freeWorker, teardownPop, assertRc, dropTask,
        checkRc] at taken
      repeat' split at taken
      all_goals
        cases taken <;>
        exact ⟨rfl, rfl, rfl, _,
          by first | rfl | exact (Function.update_eq_self ..).symm⟩
  | build | batchNew | pushBatch | pushBatchNext | create | place | rngGen | shutdownPoll
  | cloneWaker | wake | wakeFetchOr | wakePush | wakeNextEpoch | dropWaker | rcDec
  | callDealloc => cases called
  | _ => cases framed

/-- A step of one thread leaves the others where they are. -/
theorem step_other {action : Action cfg} (taken : step s action = some next)
    (other : action.thread ≠ thread) :
    next.frame thread = s.frame thread ∧ next.call thread = s.call thread ∧
      next.slot thread = s.slot thread := by
  have apart : thread ≠ action.thread := Ne.symm other
  cases called : action.ofCall with
  | true =>
      obtain ⟨_, frame, now, slot, call, slotted⟩ := step_ofCall called taken
      rw [frame, call, slotted, Function.update_of_ne apart, Function.update_of_ne apart]
      exact ⟨rfl, rfl, rfl⟩
  | false =>
      cases framed : action.ofFrame with
      | true =>
          obtain ⟨_, call, slotted, frame, _, moved⟩ := step_ofFrame framed taken
          rw [call, slotted, moved, Function.update_of_ne apart]
          exact ⟨rfl, rfl, rfl⟩
      | false =>
          obtain ⟨main, call, slotted, frame, moved⟩ := step_ofGuard called framed taken
          rw [main] at apart
          rw [call, slotted, moved, Function.update_of_ne apart]
          exact ⟨rfl, rfl, rfl⟩

def Action.creates : Action cfg → Prop
  | .create _ _ _ _ _ => True
  | _ => False

inductive HistoryStep (s : State cfg) (action : Action cfg) (task : TaskRef) : History → Prop
  | same : HistoryStep s action task (s.history task)
  | created (made : action.creates) :
      HistoryStep s action task { s.history task with created := true }
  | woken (flag : Bool) : HistoryStep s action task { s.history task with woken := flag }
  | ready : HistoryStep s action task { s.history task with ready := true }
  | dropped (teardown : Bool) (frame : s.frame action.thread = .retiring task teardown) :
      HistoryStep s action task
        { s.history task with drops := (s.history task).drops + 1 }
  | released : HistoryStep s action task { s.history task with released := true }
  | deallocated :
      HistoryStep s action task
        { s.history task with deallocs := (s.history task).deallocs + 1 }
  | cloned (via : Via cfg) (fresh : Nat) (available : s.available task via) :
      HistoryStep s action task
        { s.history task with wakers := fresh :: (s.history task).wakers }
  | gone (waker : Nat) :
      HistoryStep s action task
        { s.history task with wakers := (s.history task).wakers.erase waker }

private theorem history_recorded {action : Action cfg} {name : TaskRef} {history : History}
    (recorded : HistoryStep s action name history) (task : TaskRef) :
    HistoryStep s action task (Function.update s.history name history task) := by
  by_cases same : task = name
  · subst same
    rw [Function.update_self]
    exact recorded
  · rw [Function.update_of_ne same]
    exact .same

theorem history_step {action : Action cfg} (taken : step s action = some next)
    (task : TaskRef) : HistoryStep s action task (next.history task) := by
  cases action with
  | create thread name worker front maker =>
      simp only [step, create] at taken
      split at taken
      · split at taken
        · have made : (Action.create thread name worker front maker).creates := trivial
          cases taken
          exact history_recorded (.created made) task
        · cases taken
      · cases taken
  | callPoll thread =>
      simp only [step, callPoll] at taken
      split at taken
      · cases taken
        exact history_recorded (.woken false) task
      · cases taken
  | pollReturn thread ready =>
      simp only [step, pollReturn] at taken
      repeat' split at taken
      · cases taken
        exact history_recorded .ready task
      · cases taken
        exact .same
      · cases taken
      · cases taken
  | callDropInPlace thread =>
      simp only [step, callDropInPlace] at taken
      split at taken
      · rename_i frame
        cases taken
        exact history_recorded (.dropped _ frame) task
      · cases taken
  | release thread =>
      simp only [step, release] at taken
      split at taken
      · cases taken
        exact history_recorded .released task
      · cases taken
  | fnDealloc thread =>
      simp only [step, fnDealloc] at taken
      split at taken
      · cases taken
        exact history_recorded .deallocated task
      · cases taken
  | callDealloc thread =>
      simp only [step, callDealloc] at taken
      split at taken
      · cases taken
        exact history_recorded .deallocated task
      · cases taken
  | cloneWaker thread name via fresh =>
      simp only [step, cloneWaker] at taken
      split at taken
      · split at taken
        · rename_i allowed
          cases taken
          exact history_recorded (.cloned via fresh allowed.1) task
        · cases taken
      · cases taken
  | wakeFetchOr thread =>
      simp only [step, wakeFetchOr] at taken
      split at taken
      · cases taken
        exact history_recorded (.woken true) task
      · cases taken
  | rcDec thread =>
      simp only [step, rcDec] at taken
      split at taken
      · cases taken
        exact history_recorded (.gone _) task
      · cases taken
  | _ =>
      simp only [step, build, batchNew, pushBatch, pushBatchNext, place, rngGen, shutdownPoll,
        pop, setWorkerId, clearNotified, pollPanic, compareExchangeWeak, setDropped, dropReturn,
        unwind, wake, wakePush, wakeNextEpoch, dropWaker, teardown, collect, freeWorker,
        teardownPop, assertRc, dropTask, checkRc] at taken
      repeat' split at taken
      all_goals
        cases taken <;> exact .same

inductive HeaderStep (s : State cfg) (action : Action cfg) (task : TaskRef) : Task → Prop
  | same : HeaderStep s action task (s.tasks task)
  | created :
      HeaderStep s action task { status := Task.initialStatus, rc := 1, workerId := 0 }
  | moved (own : WorkerId) (thief : s.worker action.thread = some own) :
      HeaderStep s action task { s.tasks task with workerId := own }
  | polled (status : BitVec 8)
      (frame : s.frame action.thread = .popped task ∨
        ∃ prev, s.frame action.thread = .pending task prev) :
      HeaderStep s action task { s.tasks task with status := status }
  | dropped :
      HeaderStep s action task
        { s.tasks task with status := Task.setDropped (s.tasks task).status }
  | woken :
      HeaderStep s action task
        { s.tasks task with status := Task.wakeStatus (s.tasks task).status }
  | counted (rc : Nat) : HeaderStep s action task { s.tasks task with rc := rc }

private theorem header_written {action : Action cfg} {name : TaskRef} {header : Task}
    (written : HeaderStep s action name header) (task : TaskRef) :
    HeaderStep s action task (Function.update s.tasks name header task) := by
  by_cases same : task = name
  · subst same
    rw [Function.update_self]
    exact written
  · rw [Function.update_of_ne same]
    exact .same

theorem header_step {action : Action cfg} (taken : step s action = some next)
    (task : TaskRef) : HeaderStep s action task (next.tasks task) := by
  cases action with
  | create thread name worker front maker =>
      simp only [step, create] at taken
      split at taken
      · split at taken
        · cases taken
          exact header_written .created task
        · cases taken
      · cases taken
  | setWorkerId thread =>
      simp only [step, setWorkerId] at taken
      split at taken
      · rename_i own name thief _
        cases taken
        exact header_written (.moved own thief) task
      · cases taken
  | clearNotified thread =>
      simp only [step, TaskSystem.clearNotified] at taken
      split at taken
      · rename_i frame
        cases taken
        exact header_written (.polled _ (Or.inl frame)) task
      · cases taken
  | compareExchangeWeak thread spurious =>
      simp only [step, compareExchangeWeak] at taken
      split at taken
      · rename_i name prev frame
        repeat' split at taken
        · cases taken
          exact header_written (.polled _ (Or.inr ⟨prev, frame⟩)) task
        · cases taken
          exact header_written (.polled _ (Or.inr ⟨prev, frame⟩)) task
        · cases taken
          exact .same
      · cases taken
  | setDropped thread =>
      simp only [step, TaskSystem.setDropped] at taken
      split at taken
      · cases taken
        exact header_written .dropped task
      · cases taken
  | dropTask =>
      simp only [step, dropTask] at taken
      split at taken
      · cases taken
        exact header_written .dropped task
      · cases taken
  | wakeFetchOr thread =>
      simp only [step, wakeFetchOr] at taken
      split at taken
      · cases taken
        exact header_written .woken task
      · cases taken
  | release thread | unwind thread | rcDec thread =>
      simp only [step, release, unwind, rcDec] at taken
      split at taken
      · cases taken
        exact header_written (.counted _) task
      · cases taken
  | cloneWaker thread name via fresh =>
      simp only [step, cloneWaker] at taken
      repeat' split at taken
      · cases taken
        exact header_written (.counted _) task
      · cases taken
      · cases taken
  | _ =>
      simp only [step, build, batchNew, pushBatch, pushBatchNext, place, rngGen, shutdownPoll,
        pop, callPoll, pollReturn, pollPanic, callDropInPlace, dropReturn, fnDealloc, wake,
        wakePush, wakeNextEpoch, dropWaker, callDealloc, teardown, collect, freeWorker,
        teardownPop, assertRc, checkRc] at taken
      repeat' split at taken
      all_goals
        cases taken <;> exact .same

theorem teardown_cases (taken : step s .teardown = some next) :
    (s.stage = .running ∧ (∀ thread, (s.frame thread).isIdle = true) ∧
      (∀ thread, (s.worker thread).isSome = true → (s.call thread).isNone = true) ∧
      (s.call cfg.main).isNone = true) ∧ next = { s with stage := .collecting 0 } := by
  simp only [step, teardown] at taken
  split at taken
  · rename_i joined
    cases taken
    exact ⟨joined, rfl⟩
  · cases taken

theorem collect_cases (taken : step s .collect = some next) :
    ∃ worker, s.stage = .collecting worker ∧
      (worker < cfg.workers ∧
          next = { (s.setList (.queue worker) []).setList .teardown
            (s.lists .teardown ++ s.lists (.queue worker)) with stage := .freeing worker } ∨
        ¬ worker < cfg.workers ∧ next = { s with stage := .draining }) := by
  simp only [step, collect] at taken
  split at taken
  · rename_i worker stage
    refine ⟨worker, stage, ?_⟩
    split at taken
    · rename_i real
      cases taken
      exact Or.inl ⟨real, rfl⟩
    · rename_i last
      cases taken
      exact Or.inr ⟨last, rfl⟩
  · cases taken

theorem freeWorker_cases (taken : step s .freeWorker = some next) :
    ∃ worker, s.stage = .freeing worker ∧
      next = { s with stage := .collecting (worker + 1) } := by
  simp only [step, freeWorker] at taken
  split at taken
  · rename_i worker stage
    cases taken
    exact ⟨worker, stage, rfl⟩
  · cases taken

theorem teardownPop_cases (taken : step s .teardownPop = some next) :
    s.stage = .draining ∧ s.frame cfg.main = .idle ∧
      (s.lists .teardown = [] ∧ next = { s with stage := .finished } ∨
        ∃ task rest, s.lists .teardown = task :: rest ∧
          next = (s.setList .teardown rest).setFrame cfg.main (.tearing task)) := by
  simp only [step, teardownPop] at taken
  split at taken
  · rename_i stage idle _called
    refine ⟨stage, idle, ?_⟩
    split at taken
    · rename_i empty
      cases taken
      exact Or.inl ⟨empty, rfl⟩
    · rename_i task rest gathered
      cases taken
      exact Or.inr ⟨task, rest, gathered, rfl⟩
  · cases taken

/-- Tasks are torn down one by one, by the main thread, after all queues have
been gathered. -/
def TornWhileDraining (s : State cfg) : Prop :=
  ∀ thread, (s.frame thread).torn = true → s.stage = .draining ∧ thread = cfg.main

theorem TornWhileDraining.keep (before : TornWhileDraining s) (stage : next.stage = s.stage)
    (frames : ∀ thread, next.frame thread = s.frame thread ∨
      (next.frame thread).torn = false) : TornWhileDraining next := by
  intro thread torn
  rcases frames thread with same | whole
  · rw [same] at torn
    rw [stage]
    exact before thread torn
  · rw [whole] at torn
    cases torn

private theorem torn_update {frame : Frame} (whole : frame.torn = false)
    (frames : next.frame = Function.update s.frame thread frame) (name : Fin cfg.threads) :
    next.frame name = s.frame name ∨ (next.frame name).torn = false := by
  rw [frames]
  by_cases same : name = thread
  · subst same
    rw [Function.update_self]
    exact Or.inr whole
  · rw [Function.update_of_ne same]
    exact Or.inl rfl

theorem TornWhileDraining.onMain (before : TornWhileDraining s) {frame : Frame}
    (stage : s.stage = .draining) :
    TornWhileDraining ((s.setFrame cfg.main frame)) := by
  intro thread torn
  by_cases same : thread = cfg.main
  · exact ⟨stage, same⟩
  · rw [State.setFrame_frame, Function.update_of_ne same] at torn
    exact before thread torn

theorem TornWhileDraining.intact (before : TornWhileDraining s)
    (whole : s.stage = .draining → (s.frame cfg.main).torn = false)
    (frames : next.frame = s.frame) : TornWhileDraining next := by
  intro thread torn
  rw [frames] at torn
  obtain ⟨stage, main⟩ := before thread torn
  rw [main, whole stage] at torn
  cases torn

theorem TornWhileDraining.step {action : Action cfg} (before : TornWhileDraining s)
    (taken : step s action = some next) : TornWhileDraining next := by
  cases action with
  | teardown =>
      obtain ⟨joined, rfl⟩ := teardown_cases taken
      exact before.intact (by simp [joined.1]) rfl
  | collect =>
      obtain ⟨worker, stage, ⟨_, rfl⟩ | ⟨_, rfl⟩⟩ := collect_cases taken
      · exact before.intact (by simp [stage]) rfl
      · exact before.intact (by simp [stage]) rfl
  | freeWorker =>
      obtain ⟨worker, stage, rfl⟩ := freeWorker_cases taken
      exact before.intact (by simp [stage]) rfl
  | teardownPop =>
      obtain ⟨stage, idle, ⟨_, rfl⟩ | ⟨task, rest, _, rfl⟩⟩ := teardownPop_cases taken
      · exact before.intact (fun _ => by rw [idle]; rfl) rfl
      · exact TornWhileDraining.onMain before stage
  | assertRc =>
      simp only [TaskSystem.step, TaskSystem.assertRc] at taken
      split at taken
      · rename_i task frame
        split at taken
        · cases taken
          exact before.onMain (before cfg.main (by rw [frame]; rfl)).1
        · cases taken
      · cases taken
  | dropTask =>
      simp only [TaskSystem.step, TaskSystem.dropTask] at taken
      split at taken
      · rename_i task frame
        cases taken
        exact TornWhileDraining.onMain before (before cfg.main (by rw [frame]; rfl)).1
      · cases taken
  | checkRc =>
      simp only [TaskSystem.step, TaskSystem.checkRc] at taken
      split at taken
      · cases taken
        exact before.keep rfl (torn_update rfl rfl)
      · cases taken
  | pop | setWorkerId | clearNotified | callPoll | pollReturn | pollPanic
  | compareExchangeWeak | setDropped | callDropInPlace | dropReturn | release | fnDealloc
  | unwind =>
      obtain ⟨stage, _, _, frame, whole, frames⟩ := step_ofFrame rfl taken
      exact before.keep stage (torn_update whole frames)
  | _ =>
      obtain ⟨stage, frames, _⟩ := step_ofCall rfl taken
      exact before.keep stage (fun thread => Or.inl (congrFun frames thread))

theorem reachable_torn {permits : State cfg → Action cfg → Prop}
    (reached : (system cfg).Reachable permits s) : TornWhileDraining s := by
  apply reached.invariant TornWhileDraining
  · intro state start thread torn
    rw [start] at torn
    cases torn
  · exact fun _state _next _action _earlier before _permitted taken => before.step taken

end Yaay.TaskSystem
