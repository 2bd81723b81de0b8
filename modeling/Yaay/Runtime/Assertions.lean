import Yaay.Runtime.TaskRefinement
import Yaay.Tally

set_option autoImplicit false

/-! What the comments of `task.rs` and the assertion of `WorkerGuard::drop` say of a task's
words holds in every run, and the loop behind a pending poll fails at most once for a
reason: the word has changed. -/

namespace Yaay.TaskSystem

open Yaay.Transition

variable {cfg : Config} {s next : State cfg} {task : TaskRef} {thread : Fin cfg.threads}
  {action : Action cfg} {place : Place cfg} {prev : BitVec 8}

private theorem pending_of_update {other : Fin cfg.threads} {frame : Frame}
    (frames : next.frame = Function.update s.frame other frame)
    (apart : frame ≠ .pending task prev) (here : next.frame thread = .pending task prev) :
    s.frame thread = .pending task prev := by
  rw [frames] at here
  by_cases same : thread = other
  · rw [same, Function.update_self] at here
    exact absurd here apart
  · rw [Function.update_of_ne same] at here
    exact here

/-- A thread in the loop was there before, or it has just left the poll or failed. -/
theorem pending_before (taken : step s action = some next)
    (here : next.frame thread = .pending task prev) :
    s.frame thread = .pending task prev ∨
      (action = .pollReturn thread false ∧ s.frame thread = .polling task ∧
        prev = Task.muted) ∨
      ∃ spurious old, action = .compareExchangeWeak thread spurious ∧
        s.frame thread = .pending task old ∧ prev = (s.tasks task).status := by
  cases action with
  | pollReturn other ready =>
      simp only [step, pollReturn] at taken
      split at taken
      · rename_i name frame _called
        split at taken
        · split at taken
          · cases taken
            exact Or.inl (pending_of_update rfl Frame.noConfusion here)
          · rename_i waiting
            cases taken
            by_cases same : thread = other
            · subst same
              rw [State.setFrame_frame, Function.update_self] at here
              cases here
              rw [Bool.not_eq_true] at waiting
              exact Or.inr (Or.inl ⟨by rw [waiting], frame, rfl⟩)
            · rw [State.setFrame_frame, Function.update_of_ne same] at here
              exact Or.inl here
        · cases taken
      · cases taken
  | compareExchangeWeak other spurious =>
      simp only [step, compareExchangeWeak] at taken
      split at taken
      · rename_i name old frame
        split at taken
        · split at taken
          · cases taken
            exact Or.inl (pending_of_update rfl Frame.noConfusion here)
          · cases taken
            exact Or.inl (pending_of_update rfl Frame.noConfusion here)
        · cases taken
          by_cases same : thread = other
          · subst same
            rw [State.setFrame_frame, Function.update_self] at here
            cases here
            exact Or.inr (Or.inr ⟨spurious, old, rfl, frame, rfl⟩)
          · rw [State.setFrame_frame, Function.update_of_ne same] at here
            exact Or.inl here
      · cases taken
  | build | batchNew | pushBatch | pushBatchNext | create | place | rngGen | shutdownPoll
  | cloneWaker | wake | wakeFetchOr | wakePush | wakeNextEpoch | dropWaker | rcDec
  | callDealloc =>
      rw [(step_ofCall rfl taken).2.1] at here
      exact Or.inl here
  | teardown | collect | freeWorker =>
      simp only [step, teardown, collect, freeWorker] at taken
      repeat' split at taken
      all_goals
        cases taken <;> exact Or.inl here
  | pop | setWorkerId | clearNotified | callPoll | pollPanic | setDropped | callDropInPlace
  | dropReturn | release | fnDealloc | unwind | assertRc | dropTask | checkRc =>
      simp only [step, pop, setWorkerId, TaskSystem.clearNotified, callPoll, pollPanic,
        TaskSystem.setDropped, callDropInPlace, dropReturn, release, fnDealloc, unwind, assertRc,
        dropTask, checkRc] at taken
      repeat' split at taken
      all_goals
        cases taken <;> exact Or.inl (pending_of_update rfl Frame.noConfusion here)
  | teardownPop =>
      obtain ⟨_stage, _idle, ⟨_empty, rfl⟩ | ⟨name, rest, _first, rfl⟩⟩ := teardownPop_cases taken
      · exact Or.inl here
      · exact Or.inl (pending_of_update rfl Frame.noConfusion here)

/-- A thread in the loop expects the word that `poll` left, or the one that a wake made of it. -/
def Expected (s : State cfg) : Prop :=
  ∀ thread task prev, s.frame thread = .pending task prev →
    prev = Task.muted ∨ (prev = Task.initialStatus ∧ (s.tasks task).status = prev)

theorem Fate.one_hand {among : Condition → Prop} {other : Fin cfg.threads}
    (fate : Fate among s task) (first : task ∈ (s.frame thread).held)
    (second : task ∈ (s.frame other).held) : other = thread := by
  have alone {place : Place cfg} (counts : Counts s task place) : other = thread :=
    Holder.frame.inj (counts.alone (show task ∈ s.content (.frame other) from second) first)
  cases fate with
  | placed place whole located => exact alone located.counts
  | ruined place broken ruin => exact alone ruin.counts

theorem Fate.pending {among : Condition → Prop} (fate : Fate among s task)
    (frame : s.frame thread = .pending task prev) :
    (s.frame thread).Settled (s.tasks task).status (s.history task) := by
  have member : task ∈ (s.frame thread).held := by
    rw [frame]
    exact List.mem_singleton_self _
  cases fate with
  | placed place whole located =>
      have settled := located.settled
      rw [located.counts.place_of_frame member] at settled
      exact settled
  | ruined place broken ruin =>
      have wrecked := ruin.wrecked
      rw [ruin.counts.place_of_frame member, Wrecked, frame] at wrecked
      exact wrecked.elim

/-- Of a task that a thread has in the loop, only wakes and its own exchange change the word. -/
theorem status_while_pending (fate : Fate (fun _ => True) s task)
    (pending : s.frame thread = .pending task prev) (taken : step s action = some next)
    (still : next.frame thread = .pending task prev) :
    (next.tasks task).status = (s.tasks task).status ∨
      (next.tasks task).status = Task.wakeStatus (s.tasks task).status := by
  have member : task ∈ (s.frame thread).held := by
    rw [pending]
    exact List.mem_singleton_self _
  have foreign {other : Fin cfg.threads} {name : TaskRef} {frame : Frame} {status : BitVec 8}
      (here : s.frame other = frame) (held : frame.held = [name])
      (moved : other = thread → next.frame thread ≠ .pending task prev)
      (header : next.tasks = (s.setStatus name status).tasks) :
      (next.tasks task).status = (s.tasks task).status := by
    rw [header, State.setTask_tasks]
    by_cases same : task = name
    · subst same
      have own : other = thread := fate.one_hand member (by
        rw [here, held]
        exact List.mem_singleton_self _)
      exact absurd still (moved own)
    · rw [Function.update_of_ne same]
  cases action with
  | create other name worker front maker =>
      simp only [step, create] at taken
      repeat' split at taken
      · cases taken
        simp only [State.setCall_tasks, State.record_tasks, State.setTask_tasks]
        by_cases same : task = name
        · have settled := fate.pending pending
          rw [pending] at settled
          rw [same, Function.update_self, ← same, Task.wakeStatus_held settled.2.1]
          exact Or.inr rfl
        · rw [Function.update_of_ne same]
          exact Or.inl rfl
      · cases taken
      · cases taken
  | wakeFetchOr other =>
      simp only [step, TaskSystem.wakeFetchOr] at taken
      split at taken
      · rename_i name via _called
        cases taken
        simp only [State.setCall_tasks, State.record_tasks, State.setTask_tasks]
        by_cases same : task = name
        · rw [same, Function.update_self]
          exact Or.inr rfl
        · rw [Function.update_of_ne same]
          exact Or.inl rfl
      · cases taken
  | clearNotified other =>
      simp only [step, TaskSystem.clearNotified] at taken
      split at taken
      · rename_i name frame
        cases taken
        refine Or.inl (foreign frame rfl ?_ rfl)
        rintro rfl
        rw [State.setFrame_frame, Function.update_self]
        exact Frame.noConfusion
      · cases taken
  | compareExchangeWeak other spurious =>
      simp only [step, TaskSystem.compareExchangeWeak] at taken
      split at taken
      · rename_i name old frame
        split at taken
        · split at taken
          all_goals
            cases taken
            refine Or.inl (foreign frame rfl ?_ rfl)
            rintro rfl
            rw [State.setFrame_frame, Function.update_self]
            exact Frame.noConfusion
        · cases taken
          exact Or.inl rfl
      · cases taken
  | setDropped other =>
      simp only [step, TaskSystem.setDropped] at taken
      split at taken
      · rename_i name frame
        cases taken
        refine Or.inl (foreign frame rfl ?_ rfl)
        rintro rfl
        rw [State.setFrame_frame, Function.update_self]
        exact Frame.noConfusion
      · cases taken
  | dropTask =>
      simp only [step, TaskSystem.dropTask] at taken
      split at taken
      · rename_i name frame
        cases taken
        refine Or.inl (foreign frame rfl ?_ rfl)
        rintro rfl
        rw [State.setFrame_frame, Function.update_self]
        split <;> exact Frame.noConfusion
      · cases taken
  | callPoll | pollReturn | pollPanic | callDropInPlace | fnDealloc | callDealloc =>
      simp only [step, callPoll, pollReturn, pollPanic, callDropInPlace, fnDealloc,
        callDealloc] at taken
      repeat' split at taken
      all_goals
        cases taken <;> exact Or.inl rfl
  | _ => exact Or.inl (quiet_alike rfl taken task).status

private theorem expected_step (fates : ∀ task, Fate (fun _ => True) s task) (expected : Expected s)
    (taken : step s action = some next) : Expected next := by
  intro thread task prev here
  rcases pending_before taken here with before | ⟨_same, _polling, muted⟩ |
      ⟨spurious, old, rfl, frame, read⟩
  · rcases expected thread task prev before with muted | ⟨scheduled, same⟩
    · exact Or.inl muted
    · refine Or.inr ⟨scheduled, ?_⟩
      rcases status_while_pending (fates task) before taken here with kept | woken
      · rw [kept, same]
      · rw [woken, same, scheduled, Task.wakeStatus_held (Or.inr rfl)]
  · exact Or.inl muted
  · have settled := (fates task).pending frame
    rw [frame] at settled
    rcases settled.2.1 with muted | scheduled
    · exact Or.inl (read.trans muted)
    · refine Or.inr ⟨read.trans scheduled, ?_⟩
      simp only [step, compareExchangeWeak, frame] at taken
      split at taken
      · split at taken
        all_goals
          cases taken
          rw [State.setFrame_frame, Function.update_self] at here
          cases here
      · cases taken
        exact read.symm

private theorem reachable_expected (reached : (system cfg).Reachable anyAction s) : Expected s := by
  apply reached.invariant Expected
  · intro state start thread task prev here
    rw [start] at here
    cases here
  · intro state next action earlier expected _permitted taken
    exact expected_step (reachable_fate earlier) expected taken

/-- The assertions that `task.rs` has in its comments, by the values they are about, and that of
`WorkerGuard::drop`, whose warning tells that an owned waker remains. At the head of `'outer` the
comment also says `!NOTIFIED`, which a wake since the `fetch_and` makes false. -/
structure Asserted (s : State cfg) : Prop where
  queued : ∀ list task, task ∈ s.lists list →
    (s.tasks task).status = Task.muted ||| Task.notified
  scheduling : ∀ thread task via, s.call thread = .wake task via →
    Task.schedules (s.tasks task).status = true → (s.tasks task).status = 0
  muted : ∀ thread task, s.frame thread = .cleared task →
    (s.tasks task).status &&& Task.muted ≠ 0 ∧ (s.tasks task).status &&& Task.dropped = 0
  exchanged : ∀ thread task prev, s.frame thread = .pending task prev → prev ≠ Task.muted →
    prev = Task.notified ||| Task.muted ∧ (s.tasks task).status = prev
  counted : ∀ task, s.frame cfg.main = .tearing task → 0 < (s.tasks task).rc
  warned : ∀ task, s.frame cfg.main = .checkRc task →
    ((s.tasks task).rc ≠ 1 ↔ (s.history task).wakers ≠ [])

theorem Fate.scheduling {among : Condition → Prop} (fate : Fate among s task) {via : Via cfg}
    (called : s.call thread = .wake task via)
    (schedules : Task.schedules (s.tasks task).status = true) : (s.tasks task).status = 0 := by
  cases fate with
  | placed place whole located =>
      by_cases idle : place = .idle
      · have settled := located.settled
        rw [idle] at settled
        exact settled.2.1
      · have unborn := (located.borrows.referenced called).ne_unborn located
        have passed : Settled ((s.setStatus task (Task.wakeStatus (s.tasks task).status)).record
            task { s.history task with woken := true }) task place ∧
              Task.schedules (s.tasks task).status = false := by
          refine located.wake unborn idle rfl (fun _ _ => rfl) ?_ ?_
          · rw [State.record_tasks, State.setTask_tasks, Function.update_self]
          · rw [State.record_history, Function.update_self]
        rw [passed.2] at schedules
        cases schedules
  | ruined place broken ruin =>
      rw [Task.schedules_held ruin.held] at schedules
      cases schedules

theorem Fate.framed {among : Condition → Prop} (fate : Fate among s task) {frame : Frame}
    (here : s.frame thread = frame) (held : frame.held = [task])
    (working : ¬ frame.Wrecked (s.history task)) :
    ∃ place, Located s task place ∧ frame.Settled (s.tasks task).status (s.history task) := by
  have member : task ∈ (s.frame thread).held := by
    rw [here, held]
    exact List.mem_singleton_self _
  cases fate with
  | placed place whole located =>
      have settled := located.settled
      rw [located.counts.place_of_frame member, Settled, here] at settled
      exact ⟨place, located, settled⟩
  | ruined place broken ruin =>
      have wrecked := ruin.wrecked
      rw [ruin.counts.place_of_frame member, Wrecked, here] at wrecked
      exact absurd wrecked working

theorem Located.counted_in_frame {frame : Frame} (located : Located s task place)
    (here : s.frame thread = frame) (held : frame.held = [task]) :
    (s.tasks task).rc = runtimeRefs (s.history task) + (s.history task).wakers.length := by
  refine located.counted ?_
  rw [located.counts.place_of_frame (show task ∈ (s.frame thread).held by
    rw [here, held]
    exact List.mem_singleton_self _)]
  exact fun impossible => by cases impossible

/-- Every assertion holds in every run, also in those in which polls have panicked. -/
theorem assertions_hold (reached : (system cfg).Reachable anyAction s) : Asserted s := by
  have fates := reachable_fate reached
  constructor
  · intro list task member
    cases fates task with
    | placed place whole located =>
        have settled := located.settled
        rw [located.counts.place_of_list member] at settled
        exact settled.2
    | ruined place broken ruin => exact absurd member ruin.not_listed
  · exact fun thread task via called schedules => (fates task).scheduling called schedules
  · intro thread task here
    obtain ⟨_place, _located, settled⟩ := (fates task).framed here rfl id
    rcases settled.2 with status | status
    · rw [status]
      decide
    · rw [status]
      decide
  · intro thread task prev here unmuted
    rcases reachable_expected reached thread task prev here with muted | ⟨scheduled, same⟩
    · exact absurd muted unmuted
    · exact ⟨scheduled, same⟩
  · intro task here
    obtain ⟨_place, located, settled⟩ := (fates task).framed here rfl id
    have counted := located.counted_in_frame here rfl
    rw [runtimeRefs, settled.1.1.released_eq, if_neg Bool.false_ne_true] at counted
    omega
  · intro task here
    obtain ⟨_place, located, settled⟩ := (fates task).framed here rfl id
    have counted := located.counted_in_frame here rfl
    rw [runtimeRefs, settled.1.released_eq, if_neg Bool.false_ne_true] at counted
    rw [counted, ← List.length_pos_iff]
    omega

/-- Task 8 waits to be woken and task 10 to be popped; worker 0 has left a poll of task 7 into
which a wake came and goes on to its second exchange, worker 1 is about to poll task 9, which it
has stolen; the main thread wakes task 8. -/
def assertAtWork : List (Action twoWorkers) :=
  [.build thread0 0, .build thread1 1, .create mainThread 8 0 false .run, .place mainThread,
    .pop thread0 0, .clearNotified thread0, .callPoll thread0,
    .cloneWaker thread0 8 (.lent thread0) 5, .pollReturn thread0 false,
    .compareExchangeWeak thread0 false, .create mainThread 7 0 false .run, .place mainThread,
    .pop thread0 0, .clearNotified thread0, .callPoll thread0,
    .wake mainThread 7 (.lent thread0), .wakeFetchOr mainThread, .pollReturn thread0 false,
    .compareExchangeWeak thread0 false, .create mainThread 9 0 false .run, .place mainThread,
    .pop thread1 0, .setWorkerId thread1, .clearNotified thread1,
    .create mainThread 10 0 false .run, .place mainThread, .wake mainThread 8 (.byRef 5)]

private theorem assertAtWork_runs :
    ((system twoWorkers).exec (State.init twoWorkers) assertAtWork).isSome = true := by
  decide

def asserting : State twoWorkers :=
  ((system twoWorkers).exec (State.init twoWorkers) assertAtWork).get assertAtWork_runs

def tearWhileWoken : List (Action twoWorkers) :=
  [.build thread0 0, .build thread1 1, .create mainThread 7 0 false .run, .place mainThread,
    .pop thread0 0, .clearNotified thread0, .callPoll thread0,
    .cloneWaker thread0 7 (.lent thread0) 5, .pollReturn thread0 false,
    .compareExchangeWeak thread0 false, .wake mainThread 7 (.byRef 5), .wakeFetchOr mainThread,
    .wakePush mainThread .teardown, .wakeNextEpoch mainThread, .teardown, .collect, .freeWorker,
    .collect, .freeWorker, .collect, .teardownPop]

private theorem tearWhileWoken_runs :
    ((system twoWorkers).exec (State.init twoWorkers) tearWhileWoken).isSome = true := by
  decide

def tearingWoken : State twoWorkers :=
  ((system twoWorkers).exec (State.init twoWorkers) tearWhileWoken).get tearWhileWoken_runs

def dropWoken : List (Action twoWorkers) :=
  [.assertRc, .dropTask, .callDropInPlace mainThread, .dropReturn mainThread]

private theorem dropWoken_runs :
    ((system twoWorkers).exec tearingWoken dropWoken).isSome = true := by
  decide

def warning : State twoWorkers :=
  ((system twoWorkers).exec tearingWoken dropWoken).get dropWoken_runs

private theorem tearingWoken_reached : (system twoWorkers).Reachable anyAction tearingWoken :=
  System.Reachable.replay_any (.initial _ rfl) tearWhileWoken_runs

theorem assertions_hold_at_work :
    (asserting.lists (.queue 0) = [10] ∧ asserting.call 0 = .wake 8 (.byRef 5) ∧
      Task.schedules (asserting.tasks 8).status = true ∧
      asserting.frame 1 = .pending 7 (Task.notified ||| Task.muted) ∧
      asserting.frame 2 = .cleared 9 ∧ Asserted asserting) ∧
    (tearingWoken.frame 0 = .tearing 7 ∧ Asserted tearingWoken) ∧
    warning.frame 0 = .checkRc 7 ∧ (warning.tasks 7).rc = 2 ∧ Asserted warning := by
  refine ⟨⟨by decide, rfl, by decide, rfl, rfl, ?_⟩, ⟨rfl, ?_⟩, rfl, by decide, ?_⟩
  · exact assertions_hold (System.Reachable.replay_any (.initial _ rfl) assertAtWork_runs)
  · exact assertions_hold tearingWoken_reached
  · exact assertions_hold (tearingWoken_reached.replay_any dropWoken_runs)

/-- The exchange of the thread finds another word than the one it expects. -/
def misses (thread : Fin cfg.threads) (s : State cfg) : Action cfg → Nat
  | .compareExchangeWeak other _ =>
      match s.frame other with
      | .pending task prev => if other = thread ∧ (s.tasks task).status ≠ prev then 1 else 0
      | _ => 0
  | _ => 0

def pends (thread : Fin cfg.threads) (_s : State cfg) : Action cfg → Nat
  | .pollReturn other ready => if other = thread ∧ ready = false then 1 else 0
  | _ => 0

/-- The thread has not missed since it left the poll. -/
def Frame.fresh : Frame → Nat
  | .pending _ prev => if prev = Task.muted then 1 else 0
  | _ => 0

/-- A miss shows the word that a wake has made, and nothing else can come after that. -/
theorem fresh_of_exchange {spurious : Bool} (expected : Expected s)
    (frame : s.frame thread = .pending task prev)
    (taken : compareExchangeWeak s thread spurious = some next) :
    (next.frame thread).fresh + (if (s.tasks task).status ≠ prev then 1 else 0) ≤
      (s.frame thread).fresh := by
  simp only [compareExchangeWeak, frame] at taken
  rw [frame]
  by_cases same : (s.tasks task).status = prev
  · rw [if_neg (fun different => different same)]
    split at taken
    · split at taken
      all_goals
        cases taken
        rw [State.setFrame_frame, Function.update_self]
        exact Nat.zero_le _
    · cases taken
      rw [State.setFrame_frame, Function.update_self, same]
      exact Nat.le_refl _
  · rw [if_neg (fun equal => same equal.1)] at taken
    cases taken
    have muted : prev = Task.muted :=
      (expected thread task prev frame).resolve_right (fun kept => same kept.2)
    subst muted
    rw [if_pos same, State.setFrame_frame, Function.update_self, Frame.fresh, if_neg same,
      Frame.fresh, if_pos rfl]

private theorem fresh_step (expected : Expected s) (taken : step s action = some next) :
    (next.frame thread).fresh + misses thread s action ≤
      (s.frame thread).fresh + pends thread s action := by
  by_cases exchange : ∃ spurious task prev, action = .compareExchangeWeak thread spurious ∧
      s.frame thread = .pending task prev
  · obtain ⟨spurious, task, prev, rfl, frame⟩ := exchange
    have paid := fresh_of_exchange expected frame taken
    simpa only [misses, frame, pends, true_and, Nat.add_zero] using paid
  · have quiet : misses thread s action = 0 := by
      cases action with
      | compareExchangeWeak other spurious =>
          simp only [misses]
          split
          · rename_i task prev frame
            refine if_neg ?_
            rintro ⟨rfl, _missed⟩
            exact exchange ⟨spurious, task, prev, rfl, frame⟩
          · rfl
      | _ => rfl
    rw [quiet, Nat.add_zero]
    cases here : next.frame thread with
    | pending task prev =>
        rcases pending_before taken here with before | ⟨rfl, _polling, muted⟩ |
            ⟨spurious, old, same, frame, _read⟩
        · rw [before]
          exact Nat.le_add_right _ _
        · rw [Frame.fresh, if_pos muted, pends, if_pos ⟨rfl, rfl⟩]
          exact Nat.le_add_left _ _
        · exact absurd ⟨spurious, task, old, same, frame⟩ exchange
    | _ => exact Nat.zero_le _

/-- On every thread and in every run, of the exchanges of the loop as many find the word changed
as polls have returned pending, at most: a pending poll is followed by one such miss. -/
theorem misses_le_pends {last : State cfg} {actions : List (Action cfg)}
    (ran : (system cfg).exec (State.init cfg) actions = some last) (thread : Fin cfg.threads) :
    (system cfg).tally (misses thread) (State.init cfg) actions ≤
      (system cfg).tally (pends thread) (State.init cfg) actions := by
  have bound := (system cfg).tally_le ((system cfg).Reachable anyAction)
    (fun s => (s.frame thread).fresh) (misses thread) (pends thread)
    (fun _ _ _ reached taken => .step _ _ _ reached trivial taken)
    (fun _ _ _ reached taken => fresh_step (reachable_expected reached) taken)
    (.initial _ rfl) ran
  have start : ((State.init cfg).frame thread).fresh = 0 := rfl
  rw [start, Nat.zero_add] at bound
  exact (Nat.le_add_left _ _).trans bound

def missAfterWake : List (Action twoWorkers) :=
  wakeDuringPoll ++ [.pollReturn thread0 false, .compareExchangeWeak thread0 false]

private theorem missAfterWake_runs :
    ((system twoWorkers).exec (State.init twoWorkers) missAfterWake).isSome = true := by
  decide

theorem misses_le_pends_after_wake :
    (system twoWorkers).tally (misses 1) (State.init twoWorkers) missAfterWake ≤
      (system twoWorkers).tally (pends 1) (State.init twoWorkers) missAfterWake :=
  misses_le_pends (Option.some_get missAfterWake_runs).symm 1

end Yaay.TaskSystem
