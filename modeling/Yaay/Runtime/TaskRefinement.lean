import Yaay.Runtime.TaskLifetime
import Yaay.Runtime.TaskLocality
import Yaay.Wakeable

set_option autoImplicit false

/-! The tasks of a runtime are jobs that run again when they are woken: every run of the
threads, with panicking polls and the teardown, shows what some run of such jobs shows. -/

namespace Yaay.Task

/-- A wake has come since the worker cleared `NOTIFIED`. -/
def again (status : BitVec 8) : Bool := status &&& notified != 0

private theorem again_muted : again muted = false := by decide

private theorem again_initialStatus : again initialStatus = true := by decide

private theorem again_wakeStatus (status : BitVec 8) : again (wakeStatus status) = true := by
  have bit : ((status ||| (muted ||| notified)) &&& notified).getLsbD 1 = true := by
    simp [muted, notified]
  by_contra unset
  rw [again, wakeStatus, Bool.not_eq_true, bne_eq_false_iff_eq] at unset
  rw [unset] at bit
  cases bit

private theorem wakeStatus_ne_idle (status : BitVec 8) : wakeStatus status ≠ idleStatus := by
  intro idle
  have kept := again_wakeStatus status
  rw [idle] at kept
  cases kept

private theorem undropped_idle : undropped idleStatus = true := by decide

private theorem undropped_wakeStatus (status : BitVec 8) :
    undropped (wakeStatus status) = undropped status := by
  have same : (status ||| (muted ||| notified)) &&& dropped = status &&& dropped := by
    rw [BitVec.and_or_distrib_right]
    exact BitVec.or_zero
  rw [undropped, wakeStatus, same, undropped]

private theorem undropped_retired {status : BitVec 8} (retired : Retired status) :
    undropped status = false := by
  rcases retired with rfl | rfl <;> decide

end Yaay.Task

namespace Yaay.TaskSystem

open Yaay.Transition
open Yaay.Wakeable (Phase Act)

variable {cfg : Config} {s next : State cfg} {task : TaskRef} {thread : Fin cfg.threads}
  {place : Place cfg} {released : Bool}

def Frame.turn (task : TaskRef) (status : BitVec 8) : Frame → Option Phase
  | .cleared held => if held = task then some (.claimed (Task.again status)) else none
  | .polling held => if held = task then some (.running (Task.again status)) else none
  | .pending held _ => if held = task then some (.paused (Task.again status)) else none
  | _ => none

def State.turn (s : State cfg) (task : TaskRef) : Option Phase :=
  (List.finRange cfg.threads).findSome?
    (fun thread => (s.frame thread).turn task (s.tasks task).status)

/-- How far the task is, as long as no poll of it has panicked. -/
def State.phase (s : State cfg) (task : TaskRef) : Phase :=
  if (s.history task).created = false then .unborn
  else if (s.history task).deallocs ≠ 0 then .freed
  else if (s.history task).drops ≠ 0 then .destroyed
  else if (s.history task).ready = true ∨ Task.undropped (s.tasks task).status = false then
    .finished
  else (s.turn task).getD (if (s.tasks task).status = Task.idleStatus then .waiting else .due)

/-- The job that the task is; a task whose poll has panicked is an abandoned one. -/
inductive Mirrors (s : State cfg) (task : TaskRef) : Phase → Prop
  | whole (place : Place cfg) (located : Located s task place) : Mirrors s task (s.phase task)
  | ruined (place : Place cfg) (ruin : Ruined s task place) :
      Mirrors s task (if (s.history task).deallocs = 0 then .abandoned else .freed)

/-- What a step shows of a task: that it is made, woken, polled, left pending or ready, that
its poll panics, that its future is dropped and its memory freed. -/
def event? (s : State cfg) : Action cfg → Option (TaskRef × Act)
  | .create _ task _ _ _ => some (task, .create)
  | .wakeFetchOr thread =>
      match s.call thread with
      | .wake task _ => some (task, .wake)
      | _ => none
  | .callPoll thread =>
      match s.frame thread with
      | .cleared task => some (task, .start)
      | _ => none
  | .pollReturn thread ready =>
      match s.frame thread with
      | .polling task => some (task, if ready then .finish else .pend)
      | _ => none
  | .pollPanic thread =>
      match s.frame thread with
      | .polling task => some (task, .abandon)
      | _ => none
  | .callDropInPlace thread =>
      match s.frame thread with
      | .retiring task _ => some (task, .destroy)
      | _ => none
  | .fnDealloc thread =>
      match s.frame thread with
      | .deallocating task _ => some (task, .free)
      | _ => none
  | .callDealloc thread =>
      match s.call thread with
      | .dealloc task => some (task, .free)
      | _ => none
  | _ => none

private theorem turn_of_not_held {frame : Frame} {status : BitVec 8} (free : task ∉ frame.held) :
    frame.turn task status = none := by
  cases frame with
  | cleared held | polling held | pending held prev =>
      exact if_neg (fun same => free (List.mem_singleton.mpr same.symm))
  | _ => rfl

private theorem turn_eq_none (free : ∀ thread, task ∉ (s.frame thread).held) : s.turn task = none :=
  List.findSome?_eq_none_iff.mpr (fun thread _member => turn_of_not_held (free thread))

/-- The turn is that of the one thread that may hold the task. -/
theorem turn_eq (free : ∀ other, other ≠ thread → task ∉ (s.frame other).held) :
    s.turn task = (s.frame thread).turn task (s.tasks task).status := by
  cases found : s.turn task with
  | none => exact (List.findSome?_eq_none_iff.mp found thread (List.mem_finRange thread)).symm
  | some phase =>
      obtain ⟨other, _member, turn⟩ := List.exists_of_findSome?_eq_some found
      by_cases same : other = thread
      · rw [← same, turn]
      · rw [turn_of_not_held (free other same)] at turn
        cases turn

theorem Counts.not_framed (counts : Counts s task place)
    (away : place ≠ .held (.frame thread)) : task ∉ (s.frame thread).held :=
  fun member => away (counts.place_of_frame member)

theorem Counts.turn_none (counts : Counts s task place)
    (away : ∀ thread, place ≠ .held (.frame thread)) : s.turn task = none :=
  turn_eq_none (fun thread => counts.not_framed (away thread))

private theorem phase_of_live (live : Live (s.history task))
    (kept : Task.undropped (s.tasks task).status = true) :
    s.phase task = (s.turn task).getD
      (if (s.tasks task).status = Task.idleStatus then .waiting else .due) := by
  rw [State.phase, if_neg, if_neg, if_neg, if_neg]
  · rw [live.2, kept]
    decide
  · exact fun dropped => dropped live.1.drops_eq
  · exact fun freed => freed live.1.deallocs_eq
  · rw [live.1.created]
    exact Bool.noConfusion

private theorem phase_due (live : Live (s.history task))
    (scheduled : Task.Scheduled (s.tasks task).status)
    (none : s.turn task = none) : s.phase task = .due := by
  rw [phase_of_live live (Task.undropped_held scheduled.held), none, Option.getD_none,
    if_neg scheduled.held.ne_idle]

private theorem phase_finished (lifetime : Lifetime (s.history task) 0 released 0)
    (ended : (s.history task).ready = true ∨ Task.undropped (s.tasks task).status = false) :
    s.phase task = .finished := by
  rw [State.phase, if_neg, if_neg, if_neg, if_pos ended]
  · exact fun dropped => dropped lifetime.drops_eq
  · exact fun freed => freed lifetime.deallocs_eq
  · rw [lifetime.created]
    exact Bool.noConfusion

private theorem phase_destroyed (lifetime : Lifetime (s.history task) 1 released 0) :
    s.phase task = .destroyed := by
  rw [State.phase, if_neg, if_neg, if_pos]
  · rw [lifetime.drops_eq]
    exact Nat.one_ne_zero
  · exact fun freed => freed lifetime.deallocs_eq
  · rw [lifetime.created]
    exact Bool.noConfusion

private theorem phase_freed (created : (s.history task).created = true)
    (deallocs : (s.history task).deallocs = 1) : s.phase task = .freed := by
  rw [State.phase, if_neg, if_pos]
  · rw [deallocs]
    exact Nat.one_ne_zero
  · rw [created]
    exact Bool.noConfusion

def Frame.phase (status : BitVec 8) : Frame → Phase
  | .cleared _ => .claimed (Task.again status)
  | .polling _ => .running (Task.again status)
  | .pending _ _ => .paused (Task.again status)
  | .ready _ | .retiring _ _ => .finished
  | .dropping _ _ | .checkRc _ | .releasing _ | .deallocating _ _ => .destroyed
  | .idle | .dead | .unwinding _ | .stolen _ | .popped _ | .tearing _ | .dropInPlace _ => .due

theorem Located.phase_of_frame (located : Located s task place)
    (member : task ∈ (s.frame thread).held) :
    s.phase task = (s.frame thread).phase (s.tasks task).status := by
  have here := located.counts.place_of_frame member
  subst here
  have settled := located.settled
  have turn : s.turn task = (s.frame thread).turn task (s.tasks task).status := by
    refine turn_eq (fun other different => located.counts.not_framed ?_)
    intro same
    cases same
    exact different rfl
  rw [Settled] at settled
  have own := Frame.held_eq member
  cases frame : s.frame thread <;> rw [frame] at settled turn own
  case idle | dead | unwinding => exact settled.elim
  case stolen | popped | tearing | dropInPlace => exact phase_due settled.1 settled.2 turn
  case cleared held =>
    cases own
    rw [phase_of_live settled.1 (Task.undropped_held settled.2), turn, Frame.turn, if_pos rfl]
    rfl
  case polling held | pending held prev =>
    cases own
    rw [phase_of_live settled.1 (Task.undropped_held settled.2.1), turn, Frame.turn, if_pos rfl]
    rfl
  case ready => exact phase_finished settled.1 (Or.inl settled.2.1)
  case retiring => exact phase_finished settled.1 (Or.inr (Task.undropped_retired settled.2))
  case dropping | checkRc | releasing => exact phase_destroyed settled.1
  case deallocating => exact phase_destroyed settled.1

theorem Located.phase_of_placing (located : Located s task place) {worker : WorkerId}
    {front : Bool} {maker : Maker}
    (called : s.call thread = .placing task worker front maker) : s.phase task = .due := by
  have member : task ∈ (s.call thread).held := by
    rw [called]
    exact List.mem_singleton_self _
  have settled := located.settled
  rw [located.counts.place_of_call member, Settled, called] at settled
  refine phase_due settled.1 settled.2 (located.counts.turn_none (fun other same => ?_))
  rw [located.counts.place_of_call member] at same
  cases same

def History.core (history : History) : Bool × Bool × Nat × Nat :=
  (history.created, history.ready, history.drops, history.deallocs)

structure Alike (s next : State cfg) (task : TaskRef) : Prop where
  history : (next.history task).core = (s.history task).core
  status : (next.tasks task).status = (s.tasks task).status
  turns : ∀ thread status,
    (next.frame thread).turn task status = (s.frame thread).turn task status

theorem Alike.phase (alike : Alike s next task) : next.phase task = s.phase task := by
  have core := alike.history
  simp only [History.core, Prod.mk.injEq] at core
  obtain ⟨created, ready, drops, deallocs⟩ := core
  have turn : next.turn task = s.turn task := by
    rw [State.turn, State.turn, alike.status]
    exact congrArg (List.findSome? · _) (funext (fun thread => alike.turns thread _))
  rw [State.phase, State.phase, created, ready, drops, deallocs, turn, alike.status]

theorem Alike.refl (s : State cfg) (task : TaskRef) : Alike s s task :=
  ⟨rfl, rfl, fun _ _ => rfl⟩

variable {middle : State cfg}

theorem Alike.record (before : Alike s middle task) {name : TaskRef} {history : History}
    (same : task = name → history.core = (middle.history name).core) :
    Alike s (middle.record name history) task := by
  refine ⟨?_, before.status, before.turns⟩
  rw [State.record_history]
  by_cases here : task = name
  · rw [here, Function.update_self, same here, ← here, before.history]
  · rw [Function.update_of_ne here, before.history]

theorem Alike.setTask (before : Alike s middle task) {name : TaskRef} {header : Task}
    (same : task = name → header.status = (middle.tasks name).status) :
    Alike s (middle.setTask name header) task := by
  refine ⟨before.history, ?_, before.turns⟩
  rw [State.setTask_tasks]
  by_cases here : task = name
  · rw [here, Function.update_self, same here, ← here, before.status]
  · rw [Function.update_of_ne here, before.status]

theorem Alike.setFrame (before : Alike s middle task) {frame : Frame}
    (same : ∀ status, frame.turn task status = (middle.frame thread).turn task status) :
    Alike s (middle.setFrame thread frame) task := by
  refine ⟨before.history, before.status, ?_⟩
  intro other status
  rw [State.setFrame_frame]
  by_cases here : other = thread
  · rw [here, Function.update_self, same, before.turns]
  · rw [Function.update_of_ne here, before.turns]

theorem Alike.goOn (before : Alike s middle task) {old new : Frame}
    (here : middle.frame thread = old) (apart : ∀ status, old.turn task status = none)
    (free : ∀ status, new.turn task status = none) :
    Alike s (middle.setFrame thread new) task :=
  before.setFrame (fun status => by rw [here, apart, free])

def Action.quiet : Action cfg → Bool
  | .create _ _ _ _ _ | .clearNotified _ | .callPoll _ | .pollReturn _ _ | .pollPanic _
  | .compareExchangeWeak _ _ | .setDropped _ | .callDropInPlace _ | .fnDealloc _
  | .wakeFetchOr _ | .callDealloc _ | .dropTask => false
  | _ => true

theorem quiet_alike {action : Action cfg} (quiet : action.quiet = true)
    (taken : step s action = some next) (task : TaskRef) : Alike s next task := by
  cases action with
  | create | clearNotified | callPoll | pollReturn | pollPanic | compareExchangeWeak
  | setDropped | callDropInPlace | fnDealloc | wakeFetchOr | callDealloc | dropTask =>
      cases quiet
  | build | batchNew | pushBatch | pushBatchNext | place | rngGen | shutdownPoll | wake
  | wakePush | wakeNextEpoch | dropWaker | teardown | collect | freeWorker =>
      simp only [step, build, batchNew, pushBatch, pushBatchNext, place, rngGen, shutdownPoll,
        wake, wakePush, wakeNextEpoch, dropWaker, teardown, collect, freeWorker] at taken
      repeat' split at taken
      all_goals
        cases taken <;> exact ⟨rfl, rfl, fun _ _ => rfl⟩
  | cloneWaker =>
      simp only [step, cloneWaker] at taken
      repeat' split at taken
      all_goals
        cases taken
      refine ((Alike.refl s task).setTask ?_).record ?_ <;> exact fun _ => rfl
  | rcDec =>
      simp only [step, rcDec] at taken
      split at taken
      · rename_i name waker _called
        cases taken
        have counted : Alike s ((s.setTask name
            { s.tasks name with rc := (s.tasks name).rc - 1 }).record name
              { s.history name with wakers := (s.history name).wakers.erase waker }) task := by
          refine ((Alike.refl s task).setTask ?_).record ?_ <;> exact fun _ => rfl
        exact ⟨counted.history, counted.status, counted.turns⟩
      · cases taken
  | pop thread worker =>
      simp only [step, pop] at taken
      split at taken
      · rename_i own name rest _slot idle _called _first
        split at taken
        · cases taken
          have listed : Alike s (s.setList (.queue worker) rest) task := ⟨rfl, rfl, fun _ _ => rfl⟩
          refine listed.goOn idle (fun _ => rfl) (fun _ => ?_)
          split <;> rfl
        · cases taken
      · cases taken
  | teardownPop =>
      obtain ⟨_stage, idle, ⟨_empty, rfl⟩ | ⟨name, rest, _first, rfl⟩⟩ := teardownPop_cases taken
      · exact ⟨rfl, rfl, fun _ _ => rfl⟩
      · have listed : Alike s (s.setList .teardown rest) task := ⟨rfl, rfl, fun _ _ => rfl⟩
        exact listed.goOn idle (fun _ => rfl) (fun _ => rfl)
  | setWorkerId thread =>
      simp only [step, setWorkerId] at taken
      split at taken
      · rename_i own name _slot frame
        cases taken
        refine Alike.goOn ((Alike.refl s task).setTask ?_) frame (fun _ => rfl) (fun _ => rfl)
        exact fun _ => rfl
      · cases taken
  | dropReturn thread =>
      simp only [step, dropReturn] at taken
      split at taken
      · rename_i name teardown frame _called
        cases taken
        refine (Alike.refl s task).goOn frame (fun _ => rfl) (fun _ => ?_)
        split <;> rfl
      · cases taken
  | release thread =>
      simp only [step, release] at taken
      split at taken
      · rename_i name frame
        cases taken
        refine Alike.goOn (((Alike.refl s task).setTask ?_).record ?_) frame (fun _ => rfl)
          (fun _ => ?_)
        · exact fun _ => rfl
        · exact fun _ => rfl
        · split <;> rfl
      · cases taken
  | unwind thread =>
      simp only [step, unwind] at taken
      split at taken
      · rename_i name frame
        cases taken
        refine Alike.goOn ((Alike.refl s task).setTask ?_) frame (fun _ => rfl) (fun _ => ?_)
        · exact fun _ => rfl
        · split <;> rfl
      · cases taken
  | assertRc =>
      simp only [step, assertRc] at taken
      split at taken
      · rename_i name frame
        split at taken
        · cases taken
          exact (Alike.refl s task).goOn frame (fun _ => rfl) (fun _ => rfl)
        · cases taken
      · cases taken
  | checkRc =>
      simp only [step, checkRc] at taken
      split at taken
      · rename_i name frame
        cases taken
        exact (Alike.refl s task).goOn frame (fun _ => rfl) (fun _ => rfl)
      · cases taken

variable {action : Action cfg} {phase : Phase}

theorem Located.stepped (located : Located s task place) (taken : step s action = some next)
    (calm : noPanic s action) : ∃ target, Located next task target := by
  have fate : Fate (· = .whole) s task := .placed place rfl located
  cases fate.step (fun impossible => by cases impossible) (Or.inl calm) taken with
  | placed target whole there => exact ⟨target, there⟩
  | ruined target broken ruin => exact absurd broken (condition_ne_whole next target)

theorem Ruined.stepped (ruin : Ruined s task place) (taken : step s action = some next) :
    ∃ target, Ruined next task target := by
  have fate : Fate (· ≠ .whole) s task := .ruined place (condition_ne_whole s place) ruin
  cases fate.step (fun _ => Condition.noConfusion) (Or.inr (fun whole => absurd rfl whole))
    taken with
  | placed target whole there => exact absurd rfl whole
  | ruined target broken there => exact ⟨target, there⟩

theorem Mirrors.alike (mirrors : Mirrors s task phase) (taken : step s action = some next)
    (calm : noPanic s action) (alike : Alike s next task) : Mirrors next task phase := by
  cases mirrors with
  | whole place located =>
      obtain ⟨target, there⟩ := located.stepped taken calm
      rw [← alike.phase]
      exact .whole target there
  | ruined place ruin =>
      obtain ⟨target, there⟩ := ruin.stepped taken
      have core := alike.history
      simp only [History.core, Prod.mk.injEq] at core
      rw [← core.2.2.2]
      exact .ruined target there

theorem Mirrors.whole_or_ruined (mirrors : Mirrors s task phase) :
    (∃ place, Located s task place ∧ phase = s.phase task) ∨
      ∃ place, Ruined s task place ∧
        phase = if (s.history task).deallocs = 0 then .abandoned else .freed := by
  cases mirrors with
  | whole place located => exact Or.inl ⟨place, located, rfl⟩
  | ruined place ruin => exact Or.inr ⟨place, ruin, rfl⟩

theorem Mirrors.located (mirrors : Mirrors s task phase) (member : task ∈ (s.frame thread).held)
    (working : ¬ (s.frame thread).Wrecked (s.history task)) :
    ∃ place, Located s task place ∧ phase = s.phase task := by
  cases mirrors with
  | whole place located => exact ⟨place, located, rfl⟩
  | ruined place ruin =>
      have wrecked := ruin.wrecked
      rw [ruin.counts.place_of_frame member] at wrecked
      exact absurd wrecked working

def Refines (s : State cfg) (jobs : TaskRef → Phase) : Prop :=
  ∀ task, Mirrors s task (jobs task)

variable {jobs : TaskRef → Phase}

def Follows (s next : State cfg) (jobs : TaskRef → Phase) (action : Action cfg) : Prop :=
  ∃ run after, Wakeable.job.family.exec jobs run = some after ∧
    run.filterMap Wakeable.shows = (event? s action).toList ∧ Refines next after

theorem Refines.moved (task : TaskRef) (acts : List Act) (last : Phase)
    (others : ∀ other, other ≠ task → Mirrors next other (jobs other))
    (ran : Wakeable.job.exec (jobs task) acts = some last) (own : Mirrors next task last)
    (shown : (acts.map (task, ·)).filterMap Wakeable.shows = (event? s action).toList) :
    Follows s next jobs action := by
  refine ⟨acts.map (task, ·), _, System.exec_family ran, shown, ?_⟩
  intro other
  by_cases same : other = task
  · rw [same, Function.update_self]
    exact own
  · rw [Function.update_of_ne same]
    exact others other same

theorem Refines.quiet (refines : Refines s jobs) (quiet : action.quiet = true)
    (taken : step s action = some next) : Follows s next jobs action := by
  have calm : noPanic s action := by
    cases action with
    | pollPanic => cases quiet
    | _ => trivial
  have silent : event? s action = none := by
    cases action with
    | create | clearNotified | callPoll | pollReturn | pollPanic | compareExchangeWeak
    | setDropped | callDropInPlace | fnDealloc | wakeFetchOr | callDealloc | dropTask =>
        cases quiet
    | _ => rfl
  refine ⟨[], jobs, rfl, by rw [silent]; rfl, ?_⟩
  exact fun task => (refines task).alike taken calm (quiet_alike quiet taken task)

/-- A thread goes on with the task in its hands, and the job does what that means. -/
theorem Refines.handled (refines : Refines s jobs) {old new : Frame}
    (taken : step s action = some (middle.setFrame thread new)) (calm : noPanic s action)
    (frame : s.frame thread = old) (held : old.held = [task]) (holds : new.held = [task])
    (working : ¬ old.Wrecked (s.history task)) (frames : middle.frame = s.frame)
    (others : ∀ other, other ≠ task → Alike s middle other) (acts : List Act)
    (ran : old.Settled (s.tasks task).status (s.history task) →
      Wakeable.job.exec (old.phase (s.tasks task).status) acts =
        some (new.phase (middle.tasks task).status))
    (shown : (acts.map (task, ·)).filterMap Wakeable.shows = (event? s action).toList) :
    Follows s (middle.setFrame thread new) jobs action := by
  subst frame
  have before : task ∈ (s.frame thread).held := by rw [held]; exact List.mem_singleton_self _
  have after : task ∈ ((middle.setFrame thread new).frame thread).held := by
    rw [State.setFrame_frame, Function.update_self, holds]
    exact List.mem_singleton_self _
  obtain ⟨place, located, same⟩ := (refines task).located before working
  obtain ⟨target, there⟩ := located.stepped taken calm
  have settled := located.settled
  rw [located.counts.place_of_frame before] at settled
  refine Refines.moved task acts (new.phase (middle.tasks task).status) ?_ ?_ ?_ shown
  · intro other different
    refine (refines other).alike taken calm ((others other different).setFrame (fun status => ?_))
    rw [frames, turn_of_not_held, turn_of_not_held]
    · rw [held]
      exact fun member => different (List.mem_singleton.mp member)
    · rw [holds]
      exact fun member => different (List.mem_singleton.mp member)
  · rw [same, located.phase_of_frame before]
    exact ran settled
  · have phase := there.phase_of_frame after
    rw [State.setFrame_frame, Function.update_self, State.setFrame_tasks] at phase
    rw [← phase]
    exact .whole target there

theorem Refines.clearNotified (refines : Refines s jobs)
    (taken : step s (.clearNotified thread) = some next) :
    Follows s next jobs (.clearNotified thread) := by
  have whole := taken
  simp only [step, TaskSystem.clearNotified] at taken
  split at taken
  · rename_i task frame
    cases taken
    refine refines.handled whole trivial frame rfl rfl id rfl (fun other different => ?_) [.claim]
      (fun settled => ?_) rfl
    · exact (Alike.refl s other).setTask (fun same => absurd same different)
    · rw [State.setTask_tasks, Function.update_self, Task.clearNotified_held settled.2.held]
      exact congrArg (fun woken => some (Phase.claimed woken)) Task.again_muted.symm
  · cases taken

theorem Refines.callPoll (refines : Refines s jobs)
    (taken : step s (.callPoll thread) = some next) :
    Follows s next jobs (.callPoll thread) := by
  have whole := taken
  simp only [step, TaskSystem.callPoll] at taken
  split at taken
  · rename_i task frame
    cases taken
    refine refines.handled whole trivial frame rfl rfl id rfl (fun other different => ?_) [.start]
      (fun _settled => rfl) ?_
    · exact (Alike.refl s other).record (fun same => absurd same different)
    · rw [event?, frame]
      rfl
  · cases taken

theorem Refines.pollReturn {ready : Bool} (refines : Refines s jobs)
    (taken : step s (.pollReturn thread ready) = some next) :
    Follows s next jobs (.pollReturn thread ready) := by
  have whole := taken
  simp only [step, TaskSystem.pollReturn] at taken
  split at taken
  · rename_i task frame _called
    split at taken
    · split at taken
      · rename_i returned
        cases taken
        refine refines.handled whole trivial frame rfl rfl id rfl (fun other different => ?_)
          [.finish] (fun _settled => rfl) ?_
        · exact (Alike.refl s other).record (fun same => absurd same different)
        · rw [event?, frame, returned]
          rfl
      · rename_i left
        cases taken
        refine refines.handled whole trivial frame rfl rfl id rfl
          (fun other _different => Alike.refl s other) [.pend] (fun _settled => rfl) ?_
        rw [event?, frame, Bool.eq_false_iff.mpr left]
        rfl
    · cases taken
  · cases taken

theorem Refines.setDropped (refines : Refines s jobs)
    (taken : step s (.setDropped thread) = some next) :
    Follows s next jobs (.setDropped thread) := by
  have whole := taken
  simp only [step, TaskSystem.setDropped] at taken
  split at taken
  · rename_i task frame
    cases taken
    refine refines.handled whole trivial frame rfl rfl id rfl (fun other different => ?_) []
      (fun _settled => rfl) rfl
    exact (Alike.refl s other).setTask (fun same => absurd same different)
  · cases taken

theorem Refines.callDropInPlace (refines : Refines s jobs)
    (taken : step s (.callDropInPlace thread) = some next) :
    Follows s next jobs (.callDropInPlace thread) := by
  have whole := taken
  simp only [step, TaskSystem.callDropInPlace] at taken
  split at taken
  · rename_i task teardown frame
    cases taken
    refine refines.handled whole trivial frame rfl rfl id rfl (fun other different => ?_)
      [.destroy] (fun _settled => rfl) ?_
    · exact (Alike.refl s other).record (fun same => absurd same different)
    · rw [event?, frame]
      rfl
  · cases taken

theorem Refines.dropTask (refines : Refines s jobs) (taken : step s .dropTask = some next) :
    Follows s next jobs .dropTask := by
  have whole := taken
  simp only [step, TaskSystem.dropTask] at taken
  split at taken
  · rename_i task frame
    have dropping : Task.undropped (s.tasks task).status = true := by
      obtain ⟨place, located, _same⟩ := (refines task).located
        (by rw [frame]; exact List.mem_singleton_self _) (by rw [frame]; exact id)
      have settled := located.settled
      rw [located.counts.place_of_frame (by rw [frame]; exact List.mem_singleton_self _),
        Settled, frame] at settled
      exact Task.undropped_held settled.2.held
    rw [if_pos dropping] at taken
    cases taken
    refine refines.handled whole trivial frame rfl rfl id rfl (fun other different => ?_)
      [.cancel] (fun _settled => rfl) rfl
    exact (Alike.refl s other).setTask (fun same => absurd same different)
  · cases taken

theorem Counts.turn_let_go (counts : Counts s task place) {new : Frame}
    (member : task ∈ (s.frame thread).held) (frames : middle.frame = s.frame)
    (free : new.held = []) : (middle.setFrame thread new).turn task = none := by
  refine turn_eq_none (fun other => ?_)
  rw [State.setFrame_frame, frames]
  by_cases here : other = thread
  · rw [here, Function.update_self, free]
    exact List.not_mem_nil
  · rw [Function.update_of_ne here]
    refine counts.not_framed ?_
    rw [counts.place_of_frame member]
    intro same
    cases same
    exact here rfl

/-- A successful exchange of the loop behind a pending poll settles the job: it waits, or it
is due and taken up at once. -/
theorem Refines.compareExchangeWeak {spurious : Bool} (refines : Refines s jobs)
    (taken : step s (.compareExchangeWeak thread spurious) = some next) :
    Follows s next jobs (.compareExchangeWeak thread spurious) := by
  have whole := taken
  simp only [step, TaskSystem.compareExchangeWeak] at taken
  split at taken
  · rename_i task prev frame
    split at taken
    · rename_i success
      split at taken
      · rename_i muted
        cases taken
        have before : task ∈ (s.frame thread).held := by
          rw [frame]
          exact List.mem_singleton_self _
        obtain ⟨place, located, same⟩ := (refines task).located before (by rw [frame]; exact id)
        obtain ⟨target, there⟩ := located.stepped whole trivial
        have settled := located.settled
        rw [located.counts.place_of_frame before, Settled, frame] at settled
        have turn : ((s.setStatus task 0).setFrame thread .idle).turn task = none :=
          located.counts.turn_let_go before rfl rfl
        have live : Live (((s.setStatus task 0).setFrame thread .idle).history task) := settled.1
        have waiting : ((s.setStatus task 0).setFrame thread .idle).phase task = .waiting := by
          rw [phase_of_live live, turn, Option.getD_none]
          · rw [State.setFrame_tasks, State.setTask_tasks, Function.update_self]
            exact if_pos rfl
          · rw [State.setFrame_tasks, State.setTask_tasks, Function.update_self]
            exact Task.undropped_idle
        refine Refines.moved task [.settle] .waiting ?_ ?_ ?_ rfl
        · intro other different
          refine (refines other).alike whole trivial (Alike.goOn ?_ frame ?_ (fun _ => rfl))
          · exact (Alike.refl s other).setTask (fun same => absurd same different)
          · exact fun _status => turn_of_not_held
              (fun member => different (List.mem_singleton.mp member))
        · rw [same, located.phase_of_frame before, frame, success.1, muted]
          exact congrArg (fun woken => Wakeable.job.exec (.paused woken) [.settle])
            Task.again_muted
        · rw [← waiting]
          exact .whole target there
      · rename_i unmuted
        cases taken
        refine refines.handled whole trivial frame rfl rfl id rfl (fun other different => ?_)
          [.settle, .claim] (fun settled => ?_) rfl
        · exact (Alike.refl s other).setTask (fun same => absurd same different)
        · have scheduled : (s.tasks task).status = Task.initialStatus := by
            rcases settled.2.1 with muted | scheduled
            · exact absurd (success.1.symm.trans muted) unmuted
            · exact scheduled
          rw [State.setTask_tasks, Function.update_self, scheduled]
          have again : Wakeable.job.exec (.paused (Task.again Task.initialStatus))
              [.settle, .claim] = some (.claimed false) := by
            rw [Task.again_initialStatus]
            rfl
          exact again.trans
            (congrArg (fun woken => some (Phase.claimed woken)) Task.again_muted.symm)
    · cases taken
      exact refines.handled whole trivial frame rfl rfl id rfl
        (fun other _different => Alike.refl s other) [] (fun _settled => rfl) rfl
  · cases taken

theorem Refines.free (refines : Refines s jobs) (taken : step s action = some next)
    (calm : noPanic s action) {holder : Holder cfg} (member : task ∈ s.content holder)
    (settles : ∀ place, Located s task place → Lifetime (s.history task) 1 true 0)
    (history : next.history task =
      { s.history task with deallocs := (s.history task).deallocs + 1 })
    (others : ∀ other, other ≠ task → Alike s next other)
    (shown : event? s action = some (task, .free)) : Follows s next jobs action := by
  have aside (other : TaskRef) (different : other ≠ task) : Mirrors next other (jobs other) :=
    (refines other).alike taken calm (others other different)
  rcases (refines task).whole_or_ruined with ⟨place, located, same⟩ | ⟨place, ruin, same⟩
  · have lifetime := settles place located
    obtain ⟨target, there⟩ := located.stepped taken calm
    have freed : next.phase task = .freed := by
      refine phase_freed ?_ ?_
      · rw [history]
        exact lifetime.created
      · rw [history, lifetime.deallocs_eq]
    refine Refines.moved task [.free] .freed aside ?_ ?_ (by rw [shown]; rfl)
    · rw [same, phase_destroyed lifetime]
      rfl
    · rw [← freed]
      exact .whole target there
  · have none : (s.history task).deallocs = 0 := by
      rw [ruin.lifetime.deallocs_eq, ruin.counts.place_of_mem member]
      exact if_neg (fun impossible => by cases impossible)
    obtain ⟨target, there⟩ := ruin.stepped taken
    have mirrors := Mirrors.ruined target there
    rw [history, none, if_neg (Nat.succ_ne_zero 0)] at mirrors
    refine Refines.moved task [.free] .freed aside ?_ mirrors (by rw [shown]; rfl)
    rw [same, if_pos none]
    rfl

theorem Refines.fnDealloc (refines : Refines s jobs)
    (taken : step s (.fnDealloc thread) = some next) :
    Follows s next jobs (.fnDealloc thread) := by
  have whole := taken
  simp only [step, TaskSystem.fnDealloc] at taken
  split at taken
  · rename_i task unwound frame
    cases taken
    have member : task ∈ s.content (.frame thread) := by
      rw [State.content, frame]
      exact List.mem_singleton_self _
    refine refines.free whole trivial member ?_ ?_ ?_ (by rw [event?, frame])
    · intro place located
      have settled := located.settled
      rw [located.counts.place_of_mem member, Settled, frame] at settled
      exact settled.1
    · exact Function.update_self ..
    · intro other different
      refine Alike.goOn ?_ frame (fun _ => rfl) (fun _ => ?_)
      · exact (Alike.refl s other).record (fun same => absurd same different)
      · split <;> rfl
  · cases taken

theorem Refines.callDealloc (refines : Refines s jobs)
    (taken : step s (.callDealloc thread) = some next) :
    Follows s next jobs (.callDealloc thread) := by
  have whole := taken
  simp only [step, TaskSystem.callDealloc] at taken
  split at taken
  · rename_i task called
    cases taken
    have member : task ∈ s.content (.call thread) := by
      rw [State.content, called]
      exact List.mem_singleton_self _
    refine refines.free whole trivial member ?_ ?_ ?_ (by rw [event?, called])
    · intro place located
      have settled := located.settled
      rw [located.counts.place_of_mem member, Settled, called] at settled
      exact settled.1
    · exact Function.update_self ..
    · intro other different
      have recorded : Alike s (s.record task
          { s.history task with deallocs := (s.history task).deallocs + 1 }) other :=
        (Alike.refl s other).record (fun same => absurd same different)
      exact ⟨recorded.history, recorded.status, recorded.turns⟩
  · cases taken

theorem Refines.create {worker : WorkerId} {front : Bool} {maker : Maker}
    (refines : Refines s jobs)
    (taken : step s (.create thread task worker front maker) = some next) :
    Follows s next jobs (.create thread task worker front maker) := by
  have whole := taken
  simp only [step, TaskSystem.create] at taken
  split at taken
  · split at taken
    · rename_i allowed
      cases taken
      rcases (refines task).whole_or_ruined with ⟨place, located, same⟩ | ⟨place, ruin, _same⟩
      · obtain ⟨target, there⟩ := located.stepped whole trivial
        have due := there.phase_of_placing (Function.update_self thread _ s.call)
        refine Refines.moved task [.create] .due (fun other different => ?_) ?_ ?_ rfl
        · refine (refines other).alike whole trivial ?_
          have made : Alike s ((s.setTask task
              { status := Task.initialStatus, rc := 1, workerId := 0 }).record task
                { s.history task with created := true }) other :=
            ((Alike.refl s other).setTask (fun same => absurd same different)).record
              (fun same => absurd same different)
          exact ⟨made.history, made.status, made.turns⟩
        · have unborn : s.phase task = .unborn := if_pos allowed.1
          rw [same, unborn]
          rfl
        · rw [← due]
          exact .whole target there
      · have made := ruin.lifetime.created
        rw [allowed.1] at made
        cases made
    · cases taken
  · cases taken

private theorem turn_wakeStatus (frame : Frame) {status : BitVec 8} :
    frame.turn task (Task.wakeStatus status) = (frame.turn task status).map Phase.woken := by
  have again := Task.again_wakeStatus status
  cases frame with
  | cleared held | polling held | pending held prev =>
      by_cases same : held = task
      · simp [Frame.turn, same, again, Phase.woken]
      · simp [Frame.turn, same]
  | _ => rfl

/-- A wake's `fetch_or` makes a waiting task due and marks one that is taken up. -/
theorem phase_woken (frames : next.frame = s.frame)
    (history : (next.history task).core = (s.history task).core)
    (status : (next.tasks task).status = Task.wakeStatus (s.tasks task).status) :
    next.phase task = (s.phase task).woken := by
  have turn : next.turn task = (s.turn task).map Phase.woken := by
    rw [State.turn, State.turn, List.map_findSome?, frames, status]
    exact congrArg (List.findSome? · _) (funext (fun thread => turn_wakeStatus (s.frame thread)))
  simp only [History.core, Prod.mk.injEq] at history
  obtain ⟨created, ready, drops, deallocs⟩ := history
  rw [State.phase, State.phase, created, ready, drops, deallocs, turn, status,
    Task.undropped_wakeStatus, if_neg (Task.wakeStatus_ne_idle _)]
  repeat' split
  all_goals
    first
    | rfl
    | cases s.turn task <;> simp [Phase.woken, *]

private theorem turn_takes_wake {frame : Frame} {status : BitVec 8}
    (turn : frame.turn task status = some phase) :
    Wakeable.step phase .wake = some phase.woken := by
  cases frame with
  | cleared held | polling held | pending held prev =>
      obtain ⟨_held, same⟩ := Option.ite_none_right_eq_some.mp turn
      cases same
      rfl
  | _ => cases turn

private theorem phase_takes_wake (created : (s.history task).created = true)
    (kept : (s.history task).deallocs = 0) :
    Wakeable.step (s.phase task) .wake = some (s.phase task).woken := by
  rw [State.phase, if_neg (by rw [created]; exact Bool.noConfusion), if_neg (not_not.mpr kept)]
  split
  · rfl
  · split
    · rfl
    · cases found : s.turn task with
      | none =>
          rw [Option.getD_none]
          split <;> rfl
      | some phase =>
          obtain ⟨thread, _member, turn⟩ := List.exists_of_findSome?_eq_some found
          exact turn_takes_wake turn

theorem Refines.wakeFetchOr (refines : Refines s jobs)
    (taken : step s (.wakeFetchOr thread) = some next) :
    Follows s next jobs (.wakeFetchOr thread) := by
  have whole := taken
  simp only [step, TaskSystem.wakeFetchOr] at taken
  split at taken
  · rename_i task via called
    have shown : event? s (.wakeFetchOr thread) = some (task, .wake) := by rw [event?, called]
    have aside (other : TaskRef) (different : other ≠ task) : Mirrors next other (jobs other) := by
      refine (refines other).alike whole trivial ?_
      cases taken
      have marked : Alike s ((s.setStatus task (Task.wakeStatus (s.tasks task).status)).record task
          { s.history task with woken := true }) other :=
        ((Alike.refl s other).setTask (fun same => absurd same different)).record
          (fun same => absurd same different)
      exact ⟨marked.history, marked.status, marked.turns⟩
    rcases (refines task).whole_or_ruined with ⟨place, located, same⟩ | ⟨place, ruin, same⟩
    · have alive := located.alive_of_call (Or.inl ⟨via, called⟩)
      have born := (located.borrows.referenced called).ne_unborn located
      obtain ⟨target, there⟩ := located.stepped whole trivial
      have woken : next.phase task = (s.phase task).woken := by
        cases taken
        refine phase_woken rfl ?_ ?_
        · rw [State.setCall_history, State.record_history, Function.update_self]
          rfl
        · rw [State.setCall_tasks, State.record_tasks, State.setTask_tasks, Function.update_self]
      refine Refines.moved task [.wake] (s.phase task).woken aside ?_ ?_ (by rw [shown]; rfl)
      · rw [same]
        exact Option.bind_eq_some_iff.mpr
          ⟨_, phase_takes_wake (located.settled.created born) alive, rfl⟩
      · rw [← woken]
        exact .whole target there
    · have alive : (s.history task).deallocs = 0 := by
        obtain ⟨_some, rfl | ⟨_, _, rfl, _⟩⟩ := ruin.owned (ruin.borrows.referenced called)
        · exact ruin.lifetime.deallocs_eq
        · exact ruin.lifetime.deallocs_eq
      obtain ⟨target, there⟩ := ruin.stepped whole
      have kept : (next.history task).deallocs = (s.history task).deallocs := by
        cases taken
        rw [State.setCall_history, State.record_history, Function.update_self]
      have mirrors := Mirrors.ruined target there
      rw [kept, if_pos alive] at mirrors
      rw [if_pos alive] at same
      refine Refines.moved task [.wake] .abandoned aside ?_ mirrors (by rw [shown]; rfl)
      rw [same]
      rfl
  · cases taken

theorem Refines.pollPanic (refines : Refines s jobs)
    (taken : step s (.pollPanic thread) = some next) :
    Follows s next jobs (.pollPanic thread) := by
  have whole := taken
  simp only [step, TaskSystem.pollPanic] at taken
  split at taken
  · rename_i task frame _called
    split at taken
    · cases taken
      have shown : event? s (.pollPanic thread) = some (task, .abandon) := by rw [event?, frame]
      have before : task ∈ (s.frame thread).held := by
        rw [frame]
        exact List.mem_singleton_self _
      have aside (other : TaskRef) (different : other ≠ task) :
          Mirrors (s.setFrame thread (.unwinding task)) other (jobs other) := by
        have apart : other ∉ (s.frame thread).held := by
          rw [frame]
          exact fun member => different (List.mem_singleton.mp member)
        have untouched : Untouched s (s.setFrame thread (.unwinding task)) other :=
          untouched_setFrame thread (.unwinding task) apart
            (fun member => different (List.mem_singleton.mp member))
        have alike : Alike s (s.setFrame thread (.unwinding task)) other :=
          (Alike.refl s other).setFrame (fun status => by rw [turn_of_not_held apart]; rfl)
        rcases (refines other).whole_or_ruined with ⟨place, located, same⟩ | ⟨place, ruin, same⟩
        · rw [same, ← alike.phase]
          exact .whole place (located.untouched untouched)
        · rw [same]
          exact .ruined place (ruin.untouched untouched)
      obtain ⟨place, located, same⟩ := (refines task).located before (by rw [frame]; exact id)
      have settled := located.settled
      rw [located.counts.place_of_frame before, Settled, frame] at settled
      have running := located.phase_of_frame before
      rw [frame] at running
      have fate : Fate (fun _ => True) s task := .placed place trivial located
      have unwinding : task ∈ ((s.setFrame thread (.unwinding task)).frame thread).held := by
        rw [State.setFrame_frame, Function.update_self]
        exact List.mem_singleton_self _
      cases fate.step id (Or.inr id) whole with
      | placed target _whole there =>
          have wrong := there.settled
          rw [there.counts.place_of_frame unwinding, Settled, State.setFrame_frame,
            Function.update_self] at wrong
          exact wrong.elim
      | ruined target _broken there =>
          have mirrors := Mirrors.ruined target there
          rw [State.setFrame_history, if_pos settled.1.1.deallocs_eq] at mirrors
          refine Refines.moved task [.abandon] .abandoned aside ?_ mirrors (by rw [shown]; rfl)
          rw [same, running]
          rfl
    · cases taken
  · cases taken

theorem simulation : Simulation (system cfg) (Wakeable.job.family : System (TaskRef → Phase) _)
    event? Wakeable.shows Refines := by
  constructor
  · intro s start
    subst start
    exact ⟨fun _ => .unborn, fun _ => rfl, fun task => .whole .unborn (.init task)⟩
  · intro s jobs action next refines taken
    cases action with
    | create => exact refines.create taken
    | clearNotified => exact refines.clearNotified taken
    | callPoll => exact refines.callPoll taken
    | pollReturn => exact refines.pollReturn taken
    | pollPanic => exact refines.pollPanic taken
    | compareExchangeWeak => exact refines.compareExchangeWeak taken
    | setDropped => exact refines.setDropped taken
    | callDropInPlace => exact refines.callDropInPlace taken
    | fnDealloc => exact refines.fnDealloc taken
    | wakeFetchOr => exact refines.wakeFetchOr taken
    | callDealloc => exact refines.callDealloc taken
    | dropTask => exact refines.dropTask taken
    | _ => exact refines.quiet rfl taken

/-- Every run of the threads shows of every task what a run of jobs shows that run again
when they are woken, and leaves each task where its job is. -/
theorem tasks_refine_jobs {last : State cfg} {actions : List (Action cfg)}
    (ran : (system cfg).exec (State.init cfg) actions = some last) :
    ∃ run jobs, Wakeable.job.family.exec (fun _ => .unborn) run = some jobs ∧
      run.filterMap Wakeable.shows = (system cfg).trace event? (State.init cfg) actions ∧
      ∀ task, Mirrors last task (jobs task) := by
  have here : Refines (State.init cfg) (fun _ => .unborn) := fun task => .whole .unborn (.init task)
  exact simulation.exec here ran

theorem tasks_refine_jobs_while_polled :
    ∃ run jobs, Wakeable.job.family.exec (fun _ => .unborn) run = some jobs ∧
      run.filterMap Wakeable.shows =
        (system twoWorkers).trace event? (State.init twoWorkers) wakeDuringPoll ∧
      ∀ task, Mirrors polledAndWoken task (jobs task) :=
  tasks_refine_jobs (Option.some_get wakeDuringPoll_runs).symm

/-- In every run the polls of a task that have started are at most one more than the wakes. -/
theorem polls_le_wakes {last : State cfg} {actions : List (Action cfg)}
    (ran : (system cfg).exec (State.init cfg) actions = some last) (task : TaskRef) :
    ((system cfg).trace event? (State.init cfg) actions).count (task, .start) ≤
      1 + ((system cfg).trace event? (State.init cfg) actions).count (task, .wake) := by
  have here : Refines (State.init cfg) (fun _ => .unborn) := fun task => .whole .unborn (.init task)
  obtain ⟨run, jobs, above, shown, _refines⟩ := simulation.exec here ran
  rw [← shown]
  exact Wakeable.seen_starts_le_wakes above task

theorem polls_le_wakes_while_polled :
    ((system twoWorkers).trace event? (State.init twoWorkers) wakeDuringPoll).count (7, .start) ≤
      1 + ((system twoWorkers).trace event? (State.init twoWorkers) wakeDuringPoll).count
        (7, .wake) :=
  polls_le_wakes (Option.some_get wakeDuringPoll_runs).symm 7

end Yaay.TaskSystem
