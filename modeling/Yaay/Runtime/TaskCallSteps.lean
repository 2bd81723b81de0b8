import Yaay.Runtime.TaskSteps

set_option autoImplicit false

/-! The steps of the calls into the runtime: creation, wakes, waker clones and
drops, batches, and the moves of whole lists. -/

namespace Yaay.TaskSystem

variable {among : Condition → Prop} {cfg : Config} {s next : State cfg} {task observed : TaskRef}
  {place : Place cfg}
  {thread : Fin cfg.threads} {call : Call cfg}

/-- One thread goes on inside a call that concerns only this task. -/
structure CallStep (s next : State cfg) (thread : Fin cfg.threads) (task : TaskRef)
    (call : Call cfg) : Prop where
  before : ∀ name ∈ (s.call thread).subject, name = task
  after : ∀ name ∈ call.subject, name = task
  calls : next.call = Function.update s.call thread call
  frames : next.frame = s.frame
  lists : ∀ list other, other ≠ task →
    (next.lists list).count other = (s.lists list).count other
  tasks : ∀ other, other ≠ task → next.tasks other = s.tasks other
  history : ∀ other, other ≠ task → next.history other = s.history other

theorem CallStep.untouched (step : CallStep s next thread task call) {other : TaskRef}
    (different : other ≠ task) : Untouched s next other := by
  have before : other ∉ (s.call thread).subject :=
    fun member => different (step.before other member)
  have after : other ∉ call.subject := fun member => different (step.after other member)
  have called := untouched_setCall thread call before after
  refine ⟨?_, step.tasks other different, step.history other different, ?_, ?_⟩
  · intro holder
    cases holder with
    | list list => exact step.lists list other different
    | frame name => simp [State.content, step.frames]
    | call name =>
        have counted := called.counts (.call name)
        simpa [State.content, step.calls] using counted
  · intro name _member
    rw [step.frames]
  · intro name
    simpa [step.calls] using called.calls name

theorem CallStep.borrows (step : CallStep s next thread task call)
    (borrows : Borrows s task)
    (kept : ∀ other waker, other ≠ thread → (s.call other).uses task waker = true →
      waker ∈ (next.history task).wakers)
    (mine : ∀ waker, call.uses task waker = true → waker ∈ (next.history task).wakers)
    (sole : ∀ waker, call.consumes task waker = true →
      ∀ other, other ≠ thread → (s.call other).uses task waker = false)
    (unshared : ∀ waker, call.uses task waker = true →
      ∀ other, other ≠ thread → (s.call other).consumes task waker = false)
    (lent : ∀ worker, call.lentBy task worker = true →
      (s.frame worker).polls task = true) : Borrows next task := by
  constructor
  · intro name waker used
    rw [step.calls] at used
    by_cases same : name = thread
    · subst same
      rw [Function.update_self] at used
      exact mine waker used
    · rw [Function.update_of_ne same] at used
      exact kept name waker same used
  · intro name other waker consumed different
    rw [step.calls] at consumed ⊢
    by_cases same : name = thread
    · subst same
      rw [Function.update_self] at consumed
      rw [Function.update_of_ne different]
      exact sole waker consumed other different
    · rw [Function.update_of_ne same] at consumed
      by_cases here : other = thread
      · subst here
        rw [Function.update_self]
        cases used : call.uses task waker with
        | false => rfl
        | true =>
            rw [unshared waker used name same] at consumed
            cases consumed
      · rw [Function.update_of_ne here]
        exact borrows.exclusive name other waker consumed different
  · intro name worker lentAt
    rw [step.calls] at lentAt
    rw [step.frames]
    by_cases same : name = thread
    · subst same
      rw [Function.update_self] at lentAt
      exact lent worker lentAt
    · rw [Function.update_of_ne same] at lentAt
      exact borrows.lent name worker lentAt

/-- The later call goes through no waker that the earlier one does not go through. -/
structure Call.Continues (task : TaskRef) (before after : Call cfg) : Prop where
  uses : ∀ waker, after.uses task waker = true → before.uses task waker = true
  consumes : ∀ waker, after.consumes task waker = true →
    before.consumes task waker = true
  lent : ∀ worker, after.lentBy task worker = true → before.lentBy task worker = true

theorem Call.continues_silent {before after : Call cfg}
    (unused : ∀ waker, after.uses task waker = false)
    (unlent : ∀ worker, after.lentBy task worker = false) :
    Call.Continues task before after := by
  constructor
  · intro waker used
    rw [unused] at used
    cases used
  · intro waker consumed
    have used := Call.consumes_uses consumed
    rw [unused] at used
    cases used
  · intro worker lent
    rw [unlent] at lent
    cases lent

theorem Call.continues_push (via : Via cfg) :
    Call.Continues task (.wake task via) (.push task via) := by
  cases via <;> exact ⟨fun _ used => used, fun _ consumed => consumed, fun _ lent => lent⟩

theorem Call.continues_nextEpoch (via : Via cfg) :
    Call.Continues task (.push task via) (.nextEpoch task via) := by
  cases via <;> exact ⟨fun _ used => used, fun _ consumed => consumed, fun _ lent => lent⟩

theorem Call.continues_afterWake {before : Call cfg} (via : Via cfg)
    (through : before = .wake task via ∨ before = .push task via ∨
      before = .nextEpoch task via) :
    Call.Continues task before (afterWake task via) := by
  cases via with
  | lent worker | byRef waker =>
      exact Call.continues_silent (fun _ => rfl) (fun _ => rfl)
  | byValue waker =>
      rcases through with rfl | rfl | rfl <;>
        exact ⟨fun _ used => used, fun _ consumed => consumed, fun _ lent => by cases lent⟩

theorem CallStep.borrows_same (step : CallStep s next thread task call)
    (borrows : Borrows s task)
    (wakers : (next.history task).wakers = (s.history task).wakers)
    (goes : Call.Continues task (s.call thread) call) : Borrows next task := by
  apply step.borrows borrows
  · intro other waker _different used
    rw [wakers]
    exact borrows.owned other waker used
  · intro waker used
    rw [wakers]
    exact borrows.owned thread waker (goes.uses waker used)
  · intro waker consumed other different
    exact borrows.exclusive thread other waker (goes.consumes waker consumed) different
  · intro waker used other different
    cases consumed : (s.call other).consumes task waker with
    | false => rfl
    | true =>
        have unused := borrows.exclusive other thread waker consumed (Ne.symm different)
        rw [goes.uses waker used] at unused
        cases unused
  · intro worker lentAt
    exact borrows.lent thread worker (goes.lent worker lentAt)

theorem CallStep.content (step : CallStep s next thread task call)
    (lists : next.lists = s.lists) (holder : Holder cfg) :
    next.content holder =
      if holder = .call thread then call.held else s.content holder := by
  rw [← setCall_content]
  cases holder <;> simp [State.content, step.calls, step.frames, lists]

theorem CallStep.counts_same (step : CallStep s next thread task call)
    (lists : next.lists = s.lists) (held : call.held = (s.call thread).held)
    (counts : Counts s task place) : Counts next task place := by
  intro holder
  rw [step.content lists, ← counts holder]
  by_cases same : holder = .call thread
  · subst same
    rw [if_pos rfl, held]
    rfl
  · rw [if_neg same]

theorem CallStep.counts_take (step : CallStep s next thread task call)
    (lists : next.lists = s.lists) (held : call.held = [task])
    (free : ∀ holder, place ≠ .held holder) (counts : Counts s task place) :
    Counts next task (.held (.call thread)) := by
  apply counts.transfer
  · intro holder _ away
    rw [step.content lists, if_neg (fun same => away (by rw [same]))]
  · intro holder here _
    exact absurd here (free holder)
  · intro holder here
    cases here
    rw [step.content lists, if_pos rfl, held, List.count_singleton_self]

theorem CallStep.counts_drop {target : Place cfg} (step : CallStep s next thread task call)
    (lists : next.lists = s.lists) (held : call.held = [])
    (free : ∀ holder, target ≠ .held holder)
    (counts : Counts s task (.held (.call thread))) : Counts next task target := by
  apply counts.transfer
  · intro holder away _
    rw [step.content lists, if_neg (fun same => away (by rw [same]))]
  · intro holder here _
    cases here
    rw [step.content lists, if_pos rfl, held, List.count_nil]
  · intro holder here
    exact absurd here (free holder)

theorem CallStep.counts_insert {list : ListId cfg} (step : CallStep s next thread task call)
    (held : call.held = [])
    (inserted : (next.lists list).count task = (s.lists list).count task + 1)
    (others : ∀ other, other ≠ list → next.lists other = s.lists other)
    (counts : Counts s task (.held (.call thread))) :
    Counts next task (.held (.list list)) := by
  apply counts.transfer
  · intro holder away apart
    cases holder with
    | list other =>
        have different : other ≠ list := fun same => apart (by rw [same])
        simp [State.content, others other different]
    | frame name => simp [State.content, step.frames]
    | call name =>
        have different : name ≠ thread := fun same => away (by rw [same])
        simp [State.content, step.calls, different]
  · intro holder here _
    cases here
    simp [State.content, step.calls, held]
  · intro holder here
    cases here
    have before := counts (.list list)
    simp only [State.content, Place.held.injEq, reduceCtorEq, if_false] at before
    change (next.lists list).count task = 1
    rw [inserted, before]

/-- The rule for every step of a thread inside a call about the task. -/
theorem Fate.callStep (fate : Fate among s observed) (step : CallStep s next thread task call)
    (moved : ∀ place, Located s task place → ∃ target, Located next task target)
    (ruined : ∀ place, Ruined s task place →
      ∃ target, Ruined next task target ∧ condition next target = condition s place) :
    Fate among next observed :=
  fate.move task (fun _ different => step.untouched different) moved ruined

theorem Fate.callStep_held (fate : Fate among s observed)
    (step : CallStep s next thread task call) (held : task ∈ (s.call thread).held)
    (moved : Located s task (.held (.call thread)) → ∃ target, Located next task target)
    (ruined : Ruined s task (.held (.call thread)) →
      ∃ target, Ruined next task target ∧ condition next target = .ruined) :
    Fate among next observed := by
  apply fate.callStep step
  · intro place located
    have here := located.counts.place_of_call held
    subst here
    exact moved located
  · intro place ruin
    have here := ruin.counts.place_of_call held
    subst here
    exact ruined ruin

theorem CallStep.headed {header : Task} {history : History}
    (before : ∀ name ∈ (s.call thread).subject, name = task)
    (after : ∀ name ∈ call.subject, name = task) :
    CallStep s (((s.setTask task header).record task history).setCall thread call)
      thread task call :=
  ⟨before, after, rfl, rfl, fun _ _ _ => rfl,
    fun _ different => Function.update_of_ne different _ _,
    fun _ different => Function.update_of_ne different _ _⟩

theorem CallStep.recorded {history : History}
    (before : ∀ name ∈ (s.call thread).subject, name = task)
    (after : ∀ name ∈ call.subject, name = task) :
    CallStep s ((s.record task history).setCall thread call) thread task call :=
  ⟨before, after, rfl, rfl, fun _ _ _ => rfl, fun _ _ => rfl,
    fun _ different => Function.update_of_ne different _ _⟩

theorem CallStep.plain (before : ∀ name ∈ (s.call thread).subject, name = task)
    (after : ∀ name ∈ call.subject, name = task) :
    CallStep s (s.setCall thread call) thread task call :=
  ⟨before, after, rfl, rfl, fun _ _ _ => rfl, fun _ _ => rfl, fun _ _ => rfl⟩

theorem CallStep.listed {list : ListId cfg} {tasks : List TaskRef}
    (before : ∀ name ∈ (s.call thread).subject, name = task)
    (after : ∀ name ∈ call.subject, name = task)
    (others : ∀ other, other ≠ task → tasks.count other = (s.lists list).count other) :
    CallStep s ((s.setList list tasks).setCall thread call) thread task call := by
  refine ⟨before, after, rfl, rfl, ?_, fun _ _ => rfl, fun _ _ => rfl⟩
  intro name other different
  by_cases same : name = list
  · subst same
    simpa using others other different
  · simp [same]

theorem Counts.not_in_call (counts : Counts s task place)
    (empty : (s.call thread).held = []) : place ≠ .held (.call thread) := by
  intro same
  subst same
  have once := counts (.call thread)
  simp [State.content, empty] at once

theorem Settled.carry (settled : Settled s task place) (frames : next.frame = s.frame)
    (calls : ∀ name, place = .held (.call name) → next.call name = s.call name)
    (header : next.tasks task = s.tasks task)
    (history : next.history task = s.history task) : Settled next task place := by
  cases place with
  | held holder =>
      cases holder with
      | call name =>
          simpa only [Settled, header, history, calls name rfl] using settled
      | list | frame => simpa only [Settled, header, history, frames] using settled
  | unborn | idle | retired | freed =>
      simpa only [Settled, header, history] using settled

theorem Wrecked.carry (wrecked : Wrecked s task place) (frames : next.frame = s.frame)
    (calls : ∀ name, place = .held (.call name) → next.call name = s.call name)
    (wakers : (next.history task).wakers = (s.history task).wakers) :
    Wrecked next task place := by
  cases place with
  | unborn | idle => exact wrecked.elim
  | retired | freed =>
      rw [Wrecked, wakers]
      exact wrecked
  | held holder =>
      cases holder with
      | list list => exact wrecked.elim
      | frame name =>
          rw [Wrecked, frames]
          cases frame : s.frame name <;> simp_all [Wrecked, Frame.Wrecked]
      | call name =>
          rw [Wrecked, calls name rfl]
          cases called : s.call name <;> simp_all [Wrecked, Call.Wrecked]

private theorem condition_of_frames (frames : next.frame = s.frame) (place : Place cfg) :
    condition next place = condition s place := by
  cases place with
  | unborn | idle | retired | freed => rfl
  | held holder => cases holder <;> simp only [condition, frames]

theorem CallStep.calls_away (step : CallStep s next thread task call)
    (away : place ≠ .held (.call thread)) (name : Fin cfg.threads)
    (here : place = .held (.call name)) : next.call name = s.call name := by
  have different : name ≠ thread := fun same => away (by rw [here, same])
  rw [step.calls, Function.update_of_ne different]

theorem Located.polling {worker : Fin cfg.threads} (located : Located s task place)
    (polls : (s.frame worker).polls task = true) :
    place = .held (.frame worker) ∧ s.frame worker = .polling task := by
  have frame := Frame.polls_held polls
  exact ⟨located.counts.place_of_frame (by simp [frame, Frame.held]), frame⟩

/-- A waker in use exists or was lent to a poll that still runs. -/
def Referenced (s : State cfg) (task : TaskRef) : Prop :=
  (s.history task).wakers ≠ [] ∨ ∃ worker, (s.frame worker).polls task = true

theorem State.available.referenced {via : Via cfg} (available : s.available task via) :
    Referenced s task := by
  cases via with
  | lent worker => exact Or.inr ⟨worker, available⟩
  | byRef waker | byValue waker => exact Or.inl (List.ne_nil_of_mem available.1)

/-- Only a task that is being unwound, or one that wakers keep, is still referred to. -/
theorem Ruined.owned (ruin : Ruined s task place) (referenced : Referenced s task) :
    (s.history task).wakers ≠ [] ∧
      (place = .retired ∨ ∃ worker name, place = .held (.frame worker) ∧
        s.frame worker = .unwinding name) := by
  have wrecked := ruin.wrecked
  rcases referenced with some | ⟨worker, polls⟩
  · refine ⟨some, ?_⟩
    cases place with
    | unborn | idle => exact wrecked.elim
    | retired => exact Or.inl rfl
    | freed => exact absurd wrecked some
    | held holder =>
        cases holder with
        | list list => exact wrecked.elim
        | frame worker =>
            rw [Wrecked] at wrecked
            cases frame : s.frame worker <;> rw [frame] at wrecked
            case unwinding name => exact Or.inr ⟨worker, name, rfl, frame⟩
            case deallocating => exact absurd wrecked some
            all_goals exact wrecked.elim
        | call worker =>
            rw [Wrecked] at wrecked
            cases called : s.call worker <;> rw [called] at wrecked
            case dealloc => exact absurd wrecked some
            all_goals exact wrecked.elim
  · have frame := Frame.polls_held polls
    have member : task ∈ (s.frame worker).held := by simp [frame, Frame.held]
    have here := ruin.counts.place_of_frame member
    subst here
    rw [Wrecked, frame] at wrecked
    exact wrecked.elim

theorem Ruined.rewaken (ruin : Ruined s task place) (referenced : Referenced s task)
    (frames : next.frame = s.frame)
    (retired : place = .retired → (next.history task).wakers ≠ []) :
    Wrecked next task place := by
  obtain ⟨_, rfl | ⟨worker, name, rfl, frame⟩⟩ := ruin.owned referenced
  · exact retired rfl
  · rw [Wrecked, frames, frame]
    exact trivial

theorem Referenced.ne_unborn (referenced : Referenced s task) (located : Located s task place) :
    place ≠ .unborn := by
  intro same
  subst same
  rcases referenced with some | ⟨worker, polls⟩
  · have blank : s.history task = {} := located.settled
    exact some (by rw [blank])
  · cases (located.polling polls).1

theorem Lifetime.rewaken {history : History} {drops deallocs : Nat} {released : Bool}
    (lifetime : Lifetime history drops released deallocs) (wakers : List Nat) :
    Lifetime { history with wakers := wakers } drops released deallocs :=
  ⟨lifetime.created, lifetime.drops_eq, lifetime.released_eq, lifetime.deallocs_eq⟩

theorem Lifetime.wokenSet {history : History} {drops deallocs : Nat} {released : Bool}
    (lifetime : Lifetime history drops released deallocs) (woken : Bool) :
    Lifetime { history with woken := woken } drops released deallocs :=
  ⟨lifetime.created, lifetime.drops_eq, lifetime.released_eq, lifetime.deallocs_eq⟩

theorem Live.rewaken {history : History} (live : Live history) (wakers : List Nat) :
    Live { history with wakers := wakers } :=
  ⟨live.1.rewaken wakers, live.2⟩

theorem Frame.Settled.rewaken {status : BitVec 8} {history : History} {frame : Frame}
    (settled : frame.Settled status history) (wakers : List Nat)
    (some : history.wakers ≠ [] ∨ ∃ name, frame.polls name = true) :
    frame.Settled status { history with wakers := wakers } := by
  cases frame with
  | stolen | popped | tearing | dropInPlace | cleared =>
      exact ⟨settled.1.rewaken wakers, settled.2⟩
  | polling | pending => exact ⟨settled.1.rewaken wakers, settled.2⟩
  | ready => exact ⟨settled.1.rewaken wakers, settled.2⟩
  | retiring | dropping | checkRc | releasing =>
      exact ⟨settled.1.rewaken wakers, settled.2⟩
  | deallocating =>
      rcases some with some | polls
      · exact absurd settled.2.2 some
      · obtain ⟨name, polls⟩ := polls
        cases polls
  | idle | dead | unwinding => exact settled

theorem Call.Settled.rewaken {status : BitVec 8} {history : History}
    (settled : call.Settled status history) (wakers : List Nat)
    (some : history.wakers ≠ []) :
    call.Settled status { history with wakers := wakers } := by
  cases call with
  | placing | push => exact ⟨settled.1.rewaken wakers, settled.2⟩
  | dealloc => exact absurd settled.2.2 some
  | none | wake | nextEpoch | rcDec | pushBatch => exact settled

theorem Located.rewaken {wakers : List Nat} (located : Located s task place)
    (referenced : Referenced s task) (frames : next.frame = s.frame)
    (calls : ∀ name, place = .held (.call name) → next.call name = s.call name)
    (status : (next.tasks task).status = (s.tasks task).status)
    (history : next.history task = { s.history task with wakers := wakers })
    (retired : place = .retired → wakers ≠ []) : Settled next task place := by
  have unborn := referenced.ne_unborn located
  have settled := located.settled
  cases place with
  | unborn => exact absurd rfl unborn
  | idle =>
      rw [Settled, status, history]
      exact ⟨settled.1.rewaken wakers, settled.2⟩
  | retired =>
      rw [Settled, status, history]
      exact ⟨settled.1.rewaken wakers, settled.2.1, retired rfl⟩
  | freed =>
      rcases referenced with some | ⟨worker, polls⟩
      · exact absurd settled.2.2 some
      · cases (located.polling polls).1
  | held holder =>
      cases holder with
      | list list =>
          rw [Settled, status, history]
          exact ⟨settled.1.rewaken wakers, settled.2⟩
      | frame thread =>
          rw [Settled, status, history, frames]
          apply settled.rewaken wakers
          rcases referenced with some | ⟨worker, polls⟩
          · exact Or.inl some
          · cases (located.polling polls).1
            exact Or.inr ⟨task, polls⟩
      | call thread =>
          rw [Settled, status, history, calls thread rfl]
          apply settled.rewaken wakers
          rcases referenced with some | ⟨worker, polls⟩
          · exact some
          · cases (located.polling polls).1

theorem Frame.Settled.wake {status : BitVec 8} {history : History} {frame : Frame}
    (settled : frame.Settled status history) :
    frame.Settled (Task.wakeStatus status) { history with woken := true } ∧
      Task.schedules status = false := by
  cases frame with
  | stolen | popped | tearing | dropInPlace =>
      exact ⟨⟨settled.1.wokenSet true, Task.wakeStatus_held settled.2.held⟩,
        Task.schedules_held settled.2.held⟩
  | cleared =>
      exact ⟨⟨settled.1.wokenSet true, Or.inr (Task.wakeStatus_held settled.2)⟩,
        Task.schedules_held settled.2⟩
  | polling | pending =>
      obtain ⟨live, held, _⟩ := settled
      exact ⟨⟨live.wokenSet true, Or.inr (Task.wakeStatus_held held),
        fun _ => Task.wakeStatus_held held⟩, Task.schedules_held held⟩
  | ready =>
      obtain ⟨lifetime, ready, held⟩ := settled
      exact ⟨⟨lifetime.wokenSet true, ready, Or.inr (Task.wakeStatus_held held)⟩,
        Task.schedules_held held⟩
  | retiring | dropping | checkRc | releasing =>
      exact ⟨⟨settled.1.wokenSet true, Task.wakeStatus_retired settled.2⟩,
        Task.schedules_retired settled.2⟩
  | deallocating =>
      exact ⟨⟨settled.1.wokenSet true, Task.wakeStatus_retired settled.2.1, settled.2.2⟩,
        Task.schedules_retired settled.2.1⟩
  | idle | dead | unwinding => exact settled.elim

theorem Call.Settled.wake {status : BitVec 8} {history : History}
    (settled : call.Settled status history) :
    call.Settled (Task.wakeStatus status) { history with woken := true } ∧
      Task.schedules status = false := by
  cases call with
  | placing | push =>
      exact ⟨⟨settled.1.wokenSet true, Task.wakeStatus_held settled.2.held⟩,
        Task.schedules_held settled.2.held⟩
  | dealloc =>
      exact ⟨⟨settled.1.wokenSet true, Task.wakeStatus_retired settled.2.1, settled.2.2⟩,
        Task.schedules_retired settled.2.1⟩
  | none | wake | nextEpoch | rcDec | pushBatch => exact settled.elim

/-- A wake of a task that is not idle marks it where it is. -/
theorem Located.wake (located : Located s task place) (unborn : place ≠ .unborn)
    (awake : place ≠ .idle) (frames : next.frame = s.frame)
    (calls : ∀ name, place = .held (.call name) → next.call name = s.call name)
    (status : (next.tasks task).status = Task.wakeStatus (s.tasks task).status)
    (history : next.history task = { s.history task with woken := true }) :
    Settled next task place ∧ Task.schedules (s.tasks task).status = false := by
  have settled := located.settled
  cases place with
  | unborn => exact absurd rfl unborn
  | idle => exact absurd rfl awake
  | retired | freed =>
      rw [Settled, status, history]
      exact ⟨⟨settled.1.wokenSet true, Task.wakeStatus_retired settled.2.1, settled.2.2⟩,
        Task.schedules_retired settled.2.1⟩
  | held holder =>
      cases holder with
      | list list =>
          rw [Settled, status, history]
          exact ⟨⟨settled.1.wokenSet true, Task.wakeStatus_held settled.2.held⟩,
            Task.schedules_held settled.2.held⟩
      | frame thread =>
          rw [Settled, status, history, frames]
          exact Frame.Settled.wake settled
      | call thread =>
          rw [Settled, status, history, calls thread rfl]
          exact Call.Settled.wake settled

theorem Settled.created (settled : Settled s task place) (unborn : place ≠ .unborn) :
    (s.history task).created = true := by
  cases place with
  | unborn => exact absurd rfl unborn
  | idle => exact settled.1.1.created
  | retired | freed => exact settled.1.created
  | held holder =>
      cases holder with
      | list list => exact settled.1.1.created
      | frame thread =>
          change (s.frame thread).Settled _ _ at settled
          cases frame : s.frame thread <;> rw [frame] at settled <;>
            first
            | exact settled.1.1.created
            | exact settled.1.created
            | exact settled.elim
      | call thread =>
          change (s.call thread).Settled _ _ at settled
          cases called : s.call thread <;> rw [called] at settled <;>
            first
            | exact settled.1.1.created
            | exact settled.1.created
            | exact settled.elim

theorem Fate.create {worker : WorkerId} {front : Bool} {maker : Maker}
    (fate : Fate among s observed)
    (taken : create s thread task worker front maker = some next) :
    Fate among next observed := by
  unfold TaskSystem.create at taken
  split at taken
  · rename_i idle
    split at taken
    · rename_i ready
      cases taken
      have step : CallStep s (((s.setTask task
          { status := Task.initialStatus, rc := 1, workerId := 0 }).record task
            { s.history task with created := true }).setCall thread
              (.placing task worker front maker)) thread task
          (.placing task worker front maker) :=
        .headed (by simp [idle, Call.subject]) (by simp [Call.subject])
      apply fate.callStep step
      case ruined =>
        intro place ruin
        have created := ruin.lifetime.created
        rw [ready.1] at created
        cases created
      intro place located
      have unborn : place = .unborn := by
        by_contra born
        have created := located.settled.created born
        rw [ready.1] at created
        cases created
      subst unborn
      have blank : s.history task = {} := located.settled
      refine ⟨.held (.call thread), step.counts_take rfl rfl (by simp) located.counts,
        ?_, ?_, ?_⟩
      · simp [Settled, Call.Settled, Live, Task.Scheduled, blank]
        exact ⟨rfl, rfl, rfl, rfl⟩
      · intro _born
        simp [runtimeRefs, blank]
      · exact step.borrows_same located.borrows (by simp)
          (Call.continues_silent (fun _ => rfl) (fun _ => rfl))
    · cases taken
  · cases taken

theorem Fate.placeTask (fate : Fate among s observed)
    (taken : TaskSystem.place s thread = some next) : Fate among next observed := by
  unfold TaskSystem.place at taken
  split at taken
  · rename_i task worker front maker called
    cases taken
    have step : CallStep s ((s.setList (.queue worker)
        (if front then task :: s.lists (.queue worker)
          else s.lists (.queue worker) ++ [task])).setCall thread .none) thread task .none := by
      refine .listed (by simp [called, Call.subject]) (by simp [Call.subject]) ?_
      intro other different
      cases front <;> simp [List.count_append, Ne.symm different]
    have member : task ∈ (s.call thread).held := by simp [called, Call.held]
    apply fate.callStep_held step member
    case ruined =>
      intro ruin
      have wrecked := ruin.wrecked
      rw [Wrecked, called] at wrecked
      exact wrecked.elim
    intro located
    have settled := located.settled
    simp only [Settled, called, Call.Settled] at settled
    refine ⟨.held (.list (.queue worker)), ?_, ?_, ?_, ?_⟩
    · refine step.counts_insert rfl ?_ ?_ located.counts
      · cases front <;> simp [List.count_append]
      · intro other different
        simp [different]
    · simpa [Settled] using settled
    · simpa using located.counted
    · exact step.borrows_same located.borrows rfl
        (Call.continues_silent (fun _ => rfl) (fun _ => rfl))
  · cases taken

theorem Fate.cloneWaker {via : Via cfg} {fresh : Nat} (fate : Fate among s observed)
    (taken : cloneWaker s thread task via fresh = some next) : Fate among next observed := by
  unfold TaskSystem.cloneWaker at taken
  split at taken
  · rename_i idle
    split at taken
    · rename_i ready
      cases taken
      have referenced := ready.1.referenced
      have step : CallStep s ((s.setTask task
          { s.tasks task with rc := (s.tasks task).rc + 1 }).record task
            { s.history task with wakers := fresh :: (s.history task).wakers })
          thread task .none := by
        refine ⟨by simp [idle, Call.subject], by simp [Call.subject], ?_, rfl,
          fun _ _ _ => rfl, fun _ different => Function.update_of_ne different _ _,
          fun _ different => Function.update_of_ne different _ _⟩
        rw [← idle, Function.update_eq_self]
        rfl
      have borrowed (borrows : Borrows s task) : Borrows ((s.setTask task
          { s.tasks task with rc := (s.tasks task).rc + 1 }).record task
            { s.history task with wakers := fresh :: (s.history task).wakers }) task := by
        refine step.borrows borrows ?_ (fun _ used => by cases used)
          (fun _ consumed => by cases consumed) (fun _ used => by cases used)
          (fun _ lent => by cases lent)
        intro other waker _different used
        rw [State.record_history, Function.update_self]
        exact List.mem_cons_of_mem _ (borrows.owned other waker used)
      apply fate.callStep step
      case ruined =>
        intro place ruin
        have counted := ruin.counted
        have fares := condition_of_frames step.frames place
        refine ⟨place, ⟨step.counts_same rfl (by rw [idle]) ruin.counts, ?_, ?_, ?_, ?_,
          borrowed ruin.borrows⟩, fares⟩
        · exact ruin.rewaken referenced rfl (fun _ => by simp)
        · simpa using ruin.lifetime.rewaken (fresh :: (s.history task).wakers)
        · simpa using ruin.held
        · rw [fares]
          simp only [State.record_tasks, State.setTask_tasks, State.record_history,
            Function.update_self, List.length_cons]
          omega
      intro place located
      have unborn := referenced.ne_unborn located
      have counted := located.counted unborn
      refine ⟨place, step.counts_same rfl (by rw [idle]) located.counts, ?_, ?_, ?_⟩
      · exact located.rewaken referenced rfl (fun _ _ => rfl) (by simp)
          (Function.update_self ..) (fun _ => List.cons_ne_nil _ _)
      · intro _born
        simp only [State.record_tasks, State.setTask_tasks, State.record_history,
          Function.update_self, List.length_cons, runtimeRefs] at counted ⊢
        omega
      · exact borrowed located.borrows
    · cases taken
  · cases taken

theorem CallStep.borrows_available {via : Via cfg}
    (step : CallStep s next thread task call) (borrows : Borrows s task)
    (wakers : (next.history task).wakers = (s.history task).wakers)
    (available : s.available task via)
    (uses : ∀ waker, call.uses task waker = true → via = .byRef waker ∨ via = .byValue waker)
    (consumes : ∀ waker, call.consumes task waker = true → via = .byValue waker)
    (lent : ∀ worker, call.lentBy task worker = true → via = .lent worker) :
    Borrows next task := by
  apply step.borrows borrows
  · intro other waker _different used
    rw [wakers]
    exact borrows.owned other waker used
  · intro waker used
    rw [wakers]
    rcases uses waker used with rfl | rfl
    · exact available.1
    · exact available.1
  · intro waker consumed other _different
    have same := consumes waker consumed
    subst same
    exact available.2 other
  · intro waker used other _different
    rcases uses waker used with rfl | rfl
    · exact available.2 other
    · cases consumed : (s.call other).consumes task waker with
      | false => rfl
      | true =>
          have unused := available.2 other
          rw [Call.consumes_uses consumed] at unused
          cases unused
  · intro worker lentAt
    have same := lent worker lentAt
    subst same
    exact available

theorem Fate.enter (fate : Fate among s observed) {via : Via cfg} (idle : s.call thread = .none)
    (subject : call.subject = [task]) (held : call.held = [])
    (available : s.available task via)
    (uses : ∀ waker, call.uses task waker = true → via = .byRef waker ∨ via = .byValue waker)
    (consumes : ∀ waker, call.consumes task waker = true → via = .byValue waker)
    (lent : ∀ worker, call.lentBy task worker = true → via = .lent worker) :
    Fate among (s.setCall thread call) observed := by
  have step : CallStep s (s.setCall thread call) thread task call :=
    .plain (by simp [idle, Call.subject]) (by simp [subject])
  have empty : (s.call thread).held = [] := by rw [idle]; rfl
  apply fate.callStep step
  case ruined =>
    intro place ruin
    have away := step.calls_away (ruin.counts.not_in_call empty)
    have fares := condition_of_frames step.frames place
    refine ⟨place, ⟨step.counts_same rfl (by rw [held, empty]) ruin.counts,
      ruin.wrecked.carry rfl away rfl, ruin.lifetime, ruin.held, ?_, ?_⟩, fares⟩
    · rw [fares]
      exact ruin.counted
    · exact step.borrows_available ruin.borrows rfl available uses consumes lent
  intro place located
  refine ⟨place, step.counts_same rfl (by rw [held, empty]) located.counts, ?_,
    located.counted, ?_⟩
  · exact located.settled.carry rfl (step.calls_away (located.counts.not_in_call empty)) rfl rfl
  · exact step.borrows_available located.borrows rfl available uses consumes lent

theorem Fate.wake {via : Via cfg} (fate : Fate among s observed)
    (taken : wake s thread task via = some next) : Fate among next observed := by
  unfold TaskSystem.wake at taken
  split at taken
  · rename_i idle
    split at taken
    · rename_i ready
      cases taken
      apply fate.enter idle rfl rfl ready.1
      · intro waker used
        cases via <;> simp_all [Call.uses]
      · intro waker consumed
        cases via <;> simp_all [Call.consumes]
      · intro worker lent
        cases via <;> simp_all [Call.lentBy]
    · cases taken
  · cases taken

theorem Fate.dropWaker {waker : Nat} (fate : Fate among s observed)
    (taken : dropWaker s thread task waker = some next) : Fate among next observed := by
  unfold TaskSystem.dropWaker at taken
  split at taken
  · rename_i idle
    split at taken
    · rename_i ready
      cases taken
      apply fate.enter idle rfl rfl ready.1
      · intro name used
        simp_all [Call.uses]
      · intro name consumed
        simp_all [Call.consumes]
      · exact fun worker lent => by cases lent
    · cases taken
  · cases taken

private theorem afterWake_held (via : Via cfg) : (afterWake task via).held = [] := by
  cases via <;> rfl

private theorem afterWake_subject (via : Via cfg) :
    ∀ name ∈ (afterWake task via).subject, name = task := by
  cases via <;> simp [afterWake, Call.subject]

theorem Borrows.referenced {via : Via cfg} (borrows : Borrows s task)
    (called : s.call thread = .wake task via) : Referenced s task := by
  cases via with
  | lent worker =>
      exact Or.inr ⟨worker, borrows.lent thread worker (by simp [called, Call.lentBy])⟩
  | byRef waker | byValue waker =>
      exact Or.inl (List.ne_nil_of_mem
        (borrows.owned thread waker (by simp [called, Call.uses])))

theorem Fate.wakeFetchOr (fate : Fate among s observed)
    (taken : wakeFetchOr s thread = some next) : Fate among next observed := by
  unfold TaskSystem.wakeFetchOr at taken
  split at taken
  · rename_i task via called
    cases taken
    have before : ∀ name ∈ (s.call thread).subject, name = task := by
      simp [called, Call.subject]
    have empty : (s.call thread).held = [] := by rw [called]; rfl
    have after : ∀ name ∈ (if Task.schedules (s.tasks task).status then Call.push task via
        else afterWake task via).subject, name = task := by
      split
      · simp [Call.subject]
      · exact afterWake_subject via
    have marking : CallStep s (((s.setStatus task
        (Task.wakeStatus (s.tasks task).status)).record task
          { s.history task with woken := true }).setCall thread (afterWake task via))
        thread task (afterWake task via) := .headed before (afterWake_subject via)
    have marked (borrows : Borrows s task) := marking.borrows_same borrows (by simp)
      (Call.continues_afterWake via (Or.inl called))
    apply fate.callStep (.headed before after)
    case ruined =>
      intro place ruin
      have away := marking.calls_away (ruin.counts.not_in_call empty)
      rw [Task.schedules_held ruin.held, if_neg Bool.false_ne_true]
      have fares := condition_of_frames marking.frames place
      refine ⟨place, ⟨marking.counts_same rfl (by rw [afterWake_held, empty]) ruin.counts,
        ruin.wrecked.carry rfl away (by simp), ?_, ?_, ?_, marked ruin.borrows⟩, fares⟩
      · simpa using ruin.lifetime.wokenSet true
      · simpa [Task.Held] using Or.inr (Task.wakeStatus_held ruin.held)
      · rw [fares]
        simpa using ruin.counted
    intro place located
    have unborn := (located.borrows.referenced called).ne_unborn located
    have counted := located.counted unborn
    by_cases idle : place = .idle
    · subst idle
      obtain ⟨live, status, _⟩ := located.settled
      have scheduling : Task.schedules (s.tasks task).status = true := by
        rw [status]
        exact Task.schedules_idle
      rw [if_pos scheduling] at after ⊢
      refine ⟨.held (.call thread), ?_, ?_, ?_, ?_⟩
      · exact CallStep.counts_take (.headed before after) rfl rfl (by simp) located.counts
      · simpa [Settled, Call.Settled, Task.Scheduled, status] using
          ⟨live.wokenSet true, Task.wakeStatus_idle⟩
      · intro _born
        simpa [runtimeRefs] using counted
      · refine CallStep.borrows_same (.headed before after) located.borrows (by simp) ?_
        rw [called]
        exact Call.continues_push via
    · have woken := located.wake unborn idle marking.frames
        (marking.calls_away (located.counts.not_in_call empty)) (by simp) (by simp)
      rw [woken.2]
      refine ⟨place, ?_, woken.1, ?_, marked located.borrows⟩
      · exact marking.counts_same rfl (by rw [afterWake_held, empty]) located.counts
      · intro _born
        simpa [runtimeRefs] using counted
  · cases taken

theorem Fate.insert {via : Via cfg} (fate : Fate among s observed)
    (called : s.call thread = .push task via)
    (list : ListId cfg) (held : call.held = [])
    (subject : ∀ name ∈ call.subject, name = task)
    (goes : Call.Continues task (.push task via) call) :
    Fate among ((s.setList list (s.lists list ++ [task])).setCall thread call) observed := by
  have step : CallStep s ((s.setList list (s.lists list ++ [task])).setCall thread call)
      thread task call := by
    refine .listed (by simp [called, Call.subject]) subject ?_
    intro other different
    simp [List.count_append, Ne.symm different]
  have member : task ∈ (s.call thread).held := by simp [called, Call.held]
  apply fate.callStep_held step member
  case ruined =>
    intro ruin
    have wrecked := ruin.wrecked
    rw [Wrecked, called] at wrecked
    exact wrecked.elim
  intro located
  have settled := located.settled
  simp only [Settled, called, Call.Settled] at settled
  refine ⟨.held (.list list), ?_, settled, ?_, ?_⟩
  · refine step.counts_insert held ?_ ?_ located.counts
    · simp [List.count_append]
    · intro other different
      simp [different]
  · exact fun _born => located.counted (by simp)
  · apply step.borrows_same located.borrows rfl
    rw [called]
    exact goes

theorem Fate.wakePush {misread : ListId cfg} (fate : Fate among s observed)
    (taken : wakePush s thread misread = some next) : Fate among next observed := by
  unfold TaskSystem.wakePush at taken
  split at taken
  · rename_i task via called
    have goes : Call.Continues task (.push task via) (afterWake task via) :=
      Call.continues_afterWake via (Or.inr (Or.inl rfl))
    split at taken
    · split at taken
      · cases taken
      · cases taken
        exact fate.insert called _ rfl (by simp [Call.subject]) (Call.continues_nextEpoch via)
    · cases taken
      exact fate.insert called _ (afterWake_held via) (afterWake_subject via) goes
    · cases taken
      exact fate.insert called _ (afterWake_held via) (afterWake_subject via) goes
  · cases taken

theorem Fate.wakeNextEpoch (fate : Fate among s observed)
    (taken : wakeNextEpoch s thread = some next) : Fate among next observed := by
  unfold TaskSystem.wakeNextEpoch at taken
  split at taken
  · rename_i task via called
    cases taken
    have empty : (s.call thread).held = [] := by rw [called]; rfl
    have step : CallStep s { s with
        call := Function.update s.call thread (afterWake task via)
        epochs := s.epochs + 1 } thread task (afterWake task via) :=
      ⟨by simp [called, Call.subject], afterWake_subject via, rfl, rfl, fun _ _ _ => rfl,
        fun _ _ => rfl, fun _ _ => rfl⟩
    have goes : Call.Continues task (s.call thread) (afterWake task via) :=
      Call.continues_afterWake via (Or.inr (Or.inr called))
    apply fate.callStep step
    case ruined =>
      intro place ruin
      have away := step.calls_away (ruin.counts.not_in_call empty)
      have fares := condition_of_frames step.frames place
      refine ⟨place, ⟨step.counts_same rfl (by rw [afterWake_held, empty]) ruin.counts,
        ruin.wrecked.carry rfl away rfl, ruin.lifetime, ruin.held, ?_,
        step.borrows_same ruin.borrows rfl goes⟩, fares⟩
      rw [fares]
      exact ruin.counted
    intro place located
    refine ⟨place, step.counts_same rfl (by rw [afterWake_held, empty]) located.counts, ?_,
      located.counted, ?_⟩
    · exact located.settled.carry rfl (step.calls_away (located.counts.not_in_call empty)) rfl rfl
    · exact step.borrows_same located.borrows rfl goes
  · cases taken

theorem Located.retired_of_last (located : Located s task place)
    (some : (s.history task).wakers ≠ []) (last : (s.tasks task).rc = 1)
    (unborn : place ≠ .unborn) : place = .retired ∧ (s.history task).wakers.length = 1 := by
  have counted := located.counted unborn
  have length : 0 < (s.history task).wakers.length := List.length_pos_iff.mpr some
  have released : (s.history task).released = true := by
    cases kept : (s.history task).released with
    | true => rfl
    | false =>
        rw [last, runtimeRefs, kept, if_neg Bool.false_ne_true] at counted
        omega
  rw [last, runtimeRefs, released, if_pos rfl] at counted
  refine ⟨?_, by omega⟩
  have settled := located.settled
  cases place with
  | unborn => exact absurd rfl unborn
  | retired => rfl
  | idle => rw [settled.1.1.released_eq] at released; cases released
  | freed => exact absurd settled.2.2 some
  | held holder =>
      cases holder with
      | list list => rw [settled.1.1.released_eq] at released; cases released
      | frame thread =>
          change (s.frame thread).Settled _ _ at settled
          cases frame : s.frame thread <;> rw [frame] at settled
          case deallocating => exact absurd settled.2.2 some
          case idle => exact settled.elim
          case dead => exact settled.elim
          case unwinding => exact settled.elim
          all_goals
            first
            | rw [settled.1.1.released_eq] at released; cases released
            | rw [settled.1.released_eq] at released; cases released
      | call thread =>
          change (s.call thread).Settled _ _ at settled
          cases called : s.call thread <;> rw [called] at settled
          case dealloc => exact absurd settled.2.2 some
          case placing => rw [settled.1.1.released_eq] at released; cases released
          case push => rw [settled.1.1.released_eq] at released; cases released
          all_goals exact settled.elim

/-- The wakers that the other calls go through outlive the one that ends. -/
theorem CallStep.borrows_ended {waker : Nat} (step : CallStep s next thread task call)
    (borrows : Borrows s task) (called : s.call thread = .rcDec task waker)
    (wakers : (next.history task).wakers = (s.history task).wakers.erase waker)
    (unused : ∀ name, call.uses task name = false)
    (unlent : ∀ worker, call.lentBy task worker = false) : Borrows next task := by
  apply step.borrows borrows
  · intro other name different used
    have unusedHere := borrows.exclusive thread other waker
      (by simp [called, Call.consumes]) different
    have apart : name ≠ waker := by
      intro same
      rw [same, unusedHere] at used
      cases used
    rw [wakers]
    exact (List.mem_erase_of_ne apart).mpr (borrows.owned other name used)
  · intro name used
    rw [unused name] at used
    cases used
  · intro name consumed
    have used := Call.consumes_uses consumed
    rw [unused name] at used
    cases used
  · intro name used
    rw [unused name] at used
    cases used
  · intro worker lent
    rw [unlent worker] at lent
    cases lent

section RcDec

variable {waker : Nat} (called : s.call thread = .rcDec task waker)

include called

theorem CallStep.rcDec (after : ∀ name ∈ call.subject, name = task) :
    CallStep s (((s.setTask task { s.tasks task with rc := (s.tasks task).rc - 1 }).record task
      { s.history task with wakers := (s.history task).wakers.erase waker }).setCall thread call)
      thread task call :=
  .headed (by simp [called, Call.subject]) after

theorem Borrows.owned_waker (borrows : Borrows s task) : waker ∈ (s.history task).wakers :=
  borrows.owned thread waker (by simp [called, Call.uses])

theorem Fate.rcDecLast (fate : Fate among s observed) (last : (s.tasks task).rc = 1) :
    Fate among (((s.setTask task { s.tasks task with rc := (s.tasks task).rc - 1 }).record task
      { s.history task with wakers := (s.history task).wakers.erase waker }).setCall thread
        (.dealloc task)) observed := by
  have step : CallStep s _ thread task (.dealloc task) :=
    CallStep.rcDec called (by simp [Call.subject])
  have ended (borrows : Borrows s task) := step.borrows_ended borrows called (by simp)
    (fun _ => rfl) (fun _ => rfl)
  apply fate.callStep step
  · intro place located
    have member := located.borrows.owned_waker called
    have some : (s.history task).wakers ≠ [] := List.ne_nil_of_mem member
    have unborn := Referenced.ne_unborn (Or.inl some) located
    obtain ⟨retired, single⟩ := located.retired_of_last some last unborn
    subst retired
    obtain ⟨lifetime, status, _⟩ := located.settled
    have gone : (s.history task).wakers.erase waker = [] :=
      List.eq_nil_of_length_eq_zero (by rw [List.length_erase_of_mem member, single])
    refine ⟨.held (.call thread), ?_, ?_, ?_, ended located.borrows⟩
    · exact step.counts_take rfl rfl (by simp) located.counts
    · simpa [Settled, Call.Settled, gone] using ⟨lifetime.rewaken [], status⟩
    · simp [runtimeRefs, lifetime.released_eq, last, gone]
  · intro place ruin
    have member := ruin.borrows.owned_waker called
    have length := List.length_pos_of_mem member
    have counted := ruin.counted
    obtain ⟨_, rfl | ⟨worker, name, rfl, frame⟩⟩ :=
      ruin.owned (Or.inl (List.ne_nil_of_mem member))
    · simp only [last, condition, Condition.owed] at counted
      have gone : (s.history task).wakers.erase waker = [] :=
        List.eq_nil_of_length_eq_zero (by rw [List.length_erase_of_mem member]; omega)
      refine ⟨.held (.call thread), ⟨step.counts_take rfl rfl (by simp) ruin.counts, ?_, ?_,
        by simpa using ruin.held, ?_, ended ruin.borrows⟩, rfl⟩
      · simp [Wrecked, Call.Wrecked, gone]
      · simpa [gone] using ruin.lifetime.rewaken []
      · simp [condition, Condition.owed, last, gone]
    · simp only [last, condition, frame, Frame.condition, Condition.owed] at counted
      omega

theorem Fate.rcDecMore (fate : Fate among s observed) (more : (s.tasks task).rc ≠ 1) :
    Fate among (((s.setTask task { s.tasks task with rc := (s.tasks task).rc - 1 }).record task
      { s.history task with wakers := (s.history task).wakers.erase waker }).setCall thread
        .none) observed := by
  have step : CallStep s _ thread task .none := CallStep.rcDec called (by simp [Call.subject])
  have empty : (s.call thread).held = [] := by rw [called]; rfl
  have ended (borrows : Borrows s task) := step.borrows_ended borrows called (by simp)
    (fun _ => rfl) (fun _ => rfl)
  apply fate.callStep step
  · intro place located
    have member := located.borrows.owned_waker called
    have shorter := List.length_erase_of_mem member
    have length := List.length_pos_of_mem member
    have referenced : Referenced s task := Or.inl (List.ne_nil_of_mem member)
    have counted := located.counted (referenced.ne_unborn located)
    have remains : place = .retired → (s.history task).wakers.erase waker ≠ [] := by
      intro retired gone
      subst retired
      rw [gone, List.length_nil] at shorter
      rw [runtimeRefs, located.settled.1.released_eq, if_pos rfl] at counted
      omega
    refine ⟨place, ?_, ?_, ?_, ended located.borrows⟩
    · exact step.counts_same rfl (by rw [empty]; rfl) located.counts
    · exact located.rewaken referenced rfl
        (step.calls_away (located.counts.not_in_call empty)) (by simp)
        (Function.update_self ..) remains
    · intro _born
      simp only [State.setCall_tasks, State.setCall_history, State.record_tasks,
        State.setTask_tasks, State.record_history, Function.update_self, shorter,
        runtimeRefs] at counted ⊢
      omega
  · intro place ruin
    have member := ruin.borrows.owned_waker called
    have shorter := List.length_erase_of_mem member
    have length := List.length_pos_of_mem member
    have counted := ruin.counted
    have remains : place = .retired → (s.history task).wakers.erase waker ≠ [] := by
      intro retired gone
      subst retired
      rw [gone, List.length_nil] at shorter
      simp only [condition, Condition.owed] at counted
      omega
    have fares := condition_of_frames step.frames place
    refine ⟨place, ⟨step.counts_same rfl (by rw [empty]; rfl) ruin.counts, ?_, ?_,
      by simpa using ruin.held, ?_, ended ruin.borrows⟩, fares⟩
    · exact ruin.rewaken (Or.inl (List.ne_nil_of_mem member)) rfl (by simpa using remains)
    · simpa using ruin.lifetime.rewaken ((s.history task).wakers.erase waker)
    · rw [fares]
      simp only [State.setCall_tasks, State.setCall_history, State.record_tasks,
        State.setTask_tasks, State.record_history, Function.update_self, shorter]
      omega

end RcDec

theorem Fate.rcDec (fate : Fate among s observed)
    (taken : rcDec s thread = some next) : Fate among next observed := by
  unfold TaskSystem.rcDec at taken
  split at taken
  · rename_i task waker called
    cases taken
    by_cases last : (s.tasks task).rc = 1
    · rw [if_pos last]
      exact fate.rcDecLast called last
    · rw [if_neg last]
      exact fate.rcDecMore called last
  · cases taken

theorem Fate.callDealloc (fate : Fate among s observed)
    (taken : callDealloc s thread = some next) : Fate among next observed := by
  unfold TaskSystem.callDealloc at taken
  split at taken
  · rename_i task called
    cases taken
    have step : CallStep s ((s.record task
        { s.history task with deallocs := (s.history task).deallocs + 1 }).setCall thread
          .none) thread task .none :=
      .recorded (by simp [called, Call.subject]) (by simp [Call.subject])
    have member : task ∈ (s.call thread).held := by simp [called, Call.held]
    have dropped (borrows : Borrows s task) := step.borrows_same borrows (by simp)
      (Call.continues_silent (fun _ => rfl) (fun _ => rfl))
    apply fate.callStep_held step member
    case ruined =>
      intro ruin
      obtain ⟨counts, none, lifetime, held, counted, borrows⟩ := ruin
      simp only [Wrecked, called, Call.Wrecked] at none
      have life : Lifetime { s.history task with deallocs := (s.history task).deallocs + 1 }
          0 false 1 :=
        ⟨lifetime.created, lifetime.drops_eq, lifetime.released_eq,
          congrArg (· + 1) lifetime.deallocs_eq⟩
      refine ⟨.freed, ⟨step.counts_drop rfl rfl (by simp) counts, by simpa [Wrecked] using none,
        by simpa using life, by simpa using held, ?_, dropped borrows⟩, rfl⟩
      simpa [condition] using counted
    intro located
    have settled := located.settled
    simp only [Settled, called, Call.Settled] at settled
    obtain ⟨lifetime, status, none⟩ := settled
    have life : Lifetime { s.history task with deallocs := (s.history task).deallocs + 1 }
        1 true 1 :=
      ⟨lifetime.created, lifetime.drops_eq, lifetime.released_eq,
        congrArg (· + 1) lifetime.deallocs_eq⟩
    refine ⟨.freed, step.counts_drop rfl rfl (by simp) located.counts, ?_, ?_, ?_⟩
    · simpa [Settled] using ⟨life, status, none⟩
    · simpa [runtimeRefs] using located.counted
    · exact dropped located.borrows
  · cases taken

end Yaay.TaskSystem
