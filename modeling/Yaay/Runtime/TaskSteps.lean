import Yaay.Runtime.TaskPlaces

set_option autoImplicit false

/-! Every step of the task system moves at most the tasks that it names, so that
each task keeps having a place. -/

namespace Yaay.TaskSystem

variable {among : Condition → Prop} {cfg : Config} {s next : State cfg} {task observed : TaskRef}
  {place : Place cfg}

@[simp] theorem setFrame_content (thread : Fin cfg.threads) (frame : Frame)
    (holder : Holder cfg) :
    (s.setFrame thread frame).content holder =
      if holder = .frame thread then frame.held else s.content holder := by
  cases holder with
  | frame other =>
      by_cases same : other = thread
      · subst same
        simp [State.content]
      · simp [State.content, same]
  | list | call => simp [State.content]

@[simp] theorem setCall_content (thread : Fin cfg.threads) (call : Call cfg)
    (holder : Holder cfg) :
    (s.setCall thread call).content holder =
      if holder = .call thread then call.held else s.content holder := by
  cases holder with
  | call other =>
      by_cases same : other = thread
      · subst same
        simp [State.content]
      · simp [State.content, same]
  | list | frame => simp [State.content]

@[simp] theorem setList_content (list : ListId cfg) (tasks : List TaskRef)
    (holder : Holder cfg) :
    (s.setList list tasks).content holder =
      if holder = .list list then tasks else s.content holder := by
  cases holder with
  | list other =>
      by_cases same : other = list
      · subst same
        simp [State.content]
      · simp [State.content, same]
  | frame | call => simp [State.content]

@[simp] theorem setTask_content (name : TaskRef) (header : Task) (holder : Holder cfg) :
    (s.setTask name header).content holder = s.content holder := by
  cases holder <;> rfl

@[simp] theorem record_content (name : TaskRef) (history : History)
    (holder : Holder cfg) :
    (s.record name history).content holder = s.content holder := by
  cases holder <;> rfl

theorem untouched_setFrame (thread : Fin cfg.threads) (frame : Frame)
    (before : task ∉ (s.frame thread).held) (after : task ∉ frame.held) :
    Untouched s (s.setFrame thread frame) task := by
  refine ⟨?_, rfl, rfl, ?_, fun _ => Or.inl rfl⟩
  · intro holder
    rw [setFrame_content]
    by_cases same : holder = .frame thread
    · subst same
      rw [if_pos rfl, List.count_eq_zero.mpr after]
      exact (List.count_eq_zero.mpr before).symm
    · rw [if_neg same]
  · intro other member
    have different : other ≠ thread := fun same => before (same ▸ member)
    simp [different]

theorem untouched_setCall (thread : Fin cfg.threads) (call : Call cfg)
    (before : task ∉ (s.call thread).subject) (after : task ∉ call.subject) :
    Untouched s (s.setCall thread call) task := by
  refine ⟨?_, rfl, rfl, fun _ _ => rfl, ?_⟩
  · intro holder
    rw [setCall_content]
    by_cases same : holder = .call thread
    · subst same
      rw [if_pos rfl, List.count_eq_zero.mpr (Call.held_subject after)]
      exact (List.count_eq_zero.mpr (Call.held_subject before)).symm
    · rw [if_neg same]
  · intro other
    by_cases same : other = thread
    · subst same
      right
      simpa using ⟨before, after⟩
    · left
      simp [same]

theorem untouched_setList (list : ListId cfg) (tasks : List TaskRef)
    (same : tasks.count task = (s.lists list).count task) :
    Untouched s (s.setList list tasks) task := by
  refine ⟨?_, rfl, rfl, fun _ _ => rfl, fun _ => Or.inl rfl⟩
  intro holder
  rw [setList_content]
  by_cases here : holder = .list list
  · subst here
    rw [if_pos rfl, same]
    rfl
  · rw [if_neg here]

theorem Counts.transfer {target : Place cfg} (counts : Counts s task place)
    (kept : ∀ holder, place ≠ .held holder → target ≠ .held holder →
      (next.content holder).count task = (s.content holder).count task)
    (left : ∀ holder, place = .held holder → target ≠ .held holder →
      (next.content holder).count task = 0)
    (entered : ∀ holder, target = .held holder →
      (next.content holder).count task = 1) : Counts next task target := by
  intro holder
  by_cases there : target = .held holder
  · rw [if_pos there, entered holder there]
  · rw [if_neg there]
    by_cases here : place = .held holder
    · exact left holder here there
    · rw [kept holder here there, counts holder, if_neg here]

theorem Frame.held_eq {frame : Frame} (member : task ∈ frame.held) :
    frame.held = [task] := by
  cases frame <;> simp_all [Frame.held]

structure FrameStep (s next : State cfg) (thread : Fin cfg.threads) (task : TaskRef)
    (frame : Frame) : Prop where
  member : task ∈ (s.frame thread).held
  frames : next.frame = Function.update s.frame thread frame
  lists : next.lists = s.lists
  calls : next.call = s.call
  tasks : ∀ other, other ≠ task → next.tasks other = s.tasks other
  history : ∀ other, other ≠ task → next.history other = s.history other
  wakers : (next.history task).wakers = (s.history task).wakers
  returned : (s.frame thread).polls task = true →
    ∀ other, (s.call other).lentBy task thread = false

/-- Where the task goes with the new frame: it stays there or is let go. -/
def Frame.Target (thread : Fin cfg.threads) (frame : Frame) (task : TaskRef)
    (target : Place cfg) : Prop :=
  (frame.held = [task] ∧ target = .held (.frame thread)) ∨
    (frame.held = [] ∧ ∀ holder, target ≠ .held holder)

theorem FrameStep.untouched {thread : Fin cfg.threads} {frame : Frame}
    (step : FrameStep s next thread task frame) (within : ∀ name ∈ frame.held, name = task)
    {other : TaskRef} (different : other ≠ task) : Untouched s next other := by
  have before : other ∉ (s.frame thread).held := by
    rw [Frame.held_eq step.member]
    exact fun member => different (List.mem_singleton.mp member)
  have after : other ∉ frame.held := fun member => different (within other member)
  have framed := untouched_setFrame thread frame before after
  refine ⟨?_, step.tasks other different, step.history other different, ?_, ?_⟩
  · intro holder
    have same : next.content holder = (s.setFrame thread frame).content holder := by
      cases holder <;> simp [State.content, step.frames, step.lists, step.calls]
    rw [same]
    exact framed.counts holder
  · intro name member
    rw [step.frames]
    exact framed.frames name member
  · intro name
    exact Or.inl (congrFun step.calls name)

theorem FrameStep.counts {thread : Fin cfg.threads} {frame : Frame}
    {target : Place cfg} (step : FrameStep s next thread task frame)
    (counts : Counts s task place) (aimed : frame.Target thread task target) :
    Counts next task target := by
  have here := counts.place_of_frame step.member
  subst here
  have content (holder : Holder cfg) :
      next.content holder =
        if holder = .frame thread then frame.held else s.content holder := by
    rw [← setFrame_content]
    cases holder <;> simp [State.content, step.frames, step.lists, step.calls]
  rcases aimed with ⟨held, rfl⟩ | ⟨held, free⟩
  · apply counts.transfer
    · intro holder away _
      rw [content, if_neg (fun same => away (by rw [same]))]
    · intro holder here away
      exact absurd here away
    · intro holder here
      cases here
      rw [content, if_pos rfl, held, List.count_singleton_self]
  · apply counts.transfer
    · intro holder away _
      rw [content, if_neg (fun same => away (by rw [same]))]
    · intro holder here _
      cases here
      rw [content, if_pos rfl, held, List.count_nil]
    · intro holder here
      exact absurd here (free holder)

theorem FrameStep.borrows {thread : Fin cfg.threads} {frame : Frame}
    (step : FrameStep s next thread task frame) (borrows : Borrows s task) :
    Borrows next task := by
  constructor
  · intro name waker used
    rw [step.calls] at used
    rw [step.wakers]
    exact borrows.owned name waker used
  · intro name other waker consumed different
    rw [step.calls] at consumed ⊢
    exact borrows.exclusive name other waker consumed different
  · intro name worker lent
    rw [step.calls] at lent
    have polls := borrows.lent name worker lent
    have different : worker ≠ thread := by
      intro same
      subst same
      rw [step.returned polls name] at lent
      cases lent
    rw [step.frames, Function.update_of_ne different]
    exact polls

theorem Frame.Target.within {thread : Fin cfg.threads} {frame : Frame}
    {target : Place cfg} (aimed : frame.Target thread task target) :
    ∀ name ∈ frame.held, name = task := by
  intro name member
  rcases aimed with ⟨held, _⟩ | ⟨held, _⟩
  · rw [held] at member
    exact List.mem_singleton.mp member
  · rw [held] at member
    cases member

theorem FrameStep.located {thread : Fin cfg.threads} {frame : Frame} {target : Place cfg}
    (step : FrameStep s next thread task frame) (aimed : frame.Target thread task target)
    (located : Located s task (.held (.frame thread)))
    (kept : (s.frame thread).Settled (s.tasks task).status (s.history task) →
      (s.tasks task).rc = runtimeRefs (s.history task) + (s.history task).wakers.length →
      Settled next task target ∧
        (next.tasks task).rc =
          runtimeRefs (next.history task) + (next.history task).wakers.length) :
    Located next task target := by
  have counted := located.counted (fun impossible => by cases impossible)
  obtain ⟨settled, again⟩ := kept located.settled counted
  exact ⟨step.counts located.counts aimed, settled, fun _ => again, step.borrows located.borrows⟩

theorem Fate.frameMove (fate : Fate among s observed) {thread : Fin cfg.threads} {frame : Frame}
    (step : FrameStep s next thread task frame) (within : ∀ name ∈ frame.held, name = task)
    (moved : Located s task (.held (.frame thread)) → ∃ target, Located next task target)
    (ruined : Ruined s task (.held (.frame thread)) →
      ∃ target, Ruined next task target ∧
        condition next target = condition s (.held (.frame thread))) :
    Fate among next observed := by
  apply fate.move task (fun other different => step.untouched within different)
  · intro place located
    have here := located.counts.place_of_frame step.member
    subst here
    exact moved located
  · intro place ruin
    have here := ruin.counts.place_of_frame step.member
    subst here
    exact ruined ruin

/-- The rule for every step of a thread on the task in its frame, the unwinding and the
deallocation apart. -/
theorem Fate.frameStep (fate : Fate among s observed) {thread : Fin cfg.threads} {frame : Frame}
    {target : Place cfg} (step : FrameStep s next thread task frame)
    (aimed : frame.Target thread task target)
    (intact : ¬ (s.frame thread).Wrecked (s.history task))
    (kept : (s.frame thread).Settled (s.tasks task).status (s.history task) →
      (s.tasks task).rc = runtimeRefs (s.history task) + (s.history task).wakers.length →
      Settled next task target ∧
        (next.tasks task).rc =
          runtimeRefs (next.history task) + (next.history task).wakers.length) :
    Fate among next observed := by
  apply fate.frameMove step aimed.within
  · exact fun located => ⟨target, step.located aimed located kept⟩
  · exact fun ruin => absurd ruin.wrecked intact

section FrameSteps

variable {thread : Fin cfg.threads} {frame : Frame}

theorem FrameStep.plain (member : task ∈ (s.frame thread).held)
    (returned : (s.frame thread).polls task = true →
      ∀ other, (s.call other).lentBy task thread = false) :
    FrameStep s (s.setFrame thread frame) thread task frame :=
  ⟨member, rfl, rfl, rfl, fun _ _ => rfl, fun _ _ => rfl, rfl, returned⟩

theorem FrameStep.header {header : Task} (member : task ∈ (s.frame thread).held)
    (returned : (s.frame thread).polls task = true →
      ∀ other, (s.call other).lentBy task thread = false) :
    FrameStep s ((s.setTask task header).setFrame thread frame) thread task frame :=
  ⟨member, rfl, rfl, rfl, fun _ different => Function.update_of_ne different _ _,
    fun _ _ => rfl, rfl, returned⟩

theorem FrameStep.recorded {history : History} (member : task ∈ (s.frame thread).held)
    (wakers : history.wakers = (s.history task).wakers)
    (returned : (s.frame thread).polls task = true →
      ∀ other, (s.call other).lentBy task thread = false) :
    FrameStep s ((s.record task history).setFrame thread frame) thread task frame :=
  ⟨member, rfl, rfl, rfl, fun _ _ => rfl,
    fun _ different => Function.update_of_ne different _ _, by simpa using wakers, returned⟩

theorem FrameStep.both {header : Task} {history : History}
    (member : task ∈ (s.frame thread).held)
    (wakers : history.wakers = (s.history task).wakers)
    (returned : (s.frame thread).polls task = true →
      ∀ other, (s.call other).lentBy task thread = false) :
    FrameStep s (((s.setTask task header).record task history).setFrame thread frame)
      thread task frame :=
  ⟨member, rfl, rfl, rfl, fun _ different => Function.update_of_ne different _ _,
    fun _ different => Function.update_of_ne different _ _, by simpa using wakers, returned⟩

theorem Frame.polls_of_ne (other : ∀ name, frame ≠ .polling name) {conclusion : Prop}
    (polls : frame.polls task = true) : conclusion :=
  absurd (Frame.polls_held polls) (other task)

theorem Fate.setWorkerId (fate : Fate among s observed)
    (taken : setWorkerId s thread = some next) : Fate among next observed := by
  unfold TaskSystem.setWorkerId at taken
  split at taken
  · rename_i own task slot frame
    cases taken
    refine fate.frameStep (.header (by simp [frame, Frame.held])
      (Frame.polls_of_ne (by simp [frame]))) (Or.inl ⟨rfl, rfl⟩)
      (by simp [frame, Frame.Wrecked]) ?_
    intro settled counted
    rw [frame] at settled
    exact ⟨by simpa [Settled, Frame.Settled] using settled, by simpa using counted⟩
  · cases taken

theorem Fate.clearNotified (fate : Fate among s observed)
    (taken : clearNotified s thread = some next) : Fate among next observed := by
  unfold TaskSystem.clearNotified at taken
  split at taken
  · rename_i task frame
    cases taken
    refine fate.frameStep (.header (by simp [frame, Frame.held])
      (Frame.polls_of_ne (by simp [frame]))) (Or.inl ⟨rfl, rfl⟩)
      (by simp [frame, Frame.Wrecked]) ?_
    intro settled counted
    rw [frame] at settled
    have cleared := Task.clearNotified_held settled.2.held
    exact ⟨by simpa [Settled, Frame.Settled, cleared] using ⟨settled.1, Or.inl rfl⟩,
      by simpa using counted⟩
  · cases taken

theorem Live.wokenSet {history : History} (live : Live history) (woken : Bool) :
    Live { history with woken := woken } :=
  ⟨⟨live.1.created, live.1.drops_eq, live.1.released_eq, live.1.deallocs_eq⟩, live.2⟩

theorem Fate.callPoll (fate : Fate among s observed)
    (taken : callPoll s thread = some next) : Fate among next observed := by
  unfold TaskSystem.callPoll at taken
  split at taken
  · rename_i task frame
    cases taken
    refine fate.frameStep (.recorded (by simp [frame, Frame.held]) rfl
      (Frame.polls_of_ne (by simp [frame]))) (Or.inl ⟨rfl, rfl⟩)
      (by simp [frame, Frame.Wrecked]) ?_
    intro settled counted
    rw [frame] at settled
    refine ⟨?_, by simpa [runtimeRefs] using counted⟩
    simpa [Settled, Frame.Settled] using ⟨settled.1.wokenSet false, settled.2⟩
  · cases taken

theorem Fate.pollReturn {ready : Bool} (fate : Fate among s observed)
    (taken : pollReturn s thread ready = some next) : Fate among next observed := by
  unfold TaskSystem.pollReturn at taken
  split at taken
  · rename_i task frame call
    split at taken
    · rename_i returned
      cases ready with
      | true =>
          cases taken
          refine fate.frameStep (.recorded (by simp [frame, Frame.held]) rfl
            (fun _ => returned)) (Or.inl ⟨rfl, rfl⟩)
            (by simp [frame, Frame.Wrecked]) ?_
          intro settled counted
          rw [frame] at settled
          obtain ⟨live, held, _⟩ := settled
          refine ⟨?_, by simpa [runtimeRefs] using counted⟩
          have lifetime : Lifetime { s.history task with ready := true } 0 false 0 :=
            ⟨live.1.created, live.1.drops_eq, live.1.released_eq, live.1.deallocs_eq⟩
          simpa [Settled, Frame.Settled] using ⟨lifetime, held⟩
      | false =>
          cases taken
          refine fate.frameStep (.plain (by simp [frame, Frame.held])
            (fun _ => returned)) (Or.inl ⟨rfl, rfl⟩)
            (by simp [frame, Frame.Wrecked]) ?_
          intro settled counted
          rw [frame] at settled
          exact ⟨by simpa [Settled, Frame.Settled] using settled, counted⟩
    · cases taken
  · cases taken

theorem Fate.compareExchangeWeak {spurious : Bool} (fate : Fate among s observed)
    (taken : compareExchangeWeak s thread spurious = some next) : Fate among next observed := by
  unfold TaskSystem.compareExchangeWeak at taken
  split at taken
  · rename_i task prev frame
    have member : task ∈ (s.frame thread).held := by simp [frame, Frame.held]
    split at taken
    · rename_i success
      split at taken
      · rename_i quiet
        cases taken
        refine fate.frameStep (.header member (Frame.polls_of_ne (by simp [frame])))
          (show Frame.Target thread .idle task .idle from Or.inr ⟨rfl, by simp⟩)
          (by simp [frame, Frame.Wrecked]) ?_
        intro settled counted
        rw [frame] at settled
        obtain ⟨live, _, woken⟩ := settled
        have unwoken : (s.history task).woken = false := by
          cases wokenAt : (s.history task).woken with
          | false => rfl
          | true =>
              have scheduled : (s.tasks task).status = Task.initialStatus := woken wokenAt
              rw [success.1, quiet] at scheduled
              exact absurd scheduled.symm Task.initialStatus_ne_muted
        exact ⟨by simpa [Settled, Task.idleStatus] using ⟨live, unwoken⟩,
          by simpa using counted⟩
      · cases taken
        refine fate.frameStep (.header member (Frame.polls_of_ne (by simp [frame])))
          (Or.inl ⟨rfl, rfl⟩)
          (by simp [frame, Frame.Wrecked]) ?_
        intro settled counted
        rw [frame] at settled
        exact ⟨by simpa [Settled, Frame.Settled, Task.Held] using settled.1,
          by simpa using counted⟩
    · cases taken
      refine fate.frameStep (.plain member (Frame.polls_of_ne (by simp [frame])))
        (Or.inl ⟨rfl, rfl⟩)
        (by simp [frame, Frame.Wrecked]) ?_
      intro settled counted
      rw [frame] at settled
      exact ⟨by simpa [Settled, Frame.Settled] using settled, counted⟩
  · cases taken

theorem Fate.setDropped (fate : Fate among s observed)
    (taken : setDropped s thread = some next) : Fate among next observed := by
  unfold TaskSystem.setDropped at taken
  split at taken
  · rename_i task frame
    cases taken
    refine fate.frameStep (.header (by simp [frame, Frame.held])
      (Frame.polls_of_ne (by simp [frame]))) (Or.inl ⟨rfl, rfl⟩)
      (by simp [frame, Frame.Wrecked]) ?_
    intro settled counted
    rw [frame] at settled
    obtain ⟨lifetime, _, held⟩ := settled
    exact ⟨by simpa [Settled, Frame.Settled] using ⟨lifetime, Task.setDropped_held held⟩,
      by simpa using counted⟩
  · cases taken

theorem Fate.callDropInPlace (fate : Fate among s observed)
    (taken : callDropInPlace s thread = some next) : Fate among next observed := by
  unfold TaskSystem.callDropInPlace at taken
  split at taken
  · rename_i task teardown frame
    cases taken
    refine fate.frameStep (.recorded (by simp [frame, Frame.held]) rfl
      (Frame.polls_of_ne (by simp [frame]))) (Or.inl ⟨rfl, rfl⟩)
      (by simp [frame, Frame.Wrecked]) ?_
    intro settled counted
    rw [frame] at settled
    obtain ⟨lifetime, retired⟩ := settled
    have once : Lifetime { s.history task with drops := (s.history task).drops + 1 }
        1 false 0 :=
      ⟨lifetime.created, congrArg (· + 1) lifetime.drops_eq, lifetime.released_eq,
        lifetime.deallocs_eq⟩
    exact ⟨by simpa [Settled, Frame.Settled] using ⟨once, retired⟩,
      by simpa [runtimeRefs] using counted⟩
  · cases taken

theorem Fate.dropReturn (fate : Fate among s observed)
    (taken : dropReturn s thread = some next) : Fate among next observed := by
  unfold TaskSystem.dropReturn at taken
  split at taken
  · rename_i task teardown frame call
    cases taken
    have member : task ∈ (s.frame thread).held := by simp [frame, Frame.held]
    have pollsNot : (s.frame thread).polls task = true →
        ∀ other, (s.call other).lentBy task thread = false :=
      Frame.polls_of_ne (by simp [frame])
    refine fate.frameStep (.plain member pollsNot)
      (show Frame.Target thread _ task (.held (.frame thread)) from ?_)
      (by simp [frame, Frame.Wrecked]) ?_
    · cases teardown <;> exact Or.inl ⟨rfl, rfl⟩
    · intro settled counted
      rw [frame] at settled
      refine ⟨?_, counted⟩
      cases teardown <;> simpa [Settled, Frame.Settled] using settled
  · cases taken

theorem Fate.release (fate : Fate among s observed)
    (taken : release s thread = some next) : Fate among next observed := by
  unfold TaskSystem.release at taken
  split at taken
  · rename_i task frame
    cases taken
    have member : task ∈ (s.frame thread).held := by simp [frame, Frame.held]
    have pollsNot : (s.frame thread).polls task = true →
        ∀ other, (s.call other).lentBy task thread = false :=
      Frame.polls_of_ne (by simp [frame])
    have free : Lifetime (s.history task) 1 false 0 →
        Lifetime { s.history task with released := true } 1 true 0 := fun lifetime =>
      ⟨lifetime.created, lifetime.drops_eq, rfl, lifetime.deallocs_eq⟩
    by_cases last : (s.tasks task).rc = 1
    · rw [if_pos last]
      refine fate.frameStep (.both member rfl pollsNot) (Or.inl ⟨rfl, rfl⟩)
        (by simp [frame, Frame.Wrecked]) ?_
      intro settled counted
      rw [frame] at settled
      obtain ⟨lifetime, retired⟩ := settled
      have none : (s.history task).wakers = [] := by
        simp only [runtimeRefs, lifetime.released_eq, last] at counted
        simpa using counted
      exact ⟨by simpa [Settled, Frame.Settled] using ⟨free lifetime, retired, none⟩,
        by simp [runtimeRefs, last, none]⟩
    · rw [if_neg last]
      refine fate.frameStep (.both member rfl pollsNot)
        (show Frame.Target thread .idle task .retired from Or.inr ⟨rfl, by simp⟩)
        (by simp [frame, Frame.Wrecked]) ?_
      intro settled counted
      rw [frame] at settled
      obtain ⟨lifetime, retired⟩ := settled
      simp only [runtimeRefs, lifetime.released_eq] at counted
      have some : (s.history task).wakers ≠ [] := by
        intro none
        rw [none] at counted
        exact last counted
      exact ⟨by simpa [Settled] using ⟨free lifetime, retired, some⟩,
        by simp [runtimeRefs, counted]⟩
  · cases taken

theorem Fate.fnDealloc (fate : Fate among s observed)
    (taken : fnDealloc s thread = some next) : Fate among next observed := by
  unfold TaskSystem.fnDealloc at taken
  split at taken
  · rename_i task unwound frame
    cases taken
    have step : FrameStep s ((s.record task
        { s.history task with deallocs := (s.history task).deallocs + 1 }).setFrame thread
          (if unwound then .dead else .idle)) thread task (if unwound then .dead else .idle) :=
      .recorded (by simp [frame, Frame.held]) rfl (Frame.polls_of_ne (by simp [frame]))
    have aimed : Frame.Target thread (if unwound then .dead else .idle) task .freed := by
      cases unwound <;> exact Or.inr ⟨rfl, by simp⟩
    apply fate.frameMove step aimed.within
    · intro located
      refine ⟨.freed, step.located aimed located ?_⟩
      intro settled counted
      rw [frame] at settled
      obtain ⟨lifetime, retired, none⟩ := settled
      have life : Lifetime { s.history task with deallocs := (s.history task).deallocs + 1 }
          1 true 1 :=
        ⟨lifetime.created, lifetime.drops_eq, lifetime.released_eq,
          congrArg (· + 1) lifetime.deallocs_eq⟩
      exact ⟨by simpa [Settled] using ⟨life, retired, none⟩,
        by simpa [runtimeRefs] using counted⟩
    · intro ruin
      obtain ⟨counts, none, lifetime, held, counted, borrows⟩ := ruin
      simp only [Wrecked, frame, Frame.Wrecked] at none
      simp only [condition, frame, Frame.condition] at counted ⊢
      refine ⟨.freed, ⟨step.counts counts aimed, by simpa [Wrecked] using none, ?_,
        by simpa using held, by simpa [condition] using counted, step.borrows borrows⟩, rfl⟩
      have life : Lifetime { s.history task with deallocs := (s.history task).deallocs + 1 }
          0 false 1 :=
        ⟨lifetime.created, lifetime.drops_eq, lifetime.released_eq,
          congrArg (· + 1) lifetime.deallocs_eq⟩
      simpa using life
  · cases taken

theorem Fate.pollPanic (fate : Fate among s observed)
    (breaks : among .whole → among .unwinding)
    (taken : pollPanic s thread = some next) : Fate among next observed := by
  unfold TaskSystem.pollPanic at taken
  split at taken
  · rename_i task frame call
    split at taken
    · rename_i returned
      cases taken
      have step : FrameStep s (s.setFrame thread (.unwinding task)) thread task
          (.unwinding task) :=
        .plain (by simp [frame, Frame.held]) (fun _ => returned)
      have aimed : Frame.Target thread (.unwinding task) task (.held (.frame thread)) :=
        Or.inl ⟨rfl, rfl⟩
      by_cases same : observed = task
      · subst same
        cases fate with
        | ruined place _ ruin =>
            have here := ruin.counts.place_of_frame step.member
            subst here
            have wrecked := ruin.wrecked
            rw [Wrecked, frame] at wrecked
            exact wrecked.elim
        | placed place whole located =>
            have here := located.counts.place_of_frame step.member
            subst here
            have settled := located.settled
            rw [Settled, frame] at settled
            have counted := located.counted (fun impossible => by cases impossible)
            rw [runtimeRefs, settled.1.1.released_eq] at counted
            have unwinding : condition (s.setFrame thread (.unwinding observed))
                (.held (.frame thread)) = .unwinding := by
              simp [condition, Frame.condition]
            refine .ruined (.held (.frame thread)) ?_ ⟨step.counts located.counts aimed, ?_,
              settled.1.1, settled.2.1, ?_, step.borrows located.borrows⟩
            · rw [unwinding]
              exact breaks whole
            · simp [Wrecked, Frame.Wrecked]
            · rw [unwinding]
              exact counted
      · exact fate.untouched (step.untouched aimed.within same)
    · cases taken
  · cases taken

private theorem unwind_step (unwinding : s.frame thread = .unwinding task)
    (taken : TaskSystem.unwind s thread = some next) :
    FrameStep s next thread task
        (if (s.tasks task).rc = 1 then .deallocating task true else .dead) ∧
      next.tasks task = { s.tasks task with rc := (s.tasks task).rc - 1 } ∧
      next.history task = s.history task := by
  simp only [TaskSystem.unwind, unwinding] at taken
  cases taken
  refine ⟨.header ?_ (Frame.polls_of_ne (by simp [unwinding])), by simp, rfl⟩
  simp [unwinding, Frame.held]

/-- The unwinding drops the lent waker, which takes a reference that was not counted
for it. -/
theorem Ruined.unwound (ruin : Ruined s task (.held (.frame thread)))
    (unwinding : s.frame thread = .unwinding task)
    (taken : TaskSystem.unwind s thread = some next) :
    ∃ target, Ruined next task target ∧ condition next target = .ruined := by
  obtain ⟨step, header, history⟩ := unwind_step unwinding taken
  obtain ⟨counts, _, lifetime, held, counted, borrows⟩ := ruin
  rw [condition, unwinding, Frame.condition, Condition.owed] at counted
  have status : (next.tasks task).status = (s.tasks task).status := by rw [header]
  have fewer : (next.tasks task).rc = (s.history task).wakers.length := by
    rw [header]
    change (s.tasks task).rc - 1 = (s.history task).wakers.length
    omega
  by_cases last : (s.tasks task).rc = 1
  · rw [if_pos last] at step
    have place : next.frame thread = .deallocating task true := by
      rw [step.frames, Function.update_self]
    have aimed : Frame.Target thread (.deallocating task true) task (.held (.frame thread)) :=
      Or.inl ⟨rfl, rfl⟩
    have ruined : condition next (.held (.frame thread)) = .ruined := by
      simp only [condition, place, Frame.condition]
    refine ⟨.held (.frame thread), ⟨step.counts counts aimed, ?_, ?_, ?_, ?_,
      step.borrows borrows⟩, ruined⟩
    · rw [Wrecked, place, history]
      exact List.eq_nil_of_length_eq_zero (by omega)
    · rw [history]
      exact lifetime
    · rw [status]
      exact held
    · rw [ruined, fewer, history, Condition.owed, Nat.zero_add]
  · rw [if_neg last] at step
    have aimed : Frame.Target thread .dead task .retired := Or.inr ⟨rfl, by simp⟩
    refine ⟨.retired, ⟨step.counts counts aimed, ?_, ?_, ?_, ?_, step.borrows borrows⟩, rfl⟩
    · rw [Wrecked, history]
      intro none
      rw [none, List.length_nil] at counted
      exact last counted
    · rw [history]
      exact lifetime
    · rw [status]
      exact held
    · simp only [fewer, history, condition, Condition.owed, Nat.zero_add]

theorem Fate.unwind (fate : Fate among s observed) (ends : among .unwinding → among .ruined)
    (taken : unwind s thread = some next) : Fate among next observed := by
  cases frame : s.frame thread with
  | unwinding task =>
      have step := (unwind_step frame taken).1
      by_cases same : observed = task
      · subst same
        cases fate with
        | placed place whole located =>
            have settled := located.settled
            rw [located.counts.place_of_frame step.member, Settled, frame] at settled
            exact settled.elim
        | ruined place broken ruin =>
            have here := ruin.counts.place_of_frame step.member
            subst here
            rw [condition, frame] at broken
            obtain ⟨target, there, ruined⟩ := ruin.unwound frame taken
            rw [← ruined] at ends
            exact .ruined target (ends broken) there
      · apply fate.untouched (step.untouched _ same)
        intro name member
        split at member
        · exact List.mem_singleton.mp member
        · cases member
  | _ => simp [TaskSystem.unwind, frame] at taken

theorem Fate.assertRc (fate : Fate among s observed)
    (taken : assertRc s = some next) : Fate among next observed := by
  unfold TaskSystem.assertRc at taken
  split at taken
  · rename_i task frame
    split at taken
    · cases taken
      refine fate.frameStep (.plain (by simp [frame, Frame.held])
        (Frame.polls_of_ne (by simp [frame]))) (Or.inl ⟨rfl, rfl⟩)
        (by simp [frame, Frame.Wrecked]) ?_
      intro settled counted
      rw [frame] at settled
      exact ⟨by simpa [Settled, Frame.Settled] using settled, counted⟩
    · cases taken
  · cases taken

theorem Fate.dropTask (fate : Fate among s observed)
    (taken : dropTask s = some next) : Fate among next observed := by
  unfold TaskSystem.dropTask at taken
  split at taken
  · rename_i task frame
    cases taken
    have member : task ∈ (s.frame cfg.main).held := by simp [frame, Frame.held]
    refine fate.frameStep (.header member (Frame.polls_of_ne (by simp [frame])))
      (show Frame.Target cfg.main _ task (.held (.frame cfg.main)) from ?_)
      (by simp [frame, Frame.Wrecked]) ?_
    · split <;> exact Or.inl ⟨rfl, rfl⟩
    · intro settled counted
      rw [frame] at settled
      obtain ⟨live, scheduled⟩ := settled
      have retired := Task.setDropped_held scheduled.held
      rw [if_pos (Task.undropped_held scheduled.held)]
      exact ⟨by simpa [Settled, Frame.Settled] using ⟨live.1, retired⟩,
        by simpa using counted⟩
  · cases taken

theorem Fate.checkRc (fate : Fate among s observed)
    (taken : checkRc s = some next) : Fate among next observed := by
  unfold TaskSystem.checkRc at taken
  split at taken
  · rename_i task frame
    cases taken
    refine fate.frameStep (.plain (by simp [frame, Frame.held])
      (Frame.polls_of_ne (by simp [frame]))) (Or.inl ⟨rfl, rfl⟩)
      (by simp [frame, Frame.Wrecked]) ?_
    intro settled counted
    rw [frame] at settled
    exact ⟨by simpa [Settled, Frame.Settled] using settled, counted⟩
  · cases taken

end FrameSteps

end Yaay.TaskSystem
