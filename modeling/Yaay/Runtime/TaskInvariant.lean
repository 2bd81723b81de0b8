import Yaay.Runtime.TaskCallSteps

set_option autoImplicit false

/-! The moves of whole lists and the steps that move nothing complete the proof
that every reachable state gives every task a place. -/

namespace Yaay.TaskSystem

open Yaay.Transition

variable {among : Condition → Prop} {cfg : Config} {s next : State cfg} {task observed : TaskRef}
  {place : Place cfg}
  {thread : Fin cfg.threads}

theorem Untouched.of_same (frames : next.frame = s.frame) (calls : next.call = s.call)
    (lists : next.lists = s.lists) (tasks : next.tasks = s.tasks)
    (history : next.history = s.history) : Untouched s next task := by
  refine ⟨?_, by rw [tasks], by rw [history], fun _ _ => by rw [frames],
    fun name => Or.inl (by rw [calls])⟩
  intro holder
  cases holder <;> simp [State.content, frames, calls, lists]

theorem Fate.quiet (fate : Fate among s observed) (frames : next.frame = s.frame)
    (calls : next.call = s.call) (lists : next.lists = s.lists)
    (tasks : next.tasks = s.tasks) (history : next.history = s.history) :
    Fate among next observed :=
  fate.untouched (.of_same frames calls lists tasks history)

theorem Located.relist {list : ListId cfg} {holder : Holder cfg}
    (located : Located s task (.held holder))
    (scheduled : Live (s.history task) ∧ Task.Scheduled (s.tasks task).status)
    (tasks : next.tasks = s.tasks) (history : next.history = s.history)
    (counts : Counts next task (.held (.list list))) (borrows : Borrows next task) :
    Located next task (.held (.list list)) := by
  refine ⟨counts, ?_, ?_, borrows⟩
  · rw [Settled, tasks, history]
    exact scheduled
  · intro _born
    rw [tasks, history]
    exact located.counted (by simp)

theorem Borrows.relist (borrows : Borrows s task) (frames : next.frame = s.frame)
    (calls : next.call = s.call) (history : next.history = s.history) :
    Borrows next task :=
  ⟨by rw [calls, history]; exact borrows.owned, by rw [calls]; exact borrows.exclusive,
    by rw [calls, frames]; exact borrows.lent⟩

theorem Ruined.not_listed {list : ListId cfg} (ruin : Ruined s task place) :
    task ∉ s.lists list := by
  intro member
  have wrecked := ruin.wrecked
  rw [ruin.counts.place_of_list member] at wrecked
  exact wrecked.elim

private theorem untouched_mergeLists {source target : ListId cfg} (apart : source ≠ target)
    (absent : task ∉ s.lists source) :
    Untouched s ((s.setList source []).setList target (s.lists target ++ s.lists source))
      task := by
  have never := List.count_eq_zero.mpr absent
  refine (untouched_setList source [] ?_).trans (untouched_setList target _ ?_)
  · rw [never, List.count_nil]
  · rw [List.count_append, never, State.setList_lists,
      Function.update_of_ne (Ne.symm apart), Nat.add_zero]

theorem Counts.mergeLists {source target : ListId cfg} (apart : source ≠ target)
    (counts : Counts s task (.held (.list source))) :
    Counts ((s.setList source []).setList target (s.lists target ++ s.lists source)) task
      (.held (.list target)) := by
  apply counts.transfer
  · intro holder away elsewhere
    have notSource : holder ≠ .list source := fun same => away (by rw [same])
    have notTarget : holder ≠ .list target := fun same => elsewhere (by rw [same])
    rw [setList_content, if_neg notTarget, setList_content, if_neg notSource]
  · intro holder here away
    cases here
    have notTarget : (Holder.list source : Holder cfg) ≠ .list target :=
      fun same => away (by rw [same])
    rw [setList_content, if_neg notTarget, setList_content, if_pos rfl, List.count_nil]
  · intro holder here
    cases here
    have once := counts (.list source)
    have never := counts (.list target)
    rw [if_pos rfl] at once
    rw [if_neg (by simpa using apart)] at never
    rw [setList_content, if_pos rfl, List.count_append]
    change (s.lists source).count task = 1 at once
    change (s.lists target).count task = 0 at never
    omega

theorem Fate.mergeLists (fate : Fate among s observed) {source target : ListId cfg}
    (apart : source ≠ target) :
    Fate among ((s.setList source []).setList target (s.lists target ++ s.lists source))
      observed := by
  by_cases member : observed ∈ s.lists source
  · cases fate with
    | ruined place broken ruin => exact absurd member ruin.not_listed
    | placed place whole located =>
        have here := located.counts.place_of_list member
        subst here
        exact .placed (.held (.list target)) whole (located.relist located.settled rfl rfl
          (located.counts.mergeLists apart) (located.borrows.relist rfl rfl rfl))
  · exact fate.untouched (untouched_mergeLists apart member)

theorem Fate.takeFirst (fate : Fate among s observed) {list : ListId cfg} {rest : List TaskRef}
    {frame : Frame} (idle : s.frame thread = .idle) (first : s.lists list = task :: rest)
    (held : frame.held = [task])
    (settles : ∀ status history, Live history → Task.Scheduled status →
      frame.Settled status history) :
    Fate among ((s.setList list rest).setFrame thread frame) observed := by
  have free : (s.frame thread).held = [] := by rw [idle]; rfl
  apply fate.move task
  · intro other different
    refine (untouched_setList list rest ?_).trans (untouched_setFrame thread frame ?_ ?_)
    · rw [first, List.count_cons_of_ne (Ne.symm different)]
    · simp [free]
    · rw [held]
      exact fun member => different (List.mem_singleton.mp member)
  case ruined =>
    intro place ruin
    exact absurd (by simp [first]) (Ruined.not_listed ruin : task ∉ s.lists list)
  · intro place located
    have member : task ∈ s.lists list := by simp [first]
    have here := located.counts.place_of_list member
    subst here
    obtain ⟨live, scheduled⟩ := located.settled
    have once := located.counts (.list list)
    rw [if_pos rfl, State.content, first, List.count_cons_self] at once
    refine ⟨.held (.frame thread), ?_, ?_, ?_, ?_⟩
    · apply located.counts.transfer
      · intro holder away elsewhere
        have notFrame : holder ≠ .frame thread := fun same => elsewhere (by rw [same])
        have notList : holder ≠ .list list := fun same => away (by rw [same])
        rw [setFrame_content, if_neg notFrame, setList_content, if_neg notList]
      · intro holder here away
        cases here
        rw [setFrame_content, if_neg (by simp), setList_content, if_pos rfl]
        omega
      · intro holder here
        cases here
        rw [setFrame_content, if_pos rfl, held, List.count_singleton_self]
    · simpa [Settled] using settles _ _ live scheduled
    · exact fun _born => located.counted (by simp)
    · refine ⟨located.borrows.owned, located.borrows.exclusive, ?_⟩
      intro name worker lent
      have polls := located.borrows.lent name worker lent
      have different : worker ≠ thread := by
        intro same
        rw [same, idle] at polls
        cases polls
      rw [State.setFrame_frame, Function.update_of_ne different]
      exact polls

theorem Fate.pop {worker : WorkerId} (fate : Fate among s observed)
    (taken : pop s thread worker = some next) : Fate among next observed := by
  unfold TaskSystem.pop at taken
  split at taken
  · rename_i own task rest slot idle call first
    split at taken
    · cases taken
      by_cases same : worker = own
      · rw [if_pos same]
        exact fate.takeFirst idle first rfl (fun _ _ live scheduled => ⟨live, scheduled⟩)
      · rw [if_neg same]
        exact fate.takeFirst idle first rfl (fun _ _ live scheduled => ⟨live, scheduled⟩)
    · cases taken
  · cases taken

theorem Fate.teardownPop (fate : Fate among s observed)
    (taken : teardownPop s = some next) : Fate among next observed := by
  unfold TaskSystem.teardownPop at taken
  split at taken
  · rename_i stage idle call
    split at taken
    · cases taken
      exact fate.quiet rfl rfl rfl rfl rfl
    · rename_i task rest first
      cases taken
      exact fate.takeFirst idle first rfl (fun _ _ live scheduled => ⟨live, scheduled⟩)
  · cases taken

theorem Fate.collect (fate : Fate among s observed)
    (taken : collect s = some next) : Fate among next observed := by
  unfold TaskSystem.collect at taken
  split at taken
  · split at taken
    · cases taken
      exact (fate.mergeLists (by simp)).quiet rfl rfl rfl rfl rfl
    · cases taken
      exact fate.quiet rfl rfl rfl rfl rfl
  · cases taken

theorem Fate.silentCall (fate : Fate among s observed) {call : Call cfg}
    (before : (s.call thread).subject = []) (after : call.subject = []) :
    Fate among (s.setCall thread call) observed :=
  fate.untouched (untouched_setCall thread call (by simp [before]) (by simp [after]))

theorem Fate.pushBatch {guard : Fin cfg.threads} {closing : Bool}
    (fate : Fate among s observed)
    (taken : pushBatch s thread guard closing = some next) : Fate among next observed := by
  unfold TaskSystem.pushBatch at taken
  split at taken
  · rename_i idle
    split at taken
    · cases taken
      have entered : Fate among (s.setCall thread (.pushBatch 0 false closing)) observed :=
        fate.silentCall (by rw [idle]; rfl) rfl
      exact entered.quiet rfl rfl rfl rfl rfl
    · cases taken
  · cases taken

theorem Fate.batched {moved closing : Bool} (fate : Fate among s observed)
    (silent : (s.call thread).subject = []) :
    Fate among (s.batched thread moved closing) observed := by
  have left : Fate among (s.setCall thread .none) observed := fate.silentCall silent rfl
  exact left.quiet rfl rfl rfl rfl rfl

theorem Fate.pushBatchNext (fate : Fate among s observed)
    (taken : pushBatchNext s thread = some next) : Fate among next observed := by
  unfold TaskSystem.pushBatchNext at taken
  split at taken
  · rename_i worker moved closing called slot
    have silent : (s.call thread).subject = [] := by rw [called]; rfl
    split at taken
    · split at taken
      · cases taken
        exact fate.silentCall silent rfl
      · rename_i task rest batch
        cases taken
        rw [← batch]
        exact (fate.mergeLists (by simp)).silentCall silent rfl
    · cases taken
      exact fate.batched silent
  · rename_i worker moved closing called slot
    cases taken
    exact fate.batched (by rw [called]; rfl)
  · cases taken

theorem Fate.build {worker : WorkerId} (fate : Fate among s observed)
    (taken : build s thread worker = some next) : Fate among next observed := by
  unfold TaskSystem.build at taken
  split at taken
  · cases taken
    exact fate.quiet rfl rfl rfl rfl rfl
  · cases taken

theorem Fate.batchNew (fate : Fate among s observed)
    (taken : batchNew s thread = some next) : Fate among next observed := by
  unfold TaskSystem.batchNew at taken
  split at taken
  · cases taken
    exact fate.quiet rfl rfl rfl rfl rfl
  · cases taken

theorem Fate.rngGen (fate : Fate among s observed)
    (taken : rngGen s thread = some next) : Fate among next observed := by
  unfold TaskSystem.rngGen at taken
  split at taken
  · cases taken
    exact fate
  · cases taken

theorem Fate.shutdownPoll (fate : Fate among s observed)
    (taken : shutdownPoll s thread = some next) : Fate among next observed := by
  unfold TaskSystem.shutdownPoll at taken
  split at taken
  · cases taken
    exact fate
  · cases taken

theorem Fate.teardown (fate : Fate among s observed)
    (taken : teardown s = some next) : Fate among next observed := by
  unfold TaskSystem.teardown at taken
  split at taken
  · cases taken
    exact fate.quiet rfl rfl rfl rfl rfl
  · cases taken

theorem Fate.freeWorker (fate : Fate among s observed)
    (taken : freeWorker s = some next) : Fate among next observed := by
  unfold TaskSystem.freeWorker at taken
  split at taken
  · cases taken
    exact fate.quiet rfl rfl rfl rfl rfl
  · cases taken

theorem Located.init (task : TaskRef) : Located (State.init cfg) task .unborn := by
  refine ⟨?_, rfl, fun born => absurd rfl born, ?_⟩
  · intro holder
    cases holder <;> simp [State.content, State.init, Frame.held, Call.held]
  · constructor
    · exact fun _ _ used => by cases used
    · exact fun _ _ _ consumed => by cases consumed
    · exact fun _ _ lent => by cases lent

theorem Fate.step {action : Action cfg} (fate : Fate among s observed)
    (ends : among .unwinding → among .ruined)
    (permitted : noPanic s action ∨ (among .whole → among .unwinding))
    (taken : step s action = some next) : Fate among next observed := by
  cases action with
  | build => exact fate.build taken
  | batchNew => exact fate.batchNew taken
  | pushBatch => exact fate.pushBatch taken
  | pushBatchNext => exact fate.pushBatchNext taken
  | create => exact fate.create taken
  | place => exact fate.placeTask taken
  | rngGen => exact fate.rngGen taken
  | shutdownPoll => exact fate.shutdownPoll taken
  | pop => exact fate.pop taken
  | setWorkerId => exact fate.setWorkerId taken
  | clearNotified => exact fate.clearNotified taken
  | callPoll => exact fate.callPoll taken
  | pollReturn => exact fate.pollReturn taken
  | pollPanic thread => exact fate.pollPanic (permitted.resolve_left id) taken
  | compareExchangeWeak => exact fate.compareExchangeWeak taken
  | setDropped => exact fate.setDropped taken
  | callDropInPlace => exact fate.callDropInPlace taken
  | dropReturn => exact fate.dropReturn taken
  | release => exact fate.release taken
  | fnDealloc => exact fate.fnDealloc taken
  | unwind => exact fate.unwind ends taken
  | cloneWaker => exact fate.cloneWaker taken
  | wake => exact fate.wake taken
  | wakeFetchOr => exact fate.wakeFetchOr taken
  | wakePush => exact fate.wakePush taken
  | wakeNextEpoch => exact fate.wakeNextEpoch taken
  | dropWaker => exact fate.dropWaker taken
  | rcDec => exact fate.rcDec taken
  | callDealloc => exact fate.callDealloc taken
  | teardown => exact fate.teardown taken
  | collect => exact fate.collect taken
  | freeWorker => exact fate.freeWorker taken
  | teardownPop => exact fate.teardownPop taken
  | assertRc => exact fate.assertRc taken
  | dropTask => exact fate.dropTask taken
  | checkRc => exact fate.checkRc taken

/-- As long as no poll unwinds, every task has a place in every reachable state. -/
theorem reachable_inv (reached : (system cfg).Reachable noPanic s) : Inv s := by
  intro task
  have fate : Fate (· = .whole) s task := by
    apply reached.invariant (fun state => Fate (· = .whole) state task)
    · intro state start
      rw [start]
      exact .placed .unborn rfl (.init task)
    · intro state next action _earlier fate permitted taken
      exact fate.step (fun impossible => by cases impossible) (Or.inl permitted) taken
  cases fate with
  | placed place whole located => exact ⟨place, located⟩
  | ruined place broken ruin => exact absurd broken (condition_ne_whole s place)

/-- In every run a task is where its place says, or its poll has panicked. -/
theorem reachable_fate (reached : (system cfg).Reachable anyAction s) (task : TaskRef) :
    Fate (fun _ => True) s task := by
  apply reached.invariant (fun state => Fate (fun _ => True) state task)
  · intro state start
    rw [start]
    exact .placed .unborn trivial (.init task)
  · intro state next action _earlier fate _permitted taken
    exact fate.step id (Or.inr id) taken

end Yaay.TaskSystem
