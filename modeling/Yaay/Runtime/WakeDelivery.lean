import Yaay.Runtime.TaskExclusivity
import Yaay.Runtime.TaskLocality

set_option autoImplicit false

/-! What becomes of a wake that finds its task idle. The slot `LOCAL` decides:
`RuntimeLocalData::get` is right on every thread but a worker's, where it takes
the `Worker` for a `RuntimeLocalData`. -/

namespace Yaay.TaskSystem

open Yaay.Transition

variable {cfg : Config} {s next : State cfg} {task : TaskRef} {thread : Fin cfg.threads}
  {via : Via cfg}

/-- The list that a wake on this thread owes the task. -/
def home (s : State cfg) (thread : Fin cfg.threads) (task : TaskRef) : ListId cfg :=
  if s.slot thread = .runtimeLocal then .batch thread (s.tasks task).workerId
  else .queue (s.tasks task).workerId

def Inserts (s next : State cfg) (task : TaskRef) (list : ListId cfg) : Prop :=
  next.lists = Function.update s.lists list (s.lists list ++ [task])

/-- The thread's push of a wake, whichever list a misread slot names. -/
def Pushes (thread : Fin cfg.threads) (action : Action cfg) : Prop :=
  ∃ misread, action = .wakePush thread misread

def Announces (thread : Fin cfg.threads) (action : Action cfg) : Prop :=
  action = .wakeNextEpoch thread

/-- The wake is still before its push, which it can make as long as the runtime
is alive. -/
structure Pending (thread : Fin cfg.threads) (task : TaskRef) (via : Via cfg)
    (actions : List (Action cfg)) (last : State cfg) : Prop where
  call : last.call thread = .push task via
  unpushed : ∀ action ∈ actions, ¬ Pushes thread action
  able : last.stage ≠ .finished → ∀ misread, ∃ next,
    step last (.wakePush thread misread) = some next

structure Unannounced (thread : Fin cfg.threads) (task : TaskRef) (via : Via cfg)
    (actions : List (Action cfg)) (last : State cfg) : Prop where
  call : last.call thread = .nextEpoch task via
  silent : ∀ action ∈ actions, ¬ Announces thread action
  able : ∃ next, step last (.wakeNextEpoch thread) = some next

def Announced (thread : Fin cfg.threads) (task : TaskRef) (via : Via cfg)
    (pushed : State cfg) (actions : List (Action cfg)) (last : State cfg) : Prop :=
  ∃ between rest waiting announced,
    actions = between ++ .wakeNextEpoch thread :: rest ∧
      (∀ action ∈ between, ¬ Announces thread action) ∧
      (system cfg).exec pushed between = some waiting ∧
      step waiting (.wakeNextEpoch thread) = some announced ∧
      announced.epochs = waiting.epochs + 1 ∧
      announced.call thread = afterWake task via ∧
      (system cfg).exec announced rest = some last

/-- The wake has made its one push, into the list it owes the task. Unless that
is this thread's batch, `next_epoch` follows. -/
def Pushed (thread : Fin cfg.threads) (task : TaskRef) (via : Via cfg)
    (first : State cfg) (actions : List (Action cfg)) (last : State cfg) : Prop :=
  ∃ before misread after middle pushed,
    actions = before ++ .wakePush thread misread :: after ∧
      (∀ action ∈ before, ¬ Pushes thread action) ∧
      (system cfg).exec first before = some middle ∧
      step middle (.wakePush thread misread) = some pushed ∧
      Inserts middle pushed task (home middle thread task) ∧
      (system cfg).exec pushed after = some last ∧
      if middle.slot thread = .runtimeLocal then pushed.call thread = afterWake task via
      else
        pushed.call thread = .nextEpoch task via ∧
          (Unannounced thread task via after last ∨ Announced thread task via pushed after last)

/-- The run since the wake's `fetch_or` delivers the task, or has yet to. -/
def Delivery (thread : Fin cfg.threads) (task : TaskRef) (via : Via cfg)
    (first : State cfg) (actions : List (Action cfg)) (last : State cfg) : Prop :=
  Pending thread task via actions last ∨ Pushed thread task via first actions last

/-- The type that a step takes the slot's pointer for. -/
inductive Reading
  | worker
  | runtimeLocal

/-- `MTRuntime::spawn` and `defer` push through `Worker::get`; the other callers of
`Task::new` do not read the slot for it. -/
def Maker.getsWorker : Maker → Bool
  | .spawn | .defer => true
  | .run | .shutdownAsync | .shutdown => false

/-- The calls of `Worker::get`, and of `RuntimeLocalData::get` and `get_unchecked`. -/
def State.reading (s : State cfg) : Action cfg → Option Reading
  | .place thread =>
      match s.call thread with
      | .placing _ _ _ maker => if maker.getsWorker then some .worker else none
      | _ => none
  | .rngGen _ | .shutdownPoll _ => some .worker
  | .wakePush thread _ => if s.slot thread = .null then none else some .runtimeLocal
  | .pushBatch _ _ _ | .pushBatchNext _ => some .runtimeLocal
  | _ => none

def Local.Holds : Local → Reading → Prop
  | .worker _, .worker | .runtimeLocal, .runtimeLocal => True
  | _, _ => False

/-- No wake reaches its push on a thread whose slot holds a `Worker`. -/
def offWorkers : State cfg → Action cfg → Prop
  | s, .wakePush thread _ => ∀ own, s.slot thread ≠ .worker own
  | _, _ => True

/-- A `BatchGuard` is used and dropped on the thread that it was made on. -/
def guardsStay : State cfg → Action cfg → Prop
  | _, .pushBatch thread guard _ => guard = thread
  | _, _ => True

/-- `spawn`, `defer` and `rng_gen` are called on the workers' threads. -/
def onWorkers : State cfg → Action cfg → Prop
  | s, .place thread => ∀ task worker front maker,
      s.call thread = .placing task worker front maker → maker.getsWorker = true →
        (s.worker thread).isSome = true
  | s, .rngGen thread => (s.worker thread).isSome = true
  | _, _ => True

private theorem push_stays (action : Action cfg) (called : s.call thread = .push task via)
    (other : ¬ Pushes thread action) (taken : step s action = some next) :
    next.call thread = .push task via := by
  by_cases mine : action.thread = thread
  · subst mine
    cases action with
    | wakePush thread misread => exact absurd ⟨misread, rfl⟩ other
    | pop | setWorkerId | clearNotified | callPoll | pollReturn | pollPanic
    | compareExchangeWeak | setDropped | callDropInPlace | dropReturn | release | fnDealloc
    | unwind =>
        rw [(step_ofFrame rfl taken).2.1]
        exact called
    | teardown | collect | freeWorker | teardownPop | assertRc | dropTask | checkRc =>
        rw [(step_ofGuard rfl rfl taken).2.1]
        exact called
    | build | batchNew | rngGen | shutdownPoll =>
        simp only [step, build, batchNew, rngGen, shutdownPoll] at taken
        split at taken
        · cases taken
          exact called
        · cases taken
    | _ =>
        simp only [Action.thread] at called
        simp [step, pushBatch, pushBatchNext, create, place, cloneWaker, wake, wakeFetchOr,
          wakeNextEpoch, dropWaker, rcDec, callDealloc, called] at taken
  · rw [(step_other taken mine).2.1]
    exact called

private theorem nextEpoch_stays (action : Action cfg) (called : s.call thread = .nextEpoch task via)
    (other : ¬ Announces thread action) (taken : step s action = some next) :
    next.call thread = .nextEpoch task via := by
  by_cases mine : action.thread = thread
  · subst mine
    cases action with
    | wakeNextEpoch thread => exact absurd rfl other
    | pop | setWorkerId | clearNotified | callPoll | pollReturn | pollPanic
    | compareExchangeWeak | setDropped | callDropInPlace | dropReturn | release | fnDealloc
    | unwind =>
        rw [(step_ofFrame rfl taken).2.1]
        exact called
    | teardown | collect | freeWorker | teardownPop | assertRc | dropTask | checkRc =>
        rw [(step_ofGuard rfl rfl taken).2.1]
        exact called
    | build | batchNew | rngGen | shutdownPoll =>
        simp only [step, build, batchNew, rngGen, shutdownPoll] at taken
        split at taken
        · cases taken
          exact called
        · cases taken
    | _ =>
        simp only [Action.thread] at called
        simp [step, pushBatch, pushBatchNext, create, place, cloneWaker, wake, wakeFetchOr,
          wakePush, dropWaker, rcDec, callDealloc, called] at taken
  · rw [(step_other taken mine).2.1]
    exact called

private theorem wakePush_able (called : s.call thread = .push task via)
    (alive : s.stage ≠ .finished) (misread : ListId cfg) :
    ∃ next, step s (.wakePush thread misread) = some next := by
  simp only [step, wakePush, called]
  cases s.slot thread with
  | null => exact ⟨_, if_neg alive⟩
  | runtimeLocal | worker => exact ⟨_, rfl⟩

private theorem wakeNextEpoch_taken (called : s.call thread = .nextEpoch task via) :
    ∃ next, step s (.wakeNextEpoch thread) = some next ∧
      next.epochs = s.epochs + 1 ∧ next.call thread = afterWake task via := by
  simp only [step, wakeNextEpoch, called]
  exact ⟨_, rfl, rfl, Function.update_self ..⟩

private theorem wakePush_home {misread : ListId cfg} (called : s.call thread = .push task via)
    (off : ∀ own, s.slot thread ≠ .worker own)
    (taken : step s (.wakePush thread misread) = some next) :
    Inserts s next task (home s thread task) ∧
      if s.slot thread = .runtimeLocal then next.call thread = afterWake task via
      else next.call thread = .nextEpoch task via := by
  simp only [step, wakePush, called] at taken
  cases slot : s.slot thread with
  | worker own => exact absurd slot (off own)
  | null =>
      simp only [slot] at taken
      split at taken
      · cases taken
      · cases taken
        constructor
        · rw [home, slot, if_neg (by simp)]
          rfl
        · rw [if_neg (by simp)]
          exact Function.update_self ..
  | runtimeLocal =>
      simp only [slot] at taken
      cases taken
      constructor
      · rw [home, slot, if_pos rfl]
        rfl
      · rw [if_pos rfl]
        exact Function.update_self ..

private theorem announcement {last : State cfg} {actions : List (Action cfg)}
    (called : s.call thread = .nextEpoch task via)
    (permitted : (system cfg).Permitted offWorkers s actions)
    (ran : (system cfg).exec s actions = some last) :
    Unannounced thread task via actions last ∨ Announced thread task via s actions last := by
  have split := (system cfg).stays_or_leaves
    (fun s => s.call thread = .nextEpoch task via) (Announces thread)
    (fun _state action _next called other taken => nextEpoch_stays action called other taken)
    called permitted ran
  rcases split with ⟨still, silent⟩ | found
  · obtain ⟨next, taken, _⟩ := wakeNextEpoch_taken still
    exact Or.inl ⟨still, silent, next, taken⟩
  · obtain ⟨leaves⟩ := found
    obtain ⟨next, taken, epochs, call⟩ := wakeNextEpoch_taken leaves.here
    have exit : leaves.action = .wakeNextEpoch thread := leaves.exit
    have same : leaves.next = next := by
      have other := leaves.taken
      rw [exit] at other
      exact Option.some.inj (other.symm.trans taken)
    refine Or.inr ⟨leaves.before, leaves.after, leaves.middle, next, ?_, leaves.first,
      leaves.ran, taken, epochs, call, ?_⟩
    · rw [← exit]
      exact leaves.split
    · rw [← same]
      exact leaves.rest

private theorem delivery {last : State cfg} {actions : List (Action cfg)}
    (called : s.call thread = .push task via)
    (permitted : (system cfg).Permitted offWorkers s actions)
    (ran : (system cfg).exec s actions = some last) :
    Delivery thread task via s actions last := by
  have split := (system cfg).stays_or_leaves
    (fun s => s.call thread = .push task via) (Pushes thread)
    (fun _state action _next called other taken => push_stays action called other taken)
    called permitted ran
  rcases split with ⟨still, unpushed⟩ | found
  · exact Or.inl ⟨still, unpushed, fun alive misread => wakePush_able still alive misread⟩
  · obtain ⟨leaves⟩ := found
    obtain ⟨misread, exit⟩ := leaves.exit
    have taken := leaves.taken
    have off := leaves.permitted
    have parts := leaves.split
    rw [exit] at taken off parts
    obtain ⟨inserted, call⟩ := wakePush_home leaves.here off taken
    refine Or.inr ⟨leaves.before, misread, leaves.after, leaves.middle, leaves.next, parts,
      leaves.first, leaves.ran, taken, inserted, leaves.rest, ?_⟩
    by_cases batching : leaves.middle.slot thread = .runtimeLocal
    · rw [if_pos batching] at call ⊢
      exact call
    · rw [if_neg batching] at call ⊢
      exact ⟨call, announcement call leaves.later leaves.rest⟩

def Call.closing? : Call cfg → Option Bool
  | .pushBatch _ _ closing => some closing
  | _ => Option.none

/-- What one thread stored in its slot: a live guard and a running `push_batch` stand for a
`RuntimeLocalData`, a worker for its `Worker`. -/
structure Role (slot : Local) (worker : Option WorkerId) (guarded : Bool) (call : Call cfg) :
    Prop where
  ofGuard : guarded = true → slot = .runtimeLocal
  ofBatch : ∀ closing, call.closing? = some closing →
    slot = .runtimeLocal ∧ (closing = true → guarded = false)
  ofWorker : ∀ own, worker = some own → slot = .worker own

def Slotted (s : State cfg) : Prop :=
  ∀ thread, Role (s.slot thread) (s.worker thread) (s.guarded thread) (s.call thread)

theorem Slotted.update (before : Slotted s) (thread : Fin cfg.threads) {slot : Local}
    {worker : Option WorkerId} {guarded : Bool} {call : Call cfg}
    (role : Role slot worker guarded call)
    (slots : next.slot = Function.update s.slot thread slot)
    (workers : next.worker = Function.update s.worker thread worker)
    (guards : next.guarded = Function.update s.guarded thread guarded)
    (calls : next.call = Function.update s.call thread call) : Slotted next := by
  intro name
  rw [slots, workers, guards, calls]
  by_cases same : name = thread
  · subst same
    simpa only [Function.update_self] using role
  · simpa only [Function.update_of_ne same] using before name

theorem Slotted.goOn (before : Slotted s) (thread : Fin cfg.threads) {call : Call cfg}
    (silent : call.closing? = none)
    (slots : next.slot = s.slot) (workers : next.worker = s.worker)
    (guards : next.guarded = s.guarded)
    (calls : next.call = Function.update s.call thread call) : Slotted next := by
  have role := before thread
  refine before.update thread ⟨role.ofGuard, fun closing entered => ?_, role.ofWorker⟩
    (by rw [slots, Function.update_eq_self]) (by rw [workers, Function.update_eq_self])
    (by rw [guards, Function.update_eq_self]) calls
  rw [silent] at entered
  cases entered

theorem Slotted.same (before : Slotted s) (slots : next.slot = s.slot)
    (workers : next.worker = s.worker) (guards : next.guarded = s.guarded)
    (calls : next.call = s.call) : Slotted next := by
  intro thread
  rw [slots, workers, guards, calls]
  exact before thread

theorem Call.closing_of_isNone {call : Call cfg} (idle : call.isNone = true) :
    call.closing? = Option.none := by
  cases call <;> first | rfl | cases idle

private theorem afterWake_closing (task : TaskRef) (via : Via cfg) :
    (afterWake task via).closing? = none := by
  cases via <;> rfl

theorem Slotted.build (before : Slotted s) {worker : WorkerId}
    (taken : TaskSystem.build s thread worker = some next) : Slotted next := by
  unfold TaskSystem.build at taken
  split at taken
  · rename_i free
    cases taken
    refine before.update thread ⟨?_, ?_, ?_⟩ rfl rfl
      (Function.update_eq_self ..).symm (Function.update_eq_self ..).symm
    · intro guarded
      cases free.2.2.1.symm.trans guarded
    · intro closing entered
      cases (Call.closing_of_isNone free.2.1).symm.trans entered
    · exact fun own built => congrArg Local.worker (Option.some.inj built)
  · cases taken

theorem Slotted.batchNew (before : Slotted s)
    (taken : TaskSystem.batchNew s thread = some next) : Slotted next := by
  unfold TaskSystem.batchNew at taken
  split at taken
  · rename_i null
    cases taken
    refine before.update thread ⟨fun _ => rfl, ?_, ?_⟩ rfl
      (Function.update_eq_self ..).symm rfl (Function.update_eq_self ..).symm
    · intro closing entered
      rw [((before thread).ofBatch closing entered).1] at null
      cases null
    · intro own working
      rw [(before thread).ofWorker own working] at null
      cases null
  · cases taken

theorem Slotted.pushBatch (before : Slotted s) {closing : Bool}
    (taken : TaskSystem.pushBatch s thread thread closing = some next) : Slotted next := by
  unfold TaskSystem.pushBatch at taken
  split at taken
  · split at taken
    · rename_i held
      have stored := (before thread).ofGuard held.1
      cases taken
      have role : Role (s.slot thread) (s.worker thread)
          (if closing then false else s.guarded thread)
          (.pushBatch 0 false closing : Call cfg) :=
        ⟨fun _ => stored, fun flag same => by
          cases Option.some.inj same
          exact ⟨stored, fun closes => if_pos closes⟩, (before thread).ofWorker⟩
      refine before.update thread role (Function.update_eq_self ..).symm
        (Function.update_eq_self ..).symm ?_ rfl
      cases closing with
      | true => rfl
      | false => exact (Function.update_eq_self ..).symm
    · cases taken
  · cases taken

theorem Slotted.pushBatchNext (before : Slotted s)
    (taken : TaskSystem.pushBatchNext s thread = some next) : Slotted next := by
  unfold TaskSystem.pushBatchNext at taken
  split at taken
  · rename_i worker moved closing called stored
    have role := before thread
    have inside := role.ofBatch closing (by rw [called]; rfl)
    have entered {moved : Bool} : Role (s.slot thread) (s.worker thread) (s.guarded thread)
        (.pushBatch (worker + 1) moved closing : Call cfg) :=
      ⟨role.ofGuard, fun flag same => Option.some.inj same ▸ inside, role.ofWorker⟩
    split at taken
    · split at taken
      all_goals
        cases taken
        exact before.update thread entered (Function.update_eq_self ..).symm
          (Function.update_eq_self ..).symm (Function.update_eq_self ..).symm rfl
    · cases taken
      cases closing with
      | false => exact before.goOn thread rfl rfl rfl rfl rfl
      | true =>
          have emptied : Role .null (s.worker thread) (s.guarded thread)
              (.none : Call cfg) := by
            refine ⟨fun guarded => ?_, fun _ entered => ?_, fun own working => ?_⟩
            · cases (inside.2 rfl).symm.trans guarded
            · cases entered
            · cases stored.symm.trans (role.ofWorker own working)
          exact before.update thread emptied rfl (Function.update_eq_self ..).symm
            (Function.update_eq_self ..).symm rfl
  · rename_i worker moved closing own called stored
    rw [((before thread).ofBatch closing (by rw [called]; rfl)).1] at stored
    cases stored
  · cases taken

theorem Slotted.step {action : Action cfg} (before : Slotted s) (stays : guardsStay s action)
    (taken : step s action = some next) : Slotted next := by
  cases action with
  | build thread worker => exact before.build taken
  | batchNew thread => exact before.batchNew taken
  | pushBatch thread guard closing =>
      have own : guard = thread := stays
      subst own
      exact before.pushBatch taken
  | pushBatchNext thread => exact before.pushBatchNext taken
  | pop | setWorkerId | clearNotified | callPoll | pollReturn | pollPanic
  | compareExchangeWeak | setDropped | callDropInPlace | dropReturn | release | fnDealloc
  | unwind | teardown | collect | freeWorker | teardownPop | assertRc | dropTask | checkRc
  | rngGen | shutdownPoll =>
      simp only [TaskSystem.step, pop, setWorkerId, TaskSystem.clearNotified, callPoll,
        pollReturn, pollPanic, compareExchangeWeak, TaskSystem.setDropped, callDropInPlace,
        dropReturn, release, fnDealloc, unwind, teardown, collect, freeWorker, teardownPop,
        assertRc, dropTask, checkRc, rngGen, shutdownPoll] at taken
      repeat' split at taken
      all_goals
        cases taken <;> exact before.same rfl rfl rfl rfl
  | wakeFetchOr thread =>
      simp only [TaskSystem.step, wakeFetchOr] at taken
      split at taken
      · rename_i task via called
        cases taken
        refine before.goOn thread ?_ rfl rfl rfl rfl
        split
        · rfl
        · exact afterWake_closing task via
      · cases taken
  | rcDec thread =>
      simp only [TaskSystem.step, rcDec] at taken
      split at taken
      · cases taken
        refine before.goOn thread ?_ rfl rfl rfl rfl
        split <;> rfl
      · cases taken
  | create thread | place thread | cloneWaker thread | wake thread | wakePush thread
  | wakeNextEpoch thread | dropWaker thread | callDealloc thread =>
      simp only [TaskSystem.step, create, place, cloneWaker, wake, wakePush, wakeNextEpoch,
        dropWaker, callDealloc] at taken
      repeat' split at taken
      all_goals
        cases taken <;>
          first
          | exact before.same rfl rfl rfl rfl
          | exact before.goOn thread rfl rfl rfl rfl rfl
          | exact before.goOn thread (afterWake_closing _ _) rfl rfl rfl rfl

/-- As long as guards stay on their threads, every slot holds what its thread's role says. -/
theorem reachable_slotted (reached : (system cfg).Reachable guardsStay s) : Slotted s := by
  apply reached.invariant Slotted
  · intro state start thread
    rw [start]
    exact ⟨nofun, nofun, nofun⟩
  · exact fun _state _next _action _earlier before stays taken => before.step stays taken

def Frame.inMainLoop : Frame → Bool
  | .stolen _ | .popped _ | .cleared _ | .polling _ | .pending _ _ => true
  | _ => false

def Working (s : State cfg) : Prop :=
  ∀ thread, (s.frame thread).inMainLoop = true → (s.worker thread).isSome = true

private theorem worker_stays {action : Action cfg} (taken : step s action = some next)
    (working : (s.worker thread).isSome = true) : (next.worker thread).isSome = true := by
  cases action with
  | build name worker =>
      simp only [step, build] at taken
      split at taken
      · cases taken
        change (Function.update s.worker name (some worker) thread).isSome = true
        by_cases same : thread = name
        · rw [same, Function.update_self]
          rfl
        · rw [Function.update_of_ne same]
          exact working
      · cases taken
  | _ =>
      simp only [step, batchNew, pushBatch, pushBatchNext, create, place, rngGen, shutdownPoll,
        pop, setWorkerId, TaskSystem.clearNotified, callPoll, pollReturn, pollPanic,
        compareExchangeWeak, TaskSystem.setDropped, callDropInPlace, dropReturn, release,
        fnDealloc, unwind, cloneWaker, wake, wakeFetchOr, wakePush, wakeNextEpoch, dropWaker,
        rcDec, callDealloc, teardown, collect, freeWorker, teardownPop, assertRc, dropTask,
        checkRc] at taken
      repeat' split at taken
      all_goals
        cases taken <;> exact working

/-- A thread comes into the main loop's frames by `pop`, which is a worker's. -/
theorem inMainLoop_before {action : Action cfg} (taken : step s action = some next)
    (inside : (next.frame thread).inMainLoop = true) :
    (s.frame thread).inMainLoop = true ∨ (s.worker thread).isSome = true := by
  have updated {name : Fin cfg.threads} {frame : Frame}
      (own : frame.inMainLoop = true → (s.frame name).inMainLoop = true ∨
        (s.worker name).isSome = true)
      (entered : (Function.update s.frame name frame thread).inMainLoop = true) :
      (s.frame thread).inMainLoop = true ∨ (s.worker thread).isSome = true := by
    by_cases same : thread = name
    · subst same
      rw [Function.update_self] at entered
      exact own entered
    · rw [Function.update_of_ne same] at entered
      exact Or.inl entered
  cases action with
  | build | batchNew | pushBatch | pushBatchNext | create | place | rngGen | shutdownPoll
  | cloneWaker | wake | wakeFetchOr | wakePush | wakeNextEpoch | dropWaker | rcDec
  | callDealloc =>
      rw [(step_ofCall rfl taken).2.1] at inside
      exact Or.inl inside
  | teardown | collect | freeWorker =>
      simp only [step, teardown, collect, freeWorker] at taken
      repeat' split at taken
      all_goals
        cases taken <;> exact Or.inl inside
  | pop name worker =>
      simp only [step, pop] at taken
      split at taken
      · rename_i own _ _ working _ _ _
        split at taken
        · cases taken
          exact updated (fun _ => Or.inr (by rw [working]; rfl)) inside
        · cases taken
      · cases taken
  | teardownPop =>
      obtain ⟨_stage, _idle, ⟨_empty, rfl⟩ | ⟨name, rest, _first, rfl⟩⟩ := teardownPop_cases taken
      · exact Or.inl inside
      · exact updated (fun entered => by cases entered) inside
  | setWorkerId | clearNotified | callPoll | pollReturn | compareExchangeWeak =>
      simp only [step, setWorkerId, TaskSystem.clearNotified, callPoll, pollReturn,
        compareExchangeWeak] at taken
      repeat' split at taken
      all_goals
        cases taken <;> exact updated (fun _ => Or.inl (by simp_all [Frame.inMainLoop])) inside
  | pollPanic | setDropped | callDropInPlace | dropReturn | release | fnDealloc | unwind
  | assertRc | dropTask | checkRc =>
      simp only [step, pollPanic, TaskSystem.setDropped, callDropInPlace, dropReturn, release,
        fnDealloc, unwind, assertRc, dropTask, checkRc] at taken
      repeat' split at taken
      all_goals
        cases taken <;> exact updated (fun entered => by cases entered) inside

private theorem reachable_working {permits : State cfg → Action cfg → Prop}
    (reached : (system cfg).Reachable permits s) : Working s := by
  apply reached.invariant Working
  · intro state start thread inside
    rw [start] at inside
    cases inside
  · intro state next action _earlier before _permitted taken thread inside
    rcases inMainLoop_before taken inside with same | working
    · exact worker_stays taken (before thread same)
    · exact worker_stays taken working

theorem Slotted.reads_runtimeLocal {action : Action cfg} (before : Slotted s)
    (stays : guardsStay s action) (off : offWorkers s action)
    (taken : TaskSystem.step s action = some next)
    (reads : s.reading action = some .runtimeLocal) :
    s.slot action.thread = .runtimeLocal := by
  cases action with
  | wakePush thread misread =>
      simp only [State.reading] at reads
      split at reads
      · cases reads
      · rename_i stored
        change s.slot thread = .runtimeLocal
        cases slot : s.slot thread with
        | null => exact absurd slot stored
        | worker own => exact absurd slot (off own)
        | runtimeLocal => rfl
  | pushBatch thread guard closing =>
      have own : guard = thread := stays
      subst own
      simp only [TaskSystem.step, TaskSystem.pushBatch] at taken
      split at taken
      · split at taken
        · rename_i held
          exact (before guard).ofGuard held.1
        · cases taken
      · cases taken
  | pushBatchNext thread =>
      simp only [TaskSystem.step, TaskSystem.pushBatchNext] at taken
      split at taken
      · rename_i worker moved closing called stored
        exact stored
      · rename_i worker moved closing own called stored
        exact ((before thread).ofBatch closing (by rw [called]; rfl)).1
      · cases taken
  | place thread =>
      simp only [State.reading] at reads
      repeat' split at reads
      all_goals cases reads
  | rngGen | shutdownPoll => cases reads
  | _ => cases reads

theorem Slotted.reads_worker {action : Action cfg} (before : Slotted s) (working : Working s)
    (workers : onWorkers s action) (taken : TaskSystem.step s action = some next)
    (reads : s.reading action = some .worker) :
    ∃ own, s.worker action.thread = some own ∧ s.slot action.thread = .worker own := by
  have found (thread : Fin cfg.threads) (built : (s.worker thread).isSome = true) :
      ∃ own, s.worker thread = some own ∧ s.slot thread = .worker own := by
    obtain ⟨own, same⟩ := Option.isSome_iff_exists.mp built
    exact ⟨own, same, (before thread).ofWorker own same⟩
  cases action with
  | place thread =>
      simp only [State.reading] at reads
      split at reads
      · rename_i task worker front maker called
        split at reads
        · rename_i gets
          exact found thread (workers task worker front maker called gets)
        · cases reads
      · cases reads
  | rngGen thread => exact found thread workers
  | shutdownPoll thread =>
      simp only [TaskSystem.step, shutdownPoll] at taken
      split at taken
      · rename_i task frame _called
        exact found thread (working thread (by rw [frame]; rfl))
      · cases taken
  | wakePush thread misread =>
      simp only [State.reading] at reads
      split at reads <;> cases reads
  | _ => cases reads

/-- In every run in which guards stay on their threads: the slot is taken for a
`RuntimeLocalData` only where `BatchGuard::new` stored it, unless a wake reaches its push on a
worker's thread, and for a `Worker` only where `WorkerBuilder::build` stored it; and a wake
that finds its task idle delivers it, as long as no wake reaches its push on a worker's
thread. -/
theorem wake_delivers_off_workers (reached : (system cfg).Reachable guardsStay s) :
    (∀ action next, guardsStay s action → offWorkers s action → step s action = some next →
        s.reading action = some .runtimeLocal → s.slot action.thread = .runtimeLocal) ∧
      (∀ action next, onWorkers s action → step s action = some next →
        s.reading action = some .worker →
          ∃ own, s.worker action.thread = some own ∧ s.slot action.thread = .worker own) ∧
      ∀ thread task via first actions last, s.call thread = .wake task via →
        (s.tasks task).status = Task.idleStatus → step s (.wakeFetchOr thread) = some first →
        (system cfg).Permitted offWorkers first actions →
        (system cfg).exec first actions = some last →
        Delivery thread task via first actions last := by
  have slotted := reachable_slotted reached
  refine ⟨?_, ?_, ?_⟩
  · exact fun action next stays off taken reads => slotted.reads_runtimeLocal stays off taken reads
  · exact fun action next workers taken reads =>
      slotted.reads_worker (reachable_working reached) workers taken reads
  · intro thread task via first actions last called idle taken permitted ran
    refine delivery ?_ permitted ran
    simp only [step, wakeFetchOr, called, idle, Task.schedules_idle] at taken
    cases taken
    exact Function.update_self ..

/-- On a worker's thread the wake ends without a delivery, whatever list the misread
`Worker` names. -/
theorem misread_undelivered {own : WorkerId} {misread : ListId cfg} {last : State cfg}
    (called : s.call thread = .push task via) (slot : s.slot thread = .worker own) :
    ¬ Delivery thread task via s [.wakePush thread misread] last := by
  intro delivery
  rcases delivery with pending | pushed
  · exact pending.unpushed (.wakePush thread misread) List.mem_cons_self ⟨misread, rfl⟩
  · obtain ⟨before, again, after, middle, next, split, _, start, taken, _, _, goes⟩ := pushed
    cases before with
    | nil =>
        have same : s = middle := Option.some.inj start
        subst same
        rw [if_neg (by simp [slot])] at goes
        simp only [step, wakePush, called, slot] at taken
        cases taken
        have announced := goes.1
        rw [State.setCall_call, Function.update_self] at announced
        cases via <;> cases announced
    | cons head rest =>
        have impossible := congrArg List.length split
        simp only [List.length_cons, List.length_nil, List.length_append] at impossible
        omega

def parkTask : List (Action twoWorkers) :=
  [.build thread0 0, .build thread1 1, .create mainThread 8 0 false .run, .place mainThread,
    .pop thread0 0, .clearNotified thread0, .callPoll thread0,
    .cloneWaker thread0 8 (.lent thread0) 5, .pollReturn thread0 false,
    .compareExchangeWeak thread0 false]

def wakeOnMain : List (Action twoWorkers) := parkTask ++ [.wake mainThread 8 (.byRef 5)]

private theorem wakeOnMain_runs :
    ((system twoWorkers).exec (State.init twoWorkers) wakeOnMain).isSome = true := by
  decide

def onMain : State twoWorkers :=
  ((system twoWorkers).exec (State.init twoWorkers) wakeOnMain).get wakeOnMain_runs

private theorem onMain_reached : (system twoWorkers).Reachable guardsStay onMain := by
  refine System.Reachable.replay (.initial _ rfl) ?_ wakeOnMain_runs
  exact System.permitted_of_all wakeOnMain (by simp [wakeOnMain, parkTask, guardsStay]) _

/-- Worker 0 spawns task 9 from within the poll of task 7, and the main thread wakes task 8
with a `BatchGuard`; both are about to push. -/
def pushFromBoth : List (Action twoWorkers) :=
  parkTask ++ [.create mainThread 7 0 false .run, .place mainThread, .pop thread0 0,
    .clearNotified thread0, .callPoll thread0, .create thread0 9 1 false .spawn,
    .batchNew mainThread, .wake mainThread 8 (.byRef 5), .wakeFetchOr mainThread]

private theorem pushFromBoth_runs :
    ((system twoWorkers).exec (State.init twoWorkers) pushFromBoth).isSome = true := by
  decide

def bothPushing : State twoWorkers :=
  ((system twoWorkers).exec (State.init twoWorkers) pushFromBoth).get pushFromBoth_runs

private theorem bothPushing_reached : (system twoWorkers).Reachable guardsStay bothPushing := by
  refine System.Reachable.replay (.initial _ rfl) ?_ pushFromBoth_runs
  exact System.permitted_of_all pushFromBoth (by simp [pushFromBoth, parkTask, guardsStay]) _

theorem wake_on_main_delivers :
    (∃ first last, step onMain (.wakeFetchOr 0) = some first ∧
      (system twoWorkers).exec first [.wakePush 0 .teardown, .wakeNextEpoch 0] = some last ∧
      last.lists (.queue 0) = [8] ∧
      Delivery 0 8 (.byRef 5) first [.wakePush 0 .teardown, .wakeNextEpoch 0] last) ∧
      bothPushing.slot 0 = .runtimeLocal ∧
      ∃ own, bothPushing.worker 1 = some own ∧ bothPushing.slot 1 = .worker own := by
  have readings := wake_delivers_off_workers bothPushing_reached
  refine ⟨⟨_, _, rfl, rfl, rfl, ?_⟩, ?_, ?_⟩
  · refine (wake_delivers_off_workers onMain_reached).2.2 0 8 (.byRef 5) _ _ _ rfl rfl rfl ?_ rfl
    exact ⟨nofun, fun _ _ => ⟨trivial, fun _ _ => trivial⟩⟩
  · exact readings.1 (.wakePush 0 .teardown) _ trivial nofun rfl rfl
  · refine readings.2.1 (.place 1) _ ?_ rfl rfl
    exact fun _ _ _ _ _ _ => rfl

def wakeOnWorker : List (Action twoWorkers) :=
  parkTask ++ [.create mainThread 7 0 false .run, .place mainThread, .pop thread0 0,
    .clearNotified thread0, .callPoll thread0, .wake thread0 8 (.byRef 5)]

private theorem wakeOnWorker_runs :
    ((system twoWorkers).exec (State.init twoWorkers) wakeOnWorker).isSome = true := by
  decide

def onWorker : State twoWorkers :=
  ((system twoWorkers).exec (State.init twoWorkers) wakeOnWorker).get wakeOnWorker_runs

private theorem onWorker_reached : (system twoWorkers).Reachable noPanic onWorker := by
  refine System.Reachable.replay (.initial _ rfl) ?_ wakeOnWorker_runs
  exact System.permitted_of_all wakeOnWorker (by simp [wakeOnWorker, parkTask, noPanic]) _

/-- The `Worker` in the slot is taken for a `RuntimeLocalData`, and the idle task
is not delivered. -/
theorem wake_on_worker_undelivered :
    (system twoWorkers).Reachable noPanic onWorker ∧ onWorker.slot 1 = .worker 0 ∧
      onWorker.call 1 = .wake 8 (.byRef 5) ∧ (onWorker.tasks 8).status = Task.idleStatus ∧
      ∃ first, step onWorker (.wakeFetchOr 1) = some first ∧
        ∀ misread, first.reading (.wakePush 1 misread) = some .runtimeLocal ∧
          ¬ (first.slot 1).Holds .runtimeLocal ∧
          ∃ last, (system twoWorkers).exec first [.wakePush 1 misread] = some last ∧
            ¬ Delivery 1 8 (.byRef 5) first [.wakePush 1 misread] last := by
  refine ⟨onWorker_reached, rfl, rfl, rfl, _, rfl, ?_⟩
  intro misread
  refine ⟨rfl, fun holds => holds, _, rfl, ?_⟩
  exact misread_undelivered rfl rfl

end Yaay.TaskSystem
