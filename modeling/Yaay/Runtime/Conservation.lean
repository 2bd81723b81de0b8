import Mathlib.Algebra.BigOperators.Fin
import Yaay.Runtime.LocalQueue
import Yaay.Tally

set_option autoImplicit false

/-! No task is lost and none is polled twice for one push: in every run the tasks pushed to
the workers' queues are those polled, those in a worker's hand and those still queued,
and the tasks a thread was asked to push are those that it has pushed and has yet to push. -/

namespace Yaay.Scheduler

open Yaay.Transition

variable {n : Nat} {s s' : State n}

def batchOf (queue : List (Entry n)) : Multiset Work := queue.map Entry.work

def Pc.held (pc : Pc n) : Multiset Work := pc.hand.toList

def State.queued (s : State n) : Multiset Work := ∑ w, batchOf (s.queue w)

def State.inHand (s : State n) : Multiset Work := ∑ w, (s.pc w).held

def Call.toPush : Call n → Multiset Work
  | .pushing todo _ => (todo.map (fun insert => (insert.works : Multiset Work))).sum
  | .shutdownPush _ _ => {.shutdown}
  | _ => 0

def polls (s : State n) : Action n → Multiset Work
  | .work w _ =>
      match s.pc w with
      | .poll work => {work}
      | _ => 0
  | _ => 0

def pushes (s : State n) : Action n → Multiset Work
  | .call thread =>
      match s.call thread with
      | .pushing (insert :: _) _ => insert.works
      | .shutdownPush _ _ => {.shutdown}
      | _ => 0
  | .spawn w task => if (s.seed w).toNat % n + 1 = n then {.task task} else 0
  | .defer _ task => {.task task}
  | _ => 0

/-- The tasks that the step makes its thread responsible for. `Shutdown::poll` takes on
one for each flag that it finds unset. -/
def requests (s : State n) : Action n → Multiset Work
  | .call thread =>
      match s.call thread with
      | .shutdownRead other _ => if s.shutdown other then 0 else {.shutdown}
      | _ => 0
  | .run _ task | .wake _ _ task | .spawn _ task | .defer _ task => {.task task}
  | .pushBatch _ tasks => ∑ target, ((tasks target).map Work.task : Multiset Work)
  | .shutdownAsync _ => Multiset.replicate n .shutdown
  | .work _ _ | .rngGen _ => 0

/-- The thread that pushes, now or later, what the action asks for. -/
def Action.thread : Action n → Option (Thread n)
  | .call thread | .shutdownAsync thread => some thread
  | .run name _ | .wake name _ _ | .pushBatch name _ => some (.external name)
  | .spawn w _ | .defer w _ => some (.worker w)
  | .work _ _ | .rngGen _ => none

def ofThread (thread : Thread n) (amount : State n → Action n → Multiset Work) (s : State n)
    (action : Action n) : Multiset Work :=
  if action.thread = some thread then amount s action else 0

@[simp] theorem batchOf_nil : batchOf ([] : List (Entry n)) = 0 := rfl

@[simp] theorem batchOf_cons (entry : Entry n) (rest : List (Entry n)) :
    batchOf (entry :: rest) = {entry.work} + batchOf rest := rfl

@[simp] theorem batchOf_append (front back : List (Entry n)) :
    batchOf (front ++ back) = batchOf front + batchOf back := by
  rw [batchOf, List.map_append, ← Multiset.coe_add]
  rfl

@[simp] theorem batchOf_stamped (works : List Work) (stamp : Stamp n) :
    batchOf (works.map (⟨·, stamp⟩)) = works := by
  rw [batchOf, List.map_map]
  exact congrArg _ (List.map_id works)

private theorem batchOf_restamp (s : State n) (change : Stamp n → Stamp n) (w : Fin n) :
    batchOf ((s.restamp change).queue w) = batchOf (s.queue w) := by
  rw [batchOf, State.restamp_queue, List.map_map]
  rfl

@[simp] theorem unparked_held (pc : Pc n) : pc.unparked.held = pc.held := by
  cases pc <;> rfl

private theorem queued_setQueue (s : State n) (w : Fin n) (queue : List (Entry n)) :
    (s.setQueue w queue).queued + batchOf (s.queue w) = s.queued + batchOf queue :=
  sum_update batchOf s.queue w queue

private theorem inHand_setPc (s : State n) (w : Fin n) (pc : Pc n) :
    (s.setPc w pc).inHand + (s.pc w).held = s.inHand + pc.held :=
  sum_update Pc.held s.pc w pc

private theorem queued_congr (same : ∀ w, batchOf (s'.queue w) = batchOf (s.queue w)) :
    s'.queued = s.queued :=
  Finset.sum_congr rfl (fun w _member => same w)

private theorem inHand_congr (same : ∀ w, (s'.pc w).held = (s.pc w).held) : s'.inHand = s.inHand :=
  Finset.sum_congr rfl (fun w _member => same w)

private theorem queued_insert (s : State n) (insert : Insert n) (stamp : Stamp n) :
    (s.insert insert stamp).queued = s.queued + insert.works := by
  have moved := queued_setQueue s insert.target
    (if insert.front then insert.works.map (⟨·, stamp⟩) ++ s.queue insert.target
      else s.queue insert.target ++ insert.works.map (⟨·, stamp⟩))
  refine add_right_cancel (b := batchOf (s.queue insert.target)) (moved.trans ?_)
  rw [add_assoc]
  refine congrArg (s.queued + ·) ?_
  split
  · rw [batchOf_append, batchOf_stamped]
  · rw [batchOf_append, batchOf_stamped, add_comm]

private theorem queued_pop {victim : Fin n} {entry : Entry n} {rest : List (Entry n)}
    (here : s.queue victim = entry :: rest) :
    (s.setQueue victim rest).queued + {entry.work} = s.queued := by
  have left := queued_setQueue s victim rest
  rw [here, batchOf_cons, ← add_assoc] at left
  exact add_right_cancel left

private theorem take_balance {w victim : Fin n} {entry : Entry n} {rest : List (Entry n)}
    {pc : Pc n}
    (here : s.queue victim = entry :: rest) (free : (s.pc w).held = 0)
    (takes : pc.held = {entry.work}) :
    ((s.setQueue victim rest).setPc w pc).queued + ((s.setQueue victim rest).setPc w pc).inHand =
      s.queued + s.inHand := by
  have moved := inHand_setPc (s.setQueue victim rest) w pc
  rw [State.setQueue_pc, free, takes, add_zero] at moved
  have same : (s.setQueue victim rest).inHand = s.inHand := rfl
  rw [moved, same, add_comm s.inHand, ← add_assoc, ← queued_pop here]
  rfl

private theorem setPc_balance (s : State n) (w : Fin n) {pc : Pc n}
    (same : pc.held = (s.pc w).held) :
    (s.setPc w pc).queued + (s.setPc w pc).inHand = s.queued + s.inHand := by
  have moved := inHand_setPc s w pc
  rw [same] at moved
  rw [add_right_cancel moved]
  rfl

private theorem popFront_balance (s : State n) (w victim : Fin n) {empty : Pc n}
    {found : Work → Pc n}
    (free : (s.pc w).held = 0) (without : empty.held = 0)
    (takes : ∀ work, (found work).held = {work}) :
    (s.popFront w victim empty found).queued + (s.popFront w victim empty found).inHand =
      s.queued + s.inHand := by
  rcases popFront_cases s w victim empty found with ⟨_none, shape⟩ | ⟨entry, rest, here, shape⟩
  · rw [shape]
    exact setPc_balance s w (without.trans free.symm)
  · rw [shape]
    exact take_balance here free (takes entry.work)

private theorem pollTask_balance {w : Fin n} {work : Work} (here : s.pc w = .poll work) :
    (pollTask s w work).queued + (pollTask s w work).inHand + {work} = s.queued + s.inHand := by
  have moved := inHand_setPc s w (.polling work)
  have held : (s.pc w).held = {work} := by rw [here]; rfl
  have none : (Pc.polling work : Pc n).held = 0 := rfl
  rw [held, none, add_zero] at moved
  rw [← moved, ← add_assoc]
  cases work <;> rfl

private theorem work_balance {w : Fin n} {refuse : Bool} (taken : work s w refuse = some s') :
    s'.queued + s'.inHand + polls s (.work w refuse) = s.queued + s.inHand := by
  have stays {pc : Pc n} (same : pc.held = (s.pc w).held) := setPc_balance s w same
  cases here : s.pc w with
  | poll work =>
      simp only [Scheduler.work, here] at taken
      cases taken
      simp only [polls, here]
      exact pollTask_balance here
  | drain | recheck old | popChanged new =>
      simp only [work, here] at taken
      cases taken
      simp only [polls, here, add_zero]
      exact popFront_balance s w w (by rw [here]; rfl) rfl (fun _work => rfl)
  | polling work =>
      simp only [Scheduler.work, here] at taken
      split at taken <;> cases taken
      simp only [polls, here, add_zero]
      exact stays (by rw [here]; rfl)
  | check | search old | wait old | park old | reread old =>
      simp only [work, here] at taken
      cases taken
      simp only [polls, here, add_zero]
      refine stays ?_
      rw [here]
      split <;> rfl
  | deactivate =>
      simp only [work, here] at taken
      cases taken
      simp only [polls, here, add_zero]
      exact stays (by rw [here]; rfl)
  | steal old tries =>
      simp only [work, here, trySteal] at taken
      simp only [polls, here, add_zero]
      repeat' split at taken
      all_goals
        cases taken
      all_goals
        exact stays (by rw [here]; rfl)
  | stealPop old tries victim =>
      simp only [work, here, stealPop] at taken
      cases taken
      simp only [polls, here, add_zero]
      split
      · exact stays (by rw [here]; rfl)
      · rename_i first rest queue
        exact take_balance queue (by rw [here]; rfl) rfl
  | activate work =>
      simp only [Scheduler.work, here] at taken
      cases taken
      simp only [polls, here, add_zero]
      refine stays ?_
      rw [here]
      split <;> rfl
  | unpark work =>
      simp only [Scheduler.work, here] at taken
      cases taken
      simp only [polls, here, add_zero]
      have held : (Pc.poll work : Pc n).held = (s.unparkAll.pc w).held := by
        rw [State.unparkAll_pc, here]
        rfl
      have same : s.unparkAll.inHand = s.inHand := inHand_congr (fun u => unparked_held (s.pc u))
      rw [setPc_balance s.unparkAll w held, same]
      rfl
  | parked old | returned => simp [work, here] at taken

private theorem callStep_balance {thread : Thread n} (taken : callStep s thread = some s') :
    s'.queued + s'.inHand = s.queued + s.inHand + pushes s (.call thread) := by
  cases here : s.call thread with
  | none => simp [callStep, here] at taken
  | pushing todo origin =>
      cases todo with
      | cons insert rest =>
          simp only [callStep, here] at taken
          cases taken
          simp only [pushes, here]
          rw [add_right_comm, ← queued_insert s insert (.pushed thread)]
          rfl
      | nil =>
          simp only [callStep, here, nextEpoch] at taken
          simp only [pushes, here, add_zero]
          split at taken
          all_goals
            obtain rfl := Option.some.inj taken
            refine congrArg₂ (· + ·) (queued_congr (fun w => ?_)) (inHand_congr (fun _w => rfl))
            simp only [State.setCall_queue, State.finish_queue, batchOf_restamp]
  | shutdownRead other rest =>
      simp only [callStep, here] at taken
      cases taken
      simp only [pushes, here, add_zero]
      rfl
  | shutdownPush other rest =>
      simp only [callStep, here] at taken
      cases taken
      have inserted := queued_insert s ⟨other, [.shutdown], true⟩ (.pushed thread)
      simp only [pushes, here]
      rw [add_right_comm]
      exact congrArg (· + s.inHand) inserted
  | unpark origin =>
      simp only [callStep, here, wakeAllSlow] at taken
      cases taken
      simp only [pushes, here, add_zero]
      refine congrArg₂ (· + ·) (queued_congr (fun w => ?_))
        (inHand_congr (fun w => unparked_held (s.pc w)))
      simp only [State.finish_queue, State.setCall_queue, batchOf_restamp, State.unparkAll_queue]

theorem enter_cases {thread : Thread n} {todo : List (Insert n)} {origin : Origin}
    (taken : enter s thread todo origin = some s') :
    s.call thread = .none ∧ s' = s.setCall thread (.pushing todo origin) := by
  simp only [enter] at taken
  split at taken
  · rename_i allowed
    cases taken
    exact ⟨Call.isNone_iff.mp allowed.2, rfl⟩
  · cases taken

private theorem enter_balance {thread : Thread n} {todo : List (Insert n)} {origin : Origin}
    (taken : enter s thread todo origin = some s') :
    s'.queued + s'.inHand = s.queued + s.inHand := by
  obtain ⟨_idle, rfl⟩ := enter_cases taken
  rfl

/-- What a step polls and leaves is what was there and what it pushes. -/
theorem step_balance {action : Action n} (taken : step s action = some s') :
    s'.queued + s'.inHand + polls s action = s.queued + s.inHand + pushes s action := by
  cases action with
  | work w refuse =>
      rw [work_balance taken]
      exact (add_zero _).symm
  | call thread =>
      rw [← callStep_balance taken]
      exact add_zero _
  | run name task =>
      simp only [step, run] at taken
      split at taken
      · exact congrArg (· + 0) (enter_balance taken)
      · cases taken
  | wake name target task => exact congrArg (· + 0) (enter_balance taken)
  | pushBatch name tasks =>
      simp only [step, pushBatch] at taken
      split at taken
      · cases taken
      · exact congrArg (· + 0) (enter_balance taken)
  | shutdownAsync thread => exact congrArg (· + 0) (enter_balance taken)
  | spawn w task =>
      simp only [step, spawn] at taken
      simp only [polls, pushes, add_zero]
      split at taken
      · split at taken
        · rename_i other
          rw [if_neg other, add_zero]
          split at taken
          · have entered := enter_balance taken
            exact entered
          · cases taken
        · rename_i last
          rw [if_pos (not_not.mp last), add_right_comm]
          cases taken
          exact congrArg (· + s.inHand)
            (queued_insert (s.setSeed w _) ⟨w, [.task task], false⟩ .own)
      · cases taken
  | defer w task =>
      simp only [step, defer] at taken
      simp only [polls, pushes, add_zero]
      split at taken
      · cases taken
        rw [add_right_comm]
        exact congrArg (· + s.inHand) (queued_insert s ⟨w, [.task task], true⟩ .own)
      · cases taken
  | rngGen w =>
      simp only [step, rngGen] at taken
      split at taken
      · cases taken
        rfl
      · cases taken

@[simp] theorem toPush_shutdownLoop (rest : List (Fin n)) : (shutdownLoop rest).toPush = 0 := by
  cases rest <;> rfl

private theorem toPush_everyone (origin : Origin) :
    (Call.pushing ((List.finRange n).map (fun target => ⟨target, [.shutdown], true⟩))
      origin).toPush = Multiset.replicate n .shutdown := by
  simp [Call.toPush, Function.comp_def, Multiset.nsmul_singleton]

private theorem toPush_batch (tasks : Fin n → List Nat) (targets : List (Fin n)) (origin : Origin) :
    (Call.pushing ((targets.filter (fun target => tasks target ≠ [])).map
      (fun target => ⟨target, (tasks target).map .task, false⟩)) origin).toPush =
      (targets.map (fun target => ((tasks target).map Work.task : Multiset Work))).sum := by
  induction targets with
  | nil => rfl
  | cons target rest ih =>
      by_cases empty : tasks target = []
      · rw [List.filter_cons_of_neg (by simp [empty]), ih, List.map_cons, List.sum_cons, empty]
        exact (zero_add _).symm
      · rw [List.filter_cons_of_pos (by simp [empty]), List.map_cons, List.map_cons,
          List.sum_cons, ← ih]
        rfl

private theorem enter_toPush {caller thread : Thread n} {todo : List (Insert n)} {origin : Origin}
    (taken : enter s caller todo origin = some s') :
    (s'.call thread).toPush =
      (s.call thread).toPush +
        if caller = thread then (Call.pushing todo origin).toPush else 0 := by
  obtain ⟨idle, rfl⟩ := enter_cases taken
  rw [State.setCall_call]
  by_cases same : caller = thread
  · rw [if_pos same, ← same, Function.update_self, idle]
    exact (zero_add _).symm
  · rw [if_neg same, Function.update_of_ne (Ne.symm same), add_zero]

private theorem callStep_toPush {thread : Thread n} (taken : callStep s thread = some s') :
    (s'.call thread).toPush + pushes s (.call thread) =
      (s.call thread).toPush + requests s (.call thread) := by
  cases here : s.call thread with
  | none => simp [callStep, here] at taken
  | pushing todo origin =>
      cases todo with
      | cons insert rest =>
          simp only [callStep, here] at taken
          cases taken
          simp only [pushes, requests, here, State.setCall_call, Function.update_self, add_zero,
            Call.toPush, List.map_cons, List.sum_cons]
          exact add_comm ..
      | nil =>
          simp only [callStep, here, nextEpoch] at taken
          simp only [pushes, requests, here, add_zero]
          split at taken
          all_goals
            obtain rfl := Option.some.inj taken
            simp only [State.setCall_call, State.finish_call, Function.update_self]
            rfl
  | shutdownRead other rest =>
      simp only [callStep, here] at taken
      cases taken
      simp only [pushes, requests, here, State.setCall_call, Function.update_self, add_zero]
      cases s.shutdown other with
      | true => exact toPush_shutdownLoop rest
      | false => exact (zero_add _).symm
  | shutdownPush other rest =>
      simp only [callStep, here] at taken
      cases taken
      simp only [pushes, requests, here, State.setCall_call, Function.update_self,
        toPush_shutdownLoop, zero_add, add_zero]
      rfl
  | unpark origin =>
      simp only [callStep, here, wakeAllSlow] at taken
      cases taken
      simp only [pushes, requests, here, State.finish_call, State.setCall_call,
        Function.update_self]
      rfl

/-- What a thread was asked to push it pushes in the step or has yet to push. -/
theorem request_balance (calling : Calling s) {action : Action n}
    (taken : step s action = some s') (thread : Thread n) :
    (s'.call thread).toPush + ofThread thread pushes s action =
      (s.call thread).toPush + ofThread thread requests s action := by
  have entered {caller : Thread n} {todo : List (Insert n)} {origin : Origin} {t : State n}
      (same : t.call = s.call) (answers : action.thread = some caller)
      (none : pushes s action = 0)
      (asked : (Call.pushing todo origin).toPush = requests s action)
      (taken : enter t caller todo origin = some s') :
      (s'.call thread).toPush + ofThread thread pushes s action =
        (s.call thread).toPush + ofThread thread requests s action := by
    rw [enter_toPush taken, same, asked, ofThread, ofThread, answers, none, ite_self, add_zero]
    simp only [Option.some.injEq]
  cases action with
  | work w refuse =>
      refine congrArg (· + 0) ?_
      rcases (worked_of_work taken).call thread with same | ⟨self, here, looping, _flag⟩
      · rw [same]
      · rw [looping, toPush_shutdownLoop, self, idle_of_poll calling here]
        rfl
  | call caller =>
      by_cases same : caller = thread
      · subst same
        simp only [ofThread, Action.thread, if_pos]
        exact callStep_toPush taken
      · have different : (Action.call caller).thread ≠ some thread :=
          fun other => same (Option.some.inj other)
        rw [(called_of_callStep taken).call thread (Ne.symm same), ofThread, ofThread,
          if_neg different, if_neg different]
  | run name task =>
      simp only [step, run] at taken
      split at taken
      · exact entered rfl rfl rfl rfl taken
      · cases taken
  | wake name target task => exact entered rfl rfl rfl rfl taken
  | pushBatch name tasks =>
      simp only [step, pushBatch] at taken
      split at taken
      · cases taken
      · refine entered rfl rfl rfl ?_ taken
        rw [toPush_batch, ← Fin.sum_univ_def]
        rfl
  | shutdownAsync caller => exact entered rfl rfl rfl (toPush_everyone _) taken
  | spawn w task =>
      simp only [step, spawn] at taken
      split at taken
      · split at taken
        · rename_i other
          split at taken
          · exact entered (t := s.setSeed w _) rfl rfl (if_neg other) rfl taken
          · cases taken
        · rename_i last
          cases taken
          simp only [ofThread, pushes, requests, if_pos (not_not.mp last)]
          rfl
      · cases taken
  | defer w task =>
      simp only [step, defer] at taken
      split at taken
      · cases taken
        rfl
      · cases taken
  | rngGen w =>
      simp only [step, rngGen] at taken
      split at taken
      · cases taken
        rfl
      · cases taken

private theorem nothing_at_start (start : Initial s) : s.queued + s.inHand = 0 := by
  have queued : s.queued = 0 := by
    refine Finset.sum_eq_zero (fun w _member => ?_)
    rw [start.queue w]
    rfl
  have inHand : s.inHand = 0 := by
    refine Finset.sum_eq_zero (fun w _member => ?_)
    rw [start.pc w]
    rfl
  rw [queued, inHand, add_zero]

private theorem calling_initial (start : Initial s) : Calling s :=
  fun _w busy => absurd (start.call _) busy

/-- In every run the tasks pushed are those polled, those in a worker's hand and those still
queued, each as often; and a thread pushes what it is asked to, less what the call that it
is inside of has still to push. -/
theorem tasks_conserved {start last : State n} {actions : List (Action n)}
    (initial : Initial start) (ran : (system n).exec start actions = some last) :
    last.queued + last.inHand + (system n).tally polls start actions =
        (system n).tally pushes start actions ∧
      ∀ thread, (last.call thread).toPush +
          (system n).tally (ofThread thread pushes) start actions =
        (system n).tally (ofThread thread requests) start actions := by
  constructor
  · have balance := (system n).tally_eq (fun _ => True)
      (fun s => s.queued + s.inHand) polls pushes (fun _ _ _ _ _ => trivial)
      (fun _ _ _ _ taken => step_balance taken) trivial ran
    rw [balance, nothing_at_start initial, zero_add]
  · intro thread
    have balance := (system n).tally_eq Calling
      (fun s => (s.call thread).toPush) (ofThread thread pushes) (ofThread thread requests)
      (fun _ _ _ calling taken => calling_step calling taken)
      (fun _ _ _ calling taken => request_balance calling taken thread)
      (calling_initial initial) ran
    rw [balance, initial.call thread]
    exact zero_add _

def runAndSpawn : List (Action 2) :=
  [.run 0 5, .call (.external 0), .call (.external 0)] ++ works first 2 ++
    [.spawn first 6, .wake 1 second 7]

private theorem runAndSpawn_runs : ((system 2).exec pair runAndSpawn).isSome = true := by decide

theorem tasks_conserved_of_spawn :
    ∃ last, (system 2).exec pair runAndSpawn = some last ∧
      last.queued + last.inHand + (system 2).tally polls pair runAndSpawn =
        (system 2).tally pushes pair runAndSpawn ∧
      (last.call (.external 1)).toPush +
          (system 2).tally (ofThread (.external 1) pushes) pair runAndSpawn =
        (system 2).tally (ofThread (.external 1) requests) pair runAndSpawn := by
  have ran := (Option.some_get runAndSpawn_runs).symm
  obtain ⟨conserved, threads⟩ := tasks_conserved pair_initial ran
  exact ⟨_, ran, conserved, threads (.external 1)⟩

end Yaay.Scheduler
