import Yaay.Runtime.LocalQueue
import Yaay.Runtime.Parking
import Yaay.Runtime.TaskExclusivity
import Yaay.Runtime.TaskLocality

set_option autoImplicit false

/-! The unchecked accesses and the remainders of the scheduler are in bounds: victims and
targets among the other workers, and the worker ids that wakes go by. -/

namespace Yaay.TaskSystem

open Yaay.Transition

variable {cfg : Config} {s next : State cfg}

/-- Every id that a task or a thread names is that of a worker. -/
structure Indexed (s : State cfg) : Prop where
  tasks : ∀ task, (s.tasks task).workerId < cfg.workers
  threads : ∀ thread own, s.worker thread = some own → own < cfg.workers

/-- The writers of `worker_id` are `Task::new` and `try_steal`. -/
theorem workerId_of_step {action : Action cfg} (taken : step s action = some next)
    (task : TaskRef) :
    (next.tasks task).workerId = (s.tasks task).workerId ∨ (next.tasks task).workerId = 0 ∨
      ∃ own, s.worker action.thread = some own ∧ (next.tasks task).workerId = own := by
  have written := header_step taken task
  generalize next.tasks task = header at written ⊢
  cases written with
  | created => exact Or.inr (Or.inl rfl)
  | moved own thief => exact Or.inr (Or.inr ⟨own, thief, rfl⟩)
  | _ => exact Or.inl rfl

private theorem worker_of_step {action : Action cfg} (taken : step s action = some next)
    {thread : Fin cfg.threads} {own : WorkerId} (named : next.worker thread = some own) :
    s.worker thread = some own ∨ own < cfg.workers := by
  cases action with
  | build name worker =>
      simp only [step, build] at taken
      split at taken
      · rename_i free
        cases taken
        change Function.update s.worker name (some worker) thread = some own at named
        by_cases here : thread = name
        · rw [here, Function.update_self] at named
          exact Or.inr (Option.some.inj named ▸ free.2.2.2.2.1)
        · rw [Function.update_of_ne here] at named
          exact Or.inl named
      · cases taken
  | _ =>
      simp only [step, batchNew, pushBatch, pushBatchNext, create, place, rngGen, shutdownPoll,
        pop, setWorkerId, TaskSystem.clearNotified, callPoll, pollReturn, pollPanic,
        compareExchangeWeak, TaskSystem.setDropped, callDropInPlace, dropReturn, release,
        fnDealloc, unwind, cloneWaker, wake, wakeFetchOr, wakePush, wakeNextEpoch, dropWaker,
        rcDec, callDealloc, teardown, collect, freeWorker, teardownPop, assertRc, dropTask,
        checkRc] at taken
      repeat' split at taken
      all_goals
        cases taken <;> exact Or.inl named

private theorem indexed_step {action : Action cfg} (indexed : Indexed s)
    (taken : step s action = some next) : Indexed next where
  tasks := by
    intro task
    rcases workerId_of_step taken task with same | zero | ⟨own, thief, stolen⟩
    · rw [same]
      exact indexed.tasks task
    · rw [zero]
      exact Nat.lt_of_le_of_lt (Nat.zero_le _) (indexed.tasks task)
    · rw [stolen]
      exact indexed.threads action.thread own thief
  threads := by
    intro thread own named
    rcases worker_of_step taken named with before | below
    · exact indexed.threads thread own before
    · exact below

theorem reachable_indexed {permits : State cfg → Action cfg → Prop} (some : 0 < cfg.workers)
    (reached : (system cfg).Reachable permits s) : Indexed s := by
  apply reached.invariant Indexed
  · intro state start
    rw [start]
    exact ⟨fun _ => some, fun _ _ named => by cases named⟩
  · exact fun _state _next _action _earlier indexed _permitted taken => indexed_step indexed taken

end Yaay.TaskSystem

namespace Yaay.Scheduler

open Yaay.Transition

variable {n : Nat} {s s' : State n} {w : Fin n}

/-- A worker that tries to steal has a victim: the remainder is not by 0, the index is one
of `other_workers`, and the step is possible. -/
structure Robbing (s : State n) (w : Fin n) (old : Snapshot) (tries : Nat) : Prop where
  several : 2 ≤ n
  index : (s.seed w).toNat % (n - 1) < (others w).length
  goes : (trySteal s w old tries).isSome = true

/-- What `spawn` does with the seed: every residue but the last is an index of
`other_workers`, and the last one is this worker's own queue. -/
structure Spawning (s : State n) (w : Fin n) (task : Nat) : Prop where
  index : (s.seed w).toNat % n + 1 ≠ n → (s.seed w).toNat % n < (others w).length
  goes : (spawn s w task).isSome = true
  own : ∀ s', spawn s w task = some s' →
    ((s'.call (.worker w) = .none ∧
      s'.queue w = s.queue w ++ [⟨.task task, .own⟩]) ↔
        (s.seed w).toNat % n = (others w).length)

/-- `spawn` pushes to another worker's queue, under `next_epoch`, unless the seed has the
last residue. -/
theorem spawn_cases (task : Nat) (user : s.userCode (.worker w) = true)
    (idle : s.call (.worker w) = .none) :
    ∃ s', spawn s w task = some s' ∧
      if (s.seed w).toNat % n + 1 = n then
        s'.call (.worker w) = .none ∧ s'.queue w = s.queue w ++ [⟨.task task, .own⟩]
      else
        ∃ target, (others w)[(s.seed w).toNat % n]? = some target ∧
          s'.call (.worker w) = .pushing [⟨target, [.task task], false⟩] .push := by
  have allowed : s.userCode (.worker w) = true ∧ (s.call (.worker w)).isNone = true :=
    ⟨user, by rw [idle]; rfl⟩
  rw [spawn, if_pos allowed]
  by_cases last : (s.seed w).toNat % n + 1 = n
  · simp only [last, ne_eq, not_true_eq_false, if_false, if_true]
    refine ⟨_, rfl, idle, ?_⟩
    exact Function.update_self ..
  · have below : (s.seed w).toNat % n < n := Nat.mod_lt _ (Nat.zero_lt_of_lt w.isLt)
    have index : (s.seed w).toNat % n < (others w).length := by
      rw [others_length]
      omega
    simp only [ne_eq, last, not_false_eq_true, if_true, if_false,
      List.getElem?_eq_getElem index]
    refine ⟨_, if_pos allowed, _, rfl, ?_⟩
    exact Function.update_self ..

private theorem spawning_of_user {task : Nat} (user : s.userCode (.worker w) = true)
    (idle : s.call (.worker w) = .none) : Spawning s w task := by
  have below : (s.seed w).toNat % n < n := Nat.mod_lt _ (Nat.zero_lt_of_lt w.isLt)
  obtain ⟨next, spawned, pushed⟩ := spawn_cases task user idle
  constructor
  · intro other
    rw [others_length]
    omega
  · rw [spawned]
    rfl
  · intro s' taken
    rw [others_length]
    obtain rfl : next = s' := Option.some.inj (spawned.symm.trans taken)
    by_cases last : (s.seed w).toNat % n + 1 = n
    · rw [if_pos last] at pushed
      exact ⟨fun _ => by omega, fun _ => pushed⟩
    · rw [if_neg last] at pushed
      obtain ⟨target, _found, pushing⟩ := pushed
      constructor
      · rintro ⟨still, _queue⟩
        rw [still] at pushing
        cases pushing
      · intro equal
        omega

private theorem robbing_of_place (consistent : Consistent s) (small : n < 512) {old : Snapshot}
    {tries : Nat} (place : s.pc w = .steal old tries) : Robbing s w old tries := by
  have held := consistent.held w old (by rw [place]; rfl)
  have branch := consistent.branch w
  rw [place] at branch
  have two := held.several small branch.1
  obtain ⟨s', goes⟩ := trySteal_of_busy (w := w) small held branch.1 tries
  exact ⟨two, index_of_several two w _, by rw [goes]; rfl⟩

private theorem seed_update (seed : Fin n → BitVec 32) (u w : Fin n) :
    Function.update seed u (Rng.nextSeed (seed u)) w = seed w ∨
      Function.update seed u (Rng.nextSeed (seed u)) w = Rng.nextSeed (seed w) := by
  by_cases same : w = u
  · rw [same, Function.update_self]
    exact Or.inr rfl
  · rw [Function.update_of_ne same]
    exact Or.inl rfl

private theorem seed_of_work {u : Fin n} {refuse : Bool} (taken : work s u refuse = some s')
    (w : Fin n) : s'.seed w = s.seed w ∨ s'.seed w = Rng.nextSeed (s.seed w) := by
  have pops (victim : Fin n) (empty : Pc n) (found : Work → Pc n) :
      (s.popFront u victim empty found).seed w = s.seed w := by
    rcases popFront_cases s u victim empty found with ⟨_none, same⟩ | ⟨entry, rest, _here, same⟩
    · rw [same]
      rfl
    · rw [same]
      rfl
  cases here : s.pc u with
  | drain | recheck old | popChanged new =>
      simp only [work, here] at taken
      cases taken
      exact Or.inl (pops ..)
  | poll work =>
      simp only [Scheduler.work, here] at taken
      cases taken
      cases work <;> exact Or.inl rfl
  | polling work =>
      simp only [Scheduler.work, here] at taken
      split at taken <;> cases taken
      exact Or.inl rfl
  | steal old tries =>
      simp only [work, here, trySteal] at taken
      repeat' split at taken
      all_goals
        cases taken <;> first | exact Or.inl rfl | exact seed_update s.seed u w
  | stealPop old tries victim =>
      simp only [work, here, stealPop] at taken
      cases taken
      split
      · exact seed_update s.seed u w
      · exact Or.inl rfl
  | check | deactivate | search old | wait old | park old | reread old | activate work
  | unpark work =>
      simp only [Scheduler.work, here] at taken
      cases taken
      exact Or.inl rfl
  | parked old | returned => simp [work, here] at taken

private theorem seed_of_step {action : Action n} (taken : step s action = some s') (w : Fin n) :
    s'.seed w = s.seed w ∨ s'.seed w = Rng.nextSeed (s.seed w) := by
  have entered {t t' : State n} {thread : Thread n} {todo : List (Insert n)} {origin : Origin}
      (taken : enter t thread todo origin = some t') : t'.seed = t.seed := by
    simp only [enter] at taken
    split at taken
    · cases taken
      rfl
    · cases taken
  cases action with
  | work u refuse => exact seed_of_work taken w
  | call thread =>
      simp only [step, callStep, nextEpoch, wakeAllSlow] at taken
      repeat' split at taken
      · cases taken
      all_goals
        obtain rfl := Option.some.inj taken
        exact Or.inl (by simp [State.insert])
  | run name task =>
      simp only [step, run] at taken
      split at taken
      · exact Or.inl (congrFun (entered taken) w)
      · cases taken
  | pushBatch name tasks =>
      simp only [step, pushBatch] at taken
      split at taken
      · cases taken
      · exact Or.inl (congrFun (entered taken) w)
  | wake name target task => exact Or.inl (congrFun (entered taken) w)
  | shutdownAsync thread => exact Or.inl (congrFun (entered taken) w)
  | spawn u task =>
      simp only [step, spawn] at taken
      repeat' split at taken
      · rw [entered taken]
        exact seed_update s.seed u w
      · cases taken
      · cases taken
        exact seed_update s.seed u w
      · cases taken
  | defer u task =>
      simp only [step, defer] at taken
      split at taken <;> cases taken
      exact Or.inl rfl
  | rngGen u =>
      simp only [step, rngGen] at taken
      split at taken <;> cases taken
      exact seed_update s.seed u w

private theorem seed_of_exec {actions : List (Action n)}
    (ran : (system n).exec s actions = some s') (w : Fin n) :
    ∃ rounds, s'.seed w = Rng.nextSeed^[rounds] (s.seed w) := by
  refine System.exec_invariant (fun t => ∃ rounds, t.seed w = Rng.nextSeed^[rounds] (s.seed w))
    ?_ ⟨0, rfl⟩ ran
  rintro middle action next ⟨rounds, seed⟩ taken
  rcases seed_of_step taken w with same | drawn
  · exact ⟨rounds, same.trans seed⟩
  · exact ⟨rounds + 1, by rw [drawn, seed, Function.iterate_succ_apply']⟩

/-- Among an even number of other workers, those of one parity are never probed. -/
theorem victims_keep_parity (even : (n - 1) % 2 = 0) {actions : List (Action n)}
    (ran : (system n).exec s actions = some s') (w : Fin n) :
    (s'.seed w).toNat % (n - 1) % 2 = (s.seed w).toNat % (n - 1) % 2 := by
  obtain ⟨rounds, seed⟩ := seed_of_exec ran w
  have frozen := Rng.iterate_mod rounds (s.seed w)
  have divides : 2 ∣ n - 1 := Nat.dvd_of_mod_eq_zero even
  rw [seed, Nat.mod_mod_of_dvd _ divides, Nat.mod_mod_of_dvd _ divides]
  omega

/-- A step of the scheduler, or the push of a `Task::wake` from within a poll. -/
inductive Waking (n : Nat)
  | step (action : Action n)
  | wakeOnWorker (w : Fin n) (stored : Option (BitVec 32))

/-- On a worker's thread `RuntimeLocalData::get` returns the `Worker`, and the task's address
becomes the head of an empty list that is none. Where the `Worker` starts with its pointer to
the `Epoch`, that is the word, which gets the low half of the address (`stored`); in another
layout the store goes elsewhere. -/
def wakeOnWorker (s : State n) (w : Fin n) (stored : Option (BitVec 32)) : Option (State n) :=
  if s.userCode (.worker w) ∧ (s.call (.worker w)).isNone then
    some { s with word := stored.getD s.word }
  else none

def wakingStep (s : State n) : Waking n → Option (State n)
  | .step action => step s action
  | .wakeOnWorker w stored => wakeOnWorker s w stored

def wakingSystem (n : Nat) : System (State n) (Waking n) :=
  { initial := Initial, step := wakingStep }

/-- No wake reaches its push on a worker's thread. -/
def offWorkers : State n → Waking n → Prop
  | _, .step _ => True
  | _, .wakeOnWorker _ _ => False

/-- Without such wakes there is only the scheduler. -/
theorem reachable_of_offWorkers (reached : (wakingSystem n).Reachable offWorkers s) :
    (system n).Reachable anyAction s := by
  induction reached with
  | initial state start => exact .initial state start
  | step state next action earlier permitted taken ih =>
      cases action with
      | step action => exact .step state next action ih trivial taken
      | wakeOnWorker w stored => exact permitted.elim

end Yaay.Scheduler

namespace Yaay

open Transition

/-- In every run without a wake's push on a worker's thread the remainder of `try_steal` is by a
positive number, its victims and the targets of `spawn` are other workers, and every task's
`worker_id` is that of a worker. -/
theorem scheduler_indices_in_bounds {n : Nat} (positive : 1 ≤ n) (small : n < 512) :
    (∀ s : Scheduler.State n, (Scheduler.wakingSystem n).Reachable Scheduler.offWorkers s → ∀ w,
      (∀ old tries, s.pc w = .steal old tries → Scheduler.Robbing s w old tries) ∧
      ∀ task, s.userCode (.worker w) = true → s.call (.worker w) = .none →
        Scheduler.Spawning s w task) ∧
    ∀ (cfg : TaskSystem.Config) (s : TaskSystem.State cfg), cfg.workers = n →
      (TaskSystem.system cfg).Reachable anyAction s →
        ∀ task, (s.tasks task).workerId < n := by
  constructor
  · intro s reached w
    constructor
    · intro old tries place
      have plain := Scheduler.reachable_of_offWorkers reached
      exact Scheduler.robbing_of_place (Scheduler.reachable_consistent plain) small place
    · intro task user idle
      exact Scheduler.spawning_of_user user idle
  · intro cfg s workers reached task
    rw [← workers]
    exact (TaskSystem.reachable_indexed (by omega) reached).tasks task

namespace Scheduler

def searchingRun : List (Waking 2) := wakeWhileSearching.map .step

private theorem searchingRun_runs : (wakingSystem 2).exec pair searchingRun = some wokenInLoop :=
  rfl

end Scheduler

theorem indices_in_bounds_of_two :
    Scheduler.Robbing Scheduler.wokenInLoop Scheduler.first ⟨1, 0, 0⟩ 0 ∧
      (TaskSystem.polledAndWoken.tasks 7).workerId < 2 := by
  have safe := scheduler_indices_in_bounds (n := 2) (by decide) (by decide)
  constructor
  · have reached : (Scheduler.wakingSystem 2).Reachable Scheduler.offWorkers
        Scheduler.wokenInLoop := by
      refine System.Reachable.exec (.initial Scheduler.pair Scheduler.pair_initial) ?_
        Scheduler.searchingRun_runs
      refine System.permitted_of_all Scheduler.searchingRun ?_ _
      intro action member state
      obtain ⟨plain, _listed, same⟩ := List.mem_map.mp member
      rw [← same]
      trivial
    exact (safe.1 _ reached Scheduler.first).1 ⟨1, 0, 0⟩ 0 (by decide)
  · have reached : (TaskSystem.system TaskSystem.twoWorkers).Reachable anyAction
        TaskSystem.polledAndWoken :=
      TaskSystem.polledAndWoken_reached.weaken (fun _ _ _ _ => trivial)
    exact safe.2 TaskSystem.twoWorkers _ rfl reached 7

namespace Scheduler

abbrev soleWorker : Fin 1 := ⟨0, Nat.zero_lt_one⟩

/-- The lone worker polls task 7, which wakes an idle task at an address that ends in `2010`;
then the worker finds its queue empty. -/
def wakeWhenLone : List (Waking 1) :=
  [.step (.run 0 7), .step (.call (.external 0)), .step (.call (.external 0)),
    .step (.work soleWorker false), .step (.work soleWorker false),
    .wakeOnWorker soleWorker (some 0x2010), .step (.work soleWorker false),
    .step (.work soleWorker false), .step (.work soleWorker false),
    .step (.work soleWorker false), .step (.work soleWorker false)]

private theorem wakeWhenLone_runs : ((wakingSystem 1).exec lone wakeWhenLone).isSome = true := by
  decide

def overwritten : State 1 := ((wakingSystem 1).exec lone wakeWhenLone).get wakeWhenLone_runs

/-- Then the word counts 15 active workers behind `set_inactive`, and the lone worker computes a
remainder by 0. -/
theorem lone_worker_steals :
    (wakingSystem 1).Reachable anyAction overwritten ∧
      overwritten.pc soleWorker = .steal ⟨0x200f, 1, 0⟩ 0 ∧
      ¬ Robbing overwritten soleWorker ⟨0x200f, 1, 0⟩ 0 ∧
      wakingStep overwritten (.step (.work soleWorker false)) = none := by
  refine ⟨?_, rfl, ?_, rfl⟩
  · exact System.Reachable.replay_any (.initial lone lone_initial) wakeWhenLone_runs
  · intro robbing
    exact absurd robbing.several (by decide)

end Scheduler

end Yaay
