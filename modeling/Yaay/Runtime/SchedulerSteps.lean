import Mathlib.Data.Fintype.Card
import Yaay.Runtime.Scheduler

set_option autoImplicit false

/-! What one step of the scheduler can do to the program counters, to the word and to
the count of active workers. The invariants are derived from these facts. -/

namespace Yaay.Scheduler

open Yaay.Transition

variable {n : Nat} {s s' : State n}

/-- The worker is counted in the word: it has called `set_active` and has not called
`set_inactive` since. A worker that has returned stays counted. -/
def Pc.active : Pc n → Bool
  | .drain | .poll _ | .polling _ | .check | .deactivate | .unpark _ | .returned => true
  | _ => false

def Pc.snapshot : Pc n → Option Snapshot
  | .search old | .steal old _ | .stealPop old _ _ | .recheck old | .wait old | .park old
  | .parked old | .reread old | .popChanged old => some old
  | _ => none

def Pc.hand : Pc n → Option Work
  | .poll work | .activate work | .unpark work => some work
  | _ => none

def Pc.parking : Pc n → Option Snapshot
  | .park old => some old
  | _ => none

def Pc.rereading : Pc n → Option Snapshot
  | .reread old => some old
  | _ => none

def Action.worker : Action n → Option (Fin n)
  | .work w _ => some w
  | _ => none

/-- The producer has pushed or will push, and has not called `next_epoch` yet. -/
def Call.announces : Call n → Prop
  | .pushing _ _ | .shutdownRead _ _ | .shutdownPush _ _ => True
  | _ => False

@[simp] theorem unparked_active (pc : Pc n) : pc.unparked.active = pc.active := by
  cases pc <;> rfl

@[simp] theorem unparked_snapshot (pc : Pc n) : pc.unparked.snapshot = pc.snapshot := by
  cases pc <;> rfl

theorem unparked_ne (pc : Pc n) (old : Snapshot) : pc.unparked ≠ .parked old := by
  intro same
  cases pc <;> cases same

theorem eq_of_unparked {pc place : Pc n} (same : pc.unparked = place)
    (awake : ∀ old, place ≠ .reread old) : pc = place := by
  cases pc with
  | parked old => exact absurd same.symm (awake old)
  | _ => exact same

theorem Call.isNone_iff {call : Call n} : call.isNone = true ↔ call = .none := by
  cases call <;> simp [Call.isNone]

theorem announces_shutdownLoop (rest : List (Fin n)) : (shutdownLoop rest).announces := by
  cases rest <;> trivial

theorem userCode_worker {w : Fin n} (user : s.userCode (.worker w) = true) :
    ∃ task, s.pc w = .polling (.task task) := by
  cases here : s.pc w with
  | polling work =>
      cases work with
      | task task => exact ⟨task, rfl⟩
      | shutdown => simp [State.userCode, here] at user
  | _ => simp [State.userCode, here] at user

theorem others_length (w : Fin n) : (others w).length = n - 1 := by
  have filtered : others w = (List.finRange n).erase w := by
    rw [(List.nodup_finRange n).erase_eq_filter]
    exact List.filter_congr (fun u _member => by by_cases same : u = w <;> simp [same])
  rw [filtered, List.length_erase_of_mem (List.mem_finRange w), List.length_finRange]

/-- The steps of user code: to enter a producer, to push to the worker's own queue, or to
draw a random number. -/
inductive Started (s : State n) : State n → Prop
  | entered (seed : Fin n → BitVec 32) (thread : Thread n) (todo : List (Insert n))
      (origin : Origin) (user : s.userCode thread = true) (idle : s.call thread = .none)
      (everyone : origin = .shutdownAsync →
        todo = (List.finRange n).map (fun target => ⟨target, [.shutdown], true⟩)) :
      Started s ({ s with seed := seed }.setCall thread (.pushing todo origin))
  | deferred (seed : Fin n → BitVec 32) (w : Fin n) (task : Nat) (front : Bool)
      (user : s.userCode (.worker w) = true) (idle : s.call (.worker w) = .none) :
      Started s ({ s with seed := seed }.insert ⟨w, [.task task], front⟩ .own)
  | drawn (seed : Fin n → BitVec 32) : Started s { s with seed := seed }

private theorem enter_started {thread : Thread n} {todo : List (Insert n)} {origin : Origin}
    (everyone : origin = .shutdownAsync →
      todo = (List.finRange n).map (fun target => ⟨target, [.shutdown], true⟩))
    (taken : enter s thread todo origin = some s') : Started s s' := by
  simp only [enter] at taken
  split at taken
  · rename_i allowed
    cases taken
    exact .entered s.seed thread todo origin allowed.1 (Call.isNone_iff.mp allowed.2) everyone
  · cases taken

private theorem spawn_started {w : Fin n} {task : Nat} (taken : spawn s w task = some s') :
    Started s s' := by
  simp only [spawn] at taken
  split at taken
  · rename_i allowed
    have idle := Call.isNone_iff.mp allowed.2
    split at taken
    · split at taken
      · rename_i target _found
        simp only [enter] at taken
        split at taken
        · cases taken
          exact .entered _ (.worker w) _ .push allowed.1 idle (fun other => by cases other)
        · cases taken
      · cases taken
    · cases taken
      exact .deferred _ w task false allowed.1 idle
  · cases taken

/-- A step is one of a worker's loop, one of a producer, or one of user code. -/
theorem step_cases {action : Action n} (taken : step s action = some s') :
    (∃ w refuse, action = .work w refuse ∧ work s w refuse = some s') ∨
      (∃ thread, action = .call thread ∧ callStep s thread = some s') ∨ Started s s' := by
  cases action with
  | work w refuse => exact Or.inl ⟨w, refuse, rfl, taken⟩
  | call thread => exact Or.inr (Or.inl ⟨thread, rfl, taken⟩)
  | run name task =>
      simp only [step, run] at taken
      split at taken
      · exact Or.inr (Or.inr (enter_started (fun other => by cases other) taken))
      · cases taken
  | wake name target task =>
      exact Or.inr (Or.inr (enter_started (fun other => by cases other) taken))
  | pushBatch name tasks =>
      simp only [step, pushBatch] at taken
      split at taken
      · cases taken
      · exact Or.inr (Or.inr (enter_started (fun other => by cases other) taken))
  | shutdownAsync thread =>
      exact Or.inr (Or.inr (enter_started (fun _same => rfl) taken))
  | spawn w task => exact Or.inr (Or.inr (spawn_started taken))
  | defer w task =>
      simp only [step, defer] at taken
      split at taken
      · rename_i allowed
        cases taken
        exact Or.inr (Or.inr
          (.deferred s.seed w task true allowed.1 (Call.isNone_iff.mp allowed.2)))
      · cases taken
  | rngGen w =>
      simp only [step, rngGen] at taken
      split at taken
      · cases taken
        exact Or.inr (Or.inr (.drawn _))
      · cases taken

theorem popFront_cases (s : State n) (w victim : Fin n) (empty : Pc n) (found : Work → Pc n) :
    (s.queue victim = [] ∧ s.popFront w victim empty found = s.setPc w empty) ∨
      ∃ entry rest, s.queue victim = entry :: rest ∧
        s.popFront w victim empty found =
          (s.setQueue victim rest).setPc w (found entry.work) := by
  cases here : s.queue victim with
  | nil => exact Or.inl ⟨rfl, by simp only [State.popFront, here]⟩
  | cons entry rest => exact Or.inr ⟨entry, rest, rfl, by simp only [State.popFront, here]⟩

/-- What a worker's step leaves alone: it takes from the front of at most one queue,
wakes no worker but a parked one, and enters a producer only as `Shutdown`. -/
structure Worked (s : State n) (w : Fin n) (s' : State n) : Prop where
  queue : ∀ u, s'.queue u <:+ s.queue u
  pc : ∀ u, u ≠ w → s'.pc u = s.pc u ∨ s'.pc u = (s.pc u).unparked
  call : ∀ thread, s'.call thread = s.call thread ∨
    (thread = .worker w ∧ s.pc w = .poll .shutdown ∧
      s'.call thread = shutdownLoop (others w) ∧ s'.shutdown w = true)
  shutdown : ∀ u, s'.shutdown u = s.shutdown u ∨
    (u = w ∧ s.pc w = .poll .shutdown ∧ s'.shutdown u = true)
  calls : s'.calls = s.calls
  stays : ∀ u, s'.stays u = s.stays u ∨
    (u = w ∧ s.pc w = .deactivate ∧ s'.stays u = s.stays u + 1)
  stopped : s'.stopped = s.stopped

theorem Worked.refl (s : State n) (w : Fin n) : Worked s w s :=
  ⟨fun _ => List.suffix_refl _, fun _ _ => Or.inl rfl, fun _ => Or.inl rfl,
    fun _ => Or.inl rfl, rfl, fun _ => Or.inl rfl, rfl⟩

theorem Worked.setPc {w : Fin n} (before : Worked s w s') (pc : Pc n) :
    Worked s w (s'.setPc w pc) :=
  { before with
    pc := by
      intro u other
      rw [State.setPc_pc, Function.update_of_ne other]
      exact before.pc u other }

theorem Worked.setSeed {w : Fin n} (before : Worked s w s') (u : Fin n) (seed : BitVec 32) :
    Worked s w (s'.setSeed u seed) :=
  { before with }

private theorem worked_setQueue {victim : Fin n} {entry : Entry n} {rest : List (Entry n)}
    (here : s.queue victim = entry :: rest) (w : Fin n) :
    Worked s w (s.setQueue victim rest) :=
  { Worked.refl s w with
    queue := by
      intro u
      rw [State.setQueue_queue]
      by_cases same : u = victim
      · rw [same, Function.update_self, here]
        exact List.suffix_cons entry rest
      · rw [Function.update_of_ne same] }

private theorem worked_popFront (s : State n) (w victim : Fin n) (empty : Pc n)
    (found : Work → Pc n) :
    Worked s w (s.popFront w victim empty found) := by
  rcases popFront_cases s w victim empty found with ⟨_none, same⟩ | ⟨entry, rest, here, same⟩
  · rw [same]
    exact (Worked.refl s w).setPc empty
  · rw [same]
    exact (worked_setQueue here w).setPc (found entry.work)

private theorem worked_pollTask {w : Fin n} {work : Work} (here : s.pc w = .poll work) :
    Worked s w (pollTask s w work) := by
  cases work with
  | task name => exact (Worked.refl s w).setPc (.polling (.task name))
  | shutdown =>
      refine { (Worked.refl s w).setPc (.polling .shutdown) with
        call := ?_, shutdown := ?_ }
      · intro thread
        by_cases same : thread = .worker w
        · refine Or.inr ⟨same, here, ?_, Function.update_self ..⟩
          rw [same]
          exact Function.update_self ..
        · exact Or.inl (Function.update_of_ne same ..)
      · intro u
        by_cases same : u = w
        · refine Or.inr ⟨same, here, ?_⟩
          rw [same]
          exact Function.update_self ..
        · exact Or.inl (Function.update_of_ne same ..)

private theorem worked_unparkAll (s : State n) (w : Fin n) : Worked s w s.unparkAll :=
  { Worked.refl s w with pc := fun _ _ => Or.inr rfl }

private theorem worked_trySteal {w : Fin n} {old : Snapshot} {tries : Nat}
    (taken : trySteal s w old tries = some s') : Worked s w s' := by
  simp only [trySteal] at taken
  split at taken
  · cases taken
  · split at taken
    · cases taken
    · split at taken
      · cases taken
        exact ((Worked.refl s w).setSeed w _).setPc _
      · cases taken
        exact (Worked.refl s w).setPc _

private theorem worked_stealPop (s : State n) (w : Fin n) (old : Snapshot) (tries : Nat)
    (victim : Fin n) : Worked s w (stealPop s w old tries victim) := by
  simp only [stealPop]
  split
  · exact ((Worked.refl s w).setSeed w _).setPc _
  · rename_i entry rest here
    exact (worked_setQueue here w).setPc _

theorem worked_of_work {w : Fin n} {refuse : Bool} (taken : work s w refuse = some s') :
    Worked s w s' := by
  have still := Worked.refl s w
  cases here : s.pc w with
  | drain =>
      simp only [work, here] at taken
      cases taken
      exact worked_popFront ..
  | poll work =>
      simp only [Scheduler.work, here] at taken
      cases taken
      exact worked_pollTask here
  | polling work =>
      simp only [Scheduler.work, here] at taken
      split at taken <;> cases taken
      exact still.setPc _
  | deactivate =>
      simp only [work, here] at taken
      cases taken
      refine { still.setPc _ with stays := ?_ }
      intro u
      by_cases same : u = w
      · refine Or.inr ⟨same, here, ?_⟩
        rw [same]
        exact Function.update_self ..
      · exact Or.inl (Function.update_of_ne same ..)
  | steal old tries =>
      simp only [work, here] at taken
      split at taken
      · cases taken
        exact still.setPc _
      · exact worked_trySteal taken
  | stealPop old tries victim =>
      simp only [work, here] at taken
      cases taken
      exact worked_stealPop ..
  | recheck old | popChanged new =>
      simp only [work, here] at taken
      cases taken
      exact worked_popFront ..
  | activate work =>
      simp only [Scheduler.work, here] at taken
      cases taken
      exact { still.setPc _ with }
  | unpark work =>
      simp only [Scheduler.work, here] at taken
      cases taken
      exact (worked_unparkAll s w).setPc _
  | check | search old | wait old | park old | reread old =>
      simp only [work, here] at taken
      cases taken
      exact still.setPc _
  | parked old | returned => simp [work, here] at taken

/-- The places between which a worker's own step takes it, and what it has seen. -/
inductive Moved (s s' : State n) (w : Fin n) : Pc n → Pc n → Prop
  | drained (empty : s.queue w = []) : Moved s s' w .drain .deactivate
  | drain (work : Work) : Moved s s' w .drain (.poll work)
  | poll (work : Work) : Moved s s' w (.poll work) (.polling work)
  | polled (work : Work) : Moved s s' w (.polling work) .check
  | leave (flag : s.shutdown w = true) : Moved s s' w .check .returned
  | again (flag : s.shutdown w = false) : Moved s s' w .check .drain
  | deactivate : Moved s s' w .deactivate (.search ⟨s'.word, s'.calls, 0⟩)
  | busy (old : Snapshot) (some : Epoch.activeCount old.status ≠ 0) :
      Moved s s' w (.search old) (.steal old 0)
  | calm (old : Snapshot) (none : Epoch.activeCount old.status = 0) :
      Moved s s' w (.search old) (.recheck old)
  | stolen (old : Snapshot) (tries : Nat) : Moved s s' w (.steal old tries) (.reread old)
  | missed (old : Snapshot) (tries : Nat) (more : tries ≠ 4 * n) :
      Moved s s' w (.steal old tries) (.steal old (tries + 1))
  | stealing (old : Snapshot) (tries : Nat) (victim : Fin n) (more : tries ≠ 4 * n) :
      Moved s s' w (.steal old tries) (.stealPop old tries victim)
  | late (old : Snapshot) (tries : Nat) (victim : Fin n) :
      Moved s s' w (.stealPop old tries victim) (.steal old (tries + 1))
  | stole (old : Snapshot) (tries : Nat) (victim : Fin n) (work : Work) :
      Moved s s' w (.stealPop old tries victim) (.activate work)
  | rechecked (old : Snapshot) (empty : s.queue w = []) :
      Moved s s' w (.recheck old) (.wait old)
  | found (old : Snapshot) (work : Work) : Moved s s' w (.recheck old) (.activate work)
  | waiting (old : Snapshot) (same : s.word = old.status) :
      Moved s s' w (.wait old) (.park old)
  | unchanged (old : Snapshot) : Moved s s' w (.wait old) (.reread old)
  | parking (old : Snapshot) (same : s.word = old.status) :
      Moved s s' w (.park old) (.parked old)
  | refused (old : Snapshot) : Moved s s' w (.park old) (.reread old)
  | changed (old : Snapshot) (later : Epoch.epoch old.status < Epoch.epoch s.word) :
      Moved s s' w (.reread old) (.popChanged (s.getStatus old))
  | same (old : Snapshot) (still : ¬ Epoch.epoch old.status < Epoch.epoch s.word) :
      Moved s s' w (.reread old) (.search (s.getStatus old))
  | nothing (new : Snapshot) (empty : s.queue w = []) :
      Moved s s' w (.popChanged new) (.search new)
  | own (new : Snapshot) (work : Work) : Moved s s' w (.popChanged new) (.activate work)
  | first (work : Work) (none : Epoch.activeCount s.word = 0) :
      Moved s s' w (.activate work) (.unpark work)
  | another (work : Work) (some : Epoch.activeCount s.word ≠ 0) :
      Moved s s' w (.activate work) (.poll work)
  | unpark (work : Work) : Moved s s' w (.unpark work) (.poll work)

theorem moved_of_work {w : Fin n} {refuse : Bool} (taken : work s w refuse = some s') :
    Moved s s' w (s.pc w) (s'.pc w) := by
  have pops (empty : Pc n) (found : Work → Pc n) :
      (s.queue w = [] ∧ (s.popFront w w empty found).pc w = empty) ∨
        ∃ work, (s.popFront w w empty found).pc w = found work := by
    rcases popFront_cases s w w empty found with ⟨none, same⟩ | ⟨entry, rest, _here, same⟩
    · exact Or.inl ⟨none, by simp [same]⟩
    · exact Or.inr ⟨entry.work, by simp [same]⟩
  cases here : s.pc w with
  | drain =>
      simp only [work, here] at taken
      cases taken
      rcases pops .deactivate .poll with ⟨empty, now⟩ | ⟨work, now⟩
      · rw [now]
        exact .drained empty
      · rw [now]
        exact .drain work
  | recheck old =>
      simp only [work, here] at taken
      cases taken
      rcases pops (.wait old) .activate with ⟨empty, now⟩ | ⟨work, now⟩
      · rw [now]
        exact .rechecked old empty
      · rw [now]
        exact .found old work
  | popChanged new =>
      simp only [work, here] at taken
      cases taken
      rcases pops (.search new) .activate with ⟨empty, now⟩ | ⟨work, now⟩
      · rw [now]
        exact .nothing new empty
      · rw [now]
        exact .own new work
  | poll work =>
      simp only [Scheduler.work, here] at taken
      cases taken
      cases work with
      | task name =>
          simp only [pollTask, State.setPc_pc, Function.update_self]
          exact .poll _
      | shutdown =>
          simp only [pollTask, State.setCall_pc, State.setPc_pc, Function.update_self]
          exact .poll _
  | polling work =>
      simp only [Scheduler.work, here] at taken
      split at taken <;> cases taken
      rw [State.setPc_pc, Function.update_self]
      exact .polled work
  | check =>
      simp only [work, here] at taken
      cases taken
      rw [State.setPc_pc, Function.update_self]
      cases flag : s.shutdown w with
      | false => exact .again flag
      | true => exact .leave flag
  | deactivate =>
      simp only [work, here, setInactive] at taken
      cases taken
      rw [State.setPc_pc, Function.update_self]
      exact .deactivate
  | search old =>
      simp only [work, here] at taken
      cases taken
      rw [State.setPc_pc, Function.update_self]
      split
      · rename_i none
        exact .calm old none
      · rename_i some
        exact .busy old some
  | steal old tries =>
      simp only [work, here] at taken
      split at taken
      · cases taken
        rw [State.setPc_pc, Function.update_self]
        exact .stolen old tries
      · rename_i more
        simp only [trySteal] at taken
        split at taken
        · cases taken
        · split at taken
          · cases taken
          · split at taken
            · cases taken
              rw [State.setPc_pc, Function.update_self]
              exact .missed old tries more
            · cases taken
              rw [State.setPc_pc, Function.update_self]
              exact .stealing old tries _ more
  | stealPop old tries victim =>
      simp only [work, here, stealPop] at taken
      cases taken
      split
      · rw [State.setPc_pc, Function.update_self]
        exact .late old tries victim
      · rw [State.setPc_pc, Function.update_self]
        exact .stole old tries victim _
  | wait old =>
      simp only [work, here] at taken
      cases taken
      rw [State.setPc_pc, Function.update_self]
      split
      · rename_i same
        exact .waiting old same
      · exact .unchanged old
  | park old =>
      simp only [work, here] at taken
      cases taken
      rw [State.setPc_pc, Function.update_self]
      split
      · rename_i same
        exact .parking old same.1
      · exact .refused old
  | reread old =>
      simp only [work, here] at taken
      cases taken
      rw [State.setPc_pc, Function.update_self]
      split
      · rename_i later
        exact .changed old later
      · rename_i still
        exact .same old still
  | activate work =>
      simp only [Scheduler.work, here, setActive] at taken
      cases taken
      simp only [State.setPc_pc, Function.update_self]
      split
      · rename_i none
        exact .first work none
      · rename_i some
        exact .another work some
  | unpark work =>
      simp only [Scheduler.work, here] at taken
      cases taken
      rw [State.setPc_pc, Function.update_self]
      exact .unpark work
  | parked old | returned => simp [work, here] at taken

/-- What a producer's step leaves alone: it wakes parked workers at most, and changes
no other thread's call. -/
structure Called (s : State n) (thread : Thread n) (s' : State n) : Prop where
  busy : s.call thread ≠ .none
  pc : ∀ u, s'.pc u = s.pc u ∨ s'.pc u = (s.pc u).unparked
  call : ∀ other, other ≠ thread → s'.call other = s.call other
  shutdown : ∀ u, s'.shutdown u = s.shutdown u
  word : (s'.word = s.word ∧ s'.calls = s.calls) ∨
    (s'.word = s.word + Epoch.epochUnit ∧ s'.calls = s.calls + 1 ∧
      ∃ origin, s.call thread = .pushing [] origin)
  stays : ∀ u, s'.stays u = s.stays u

theorem called_of_callStep {thread : Thread n} (taken : callStep s thread = some s') :
    Called s thread s' := by
  have others (call : Call n) : ∀ other, other ≠ thread →
      Function.update s.call thread call other = s.call other :=
    fun other different => Function.update_of_ne different ..
  have unmoved : ∀ u, s.pc u = s.pc u ∨ s.pc u = (s.pc u).unparked := fun u => Or.inl rfl
  cases here : s.call thread with
  | none => simp [callStep, here] at taken
  | pushing todo origin =>
      cases todo with
      | cons insert rest =>
          simp only [callStep, here] at taken
          cases taken
          exact ⟨by simp [here], unmoved, others _, fun _ => rfl, Or.inl ⟨rfl, rfl⟩, fun _ => rfl⟩
      | nil =>
          simp only [callStep, here, nextEpoch] at taken
          split at taken
          all_goals
            obtain rfl := Option.some.inj taken
            exact ⟨by simp [here], unmoved, others _, by simp, Or.inr (by simp [here]), by simp⟩
  | shutdownRead other rest | shutdownPush other rest =>
      simp only [callStep, here] at taken
      cases taken
      exact ⟨by simp [here], unmoved, others _, fun _ => rfl, Or.inl ⟨rfl, rfl⟩, fun _ => rfl⟩
  | unpark origin =>
      simp only [callStep, here, wakeAllSlow] at taken
      cases taken
      exact ⟨by simp [here], fun u => Or.inr rfl, others _, fun _ => rfl, Or.inl ⟨rfl, rfl⟩,
        fun _ => rfl⟩

def Calling (s : State n) : Prop :=
  ∀ w, s.call (.worker w) ≠ .none → ∃ work, s.pc w = .polling work

theorem idle_of_poll {w : Fin n} {work : Work} (calling : Calling s)
    (here : s.pc w = .poll work) : s.call (.worker w) = .none := by
  by_contra busy
  obtain ⟨job, polling⟩ := calling w busy
  rw [here] at polling
  cases polling

theorem polling_kept {w : Fin n} {work : Work} (polling : s.pc w = .polling work)
    (moved : s'.pc w = s.pc w ∨ s'.pc w = (s.pc w).unparked) : s'.pc w = .polling work := by
  rcases moved with same | unparked
  · rw [same, polling]
  · rw [unparked, polling]
    rfl

theorem calling_step {action : Action n} (calling : Calling s)
    (taken : step s action = some s') : Calling s' := by
  intro u busy
  rcases step_cases taken with ⟨w, refuse, rfl, moved⟩ | ⟨thread, rfl, moved⟩ | started
  · have worked := worked_of_work moved
    rcases worked.call (.worker u) with same | ⟨same, here, _looping, _flag⟩
    · rw [same] at busy
      obtain ⟨job, polling⟩ := calling u busy
      refine ⟨job, polling_kept polling (worked.pc u ?_)⟩
      rintro rfl
      have idle : (s.call (.worker u)).isNone = false := by
        cases here : s.call (.worker u) with
        | none => exact absurd here busy
        | _ => rfl
      simp [work, polling, idle] at moved
    · cases same
      simp only [work, here, pollTask] at moved
      cases moved
      exact ⟨.shutdown, Function.update_self ..⟩
  · have called := called_of_callStep moved
    have earlier : s.call (.worker u) ≠ .none := by
      by_cases same : Thread.worker u = thread
      · rw [same]
        exact called.busy
      · rw [← called.call _ same]
        exact busy
    obtain ⟨job, polling⟩ := calling u earlier
    exact ⟨job, polling_kept polling (called.pc u)⟩
  · cases started with
    | entered seed thread todo origin user idle everyone =>
        by_cases same : Thread.worker u = thread
        · rw [← same] at user
          obtain ⟨task, polling⟩ := userCode_worker user
          exact ⟨.task task, polling⟩
        · rw [State.setCall_call, Function.update_of_ne same] at busy
          exact calling u busy
    | deferred | drawn => exact calling u busy

/-- A worker is moved by its own steps, and out of the parking lot by others. -/
theorem pc_of_step {action : Action n} (taken : step s action = some s') (w : Fin n) :
    (s'.pc w = s.pc w ∨ s'.pc w = (s.pc w).unparked) ∨
      (∃ refuse, action = .work w refuse ∧ work s w refuse = some s') := by
  rcases step_cases taken with ⟨u, refuse, rfl, moved⟩ | ⟨thread, rfl, moved⟩ | started
  · by_cases same : w = u
    · subst same
      exact Or.inr ⟨refuse, rfl, moved⟩
    · exact Or.inl ((worked_of_work moved).pc w same)
  · exact Or.inl ((called_of_callStep moved).pc w)
  · cases started <;> exact Or.inl (Or.inl rfl)

private theorem calls_of_step {action : Action n} (taken : step s action = some s') :
    s'.calls = s.calls ∨ (s'.calls = s.calls + 1 ∧
      ∃ thread origin, action = .call thread ∧ s.call thread = .pushing [] origin) := by
  rcases step_cases taken with ⟨u, refuse, rfl, moved⟩ | ⟨thread, rfl, moved⟩ | started
  · exact Or.inl (worked_of_work moved).calls
  · rcases (called_of_callStep moved).word with ⟨_word, same⟩ | ⟨_word, counted, origin, call⟩
    · exact Or.inl same
    · exact Or.inr ⟨counted, thread, origin, rfl, call⟩
  · cases started <;> exact Or.inl rfl

theorem calls_mono {action : Action n} (taken : step s action = some s') :
    s.calls ≤ s'.calls := by
  rcases calls_of_step taken with same | ⟨counted, _announced⟩
  · exact Nat.le_of_eq same.symm
  · rw [counted]
    exact Nat.le_succ _

theorem stays_mono {action : Action n} (taken : step s action = some s') (w : Fin n) :
    s.stays w ≤ s'.stays w := by
  rcases step_cases taken with ⟨u, refuse, rfl, moved⟩ | ⟨thread, rfl, moved⟩ | started
  · rcases (worked_of_work moved).stays w with same | ⟨_worker, _here, more⟩
    · exact Nat.le_of_eq same.symm
    · rw [more]
      exact Nat.le_succ _
  · exact Nat.le_of_eq ((called_of_callStep moved).stays w).symm
  · cases started <;> exact Nat.le_refl _

def State.activeWorkers (s : State n) : Nat :=
  (Finset.univ.filter (fun w => (s.pc w).active = true)).card

theorem activeWorkers_congr (same : ∀ w, (s'.pc w).active = (s.pc w).active) :
    s'.activeWorkers = s.activeWorkers := by
  simp only [State.activeWorkers, same]

theorem activeWorkers_gain {w : Fin n} (before : (s.pc w).active = false)
    (after : (s'.pc w).active = true)
    (others : ∀ u, u ≠ w → (s'.pc u).active = (s.pc u).active) :
    s'.activeWorkers = s.activeWorkers + 1 := by
  have absent : w ∉ Finset.univ.filter (fun u => (s.pc u).active = true) := by
    simp [before]
  rw [State.activeWorkers, State.activeWorkers, ← Finset.card_insert_of_notMem absent]
  congr 1
  ext u
  rw [Finset.mem_insert, Finset.mem_filter, Finset.mem_filter]
  by_cases same : u = w
  · simp [same, after]
  · simp [same, others u same]

theorem activeWorkers_eq_zero : s.activeWorkers = 0 ↔ ∀ w, (s.pc w).active = false := by
  simp [State.activeWorkers]

theorem Worked.active_other {w u : Fin n} (worked : Worked s w s') (other : u ≠ w) :
    (s'.pc u).active = (s.pc u).active := by
  rcases worked.pc u other with same | unparked
  · rw [same]
  · rw [unparked, unparked_active]

theorem Called.active {thread : Thread n} (called : Called s thread s') (w : Fin n) :
    (s'.pc w).active = (s.pc w).active := by
  rcases called.pc w with same | unparked
  · rw [same]
  · rw [unparked, unparked_active]

theorem activeWorkers_lt {w : Fin n} (inactive : (s.pc w).active = false) :
    s.activeWorkers < n := by
  have fewer : s.activeWorkers < (Finset.univ : Finset (Fin n)).card := by
    refine Finset.card_lt_card (Finset.filter_ssubset.mpr ⟨w, Finset.mem_univ w, ?_⟩)
    simp [inactive]
  rwa [Finset.card_univ, Fintype.card_fin] at fewer

theorem activeWorkers_le (s : State n) : s.activeWorkers ≤ n := by
  have subset := Finset.card_filter_le (Finset.univ : Finset (Fin n))
    (fun w => (s.pc w).active = true)
  rwa [Finset.card_univ, Fintype.card_fin] at subset

/-- The word moves with the worker's place: `set_inactive`, `set_active`, or neither. -/
theorem word_of_work {w : Fin n} {refuse : Bool} (taken : work s w refuse = some s') :
    (s'.word = s.word ∧ (s'.pc w).active = (s.pc w).active) ∨
      (s'.word = s.word - 1 ∧ (s.pc w).active = true ∧ (s'.pc w).active = false) ∨
      (s'.word = s.word + 1 ∧ (s.pc w).active = false ∧ (s'.pc w).active = true) := by
  have pops (victim : Fin n) (empty : Pc n) (found : Work → Pc n)
      (first : empty.active = (s.pc w).active)
      (second : ∀ work, (found work).active = (s.pc w).active) :
      (s.popFront w victim empty found).word = s.word ∧
        ((s.popFront w victim empty found).pc w).active = (s.pc w).active := by
    rcases popFront_cases s w victim empty found with ⟨_none, same⟩ | ⟨entry, rest, _here, same⟩
    · simp [same, first]
    · simp [same, second]
  cases here : s.pc w with
  | drain | recheck old | popChanged new =>
      simp only [work, here] at taken
      cases taken
      rw [← here]
      exact Or.inl (pops _ _ _ (by simp [here, Pc.active]) (by simp [here, Pc.active]))
  | poll work =>
      simp only [Scheduler.work, here] at taken
      cases taken
      cases work <;> simp [pollTask, Pc.active]
  | polling work =>
      simp only [Scheduler.work, here] at taken
      split at taken <;> cases taken
      simp [Pc.active]
  | check | search old | wait old | park old | reread old =>
      simp only [work, here] at taken
      cases taken
      refine Or.inl ⟨rfl, ?_⟩
      rw [State.setPc_pc, Function.update_self]
      split <;> rfl
  | deactivate =>
      simp only [work, here, setInactive] at taken
      cases taken
      simp [Pc.active]
  | steal old tries =>
      simp only [work, here] at taken
      split at taken
      · cases taken
        simp [Pc.active]
      · simp only [trySteal] at taken
        repeat' split at taken
        all_goals
          cases taken <;> simp [Pc.active]
  | stealPop old tries victim =>
      simp only [work, here, stealPop] at taken
      cases taken
      split <;> simp [Pc.active]
  | activate work =>
      simp only [Scheduler.work, here, setActive] at taken
      cases taken
      refine Or.inr (Or.inr ⟨rfl, rfl, ?_⟩)
      simp only [State.setPc_pc, Function.update_self]
      split <;> rfl
  | unpark work =>
      simp only [Scheduler.work, here] at taken
      cases taken
      simp [Pc.active]
  | parked old | returned => simp [work, here] at taken

theorem snapshot_of_step {action : Action n} (taken : step s action = some s') {w : Fin n}
    {new : Snapshot} (holds : (s'.pc w).snapshot = some new) :
    (s.pc w).snapshot = some new ∨
      (s'.stays w = s.stays w + 1 ∧ new = ⟨s'.word, s'.calls, 0⟩) ∨
      ∃ old, s.pc w = .reread old ∧ new = ⟨s'.word, s'.calls, old.pass + 1⟩ := by
  rcases pc_of_step taken w with (same | unparked) | ⟨refuse, rfl, moved⟩
  · rw [same] at holds
    exact Or.inl holds
  · rw [unparked, unparked_snapshot] at holds
    exact Or.inl holds
  · have calls := (worked_of_work moved).calls
    have word := word_of_work moved
    have place := moved_of_work moved
    have stays (here : s.pc w = .deactivate) : s'.stays w = s.stays w + 1 := by
      simp only [work, here] at moved
      cases moved
      exact Function.update_self ..
    generalize s.pc w = pc at place holds word stays ⊢
    generalize s'.pc w = pc' at place holds word
    cases place with
    | deactivate =>
        cases holds
        exact Or.inr (Or.inl ⟨stays rfl, rfl⟩)
    | changed old later | same old still =>
        cases holds
        simp only [Pc.active] at word
        have kept : s'.word = s.word := by simpa using word
        exact Or.inr (Or.inr ⟨old, rfl, by rw [kept, calls]; rfl⟩)
    | _ => first | exact Or.inl holds | cases holds

end Yaay.Scheduler
