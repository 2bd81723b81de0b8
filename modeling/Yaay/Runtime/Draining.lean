import Yaay.Fair
import Yaay.Runtime.ShutdownReach

set_option autoImplicit false

/-! What becomes of the runtime when nothing more is asked of it: the producers return, the
workers empty all queues, and then they fall asleep. Every thread goes on as long as it can,
which for a worker in a poll means that the poll returns. -/

namespace Yaay.Scheduler

open Yaay.Transition Filter

variable {n : Nat} {s s' : State n} {w : Fin n} {action : Action n}
  {run : (system n).Run} {start time : Nat}

def Action.silent : Action n → Prop
  | .work _ _ | .call _ | .rngGen _ => True
  | _ => False

/-- From the start on nothing is asked of the runtime, and no worker is ever shut down. -/
structure Serves (run : (system n).Run) (start : Nat) : Prop where
  small : n < 512
  initial : Initial (run.state 0)
  inTime : ∀ time action, run.action time = some action → timely (run.state time) action
  lasting : ∀ time w, (run.state time).shutdown w = false
  silent : ∀ time, start ≤ time → ∀ action, run.action time = some action → action.silent
  workers : ∀ w, run.Fair (fun action => action.worker = some w)
  callers : ∀ thread, run.Fair (fun action => action = .call thread)

theorem Serves.reached (serves : Serves run start) (time : Nat) :
    (system n).Reachable timely (run.state time) :=
  System.Run.reachable (.initial _ serves.initial) serves.inTime time

theorem Serves.consistent (serves : Serves run start) (time : Nat) :
    Consistent (run.state time) :=
  reachable_consistent (serves.reached time)

theorem Serves.later (serves : Serves run start) (after : start ≤ time) : Serves run time :=
  { serves with
    silent := fun later order => serves.silent later (Nat.le_trans after order) }

private theorem silent_cases (silent : action.silent) (taken : step s action = some s') :
    (∃ w refuse, action = .work w refuse ∧ work s w refuse = some s') ∨
      (∃ thread, action = .call thread ∧ callStep s thread = some s') ∨
        ∃ seed, s' = { s with seed := seed } := by
  cases action with
  | work w refuse => exact Or.inl ⟨w, refuse, rfl, taken⟩
  | call thread => exact Or.inr (Or.inl ⟨thread, rfl, taken⟩)
  | rngGen w =>
      simp only [step, rngGen] at taken
      split at taken
      · cases taken
        exact Or.inr (Or.inr ⟨_, rfl⟩)
      · cases taken
  | _ => cases silent

theorem Call.rank_eq_zero {call : Call n} : call.rank = 0 ↔ call = .none := by
  cases call with
  | none => exact ⟨fun _ => rfl, fun _ => rfl⟩
  | _ =>
      constructor
      · intro zero
        simp only [Call.rank] at zero
        omega
      · intro same
        cases same

private theorem call_of_silent (silent : action.silent) (taken : step s action = some s')
    (lasting : ∀ w, s'.shutdown w = false) (thread : Thread n) :
    (s'.call thread).rank ≤ (s.call thread).rank ∧
      (action = .call thread → (s'.call thread).rank < (s.call thread).rank) := by
  rcases silent_cases silent taken with ⟨w, refuse, rfl, moved⟩ | ⟨other, rfl, moved⟩ | ⟨seed, rfl⟩
  · rcases (worked_of_work moved).call thread with same | ⟨_self, _here, _looping, flag⟩
    · rw [same]
      exact ⟨Nat.le_refl _, fun other => by cases other⟩
    · rw [lasting w] at flag
      cases flag
  · by_cases same : thread = other
    · subst same
      have less := rank_of_callStep moved
      exact ⟨Nat.le_of_lt less, fun _ => less⟩
    · rw [(called_of_callStep moved).call thread same]
      refine ⟨Nat.le_refl _, ?_⟩
      intro acts
      cases acts
      exact absurd rfl same
  · refine ⟨Nat.le_refl _, ?_⟩
    intro acts
    subst acts
    have less := rank_of_callStep taken
    exact absurd less (Nat.lt_irrefl _)

theorem Serves.returns (serves : Serves run start) (thread : Thread n) :
    ∀ᶠ time in atTop, (run.state time).call thread = .none := by
  have down : ∀ᶠ time in atTop, ((run.state time).call thread).rank = 0 := by
    refine System.Run.comes_down (serves.callers thread) (fun s => (s.call thread).rank)
      (fun time (later : start ≤ time) action acts => ?_) ?_
    · have one := call_of_silent (serves.silent time later action acts)
        (System.Run.moves acts) (serves.lasting (time + 1)) thread
      exact ⟨one.1, fun own _positive => one.2 own⟩
    · intro time _later positive
      have busy : (run.state time).call thread ≠ .none :=
        fun idle => absurd (Call.rank_eq_zero.mpr idle) (Nat.ne_of_gt positive)
      obtain ⟨next, taken⟩ := callStep_of_busy busy
      exact ⟨.call thread, rfl, Option.isSome_iff_exists.mpr ⟨next, taken⟩⟩
  filter_upwards [down] with time zero
  exact Call.rank_eq_zero.mp zero

private theorem call_others (taken : step s action = some s') :
    ∃ one, ∀ thread, thread ≠ one → s'.call thread = s.call thread := by
  rcases step_cases taken with ⟨w, refuse, rfl, moved⟩ | ⟨thread, rfl, moved⟩ | started
  · refine ⟨.worker w, ?_⟩
    intro thread other
    rcases (worked_of_work moved).call thread with same | ⟨self, _here⟩
    · exact same
    · exact absurd self other
  · exact ⟨thread, (called_of_callStep moved).call⟩
  · cases started with
    | entered seed thread todo origin =>
        exact ⟨thread, fun other different => Function.update_of_ne different ..⟩
    | deferred | drawn => exact ⟨.external 0, fun _ _ => rfl⟩

private theorem reachable_busy {permits : State n → Action n → Prop}
    (reached : (system n).Reachable permits s) :
    {thread | s.call thread ≠ .none}.Finite := by
  apply reached.invariant (fun s => {thread | s.call thread ≠ .none}.Finite)
  · intro state start
    have none : {thread | state.call thread ≠ .none} = ∅ := by
      ext thread
      simp [start.call thread]
    rw [none]
    exact Set.finite_empty
  · intro state next action _earlier finite _permitted taken
    obtain ⟨one, others⟩ := call_others taken
    refine (finite.insert one).subset ?_
    intro thread busy
    by_cases same : thread = one
    · exact Or.inl same
    · right
      change next.call thread ≠ .none at busy
      rw [others thread same] at busy
      exact busy

theorem Serves.all_return (serves : Serves run start) :
    ∀ᶠ time in atTop, ∀ thread, (run.state time).call thread = .none := by
  have finite := reachable_busy (serves.reached start)
  have each : ∀ᶠ time in atTop, ∀ thread ∈ {thread | (run.state start).call thread ≠ .none},
      (run.state time).call thread = .none :=
    (eventually_all_finite finite).mpr (fun thread _busy => serves.returns thread)
  filter_upwards [each, eventually_ge_atTop start] with time done later thread
  by_cases idle : (run.state start).call thread = .none
  · -- nobody enters a producer any more
    have zero : ((run.state time).call thread).rank = 0 := by
      refine System.Run.always (fun s : State n => (s.call thread).rank = 0) ?_ ?_ later
      · exact Call.rank_eq_zero.mpr idle
      · intro between order action acts before
        have one := call_of_silent (serves.silent between order action acts)
          (System.Run.moves acts) (serves.lasting (between + 1)) thread
        exact Nat.eq_zero_of_le_zero (Nat.le_trans one.1 (Nat.le_of_eq before))
    exact Call.rank_eq_zero.mp zero
  · exact done thread idle

structure Idle (run : (system n).Run) (start : Nat) : Prop where
  serves : Serves run start
  quiet : ∀ time, start ≤ time → ∀ thread, (run.state time).call thread = .none

theorem Serves.idle (serves : Serves run start) : ∃ later, start ≤ later ∧ Idle run later := by
  obtain ⟨later, none⟩ := eventually_atTop.mp serves.all_return
  refine ⟨max start later, Nat.le_max_left .., serves.later (Nat.le_max_left ..), ?_⟩
  intro time order
  exact none time (Nat.le_trans (Nat.le_max_right ..) order)

theorem Idle.later (idle : Idle run start) (after : start ≤ time) : Idle run time where
  serves := idle.serves.later after
  quiet := fun later order => idle.quiet later (Nat.le_trans after order)

theorem Idle.cases (idle : Idle run start) (later : start ≤ time)
    (acts : run.action time = some action) :
    (∃ w refuse, action = .work w refuse ∧
        work (run.state time) w refuse = some (run.state (time + 1))) ∨
      (action.worker = none ∧
        ∃ seed, run.state (time + 1) = { run.state time with seed := seed }) := by
  have silent := idle.serves.silent time later action acts
  rcases silent_cases silent (System.Run.moves acts) with worked | ⟨thread, rfl, moved⟩ | drawn
  · exact Or.inl worked
  · exact absurd (idle.quiet time later thread) (called_of_callStep moved).busy
  · cases action with
    | work w refuse => exact Or.inl ⟨w, refuse, rfl, System.Run.moves acts⟩
    | _ => exact Or.inr ⟨rfl, drawn⟩

structure Settled (run : (system n).Run) (start : Nat) : Prop where
  idle : Idle run start
  load : ∀ time, start ≤ time → (run.state time).load = (run.state start).load

theorem Idle.settled (idle : Idle run start) : ∃ later, start ≤ later ∧ Settled run later := by
  have less (time : Nat) (later : start ≤ time) (action : Action n)
      (acts : run.action time = some action) :
      (run.state (time + 1)).load ≤ (run.state time).load := by
    rcases idle.cases later acts with ⟨w, refuse, _own, moved⟩ | ⟨_none, seed, drawn⟩
    · rcases load_of_work moved with less | ⟨same, _free⟩
      · omega
      · exact Nat.le_of_eq same
    · rw [drawn]
      exact Nat.le_refl _
  obtain ⟨calm, after, same⟩ := System.Run.settles State.load less
  exact ⟨calm, after, idle.later after, same⟩

theorem Settled.later (settled : Settled run start) (after : start ≤ time) :
    Settled run time where
  idle := settled.idle.later after
  load := by
    intro later order
    rw [settled.load later (Nat.le_trans after order), settled.load time after]

theorem Settled.cases (settled : Settled run start) (later : start ≤ time)
    (acts : run.action time = some action) :
    (∀ u, (run.state (time + 1)).queue u = (run.state time).queue u) ∧
      ((∃ w refuse, action = .work w refuse ∧
          work (run.state time) w refuse = some (run.state (time + 1)) ∧
          (((run.state time).pc w).hand = none → ((run.state (time + 1)).pc w).hand = none)) ∨
        (action.worker = none ∧
          ∃ seed, run.state (time + 1) = { run.state time with seed := seed })) := by
  rcases settled.idle.cases later acts with ⟨w, refuse, own, moved⟩ | ⟨none, seed, drawn⟩
  · rcases queue_of_work moved with ⟨same, free⟩ | ⟨victim, entry, queue, others, _hand⟩
    · exact ⟨same, Or.inl ⟨w, refuse, own, moved, free⟩⟩
    · have change := load_change others
      have now := settled.load time later
      have next := settled.load (time + 1) (Nat.le_succ_of_le later)
      rw [queue, List.length_cons] at change
      omega
  · refine ⟨fun u => ?_, Or.inr ⟨none, seed, drawn⟩⟩
    rw [drawn]

theorem Settled.queue (settled : Settled run start) (later : start ≤ time) (w : Fin n) :
    (run.state time).queue w = (run.state start).queue w := by
  refine System.Run.always (fun s : State n => s.queue w = (run.state start).queue w) rfl ?_ later
  intro between order action acts before
  rw [(settled.cases order acts).1 w, before]

/-- The steps of a worker up to the inner loop when it finds no more tasks. -/
def Pc.errand : Pc n → Nat
  | .activate _ => 7
  | .unpark _ => 6
  | .poll _ => 5
  | .polling _ => 4
  | .check => 3
  | .drain => 2
  | .deactivate => 1
  | _ => 0

private theorem errand_unparked (pc : Pc n) : pc.unparked.errand = pc.errand := by
  cases pc <;> rfl

private theorem errand_of_moved {pc pc' : Pc n} (place : Moved s s' w pc pc')
    (free : pc.hand = none → pc'.hand = none) (lasting : s.shutdown w = false) :
    pc'.errand ≤ pc.errand ∧ (0 < pc.errand → pc'.errand < pc.errand) := by
  cases place with
  | leave flag =>
      rw [lasting] at flag
      cases flag
  | drain job | stole old tries victim job | found old job | own new job =>
      have empty := free rfl
      cases empty
  | _ => exact ⟨by simp [Pc.errand], by simp [Pc.errand]⟩

private theorem work_of_errand (idle : s.call (.worker w) = .none) (busy : 0 < (s.pc w).errand) :
    (work s w false).isSome = true := by
  cases here : s.pc w with
  | polling job => simp [work, here, idle, Call.isNone]
  | drain | poll job | check | deactivate | activate job | unpark job => simp [work, here]
  | _ =>
      rw [here] at busy
      cases busy

private theorem inactive_of_errand (flagged : Flagged s) (lasting : s.shutdown w = false)
    (zero : (s.pc w).errand = 0) : (s.pc w).active = false := by
  cases here : s.pc w with
  | returned =>
      have flag := flagged.returned w here
      rw [lasting] at flag
      cases flag
  | drain | poll job | polling job | check | deactivate | unpark job =>
      rw [here] at zero
      cases zero
  | _ => rfl

theorem Settled.errand_step (settled : Settled run start) (later : start ≤ time)
    (acts : run.action time = some action) (w : Fin n) :
    ((run.state (time + 1)).pc w).errand ≤ ((run.state time).pc w).errand ∧
      (action.worker = some w → 0 < ((run.state time).pc w).errand →
        ((run.state (time + 1)).pc w).errand < ((run.state time).pc w).errand) := by
  rcases (settled.cases later acts).2 with ⟨u, refuse, rfl, moved, free⟩ | ⟨none, seed, drawn⟩
  · by_cases same : u = w
    · subst same
      have lasting := settled.idle.serves.lasting time u
      have one := errand_of_moved (moved_of_work moved) free lasting
      exact ⟨one.1, fun _ => one.2⟩
    · have kept : ((run.state (time + 1)).pc w).errand = ((run.state time).pc w).errand := by
        rcases (worked_of_work moved).pc w (Ne.symm same) with still | unparked
        · rw [still]
        · rw [unparked, errand_unparked]
      refine ⟨Nat.le_of_eq kept, ?_⟩
      intro own
      exact absurd (Option.some.inj own) same
  · rw [drawn, none]
    exact ⟨Nat.le_refl _, fun own => by cases own⟩

theorem Settled.rests (settled : Settled run start) :
    ∀ᶠ time in atTop, ∀ w, ((run.state time).pc w).errand = 0 := by
  rw [eventually_all]
  intro w
  refine System.Run.comes_down (settled.idle.serves.workers w) (fun s => (s.pc w).errand)
    (fun time (later : start ≤ time) action acts => settled.errand_step later acts w) ?_
  intro time later busy
  exact ⟨.work w false, rfl, work_of_errand (settled.idle.quiet time later _) busy⟩

structure Resting (run : (system n).Run) (start : Nat) : Prop where
  settled : Settled run start
  errand : ∀ time, start ≤ time → ∀ w, ((run.state time).pc w).errand = 0

theorem Settled.resting (settled : Settled run start) :
    ∃ later, start ≤ later ∧ Resting run later := by
  obtain ⟨later, zero⟩ := eventually_atTop.mp settled.rests
  refine ⟨max start later, Nat.le_max_left .., settled.later (Nat.le_max_left ..), ?_⟩
  exact fun time order => zero time (Nat.le_trans (Nat.le_max_right ..) order)

namespace Resting

variable (resting : Resting run start)
include resting

theorem serves : Serves run start := resting.settled.idle.serves

theorem inactive (later : start ≤ time) (w : Fin n) : ((run.state time).pc w).active = false :=
  inactive_of_errand (reachable_flagged (resting.serves.reached time))
    (resting.serves.lasting time w) (resting.errand time later w)

theorem activeWorkers (later : start ≤ time) : (run.state time).activeWorkers = 0 :=
  activeWorkers_eq_zero.mpr (resting.inactive later)

theorem count (later : start ≤ time) : Epoch.activeCount (run.state time).word = 0 :=
  ((resting.serves.consistent time).activeCount_eq_zero resting.serves.small).mpr
    (resting.activeWorkers later)

private theorem not_raised (later : start ≤ time) : ¬ (run.state time).Raised := by
  rintro ⟨v, job, raised⟩
  have inactive := resting.inactive later v
  rw [raised] at inactive
  cases inactive

/-- What is left in a parked worker's queue would be announced by somebody. -/
theorem empty_of_parked (later : start ≤ time) {old : Snapshot}
    (parked : (run.state time).pc w = .parked old) : (run.state time).queue w = [] := by
  have small := resting.serves.small
  have asleep := reachable_asleep small (timely_careful small) (resting.serves.reached time)
  rcases asleep w old parked with raised | ⟨_calm, unannounced⟩
  · exact absurd raised (resting.not_raised later)
  · by_contra queued
    obtain ⟨entry, member⟩ := List.exists_mem_of_ne_nil _ queued
    have consistent := resting.serves.consistent time
    obtain ⟨thread, busy⟩ :=
      consistent.announcing (by rw [parked]; rfl) member (unannounced entry member)
    have idle := resting.settled.idle.quiet time later thread
    rw [idle] at busy
    rcases busy with ⟨_stamp, announces⟩ | ⟨_epoch, _origin, _stamp, unparking⟩
    · exact announces
    · cases unparking

end Resting

/-- The steps of an inactive worker until it looks into its own queue. -/
def Pc.hunt : Pc n → Nat
  | .recheck _ | .popChanged _ => 1
  | .search old => if Epoch.activeCount old.status = 0 then 2 else 8 * n + 5
  | .reread _ => 3
  | .park _ => 4
  | .wait _ => 5
  | .steal _ tries => 4 + 2 * (4 * n - tries)
  | .stealPop _ tries _ => 3 + 2 * (4 * n - tries)
  | _ => 0

private theorem hunt_of_moved {pc pc' : Pc n} (place : Moved s s' w pc pc') (branch : Branch s w pc)
    (free : pc.hand = none → pc'.hand = none) (rest : pc.errand = 0) (queued : s.queue w ≠ [])
    (count : Epoch.activeCount s.word = 0) (awake : ∀ old, pc' ≠ .parked old) :
    pc'.hunt < pc.hunt := by
  cases place with
  | drained empty | rechecked old empty | nothing new empty => exact absurd empty queued
  | drain job | stole old tries victim job | found old job | own new job =>
      have empty := free rfl
      cases empty
  | parking old same => exact absurd rfl (awake old)
  | busy old some =>
      simp only [Pc.hunt, if_neg some]
      omega
  | calm old none =>
      simp only [Pc.hunt, if_pos none]
      omega
  | same old still =>
      have fresh : (Pc.search (s.getStatus old) : Pc n).hunt = 2 := if_pos count
      rw [fresh]
      exact Nat.lt_succ_self 2
  | missed old tries more | stealing old tries victim more =>
      have bound := branch.2
      simp only [Pc.hunt]
      omega
  | late old tries victim =>
      have bound := branch.2
      simp only [Pc.hunt]
      omega
  | stolen | waiting | unchanged | refused | changed =>
      simp only [Pc.hunt]
      omega
  | _ => cases rest

private theorem hunt_pos (rest : (s.pc w).errand = 0) (flagged : Flagged s)
    (lasting : s.shutdown w = false) (awake : ∀ old, s.pc w ≠ .parked old) :
    0 < (s.pc w).hunt := by
  cases here : s.pc w with
  | returned =>
      have flag := flagged.returned w here
      rw [lasting] at flag
      cases flag
  | parked old => exact absurd here (awake old)
  | search old =>
      simp only [Pc.hunt]
      split <;> omega
  | recheck | popChanged | reread | park | wait | steal | stealPop =>
      simp only [Pc.hunt]
      omega
  | drain | poll | polling | check | deactivate | activate | unpark =>
      rw [here] at rest
      cases rest

private theorem pc_other {u : Fin n} {refuse : Bool} (taken : work s u refuse = some s')
    (calm : ∀ job, s.pc u ≠ .unpark job) (other : w ≠ u) : s'.pc w = s.pc w := by
  have popped (victim : Fin n) (empty : Pc n) (found : Work → Pc n) :
      (s.popFront u victim empty found).pc w = s.pc w := by
    rcases popFront_cases s u victim empty found with ⟨_none, shape⟩ | ⟨_, _, _here, shape⟩
    · rw [shape, State.setPc_pc, Function.update_of_ne other]
    · rw [shape, State.setPc_pc, Function.update_of_ne other]
      rfl
  cases here : s.pc u with
  | unpark job => exact absurd here (calm job)
  | drain | recheck old | popChanged new =>
      simp only [work, here] at taken
      cases taken
      exact popped ..
  | poll job =>
      simp only [work, here] at taken
      cases taken
      cases job <;> exact Function.update_of_ne other ..
  | polling job =>
      simp only [work, here] at taken
      split at taken
      · cases taken
        exact Function.update_of_ne other ..
      · cases taken
  | steal old tries =>
      simp only [work, here, trySteal] at taken
      repeat' split at taken
      all_goals
        cases taken <;> exact Function.update_of_ne other ..
  | stealPop old tries victim =>
      simp only [work, here, stealPop] at taken
      cases taken
      split <;> exact Function.update_of_ne other ..
  | parked old | returned => simp [work, here] at taken
  | _ =>
      simp only [work, here] at taken
      cases taken
      exact Function.update_of_ne other ..

private theorem work_of_rest (consistent : Consistent s) (small : n < 512) (flagged : Flagged s)
    (lasting : s.shutdown w = false) (rest : (s.pc w).errand = 0)
    (awake : ∀ old, s.pc w ≠ .parked old) : (work s w false).isSome = true := by
  cases here : s.pc w with
  | returned =>
      have flag := flagged.returned w here
      rw [lasting] at flag
      cases flag
  | parked old => exact absurd here (awake old)
  | steal old tries =>
      have held := consistent.held w old (by rw [here]; rfl)
      have branch := consistent.branch w
      rw [here] at branch
      obtain ⟨s', robbed⟩ : ∃ s', trySteal s w old tries = some s' :=
        trySteal_of_busy small held branch.1 tries
      by_cases done : tries = 4 * n
      · simp [work, here, done]
      · simp [work, here, done, robbed]
  | polling job =>
      rw [here] at rest
      cases rest
  | _ => simp [work, here]

namespace Resting

variable (resting : Resting run start)
include resting

private theorem pc_kept (later : start ≤ time) (acts : run.action time = some action)
    (other : action.worker ≠ some w) : (run.state (time + 1)).pc w = (run.state time).pc w := by
  rcases (resting.settled.cases later acts).2 with ⟨u, refuse, rfl, moved, _free⟩ | ⟨_, _, drawn⟩
  · refine pc_other moved ?_ (fun same => other (congrArg some same.symm))
    intro job raised
    exact resting.not_raised later ⟨u, job, raised⟩
  · rw [drawn]

theorem empty (w : Fin n) : (run.state start).queue w = [] := by
  by_contra queued
  have serves := resting.serves
  have still (time : Nat) (later : start ≤ time) : (run.state time).queue w ≠ [] := by
    rw [resting.settled.queue later w]
    exact queued
  have awake (time : Nat) (later : start ≤ time) (old : Snapshot) :
      (run.state time).pc w ≠ .parked old :=
    fun parked => still time later (resting.empty_of_parked later parked)
  have down : ∀ᶠ time in atTop, ((run.state time).pc w).hunt = 0 := by
    refine System.Run.comes_down (serves.workers w) (fun s => (s.pc w).hunt)
      (fun time (later : start ≤ time) action acts => ?_) ?_
    · by_cases own : action.worker = some w
      · have less : ((run.state (time + 1)).pc w).hunt < ((run.state time).pc w).hunt := by
          rcases (resting.settled.cases later acts).2 with ⟨u, _, rfl, moved, free⟩ | ⟨none, _⟩
          · cases own
            exact hunt_of_moved (moved_of_work moved) ((serves.consistent time).branch w) free
              (resting.errand time later w) (still time later) (resting.count later)
              (awake (time + 1) (Nat.le_succ_of_le later))
          · rw [none] at own
            cases own
        exact ⟨Nat.le_of_lt less, fun _ _ => less⟩
      · rw [resting.pc_kept later acts own]
        exact ⟨Nat.le_refl _, fun same => absurd same own⟩
    · intro time later _positive
      exact ⟨.work w false, rfl, work_of_rest (serves.consistent time) serves.small
        (reachable_flagged (serves.reached time)) (serves.lasting time w)
        (resting.errand time later w) (awake time later)⟩
  obtain ⟨late, zero⟩ := eventually_atTop.mp down
  have later := Nat.le_max_left start late
  have positive := hunt_pos (resting.errand _ later w)
    (reachable_flagged (serves.reached _)) (serves.lasting _ w) (awake _ later)
  rw [zero _ (Nat.le_max_right start late)] at positive
  cases positive

end Resting

theorem Settled.empty (settled : Settled run start) (w : Fin n) :
    (run.state start).queue w = [] := by
  obtain ⟨later, order, resting⟩ := settled.resting
  rw [← settled.queue order w]
  exact resting.empty w

/-- The runtime leaves no task behind: if nothing is asked of it from some time on, then from
some later time on all queues are empty, whatever order the threads take turns in. -/
theorem queues_drain (serves : Serves run start) :
    ∀ᶠ time in atTop, ∀ w, (run.state time).queue w = [] := by
  obtain ⟨_, _, idle⟩ := serves.idle
  obtain ⟨later, _, settled⟩ := idle.settled
  filter_upwards [eventually_ge_atTop later] with time order w
  rw [settled.queue order w]
  exact settled.empty w

/-- The steps of an inactive worker to the parking lot when the word stays as it is: a status
from before that has to be read anew. -/
def Pc.doze (word : BitVec 32) : Pc n → Nat
  | .park old => if word = old.status then 1 else 9
  | .wait old => if word = old.status then 2 else 10
  | .recheck old => if word = old.status then 3 else 11
  | .search old =>
      if word = old.status then 4
      else if Epoch.activeCount old.status = 0 then 12 else 8 * n + 10
  | .popChanged old => if word = old.status then 5 else 8 * n + 13
  | .reread _ => 8
  | .steal _ tries => 9 + 2 * (4 * n - tries)
  | .stealPop _ tries _ => 8 + 2 * (4 * n - tries)
  | _ => 0

private theorem doze_of_moved {pc pc' : Pc n} (place : Moved s s' w pc pc') (branch : Branch s w pc)
    (free : pc.hand = none → pc'.hand = none) (rest : pc.errand = 0)
    (count : Epoch.activeCount s.word = 0)
    (willing : ∀ old, pc = .wait old ∨ pc = .park old → pc' = .reread old →
      s.word ≠ old.status) :
    pc'.doze s.word < pc.doze s.word := by
  cases place with
  | drain job | stole old tries victim job | found old job | own new job =>
      have empty := free rfl
      cases empty
  | busy old some =>
      have other : s.word ≠ old.status := by
        intro same
        rw [same] at count
        exact some count
      simp only [Pc.doze, if_neg other, if_neg some]
      omega
  | calm old none =>
      simp only [Pc.doze, if_pos none]
      by_cases fresh : s.word = old.status
      · rw [if_pos fresh, if_pos fresh]
        exact Nat.lt_succ_self 3
      · rw [if_neg fresh, if_neg fresh]
        exact Nat.lt_succ_self 11
  | rechecked old empty =>
      simp only [Pc.doze]
      by_cases fresh : s.word = old.status
      · rw [if_pos fresh, if_pos fresh]
        exact Nat.lt_succ_self 2
      · rw [if_neg fresh, if_neg fresh]
        exact Nat.lt_succ_self 10
  | waiting old same =>
      simp only [Pc.doze, if_pos same]
      omega
  | unchanged old =>
      simp only [Pc.doze, if_neg (willing old (Or.inl rfl) rfl)]
      omega
  | parking old same =>
      simp only [Pc.doze, if_pos same]
      omega
  | refused old =>
      simp only [Pc.doze, if_neg (willing old (Or.inr rfl) rfl)]
      omega
  | changed old later =>
      have fresh : (Pc.popChanged (s.getStatus old) : Pc n).doze s.word = 5 := if_pos rfl
      rw [fresh]
      exact (by decide : 5 < 8)
  | same old still =>
      have fresh : (Pc.search (s.getStatus old) : Pc n).doze s.word = 4 := if_pos rfl
      rw [fresh]
      exact (by decide : 4 < 8)
  | nothing new empty =>
      simp only [Pc.doze]
      by_cases fresh : s.word = new.status
      · rw [if_pos fresh, if_pos fresh]
        exact Nat.lt_succ_self 4
      · rw [if_neg fresh, if_neg fresh]
        split <;> omega
  | missed old tries more | stealing old tries victim more =>
      have bound := branch.2
      simp only [Pc.doze]
      omega
  | late old tries victim =>
      have bound := branch.2
      simp only [Pc.doze]
      omega
  | stolen =>
      simp only [Pc.doze]
      omega
  | _ => cases rest

private theorem reread_of_work {old : Snapshot} (taken : work s w false = some s')
    (here : s.pc w = .wait old ∨ s.pc w = .park old) (now : s'.pc w = .reread old) :
    s.word ≠ old.status := by
  intro same
  rcases here with here | here
  · simp only [work, here, if_pos same] at taken
    cases taken
    simp at now
  · simp only [work, here, same] at taken
    cases taken
    simp at now

namespace Resting

variable (resting : Resting run start)
include resting

theorem word (later : start ≤ time) : (run.state time).word = (run.state start).word := by
  refine System.Run.always (fun s : State n => s.word = (run.state start).word) rfl ?_ later
  intro between order action acts before
  rw [← before]
  rcases (resting.settled.cases order acts).2 with ⟨u, _, _own, moved, _free⟩ | ⟨_, _, drawn⟩
  · rw [(resting.serves.consistent _).word, (resting.serves.consistent _).word,
      (worked_of_work moved).calls, resting.activeWorkers order,
      resting.activeWorkers (Nat.le_succ_of_le order)]
  · rw [drawn]

private theorem sleeps (willing : ∀ time, start ≤ time → ∀ w, run.action time ≠ some (.work w true))
    (w : Fin n) :
    ∀ᶠ time in atTop, ((run.state time).pc w).doze (run.state start).word = 0 := by
  have serves := resting.serves
  refine System.Run.comes_down (serves.workers w)
    (fun s => (s.pc w).doze (run.state start).word)
    (fun time (later : start ≤ time) action acts => ?_) ?_
  · by_cases own : action.worker = some w
    · have less : ((run.state (time + 1)).pc w).doze (run.state start).word <
          ((run.state time).pc w).doze (run.state start).word := by
        rcases (resting.settled.cases later acts).2 with ⟨u, refuse, rfl, moved, free⟩ | ⟨none, _⟩
        · cases own
          cases refuse with
          | true => exact absurd acts (willing time later w)
          | false =>
              rw [← resting.word later]
              exact doze_of_moved (moved_of_work moved) ((serves.consistent time).branch w) free
                (resting.errand time later w) (resting.count later)
                (fun _old here now => reread_of_work moved here now)
        · rw [none] at own
          cases own
      exact ⟨Nat.le_of_lt less, fun _ _ => less⟩
    · rw [resting.pc_kept later acts own]
      exact ⟨Nat.le_refl _, fun same => absurd same own⟩
  · intro time later positive
    refine ⟨.work w false, rfl, work_of_rest (serves.consistent time) serves.small
      (reachable_flagged (serves.reached time)) (serves.lasting time w)
      (resting.errand time later w) ?_⟩
    intro old parked
    rw [parked] at positive
    cases positive

end Resting

private theorem parked_of_doze {word : BitVec 32} (rest : (s.pc w).errand = 0) (flagged : Flagged s)
    (lasting : s.shutdown w = false) (zero : (s.pc w).doze word = 0) :
    ∃ old, s.pc w = .parked old := by
  cases here : s.pc w with
  | parked old => exact ⟨old, rfl⟩
  | returned =>
      have flag := flagged.returned w here
      rw [lasting] at flag
      cases flag
  | drain | poll | polling | check | deactivate | activate | unpark =>
      rw [here] at rest
      cases rest
  | park old | wait old | recheck old | popChanged old =>
      rw [here, Pc.doze] at zero
      split at zero <;> cases zero
  | search old =>
      rw [here, Pc.doze] at zero
      repeat' split at zero
      all_goals cases zero
  | reread | steal | stealPop =>
      rw [here] at zero
      simp only [Pc.doze] at zero
      omega

/-- An idle runtime does not keep the processor busy: if moreover the validation before a
parking is refused finitely often only, then from some time on all workers are parked. -/
theorem workers_fall_asleep (serves : Serves run start)
    (willing : ∀ time, start ≤ time → ∀ w, run.action time ≠ some (.work w true)) :
    ∀ᶠ time in atTop, ∀ w, ∃ old, (run.state time).pc w = .parked old := by
  obtain ⟨first, order, idle⟩ := serves.idle
  obtain ⟨second, further, settled⟩ := idle.settled
  obtain ⟨later, last, resting⟩ := settled.resting
  have after := Nat.le_trans order (Nat.le_trans further last)
  rw [eventually_all]
  intro w
  have sleeps := resting.sleeps
    (fun time beyond => willing time (Nat.le_trans after beyond)) w
  filter_upwards [sleeps, eventually_ge_atTop later] with time zero beyond
  exact parked_of_doze (resting.errand time beyond w)
    (reachable_flagged (serves.reached time)) (serves.lasting time w) zero

def flagless (s : State n) : Prop := ∀ w, s.shutdown w = false

instance (s : State n) : Decidable (flagless s) :=
  inferInstanceAs (Decidable (∀ w, s.shutdown w = false))

/-- The task is pushed to the second worker and counted when that worker has found its queue
empty and is still active. The first worker parks, the second one comes back to its queue. -/
def wakeBeforeInactive : List (Action 2) :=
  wakeInWindow ++ works first 6 ++ works second 20 ++ works first 5 ++ works second 4

private theorem wakeBeforeInactive_runs :
    ((system 2).exec pair wakeBeforeInactive).isSome = true := by decide

def bothAsleep : State 2 := ((system 2).exec pair wakeBeforeInactive).get wakeBeforeInactive_runs

def wakenBeforeInactive : (system 2).Run :=
  System.Run.replay (Option.some_get wakeBeforeInactive_runs).symm

private theorem bothAsleep_work : ∀ w refuse, (work bothAsleep w refuse).isNone = true := by decide

private theorem bothAsleep_call (thread : Thread 2) : callStep bothAsleep thread = none := by
  cases thread with
  | worker w => exact Option.isNone_iff_eq_none.mp (by revert w; decide)
  | external name => cases name <;> rfl

private theorem silent_since : ∀ action ∈ wakeBeforeInactive.drop 2, action.silent := by
  simp [wakeBeforeInactive, wakeInWindow, works, Action.silent]

private theorem wakenBeforeInactive_serves : Serves wakenBeforeInactive 2 where
  small := by decide
  initial := pair_initial
  inTime := fun _time _action acts =>
    System.Run.replay_permits _ (System.permitted_of_checks (by decide)) acts
  lasting := System.Run.replay_holds flagless _ (System.permitted_of_checks (by decide)) (by
    decide)
  silent := by
    intro time later action acts
    obtain ⟨further, rfl⟩ := Nat.exists_eq_add_of_le later
    have member : action ∈ wakeBeforeInactive.drop 2 := by
      refine List.mem_of_getElem? (i := further) ?_
      rw [List.getElem?_drop]
      exact acts
    exact silent_since action member
  workers := by
    intro w
    apply System.Run.replay_fair
    intro action own
    cases action with
    | work u refuse => exact Option.isNone_iff_eq_none.mp (bothAsleep_work u refuse)
    | _ => cases own
  callers := by
    intro thread
    apply System.Run.replay_fair
    rintro _ rfl
    exact bothAsleep_call thread

theorem task_in_window_is_taken :
    (wakenBeforeInactive.state 5).pc second = .search ⟨513, 1, 0⟩ ∧
      (wakenBeforeInactive.state 5).queue second = [⟨.task 7, .announced 1⟩] ∧
      ∀ᶠ time in atTop, ∀ w, (wakenBeforeInactive.state time).queue w = [] := by
  refine ⟨by decide, by decide, ?_⟩
  exact queues_drain wakenBeforeInactive_serves

theorem workers_sleep_after_it :
    ∀ᶠ time in atTop, ∀ w, ∃ old, (wakenBeforeInactive.state time).pc w = .parked old := by
  refine workers_fall_asleep wakenBeforeInactive_serves ?_
  intro time _later w acts
  have member : Action.work w true ∈ wakeBeforeInactive := List.mem_of_getElem? acts
  simp [wakeBeforeInactive, wakeInWindow, works] at member

end Yaay.Scheduler
