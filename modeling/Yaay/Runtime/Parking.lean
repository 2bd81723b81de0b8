import Yaay.Runtime.SchedulerInvariant

set_option autoImplicit false

/-! No worker sleeps on a task: the tasks in a parked worker's queue are still being
announced, or a worker that raised the active count from 0 is about to wake all. -/

namespace Yaay.Scheduler

open Yaay.Transition

variable {n : Nat} {s s' : State n} {w : Fin n} {action : Action n}

/-- Fewer than `2 ^ 23` calls of `next_epoch` fall between the read of a status and
its validation: no more than `MAX_DURATION` allows. -/
def timely (s : State n) (action : Action n) : Prop :=
  ∀ w ∈ action.worker, ∀ old ∈ (s.pc w).parking, s.calls < old.readAt + Epoch.epochs

instance (s : State n) (action : Action n) : Decidable (timely s action) :=
  inferInstanceAs (Decidable (∀ w ∈ action.worker, ∀ old ∈ (s.pc w).parking,
    s.calls < old.readAt + Epoch.epochs))

def State.Announcing (s : State n) (entry : Entry n) : Prop :=
  ∃ thread, (entry.stamp = .pushed thread ∧ (s.call thread).announces) ∨
    ∃ epoch origin, entry.stamp = .announcing thread epoch ∧ s.call thread = .unpark origin

def State.Raised (s : State n) : Prop := ∃ v work, s.pc v = .unpark work

def Asleep (s : State n) : Prop :=
  ∀ w old, s.pc w = .parked old →
    s.Raised ∨ (s.activeWorkers = 0 ∧ ∀ entry ∈ s.queue w, ∀ epoch, entry.stamp ≠ .announced epoch)

/-- Where a permitted validation succeeds, no task of the queue has been counted. -/
def Careful (permits : State n → Action n → Prop) : Prop :=
  ∀ s w refuse old, (system n).Reachable permits s → permits s (.work w refuse) →
    s.pc w = .park old → s.word = old.status → s.Uncounted w

theorem uncounted_of_recent (consistent : Consistent s) (small : n < 512) {old : Snapshot}
    (place : s.pc w = .park old) (same : s.word = old.status)
    (recent : s.calls < old.readAt + Epoch.epochs) : s.Uncounted w := by
  have held := consistent.held w old (by rw [place]; rfl)
  have branch := consistent.branch w
  rw [place] at branch
  have residue := (consistent.readAt_of_same small held same).1
  have calls : old.readAt = s.calls := by
    have earlier := held.1
    simp only [Epoch.epochs] at residue recent
    omega
  exact consistent.uncounted_of_newer (calls ▸ branch.2)

theorem timely_careful (small : n < 512) : Careful (timely (n := n)) :=
  fun _s _w _refuse old reached permitted place same =>
    uncounted_of_recent (reachable_consistent reached) small place same
      (permitted _ rfl old (by rw [place]; rfl))

theorem raised_step (taken : step s action = some s') (raised : s.Raised) :
    s'.Raised ∨ ∀ u old, s'.pc u ≠ .parked old := by
  obtain ⟨v, job, place⟩ := raised
  rcases pc_of_step taken v with (same | unparked) | ⟨refuse, rfl, moved⟩
  · exact Or.inl ⟨v, job, by rw [same, place]⟩
  · exact Or.inl ⟨v, job, by rw [unparked, place]; rfl⟩
  · simp only [work, place] at moved
    cases moved
    right
    intro u old
    rw [State.setPc_pc]
    by_cases same : u = v
    · rw [same, Function.update_self]
      exact fun other => by cases other
    · rw [Function.update_of_ne same, State.unparkAll_pc]
      exact unparked_ne _ old

theorem calm_step (consistent : Consistent s) (small : n < 512)
    (taken : step s action = some s') (calm : s.activeWorkers = 0) :
    s'.Raised ∨ s'.activeWorkers = 0 := by
  have zero := (consistent.activeCount_eq_zero small).mpr calm
  rw [activeWorkers_eq_zero] at calm ⊢
  by_cases raised : ∃ v, (s'.pc v).active = true
  · obtain ⟨v, active⟩ := raised
    refine Or.inl ⟨v, ?_⟩
    rcases pc_of_step taken v with (same | unparked) | ⟨refuse, rfl, moved⟩
    · rw [same, calm v] at active
      cases active
    · rw [unparked, unparked_active, calm v] at active
      cases active
    · have place := moved_of_work moved
      have inactive := calm v
      generalize s.pc v = pc at place inactive
      generalize s'.pc v = pc' at place active
      cases place with
      | first job none => exact ⟨job, rfl⟩
      | another job some => exact absurd zero some
      | _ => simp [Pc.active] at inactive active
  · exact Or.inr (fun v => by simpa using fun active => raised ⟨v, active⟩)

theorem calm_of_parking (consistent : Consistent s) (small : n < 512) {old : Snapshot}
    (here : s.pc w = .park old) (same : s.word = old.status) : s.activeWorkers = 0 := by
  have held := consistent.held w old (by rw [here]; rfl)
  have branch := consistent.branch w
  rw [here] at branch
  exact (consistent.readAt_of_same small held same).2 branch.1

theorem parking_of_step {old : Snapshot} (taken : step s action = some s')
    (awake : s.pc w ≠ .parked old) (parked : s'.pc w = .parked old) :
    (∃ refuse, action = .work w refuse) ∧ s.pc w = .park old ∧ s.word = old.status := by
  rcases pc_of_step taken w with (same | unparked) | ⟨refuse, rfl, moved⟩
  · rw [same] at parked
    exact absurd parked awake
  · rw [unparked] at parked
    exact absurd parked (unparked_ne _ _)
  · have place := moved_of_work moved
    rw [parked] at place
    generalize s.pc w = pc at place ⊢
    cases place with
    | parking old same => exact ⟨⟨refuse, rfl⟩, rfl, same⟩

theorem still_raised {old : Snapshot} (taken : step s action = some s')
    (parked : s'.pc w = .parked old) (raised : s.Raised) : s'.Raised := by
  rcases raised_step taken raised with still | woken
  · exact still
  · exact absurd parked (woken w old)

/-- A task of a parked worker's queue is announced by waking the worker. -/
theorem unannounced_step {old : Snapshot} (consistent : Consistent s) (small : n < 512)
    (calm : s.activeWorkers = 0) (parked : s'.pc w = .parked old)
    (unannounced : ∀ entry ∈ s.queue w, ∀ epoch, entry.stamp ≠ .announced epoch)
    (taken : step s action = some s') :
    ∀ entry ∈ s'.queue w, ∀ epoch, entry.stamp ≠ .announced epoch := by
  intro entry member epoch announced
  cases entered_of_step consistent.calling taken member with
  | kept before pushed announcing => exact unannounced entry before epoch announced
  | own stamp user kept =>
      rw [stamp] at announced
      cases announced
  | pushed thread stamp announces kept =>
      rw [stamp] at announced
      cases announced
  | counted thread origin earlier before work stamp call calling counted now =>
      rcases now with ⟨now, _unparking⟩ | ⟨_now, busy⟩
      · rw [now] at announced
        cases announced
      · exact busy ((consistent.activeCount_eq_zero small).mpr calm)
  | announced thread other earlier before work stamp now woken =>
      rw [woken w] at parked
      exact unparked_ne _ _ parked

private theorem asleep_step (consistent : Consistent s) (small : n < 512)
    (careful : ∀ w refuse old, action = .work w refuse → s.pc w = .park old →
      s.word = old.status → s.Uncounted w)
    (asleep : Asleep s) (taken : step s action = some s') : Asleep s' := by
  intro w old parked
  by_cases before : s.pc w = .parked old
  · rcases asleep w old before with raised | ⟨calm, unannounced⟩
    · exact Or.inl (still_raised taken parked raised)
    · rcases calm_step consistent small taken calm with raised | calm'
      · exact Or.inl raised
      · exact Or.inr ⟨calm', unannounced_step consistent small calm parked unannounced taken⟩
  · obtain ⟨⟨refuse, own⟩, here, same⟩ := parking_of_step taken before parked
    have calm := calm_of_parking consistent small here same
    rcases calm_step consistent small taken calm with raised | calm'
    · exact Or.inl raised
    · refine Or.inr ⟨calm', ?_⟩
      intro entry member epoch announced
      have uncounted := careful w refuse old own here same
      subst action
      have earlier := ((worked_of_work taken).queue w).subset member
      have stamp := uncounted entry earlier
      rw [announced] at stamp
      cases stamp

theorem reachable_asleep (small : n < 512) {permits : State n → Action n → Prop}
    (careful : Careful permits) (reached : (system n).Reachable permits s) : Asleep s := by
  apply reached.invariant Asleep
  · intro start initial w old parked
    rw [initial.pc] at parked
    cases parked
  · intro state next action earlier asleep permitted taken
    refine asleep_step (reachable_consistent earlier) small ?_ asleep taken
    rintro w refuse old rfl place same
    exact careful state w refuse old earlier permitted place same

/-- A task in a drained worker's queue that is not announced is being announced. -/
theorem Consistent.announcing (consistent : Consistent s) (drained : (s.pc w).drained = true)
    {entry : Entry n} (member : entry ∈ s.queue w)
    (unannounced : ∀ epoch, entry.stamp ≠ .announced epoch) : s.Announcing entry := by
  have stamped := consistent.stamped w entry member
  cases stamp : entry.stamp with
  | own =>
      rw [stamp, Stamped, drained] at stamped
      cases stamped
  | pushed thread =>
      rw [stamp] at stamped
      exact ⟨thread, Or.inl ⟨stamp, stamped⟩⟩
  | announcing thread epoch =>
      rw [stamp] at stamped
      exact ⟨thread, Or.inr ⟨epoch, stamped.2.choose, stamp, stamped.2.choose_spec⟩⟩
  | announced epoch => exact absurd stamp (unannounced epoch)

/-- A worker parked on a queue that is not empty is about to be woken; where all are
parked and no producer runs, all queues are empty. -/
theorem no_worker_sleeps_on_work (small : n < 512) (reached : (system n).Reachable timely s) :
    (∀ w old, s.pc w = .parked old → s.queue w ≠ [] →
      (∃ entry ∈ s.queue w, s.Announcing entry) ∨ s.Raised) ∧
    ((∀ w, ∃ old, s.pc w = .parked old) → (∀ thread, s.call thread = .none) →
      ∀ w, s.queue w = []) := by
  have consistent := reachable_consistent reached
  have awake (w : Fin n) (old : Snapshot) (parked : s.pc w = .parked old)
      (queued : s.queue w ≠ []) : (∃ entry ∈ s.queue w, s.Announcing entry) ∨ s.Raised := by
    rcases reachable_asleep small (timely_careful small) reached w old parked with
      raised | ⟨_calm, unannounced⟩
    · exact Or.inr raised
    · obtain ⟨entry, member⟩ := List.exists_mem_of_ne_nil _ queued
      exact Or.inl ⟨entry, member,
        consistent.announcing (by rw [parked]; rfl) member (unannounced entry member)⟩
  refine ⟨awake, ?_⟩
  intro parked idle w
  by_contra queued
  obtain ⟨old, place⟩ := parked w
  rcases awake w old place queued with ⟨entry, _member, thread, busy⟩ | ⟨v, work, raised⟩
  · rw [idle thread] at busy
    rcases busy with ⟨_stamp, announces⟩ | ⟨_epoch, _origin, _stamp, unparking⟩
    · exact announces
    · cases unparking
  · obtain ⟨other, there⟩ := parked v
    rw [there] at raised
    cases raised

def lone : State 1 :=
  { word := 1, queue := fun _ => [], seed := fun _ => 1, shutdown := fun _ => false
    pc := fun _ => .drain, call := fun _ => .none, calls := 0, stays := fun _ => 0
    stopped := false }

theorem lone_initial : Initial lone :=
  ⟨rfl, fun _ => rfl, fun _ => rfl, fun _ => rfl, fun _ => rfl, rfl, rfl⟩

def wakeWhileParked : List (Action 1) :=
  List.replicate 6 (.work 0 false) ++ [.wake 0 0 7, .call (.external 0)]

private theorem wakeWhileParked_runs : ((system 1).exec lone wakeWhileParked).isSome = true := by
  decide

def parkedOnWork : State 1 := ((system 1).exec lone wakeWhileParked).get wakeWhileParked_runs

private theorem parkedOnWork_reached : (system 1).Reachable timely parkedOnWork :=
  System.Reachable.replay (.initial lone lone_initial) (System.permitted_of_checks (by decide))
    wakeWhileParked_runs

theorem awake_while_parked :
    parkedOnWork.queue 0 = [⟨.task 7, .pushed (.external 0)⟩] ∧
      ((∃ entry ∈ parkedOnWork.queue 0, parkedOnWork.Announcing entry) ∨ parkedOnWork.Raised) :=
  ⟨by decide, (no_worker_sleeps_on_work (by decide) parkedOnWork_reached).1 0 ⟨0, 0, 0⟩ rfl
    (by decide)⟩

end Yaay.Scheduler
