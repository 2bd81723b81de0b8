import Yaay.Runtime.LemmaA

set_option autoImplicit false

/-! Lemma B of `epoch.rs` over whole runs: whoever is parked when `next_epoch` counts is
woken by a thread that has nothing to do before its `unpark_all`. -/

namespace Yaay.Scheduler

open Yaay.Transition

variable {n : Nat} {s s' : State n} {w : Fin n} {action : Action n}

/-- A producer has counted an epoch with no worker active and has yet to run `unpark_all`. -/
def State.Waking (s : State n) : Prop := ∃ thread origin, s.call thread = .unpark origin

/-- The next step of some thread is an `unpark_all`. -/
def State.Owed (s : State n) : Prop := s.Raised ∨ s.Waking

theorem wakeAllSlow_wakes (s : State n) (thread : Thread n) (origin : Origin) (u : Fin n)
    (old : Snapshot) : (wakeAllSlow s thread origin).pc u ≠ .parked old :=
  unparked_ne (s.pc u) old

/-- Whoever owes the `unpark_all` takes it as its next step, and nobody stays parked. -/
theorem owed_paid (owed : s.Owed) :
    ∃ action s', step s action = some s' ∧ ∀ u old, s'.pc u ≠ .parked old := by
  rcases owed with ⟨v, job, here⟩ | ⟨thread, origin, here⟩
  · refine ⟨.work v false, s.unparkAll.setPc v (.poll job), ?_, ?_⟩
    · rw [step, work, here]
    · intro u old
      rw [State.setPc_pc]
      by_cases same : u = v
      · rw [same, Function.update_self]
        exact fun other => by cases other
      · rw [Function.update_of_ne same, State.unparkAll_pc]
        exact unparked_ne _ old
  · refine ⟨.call thread, wakeAllSlow s thread origin, ?_, wakeAllSlow_wakes s thread origin⟩
    rw [step, callStep, here]

private theorem waking_step (calling : Calling s) (taken : step s action = some s')
    (waking : s.Waking) :
    s'.Waking ∨ ∀ u old, s'.pc u ≠ .parked old := by
  obtain ⟨thread, origin, here⟩ := waking
  have stays (same : s'.call thread = s.call thread) : s'.Waking :=
    ⟨thread, origin, by rw [same, here]⟩
  rcases step_cases taken with ⟨v, refuse, rfl, moved⟩ | ⟨other, rfl, moved⟩ | started
  · rcases (worked_of_work moved).call thread with same | ⟨own, poll, _looping, _flag⟩
    · exact Or.inl (stays same)
    · rw [own, idle_of_poll calling poll] at here
      cases here
  · by_cases same : thread = other
    · subst same
      rw [callStep, here] at moved
      cases moved
      exact Or.inr (wakeAllSlow_wakes s thread origin)
    · exact Or.inl (stays ((called_of_callStep moved).call thread same))
  · cases started with
    | entered seed other todo origin user idle everyone =>
        refine Or.inl (stays (Function.update_of_ne ?_ ..))
        rintro rfl
        rw [idle] at here
        cases here
    | deferred | drawn => exact Or.inl (stays rfl)

private theorem owed_step (calling : Calling s) (taken : step s action = some s') (owed : s.Owed) :
    s'.Owed ∨ ∀ u old, s'.pc u ≠ .parked old := by
  rcases owed with raised | waking
  · exact (raised_step taken raised).imp_left Or.inl
  · exact (waking_step calling taken waking).imp_left Or.inr

private theorem owed_of_nextEpoch (consistent : Consistent s) (small : n < 512)
    (watched : Watched s)
    {old : Snapshot} (parked : s.pc w = .parked old) (thread : Thread n) (origin : Origin) :
    (nextEpoch s thread origin).pc w = .parked old ∧ (nextEpoch s thread origin).Owed := by
  simp only [nextEpoch]
  split
  · exact ⟨by simpa using parked, Or.inr ⟨thread, origin, Function.update_self ..⟩⟩
  · rename_i active
    refine ⟨by simpa using parked, Or.inl ?_⟩
    rcases watched w old parked with ⟨v, job, raised⟩ | calm
    · exact ⟨v, job, by simpa using raised⟩
    · exact absurd ((consistent.activeCount_eq_zero small).mpr calm) active

structure Waits (w : Fin n) (old : Snapshot) (s : State n) : Prop where
  calling : Calling s
  parked : s.pc w = .parked old
  owed : s.Owed

private theorem waits_step {old : Snapshot} (waits : Waits w old s)
    (taken : step s action = some s') :
    Waits w old s' ∨ s'.pc w ≠ .parked old := by
  by_cases parked : s'.pc w = .parked old
  · rcases owed_step waits.calling taken waits.owed with owed | awake
    · exact Or.inl ⟨calling_step waits.calling taken, parked, owed⟩
    · exact absurd parked (awake w old)
  · exact Or.inr parked

/-- From the `fetch_add` of a `next_epoch` on, a worker that was parked there is woken, or it is
still parked and a thread's next step wakes it. -/
theorem parked_worker_is_woken (small : n < 512) (reached : (system n).Reachable anyAction s)
    {old : Snapshot} (parked : s.pc w = .parked old) {thread : Thread n} {origin : Origin}
    (counts : s.call thread = .pushing [] origin) (taken : step s (.call thread) = some s')
    {actions : List (Action n)} {last : State n}
    (ran : (system n).exec s' actions = some last) :
    (∃ before after middle, actions = before ++ after ∧
        (system n).exec s' before = some middle ∧ middle.pc w ≠ .parked old) ∨
      (last.pc w = .parked old ∧
        ∃ action next, step last action = some next ∧ ∀ u old, next.pc u ≠ .parked old) := by
  have consistent := reachable_consistent reached
  have watched := reachable_watched small reached
  obtain ⟨stays, owed⟩ := owed_of_nextEpoch consistent small watched parked thread origin
  have counted : s' = nextEpoch s thread origin := by
    rw [step, callStep, counts] at taken
    exact (Option.some.inj taken).symm
  have waits : Waits w old s' := by
    refine ⟨calling_step consistent.calling taken, ?_, ?_⟩
    · rw [counted, stays]
    · rw [counted]
      exact owed
  rcases (system n).holds_until (Waits w old) (fun s => s.pc w ≠ .parked old)
    (fun _ _ _ waits taken => waits_step waits taken) waits ran with still | passed
  · exact Or.inr ⟨still.parked, owed_paid still.owed⟩
  · exact Or.inl passed

theorem parked_worker_is_woken_while_raised :
    ∃ s', step raisedWhileParked (.call (.external 0)) = some s' ∧
      s'.pc second = .parked ⟨0, 0, 0⟩ ∧
      ∃ action next, step s' action = some next ∧ ∀ u old, next.pc u ≠ .parked old := by
  have parked : raisedWhileParked.pc second = .parked ⟨0, 0, 0⟩ := by decide
  have counts : raisedWhileParked.call (.external 0) = .pushing [] .push := rfl
  have taken : step raisedWhileParked (.call (.external 0)) =
      some (nextEpoch raisedWhileParked (.external 0) .push) := rfl
  refine ⟨_, taken, ?_⟩
  rcases parked_worker_is_woken (by decide) raisedWhileParked_reached parked counts taken
    (rfl : (system 2).exec _ [] = some _) with ⟨before, after, middle, split, ran, awake⟩ | woken
  · obtain ⟨rfl, rfl⟩ := List.nil_eq_append_iff.mp split
    have same : nextEpoch raisedWhileParked (.external 0) .push = middle := Option.some.inj ran
    rw [← same] at awake
    exact absurd (by decide) awake
  · exact woken

end Yaay.Scheduler
