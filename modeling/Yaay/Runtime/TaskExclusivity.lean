import Yaay.Runtime.TaskInvariant

set_option autoImplicit false

/-! A task is in one place at a time, and only one worker at a time polls it. -/

namespace Yaay.TaskSystem

open Yaay.Transition

variable {cfg : Config} {s : State cfg} {task : TaskRef}

/-- The task is at most once in at most one list or hand; while it is polled it
is in no list and no other worker polls it; a poll starts only if no poll runs
and none has returned ready. -/
structure Exclusive (s : State cfg) (task : TaskRef) : Prop where
  once : ∀ holder, (s.content holder).count task ≤ 1
  alone : ∀ holder other, task ∈ s.content holder → task ∈ s.content other → holder = other
  unqueued : ∀ thread list, s.frame thread = .polling task → task ∉ s.lists list
  single : ∀ thread other, s.frame thread = .polling task → s.frame other = .polling task →
    thread = other
  fresh : ∀ thread next, step s (.callPoll thread) = some next →
    next.frame thread = .polling task →
      (s.history task).ready = false ∧ (s.history task).drops = 0 ∧
        ∀ other, s.frame other ≠ .polling task

private theorem callPoll_from {next : State cfg} {thread : Fin cfg.threads}
    (taken : step s (.callPoll thread) = some next)
    (polling : next.frame thread = .polling task) : s.frame thread = .cleared task := by
  simp only [step, callPoll] at taken
  split at taken
  · rename_i held frame
    cases taken
    rw [State.setFrame_frame, Function.update_self] at polling
    cases polling
    exact frame
  · cases taken

theorem Counts.alone {place : Place cfg} (counts : Counts s task place)
    {holder other : Holder cfg} (first : task ∈ s.content holder)
    (second : task ∈ s.content other) : holder = other := by
  have here := counts.place_of_mem first
  have there := counts.place_of_mem second
  rw [here] at there
  exact Place.held.inj there

theorem Located.exclusive {place : Place cfg} (located : Located s task place) :
    Exclusive s task := by
  have hand (thread : Fin cfg.threads) (polling : s.frame thread = .polling task) :
      task ∈ s.content (.frame thread) := by
    simp [State.content, polling, Frame.held]
  constructor
  · intro holder
    rw [located.counts holder]
    split
    · exact Nat.le_refl 1
    · exact Nat.zero_le 1
  · intro holder other first second
    exact located.counts.alone first second
  · intro thread list polling queued
    have apart := located.counts.alone (hand thread polling)
      (show task ∈ s.content (.list list) from queued)
    cases apart
  · intro thread other first second
    exact Holder.frame.inj (located.counts.alone (hand thread first) (hand other second))
  · intro thread next taken polling
    have frame := callPoll_from taken polling
    have held : task ∈ (s.frame thread).held := by simp [frame, Frame.held]
    have settled := located.settled
    rw [located.counts.place_of_frame held, Settled, frame] at settled
    refine ⟨settled.1.2, settled.1.1.drops_eq, ?_⟩
    intro other busy
    have same := located.counts.alone (show task ∈ s.content (.frame thread) from held)
      (hand other busy)
    rw [Holder.frame.inj same, busy] at frame
    cases frame

/-- Exclusivity in every run in which no poll unwinds. -/
theorem exclusive_in_every_run (reached : (system cfg).Reachable noPanic s)
    (task : TaskRef) : Exclusive s task := by
  obtain ⟨_place, located⟩ := reachable_inv reached task
  exact located.exclusive

abbrev twoWorkers : Config := { workers := 2, threads := 3, main := 0 }

abbrev mainThread : Fin twoWorkers.threads := 0

abbrev thread0 : Fin twoWorkers.threads := 1

abbrev thread1 : Fin twoWorkers.threads := 2

/-- The main thread starts task 7; worker 0 polls it and another worker's thread
wakes it through a cloned waker during the poll. -/
def wakeDuringPoll : List (Action twoWorkers) :=
  [.build thread0 0, .build thread1 1, .create mainThread 7 0 false .run, .place mainThread,
    .pop thread0 0, .clearNotified thread0, .callPoll thread0,
    .cloneWaker thread0 7 (.lent thread0) 5, .wake thread1 7 (.byRef 5), .wakeFetchOr thread1]

theorem wakeDuringPoll_runs :
    ((system twoWorkers).exec (State.init twoWorkers) wakeDuringPoll).isSome = true := by
  decide

def polledAndWoken : State twoWorkers :=
  ((system twoWorkers).exec (State.init twoWorkers) wakeDuringPoll).get wakeDuringPoll_runs

theorem polledAndWoken_reached : (system twoWorkers).Reachable noPanic polledAndWoken := by
  refine System.Reachable.replay (.initial _ rfl) ?_ wakeDuringPoll_runs
  exact System.permitted_of_all wakeDuringPoll (by simp [wakeDuringPoll, noPanic]) _

theorem exclusive_while_polled :
    polledAndWoken.frame 1 = .polling 7 ∧ Exclusive polledAndWoken 7 :=
  ⟨rfl, exclusive_in_every_run polledAndWoken_reached 7⟩

end Yaay.TaskSystem
