import Yaay.Runtime.LocalQueue
import Yaay.Runtime.ShutdownSupply

set_option autoImplicit false

/-! Stealing a `Shutdown`, or skipping a worker whose flag was read as set, loses the
shutdown of no worker. -/

namespace Yaay.Scheduler

open Yaay.Transition

variable {n : Nat} {s s' : State n} {w : Fin n} {action : Action n}

def State.Sent (s : State n) : Prop :=
  s.stopped = true ∨ ∃ thread, (s.call thread).remaining = some []

/-- A `Shutdown` is in the worker's queue or hand, or another worker has popped one
whose loop over the other workers has yet to deal with this worker. -/
inductive Due (s : State n) (w : Fin n) : Prop
  | queued (entry : Entry n) (member : entry ∈ s.queue w) (shutdown : entry.work = .shutdown)
  | inHand (hand : (s.pc w).hand = some .shutdown)
  | elsewhere (other : Fin n) (different : other ≠ w)
      (popped : (s.pc other).hand = some .shutdown ∨ (s.call (.worker other)).visits w)

private theorem sent_step (calling : Calling s) (sent : s.Sent) (taken : step s action = some s') :
    s'.Sent := by
  have kept (stopped : s.stopped = true) : s'.stopped = true := by
    rcases stopped_of_step taken with same | ⟨set, _ending⟩
    · rw [same, stopped]
    · exact set
  rcases sent with stopped | ⟨thread, remaining⟩
  · exact Or.inl (kept stopped)
  · rcases call_of_step taken thread with same | proceeded | ⟨idle, _entered⟩ | polled
    · exact Or.inr ⟨thread, by rw [same, remaining]⟩
    · generalize s.call thread = call at proceeded remaining
      generalize after : s'.call thread = call' at proceeded
      cases proceeded with
      | counted origin stopped =>
          refine Or.inr ⟨thread, ?_⟩
          rw [after]
          cases origin with
          | push => cases remaining
          | shutdownAsync => rfl
      | announced origin stopped | woken origin stopped =>
          cases origin with
          | push => cases remaining
          | shutdownAsync => exact Or.inl (stopped.trans (Bool.or_true _))
      | pushed insert rest origin =>
          cases origin <;> cases remaining
      | _ => cases remaining
    · rw [idle] at remaining
      cases remaining
    · obtain ⟨v, same, here, _looping, _flag⟩ := polled
      rw [same, idle_of_poll calling here] at remaining
      cases remaining

private theorem due_of_supplied {settled : Stamp n → Prop} (flagged : Flagged s)
    (unset : s.shutdown w = false) (supplied : Supplied s settled w) : Due s w := by
  rcases supplied with flag | ⟨entry, member, shutdown, _here⟩ | ⟨u, hand⟩ | ⟨u, visits⟩
  · rw [unset] at flag
    cases flag
  · exact .queued entry member shutdown
  · by_cases same : u = w
    · rw [same] at hand
      exact .inHand hand
    · exact .elsewhere u same (Or.inl hand)
  · refine .elsewhere u ?_ (Or.inr visits)
    intro same
    rw [same] at visits
    rw [flagged.looping w w visits] at unset
    cases unset

private theorem flagged_pops_nothing (flagged : Flagged s) (flag : s.shutdown w = true)
    {refuse : Bool} (taken : work s w refuse = some s') :
    s'.queue = s.queue ∧ (s'.pc w).hand = none := by
  have leaving := flagged.leaving w flag
  cases here : s.pc w with
  | polling job =>
      simp only [work, here] at taken
      split at taken
      · cases taken
        exact ⟨rfl, by rw [State.setPc_pc, Function.update_self]; rfl⟩
      · cases taken
  | check =>
      simp only [work, here, flag] at taken
      cases taken
      exact ⟨rfl, by rw [State.setPc_pc, Function.update_self]; rfl⟩
  | returned => simp [work, here] at taken
  | _ =>
      rw [here] at leaving
      cases leaving

/-- The worker goes on with a `Shutdown` in hand until it polls it. -/
theorem hand_until_polled (hand : (s.pc w).hand = some .shutdown)
    (taken : step s action = some s') :
    (s'.pc w).hand = some .shutdown ∨ s'.shutdown w = true := by
  rcases hand_step taken hand with still | ⟨refuse, moved, here⟩
  · exact Or.inl still
  · simp only [work, here, pollTask] at moved
    cases moved
    exact Or.inr (Function.update_self ..)

/-- After the first `shutdown_async` has finished its push loop every worker whose flag is
not set has a `Shutdown` to come, whoever steals or skips what. -/
theorem shutdown_survives_stealing (reached : (system n).Reachable anyAction s) :
    (s.Sent → ∀ w, s.shutdown w = false → Due s w) ∧
      (∀ action s', step s action = some s' → s.Sent → s'.Sent) ∧
      (∀ w action s', (s.pc w).hand = some .shutdown → step s action = some s' →
        (s'.pc w).hand = some .shutdown ∨ s'.shutdown w = true) ∧
      ∀ w refuse s', s.shutdown w = true → work s w refuse = some s' →
        s'.queue = s.queue ∧ (s'.pc w).hand = none := by
  have flagged := reachable_flagged reached
  have spread := reachable_spread reached
  refine ⟨?_, ?_, ?_, ?_⟩
  · intro sent w unset
    rcases sent with stopped | ⟨thread, remaining⟩
    · exact due_of_supplied flagged unset (spread.stopped stopped w)
    · rcases spread.sending thread [] remaining w with ⟨insert, member, _target⟩ | supplied
      · cases member
      · exact due_of_supplied flagged unset supplied
  · intro action s' taken sent
    exact sent_step (reachable_consistent reached).calling sent taken
  · intro w action s' hand taken
    exact hand_until_polled hand taken
  · intro w refuse s' flag taken
    exact flagged_pops_nothing flagged flag taken

def stealShutdown : List (Action 2) :=
  works first 3 ++ [.shutdownAsync (.external 0)] ++ List.replicate 2 (.call (.external 0)) ++
    works first 2

private theorem stealShutdown_runs : ((system 2).exec pair stealShutdown).isSome = true := by decide

def shutdownStolen : State 2 := ((system 2).exec pair stealShutdown).get stealShutdown_runs

private theorem shutdownStolen_reached : (system 2).Reachable anyAction shutdownStolen :=
  System.Reachable.replay_any (.initial pair pair_initial) stealShutdown_runs

theorem stolen_shutdown_is_due :
    shutdownStolen.queue second = [] ∧ shutdownStolen.shutdown second = false ∧
      Due shutdownStolen second := by
  have unset : shutdownStolen.shutdown second = false := by decide
  refine ⟨by decide, unset, ?_⟩
  exact (shutdown_survives_stealing shutdownStolen_reached).1
    (Or.inr ⟨.external 0, rfl⟩) second unset

end Yaay.Scheduler
