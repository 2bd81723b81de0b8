import Yaay.Runtime.LocalQueue
import Yaay.Runtime.Parking

set_option autoImplicit false

/-! Lemma A of `epoch.rs` as an invariant: no worker stays parked while another one is
active, and none parks. -/

namespace Yaay.Scheduler

open Yaay.Transition

variable {n : Nat} {s s' : State n} {w : Fin n} {action : Action n}

/-- A worker is parked only while none is active or a wake-up of all is to come. -/
def Watched (s : State n) : Prop :=
  ∀ w old, s.pc w = .parked old → s.Raised ∨ s.activeWorkers = 0

private theorem watched_step (consistent : Consistent s) (small : n < 512) (watched : Watched s)
    (taken : step s action = some s') : Watched s' := by
  intro w old parked
  by_cases before : s.pc w = .parked old
  · rcases watched w old before with raised | calm
    · exact Or.inl (still_raised taken parked raised)
    · exact calm_step consistent small taken calm
  · obtain ⟨_own, here, same⟩ := parking_of_step taken before parked
    exact calm_step consistent small taken (calm_of_parking consistent small here same)

theorem reachable_watched (small : n < 512) {permits : State n → Action n → Prop}
    (reached : (system n).Reachable permits s) : Watched s := by
  apply reached.invariant Watched
  · intro start initial w old parked
    rw [initial.pc] at parked
    cases parked
  · intro state next action earlier watched _permitted taken
    exact watched_step (reachable_consistent earlier) small watched taken

private theorem raised_of_step {work : Work} (taken : step s action = some s')
    (before : s.pc w ≠ .unpark work) (after : s'.pc w = .unpark work) :
    Epoch.activeCount s.word = 0 ∧ s'.word = s.word + 1 := by
  rcases pc_of_step taken w with (same | unparked) | ⟨refuse, rfl, moved⟩
  · rw [same] at after
    exact absurd after before
  · rw [unparked] at after
    exact absurd (eq_of_unparked after (fun _ other => by cases other)) before
  · have place := moved_of_work moved
    have word := word_of_work moved
    rw [after] at place word
    generalize s.pc w = pc at place word
    cases place with
    | first work none =>
        simp only [Pc.active] at word
        exact ⟨none, by simpa using word⟩

/-- While a worker is active, a parked one is about to be woken by a worker that moved the
count from 0 to 1, and no worker parks. -/
theorem no_worker_stays_parked (small : n < 512) (reached : (system n).Reachable anyAction s) :
    (Epoch.activeCount s.word ≠ 0 → (∃ w old, s.pc w = .parked old) → s.Raised) ∧
      (∀ action s' w old, step s action = some s' → s.pc w ≠ .parked old →
        s'.pc w = .parked old → Epoch.activeCount s.word = 0) ∧
      ∀ action s' v work, step s action = some s' → s.pc v ≠ .unpark work →
        s'.pc v = .unpark work →
          (Epoch.activeCount s.word).toNat = 0 ∧ (Epoch.activeCount s'.word).toNat = 1 := by
  have consistent := reachable_consistent reached
  refine ⟨?_, ?_, ?_⟩
  · rintro active ⟨w, old, parked⟩
    rcases reachable_watched small reached w old parked with raised | calm
    · exact raised
    · exact absurd ((consistent.activeCount_eq_zero small).mpr calm) active
  · intro action s' w old taken awake parked
    obtain ⟨_own, here, same⟩ := parking_of_step taken awake parked
    exact (consistent.activeCount_eq_zero small).mpr
      (calm_of_parking consistent small here same)
  · intro action s' v work taken before after
    obtain ⟨none, word⟩ := raised_of_step taken before after
    have calm := (consistent.activeCount_eq_zero small).mp none
    have counted : s'.word = Epoch.pack s.calls 1 := by
      rw [word, consistent.word, calm, Epoch.pack_setActive]
    rw [none, counted]
    exact ⟨rfl, Epoch.activeCount_pack (by decide)⟩

/-- The second worker parks; a task is woken into its queue, and the first worker, which
is still searching, steals it and calls `set_active`. -/
def stealWhileParked : List (Action 2) :=
  works second 1 ++ works first 2 ++ works second 5 ++
    [.wake 0 second 7, .call (.external 0)] ++ works first 4

private theorem stealWhileParked_runs : ((system 2).exec pair stealWhileParked).isSome = true := by
  decide

def raisedWhileParked : State 2 :=
  ((system 2).exec pair stealWhileParked).get stealWhileParked_runs

theorem raisedWhileParked_reached : (system 2).Reachable anyAction raisedWhileParked :=
  System.Reachable.replay_any (.initial pair pair_initial) stealWhileParked_runs

theorem parked_while_raised :
    raisedWhileParked.word = 1 ∧ raisedWhileParked.pc second = .parked ⟨0, 0, 0⟩ ∧
      raisedWhileParked.Raised := by
  have parked : raisedWhileParked.pc second = .parked ⟨0, 0, 0⟩ := by decide
  refine ⟨by decide, parked, ?_⟩
  exact (no_worker_stays_parked (by decide) raisedWhileParked_reached).1 (by decide)
    ⟨second, _, parked⟩

end Yaay.Scheduler
