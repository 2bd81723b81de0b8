import Yaay.Runtime.Parking

set_option autoImplicit false

/-! The status word refines two counters: the active workers and, up to `2 ^ 23`, the
calls of `next_epoch`. Every step changes at most one of them, by one. -/

namespace Yaay.Scheduler

open Yaay.Transition

variable {n : Nat} {s s' : State n} {w : Fin n} {action : Action n}

/-- What the step does to the two fields of the word and to the workers it counts. -/
inductive Counted (s s' : State n) : Action n → Prop
  | setInactive (w : Fin n) (refuse : Bool) (place : s.pc w = .deactivate)
      (returned : Epoch.setInactive s.word = (s'.word, some s'.word))
      (held : s'.pc w = .search ⟨s'.word, s'.calls, 0⟩)
      (active : (Epoch.activeCount s'.word).toNat + 1 = (Epoch.activeCount s.word).toNat)
      (epoch : Epoch.epoch s'.word = Epoch.epoch s.word) : Counted s s' (.work w refuse)
  | setActive (w : Fin n) (refuse : Bool) (work : Work) (place : s.pc w = .activate work)
      (returned : Epoch.setActive s.word = (s'.word, some s'.word))
      (active : (Epoch.activeCount s'.word).toNat = (Epoch.activeCount s.word).toNat + 1)
      (epoch : Epoch.epoch s'.word = Epoch.epoch s.word) : Counted s s' (.work w refuse)
  | nextEpoch (thread : Thread n) (origin : Origin) (call : s.call thread = .pushing [] origin)
      (added : s'.word = s.word + Epoch.epochUnit) (counted : s'.calls = s.calls + 1)
      (active : Epoch.activeCount s'.word = Epoch.activeCount s.word)
      (epoch : (Epoch.epoch s'.word).toNat = ((Epoch.epoch s.word).toNat + 1) % Epoch.epochs) :
      Counted s s' (.call thread)
  | other (action : Action n) (word : s'.word = s.word) (calls : s'.calls = s.calls)
      (active : ∀ w, (s'.pc w).active = (s.pc w).active) : Counted s s' action

namespace Consistent

private theorem toNat_activeCount (consistent : Consistent s) (small : n < 512) :
    (Epoch.activeCount s.word).toNat = s.activeWorkers := by
  rw [consistent.word]
  exact Epoch.activeCount_pack (Nat.lt_of_le_of_lt (activeWorkers_le s) small)

private theorem toNat_epoch (consistent : Consistent s) (small : n < 512) :
    (Epoch.epoch s.word).toNat = s.calls % Epoch.epochs := by
  rw [consistent.word]
  exact Epoch.epoch_pack (Nat.lt_of_le_of_lt (activeWorkers_le s) small)

end Consistent

private theorem place_of_left {refuse : Bool} (moved : work s w refuse = some s')
    (before : (s.pc w).active = true) (after : (s'.pc w).active = false) :
    s.pc w = .deactivate ∧ s'.pc w = .search ⟨s'.word, s'.calls, 0⟩ := by
  have place := moved_of_work moved
  generalize s.pc w = pc at place before ⊢
  generalize s'.pc w = pc' at place after ⊢
  cases place with
  | deactivate => exact ⟨rfl, rfl⟩
  | _ => simp [Pc.active] at before after

private theorem place_of_came {refuse : Bool} (moved : work s w refuse = some s')
    (before : (s.pc w).active = false) (after : (s'.pc w).active = true) :
    ∃ work, s.pc w = .activate work := by
  have place := moved_of_work moved
  generalize s.pc w = pc at place before ⊢
  generalize s'.pc w = pc' at place after
  cases place with
  | first work | another work => exact ⟨work, rfl⟩
  | _ => simp [Pc.active] at before after

private theorem counted_step (consistent : Consistent s) (small : n < 512)
    (taken : step s action = some s') : Counted s s' action := by
  have consistent' := consistent_step consistent taken
  have active := consistent.toNat_activeCount small
  have active' := consistent'.toNat_activeCount small
  have epoch := consistent.toNat_epoch small
  have epoch' := consistent'.toNat_epoch small
  have bound := activeWorkers_le s
  have bound' := activeWorkers_le s'
  have word := consistent.word
  have word' := consistent'.word
  rcases step_cases taken with ⟨w, refuse, rfl, moved⟩ | ⟨thread, rfl, moved⟩ | started
  · have worked := worked_of_work moved
    have sameEpoch : Epoch.epoch s'.word = Epoch.epoch s.word := by
      apply BitVec.eq_of_toNat_eq
      rw [epoch', epoch, worked.calls]
    rcases word_of_work moved with ⟨kept, same⟩ | ⟨_left, before, after⟩ | ⟨_came, before, after⟩
    · refine .other _ kept worked.calls ?_
      intro u
      by_cases here : u = w
      · rw [here, same]
      · exact worked.active_other here
    · obtain ⟨place, held⟩ := place_of_left moved before after
      have fewer := activeWorkers_gain after before
        (fun _ other => (worked.active_other other).symm)
      refine .setInactive w refuse place ?_ held (by omega) sameEpoch
      rw [word, word', fewer, worked.calls]
      exact Epoch.setInactive_pack (by omega)
    · obtain ⟨work, place⟩ := place_of_came moved before after
      have more := activeWorkers_gain before after (fun _ other => worked.active_other other)
      refine .setActive w refuse work place ?_ (by omega) sameEpoch
      rw [word, word', more, worked.calls]
      exact Epoch.setActive_pack (by omega)
  · have called := called_of_callStep moved
    have alike := activeWorkers_congr called.active
    rcases called.word with ⟨kept, same⟩ | ⟨added, more, origin, pushing⟩
    · exact .other _ kept same called.active
    · refine .nextEpoch thread origin pushing added more ?_ ?_
      · apply BitVec.eq_of_toNat_eq
        rw [active', active, alike]
      · rw [epoch', epoch, more, Nat.mod_add_mod]
  · cases started <;> exact .other _ rfl rfl (fun _ => rfl)

/-- In every run the word counts the active workers and the calls of `next_epoch`; each
step of a run changes one field at most, by one, and what `set_active` and `set_inactive`
return is the word that they leave. -/
theorem status_word_refines_counters (small : n < 512)
    (reached : (system n).Reachable anyAction s) :
    (Epoch.activeCount s.word).toNat = s.activeWorkers ∧
      (Epoch.epoch s.word).toNat = s.calls % Epoch.epochs ∧
      ∀ action s', step s action = some s' → Counted s s' action := by
  have consistent := reachable_consistent reached
  refine ⟨consistent.toNat_activeCount small, consistent.toNat_epoch small, ?_⟩
  intro action s' taken
  exact counted_step consistent small taken

abbrev loneWorker : Fin 1 := ⟨0, Nat.zero_lt_one⟩

def takeWhenWoken : List (Action 1) :=
  wakeWhileParked ++ [.call (.external 0), .call (.external 0),
    .work loneWorker false, .work loneWorker false]

private theorem takeWhenWoken_runs : ((system 1).exec lone takeWhenWoken).isSome = true := by decide

def aboutToActivate : State 1 := ((system 1).exec lone takeWhenWoken).get takeWhenWoken_runs

private theorem aboutToActivate_reached : (system 1).Reachable anyAction aboutToActivate :=
  System.Reachable.replay_any (.initial lone lone_initial) takeWhenWoken_runs

theorem counters_of_woken_worker :
    aboutToActivate.activeWorkers = 0 ∧ aboutToActivate.calls = 1 ∧
      (Epoch.epoch aboutToActivate.word).toNat = 1 ∧
      ∃ s', step aboutToActivate (.work loneWorker false) = some s' ∧
        Counted aboutToActivate s' (.work loneWorker false) := by
  have counters := status_word_refines_counters (by decide) aboutToActivate_reached
  refine ⟨by decide, by decide, counters.2.1, _, rfl, ?_⟩
  exact counters.2.2 _ _ rfl

end Yaay.Scheduler
