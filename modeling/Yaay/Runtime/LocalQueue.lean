import Yaay.Runtime.SchedulerInvariant

set_option autoImplicit false

/-! A worker in the inner loop notices the tasks of its own queue, except those that
were counted between its last pop and its `set_inactive`. -/

namespace Yaay.Scheduler

open Yaay.Transition

variable {n : Nat} {s s' : State n} {w : Fin n} {action : Action n}

/-- A worker calls `set_inactive` as the last active one or with no counted task in its
queue, and reads the word again before the epoch has wrapped, or with no such task. -/
def attentive (s : State n) (action : Action n) : Prop :=
  ∀ w ∈ action.worker,
    (s.pc w = .deactivate → Epoch.activeCount s.word = 1 ∨ s.Uncounted w) ∧
      ∀ old ∈ (s.pc w).rereading,
        s.calls / Epoch.epochs = old.readAt / Epoch.epochs ∨ s.Uncounted w

instance (s : State n) (w : Fin n) : Decidable (s.Uncounted w) :=
  inferInstanceAs (Decidable (∀ entry ∈ s.queue w, entry.stamp.counted = none))

instance (s : State n) (action : Action n) : Decidable (attentive s action) :=
  inferInstanceAs (Decidable (∀ w ∈ action.worker,
    (s.pc w = .deactivate → Epoch.activeCount s.word = 1 ∨ s.Uncounted w) ∧
      ∀ old ∈ (s.pc w).rereading,
        s.calls / Epoch.epochs = old.readAt / Epoch.epochs ∨ s.Uncounted w))

/-- The status in the worker's hands is older than the tasks of its queue, but for the
one that `set_inactive` returned to the last active worker, who looks again. -/
def Noticed (s : State n) (w : Fin n) : Pc n → Prop
  | .search old =>
      s.Newer w old.readAt ∨ (Epoch.activeCount old.status = 0 ∧ old.pass = 0)
  | .steal old _ | .stealPop old _ _ | .reread old => s.Newer w old.readAt
  | _ => True

theorem lastActive_step (consistent : Consistent s) (small : n < 512)
    (taken : step s action = some s') (last : Epoch.activeCount s.word = 1)
    (fewer : s.activeWorkers = s'.activeWorkers + 1) : Epoch.activeCount s'.word = 0 := by
  have bound := Nat.lt_of_le_of_lt (activeWorkers_le s) small
  rw [consistent.word, ← BitVec.toNat_inj, Epoch.activeCount_pack bound] at last
  have none : s'.activeWorkers = 0 := by
    change s.activeWorkers = 1 at last
    omega
  exact ((consistent_step consistent taken).activeCount_eq_zero small).mpr none

theorem readAt_of_unchanged (consistent : Consistent s) (small : n < 512) {old : Snapshot}
    (held : Held s old) (still : ¬ Epoch.epoch old.status < Epoch.epoch s.word)
    (near : s.calls / Epoch.epochs = old.readAt / Epoch.epochs) : old.readAt = s.calls := by
  obtain ⟨earlier, active, few, status⟩ := held
  rw [consistent.word, status, BitVec.lt_def, Epoch.epoch_pack (Nat.lt_trans few small),
    Epoch.epoch_pack (Nat.lt_of_le_of_lt (activeWorkers_le s) small)] at still
  simp only [Epoch.epochs] at still near
  omega

private theorem noticed_step (consistent : Consistent s) (small : n < 512)
    (permitted : attentive s action) (noticed : ∀ w, Noticed s w (s.pc w))
    (taken : step s action = some s') (w : Fin n) : Noticed s' w (s'.pc w) := by
  have before := noticed w
  have branch := consistent.branch w
  have held := consistent.held w
  have newer {old : Snapshot} (holds : (s.pc w).snapshot = some old)
      (older : s.Newer w old.readAt) : s'.Newer w old.readAt :=
    newer_step consistent taken (held old holds).1 older
  rcases pc_of_step taken w with (same | unparked) | ⟨refuse, rfl, moved⟩
  · rw [same]
    generalize s.pc w = pc at before newer
    cases pc with
    | search old => exact before.imp_left (newer rfl)
    | steal | stealPop | reread => exact newer rfl before
    | _ => trivial
  · rw [unparked]
    generalize s.pc w = pc at before newer branch
    cases pc with
    | search old => exact before.imp_left (newer rfl)
    | steal | stealPop | reread => exact newer rfl before
    | parked old => exact newer rfl branch.2
    | _ => trivial
  · have place := moved_of_work moved
    have queue := (worked_of_work moved).queue w
    have unseen (none : s.Uncounted w) (calls : Nat) : s'.Newer w calls :=
      newer_of_uncounted (fun entry member => none entry (queue.subset member)) calls
    obtain ⟨window, near⟩ := permitted w rfl
    generalize here : s.pc w = pc at place before newer branch window near
    generalize there : s'.pc w = pc' at place
    cases place with
    | deactivate =>
        rcases window rfl with last | none
        · refine Or.inr ⟨?_, rfl⟩
          have others : ∀ u, u ≠ w → (s.pc u).active = (s'.pc u).active := by
            intro u other
            rcases (worked_of_work moved).pc u other with same | unparked
            · rw [same]
            · rw [unparked, unparked_active]
          exact lastActive_step consistent small taken last
            (activeWorkers_gain (by rw [there]; rfl) (by rw [here]; rfl) others)
        · exact Or.inl (unseen none _)
    | busy old some =>
        rcases before with older | ⟨none, _first⟩
        · exact newer rfl older
        · exact absurd none some
    | stolen | missed | stealing | late => exact newer rfl before
    | unchanged | refused => exact newer rfl branch.2
    | same old still =>
        refine Or.inl (unseen ?_ _)
        rcases near old rfl with near | none
        · have current := readAt_of_unchanged consistent small
            (held old (by rw [here]; rfl)) still near
          exact consistent.uncounted_of_newer (current ▸ before)
        · exact none
    | nothing new empty => exact Or.inl (unseen (uncounted_of_empty empty) _)
    | _ => trivial

theorem reachable_noticed (small : n < 512) (reached : (system n).Reachable attentive s) :
    ∀ w, Noticed s w (s.pc w) := by
  refine reached.invariant (fun s => ∀ w, Noticed s w (s.pc w)) ?_ ?_
  · intro start initial w
    rw [initial.pc]
    trivial
  · intro state next action earlier noticed permitted taken
    exact noticed_step (reachable_consistent earlier) small permitted noticed taken

/-- During one stay in the inner loop, a status of a later pass was read later. -/
def ReadSince (w : Fin n) (calls stay pass : Nat) (s : State n) : Prop :=
  calls ≤ s.calls ∧ stay ≤ s.stays w ∧
    (s.stays w = stay → ∀ old, (s.pc w).snapshot = some old →
      old.pass ≤ pass ∨ calls ≤ old.readAt)

private theorem readSince_step {calls stay pass : Nat} (since : ReadSince w calls stay pass s)
    (taken : step s action = some s') : ReadSince w calls stay pass s' := by
  obtain ⟨counted, stayed, since⟩ := since
  have later := Nat.le_trans counted (calls_mono taken)
  have stays := stays_mono taken w
  refine ⟨later, Nat.le_trans stayed stays, ?_⟩
  intro same new holds
  rcases snapshot_of_step taken holds with kept | ⟨_stays, rfl⟩ | ⟨old, _here, rfl⟩
  · exact since (by omega) new kept
  · exact Or.inr later
  · exact Or.inr later

/-- A task that has been announced when the worker begins a pass is no longer in its
queue when it has gone through the pass without leaving the loop. -/
theorem searching_worker_notices (small : n < 512)
    (reached : (system n).Reachable attentive s) {old new : Snapshot}
    (begins : s.pc w = .search old) {entry : Entry n} {epoch : Nat}
    (member : entry ∈ s.queue w) (announced : entry.stamp = .announced epoch)
    {actions : List (Action n)} {last : State n}
    (permitted : (system n).Permitted attentive s actions)
    (ran : (system n).exec s actions = some last) (stayed : last.stays w = s.stays w)
    (ends : last.pc w = .search new) (passed : old.pass < new.pass) :
    entry ∉ last.queue w := by
  intro sitting
  have start : ReadSince w s.calls (s.stays w) old.pass s := by
    refine ⟨Nat.le_refl _, Nat.le_refl _, ?_⟩
    intro _same snapshot holds
    rw [begins] at holds
    cases holds
    exact Or.inl (Nat.le_refl _)
  have since := System.exec_invariant (ReadSince w s.calls (s.stays w) old.pass)
    (fun _state _action _next since taken => readSince_step since taken) start ran
  have read : s.calls ≤ new.readAt := by
    rcases since.2.2 stayed new (by rw [ends]; rfl) with few | later
    · omega
    · exact later
  have noticed := reachable_noticed small (reached.exec permitted ran) w
  rw [ends] at noticed
  have counted : entry.stamp.counted = some epoch := by rw [announced]; rfl
  have bound := (reachable_consistent reached).counted_le member counted
  rcases noticed with newer | ⟨_none, first⟩
  · have fresh := newer entry sitting epoch counted
    omega
  · omega

def pair : State 2 :=
  { word := 2, queue := fun _ => [], seed := fun _ => 1, shutdown := fun _ => false
    pc := fun _ => .drain, call := fun _ => .none, calls := 0, stays := fun _ => 0
    stopped := false }

theorem pair_initial : Initial pair :=
  ⟨rfl, fun _ => rfl, fun _ => rfl, fun _ => rfl, fun _ => rfl, rfl, rfl⟩

abbrev first : Fin 2 := 0

abbrev second : Fin 2 := 1

def works (worker : Fin 2) (count : Nat) : List (Action 2) :=
  List.replicate count (.work worker false)

def wakeWhileSearching : List (Action 2) :=
  works first 3 ++ works second 2 ++ [.wake 0 second 7] ++ List.replicate 3 (.call (.external 0))

def stealAndPass : List (Action 2) := works first 2 ++ works second 5

private theorem wakeWhileSearching_runs :
    ((system 2).exec pair wakeWhileSearching).isSome = true := by
  decide

def wokenInLoop : State 2 := ((system 2).exec pair wakeWhileSearching).get wakeWhileSearching_runs

private theorem stealAndPass_runs : ((system 2).exec wokenInLoop stealAndPass).isSome = true := by
  decide

def passed : State 2 := ((system 2).exec wokenInLoop stealAndPass).get stealAndPass_runs

private theorem wokenInLoop_reached : (system 2).Reachable attentive wokenInLoop :=
  System.Reachable.replay (.initial pair pair_initial) (System.permitted_of_checks (by decide))
    wakeWhileSearching_runs

theorem stolen_while_searching :
    (⟨.task 7, .announced 1⟩ : Entry 2) ∈ wokenInLoop.queue 1 ∧
      (⟨.task 7, .announced 1⟩ : Entry 2) ∉ passed.queue 1 :=
  ⟨by decide, searching_worker_notices (by decide) wokenInLoop_reached rfl
    (show (⟨.task 7, .announced 1⟩ : Entry 2) ∈ wokenInLoop.queue 1 by decide) rfl
    (System.permitted_of_checks (by decide)) (Option.some_get stealAndPass_runs).symm rfl rfl
    (by decide)⟩

/-- The task is pushed and counted between the worker's last pop and its `set_inactive`. -/
def wakeInWindow : List (Action 2) :=
  works second 1 ++ [.wake 0 second 7] ++ List.replicate 2 (.call (.external 0)) ++ works second 1

private theorem wakeInWindow_runs : ((system 2).exec pair wakeInWindow).isSome = true := by
  decide

def wokenInWindow : State 2 := ((system 2).exec pair wakeInWindow).get wakeInWindow_runs

private theorem twoPasses_run :
    ((system 2).exec wokenInWindow (works second 22)).isSome = true := by
  decide

def passedTwice : State 2 := ((system 2).exec wokenInWindow (works second 22)).get twoPasses_run

/-- The worker goes through two passes of one stay with the task still in its queue. -/
theorem passes_over_counted_task :
    (system 2).Reachable anyAction wokenInWindow ∧
      wokenInWindow.pc 1 = .search ⟨513, 1, 0⟩ ∧
      (⟨.task 7, .announced 1⟩ : Entry 2) ∈ wokenInWindow.queue 1 ∧
      (system 2).exec wokenInWindow (works second 22) = some passedTwice ∧
      passedTwice.pc 1 = .search ⟨513, 1, 2⟩ ∧
      passedTwice.stays 1 = wokenInWindow.stays 1 ∧
      (⟨.task 7, .announced 1⟩ : Entry 2) ∈ passedTwice.queue 1 := by
  refine ⟨?_, rfl, by decide, (Option.some_get twoPasses_run).symm, rfl, rfl, by decide⟩
  exact System.Reachable.replay_any (.initial pair pair_initial) wakeInWindow_runs

end Yaay.Scheduler
