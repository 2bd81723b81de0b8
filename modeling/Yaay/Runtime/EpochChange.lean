import Yaay.Runtime.LocalQueue

set_option autoImplicit false

/-! How `main_loop` compares two statuses. The epochs are compared as numbers, so
a change is seen unless the counter wraps between the two reads. -/

namespace Yaay.Epoch

/-- Two epochs that are less than a whole turn apart: the later one is the greater
number unless the counter went through 0 in between. -/
theorem residue_lt_iff {old now : Nat} (later : old ≤ now) (few : now < old + epochs) :
    old % epochs < now % epochs ↔ old < now ∧ old % epochs + (now - old) < epochs := by
  simp only [epochs] at few ⊢
  omega

private theorem epoch_lt_iff {old now before after : Nat} (small : before < 512)
    (fits : after < 512) (later : old ≤ now) (few : now < old + epochs) :
    epoch (pack old before) < epoch (pack now after) ↔
      old < now ∧ old % epochs + (now - old) < epochs := by
  rw [BitVec.lt_def, epoch_pack small, epoch_pack fits]
  exact residue_lt_iff later few

end Yaay.Epoch

namespace Yaay.Scheduler

open Yaay.Transition

variable {n : Nat} {s s' : State n} {w : Fin n}

/-- The worker goes on to pop from its own queue if `next_epoch` was called since the
old status was read, and only then. -/
def SeesChange (s s' : State n) (w : Fin n) (old : Snapshot) : Prop :=
  s'.pc w = .popChanged (s.getStatus old) ↔ old.readAt < s.calls

/-- No call of `next_epoch` since the old status was read takes the counter to 0. -/
def NoWrap (s : State n) (old : Snapshot) : Prop :=
  s.calls = old.readAt ∨ old.readAt % Epoch.epochs + (s.calls - old.readAt) < Epoch.epochs

private theorem reread_pc {refuse : Bool} {old : Snapshot} (place : s.pc w = .reread old)
    (taken : step s (.work w refuse) = some s') :
    s'.pc w = .popChanged (s.getStatus old) ↔ Epoch.epoch old.status < Epoch.epoch s.word := by
  simp only [step, work, place] at taken
  cases taken
  rw [State.setPc_pc, Function.update_self]
  by_cases greater : Epoch.epoch old.status < Epoch.epoch s.word
  · rw [if_pos greater]
    exact iff_of_true rfl greater
  · rw [if_neg greater]
    constructor
    · intro other
      cases other
    · intro other
      exact absurd other greater

/-- In every run the test is right exactly where the counter does not wrap between
the two reads. -/
theorem epoch_change_seen_iff (small : n < 512) (reached : (system n).Reachable anyAction s)
    {refuse : Bool} {old : Snapshot} (place : s.pc w = .reread old)
    (taken : step s (.work w refuse) = some s')
    (few : s.calls - old.readAt < Epoch.epochs) :
    SeesChange s s' w old ↔ NoWrap s old := by
  have consistent := reachable_consistent reached
  obtain ⟨earlier, active, inactive, status⟩ := consistent.held w old (by rw [place]; rfl)
  have busy := Nat.lt_of_le_of_lt (activeWorkers_le s) small
  have window : s.calls < old.readAt + Epoch.epochs := by omega
  rw [SeesChange, reread_pc place taken, status, consistent.word,
    Epoch.epoch_lt_iff (Nat.lt_trans inactive small) busy earlier window, NoWrap]
  omega

def drained (calls : Nat) : State 2 :=
  { pair with word := Epoch.pack calls 2, calls := calls }

def wakeSecond : List (Action 2) :=
  [.wake 0 second 7] ++ List.replicate 2 (.call (.external 0))

def woken (calls : Nat) : State 2 :=
  { drained (calls + 1) with
    queue := Function.update (fun _ => []) second [⟨.task 7, .announced (calls + 1)⟩] }

private theorem map_alone (change : Entry n → Entry n) (w : Fin n) (entry : Entry n) :
    (fun v => (Function.update (fun _ => []) w [entry] v).map change) =
      Function.update (fun _ => []) w [change entry] := by
  funext v
  by_cases same : v = w
  · rw [same, Function.update_self, Function.update_self]
    rfl
  · rw [Function.update_of_ne same, Function.update_of_ne same]
    rfl

private theorem wakeSecond_runs (calls : Nat) :
    (system 2).exec (drained calls) wakeSecond = some (woken calls) := by
  have busy : ¬ Epoch.activeCount (Epoch.pack calls 2) = 0#32 := by
    have small : 2 < 512 := by decide
    exact fun none => absurd ((Epoch.activeCount_pack_eq_zero small).mp none) (by decide)
  have counted := map_alone (fun entry : Entry 2 => ({ entry with
    stamp := if entry.stamp = Stamp.pushed (Thread.external 0) then
      Stamp.announced (calls + 1) else entry.stamp } : Entry 2)) second
        ⟨.task 7, .pushed (.external 0)⟩
  simp [wakeSecond, System.exec, system, step, wake, enter, State.userCode, callStep,
    drained, woken, pair, Call.isNone, State.setCall, State.insert, State.setQueue, nextEpoch, busy,
    State.restamp, State.finish, Epoch.pack_nextEpoch, counted]

private theorem pollSecond_runs (calls : Nat) :
    (system 2).exec (woken calls) (works second 4) = some (drained (calls + 1)) := by
  simp [works, System.exec, system, step, work, State.popFront, woken, drained, pair,
    State.setPc, State.setQueue, pollTask, Call.isNone]

private theorem drained_reached (calls : Nat) : (system 2).Reachable anyAction (drained calls) := by
  induction calls with
  | zero => exact .initial (drained 0) ⟨rfl, fun _ => rfl, fun _ => rfl, fun _ => rfl,
      fun _ => rfl, rfl, rfl⟩
  | succ calls ih =>
      have after := ih.exec (System.permitted_of_all _ (fun _ _ _ => trivial) _)
        (wakeSecond_runs calls)
      exact after.exec (System.permitted_of_all _ (fun _ _ _ => trivial) _)
        (pollSecond_runs calls)

def wakeWhileLooking : List (Action 2) := works second 12 ++ wakeSecond

private theorem wakeAtStart_runs :
    ((system 2).exec (drained 0) wakeWhileLooking).isSome = true := by
  decide

def started : State 2 := ((system 2).exec (drained 0) wakeWhileLooking).get wakeAtStart_runs

private theorem started_reached : (system 2).Reachable anyAction started :=
  (drained_reached 0).replay_any wakeAtStart_runs

theorem first_change_seen :
    SeesChange started (started.setPc second (.popChanged ⟨513, 1, 1⟩)) second ⟨1, 0, 0⟩ := by
  have place : started.pc second = .reread ⟨1, 0, 0⟩ := by decide
  have taken : step started (.work second false) =
      some (started.setPc second (.popChanged ⟨513, 1, 1⟩)) := rfl
  have few : started.calls - 0 < Epoch.epochs := by decide
  apply (epoch_change_seen_iff (by decide) started_reached place taken few).mpr
  exact Or.inr (by decide)

private theorem wakeAtTurn_runs :
    ((system 2).exec (drained (2 ^ 23 - 1)) wakeWhileLooking).isSome = true := by
  decide +kernel

/-- The same with the status read at the last epoch, which the wake turns to 0. -/
def turned : State 2 :=
  ((system 2).exec (drained (2 ^ 23 - 1)) wakeWhileLooking).get wakeAtTurn_runs

private theorem turned_reached : (system 2).Reachable anyAction turned :=
  (drained_reached (2 ^ 23 - 1)).replay_any wakeAtTurn_runs

/-- One call of `next_epoch` after its status read the worker does not see a change,
and goes on with the counted task in its queue. -/
theorem turn_missed :
    (system 2).Reachable anyAction turned ∧
      turned.pc second = .reread ⟨4294966785, 8388607, 0⟩ ∧ turned.calls = 8388608 ∧
      turned.queue second = [⟨.task 7, .announced 8388608⟩] ∧
      step turned (.work second false) = some (turned.setPc second (.search ⟨1, 8388608, 1⟩)) ∧
      ¬ SeesChange turned (turned.setPc second (.search ⟨1, 8388608, 1⟩)) second
        ⟨4294966785, 8388607, 0⟩ := by
  have place : turned.pc second = .reread ⟨4294966785, 8388607, 0⟩ := by decide +kernel
  have word : turned.word = 1 := by decide +kernel
  have calls : turned.calls = 8388608 := by decide +kernel
  have taken : step turned (.work second false) =
      some (turned.setPc second (.search ⟨1, 8388608, 1⟩)) := by
    simp only [step, work, place, word, State.getStatus, calls]
    rfl
  refine ⟨turned_reached, place, calls, by decide +kernel, taken, ?_⟩
  intro seen
  have change := seen.mpr (by rw [calls]; decide)
  rw [State.setPc_pc, Function.update_self] at change
  cases change

end Yaay.Scheduler
