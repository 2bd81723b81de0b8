import Mathlib.Algebra.Order.BigOperators.Group.Finset
import Mathlib.Data.Fintype.Option
import Mathlib.Data.Prod.Lex
import Yaay.Runtime.StartupBarrier

set_option autoImplicit false

/-! The start-up ends: no thread goes back to an earlier stage, and within a stage it goes
through the loop of a wait once before and once after what it waits for has come. -/

namespace Yaay.Startup

open Yaay.Transition

variable {n : Nat} {s s' : State n} {id : Fin n} {thread : Thread n} {pc pc' : Pc}

instance : Fintype (Thread n) :=
  Fintype.ofEquiv (Option (Fin n))
    { toFun := fun id => id.elim .main .builder
      invFun := fun thread => match thread with
        | .builder id => some id
        | .main => none
      left_inv := fun id => by cases id <;> rfl
      right_inv := fun thread => by cases thread <;> rfl }

/-- How many steps a thread can take in its stage, when all pointers are stored or not, and when
all workers are counted or not. -/
def Pc.rounds (stored built : Bool) : Pc → Nat
  | .alloc | .store | .write _ | .count | .returned | .panicked => 0
  | .lockStore | .lockCount | .collect => 1
  | .lockCollect => 2
  | .unlockPtrs => 3
  | .notifyPtrs | .setGlobal _ => 4
  | .unlockStored true | .read => 5
  | .lockRead => 6
  | .unlockBuilt => 7
  | .notifyBuilt => 8
  | .unlockCounted true => 9
  | .testStored | .testCounted => 9
  | .unlockStored false | .unlockCounted false => 8
  | .lockPtrs => if stored then 5 else 7
  | .testPtrs => if stored then 4 else 6
  | .parkPtrs => if stored then 7 else 5
  | .parkedPtrs => if stored then 6 else 4
  | .lockBuilt => if built then 5 else 7
  | .testBuilt => if built then 4 else 6
  | .parkBuilt => if built then 7 else 5
  | .parkedBuilt => if built then 6 else 4

def State.stages (s : State n) : Nat := ∑ thread, (7 - (s.pc thread).stage)

def State.rounds (s : State n) : Nat :=
  ∑ thread, (s.pc thread).rounds s.allStored s.allBuilt

def State.togo (s : State n) : ℕ ×ₗ ℕ := toLex (s.stages, s.rounds)

private theorem stage_le (pc : Pc) : pc.stage ≤ 7 := by
  cases pc with
  | unlockStored flag | unlockCounted flag => cases flag <;> decide
  | write others => exact (by decide : 4 ≤ 7)
  | setGlobal ptrs => exact Nat.le_refl 7
  | _ => decide

def Goes (s s' : State n) (pc pc' : Pc) : Prop :=
  pc.stage < pc'.stage ∨
    (pc'.stage = pc.stage ∧ s'.workerPtrs = s.workerPtrs ∧ s'.nBuilt = s.nBuilt ∧
      pc'.rounds s.allStored s.allBuilt < pc.rounds s.allStored s.allBuilt)

private theorem allStored_congr (ptrs : s'.workerPtrs = s.workerPtrs) :
    s'.allStored = s.allStored := by
  rw [State.allStored, State.allStored, ptrs]

private theorem allBuilt_congr (built : s'.nBuilt = s.nBuilt) : s'.allBuilt = s.allBuilt := by
  rw [State.allBuilt, State.allBuilt, built]

private theorem togo_of_update (pcs : s'.pc = Function.update s.pc thread pc')
    (goes : Goes s s' (s.pc thread) pc') : s'.togo < s.togo := by
  have own : s'.pc thread = pc' := by rw [pcs, Function.update_self]
  have rest (other : Thread n) (different : other ≠ thread) : s'.pc other = s.pc other := by
    rw [pcs, Function.update_of_ne different]
  rw [State.togo, State.togo, Prod.Lex.toLex_lt_toLex]
  rcases goes with up | ⟨same, ptrs, built, less⟩
  · refine Or.inl ?_
    change ∑ other, (7 - (s'.pc other).stage) < ∑ other, (7 - (s.pc other).stage)
    refine Finset.sum_lt_sum ?_ ⟨thread, Finset.mem_univ thread, ?_⟩
    · intro other _member
      by_cases mine : other = thread
      · rw [mine, own]
        omega
      · rw [rest other mine]
    · have bound := stage_le pc'
      rw [own]
      omega
  · have stages : s'.stages = s.stages := by
      refine Finset.sum_congr rfl ?_
      intro other _member
      by_cases mine : other = thread
      · rw [mine, own, same]
      · rw [rest other mine]
    refine Or.inr ⟨stages, ?_⟩
    change s'.rounds < s.rounds
    rw [State.rounds, State.rounds, allStored_congr ptrs, allBuilt_congr built]
    refine Finset.sum_lt_sum ?_ ⟨thread, Finset.mem_univ thread, ?_⟩
    · intro other _member
      by_cases mine : other = thread
      · rw [mine, own]
        exact Nat.le_of_lt less
      · rw [rest other mine]
    · rw [own]
      exact less

/-- A notification brings those who wait for it further. -/
theorem togo_notify (ptrs : s'.workerPtrs = s.workerPtrs) (built : s'.nBuilt = s.nBuilt)
    (woken : ∀ other, (s'.pc other).stage = (s.pc other).stage ∧
      (s'.pc other).rounds s.allStored s.allBuilt ≤
        (s.pc other).rounds s.allStored s.allBuilt) : s'.togo ≤ s.togo := by
  have stages : s'.stages = s.stages := by
    refine Finset.sum_congr rfl ?_
    intro other _member
    rw [(woken other).1]
  rw [State.togo, State.togo, Prod.Lex.toLex_le_toLex]
  refine Or.inr ⟨stages, ?_⟩
  change s'.rounds ≤ s.rounds
  rw [State.rounds, State.rounds, allStored_congr ptrs, allBuilt_congr built]
  exact Finset.sum_le_sum (fun other _member => (woken other).2)

private theorem wokenPtrs_rounds (built : Bool) (pc : Pc) :
    pc.wokenPtrs.rounds true built ≤ pc.rounds true built := by
  cases pc with
  | parkedPtrs => exact (by decide : 5 ≤ 6)
  | _ => exact Nat.le_refl _

private theorem wokenBuilt_rounds (stored : Bool) (pc : Pc) :
    pc.wokenBuilt.rounds stored true ≤ pc.rounds stored true := by
  cases pc with
  | parkedBuilt => exact (by decide : 5 ≤ 6)
  | _ => exact Nat.le_refl _

private theorem togo_of_build (inv : Inv s) (taken : build s id = some s') : s'.togo < s.togo := by
  unfold build at taken
  cases here : s.pc (.builder id) with
  | store =>
      simp only [here] at taken
      cases taken
      exact togo_of_update rfl (Or.inl (by rw [here]; exact Nat.lt_succ_self 1))
  | collect =>
      have knows : BuilderKnows s id (s.pc (.builder id)) := inv.knows (.builder id)
      rw [here] at knows
      obtain ⟨_ptrs, some⟩ := inv.ptrs_of_stored (knows.stored (Nat.le_refl 3))
      simp only [here, collectOthers_eq some] at taken
      cases taken
      exact togo_of_update rfl (Or.inl (by rw [here]; exact Nat.lt_succ_self 3))
  | write others =>
      simp only [here] at taken
      cases taken
      exact togo_of_update rfl (Or.inl (by rw [here]; exact Nat.lt_succ_self 4))
  | _ => simp [here] at taken

private theorem togo_of_wait (inv : Inv s) (taken : wait s = some s') : s'.togo < s.togo := by
  unfold wait at taken
  cases here : s.pc .main with
  | lockRead =>
      simp only [here] at taken
      obtain ⟨_free, rfl⟩ := lockPtrs_eq taken
      refine togo_of_update rfl (Or.inr ⟨?_, rfl, rfl, ?_⟩)
      · rw [here]
        rfl
      · rw [here]
        exact Nat.lt_succ_self 5
  | read =>
      have knows : MainKnows s (s.pc .main) := inv.knows .main
      rw [here] at knows
      have all (other : Fin n) : 2 ≤ s.stage other :=
        Nat.le_trans (by decide) (knows.built (Nat.le_refl 7) other)
      obtain ⟨_ptrs, some⟩ := inv.ptrs_of_stored all
      simp only [here, mapM_nonNull some] at taken
      cases taken
      refine togo_of_update rfl (Or.inr ⟨?_, rfl, rfl, ?_⟩)
      · rw [here]
        rfl
      · rw [here]
        exact Nat.lt_succ_self 4
  | setGlobal ptrs =>
      simp only [here] at taken
      cases taken
      refine togo_of_update rfl (Or.inr ⟨?_, rfl, rfl, ?_⟩)
      · rw [here]
        rfl
      · rw [here]
        exact (by decide : 0 < 4)
  | _ => simp [here] at taken

theorem Goes.within (here : s.pc thread = pc) (same : pc'.stage = pc.stage)
    (less : ∀ stored built, pc'.rounds stored built < pc.rounds stored built)
    (ptrs : s'.workerPtrs = s.workerPtrs) (built : s'.nBuilt = s.nBuilt) :
    Goes s s' (s.pc thread) pc' := by
  rw [here]
  exact Or.inr ⟨same, ptrs, built, less _ _⟩

theorem Goes.up (here : s.pc thread = pc) (further : pc.stage < pc'.stage) :
    Goes s s' (s.pc thread) pc' := by
  rw [here]
  exact Or.inl further

/-- Who is to notify has seen all pointers stored. -/
theorem stored_of_notify (inv : Inv s) (here : s.pc thread = .notifyPtrs) :
    s.allStored = true := by
  have knows := inv.knows thread
  rw [here] at knows
  cases thread with
  | builder id =>
      have knows : BuilderKnows s id .notifyPtrs := knows
      exact inv.allStored_iff.mpr (knows.stored (Nat.le_refl 3))
  | main =>
      have knows : MainKnows s .notifyPtrs := knows
      cases knows.place

private theorem built_of_notify (inv : Inv s) (here : s.pc thread = .notifyBuilt) :
    s.allBuilt = true := by
  have knows := inv.knows thread
  rw [here] at knows
  cases thread with
  | builder id =>
      have knows : BuilderKnows s id .notifyBuilt := knows
      exact inv.allBuilt_iff.mpr (knows.built (Nat.le_refl 7))
  | main =>
      have knows : MainKnows s .notifyBuilt := knows
      cases knows.place

private theorem togo_of_notifyPtrs (inv : Inv s) (here : s.pc thread = .notifyPtrs) :
    (s.notifyPtrs.setPc thread .lockCollect).togo < s.togo := by
  have stored := stored_of_notify inv here
  have woken : s.notifyPtrs.togo ≤ s.togo := by
    refine togo_notify rfl rfl (fun other => ⟨wokenPtrs_stage (s.pc other), ?_⟩)
    rw [stored]
    exact wokenPtrs_rounds s.allBuilt (s.pc other)
  have stays : s.notifyPtrs.pc thread = .notifyPtrs := congrArg Pc.wokenPtrs here
  have goes : (s.notifyPtrs.setPc thread .lockCollect).togo < s.notifyPtrs.togo :=
    togo_of_update rfl (.within stays (by decide) (by decide) rfl rfl)
  exact lt_of_lt_of_le goes woken

private theorem togo_of_notifyBuilt (inv : Inv s) (here : s.pc thread = .notifyBuilt) :
    (s.notifyBuilt.setPc thread .returned).togo < s.togo := by
  have built := built_of_notify inv here
  have woken : s.notifyBuilt.togo ≤ s.togo := by
    refine togo_notify rfl rfl (fun other => ⟨wokenBuilt_stage (s.pc other), ?_⟩)
    rw [built]
    exact wokenBuilt_rounds s.allStored (s.pc other)
  have stays : s.notifyBuilt.pc thread = .notifyBuilt := congrArg Pc.wokenBuilt here
  have goes : (s.notifyBuilt.setPc thread .returned).togo < s.notifyBuilt.togo :=
    togo_of_update rfl (.within stays (by decide) (by decide) rfl rfl)
  exact lt_of_lt_of_le goes woken

private theorem togo_of_run (inv : Inv s) (taken : run s thread = some s') : s'.togo < s.togo := by
  unfold run at taken
  cases here : s.pc thread with
  | lockStore | lockPtrs | lockCollect =>
      simp only [here] at taken
      obtain ⟨_free, rfl⟩ := lockPtrs_eq taken
      exact togo_of_update rfl (.within here (by decide) (by decide) rfl rfl)
  | lockCount | lockBuilt =>
      simp only [here] at taken
      obtain ⟨_free, rfl⟩ := lockBuilt_eq taken
      exact togo_of_update rfl (.within here (by decide) (by decide) rfl rfl)
  | parkPtrs | unlockPtrs | parkBuilt =>
      simp only [here] at taken
      cases taken
      exact togo_of_update rfl (.within here (by decide) (by decide) rfl rfl)
  | unlockStored flag | unlockCounted flag =>
      simp only [here] at taken
      cases taken
      cases flag with
      | true => exact togo_of_update rfl (.within here (by decide) (by decide) rfl rfl)
      | false => exact togo_of_update rfl (.within here (by decide) (by decide) rfl rfl)
  | testStored =>
      simp only [here] at taken
      cases taken
      cases s.allStored with
      | true => exact togo_of_update rfl (.up here (by decide))
      | false => exact togo_of_update rfl (.within here (by decide) (by decide) rfl rfl)
  | testCounted =>
      simp only [here] at taken
      cases taken
      cases s.allBuilt with
      | true => exact togo_of_update rfl (.up here (by decide))
      | false => exact togo_of_update rfl (.within here (by decide) (by decide) rfl rfl)
  | testPtrs =>
      simp only [here] at taken
      cases taken
      refine togo_of_update rfl ?_
      cases stored : s.allStored with
      | true => exact .up here (by decide)
      | false =>
          -- the thread parks only as long as what it waits for is missing
          rw [here]
          refine Or.inr ⟨rfl, rfl, rfl, ?_⟩
          rw [stored]
          exact Nat.lt_succ_self 5
  | testBuilt =>
      simp only [here] at taken
      cases taken
      refine togo_of_update rfl ?_
      cases built : s.allBuilt with
      | true => exact .up here (by decide)
      | false =>
          rw [here]
          refine Or.inr ⟨rfl, rfl, rfl, ?_⟩
          rw [built]
          exact Nat.lt_succ_self 5
  | notifyPtrs =>
      simp only [here] at taken
      cases taken
      exact togo_of_notifyPtrs inv here
  | notifyBuilt =>
      simp only [here] at taken
      cases taken
      exact togo_of_notifyBuilt inv here
  | unlockBuilt =>
      simp only [here] at taken
      cases taken
      cases thread with
      | builder id =>
          have less : ∀ stored built, Pc.rounds stored built .returned <
              Pc.rounds stored built .unlockBuilt := by decide
          exact togo_of_update rfl (.within here rfl less rfl rfl)
      | main =>
          have less : ∀ stored built, Pc.rounds stored built .lockRead <
              Pc.rounds stored built .unlockBuilt := by decide
          exact togo_of_update rfl (.within here rfl less rfl rfl)
  | count =>
      simp only [here] at taken
      cases taken
      exact togo_of_update rfl (.up here (by decide))
  | store | collect | write others | lockRead | read | setGlobal ptrs =>
      simp only [here] at taken
      cases thread with
      | builder id => exact togo_of_build inv taken
      | main => exact togo_of_wait inv taken
  | alloc | parkedPtrs | parkedBuilt | returned | panicked => simp [here] at taken

def Action.proper : Action n → Prop
  | .wake _ => False
  | _ => True

private theorem togo_of_step {action : Action n} (inv : Inv s) (proper : action.proper)
    (taken : step s action = some s') : s'.togo < s.togo := by
  cases action with
  | alloc id address =>
      simp only [step, alloc] at taken
      split at taken
      · next allowed =>
          cases taken
          exact togo_of_update rfl (.up allowed.1 (by decide))
      · cases taken
  | run thread => exact togo_of_run inv taken
  | wake thread => exact absurd proper id

def Proceeds (s s' : State n) : Prop :=
  ∃ action : Action n, action.proper ∧ step s action = some s'

/-- The start-up is over: everyone has returned, behind every pointer is its worker with the
pointers to the others, and the runtime shares the pointers to all. -/
structure Started (s : State n) : Prop where
  returned : ∀ thread, s.pc thread = .returned
  written : ∀ id, s.memory (s.slot id) = some (s.worker id)
  shared : s.global = some ⟨s.epoch, List.ofFn s.slot⟩

private theorem started_of_returned (inv : Inv s) (returned : ∀ thread, s.pc thread = .returned) :
    Started s where
  returned := returned
  written := written_of_returned inv (returned .main)
  shared := by
    have knows : MainKnows s (s.pc .main) := inv.knows .main
    exact knows.shared (returned .main)

private theorem proceeds_of_unfinished (inv : Inv s) (latched : Latched s) (open_ : ¬ Started s) :
    ∃ after, Proceeds s after := by
  have unfinished : ∃ thread, s.pc thread ≠ .returned := by
    by_contra none
    apply open_
    apply started_of_returned inv
    intro thread
    by_contra here
    exact none ⟨thread, here⟩
  obtain ⟨thread, here⟩ := unfinished
  rcases startup_goes_on inv latched here with ⟨id, address, possible⟩ | ⟨other, possible⟩
  · obtain ⟨after, taken⟩ := Option.isSome_iff_exists.mp possible
    exact ⟨after, .alloc id address, trivial, taken⟩
  · obtain ⟨after, taken⟩ := Option.isSome_iff_exists.mp possible
    exact ⟨after, .run other, trivial, taken⟩

/-- The start-up is over some time, whatever it went through before and however the threads
take turns from here on. -/
theorem startup_ends (small : n < 2 ^ 32) (reached : (system n).Reachable anyAction s) :
    Inevitable Proceeds Started s := by
  apply Inevitable.of_rank (wellFounded_lt (α := ℕ ×ₗ ℕ)) State.togo ?_ ?_ reached
  · intro state earlier open_
    exact proceeds_of_unfinished (reachable_inv small earlier)
      (reachable_latched small earlier) open_
  · rintro state after earlier _open ⟨action, proper, taken⟩
    constructor
    · exact .step _ _ _ earlier trivial taken
    · exact togo_of_step (reachable_inv small earlier) proper taken

theorem startup_of_two_ends : Inevitable Proceeds Started fresh ∧ ¬ Started fresh := by
  constructor
  · exact startup_ends (by decide) (.initial fresh fresh_initial)
  · intro started
    have early := started.returned .main
    cases early

end Yaay.Startup
