import Mathlib.Data.Finset.Lattice.Fold
import Yaay.Runtime.Scheduler
import Yaay.Runtime.StartupInvariant

set_option autoImplicit false

/-! The two barriers of the start-up are latches, so that nobody is left waiting,
and what `build` and `wait` return with. -/

namespace Yaay.Startup

open Yaay.Transition

variable {n : Nat} {s s' : State n} {id : Fin n} {thread : Thread n} {pc pc' : Pc}
  {action : Action n}

def Pc.ptrsPhase : Pc → Latch.Phase
  | .store | .testPtrs | .unlockPtrs | .collect | .read => .inside
  | .testStored => .changed
  | .unlockStored flag => .judged flag
  | .notifyPtrs => .signalling
  | .parkPtrs => .sleeping
  | .parkedPtrs => .parked
  | _ => .outside

def Pc.builtPhase : Pc → Latch.Phase
  | .count | .testBuilt | .unlockBuilt => .inside
  | .testCounted => .changed
  | .unlockCounted flag => .judged flag
  | .notifyBuilt => .signalling
  | .parkBuilt => .sleeping
  | .parkedBuilt => .parked
  | _ => .outside

def State.ptrsLatch (s : State n) : Latch.State (Thread n) (List Ptr) :=
  ⟨s.workerPtrs, s.ptrsOwner, fun thread => (s.pc thread).ptrsPhase⟩

def State.builtLatch (s : State n) : Latch.State (Thread n) Nat :=
  ⟨s.nBuilt, s.builtOwner, fun thread => (s.pc thread).builtPhase⟩

def Stored (ptrs : List Ptr) : Prop := ptrs.all (fun ptr => ptr != 0) = true

def Built (n nBuilt : Nat) : Prop := (nBuilt == n) = true

private theorem phase_update (phase : Pc → Latch.Phase) (s : State n) (thread : Thread n)
    (pc : Pc) :
    (fun other => phase (Function.update s.pc thread pc other)) =
      Function.update (fun other => phase (s.pc other)) thread (phase pc) := by
  funext other
  by_cases same : other = thread
  · rw [same, Function.update_self, Function.update_self]
  · rw [Function.update_of_ne same, Function.update_of_ne same]

private theorem ptrsLatch_of_update (pcs : s'.pc = Function.update s.pc thread pc) :
    s'.ptrsLatch = { s.ptrsLatch.enter thread pc.ptrsPhase with
      data := s'.workerPtrs, owner := s'.ptrsOwner } := by
  simp only [State.ptrsLatch, Latch.State.enter, pcs, phase_update Pc.ptrsPhase s thread pc]

private theorem builtLatch_of_update (pcs : s'.pc = Function.update s.pc thread pc) :
    s'.builtLatch = { s.builtLatch.enter thread pc.builtPhase with
      data := s'.nBuilt, owner := s'.builtOwner } := by
  simp only [State.builtLatch, Latch.State.enter, pcs, phase_update Pc.builtPhase s thread pc]

private theorem setPc_ptrsLatch (s : State n) (thread : Thread n) (pc : Pc) :
    (s.setPc thread pc).ptrsLatch = s.ptrsLatch.enter thread pc.ptrsPhase :=
  ptrsLatch_of_update rfl

private theorem setPc_builtLatch (s : State n) (thread : Thread n) (pc : Pc) :
    (s.setPc thread pc).builtLatch = s.builtLatch.enter thread pc.builtPhase :=
  builtLatch_of_update rfl

/-- The latch around `worker_ptrs` takes a step or stays as it is. -/
def PtrsStep (s s' : State n) : Prop :=
  s'.ptrsLatch = s.ptrsLatch ∨ Latch.Step Stored s.ptrsLatch s'.ptrsLatch

def BuiltStep (s s' : State n) : Prop :=
  s'.builtLatch = s.builtLatch ∨ Latch.Step (Built n) s.builtLatch s'.builtLatch

private theorem ptrsPhase_of (here : s.pc thread = pc) : s.ptrsLatch.phase thread = pc.ptrsPhase :=
  congrArg Pc.ptrsPhase here

private theorem builtPhase_of (here : s.pc thread = pc) :
    s.builtLatch.phase thread = pc.builtPhase :=
  congrArg Pc.builtPhase here

theorem PtrsStep.seen (pcs : s'.pc = Function.update s.pc thread pc)
    (taken : Latch.Step Stored s.ptrsLatch { s.ptrsLatch.enter thread pc.ptrsPhase with
      data := s'.workerPtrs, owner := s'.ptrsOwner }) : PtrsStep s s' := by
  right
  rw [ptrsLatch_of_update pcs]
  exact taken

theorem PtrsStep.unseen (pcs : s'.pc = Function.update s.pc thread pc)
    (here : s.pc thread = pc') (same : pc'.ptrsPhase = pc.ptrsPhase)
    (ptrs : s'.workerPtrs = s.workerPtrs) (owner : s'.ptrsOwner = s.ptrsOwner) :
    PtrsStep s s' := by
  left
  have stays : (fun other => (s.pc other).ptrsPhase) thread = pc.ptrsPhase := by
    rw [← same, ← here]
  rw [ptrsLatch_of_update pcs, ptrs, owner, ← stays]
  simp only [State.ptrsLatch, Latch.State.enter, Function.update_eq_self]

theorem BuiltStep.seen (pcs : s'.pc = Function.update s.pc thread pc)
    (taken : Latch.Step (Built n) s.builtLatch { s.builtLatch.enter thread pc.builtPhase with
      data := s'.nBuilt, owner := s'.builtOwner }) : BuiltStep s s' := by
  right
  rw [builtLatch_of_update pcs]
  exact taken

theorem BuiltStep.unseen (pcs : s'.pc = Function.update s.pc thread pc)
    (here : s.pc thread = pc') (same : pc'.builtPhase = pc.builtPhase)
    (built : s'.nBuilt = s.nBuilt) (owner : s'.builtOwner = s.builtOwner) :
    BuiltStep s s' := by
  left
  have stays : (fun other => (s.pc other).builtPhase) thread = pc.builtPhase := by
    rw [← same, ← here]
  rw [builtLatch_of_update pcs, built, owner, ← stays]
  simp only [State.builtLatch, Latch.State.enter, Function.update_eq_self]

private theorem wokenPtrs_ptrsPhase (pc : Pc) : pc.wokenPtrs.ptrsPhase = pc.ptrsPhase.notified := by
  cases pc <;> rfl

private theorem wokenPtrs_builtPhase (pc : Pc) : pc.wokenPtrs.builtPhase = pc.builtPhase := by
  cases pc <;> rfl

private theorem notifyPtrs_ptrsLatch (s : State n) :
    s.notifyPtrs.ptrsLatch = s.ptrsLatch.notifyAll := by
  simp only [State.ptrsLatch, State.notifyPtrs, Latch.State.notifyAll, wokenPtrs_ptrsPhase]

private theorem notifyPtrs_builtLatch (s : State n) : s.notifyPtrs.builtLatch = s.builtLatch := by
  simp only [State.builtLatch, State.notifyPtrs, wokenPtrs_builtPhase]

private theorem wokenBuilt_builtPhase (pc : Pc) :
    pc.wokenBuilt.builtPhase = pc.builtPhase.notified := by
  cases pc <;> rfl

private theorem wokenBuilt_ptrsPhase (pc : Pc) : pc.wokenBuilt.ptrsPhase = pc.ptrsPhase := by
  cases pc <;> rfl

private theorem notifyBuilt_builtLatch (s : State n) :
    s.notifyBuilt.builtLatch = s.builtLatch.notifyAll := by
  simp only [State.builtLatch, State.notifyBuilt, Latch.State.notifyAll, wokenBuilt_builtPhase]

private theorem notifyBuilt_ptrsLatch (s : State n) : s.notifyBuilt.ptrsLatch = s.ptrsLatch := by
  simp only [State.ptrsLatch, State.notifyBuilt, wokenBuilt_ptrsPhase]

private theorem ptrsStep_of_build (inv : Inv s) (taken : build s id = some s') : PtrsStep s s' := by
  unfold build at taken
  cases here : s.pc (.builder id) with
  | store =>
      simp only [here] at taken
      cases taken
      apply PtrsStep.seen rfl
      apply Latch.Step.change
      · exact ptrsPhase_of here
      · -- the builder's own pointer is still missing
        intro all
        have stage := inv.allStored_iff.mp all id
        rw [State.stage, here] at stage
        exact absurd stage (by decide)
  | collect =>
      simp only [here] at taken
      cases taken
      apply PtrsStep.seen rfl
      cases collectOthers s.workerPtrs id with
      | none => exact .release _ (Or.inl (ptrsPhase_of here))
      | some otherWorkers => exact .release _ (Or.inl (ptrsPhase_of here))
  | write otherWorkers =>
      simp only [here] at taken
      cases taken
      exact .unseen rfl here rfl rfl rfl
  | _ => simp [here] at taken

private theorem ptrsStep_of_wait (taken : wait s = some s') : PtrsStep s s' := by
  unfold wait at taken
  cases here : s.pc .main with
  | lockRead =>
      simp only [here] at taken
      obtain ⟨free, rfl⟩ := lockPtrs_eq taken
      apply PtrsStep.seen rfl
      exact .acquire _ (ptrsPhase_of here) free
  | read =>
      simp only [here] at taken
      cases taken
      apply PtrsStep.seen rfl
      cases s.workerPtrs.mapM NonNull.new with
      | none => exact .release _ (Or.inl (ptrsPhase_of here))
      | some workerPtrs => exact .release _ (Or.inl (ptrsPhase_of here))
  | setGlobal workerPtrs =>
      simp only [here] at taken
      cases taken
      exact .unseen rfl here rfl rfl rfl
  | _ => simp [here] at taken

private theorem ptrsStep_of_run (inv : Inv s) (taken : run s thread = some s') : PtrsStep s s' := by
  unfold run at taken
  cases here : s.pc thread with
  | lockStore | lockPtrs | lockCollect =>
      simp only [here] at taken
      obtain ⟨free, rfl⟩ := lockPtrs_eq taken
      apply PtrsStep.seen rfl
      exact .acquire _ (ptrsPhase_of here) free
  | testStored =>
      simp only [here] at taken
      cases taken
      apply PtrsStep.seen rfl
      exact .judge _ _ (ptrsPhase_of here) Iff.rfl
  | unlockStored flag =>
      simp only [here] at taken
      cases taken
      apply PtrsStep.seen rfl
      cases flag with
      | true => exact .promise _ (ptrsPhase_of here)
      | false => exact .release _ (Or.inr (ptrsPhase_of here))
  | notifyPtrs =>
      simp only [here] at taken
      cases taken
      right
      rw [setPc_ptrsLatch, notifyPtrs_ptrsLatch]
      exact .notify _ (ptrsPhase_of here)
  | testPtrs =>
      simp only [here] at taken
      cases taken
      cases stored : s.allStored with
      | true => exact .unseen rfl here rfl rfl rfl
      | false =>
          apply PtrsStep.seen rfl
          exact .refuse _ (ptrsPhase_of here) (by
            intro all
            exact absurd (stored.symm.trans all) (by decide))
  | parkPtrs =>
      simp only [here] at taken
      cases taken
      apply PtrsStep.seen rfl
      exact .park _ (ptrsPhase_of here)
  | unlockPtrs =>
      simp only [here] at taken
      cases taken
      apply PtrsStep.seen rfl
      exact .release _ (Or.inl (ptrsPhase_of here))
  | lockCount | lockBuilt =>
      simp only [here] at taken
      obtain ⟨_free, rfl⟩ := lockBuilt_eq taken
      exact .unseen rfl here rfl rfl rfl
  | count | testCounted | parkBuilt =>
      simp only [here] at taken
      cases taken
      exact .unseen rfl here rfl rfl rfl
  | unlockCounted flag =>
      simp only [here] at taken
      cases taken
      cases flag <;> exact .unseen rfl here rfl rfl rfl
  | testBuilt =>
      simp only [here] at taken
      cases taken
      cases s.allBuilt <;> exact .unseen rfl here rfl rfl rfl
  | unlockBuilt =>
      simp only [here] at taken
      cases taken
      cases thread <;> exact .unseen rfl here rfl rfl rfl
  | notifyBuilt =>
      simp only [here] at taken
      cases taken
      have woken : s.notifyBuilt.pc thread = .notifyBuilt := congrArg Pc.wokenBuilt here
      have unseen : PtrsStep s.notifyBuilt (s.notifyBuilt.setPc thread .returned) :=
        .unseen rfl woken rfl rfl rfl
      rw [PtrsStep, notifyBuilt_ptrsLatch] at unseen
      exact unseen
  | store | collect | write otherWorkers | lockRead | read | setGlobal workerPtrs =>
      simp only [here] at taken
      cases thread with
      | builder id => exact ptrsStep_of_build inv taken
      | main => exact ptrsStep_of_wait taken
  | alloc | parkedPtrs | parkedBuilt | returned | panicked => simp [here] at taken

private theorem ptrsStep (inv : Inv s) (taken : step s action = some s') : PtrsStep s s' := by
  cases action with
  | alloc id address =>
      simp only [step, alloc] at taken
      split at taken
      · next allowed =>
          cases taken
          exact .unseen rfl allowed.1 rfl rfl rfl
      · cases taken
  | run thread => exact ptrsStep_of_run inv taken
  | wake thread =>
      simp only [step, wake] at taken
      cases here : s.pc thread with
      | parkedPtrs =>
          simp only [here] at taken
          cases taken
          exact .seen rfl (.wake _ (ptrsPhase_of here))
      | parkedBuilt =>
          simp only [here] at taken
          cases taken
          exact .unseen rfl here rfl rfl rfl
      | _ => simp [here] at taken

private theorem builtStep_of_build (taken : build s id = some s') : BuiltStep s s' := by
  unfold build at taken
  cases here : s.pc (.builder id) with
  | store | write otherWorkers =>
      simp only [here] at taken
      cases taken
      exact .unseen rfl here rfl rfl rfl
  | collect =>
      simp only [here] at taken
      cases taken
      cases collectOthers s.workerPtrs id with
      | none => exact .unseen rfl here rfl rfl rfl
      | some otherWorkers => exact .unseen rfl here rfl rfl rfl
  | _ => simp [here] at taken

private theorem builtStep_of_wait (taken : wait s = some s') : BuiltStep s s' := by
  unfold wait at taken
  cases here : s.pc .main with
  | lockRead =>
      simp only [here] at taken
      obtain ⟨_free, rfl⟩ := lockPtrs_eq taken
      exact .unseen rfl here rfl rfl rfl
  | read =>
      simp only [here] at taken
      cases taken
      cases s.workerPtrs.mapM NonNull.new with
      | none => exact .unseen rfl here rfl rfl rfl
      | some workerPtrs => exact .unseen rfl here rfl rfl rfl
  | setGlobal workerPtrs =>
      simp only [here] at taken
      cases taken
      exact .unseen rfl here rfl rfl rfl
  | _ => simp [here] at taken

private theorem builtStep_of_run (inv : Inv s) (taken : run s thread = some s') :
    BuiltStep s s' := by
  unfold run at taken
  cases here : s.pc thread with
  | lockStore | lockPtrs | lockCollect =>
      simp only [here] at taken
      obtain ⟨_free, rfl⟩ := lockPtrs_eq taken
      exact .unseen rfl here rfl rfl rfl
  | testStored | parkPtrs | unlockPtrs =>
      simp only [here] at taken
      cases taken
      exact .unseen rfl here rfl rfl rfl
  | unlockStored flag =>
      simp only [here] at taken
      cases taken
      cases flag <;> exact .unseen rfl here rfl rfl rfl
  | testPtrs =>
      simp only [here] at taken
      cases taken
      cases s.allStored <;> exact .unseen rfl here rfl rfl rfl
  | notifyPtrs =>
      simp only [here] at taken
      cases taken
      have woken : s.notifyPtrs.pc thread = .notifyPtrs := congrArg Pc.wokenPtrs here
      have unseen : BuiltStep s.notifyPtrs (s.notifyPtrs.setPc thread .lockCollect) :=
        .unseen rfl woken rfl rfl rfl
      rw [BuiltStep, notifyPtrs_builtLatch] at unseen
      exact unseen
  | lockCount | lockBuilt =>
      simp only [here] at taken
      obtain ⟨free, rfl⟩ := lockBuilt_eq taken
      exact .seen rfl (.acquire _ (builtPhase_of here) free)
  | count =>
      simp only [here] at taken
      cases taken
      apply BuiltStep.seen rfl
      apply Latch.Step.change
      · exact builtPhase_of here
      · -- the builder is not counted yet
        intro all
        have knows := inv.knows thread
        rw [here] at knows
        cases thread with
        | builder id =>
            have stage := inv.allBuilt_iff.mp all id
            rw [State.stage, here] at stage
            exact absurd stage (by decide)
        | main => cases knows.place
  | testCounted =>
      simp only [here] at taken
      cases taken
      exact .seen rfl (.judge _ _ (builtPhase_of here) Iff.rfl)
  | unlockCounted flag =>
      simp only [here] at taken
      cases taken
      apply BuiltStep.seen rfl
      cases flag with
      | true => exact .promise _ (builtPhase_of here)
      | false => exact .release _ (Or.inr (builtPhase_of here))
  | notifyBuilt =>
      simp only [here] at taken
      cases taken
      right
      rw [setPc_builtLatch, notifyBuilt_builtLatch]
      exact .notify _ (builtPhase_of here)
  | testBuilt =>
      simp only [here] at taken
      cases taken
      cases built : s.allBuilt with
      | true => exact .unseen rfl here rfl rfl rfl
      | false =>
          apply BuiltStep.seen rfl
          apply Latch.Step.refuse _ (builtPhase_of here)
          intro all
          exact absurd (built.symm.trans all) (by decide)
  | parkBuilt =>
      simp only [here] at taken
      cases taken
      exact .seen rfl (.park _ (builtPhase_of here))
  | unlockBuilt =>
      simp only [here] at taken
      cases taken
      apply BuiltStep.seen rfl
      cases thread with
      | builder id => exact .release _ (Or.inl (builtPhase_of here))
      | main => exact .release _ (Or.inl (builtPhase_of here))
  | store | collect | write otherWorkers | lockRead | read | setGlobal workerPtrs =>
      simp only [here] at taken
      cases thread with
      | builder id => exact builtStep_of_build taken
      | main => exact builtStep_of_wait taken
  | alloc | parkedPtrs | parkedBuilt | returned | panicked => simp [here] at taken

private theorem builtStep (inv : Inv s) (taken : step s action = some s') : BuiltStep s s' := by
  cases action with
  | alloc id address =>
      simp only [step, alloc] at taken
      split at taken
      · next allowed =>
          cases taken
          exact .unseen rfl allowed.1 rfl rfl rfl
      · cases taken
  | run thread => exact builtStep_of_run inv taken
  | wake thread =>
      simp only [step, wake] at taken
      cases here : s.pc thread with
      | parkedPtrs =>
          simp only [here] at taken
          cases taken
          exact .unseen rfl here rfl rfl rfl
      | parkedBuilt =>
          simp only [here] at taken
          cases taken
          exact .seen rfl (.wake _ (builtPhase_of here))
      | _ => simp [here] at taken

structure Latched (s : State n) : Prop where
  ptrs : Latch.Sound Stored s.ptrsLatch
  built : Latch.Sound (Built n) s.builtLatch

private theorem latched_initial (start : Initial s) : Latched s := by
  constructor
  · apply Latch.Sound.initial start.ptrsOwner
    intro thread
    cases thread with
    | builder id => exact ptrsPhase_of (start.builder id)
    | main => exact ptrsPhase_of start.main
  · apply Latch.Sound.initial start.builtOwner
    intro thread
    cases thread with
    | builder id => exact builtPhase_of (start.builder id)
    | main => exact builtPhase_of start.main

theorem Latched.step (latched : Latched s) (inv : Inv s) (taken : step s action = some s') :
    Latched s' := by
  constructor
  · rcases ptrsStep inv taken with same | stepped
    · rw [same]
      exact latched.ptrs
    · exact latched.ptrs.step stepped
  · rcases builtStep inv taken with same | stepped
    · rw [same]
      exact latched.built
    · exact latched.built.step stepped

theorem reachable_latched (small : n < 2 ^ 32) (reached : (system n).Reachable anyAction s) :
    Latched s :=
  reached.invariant Latched (fun _state start => latched_initial start)
    (fun _state _next _action earlier latched _permitted taken =>
      latched.step (reachable_inv small earlier) taken)

def Pc.waiting (pc : Pc) : Prop := pc = .parkedPtrs ∨ pc = .parkedBuilt

private theorem running_of_owes (owes : pc.ptrsPhase.owes = true ∨ pc.builtPhase.owes = true) :
    pc ≠ .returned ∧ ¬ pc.waiting := by
  constructor
  · intro same
    rw [same] at owes
    rcases owes with owes | owes <;> cases owes
  · intro waiting
    rcases waiting with same | same <;>
    · rw [same] at owes
      rcases owes with owes | owes <;> cases owes

/-- As long as a thread has not returned, one of those is not waiting. -/
theorem someone_runs (inv : Inv s) (latched : Latched s)
    (unfinished : s.pc thread ≠ .returned) :
    ∃ other, s.pc other ≠ .returned ∧ ¬ (s.pc other).waiting := by
  by_contra nobody
  have all (other : Thread n) (open_ : s.pc other ≠ .returned) : (s.pc other).waiting := by
    by_contra awake
    exact nobody ⟨other, open_, awake⟩
  have stored : Stored s.workerPtrs := by
    apply inv.allStored_iff.mpr
    intro id
    by_cases done : s.pc (.builder id) = .returned
    · rw [State.stage, done]
      decide
    · rcases all _ done with parked | parked <;>
      · rw [State.stage, parked]
        decide
  have past (other : Thread n) : s.pc other ≠ .parkedPtrs := by
    intro parked
    obtain ⟨waker, owes⟩ := latched.ptrs.covered stored other (ptrsPhase_of parked)
    have running := running_of_owes (Or.inl owes)
    exact nobody ⟨waker, running⟩
  have built : Built n s.nBuilt := by
    apply inv.allBuilt_iff.mpr
    intro id
    by_cases done : s.pc (.builder id) = .returned
    · rw [State.stage, done]
      decide
    · rcases all _ done with parked | parked
      · exact absurd parked (past _)
      · rw [State.stage, parked]
        decide
  rcases all thread unfinished with parked | parked
  · exact past thread parked
  · obtain ⟨waker, owes⟩ := latched.built.covered built thread (builtPhase_of parked)
    have running := running_of_owes (Or.inr owes)
    exact nobody ⟨waker, running⟩

private theorem not_panicked (inv : Inv s) (thread : Thread n) : s.pc thread ≠ .panicked := by
  intro panicked
  have knows := inv.knows thread
  rw [panicked] at knows
  cases thread with
  | builder id => cases knows.place
  | main => cases knows.place

/-- The next step needs neither a mutex nor a notification nor an address. -/
def Pc.free : Pc → Bool
  | .alloc | .lockStore | .lockPtrs | .parkedPtrs | .lockCollect | .lockCount | .lockBuilt
  | .parkedBuilt | .lockRead | .returned | .panicked => false
  | _ => true

private theorem free_of_holds (holds : pc.ptrsPhase.holds = true ∨ pc.builtPhase.holds = true) :
    pc.free = true := by
  cases pc <;> first | rfl | (rcases holds with holds | holds <;> cases holds)

private theorem run_of_free (inv : Inv s) (free : (s.pc thread).free = true) :
    (run s thread).isSome = true := by
  have knows := inv.knows thread
  cases here : s.pc thread with
  | store | collect | write otherWorkers =>
      cases thread with
      | builder id =>
          simp only [run, build, here]
          rfl
      | main =>
          rw [here] at knows
          cases knows.place
  | read | setGlobal workerPtrs =>
      cases thread with
      | builder id =>
          rw [here] at knows
          cases knows.place
      | main =>
          simp only [run, wait, here]
          rfl
  | alloc | lockStore | lockPtrs | parkedPtrs | lockCollect | lockCount | lockBuilt | parkedBuilt
  | lockRead | returned | panicked =>
      rw [here] at free
      cases free
  | _ =>
      simp only [run, here]
      rfl

/-- A thread that neither waits nor has returned is before its allocation, can go on,
or finds a mutex taken. -/
theorem run_or_blocked (inv : Inv s) (unfinished : s.pc thread ≠ .returned)
    (awake : ¬ (s.pc thread).waiting) :
    (∃ id, s.pc (.builder id) = .alloc) ∨ (run s thread).isSome = true ∨
      (∃ other, s.ptrsOwner = some other) ∨ ∃ other, s.builtOwner = some other := by
  have knows := inv.knows thread
  cases here : s.pc thread with
  | returned => exact absurd here unfinished
  | parkedPtrs => exact absurd (Or.inl here) awake
  | parkedBuilt => exact absurd (Or.inr here) awake
  | panicked => exact absurd here (not_panicked inv thread)
  | alloc =>
      left
      cases thread with
      | builder id => exact ⟨id, here⟩
      | main =>
          rw [here] at knows
          cases knows.place
  | lockStore | lockPtrs | lockCollect =>
      right
      cases owner : s.ptrsOwner with
      | none =>
          left
          simp only [run, here, State.lockPtrs, owner]
          rfl
      | some other => exact Or.inr (Or.inl ⟨other, rfl⟩)
  | lockCount | lockBuilt =>
      right
      cases owner : s.builtOwner with
      | none =>
          left
          simp only [run, here, State.lockBuilt, owner]
          rfl
      | some other => exact Or.inr (Or.inr ⟨other, rfl⟩)
  | lockRead =>
      right
      cases thread with
      | builder id =>
          rw [here] at knows
          cases knows.place
      | main =>
          cases owner : s.ptrsOwner with
          | none =>
              left
              simp only [run, wait, here, State.lockPtrs, owner]
              rfl
          | some other => exact Or.inr (Or.inl ⟨other, rfl⟩)
  | _ =>
      have free : (s.pc thread).free = true := by rw [here]; rfl
      exact Or.inr (Or.inl (run_of_free inv free))

private theorem alloc_possible (here : s.pc (.builder id) = .alloc) :
    ∃ address, (alloc s id address).isSome = true := by
  have fresh (other : Fin n) : s.slot other ≠ Finset.univ.sup s.slot + 1 := by
    have below : s.slot other ≤ Finset.univ.sup s.slot := Finset.le_sup (Finset.mem_univ other)
    exact Nat.ne_of_lt (Nat.lt_succ_of_le below)
  refine ⟨Finset.univ.sup s.slot + 1, ?_⟩
  rw [alloc, if_pos ⟨here, Nat.succ_ne_zero _, fresh⟩]
  rfl

theorem startup_goes_on (inv : Inv s) (latched : Latched s)
    (unfinished : s.pc thread ≠ .returned) :
    (∃ id address, (step s (.alloc id address)).isSome = true) ∨
      ∃ other, (step s (.run other)).isSome = true := by
  obtain ⟨other, open_, awake⟩ := someone_runs inv latched unfinished
  rcases run_or_blocked inv open_ awake with ⟨id, here⟩ | runs | ⟨owner, taken⟩ | ⟨owner, taken⟩
  · obtain ⟨address, possible⟩ := alloc_possible here
    exact Or.inl ⟨id, address, possible⟩
  · exact Or.inr ⟨other, runs⟩
  · have holds := (latched.ptrs.owner owner).mpr taken
    exact Or.inr ⟨owner, run_of_free inv (free_of_holds (Or.inl holds))⟩
  · have holds := (latched.built.owner owner).mpr taken
    exact Or.inr ⟨owner, run_of_free inv (free_of_holds (Or.inr holds))⟩

theorem written_of_returned (inv : Inv s) (returned : s.pc thread = .returned) (id : Fin n) :
    s.memory (s.slot id) = some (s.worker id) := by
  have all : ∀ other, 6 ≤ s.stage other := by
    have knows := inv.knows thread
    rw [returned] at knows
    cases thread with
    | builder own => exact knows.built (Nat.le_refl 7)
    | main => exact knows.built (Nat.le_refl 7)
  have knows : BuilderKnows s id (s.pc (.builder id)) := inv.knows (.builder id)
  exact knows.written (Nat.le_trans (by decide) (all id))

/-- The start-up barrier, for every interleaving: whoever returns finds all workers written,
each with the pointers to all others in the order of their ids; no `unwrap` fails; and the
threads that have not returned are never all waiting. -/
theorem startup_barrier (small : n < 2 ^ 32) (reached : (system n).Reachable anyAction s) :
    (∀ thread, s.pc thread = .returned → ∀ id,
      s.memory (s.slot id) = some ⟨id, n, s.epoch, (List.ofFn s.slot).eraseIdx id⟩) ∧
      (s.pc .main = .returned → s.global = some ⟨s.epoch, List.ofFn s.slot⟩) ∧
      (∀ thread, s.pc thread ≠ .panicked) ∧
      ((∃ thread, s.pc thread ≠ .returned) →
        (∃ thread, s.pc thread ≠ .returned ∧ ¬ (s.pc thread).waiting) ∧
          ((∃ id address, (step s (.alloc id address)).isSome = true) ∨
            ∃ thread, (step s (.run thread)).isSome = true)) := by
  have inv := reachable_inv small reached
  have latched := reachable_latched small reached
  refine ⟨?_, ?_, not_panicked inv, ?_⟩
  · intro thread returned id
    exact written_of_returned inv returned id
  · intro returned
    have knows : MainKnows s (s.pc .main) := inv.knows .main
    exact knows.shared returned
  · rintro ⟨thread, unfinished⟩
    constructor
    · exact someone_runs inv latched unfinished
    · exact startup_goes_on inv latched unfinished

/-- The list that `build` collects is the one that the main loop steals from. -/
theorem othersOf_eq (s : State n) (id : Fin n) :
    s.othersOf id = (Scheduler.others id).map s.slot := by
  have erased : (List.finRange n).eraseIdx id = Scheduler.others id := by
    rw [← List.erase_eq_eraseIdx_of_idxOf (List.idxOf_finRange id),
      (List.nodup_finRange n).erase_eq_filter id, Scheduler.others]
    apply List.filter_congr
    intro other _member
    by_cases same : other = id
    · simp [same]
    · simp [same]
  rw [State.othersOf, List.ofFn_eq_map, ← erased, List.eraseIdx_map]

def fresh : State 2 :=
  { epoch := 9, workerPtrs := List.replicate 2 0, ptrsOwner := none, nBuilt := 0
    builtOwner := none, slot := fun _ => 0, memory := fun _ => none, global := none
    pc := fun thread => match thread with
      | .builder _ => .alloc
      | .main => .lockBuilt }

theorem fresh_initial : Initial fresh :=
  ⟨rfl, rfl, rfl, rfl, fun _ => rfl, fun _ => rfl, rfl, fun _ => rfl, rfl⟩

abbrev worker0 : Fin 2 := ⟨0, Nat.zero_lt_two⟩

abbrev worker1 : Fin 2 := ⟨1, Nat.one_lt_two⟩

def runs (thread : Thread 2) (count : Nat) : List (Action 2) :=
  List.replicate count (.run thread)

/-- Worker 1 and the main thread wait, each woken once for no reason, until worker 0 is the
last to store, and worker 1 the last to count. -/
def startOfTwo : List (Action 2) :=
  [.alloc worker1 20] ++ runs (.builder worker1) 7 ++ [.wake (.builder worker1)] ++
    runs (.builder worker1) 3 ++ runs .main 3 ++ [.wake .main] ++ runs .main 3 ++
    [.alloc worker0 10] ++ runs (.builder worker0) 15 ++ runs (.builder worker1) 11 ++
    runs (.builder worker0) 3 ++ runs .main 6

private theorem startOfTwo_runs : ((system 2).exec fresh startOfTwo).isSome = true := by decide

def startedTwo : State 2 := ((system 2).exec fresh startOfTwo).get startOfTwo_runs

private theorem startedTwo_reached : (system 2).Reachable anyAction startedTwo :=
  System.Reachable.replay_any (.initial fresh fresh_initial) startOfTwo_runs

theorem workers_of_two :
    startedTwo.memory (startedTwo.slot worker0) = some ⟨0, 2, 9, [20]⟩ ∧
      startedTwo.memory (startedTwo.slot worker1) = some ⟨1, 2, 9, [10]⟩ ∧
      startedTwo.global = some ⟨9, [10, 20]⟩ := by
  obtain ⟨written, shared, _, _⟩ := startup_barrier (by decide) startedTwo_reached
  have done : startedTwo.pc .main = .returned := by decide
  have first := written .main done worker0
  have second := written .main done worker1
  rw [first, second, shared done]
  decide

end Yaay.Startup
