import Mathlib.Algebra.Order.BigOperators.Group.Finset
import Mathlib.Data.Prod.Lex
import Mathlib.Logic.Relation
import Yaay.Process.ReactorBarrier

set_option autoImplicit false

/-! `run_with` returns. Once `mio_shutdown` has set the flag, every step of the main thread or
of a reactor brings the end of the cycle nearer, whatever events there still are to dispatch. -/

namespace Yaay.Process

open Yaay.Transition

variable {cfg : Config} {s s' : State cfg} {cycle tid : Nat}

def ReactorPc.stage : ReactorPc → Nat
  | .build => 13
  | .store => 12
  | .parked => 11
  | .relock => 10
  | .notify => 9
  | .batchGuard => 8
  | .poll => 7
  | .dispatch _ _ => 6
  | .pushBatch => 5
  | .deferredRemove => 4
  | .loopTest => 3
  | .drain => 2
  | .dropGuard => 1
  | .absent | .finished | .faulted => 0

def ReactorPc.events : ReactorPc → Nat
  | .dispatch _ left => left
  | _ => 0

def ReactorPc.before (there here : ReactorPc) : Prop :=
  there.stage < here.stage ∨ there.stage = here.stage ∧ there.events < here.events

def MainPc.steps (cfg : Config) (cycle : Nat) : MainPc → Nat
  | .joinReactors tid => (cfg.reactors cycle - tid) + cfg.workers cycle + 6
  | .freeWorker worker => (cfg.workers cycle - worker) + 5
  | .dropTasks => 4
  | .freeEpoch => 3
  | .freeShared => 2
  | .clearGlobal => 1
  | _ => 0

def State.places (s : State cfg) : Nat :=
  ∑ tid ∈ Finset.range (cfg.reactors s.cycle), (s.reactor s.cycle tid).pc.stage

def State.events (s : State cfg) : Nat :=
  ∑ tid ∈ Finset.range (cfg.reactors s.cycle), (s.reactor s.cycle tid).pc.events

/-- The places of all threads come first, since a turn may begin with any number of events. -/
def State.togo (s : State cfg) : ℕ ×ₗ ℕ :=
  toLex (s.main.steps cfg s.cycle + s.places, s.events)

private theorem togo_setReactor {r : Reactor} (inside : tid < cfg.reactors s.cycle)
    (before : r.pc.before (s.reactor s.cycle tid).pc) :
    (s.setReactor s.cycle tid r).togo < s.togo := by
  have member : tid ∈ Finset.range (cfg.reactors s.cycle) := Finset.mem_range.mpr inside
  have other (name : Nat) (different : name ≠ tid) :
      (s.setReactor s.cycle tid r).reactor s.cycle name = s.reactor s.cycle name :=
    setReactor_other (fun both => different both.2)
  rw [State.togo, State.togo, Prod.Lex.toLex_lt_toLex]
  rcases before with place | ⟨place, event⟩
  · refine Or.inl (Nat.add_lt_add_left ?_ _)
    refine Finset.sum_lt_sum ?_ ⟨tid, member, ?_⟩
    · intro name _inside
      by_cases same : name = tid
      · rw [same]
        change ((s.setReactor s.cycle tid r).reactor s.cycle tid).pc.stage ≤ _
        rw [setReactor_self]
        exact Nat.le_of_lt place
      · change ((s.setReactor s.cycle tid r).reactor s.cycle name).pc.stage ≤ _
        rw [other name same]
    · change ((s.setReactor s.cycle tid r).reactor s.cycle tid).pc.stage < _
      rw [setReactor_self]
      exact place
  · refine Or.inr ⟨congrArg (s.main.steps cfg s.cycle + ·) ?_, ?_⟩
    · refine Finset.sum_congr rfl ?_
      intro name _inside
      change ((s.setReactor s.cycle tid r).reactor s.cycle name).pc.stage = _
      by_cases same : name = tid
      · rw [same, setReactor_self, place]
      · rw [other name same]
    · refine Finset.sum_lt_sum ?_ ⟨tid, member, ?_⟩
      · intro name _inside
        change ((s.setReactor s.cycle tid r).reactor s.cycle name).pc.events ≤ _
        by_cases same : name = tid
        · rw [same, setReactor_self]
          exact Nat.le_of_lt event
        · rw [other name same]
      · change ((s.setReactor s.cycle tid r).reactor s.cycle tid).pc.events < _
        rw [setReactor_self]
        exact event

private theorem togo_le {next : State cfg} (cycle : next.cycle = s.cycle)
    (main : next.main = s.main)
    (forward : ∀ tid, (next.reactor s.cycle tid).pc = (s.reactor s.cycle tid).pc ∨
      (next.reactor s.cycle tid).pc.stage < (s.reactor s.cycle tid).pc.stage ∧
        (next.reactor s.cycle tid).pc.events ≤ (s.reactor s.cycle tid).pc.events) :
    next.togo ≤ s.togo := by
  have places : next.places ≤ s.places := by
    rw [State.places, State.places, cycle]
    refine Finset.sum_le_sum (fun tid _inside => ?_)
    rcases forward tid with same | ⟨below, _⟩
    · rw [same]
    · exact Nat.le_of_lt below
  have events : next.events ≤ s.events := by
    rw [State.events, State.events, cycle]
    refine Finset.sum_le_sum (fun tid _inside => ?_)
    rcases forward tid with same | ⟨_, below⟩
    · rw [same]
    · exact below
  rw [State.togo, State.togo, Prod.Lex.toLex_le_toLex, main, cycle]
  rcases Nat.lt_or_eq_of_le (Nat.add_le_add_left places (s.main.steps cfg s.cycle)) with
    below | same
  · exact Or.inl below
  · exact Or.inr ⟨same, events⟩

private theorem togo_notifyAll (awake : s.main ≠ .parked) :
    (s.notifyAll s.cycle).togo ≤ s.togo := by
  refine togo_le rfl ?_ ?_
  · rw [State.notifyAll_main, if_neg (fun both => awake both.2)]
  · intro tid
    rw [State.notifyAll_reactor, Function.update_self]
    by_cases parked : (s.reactor s.cycle tid).pc = .parked
    · refine Or.inr ?_
      rw [Reactor.woken, parked]
      exact ⟨Nat.lt_succ_self 10, Nat.le_refl 0⟩
    · rw [Reactor.woken_pc_of_ne parked]
      exact Or.inl rfl

theorem State.batchGuard_before {r : Reactor} (place : r.pc = .batchGuard) :
    (s.batchGuard r).pc.before r.pc := by
  rw [place]
  unfold State.batchGuard
  split
  · exact Or.inl (show 3 < 8 by decide)
  · exact Or.inl (show 0 < 8 by decide)

theorem State.dispatchOne_before {r : Reactor} {k left : Nat} {woken : Option Nat}
    (place : r.pc = .dispatch k (left + 1)) : (s.dispatchOne r k left woken).pc.before r.pc := by
  rw [place]
  unfold State.dispatchOne
  split
  · exact Or.inr ⟨rfl, Nat.lt_succ_self left⟩
  · exact Or.inl (show 0 < 6 by decide)

theorem State.pushTurn_before {r : Reactor} (place : r.pc = .pushBatch) :
    (s.pushTurn r).pc.before r.pc := by
  rw [place]
  unfold State.pushTurn
  split
  · exact Or.inl (show 4 < 5 by decide)
  · exact Or.inl (show 0 < 5 by decide)

theorem State.dropGuard_before {r : Reactor} (place : r.pc = .dropGuard) :
    (s.dropGuard r).pc.before r.pc := by
  rw [place]
  unfold State.dropGuard
  split <;> exact Or.inl (show 0 < 1 by decide)

private theorem live_of_taken {events : Nat} {woken : Option Nat}
    (taken : reactor s cycle tid events woken = some s') : (s.reactor cycle tid).pc.live := by
  unfold reactor at taken
  cases place : (s.reactor cycle tid).pc with
  | absent | finished | faulted =>
      simp only [place] at taken
      cases taken
  | _ => trivial

private theorem reactor_aside {events : Nat} {woken : Option Nat} (awake : s.main ≠ .parked)
    (taken : reactor s cycle tid events woken = some s') :
    s'.cycle = s.cycle ∧ s'.main = s.main := by
  unfold reactor at taken
  split at taken
  case h_8 =>
    cases taken
    exact ⟨rfl, if_neg (fun both => awake both.2)⟩
  all_goals
    first
    | cases taken
      exact ⟨rfl, rfl⟩
    | split at taken
      · cases taken
        exact ⟨rfl, rfl⟩
      · cases taken
    | cases taken

/-- With the flag set and the array full, a reactor has no way back. -/
theorem reactor_lowers {events : Nat} {woken : Option Nat}
    (inside : tid < cfg.reactors s.cycle) (flag : s.shutdown = true)
    (built : allBuilt (s.ptrs s.cycle) = true) (awake : s.main ≠ .parked)
    (taken : reactor s s.cycle tid events woken = some s') : s'.togo < s.togo := by
  unfold reactor at taken
  cases place : (s.reactor s.cycle tid).pc with
  | absent | parked | finished | faulted =>
      simp only [place] at taken
      cases taken
  | build =>
      simp only [place] at taken
      cases taken
      exact togo_setReactor inside (Or.inl (by rw [place]; exact Nat.lt_succ_self 12))
  | store =>
      simp only [place] at taken
      cases taken
      have kept (ptrs : List (Option LocalData)) : (s.setPtrs s.cycle ptrs).togo = s.togo := rfl
      refine lt_of_lt_of_eq (togo_setReactor inside (Or.inl ?_)) (kept _)
      change (if allBuilt _ = true then ReactorPc.notify else .parked).stage <
        (s.reactor s.cycle tid).pc.stage
      rw [place]
      split
      · exact (show 9 < 12 by decide)
      · exact (show 11 < 12 by decide)
  | relock =>
      simp only [place, built] at taken
      cases taken
      exact togo_setReactor inside (Or.inl (by rw [place]; exact Nat.lt_succ_self 9))
  | notify =>
      simp only [place] at taken
      cases taken
      refine lt_of_lt_of_le (togo_setReactor inside (Or.inl ?_)) (togo_notifyAll awake)
      rw [State.notifyAll_reactor, State.notifyAll_cycle, Function.update_self,
        Reactor.woken_pc_of_ne (by rw [place]; exact ReactorPc.noConfusion), place]
      exact Nat.lt_succ_self 8
  | batchGuard =>
      simp only [place] at taken
      cases taken
      exact togo_setReactor inside (State.batchGuard_before place)
  | loopTest =>
      simp only [place, flag] at taken
      cases taken
      exact togo_setReactor inside (Or.inl (by rw [place]; exact Nat.lt_succ_self 2))
  | poll =>
      simp only [place] at taken
      cases taken
      exact togo_setReactor inside (Or.inl (by rw [place]; exact Nat.lt_succ_self 6))
  | dispatch k left =>
      cases left with
      | zero =>
          simp only [place] at taken
          cases taken
          exact togo_setReactor inside (Or.inl (by rw [place]; exact Nat.lt_succ_self 5))
      | succ left =>
          simp only [place] at taken
          split at taken
          · cases taken
            exact togo_setReactor inside (State.dispatchOne_before place)
          · cases taken
  | pushBatch =>
      simp only [place] at taken
      cases taken
      exact togo_setReactor inside (State.pushTurn_before place)
  | deferredRemove =>
      simp only [place] at taken
      cases taken
      exact togo_setReactor inside (Or.inl (by rw [place]; exact Nat.lt_succ_self 3))
  | drain =>
      simp only [place] at taken
      cases taken
      exact togo_setReactor inside (Or.inl (by rw [place]; exact Nat.lt_succ_self 1))
  | dropGuard =>
      simp only [place] at taken
      cases taken
      exact togo_setReactor inside (State.dropGuard_before place)

private theorem main_lowers (stopped : s.main.stopped) (notExit : s.main ≠ .exit)
    (taken : main s = some s') :
    s'.togo < s.togo ∧ s'.cycle = s.cycle ∧ s'.main.stopped := by
  have lower {next : State cfg} (cycle : next.cycle = s.cycle)
      (reactor : next.reactor = s.reactor)
      (below : next.main.steps cfg s.cycle < s.main.steps cfg s.cycle) : next.togo < s.togo := by
    rw [State.togo, State.togo, Prod.Lex.toLex_lt_toLex, State.places, State.places, cycle,
      reactor]
    exact Or.inl (Nat.add_lt_add_right below _)
  unfold main at taken
  cases place : s.main with
  | start | spawn | check | parked | collect | storeGlobal | run | joinWorkers | setShutdown =>
      rw [place] at stopped
      exact stopped.elim
  | joinReactors tid =>
      simp only [place] at taken
      split at taken
      · rename_i inside
        split at taken
        · cases taken
          refine ⟨lower rfl rfl ?_, rfl, trivial⟩
          rw [place]
          change (cfg.reactors s.cycle - (tid + 1)) + cfg.workers s.cycle + 6 <
            (cfg.reactors s.cycle - tid) + cfg.workers s.cycle + 6
          omega
        · cases taken
      · cases taken
        refine ⟨lower rfl rfl ?_, rfl, trivial⟩
        rw [place]
        change (cfg.workers s.cycle - 0) + 5 <
          (cfg.reactors s.cycle - tid) + cfg.workers s.cycle + 6
        omega
  | freeWorker worker =>
      simp only [place] at taken
      split at taken
      · rename_i inside
        cases taken
        refine ⟨lower rfl rfl ?_, rfl, trivial⟩
        rw [place]
        change (cfg.workers s.cycle - (worker + 1)) + 5 < (cfg.workers s.cycle - worker) + 5
        omega
      · cases taken
        refine ⟨lower rfl rfl ?_, rfl, trivial⟩
        rw [place]
        change 4 < (cfg.workers s.cycle - worker) + 5
        omega
  | dropTasks =>
      simp only [place] at taken
      cases taken
      exact ⟨lower rfl rfl (by rw [place]; exact Nat.lt_succ_self 3), rfl, trivial⟩
  | freeEpoch =>
      simp only [place] at taken
      cases taken
      exact ⟨lower rfl rfl (by rw [place]; exact Nat.lt_succ_self 2), rfl, trivial⟩
  | freeShared =>
      simp only [place] at taken
      cases taken
      exact ⟨lower rfl rfl (by rw [place]; exact Nat.lt_succ_self 1), rfl, trivial⟩
  | clearGlobal =>
      simp only [place] at taken
      cases taken
      exact ⟨lower rfl rfl (by rw [place]; exact Nat.lt_succ_self 0), rfl, trivial⟩
  | exit => exact absurd place notExit

/-- A step that a thread of the cycle takes by itself: no spurious wake-up, and nothing that
another thread does. -/
def Action.own : Action → Prop
  | .main | .reactor _ _ _ _ => True
  | _ => False

def State.idles (s s' : State cfg) : Prop :=
  ∃ action : Action, ¬ action.own ∧ step s action = some s'

def State.goes (s s' : State cfg) : Prop :=
  ∃ between, Relation.ReflTransGen State.idles s between ∧
    ∃ action : Action, action.own ∧ step between action = some s'

/-- A reachable state of the cycle in which the flag is set. -/
structure Stopping (s : State cfg) (cycle : Nat) : Prop where
  reached : (system cfg).Reachable anyAction s
  present : s.cycle = cycle
  stopped : s.main.stopped

theorem Stopping.awake (stopping : Stopping s cycle) : s.main ≠ .parked := by
  intro parked
  have stopped := stopping.stopped
  rw [parked] at stopped
  exact stopped

theorem MainPc.stopped_passed {main : MainPc} (stopped : main.stopped) :
    main.passed ∧ main.joined := by
  cases main <;> first | exact stopped.elim | exact ⟨trivial, trivial⟩

theorem Stopping.built (stopping : Stopping s cycle) : allBuilt (s.ptrs s.cycle) = true :=
  (reachable_barrier stopping.reached).main (MainPc.stopped_passed stopping.stopped).1

theorem Stopping.idles (stopping : Stopping s cycle) (idles : s.idles s') :
    Stopping s' cycle ∧ s'.togo ≤ s.togo ∧ s'.main = s.main := by
  obtain ⟨action, foreign, taken⟩ := idles
  have later := System.Reachable.step s s' action stopping.reached trivial taken
  cases action with
  | main | reactor => exact absurd trivial foreign
  | wakeMain =>
      simp only [step, wakeMain] at taken
      split at taken
      · rename_i parked
        exact absurd parked stopping.awake
      · cases taken
  | wakeReactor other tid =>
      simp only [step, wakeReactor] at taken
      split at taken
      · rename_i parked
        cases taken
        refine ⟨⟨later, stopping.present, stopping.stopped⟩, togo_le rfl rfl ?_, rfl⟩
        intro name
        by_cases same : s.cycle = other ∧ name = tid
        · obtain ⟨rfl, rfl⟩ := same
          refine Or.inr ?_
          rw [setReactor_self, parked]
          exact ⟨Nat.lt_succ_self 10, Nat.le_refl 0⟩
        · rw [setReactor_other same]
          exact Or.inl rfl
      · cases taken
  | workerReturns =>
      simp only [step, workerReturns] at taken
      split at taken
      · rename_i running
        have joined := (reachable_barrier stopping.reached).joined
          (MainPc.stopped_passed stopping.stopped).2
        exact absurd joined (Nat.ne_of_lt running.2)
      · cases taken
  | newCell =>
      simp only [step, newCell] at taken
      repeat' split at taken
      all_goals
        cases taken
      exact ⟨⟨later, stopping.present, stopping.stopped⟩, le_refl s.togo, rfl⟩

theorem Stopping.drift (stopping : Stopping s cycle)
    (idle : Relation.ReflTransGen State.idles s s') :
    Stopping s' cycle ∧ s'.togo ≤ s.togo ∧ s'.main = s.main := by
  induction idle with
  | refl => exact ⟨stopping, le_refl s.togo, rfl⟩
  | tail _ idles ih =>
      obtain ⟨before, below, same⟩ := ih
      obtain ⟨after, lower, still⟩ := before.idles idles
      exact ⟨after, lower.trans below, still.trans same⟩

theorem Stopping.own {action : Action} (stopping : Stopping s cycle) (notExit : s.main ≠ .exit)
    (own : action.own) (taken : step s action = some s') :
    Stopping s' cycle ∧ s'.togo < s.togo := by
  have later := System.Reachable.step s s' action stopping.reached trivial taken
  have inv := reachable_inv stopping.reached
  cases action with
  | main =>
      obtain ⟨below, same, stopped⟩ := main_lowers stopping.stopped notExit taken
      exact ⟨⟨later, same.trans stopping.present, stopped⟩, below⟩
  | reactor other tid events woken =>
      have ok := inv.reactors other tid
      have live := live_of_taken taken
      obtain ⟨rfl, _hosts⟩ := ok.live live
      have inside := (ok.spawned (fun absent => by rw [absent] at live; exact live)).1
      have flag := inv.flag.mpr (Or.inr stopping.stopped)
      obtain ⟨same, unmoved⟩ := reactor_aside stopping.awake taken
      refine ⟨⟨later, same.trans stopping.present, ?_⟩,
        reactor_lowers inside flag stopping.built stopping.awake taken⟩
      rw [unmoved]
      exact stopping.stopped
  | wakeMain | wakeReactor | workerReturns | newCell => exact own.elim

/-- A reactor that has not ended can go on, unless it is parked. -/
theorem reactor_can (live : (s.reactor cycle tid).pc.live)
    (awake : (s.reactor cycle tid).pc ≠ .parked) : (reactor s cycle tid 0 none).isSome = true := by
  unfold reactor
  cases place : (s.reactor cycle tid).pc with
  | absent | finished | faulted =>
      rw [place] at live
      exact live.elim
  | parked => exact absurd place awake
  | dispatch k left =>
      cases left with
      | zero => rfl
      | succ left =>
          have unbound : ∀ worker ∈ (none : Option Nat), worker < cfg.workers cycle :=
            fun _ member => nomatch member
          simp only [if_pos unbound, Option.isSome_some]
  | _ => rfl

/-- The main thread waits for a reactor that can go on, or for one that another one wakes. -/
theorem Stopping.can (stopping : Stopping s cycle) (notExit : s.main ≠ .exit) :
    ∃ after, s.goes after := by
  have goes {action : Action} (own : action.own) (can : (step s action).isSome = true) :
      ∃ after, s.goes after := by
    obtain ⟨after, taken⟩ := Option.isSome_iff_exists.mp can
    exact ⟨after, s, .refl, action, own, taken⟩
  have stopped := stopping.stopped
  cases place : s.main with
  | start | spawn | check | parked | collect | storeGlobal | run | joinWorkers | setShutdown =>
      rw [place] at stopped
      exact stopped.elim
  | joinReactors tid =>
      by_cases inside : tid < cfg.reactors s.cycle
      · by_cases ended : (s.reactor s.cycle tid).pc.ended = true
        · have joins : main s = some (s.setMain (.joinReactors (tid + 1))) := by
            simp only [main, place, if_pos inside, if_pos ended]
          exact goes (show Action.own .main from trivial) (Option.isSome_of_eq_some joins)
        · have barrier := reachable_barrier stopping.reached
          have born := barrier.begun tid inside (by rw [place]; trivial)
          have live : (s.reactor s.cycle tid).pc.live := by
            cases here : (s.reactor s.cycle tid).pc with
            | absent => exact absurd here born
            | finished | faulted =>
                rw [here] at ended
                exact absurd rfl ended
            | _ => trivial
          by_cases parked : (s.reactor s.cycle tid).pc = .parked
          · obtain ⟨other, notifying⟩ :=
              barrier.notifies s.cycle stopping.built (Or.inl ⟨tid, parked⟩)
            refine goes (show Action.own (.reactor s.cycle other 0 none) from trivial)
              (reactor_can ?_ ?_)
            · rw [notifying]
              trivial
            · rw [notifying]
              exact ReactorPc.noConfusion
          · exact goes (show Action.own (.reactor s.cycle tid 0 none) from trivial)
              (reactor_can live parked)
      · have joined : main s = some (s.setMain (.freeWorker 0)) := by
          simp only [main, place, if_neg inside]
        exact goes (show Action.own .main from trivial) (Option.isSome_of_eq_some joined)
  | freeWorker worker =>
      by_cases inside : worker < cfg.workers s.cycle
      · refine goes (show Action.own .main from trivial) ?_
        simp only [step, main, place, if_pos inside, Option.isSome_some]
      · refine goes (show Action.own .main from trivial) ?_
        simp only [step, main, place, if_neg inside, Option.isSome_some]
  | dropTasks | freeEpoch | freeShared | clearGlobal =>
      refine goes (show Action.own .main from trivial) ?_
      simp only [step, main, place, Option.isSome_some]
  | exit => exact absurd place notExit

structure Returned (s : State cfg) (cycle : Nat) : Prop where
  present : s.cycle = cycle
  exit : s.main = .exit
  finished : ∀ tid, tid < cfg.reactors cycle → (s.reactor cycle tid).pc = .finished

theorem Stopping.returned (stopping : Stopping s cycle) (exit : s.main = .exit) :
    Returned s cycle := by
  refine ⟨stopping.present, exit, ?_⟩
  intro tid inside
  have ok := (reachable_inv stopping.reached).reactors cycle tid
  have born := (reachable_barrier stopping.reached).begun tid
    (by rw [stopping.present]; exact inside) (by rw [exit]; trivial)
  rw [stopping.present] at born
  have still : ¬ (s.reactor cycle tid).pc.live := by
    intro live
    have hosts := (ok.live live).2
    rw [exit] at hosts
    exact hosts
  cases here : (s.reactor cycle tid).pc with
  | absent => exact absurd here born
  | finished => rfl
  | faulted => exact absurd here ok.sound
  | _ =>
      rw [here] at still
      exact absurd trivial still

/-- After `mio_shutdown` has set the flag, every order of the threads' steps, with any number of
other steps in between, ends all the reactors of the cycle and lets `run_with` return. -/
theorem run_with_returns (reached : (system cfg).Reachable anyAction s)
    (stopped : s.main.stopped) :
    Inevitable State.goes (fun last => Returned last s.cycle) s := by
  have grounded : WellFounded ((· < ·) : ℕ ×ₗ ℕ → ℕ ×ₗ ℕ → Prop) := wellFounded_lt
  have live (later : State cfg) (stopping : Stopping later s.cycle)
      (going : ¬ Returned later s.cycle) : ∃ after, later.goes after :=
    stopping.can (fun exit => going (stopping.returned exit))
  refine Inevitable.of_rank grounded State.togo live ?_ ⟨reached, rfl, stopped⟩
  rintro later next stopping going ⟨between, idle, action, own, taken⟩
  obtain ⟨drifted, below, same⟩ := stopping.drift idle
  have notExit : between.main ≠ .exit := by
    rw [same]
    exact fun exit => going (stopping.returned exit)
  obtain ⟨gone, lower⟩ := drifted.own notExit own taken
  exact ⟨gone, lt_of_lt_of_le lower below⟩

def firstStop : List Action :=
  startActions 0 ++ List.replicate 7 (.reactor 0 0 0 none) ++ [.workerReturns, .main, .main]

private theorem firstStop_runs :
    ((system oneEach).exec (State.init oneEach) firstStop).isSome = true := by
  decide +kernel

def stoppingFirst : State oneEach :=
  ((system oneEach).exec (State.init oneEach) firstStop).get firstStop_runs

theorem run_with_returns_first :
    Inevitable State.goes (fun last => Returned last stoppingFirst.cycle) stoppingFirst := by
  have start : (system oneEach).Reachable anyAction (State.init oneEach) := .initial _ rfl
  have joining : stoppingFirst.main = .joinReactors 0 := by decide +kernel
  have stopped : stoppingFirst.main.stopped := by
    rw [joining]
    trivial
  exact run_with_returns (start.replay_any firstStop_runs) stopped

end Yaay.Process
