import Mathlib.Logic.Function.Basic
import Mathlib.Order.WellFounded

set_option autoImplicit false

/-! Executable transition systems over arbitrary states and actions. The step
function fixes what every action does, so that a list of actions is a run which
the kernel can replay. Reachability is relative to a side condition on the
actions taken; inevitability quantifies over every path of a relation. -/

namespace Yaay.Transition

universe u v

structure System (State : Type u) (Action : Type v) where
  initial : State → Prop
  step : State → Action → Option State

variable {State : Type u} {Action : Type v}

/-- The runs in which every action is permitted in the state it is taken in. -/
inductive System.Reachable (system : System State Action)
    (permits : State → Action → Prop) : State → Prop
  | initial (state : State) (start : system.initial state) :
      system.Reachable permits state
  | step (state next : State) (action : Action)
      (earlier : system.Reachable permits state)
      (permitted : permits state action)
      (taken : system.step state action = some next) :
      system.Reachable permits next

def anyAction : State → Action → Prop := fun _ _ => True

theorem System.Reachable.weaken {system : System State Action}
    {strict loose : State → Action → Prop}
    (weaker : ∀ state action, system.Reachable strict state → strict state action →
      loose state action)
    {state : State} (reached : system.Reachable strict state) :
    system.Reachable loose state := by
  induction reached with
  | initial state start => exact .initial state start
  | step state next action earlier permitted taken ih =>
      exact .step state next action ih (weaker state action earlier permitted) taken

/-- The induction rule of every invariant: it holds initially, and a permitted
step from a reachable state in which it holds preserves it. -/
theorem System.Reachable.invariant {system : System State Action}
    {permits : State → Action → Prop} (holds : State → Prop)
    (atStart : ∀ state, system.initial state → holds state)
    (preserved : ∀ state next action, system.Reachable permits state → holds state →
      permits state action → system.step state action = some next → holds next)
    {state : State} (reached : system.Reachable permits state) : holds state := by
  induction reached with
  | initial state start => exact atStart state start
  | step state next action earlier permitted taken ih =>
      exact preserved state next action earlier ih permitted taken

/-- Replay a list of actions; a refused action stops the run. -/
def System.exec (system : System State Action) : State → List Action → Option State
  | state, [] => some state
  | state, action :: rest =>
      (system.step state action).bind (fun next => system.exec next rest)

theorem System.exec_cons {system : System State Action} {state last : State}
    {action : Action} {rest : List Action}
    (ran : system.exec state (action :: rest) = some last) :
    ∃ next, system.step state action = some next ∧ system.exec next rest = some last :=
  Option.bind_eq_some_iff.mp ran

def System.Permitted (system : System State Action)
    (permits : State → Action → Prop) : State → List Action → Prop
  | _, [] => True
  | state, action :: rest =>
      permits state action ∧
        ∀ next, system.step state action = some next → system.Permitted permits next rest

theorem System.permitted_of_all {system : System State Action}
    {permits : State → Action → Prop} (actions : List Action)
    (each : ∀ action ∈ actions, ∀ state, permits state action) :
    ∀ state, system.Permitted permits state actions := by
  induction actions with
  | nil => intro state; trivial
  | cons action rest ih =>
      intro state
      refine ⟨each action List.mem_cons_self state, fun next _taken => ih ?_ next⟩
      intro later member
      exact each later (List.mem_cons_of_mem action member)

def System.checks (system : System State Action) (permits : State → Action → Prop)
    [∀ state action, Decidable (permits state action)] : State → List Action → Bool
  | _, [] => true
  | state, action :: rest =>
      decide (permits state action) &&
        match system.step state action with
        | none => true
        | some next => system.checks permits next rest

theorem System.permitted_of_checks {system : System State Action}
    {permits : State → Action → Prop} [∀ state action, Decidable (permits state action)]
    {state : State} {actions : List Action}
    (checked : system.checks permits state actions = true) :
    system.Permitted permits state actions := by
  induction actions generalizing state with
  | nil => trivial
  | cons action rest ih =>
      obtain ⟨first, later⟩ := (Bool.and_eq_true _ _).mp checked
      refine ⟨of_decide_eq_true first, fun next taken => ih ?_⟩
      rw [taken] at later
      exact later

theorem System.Reachable.exec {system : System State Action}
    {permits : State → Action → Prop} {state last : State} {actions : List Action}
    (reached : system.Reachable permits state)
    (permitted : system.Permitted permits state actions)
    (ran : system.exec state actions = some last) : system.Reachable permits last := by
  induction actions generalizing state with
  | nil =>
      have same : state = last := Option.some.inj ran
      rw [← same]
      exact reached
  | cons action rest ih =>
      obtain ⟨next, taken, later⟩ := System.exec_cons ran
      exact ih (.step state next action reached permitted.1 taken)
        (permitted.2 next taken) later

theorem System.Reachable.replay {system : System State Action}
    {permits : State → Action → Prop} {state : State} {actions : List Action}
    (reached : system.Reachable permits state)
    (permitted : system.Permitted permits state actions)
    (runs : (system.exec state actions).isSome = true) :
    system.Reachable permits ((system.exec state actions).get runs) :=
  reached.exec permitted (Option.some_get runs).symm

theorem System.Reachable.replay_any {system : System State Action} {state : State}
    {actions : List Action} (reached : system.Reachable anyAction state)
    (runs : (system.exec state actions).isSome = true) :
    system.Reachable anyAction ((system.exec state actions).get runs) :=
  reached.replay (System.permitted_of_all actions (fun _ _ _ => trivial) state) runs

theorem System.exec_invariant {system : System State Action} (holds : State → Prop)
    (kept : ∀ state action next, holds state → system.step state action = some next →
      holds next)
    {state last : State} {actions : List Action} (start : holds state)
    (ran : system.exec state actions = some last) : holds last := by
  induction actions generalizing state with
  | nil =>
      have same : state = last := Option.some.inj ran
      rw [← same]
      exact start
  | cons action rest ih =>
      obtain ⟨next, taken, later⟩ := System.exec_cons ran
      exact ih (kept state action next start taken) later

/-- What every step keeps up to a turn of events holds at the end of a run, or that turn
has come after some part of it. -/
theorem System.holds_until (system : System State Action) (holds exits : State → Prop)
    (kept : ∀ state action next, holds state → system.step state action = some next →
      holds next ∨ exits next)
    {state last : State} {actions : List Action} (start : holds state)
    (ran : system.exec state actions = some last) :
    holds last ∨ ∃ before after middle, actions = before ++ after ∧
      system.exec state before = some middle ∧ exits middle := by
  induction actions generalizing state with
  | nil =>
      have same : state = last := Option.some.inj ran
      rw [← same]
      exact Or.inl start
  | cons action rest ih =>
      obtain ⟨next, taken, later⟩ := System.exec_cons ran
      have single : system.exec state [action] = some next := by
        rw [System.exec, taken]
        rfl
      rcases kept state action next start taken with still | passed
      · rcases ih still later with ended | ⟨before, after, middle, split, reached, exit⟩
        · exact Or.inl ended
        · refine Or.inr ⟨action :: before, after, middle, congrArg (List.cons action) split, ?_,
            exit⟩
          rw [System.exec, taken]
          exact reached
      · exact Or.inr ⟨[action], rest, next, rfl, single, passed⟩

/-- A run stops at the first action that leaves a condition, or keeps it to the end. -/
structure System.Leaves (system : System State Action) (permits : State → Action → Prop)
    (stays : State → Prop) (exits : Action → Prop) (state : State)
    (actions : List Action) (last : State) where
  before : List Action
  action : Action
  after : List Action
  middle : State
  next : State
  split : actions = before ++ action :: after
  first : ∀ earlier ∈ before, ¬ exits earlier
  ran : system.exec state before = some middle
  here : stays middle
  exit : exits action
  permitted : permits middle action
  taken : system.step middle action = some next
  rest : system.exec next after = some last
  later : system.Permitted permits next after

theorem System.stays_or_leaves (system : System State Action)
    {permits : State → Action → Prop} (stays : State → Prop) (exits : Action → Prop)
    (kept : ∀ state action next, stays state → ¬ exits action →
      system.step state action = some next → stays next)
    {state last : State} {actions : List Action} (start : stays state)
    (permitted : system.Permitted permits state actions)
    (ran : system.exec state actions = some last) :
    (stays last ∧ ∀ action ∈ actions, ¬ exits action) ∨
      Nonempty (system.Leaves permits stays exits state actions last) := by
  induction actions generalizing state with
  | nil =>
      have same : state = last := Option.some.inj ran
      rw [← same]
      exact Or.inl ⟨start, fun action member => by cases member⟩
  | cons action rest ih =>
      obtain ⟨next, taken, later⟩ := System.exec_cons ran
      by_cases exit : exits action
      · exact Or.inr ⟨⟨[], action, rest, state, next, rfl, (fun _ member => by cases member), rfl,
          start, exit, permitted.1, taken, later, permitted.2 next taken⟩⟩
      · rcases ih (kept state action next start exit taken) (permitted.2 next taken) later
          with ⟨still, none⟩ | found
        · refine Or.inl ⟨still, ?_⟩
          intro other member
          rcases List.mem_cons.mp member with same | tail
          · rw [same]
            exact exit
          · exact none other tail
        · obtain ⟨leaves⟩ := found
          refine Or.inr ⟨⟨action :: leaves.before, leaves.action, leaves.after, leaves.middle,
            leaves.next, ?_, ?_, ?_, leaves.here, leaves.exit, leaves.permitted, leaves.taken,
            leaves.rest, leaves.later⟩⟩
          · exact congrArg (List.cons action) leaves.split
          · intro earlier member
            rcases List.mem_cons.mp member with same | tail
            · rw [same]
              exact exit
            · exact leaves.first earlier tail
          · rw [System.exec, taken]
            exact leaves.ran

/-- The goal is reached on every path: it holds already, or some step is
possible and every possible step leads to where it is inevitable. -/
inductive Inevitable (next : State → State → Prop) (goal : State → Prop) : State → Prop
  | now (state : State) (reached : goal state) : Inevitable next goal state
  | later (state : State) (live : ∃ after, next state after)
      (all : ∀ after, next state after → Inevitable next goal after) :
      Inevitable next goal state

/-- A condition that every step keeps, and under which a goal not yet reached has a
step before it and every step brings it nearer. -/
theorem Inevitable.of_rank {next : State → State → Prop} {goal holds : State → Prop}
    {Rank : Type v} {less : Rank → Rank → Prop} (grounded : WellFounded less)
    (rank : State → Rank)
    (live : ∀ state, holds state → ¬ goal state → ∃ after, next state after)
    (nearer : ∀ state after, holds state → ¬ goal state → next state after →
      holds after ∧ less (rank after) (rank state))
    {state : State} (start : holds state) : Inevitable next goal state := by
  generalize measured : rank state = bound
  induction bound using grounded.induction generalizing state with
  | h bound ih =>
      subst measured
      by_cases reached : goal state
      · exact .now state reached
      · refine .later state (live state start reached) ?_
        intro after moved
        obtain ⟨kept, below⟩ := nearer state after start reached moved
        exact ih (rank after) below kept rfl

/-- A set of states that misses the goal and that some step keeps, or in which
nothing can move, is left by no argument for inevitability. -/
theorem Inevitable.escapes {next : State → State → Prop} {goal : State → Prop}
    (trap : State → Prop) (misses : ∀ state, trap state → ¬ goal state)
    (kept : ∀ state, trap state → ∀ after, next state after →
      ∃ stay, next state stay ∧ trap stay)
    {state : State} (sure : Inevitable next goal state) : ¬ trap state := by
  induction sure with
  | now state reached => exact fun trapped => misses state trapped reached
  | later state live _all ih =>
      intro trapped
      obtain ⟨after, moved⟩ := live
      obtain ⟨stay, moved, trapped⟩ := kept state trapped after moved
      exact ih stay moved trapped

end Yaay.Transition
