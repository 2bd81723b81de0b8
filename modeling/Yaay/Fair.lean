import Mathlib.Order.Filter.AtTopBot.Basic
import Mathlib.Order.Filter.Finite
import Yaay.Transition

set_option autoImplicit false

/-! Endless runs and weak fairness: an agent that can act from some time on does act. What
every step keeps holds for good, an amount that no step raises settles, and a rank that an
agent's own steps lower while nobody raises it comes down to zero. -/

namespace Yaay.Transition

universe u v

variable {State : Type u} {Action : Type v} {system : System State Action}

def System.advance (system : System State Action) (state : State) : Option Action → Option State
  | none => some state
  | some action => system.step state action

/-- An endless run, in which nobody may take a step for a while or for ever. -/
structure System.Run (system : System State Action) where
  state : Nat → State
  action : Nat → Option Action
  goes : ∀ time, system.advance (state time) (action time) = some (state (time + 1))

namespace System.Run

variable (run : system.Run) {start : Nat}

/-- The agent with these actions acts again and again, or is excused again and again. -/
def Diligent (mine : Action → Prop) (excused : State → Prop) : Prop :=
  ∀ start, ∃ time, start ≤ time ∧
    ((∃ action, mine action ∧ run.action time = some action) ∨ excused (run.state time))

/-- Who cannot act is excused. -/
def Fair (mine : Action → Prop) : Prop :=
  run.Diligent mine (fun state => ∀ action, mine action → system.step state action = none)

variable {run}

theorem moves {time : Nat} {action : Action} (acts : run.action time = some action) :
    system.step (run.state time) action = some (run.state (time + 1)) := by
  have goes := run.goes time
  rw [acts] at goes
  exact goes

theorem stays {time : Nat} (idle : run.action time = none) :
    run.state (time + 1) = run.state time := by
  have goes := run.goes time
  rw [idle] at goes
  exact (Option.some.inj goes).symm

theorem always (holds : State → Prop) (now : holds (run.state start))
    (kept : ∀ time, start ≤ time → ∀ action, run.action time = some action →
      holds (run.state time) → holds (run.state (time + 1)))
    {time : Nat} (later : start ≤ time) : holds (run.state time) := by
  induction time, later using Nat.le_induction with
  | base => exact now
  | succ time later ih =>
      cases acts : run.action time with
      | none =>
          rw [stays acts]
          exact ih
      | some action => exact kept time later action acts ih

theorem reachable {permits : State → Action → Prop}
    (reached : system.Reachable permits (run.state 0))
    (permitted : ∀ time action, run.action time = some action → permits (run.state time) action)
    (time : Nat) : system.Reachable permits (run.state time) := by
  apply always (system.Reachable permits) reached _ (Nat.zero_le time)
  intro time _later action acts earlier
  exact .step _ _ action earlier (permitted time action acts) (moves acts)

theorem settles (amount : State → Nat)
    (less : ∀ time, start ≤ time → ∀ action, run.action time = some action →
      amount (run.state (time + 1)) ≤ amount (run.state time)) :
    ∃ calm, start ≤ calm ∧ ∀ time, calm ≤ time →
      amount (run.state time) = amount (run.state calm) := by
  have grounded := (measure (fun time => amount (run.state time))).wf
  obtain ⟨calm, after, least⟩ := grounded.has_min (Set.Ici start) ⟨start, Nat.le_refl start⟩
  refine ⟨calm, after, ?_⟩
  intro time later
  have above : amount (run.state calm) ≤ amount (run.state time) :=
    Nat.le_of_not_lt (least time (Nat.le_trans after later))
  have below : amount (run.state time) ≤ amount (run.state calm) := by
    refine always (fun state => amount state ≤ amount (run.state calm)) (Nat.le_refl _) ?_ later
    intro between later action acts bound
    exact Nat.le_trans (less between (Nat.le_trans after later) action acts) bound
  exact Nat.le_antisymm below above

theorem stalls {mine : Action → Prop} {excused : State → Prop}
    (diligent : run.Diligent mine excused) (amount : State → Nat)
    (less : ∀ time, start ≤ time → ∀ action, run.action time = some action →
      amount (run.state (time + 1)) ≤ amount (run.state time) ∧
        (mine action → amount (run.state (time + 1)) < amount (run.state time))) :
    ∃ calm, start ≤ calm ∧
      (∀ time, calm ≤ time → amount (run.state time) = amount (run.state calm)) ∧
      ∀ time, calm ≤ time → ∃ later, time ≤ later ∧ excused (run.state later) := by
  obtain ⟨calm, after, same⟩ := settles amount (fun time later action acts =>
    (less time later action acts).1)
  refine ⟨calm, after, same, ?_⟩
  intro time order
  obtain ⟨later, further, acted | unable⟩ := diligent time
  · obtain ⟨action, own, acts⟩ := acted
    have beyond := Nat.le_trans order further
    have lower := (less later (Nat.le_trans after beyond) action acts).2 own
    rw [same later beyond, same (later + 1) (Nat.le_succ_of_le beyond)] at lower
    exact absurd lower (Nat.lt_irrefl _)
  · exact ⟨later, further, unable⟩

/-- An agent that has no excuse as long as it does not act does act. -/
theorem turn {mine : Action → Prop} {excused : State → Prop}
    (diligent : run.Diligent mine excused) (holds : State → Prop)
    (now : holds (run.state start))
    (kept : ∀ time, start ≤ time → ∀ action, run.action time = some action → ¬ mine action →
      holds (run.state time) → holds (run.state (time + 1)))
    (able : ∀ time, start ≤ time → holds (run.state time) → ¬ excused (run.state time)) :
    ∃ time, start ≤ time ∧ holds (run.state time) ∧
      ∃ action, mine action ∧ run.action time = some action := by
  by_contra never
  have stays {time : Nat} (later : start ≤ time) : holds (run.state time) := by
    refine always holds now ?_ later
    intro between order action acts here
    exact kept between order action acts
      (fun own => never ⟨between, order, here, action, own, acts⟩) here
  obtain ⟨time, later, ⟨action, own, acts⟩ | unable⟩ := diligent start
  · exact never ⟨time, later, stays later, action, own, acts⟩
  · exact able time later (stays later) unable

/-- As long as its rank is not zero the agent can act, its steps lower the rank, and no step
raises it: the rank comes down to zero, for good. -/
theorem comes_down {mine : Action → Prop} (fair : run.Fair mine) (rank : State → Nat)
    (each : ∀ time, start ≤ time → ∀ action, run.action time = some action →
      rank (run.state (time + 1)) ≤ rank (run.state time) ∧
        (mine action → 0 < rank (run.state time) →
          rank (run.state (time + 1)) < rank (run.state time)))
    (able : ∀ time, start ≤ time → 0 < rank (run.state time) →
      ∃ action, mine action ∧ (system.step (run.state time) action).isSome = true) :
    ∀ᶠ time in Filter.atTop, rank (run.state time) = 0 := by
  rw [Filter.eventually_atTop]
  obtain ⟨calm, after, same⟩ := settles rank (fun time later action acts =>
    (each time later action acts).1)
  refine ⟨calm, ?_⟩
  have zero : rank (run.state calm) = 0 := by
    by_contra positive
    have above (time : Nat) (later : calm ≤ time) : 0 < rank (run.state time) := by
      rw [same time later]
      exact Nat.pos_of_ne_zero positive
    obtain ⟨still, order, _same, unable⟩ := stalls fair rank
      (fun time (later : calm ≤ time) action acts =>
        have one := each time (Nat.le_trans after later) action acts
        ⟨one.1, fun own => one.2 own (above time later)⟩)
    obtain ⟨time, further, never⟩ := unable still (Nat.le_refl still)
    have later := Nat.le_trans order further
    obtain ⟨action, own, possible⟩ := able time (Nat.le_trans after later) (above time later)
    rw [never action own] at possible
    cases possible
  intro time later
  rw [same time later, zero]

def stretch (run : system.Run) : Nat → Nat → List Action
  | _, 0 => []
  | start, count + 1 => (run.action start).toList ++ run.stretch (start + 1) count

theorem exec_stretch (start count : Nat) :
    system.exec (run.state start) (run.stretch start count) = some (run.state (start + count)) := by
  induction count generalizing start with
  | zero => rfl
  | succ count ih =>
      have rest := ih (start + 1)
      rw [Nat.add_right_comm] at rest
      cases acts : run.action start with
      | none =>
          rw [stretch, acts, ← stays acts]
          exact rest
      | some action =>
          rw [stretch, acts]
          change (system.step (run.state start) action).bind _ = _
          rw [moves acts]
          exact rest

theorem action_of_stretch {count : Nat} {action : Action}
    (member : action ∈ run.stretch start count) :
    ∃ time, start ≤ time ∧ run.action time = some action := by
  induction count generalizing start with
  | zero => cases member
  | succ count ih =>
      rcases List.mem_append.mp member with here | later
      · exact ⟨start, Nat.le_refl start, Option.mem_toList.mp here⟩
      · obtain ⟨time, order, acts⟩ := ih later
        exact ⟨time, Nat.le_of_succ_le order, acts⟩

theorem stretch_add (start first second : Nat) :
    run.stretch start (first + second) =
      run.stretch start first ++ run.stretch (start + first) second := by
  induction first generalizing start with
  | zero =>
      rw [Nat.zero_add]
      rfl
  | succ first ih =>
      rw [Nat.add_right_comm, stretch, stretch, ih (start + 1), List.append_assoc,
        Nat.add_right_comm start 1 first]
      rfl

end System.Run

def System.follow (system : System State Action) : State → List Action → Nat → State
  | state, [], _ => state
  | state, _ :: _, 0 => state
  | state, action :: rest, time + 1 =>
      match system.step state action with
      | some next => system.follow next rest time
      | none => state

theorem System.follow_zero (state : State) (actions : List Action) :
    system.follow state actions 0 = state := by
  cases actions <;> rfl

theorem System.follow_end {state last : State} {actions : List Action}
    (ran : system.exec state actions = some last) {time : Nat} (over_ : actions.length ≤ time) :
    system.follow state actions time = last := by
  induction actions generalizing state time with
  | nil => exact Option.some.inj ran
  | cons action rest ih =>
      obtain ⟨next, taken, later⟩ := System.exec_cons ran
      cases time with
      | zero => cases over_
      | succ time =>
          rw [System.follow, taken]
          exact ih later (Nat.le_of_succ_le_succ over_)

theorem System.follow_goes {state last : State} {actions : List Action}
    (ran : system.exec state actions = some last) (time : Nat) :
    system.advance (system.follow state actions time) actions[time]? =
      some (system.follow state actions (time + 1)) := by
  induction actions generalizing state time with
  | nil => rfl
  | cons action rest ih =>
      obtain ⟨next, taken, later⟩ := System.exec_cons ran
      cases time with
      | zero =>
          rw [System.follow, System.follow, taken]
          exact taken.trans (congrArg some (System.follow_zero next rest).symm)
      | succ time =>
          rw [System.follow, System.follow, taken]
          exact ih later time

def System.Run.replay {state last : State} {actions : List Action}
    (ran : system.exec state actions = some last) : system.Run where
  state := system.follow state actions
  action := fun time => actions[time]?
  goes := System.follow_goes ran

theorem System.Run.replay_permits {permits : State → Action → Prop} {state last : State}
    {actions : List Action} (ran : system.exec state actions = some last)
    (permitted : system.Permitted permits state actions) {time : Nat} {action : Action}
    (acts : (System.Run.replay ran).action time = some action) :
    permits ((System.Run.replay ran).state time) action := by
  change actions[time]? = some action at acts
  change permits (system.follow state actions time) action
  induction actions generalizing state time with
  | nil => cases acts
  | cons first rest ih =>
      obtain ⟨next, taken, later⟩ := System.exec_cons ran
      cases time with
      | zero =>
          cases acts
          exact permitted.1
      | succ time =>
          rw [System.follow, taken]
          exact ih later (permitted.2 next taken) acts

theorem System.Run.replay_holds (holds : State → Prop) {state last : State}
    {actions : List Action} (ran : system.exec state actions = some last)
    (along : system.Permitted (fun state _ => holds state) state actions) (ended : holds last)
    (time : Nat) : holds ((System.Run.replay ran).state time) := by
  cases acts : actions[time]? with
  | some action =>
      exact System.Run.replay_permits ran along acts
  | none =>
      have here : (System.Run.replay ran).state time = last :=
        System.follow_end ran (List.getElem?_eq_none_iff.mp acts)
      rw [here]
      exact ended

theorem System.Run.replay_fair {state last : State} {actions : List Action}
    (ran : system.exec state actions = some last) {mine : Action → Prop}
    (done : ∀ action, mine action → system.step last action = none) :
    (System.Run.replay ran).Fair mine := by
  intro start
  refine ⟨max start actions.length, Nat.le_max_left .., Or.inr ?_⟩
  intro action own
  have here : (System.Run.replay ran).state (max start actions.length) = last :=
    System.follow_end ran (Nat.le_max_right ..)
  rw [here]
  exact done action own

end Yaay.Transition
