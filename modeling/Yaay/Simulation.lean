import Mathlib.Data.List.Basic
import Mathlib.Tactic.Simps.Basic
import Yaay.Machine
import Yaay.Transition

set_option autoImplicit false

/-! Forward simulation between transition systems whose steps show events, and two systems
to be simulated: a family of machines of which each step moves one, and the atomic object, on
which threads call the operations of a machine and each call takes effect at one point before
it returns. What simulates an atomic object is linearizable. -/

namespace Yaay.Transition

universe u v

variable {Low High : Type u} {Move Act Event : Type v}
  {low : System Low Move} {high : System High Act} {sees : Low → Move → Option Event}
  {shows : Act → Option Event} {related : Low → High → Prop}

def System.trace (system : System Low Move) (sees : Low → Move → Option Event) :
    Low → List Move → List Event
  | _, [] => []
  | state, move :: rest =>
      match system.step state move with
      | none => []
      | some next => (sees state move).toList ++ system.trace sees next rest

theorem System.trace_cons {state next : Low} {move : Move} (rest : List Move)
    (taken : low.step state move = some next) :
    low.trace sees state (move :: rest) =
      (sees state move).toList ++ low.trace sees next rest := by
  rw [System.trace, taken]

theorem System.trace_of_moves {shown : Move → Option Event} {state last : Low}
    {moves : List Move} (ran : low.exec state moves = some last) :
    low.trace (fun _ => shown) state moves = moves.filterMap shown := by
  induction moves generalizing state with
  | nil => rfl
  | cons move rest ih =>
      obtain ⟨next, taken, later⟩ := System.exec_cons ran
      rw [System.trace_cons rest taken, ih later]
      cases seen : shown move with
      | none => rw [List.filterMap_cons_none seen, Option.toList, List.nil_append]
      | some event => rw [List.filterMap_cons_some seen, Option.toList, List.singleton_append]

theorem System.exec_append {state middle last : High} {before after : List Act}
    (first : high.exec state before = some middle) (later : high.exec middle after = some last) :
    high.exec state (before ++ after) = some last := by
  induction before generalizing state with
  | nil =>
      have same : state = middle := Option.some.inj first
      rw [List.nil_append, same]
      exact later
  | cons act rest ih =>
      obtain ⟨next, taken, ran⟩ := System.exec_cons first
      rw [List.cons_append, System.exec, taken]
      exact ih ran

/-- Each step below is a run above that shows the same events. -/
structure Simulation (low : System Low Move) (high : System High Act)
    (sees : Low → Move → Option Event) (shows : Act → Option Event)
    (related : Low → High → Prop) : Prop where
  start : ∀ state, low.initial state → ∃ above, high.initial above ∧ related state above
  follow : ∀ state above move next, related state above → low.step state move = some next →
    ∃ run after, high.exec above run = some after ∧
      run.filterMap shows = (sees state move).toList ∧ related next after

theorem Simulation.exec (simulation : Simulation low high sees shows related)
    {state last : Low} {above : High} {moves : List Move} (here : related state above)
    (ran : low.exec state moves = some last) :
    ∃ run after, high.exec above run = some after ∧
      run.filterMap shows = low.trace sees state moves ∧ related last after := by
  induction moves generalizing state above with
  | nil =>
      have same : state = last := Option.some.inj ran
      rw [← same]
      exact ⟨[], above, rfl, rfl, here⟩
  | cons move rest ih =>
      obtain ⟨next, taken, later⟩ := System.exec_cons ran
      obtain ⟨before, middle, first, shown, between⟩ :=
        simulation.follow state above move next here taken
      obtain ⟨after, final, second, history, there⟩ := ih between later
      refine ⟨before ++ after, final, System.exec_append first second, ?_, there⟩
      rw [List.filterMap_append, shown, history, System.trace_cons rest taken]

theorem Simulation.reachable (simulation : Simulation low high sees shows related)
    {state : Low} (reached : low.Reachable anyAction state) :
    ∃ above, related state above := by
  refine reached.invariant (fun state => ∃ above, related state above) ?_ ?_
  · intro state start
    obtain ⟨above, _initial, here⟩ := simulation.start state start
    exact ⟨above, here⟩
  · intro state next move _reached here _permitted taken
    obtain ⟨above, here⟩ := here
    obtain ⟨_run, after, _ran, _shown, there⟩ := simulation.follow state above move next here taken
    exact ⟨after, there⟩

variable {Name : Type v} [DecidableEq Name] {one : System High Act}

/-- One machine for each name; a step is one of one of them. -/
def System.family (one : System High Act) : System (Name → High) (Name × Act) :=
  { initial := fun states => ∀ name, one.initial (states name)
    step := fun states (name, act) =>
      (one.step (states name) act).map (Function.update states name) }

theorem System.exec_family {states : Name → High} {name : Name} {run : List Act} {last : High}
    (ran : one.exec (states name) run = some last) :
    one.family.exec states (run.map (name, ·)) = some (Function.update states name last) := by
  induction run generalizing states with
  | nil =>
      have same : states name = last := Option.some.inj ran
      rw [← same, Function.update_eq_self]
      rfl
  | cons act rest ih =>
      obtain ⟨next, taken, later⟩ := System.exec_cons ran
      have after : one.exec (Function.update states name next name) rest = some last := by
        rw [Function.update_self]
        exact later
      have moved : one.family.step states (name, act) =
          some (Function.update states name next) :=
        Option.map_eq_some_iff.mpr ⟨next, taken, rfl⟩
      rw [List.map_cons, System.exec, moved, ← Function.update_idem next last states]
      exact ih after

def ofName (name : Name) (step : Name × Act) : Option Act :=
  if step.1 = name then some step.2 else none

theorem ofName_own (name : Name) (act : Act) : ofName name (name, act) = some act := if_pos rfl

theorem ofName_other {name other : Name} (different : other ≠ name) (act : Act) :
    ofName name (other, act) = none := if_neg different

theorem System.exec_ofName {states last : Name → High} {run : List (Name × Act)}
    (ran : one.family.exec states run = some last) (name : Name) :
    one.exec (states name) (run.filterMap (ofName name)) = some (last name) := by
  induction run generalizing states with
  | nil =>
      have same : states = last := Option.some.inj ran
      rw [same]
      rfl
  | cons step rest ih =>
      obtain ⟨next, taken, later⟩ := System.exec_cons ran
      obtain ⟨other, act⟩ := step
      obtain ⟨moved, taken, same⟩ := Option.map_eq_some_iff.mp taken
      have after := ih later
      rw [← same] at after
      by_cases here : other = name
      · subst here
        rw [Function.update_self] at after
        rw [List.filterMap_cons_some (ofName_own other act), System.exec, taken]
        exact after
      · rw [Function.update_of_ne (Ne.symm here)] at after
        rw [List.filterMap_cons_none (ofName_other here act)]
        exact after

end Yaay.Transition

namespace Yaay.Atomic

open Transition

universe u v

inductive Phase (Op Reply : Type v)
  | idle
  | called (op : Op)
  | answered (reply : Reply)
  deriving DecidableEq

structure Object (Thread : Type v) (State : Type u) (Op Reply : Type v) where
  shared : State
  phase : Thread → Phase Op Reply

inductive Action (Thread Op Reply : Type v)
  | call (thread : Thread) (op : Op)
  | effect (thread : Thread) (op : Op) (reply : Reply)
  | ret (thread : Thread) (reply : Reply)

variable {Thread Op Reply : Type v} {State : Type u} [DecidableEq Thread] [DecidableEq Op]
  [DecidableEq Reply]

def Object.enter (object : Object Thread State Op Reply) (thread : Thread)
    (phase : Phase Op Reply) : Object Thread State Op Reply :=
  { object with phase := Function.update object.phase thread phase }

def step (machine : Machine State Op Reply) (object : Object Thread State Op Reply) :
    Action Thread Op Reply → Option (Object Thread State Op Reply)
  | .call thread op =>
      if object.phase thread = .idle then some (object.enter thread (.called op)) else none
  | .effect thread op reply =>
      if object.phase thread = .called op then
        (machine.step object.shared op).bind (fun (answer, next) =>
          if answer = reply then
            some { object.enter thread (.answered reply) with shared := next }
          else none)
      else none
  | .ret thread reply =>
      if object.phase thread = .answered reply then some (object.enter thread .idle) else none

def system (machine : Machine State Op Reply) (start : State) :
    System (Object Thread State Op Reply) (Action Thread Op Reply) :=
  { initial := fun object => object = { shared := start, phase := fun _ => .idle }
    step := step machine }

/-- The operations of a run in the order in which they take effect. -/
def Action.effect? : Action Thread Op Reply → Option (Thread × Op × Reply)
  | .effect thread op reply => some (thread, op, reply)
  | _ => none

variable {machine : Machine State Op Reply} {start : State}
  {object last : Object Thread State Op Reply}

theorem step_call {thread : Thread} (op : Op) (here : object.phase thread = .idle) :
    step machine object (.call thread op) = some (object.enter thread (.called op)) :=
  if_pos here

theorem step_effect {thread : Thread} {op : Op} {reply : Reply} {next : State}
    (here : object.phase thread = .called op)
    (answers : machine.step object.shared op = some (reply, next)) :
    step machine object (.effect thread op reply) =
      some { object.enter thread (.answered reply) with shared := next } := by
  simp only [step, if_pos here, answers, Option.bind_some, if_pos]

theorem step_ret {thread : Thread} {reply : Reply} (here : object.phase thread = .answered reply) :
    step machine object (.ret thread reply) = some (object.enter thread .idle) :=
  if_pos here

theorem exec_single {action : Action Thread Op Reply}
    (taken : step machine object action = some last) :
    (system machine start).exec object [action] = some last :=
  Option.bind_eq_some_iff.mpr ⟨last, taken, rfl⟩

/-- The effects of a run are one sequential run of the machine, with the same replies. -/
theorem effects_run {run : List (Action Thread Op Reply)}
    (ran : (system machine start).exec object run = some last) :
    machine.run object.shared ((run.filterMap Action.effect?).map (fun effect => effect.2.1)) =
      some ((run.filterMap Action.effect?).map (fun effect => effect.2.2), last.shared) := by
  induction run generalizing object with
  | nil =>
      have same : object = last := Option.some.inj ran
      rw [same]
      rfl
  | cons action rest ih =>
      obtain ⟨next, taken, later⟩ := System.exec_cons ran
      have after := ih later
      cases action with
      | call thread op =>
          obtain ⟨_idle, moved⟩ := Option.ite_none_right_eq_some.mp taken
          cases moved
          exact after
      | ret thread reply =>
          obtain ⟨_answered, moved⟩ := Option.ite_none_right_eq_some.mp taken
          cases moved
          exact after
      | effect thread op reply =>
          obtain ⟨_called, moved⟩ := Option.ite_none_right_eq_some.mp taken
          obtain ⟨⟨answer, state⟩, answers, moved⟩ := Option.bind_eq_some_iff.mp moved
          obtain ⟨same, moved⟩ := Option.ite_none_right_eq_some.mp moved
          cases moved
          rw [same] at answers
          exact Machine.run_cons answers after

end Yaay.Atomic
