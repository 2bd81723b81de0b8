import Mathlib.Algebra.BigOperators.Group.Finset.Basic
import Yaay.Transition

set_option autoImplicit false

/-! Amounts summed along a run, each step's read off the state it is taken in, and
the two rules that relate such sums to a stock which the states hold: one for a stock that is
kept exactly, one for a potential. -/

namespace Yaay.Transition

universe u v w

variable {State : Type u} {Action : Type v} {Amount : Type w} {system : System State Action}

section Sums

variable [AddCommMonoid Amount]

def System.tally (system : System State Action) (amount : State → Action → Amount) :
    State → List Action → Amount
  | _, [] => 0
  | state, action :: rest =>
      match system.step state action with
      | none => 0
      | some next => amount state action + system.tally amount next rest

@[simp] theorem System.tally_nil (amount : State → Action → Amount) (state : State) :
    system.tally amount state [] = 0 := rfl

theorem System.tally_cons {amount : State → Action → Amount} {state next : State}
    {action : Action} (rest : List Action) (taken : system.step state action = some next) :
    system.tally amount state (action :: rest) =
      amount state action + system.tally amount next rest := by
  rw [System.tally, taken]

theorem System.tally_append {amount : State → Action → Amount} {state middle : State}
    {before : List Action} (after : List Action)
    (ran : system.exec state before = some middle) :
    system.tally amount state (before ++ after) =
      system.tally amount state before + system.tally amount middle after := by
  induction before generalizing state with
  | nil =>
      have same : state = middle := Option.some.inj ran
      rw [same, tally_nil, zero_add]
      rfl
  | cons action rest ih =>
      obtain ⟨next, taken, later⟩ := System.exec_cons ran
      rw [List.cons_append, tally_cons _ taken, tally_cons _ taken, ih later, add_assoc]

theorem System.tally_eq_zero {amount : State → Action → Amount} {actions : List Action}
    (none : ∀ action ∈ actions, ∀ state, amount state action = 0) (state : State) :
    system.tally amount state actions = 0 := by
  induction actions generalizing state with
  | nil => rfl
  | cons action rest ih =>
      rw [System.tally]
      split
      · rfl
      · rw [none action List.mem_cons_self, zero_add]
        exact ih (fun other later => none other (List.mem_cons_of_mem _ later)) _

/-- What a run has spent and what is left is what it began with and what it earned. -/
theorem System.tally_eq (system : System State Action) (holds : State → Prop)
    (stock : State → Amount) (spent earned : State → Action → Amount)
    (kept : ∀ state action next, holds state → system.step state action = some next →
      holds next)
    (balance : ∀ state action next, holds state → system.step state action = some next →
      stock next + spent state action = stock state + earned state action)
    {state last : State} {actions : List Action} (start : holds state)
    (ran : system.exec state actions = some last) :
    stock last + system.tally spent state actions =
      stock state + system.tally earned state actions := by
  induction actions generalizing state with
  | nil =>
      have same : state = last := Option.some.inj ran
      rw [same, tally_nil, tally_nil]
  | cons action rest ih =>
      obtain ⟨next, taken, later⟩ := System.exec_cons ran
      have after := ih (kept state action next start taken) later
      rw [tally_cons rest taken, tally_cons rest taken]
      calc stock last + (spent state action + system.tally spent next rest)
          = (stock last + system.tally spent next rest) + spent state action := by
            rw [add_comm (spent state action), add_assoc]
        _ = (stock next + spent state action) + system.tally earned next rest := by
            rw [after, add_right_comm]
        _ = stock state + (earned state action + system.tally earned next rest) := by
            rw [balance state action next start taken, add_assoc]

theorem sum_update {Place : Type u} {Value : Type v} [Fintype Place] [DecidableEq Place]
    (measure : Value → Amount) (values : Place → Value) (place : Place) (value : Value) :
    ∑ other, measure (Function.update values place value other) + measure (values place) =
      ∑ other, measure (values other) + measure value := by
  have rest : ∑ other ∈ Finset.univ.erase place,
        measure (Function.update values place value other) =
      ∑ other ∈ Finset.univ.erase place, measure (values other) := by
    refine Finset.sum_congr rfl ?_
    intro other member
    rw [Function.update_of_ne (Finset.ne_of_mem_erase member)]
  rw [← Finset.add_sum_erase Finset.univ _ (Finset.mem_univ place), rest,
    ← Finset.add_sum_erase Finset.univ (fun other => measure (values other))
      (Finset.mem_univ place), Function.update_self]
  rw [add_right_comm, add_comm (measure value), add_right_comm]

end Sums

theorem System.tally_countP (kind : Action → Bool) {state last : State} {actions : List Action}
    (ran : system.exec state actions = some last) :
    system.tally (fun _ action => if kind action then 1 else 0) state actions =
      actions.countP kind := by
  induction actions generalizing state with
  | nil => rfl
  | cons action rest ih =>
      obtain ⟨next, taken, later⟩ := System.exec_cons ran
      rw [tally_cons rest taken, ih later, List.countP_cons, Nat.add_comm]

/-- A potential pays for what a run spends beyond what it earns. -/
theorem System.tally_le (system : System State Action) (holds : State → Prop)
    (stock : State → Nat) (spent earned : State → Action → Nat)
    (kept : ∀ state action next, holds state → system.step state action = some next →
      holds next)
    (pays : ∀ state action next, holds state → system.step state action = some next →
      stock next + spent state action ≤ stock state + earned state action)
    {state last : State} {actions : List Action} (start : holds state)
    (ran : system.exec state actions = some last) :
    stock last + system.tally spent state actions ≤
      stock state + system.tally earned state actions := by
  induction actions generalizing state with
  | nil =>
      have same : state = last := Option.some.inj ran
      rw [same, tally_nil, tally_nil]
  | cons action rest ih =>
      obtain ⟨next, taken, later⟩ := System.exec_cons ran
      have after := ih (kept state action next start taken) later
      have step := pays state action next start taken
      rw [tally_cons rest taken, tally_cons rest taken]
      omega

end Yaay.Transition
