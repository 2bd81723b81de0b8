import Mathlib.Logic.Basic

set_option autoImplicit false

/-! Deterministic machines that answer every operation, and data refinement between two
of them: related states answer legal operations alike and stay related. -/

namespace Yaay

universe u v w

structure Machine (State : Type u) (Op : Type v) (Reply : Type w) where
  step : State → Op → Option (Reply × State)

namespace Machine

variable {State : Type u} {Op : Type v} {Reply : Type w}

/-- The replies to a sequence of operations, and the last state. -/
def run (machine : Machine State Op Reply) : State → List Op → Option (List Reply × State)
  | state, [] => some ([], state)
  | state, op :: rest =>
      (machine.step state op).bind (fun (reply, next) =>
        (machine.run next rest).map (fun (replies, last) => (reply :: replies, last)))

def Legal (machine : Machine State Op Reply) (legal : State → Op → Prop) :
    State → List Op → Prop
  | _, [] => True
  | state, op :: rest =>
      legal state op ∧
        match machine.step state op with
        | none => True
        | some (_, next) => machine.Legal legal next rest

instance decidableLegal (machine : Machine State Op Reply) (legal : State → Op → Prop)
    [decision : ∀ state op, Decidable (legal state op)] :
    ∀ state ops, Decidable (machine.Legal legal state ops)
  | _, [] => isTrue trivial
  | state, op :: rest =>
      have : Decidable (match machine.step state op with
          | none => True
          | some (_, next) => machine.Legal legal next rest) :=
        match machine.step state op with
        | none => isTrue trivial
        | some (_, next) => decidableLegal machine legal next rest
      @instDecidableAnd _ _ (decision state op) this

theorem run_cons {machine : Machine State Op Reply} {state next last : State} {op : Op}
    {reply : Reply} {replies : List Reply} {rest : List Op}
    (taken : machine.step state op = some (reply, next))
    (ran : machine.run next rest = some (replies, last)) :
    machine.run state (op :: rest) = some (reply :: replies, last) := by
  simp only [run, taken, Option.bind_some, ran, Option.map_some]

/-- Legal operations are answered by both machines, with the same replies. -/
theorem refines {Concrete : Type u} {concrete : Machine Concrete Op Reply}
    {abstract : Machine State Op Reply} {legal : State → Op → Prop}
    (represents : Concrete → State → Prop)
    (answers : ∀ c s op, represents c s → legal s op → ∃ reply c' s',
      abstract.step s op = some (reply, s') ∧ concrete.step c op = some (reply, c') ∧
        represents c' s')
    {ops : List Op} :
    ∀ {c : Concrete} {s : State}, represents c s → abstract.Legal legal s ops →
      ∃ replies c' s', abstract.run s ops = some (replies, s') ∧
        concrete.run c ops = some (replies, c') ∧ represents c' s' := by
  induction ops with
  | nil =>
      intro c s related _legal
      exact ⟨[], c, s, rfl, rfl, related⟩
  | cons op rest ih =>
      intro c s related allowed
      obtain ⟨reply, middle, between, above, below, kept⟩ := answers c s op related allowed.1
      have later := allowed.2
      rw [above] at later
      obtain ⟨replies, last, final, highs, lows, ends⟩ := ih kept later
      exact ⟨reply :: replies, last, final, run_cons above highs, run_cons below lows, ends⟩

end Machine

end Yaay
