import Yaay.Fair
import Yaay.Tally

set_option autoImplicit false

/-! A line in a transition system: what waits in it leaves at its head, one at a time, and
newcomers join at either end. Who joins at the end never overtakes; who joins at the head does. -/

namespace Yaay.Transition

universe u v w

variable {State : Type u} {Action : Type v} {Item : Type w} {system : System State Action}
  {line : State → List Item} {leaves joins : State → Action → Nat}

/-- `leaves` is one where the step takes the head, `joins` how many the step puts before it. -/
structure Line (system : System State Action) (line : State → List Item)
    (leaves joins : State → Action → Nat) : Prop where
  moves : ∀ state action next, system.step state action = some next →
    ∃ front back, line next = front ++ (line state).drop (leaves state action) ++ back ∧
      front.length = joins state action
  single : ∀ state action next, system.step state action = some next →
    leaves state action = 0 ∨ (leaves state action = 1 ∧ joins state action = 0)

/-- The step of the run that takes the item, when all that was before it has left. -/
structure Taken (system : System State Action) (line : State → List Item)
    (leaves joins : State → Action → Nat) (place : Nat) (item : Item) (state : State)
    (actions : List Action) (before : List Action) (middle next : State) (action : Action) :
    Prop where
  part : ∃ after, actions = before ++ action :: after
  ran : system.exec state before = some middle
  taken : system.step middle action = some next
  turn : system.tally leaves state before = place + system.tally joins state before
  head : (line middle)[0]? = some item
  leaves : leaves middle action = 1

/-- An item that waits behind so many others is overtaken by those that join before it, and by
no others: either it still waits, behind those that have not left, or it was taken when the
last of them had. -/
theorem Line.waits (lined : Line system line leaves joins) {item : Item} {state last : State}
    {actions : List Action} {place : Nat} (here : (line state)[place]? = some item)
    (ran : system.exec state actions = some last) :
    (∃ left, system.tally leaves state actions + left =
        place + system.tally joins state actions ∧ (line last)[left]? = some item) ∨
      ∃ before middle next action,
        Taken system line leaves joins place item state actions before middle next action := by
  induction actions generalizing state place with
  | nil =>
      have same : state = last := Option.some.inj ran
      rw [← same]
      exact Or.inl ⟨place, Nat.zero_add place, here⟩
  | cons action rest ih =>
      obtain ⟨next, taken, later⟩ := System.exec_cons ran
      have prefixed (before : List Action) (amount : State → Action → Nat) :
          system.tally amount state (action :: before) =
            amount state action + system.tally amount next before :=
        System.tally_cons before taken
      have goesOn {now : Nat} (there : (line next)[now]? = some item)
          (moved : leaves state action + now = place + joins state action) :
          (∃ left, system.tally leaves state (action :: rest) + left =
              place + system.tally joins state (action :: rest) ∧
              (line last)[left]? = some item) ∨
            ∃ before middle next action', Taken system line leaves joins place item state
              (action :: rest) before middle next action' := by
        rcases ih there later with ⟨left, count, waiting⟩ | ⟨before, middle, after, other, found⟩
        · refine Or.inl ⟨left, ?_, waiting⟩
          rw [prefixed, prefixed]
          omega
        · obtain ⟨tail, split⟩ := found.part
          refine Or.inr ⟨action :: before, middle, after, other, ⟨⟨tail, ?_⟩, ?_, found.taken, ?_,
            found.head, found.leaves⟩⟩
          · rw [split]
            rfl
          · rw [System.exec, taken]
            exact found.ran
          · have turn := found.turn
            rw [prefixed, prefixed]
            omega
      obtain ⟨front, back, moved, length⟩ := lined.moves state action next taken
      have inside : place < (line state).length := (List.getElem?_eq_some_iff.mp here).1
      rcases lined.single state action next taken with stays | ⟨one, none⟩
      · have there : (line next)[front.length + place]? = some item := by
          rw [moved, stays, List.drop_zero, List.append_assoc,
            List.getElem?_append_right (Nat.le_add_right _ _), Nat.add_sub_cancel_left,
            List.getElem?_append_left inside]
          exact here
        exact goesOn there (by omega)
      · cases place with
        | zero =>
            exact Or.inr ⟨[], state, next, action, ⟨⟨rest, rfl⟩, rfl, taken, rfl, here, one⟩⟩
        | succ ahead =>
            have empty : front = [] := List.length_eq_zero_iff.mp (length.trans none)
            have there : (line next)[ahead]? = some item := by
              rw [moved, one, empty, List.nil_append, List.getElem?_append_left]
              · rw [List.getElem?_drop, Nat.add_comm]
                exact here
              · rw [List.length_drop]
                omega
            exact goesOn there (by omega)

theorem System.Run.tally_unbounded {run : system.Run} {start : Nat}
    {amount : State → Action → Nat}
    (again : ∀ time, start ≤ time → ∃ later, time ≤ later ∧
      ∃ action, run.action later = some action ∧ 0 < amount (run.state later) action)
    (total : Nat) :
    ∃ count, total ≤ system.tally amount (run.state start) (run.stretch start count) := by
  induction total with
  | zero => exact ⟨0, Nat.zero_le _⟩
  | succ total ih =>
      obtain ⟨count, enough⟩ := ih
      obtain ⟨later, order, action, acts, positive⟩ := again (start + count) (Nat.le_add_right ..)
      obtain ⟨between, rfl⟩ := Nat.exists_eq_add_of_le order
      refine ⟨count + (between + 1), ?_⟩
      have one : run.stretch (start + count + between) 1 = [action] := by
        rw [stretch, acts]
        rfl
      have last : system.tally amount (run.state (start + count + between)) [action] =
          amount (run.state (start + count + between)) action :=
        (System.tally_cons [] (moves acts)).trans (Nat.add_zero _)
      rw [stretch_add, System.tally_append _ (exec_stretch start count), stretch_add, one,
        System.tally_append _ (exec_stretch (start + count) between), last]
      omega

/-- Where the head is taken again and again as long as the line is not empty, and finitely many
join before it, everyone is served. -/
theorem Line.serves (lined : Line system line leaves joins) {run : system.Run}
    {item : Item} {start place bound : Nat} (here : (line (run.state start))[place]? = some item)
    (again : ∀ time, start ≤ time → line (run.state time) ≠ [] → ∃ later, time ≤ later ∧
      ∃ action, run.action later = some action ∧ leaves (run.state later) action = 1)
    (few : ∀ count, system.tally joins (run.state start) (run.stretch start count) ≤ bound) :
    ∃ count before middle next action, Taken system line leaves joins place item
      (run.state start) (run.stretch start count) before middle next action := by
  by_contra never
  have waits (count : Nat) : ∃ left,
      system.tally leaves (run.state start) (run.stretch start count) + left =
          place + system.tally joins (run.state start) (run.stretch start count) ∧
        (line (run.state (start + count)))[left]? = some item := by
    rcases lined.waits here (System.Run.exec_stretch start count) with
      waiting | ⟨before, middle, next, action, found⟩
    · exact waiting
    · exact absurd ⟨count, before, middle, next, action, found⟩ never
  have taken (time : Nat) (later : start ≤ time) : ∃ later, time ≤ later ∧
      ∃ action, run.action later = some action ∧ 0 < leaves (run.state later) action := by
    obtain ⟨count, rfl⟩ := Nat.exists_eq_add_of_le later
    obtain ⟨left, _count, waiting⟩ := waits count
    have queued : line (run.state (start + count)) ≠ [] := by
      intro empty
      rw [empty] at waiting
      cases waiting
    obtain ⟨late, order, action, acts, one⟩ := again _ later queued
    exact ⟨late, order, action, acts, by omega⟩
  obtain ⟨count, enough⟩ := System.Run.tally_unbounded taken (place + bound + 1)
  obtain ⟨left, balance, _waiting⟩ := waits count
  have bounded := few count
  omega

end Yaay.Transition
