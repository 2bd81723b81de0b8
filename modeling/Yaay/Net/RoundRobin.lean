import Mathlib.Data.Int.CardIntervalMod
import Yaay.Net.SlotOwnership
import Yaay.Tally

set_option autoImplicit false

/-! The counter of `GlobalData` deals the registrations out to the reactors in turn. It has 64
bits, and each time that it starts anew a reactor can come out one registration ahead. -/

namespace Yaay.Net.Reactor

open Yaay.Transition

variable {n : Nat} {s s' : State}

def falls (n size reactor ticket : Nat) : Prop := ticket % size % n = reactor

instance (n size reactor : Nat) : DecidablePred (falls n size reactor) :=
  fun _ => inferInstanceAs (Decidable (_ = _))

private theorem turns_within (positive : 0 < n) {size one other count : Nat} (first : one < n)
    (second : other < n) (fits : count ≤ size ∨ n ∣ size) :
    Nat.count (falls n size one) count ≤ Nat.count (falls n size other) count + 1 := by
  have same {reactor ticket : Nat} (inside : reactor < n) (before : ticket < count) :
      falls n size reactor ticket ↔ ticket ≡ reactor [MOD n] := by
    rw [falls, Nat.ModEq, Nat.mod_eq_of_lt inside]
    rcases fits with bound | divides
    · rw [Nat.mod_eq_of_lt (Nat.lt_of_lt_of_le before bound)]
    · rw [Nat.mod_mod_of_dvd ticket divides]
  have counts {reactor : Nat} (inside : reactor < n) :
      Nat.count (falls n size reactor) count = Nat.count (· ≡ reactor [MOD n]) count := by
    rw [Nat.count_eq_card_filter_range, Nat.count_eq_card_filter_range]
    refine congrArg Finset.card (Finset.filter_congr ?_)
    exact fun ticket member => same inside (Finset.mem_range.mp member)
  rw [counts first, counts second, Nat.count_modEq_card count positive,
    Nat.count_modEq_card count positive]
  split <;> split <;> omega

private theorem turns_add (n size reactor count : Nat) :
    Nat.count (falls n size reactor) (size + count) =
      Nat.count (falls n size reactor) size + Nat.count (falls n size reactor) count := by
  rw [Nat.count_add]
  refine congrArg (Nat.count (falls n size reactor) size + ·) ?_
  rw [Nat.count_eq_card_filter_range, Nat.count_eq_card_filter_range]
  refine congrArg Finset.card (Finset.filter_congr ?_)
  intro ticket _member
  rw [falls, falls, Nat.add_mod_left]

/-- Each new start of the counter adds one to the difference, at most. -/
theorem turns_spread (positive : 0 < n) {size one other : Nat} (first : one < n)
    (second : other < n) (starts rest : Nat) (bound : rest ≤ size) :
    Nat.count (falls n size one) (size * starts + rest) ≤
      Nat.count (falls n size other) (size * starts + rest) + starts + 1 := by
  induction starts with
  | zero =>
      rw [Nat.mul_zero, Nat.zero_add]
      exact turns_within positive first second (Or.inl bound)
  | succ starts ih =>
      have whole : size * (starts + 1) + rest = size + (size * starts + rest) := by
        rw [Nat.mul_succ]
        omega
      have turn := turns_within positive first second (Or.inl (Nat.le_refl size))
      rw [whole, turns_add, turns_add]
      omega

def dealsTo (n reactor : Nat) (s : State) : Action → Nat
  | .choose _ _ => if s.counter.toNat % n = reactor then 1 else 0
  | _ => 0

def deals (_s : State) : Action → Nat
  | .choose _ _ => 1
  | _ => 0

private theorem dealt_of_choose {id : CellId} {kind : Kind}
    (taken : step n s (.choose id kind) = some s') :
    (s'.cells id).localI = s.counter.toNat % n ∧ s'.counter = s.counter + 1 := by
  simp only [step, choose] at taken
  split at taken
  · cases taken
    refine ⟨?_, rfl⟩
    simp only [State.setCell, Function.update_self]
  · cases taken

private theorem counter_of_step {action : Action} (taken : step n s action = some s') :
    s'.counter.toNat = (s.counter.toNat + deals s action) % 2 ^ 64 := by
  have small : s.counter.toNat % 2 ^ 64 = s.counter.toNat := Nat.mod_eq_of_lt s.counter.isLt
  cases action with
  | choose id kind =>
      rw [(dealt_of_choose taken).2, BitVec.toNat_add]
      rfl
  | insert | register | registered | registerFails | allocate | free | dropHandle | deregister
  | poll | pollFails | lock | unlock | pushBatch =>
      simp only [step, insert, register, registered, registerFails, allocate, free, dropHandle,
        deregister, poll, pollFails, lock, unlock, pushBatch] at taken
      split at taken
      · cases taken
        exact small.symm
      · cases taken
  | setShutdown =>
      cases taken
      exact small.symm
  | attach | del | defer | check | pollReturns | process | pop | remove =>
      simp only [step, attach, del, defer, check, pollReturns, process, pop, remove,
        withSlot] at taken
      repeat' split at taken
      all_goals
        cases taken
      all_goals
        exact small.symm

/-- What a run deals out to a reactor is what the counter's values make fall to it. -/
theorem dealt_eq {last : State} {actions : List Action} {reactor before : Nat}
    (here : s.counter.toNat = before % 2 ^ 64)
    (ran : (system n).exec s actions = some last) :
    Nat.count (falls n (2 ^ 64) reactor) before + (system n).tally (dealsTo n reactor) s actions =
      Nat.count (falls n (2 ^ 64) reactor) (before + (system n).tally deals s actions) := by
  induction actions generalizing s before with
  | nil => rfl
  | cons action rest ih =>
      obtain ⟨next, taken, later⟩ := System.exec_cons ran
      have after : next.counter.toNat = (before + deals s action) % 2 ^ 64 := by
        rw [counter_of_step taken, here, Nat.mod_add_mod]
      have tail := ih after later
      rw [System.tally_cons rest taken, System.tally_cons rest taken, ← Nat.add_assoc,
        ← Nat.add_assoc, ← tail]
      refine congrArg (· + (system n).tally (dealsTo n reactor) next rest) ?_
      cases action with
      | choose id kind =>
          change _ + (if s.counter.toNat % n = reactor then 1 else 0) = Nat.count _ (before + 1)
          rw [Nat.count_succ, here]
          rfl
      | _ => rfl

/-- In every run each reactor is dealt at most one registration more than any other, and one
more for each time that the counter has started anew, unless their number divides 2 ^ 64. -/
theorem registrations_spread {last : State} {actions : List Action} {one other : Nat}
    (first : one < n) (second : other < n)
    (ran : (system n).exec State.init actions = some last) :
    (system n).tally (dealsTo n one) State.init actions ≤
        (system n).tally (dealsTo n other) State.init actions +
          (system n).tally deals State.init actions / 2 ^ 64 + 1 ∧
      (n ∣ 2 ^ 64 → (system n).tally (dealsTo n one) State.init actions ≤
        (system n).tally (dealsTo n other) State.init actions + 1) := by
  have positive : 0 < n := Nat.lt_of_le_of_lt (Nat.zero_le one) first
  have dealt (reactor : Nat) : (system n).tally (dealsTo n reactor) State.init actions =
      Nat.count (falls n (2 ^ 64) reactor) ((system n).tally deals State.init actions) := by
    have counted : Nat.count (falls n (2 ^ 64) reactor) 0 +
          (system n).tally (dealsTo n reactor) State.init actions =
        Nat.count (falls n (2 ^ 64) reactor) (0 + (system n).tally deals State.init actions) :=
      dealt_eq rfl ran
    rw [Nat.count_zero, Nat.zero_add, Nat.zero_add] at counted
    exact counted
  rw [dealt one, dealt other]
  generalize (system n).tally deals State.init actions = total
  constructor
  · have bound : total % 2 ^ 64 ≤ 2 ^ 64 := Nat.le_of_lt (Nat.mod_lt _ (Nat.two_pow_pos 64))
    have spread := turns_spread positive first second (total / 2 ^ 64) (total % 2 ^ 64) bound
    rw [Nat.div_add_mod] at spread
    exact spread
  · exact fun divides => turns_within positive first second (Or.inr divides)

def fiveHandles : List Action :=
  connected ++ [.choose 1 .r, .choose 2 .w, .choose 3 .rw, .choose 4 .r]

private theorem fiveHandles_two :
    ((system 2).exec State.init fiveHandles).isSome = true := by decide

private theorem fiveHandles_three :
    ((system 3).exec State.init fiveHandles).isSome = true := by decide

theorem registrations_spread_of_five :
    ((system 3).tally (dealsTo 3 0) State.init fiveHandles = 2 ∧
      (system 3).tally (dealsTo 3 0) State.init fiveHandles ≤
        (system 3).tally (dealsTo 3 2) State.init fiveHandles +
          (system 3).tally deals State.init fiveHandles / 2 ^ 64 + 1) ∧
      (system 2).tally (dealsTo 2 0) State.init fiveHandles = 3 ∧
      (system 2).tally (dealsTo 2 0) State.init fiveHandles ≤
        (system 2).tally (dealsTo 2 1) State.init fiveHandles + 1 := by
  refine ⟨⟨by decide, ?_⟩, by decide, ?_⟩
  · exact (registrations_spread (by decide) (by decide)
      (Option.some_get fiveHandles_three).symm).1
  · exact (registrations_spread (by decide) (by decide)
      (Option.some_get fiveHandles_two).symm).2 (by decide)

end Yaay.Net.Reactor
