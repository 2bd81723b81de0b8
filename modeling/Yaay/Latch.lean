import Mathlib.Logic.Function.Basic
import Mathlib.Tactic.Simps.Basic

set_option autoImplicit false

/-! A latch over arbitrary parties and data: a condition that once true stays true,
a mutex around the data, and a condition variable. Who changes the data tests
the condition before unlocking and notifies after it; who waits tests it under
the mutex and is put to sleep by the same step that unlocks. -/

namespace Yaay.Latch

universe u v

inductive Phase
  | outside
  | inside
  | changed
  | judged (flag : Bool)
  | signalling
  | sleeping
  | parked
  deriving DecidableEq

def Phase.holds : Phase → Bool
  | .inside | .changed | .judged _ | .sleeping => true
  | _ => false

/-- The party will notify if the condition is true by now. -/
def Phase.owes : Phase → Bool
  | .changed | .judged true | .signalling => true
  | _ => false

/-- What `notify_all` does to a party: it wakes who is parked at that moment. -/
def Phase.notified : Phase → Phase
  | .parked => .outside
  | phase => phase

@[ext] structure State (Party : Type u) (Data : Type v) where
  data : Data
  owner : Option Party
  phase : Party → Phase

variable {Party : Type u} {Data : Type v} [DecidableEq Party]

@[simps] def State.enter (s : State Party Data) (p : Party) (phase : Phase) : State Party Data :=
  { s with phase := Function.update s.phase p phase }

@[simps] def State.notifyAll (s : State Party Data) : State Party Data :=
  { s with phase := fun q => (s.phase q).notified }

/-- One step of a party. `wake` may come at any time. -/
inductive Step (done : Data → Prop) (s : State Party Data) : State Party Data → Prop
  | acquire (p : Party) (here : s.phase p = .outside) (free : s.owner = none) :
      Step done s { s.enter p .inside with owner := some p }
  | change (p : Party) (data : Data) (here : s.phase p = .inside)
      (kept : done s.data → done data) : Step done s { s.enter p .changed with data := data }
  | judge (p : Party) (flag : Bool) (here : s.phase p = .changed)
      (right : flag = true ↔ done s.data) : Step done s (s.enter p (.judged flag))
  | release (p : Party) (here : s.phase p = .inside ∨ s.phase p = .judged false) :
      Step done s { s.enter p .outside with owner := none }
  | promise (p : Party) (here : s.phase p = .judged true) :
      Step done s { s.enter p .signalling with owner := none }
  | notify (p : Party) (here : s.phase p = .signalling) :
      Step done s (s.notifyAll.enter p .outside)
  | refuse (p : Party) (here : s.phase p = .inside) (early : ¬ done s.data) :
      Step done s (s.enter p .sleeping)
  | park (p : Party) (here : s.phase p = .sleeping) :
      Step done s { s.enter p .parked with owner := none }
  | wake (p : Party) (here : s.phase p = .parked) : Step done s (s.enter p .outside)

/-- Mutual exclusion, and no lost notification: who sleeps on a true condition has
somebody who will notify. -/
structure Sound (done : Data → Prop) (s : State Party Data) : Prop where
  owner : ∀ p, (s.phase p).holds = true ↔ s.owner = some p
  sleeping : ∀ p, s.phase p = .sleeping → ¬ done s.data
  covered : done s.data → ∀ p, s.phase p = .parked → ∃ q, (s.phase q).owes = true

variable {done : Data → Prop} {s s' : State Party Data} {p q : Party} {phase : Phase}

omit [DecidableEq Party] in
theorem Sound.initial (free : s.owner = none) (out : ∀ p, s.phase p = .outside) :
    Sound done s where
  owner := by
    intro p
    rw [out p, free]
    constructor
    · intro held
      cases held
    · intro owned
      cases owned
  sleeping := by
    intro p asleep
    rw [out p] at asleep
    cases asleep
  covered := by
    intro _now p parked
    rw [out p] at parked
    cases parked

namespace Sound

omit [DecidableEq Party] in
theorem only (sound : Sound done s) (held : (s.phase p).holds = true)
    (also : (s.phase q).holds = true) : q = p := by
  have first := (sound.owner p).mp held
  have second := (sound.owner q).mp also
  rw [first] at second
  exact (Option.some.inj second).symm

private theorem owner_enter (sound : Sound done s) {owner : Option Party}
    (own : phase.holds = true ↔ owner = some p)
    (rest : ∀ q, q ≠ p → (s.owner = some q ↔ owner = some q)) :
    ∀ q, ((s.enter p phase).phase q).holds = true ↔ owner = some q := by
  intro q
  rw [State.enter_phase]
  by_cases same : q = p
  · rw [same, Function.update_self]
    exact own
  · rw [Function.update_of_ne same, sound.owner q]
    exact rest q same

private theorem sleeping_enter (sound : Sound done s) (awake : phase ≠ .sleeping) :
    ∀ q, (s.enter p phase).phase q = .sleeping → ¬ done s.data := by
  intro q asleep
  rw [State.enter_phase] at asleep
  by_cases same : q = p
  · rw [same, Function.update_self] at asleep
    exact absurd asleep awake
  · rw [Function.update_of_ne same] at asleep
    exact sound.sleeping q asleep

/-- A party that owed nothing, or still does, goes on, and not to sleep. -/
theorem covered_enter (sound : Sound done s)
    (still : (s.phase p).owes = true → phase.owes = true) (up : phase ≠ .parked)
    (now : done s.data) :
    ∀ q, (s.enter p phase).phase q = .parked → ∃ r, ((s.enter p phase).phase r).owes = true := by
  intro q parked
  rw [State.enter_phase] at parked
  by_cases same : q = p
  · rw [same, Function.update_self] at parked
    exact absurd parked up
  · rw [Function.update_of_ne same] at parked
    obtain ⟨r, owes⟩ := sound.covered now q parked
    refine ⟨r, ?_⟩
    rw [State.enter_phase]
    by_cases mine : r = p
    · subst mine
      rw [Function.update_self]
      exact still owes
    · rw [Function.update_of_ne mine]
      exact owes

private theorem owner_release (sound : Sound done s) (held : (s.phase p).holds = true)
    (free : phase.holds = false) :
    ∀ q, ((s.enter p phase).phase q).holds = true ↔ none = some q := by
  apply sound.owner_enter
  · rw [free]
    exact iff_of_false (by decide) (by simp)
  · intro q different
    rw [(sound.owner p).mp held]
    exact iff_of_false (fun same => different (Option.some.inj same).symm) (by simp)

private theorem owner_same (sound : Sound done s) (same : phase.holds = (s.phase p).holds) :
    ∀ q, ((s.enter p phase).phase q).holds = true ↔ s.owner = some q := by
  apply sound.owner_enter
  · rw [same]
    exact sound.owner p
  · exact fun _ _ => Iff.rfl

end Sound

private theorem notified_holds (phase : Phase) : phase.notified.holds = phase.holds := by
  cases phase <;> rfl

private theorem notified_ne_parked (phase : Phase) : phase.notified ≠ .parked := by
  cases phase <;> simp [Phase.notified]

private theorem notified_sleeping {phase : Phase} (asleep : phase.notified = .sleeping) :
    phase = .sleeping := by
  cases phase <;> first | rfl | cases asleep

omit [DecidableEq Party] in
theorem Sound.notifyAll (sound : Sound done s) : Sound done s.notifyAll where
  owner := by
    intro q
    rw [State.notifyAll_phase, notified_holds]
    exact sound.owner q
  sleeping := by
    intro q asleep
    exact sound.sleeping q (notified_sleeping asleep)
  covered := by
    intro _now q parked
    exact absurd parked (notified_ne_parked _)

theorem Sound.step (sound : Sound done s) (taken : Step done s s') : Sound done s' := by
  cases taken with
  | acquire p here free =>
      refine ⟨sound.owner_enter (iff_of_true rfl rfl) ?_, sound.sleeping_enter (by decide),
        sound.covered_enter (by rw [here]; decide) (by decide)⟩
      intro q different
      rw [free]
      exact iff_of_false (by simp) (fun same => different (Option.some.inj same).symm)
  | change p data here kept =>
      have holds : (s.phase p).holds = true := by rw [here]; rfl
      refine ⟨sound.owner_same (by rw [holds]; rfl), ?_, fun _now q _parked => ⟨p, ?_⟩⟩
      · -- nobody else is between the test and the sleep: that is inside of the mutex
        intro q asleep
        by_cases same : q = p
        · simp [same] at asleep
        · simp only [State.enter_phase, Function.update_of_ne same] at asleep
          exact absurd (sound.only holds (by rw [asleep]; rfl)) same
      · simp [Phase.owes]
  | judge p flag here right =>
      refine ⟨sound.owner_same (by rw [here]; rfl), sound.sleeping_enter (by simp), ?_⟩
      intro now
      refine sound.covered_enter ?_ (by simp) now
      intro _owed
      rw [right.mpr now]
      rfl
  | release p here =>
      have holds : (s.phase p).holds = true := by
        rcases here with here | here <;>
        · rw [here]
          rfl
      have owes : (s.phase p).owes = false := by
        rcases here with here | here <;>
        · rw [here]
          rfl
      exact ⟨sound.owner_release holds rfl, sound.sleeping_enter (by decide),
        sound.covered_enter (by rw [owes]; simp) (by decide)⟩
  | promise p here =>
      exact ⟨sound.owner_release (by rw [here]; rfl) rfl, sound.sleeping_enter (by decide),
        sound.covered_enter (fun _ => rfl) (by decide)⟩
  | notify p here =>
      have after := sound.notifyAll
      refine ⟨after.owner_same ?_, after.sleeping_enter (by decide), ?_⟩
      · rw [State.notifyAll_phase, here]
        rfl
      · intro _now q parked
        rw [State.enter_phase] at parked
        by_cases same : q = p
        · rw [same, Function.update_self] at parked
          cases parked
        · rw [Function.update_of_ne same] at parked
          exact absurd parked (notified_ne_parked _)
  | refuse p here early =>
      refine ⟨sound.owner_same (by rw [here]; rfl), fun _ _ => early, ?_⟩
      exact fun now => absurd now early
  | park p here =>
      have early := sound.sleeping p here
      exact ⟨sound.owner_release (by rw [here]; rfl) rfl, fun _ _ => early,
        fun now => absurd now early⟩
  | wake p here =>
      exact ⟨sound.owner_same (by rw [here]; rfl), sound.sleeping_enter (by decide),
        sound.covered_enter (by rw [here]; decide) (by decide)⟩

end Yaay.Latch
