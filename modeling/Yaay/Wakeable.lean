import Yaay.Simulation
import Yaay.Tally

set_option autoImplicit false

/-! A job that runs again when it is woken: what a waker is for, with no word on how jobs
are queued or counted. Wakes that come before the job is taken up again count once. -/

namespace Yaay.Wakeable

open Transition

/-- How far a job is. `again` says that it was woken after it was taken up. -/
inductive Phase
  | unborn
  | waiting
  | due
  | claimed (again : Bool)
  | running (again : Bool)
  | paused (again : Bool)
  | finished
  | destroyed
  | abandoned
  | freed
  deriving DecidableEq

/-- `claim` and `settle` are the runner's decisions before and after a run of the job, and
`cancel` ends a job that was due. -/
inductive Act
  | create
  | wake
  | claim
  | start
  | pend
  | settle
  | finish
  | abandon
  | cancel
  | destroy
  | free
  deriving DecidableEq

def Phase.woken : Phase → Phase
  | .waiting => .due
  | .claimed _ => .claimed true
  | .running _ => .running true
  | .paused _ => .paused true
  | phase => phase

def step : Phase → Act → Option Phase
  | .unborn, .create => some .due
  | .unborn, .wake | .freed, .wake => none
  | phase, .wake => some phase.woken
  | .due, .claim => some (.claimed false)
  | .claimed again, .start => some (.running again)
  | .running again, .pend => some (.paused again)
  | .paused again, .settle => some (if again then .due else .waiting)
  | .running _, .finish => some .finished
  | .running _, .abandon => some .abandoned
  | .due, .cancel => some .finished
  | .finished, .destroy => some .destroyed
  | .destroyed, .free | .abandoned, .free => some .freed
  | _, _ => none

def job : System Phase Act := { initial := (· = .unborn), step := step }

def Act.visible : Act → Bool
  | .claim | .settle | .cancel => false
  | _ => true

def shows {Name : Type} (act : Name × Act) : Option (Name × Act) :=
  Option.guard (fun act => act.2.visible) act

/-- The runs that the job is still entitled to. -/
def Phase.credit : Phase → Nat
  | .unborn | .due => 1
  | .claimed again => 1 + again.toNat
  | .running again | .paused again => again.toNat
  | .waiting | .finished | .destroyed | .abandoned | .freed => 0

private theorem woken_credit (phase : Phase) : phase.woken.credit ≤ phase.credit + 1 := by
  cases phase with
  | claimed again | running again | paused again => cases again <;> decide
  | _ => decide

private theorem step_wake {phase next : Phase} (taken : step phase .wake = some next) :
    next = phase.woken := by
  cases phase <;> cases taken <;> rfl

private theorem start_paid {phase next : Phase} {act : Act} (taken : step phase act = some next) :
    next.credit + (if act == .start then 1 else 0) ≤
      phase.credit + (if act == .wake then 1 else 0) := by
  cases act with
  | wake =>
      rw [step_wake taken]
      exact woken_credit phase
  | start =>
      cases phase <;> cases taken
      simp only [Phase.credit]
      exact Nat.le_of_eq (Nat.add_comm ..)
  | settle =>
      cases phase <;> cases taken
      rename_i again
      cases again <;> decide
  | claim | create | pend | finish | abandon | cancel | destroy | free =>
      cases phase <;> cases taken <;> simp [Phase.credit]

/-- A job starts at most once for each wake and once for its creation. -/
theorem starts_le_wakes {phase last : Phase} {acts : List Act}
    (ran : job.exec phase acts = some last) :
    last.credit + acts.count .start ≤ phase.credit + acts.count .wake := by
  have paid := job.tally_le (fun _ => True) Phase.credit _ _ (fun _ _ _ _ _ => trivial)
    (fun _ _ _ _ taken => start_paid taken) trivial ran
  rw [System.tally_countP _ ran, System.tally_countP _ ran] at paid
  exact paid

variable {Name : Type} [DecidableEq Name]

private theorem count_ofName (name : Name) (act : Act) (run : List (Name × Act)) :
    (run.filterMap (ofName name)).count act = run.count (name, act) := by
  induction run with
  | nil => rfl
  | cons step rest ih =>
      obtain ⟨other, done⟩ := step
      by_cases same : other = name
      · subst same
        rw [List.filterMap_cons_some (ofName_own other done), List.count_cons, List.count_cons, ih]
        simp
      · rw [List.filterMap_cons_none (ofName_other same done), List.count_cons_of_ne, ih]
        exact fun here => same (congrArg Prod.fst here)

private theorem count_shows {act : Act} (visible : act.visible = true) (name : Name)
    (run : List (Name × Act)) :
    (run.filterMap shows).count (name, act) = run.count (name, act) := by
  have filtered : run.filterMap shows = run.filter (fun step => step.2.visible) :=
    congrFun List.filterMap_eq_filter run
  rw [filtered]
  exact List.count_filter visible

theorem seen_starts_le_wakes {jobs : Name → Phase} {run : List (Name × Act)}
    (ran : job.family.exec (fun _ => .unborn) run = some jobs) (name : Name) :
    (run.filterMap shows).count (name, .start) ≤ 1 + (run.filterMap shows).count (name, .wake) := by
  have paid := starts_le_wakes (System.exec_ofName ran name)
  rw [count_ofName, count_ofName] at paid
  rw [count_shows rfl, count_shows rfl]
  exact Nat.le_trans (Nat.le_add_left ..) paid

end Yaay.Wakeable
