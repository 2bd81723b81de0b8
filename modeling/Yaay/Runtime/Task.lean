import Mathlib.Logic.Function.Basic

set_option autoImplicit false

/-! The task header of `task.rs`: the three status bits and what the atomic
operations of `Task::wake` and `Task::poll` compute on the status word. -/

namespace Yaay.Task

def muted : BitVec 8 := 1

def notified : BitVec 8 := muted <<< 1

def dropped : BitVec 8 := notified <<< 1

/-- `Task::new` stores `MUTED | NOTIFIED`. -/
def initialStatus : BitVec 8 := muted ||| notified

/-- The word that the unconditional `fetch_or` of `Task::wake` stores. -/
def wakeStatus (prev : BitVec 8) : BitVec 8 := prev ||| (muted ||| notified)

/-- `Task::wake` goes on to schedule the task: neither `MUTED` nor `DROPPED` was set. -/
def schedules (prev : BitVec 8) : Bool := prev &&& (muted ||| dropped) == 0

def clearNotified (prev : BitVec 8) : BitVec 8 := prev &&& ~~~notified

/-- `status.fetch_or(DROPPED)` on the ready exit and in `Task::drop_in_place`. -/
def setDropped (prev : BitVec 8) : BitVec 8 := prev ||| dropped

/-- `prev & DROPPED == 0`, the test of `Task::drop_in_place`. -/
def undropped (prev : BitVec 8) : Bool := prev &&& dropped == 0

def idleStatus : BitVec 8 := 0

/-- Queued, or held by a thread that will queue or poll it: `MUTED | NOTIFIED`. -/
def Scheduled (status : BitVec 8) : Prop := status = initialStatus

/-- Held by a polling worker: `MUTED`, with or without `NOTIFIED`. -/
def Held (status : BitVec 8) : Prop := status = muted ∨ status = initialStatus

/-- Dropped while held: `MUTED | DROPPED`, with or without `NOTIFIED`. -/
def Retired (status : BitVec 8) : Prop :=
  status = muted ||| dropped ∨ status = initialStatus ||| dropped

theorem Scheduled.held {status : BitVec 8} (queued : Scheduled status) : Held status :=
  Or.inr queued

theorem wakeStatus_idle : wakeStatus idleStatus = initialStatus := by decide

theorem schedules_idle : schedules idleStatus = true := by decide

theorem wakeStatus_held {status : BitVec 8} (held : Held status) :
    wakeStatus status = initialStatus := by
  rcases held with rfl | rfl <;> decide

theorem schedules_held {status : BitVec 8} (held : Held status) :
    schedules status = false := by
  rcases held with rfl | rfl <;> decide

theorem wakeStatus_retired {status : BitVec 8} (retired : Retired status) :
    Retired (wakeStatus status) := by
  rcases retired with rfl | rfl
  · exact Or.inr (by decide)
  · exact Or.inr (by decide)

theorem schedules_retired {status : BitVec 8} (retired : Retired status) :
    schedules status = false := by
  rcases retired with rfl | rfl <;> decide

theorem clearNotified_held {status : BitVec 8} (held : Held status) :
    clearNotified status = muted := by
  rcases held with rfl | rfl <;> decide

theorem setDropped_held {status : BitVec 8} (held : Held status) :
    Retired (setDropped status) := by
  rcases held with rfl | rfl
  · exact Or.inl (by decide)
  · exact Or.inr (by decide)

theorem undropped_held {status : BitVec 8} (held : Held status) :
    undropped status = true := by
  rcases held with rfl | rfl <;> decide

theorem schedules_wakeStatus (prev : BitVec 8) : schedules (wakeStatus prev) = false := by
  have bit : ((prev ||| (muted ||| notified)) &&& (muted ||| dropped)).getLsbD 0 = true := by
    simp [muted, notified, dropped]
  by_contra kept
  rw [schedules, wakeStatus, Bool.not_eq_false, beq_iff_eq] at kept
  rw [kept] at bit
  cases bit

theorem schedules_setDropped (prev : BitVec 8) : schedules (setDropped prev) = false := by
  have bit : ((prev ||| dropped) &&& (muted ||| dropped)).getLsbD 2 = true := by
    simp [muted, notified, dropped]
  by_contra kept
  rw [schedules, setDropped, Bool.not_eq_false, beq_iff_eq] at kept
  rw [kept] at bit
  cases bit

theorem initialStatus_ne_muted : initialStatus ≠ muted := by decide

theorem Held.ne_idle {status : BitVec 8} (held : Held status) : status ≠ idleStatus := by
  rcases held with rfl | rfl <;> decide

theorem Retired.ne_idle {status : BitVec 8} (retired : Retired status) :
    status ≠ idleStatus := by
  rcases retired with rfl | rfl <;> decide

end Yaay.Task
