import Yaay.Net.Dispatcher
import Yaay.Tally

set_option autoImplicit false

/-! The reactor wakes a task once for each time that it went to sleep, at most. What `notify`
finds is the idle status that one exchange has stored, and it overwrites it. -/

namespace Yaay.Net.Dispatcher

open Yaay.Transition

variable {s next : State}

/-- The task went to sleep and no `notify` has come since. -/
def State.armed (s : State) : Nat := if s.attached = true ∧ s.status = 0 then 1 else 0

def suspends (s : State) : Action → Nat
  | .compareExchangeWeak spurious => if s.status = muted ∧ spurious = false then 1 else 0
  | _ => 0

def Action.isWake : Action → Bool
  | .wakeByRef => true
  | _ => false

def Stored (s : State) : Prop :=
  s.attached = true → s.status = 0 ∨ s.status = muted ∨ s.status = notifiedStatus

private theorem armed_le_one (s : State) : s.armed ≤ 1 := by
  unfold State.armed
  split
  · exact Nat.le_refl 1
  · exact Nat.zero_le 1

private theorem armed_of_ne (busy : s.status ≠ 0) : s.armed = 0 := if_neg (fun both => busy both.2)

private theorem armed_congr (attached : next.attached = s.attached)
    (status : next.status = s.status) :
    next.armed = s.armed := by
  rw [State.armed, State.armed, attached, status]

/-- A `notify` that goes on to wake has taken the idle status away. -/
theorem notify_armed (stored : Stored s) (attached : s.attached = true) (batch : Nat) :
    (notify { s with batch := batch }).waking + (notify { s with batch := batch }).armed ≤
      s.waking + s.armed := by
  have busy : (notify { s with batch := batch }).armed = 0 :=
    armed_of_ne (show notifiedStatus ≠ 0 by decide)
  rw [busy, Nat.add_zero]
  change (if wakes s.status then s.waking + 1 else s.waking) ≤ _
  rcases stored attached with idle | quiet | marked
  · have armed : s.armed = 1 := if_pos ⟨attached, idle⟩
    rw [armed]
    split
    · exact Nat.le_refl _
    · exact Nat.le_succ _
  · rw [quiet, if_neg (by decide)]
    exact Nat.le_add_right _ _
  · rw [marked, if_neg (by decide)]
    exact Nat.le_add_right _ _

def wakesMade (_s : State) (action : Action) : Nat := if action.isWake then 1 else 0

structure Pays (s : State) (action : Action) (next : State) : Prop where
  stored : Stored next
  paid : next.waking + next.armed + wakesMade s action ≤ s.waking + s.armed + suspends s action

theorem Pays.quiet {action : Action} (stored : Stored s) (attached : next.attached = s.attached)
    (status : next.status = s.status) (waking : next.waking + wakesMade s action = s.waking) :
    Pays s action next := by
  constructor
  · rw [Stored, attached, status]
    exact stored
  · rw [armed_congr attached status]
    omega

theorem Pays.mutes {action : Action} (status : next.status = muted)
    (waking : next.waking = s.waking) (silent : action.isWake = false) : Pays s action next := by
  constructor
  · exact fun _ => Or.inr (Or.inl status)
  · have busy : next.armed = 0 := armed_of_ne (by rw [status]; decide)
    have none : wakesMade s action = 0 := by
      rw [wakesMade, silent]
      rfl
    omega

theorem Pays.notify {action : Action} (stored : Stored s) (attached : s.attached = true)
    (batch : Nat) (silent : action.isWake = false) :
    Pays s action (notify { s with batch := batch }) := by
  constructor
  · exact fun _ => Or.inr (Or.inr rfl)
  · have bounded := notify_armed stored attached batch
    have none : wakesMade s action = 0 := by
      rw [wakesMade, silent]
      rfl
    omega

theorem Pays.exchange {spurious : Bool} (stored : Stored s) :
    Pays s (.compareExchangeWeak spurious) (compareExchangeWeak s spurious) := by
  unfold compareExchangeWeak
  split
  · rename_i success
    constructor
    · exact fun _ => Or.inl rfl
    · have earned : suspends s (.compareExchangeWeak spurious) = 1 := if_pos success
      rw [earned]
      have bounded := armed_le_one { s with status := 0, phase := .suspending }
      change s.waking + State.armed { s with status := 0, phase := .suspending } + 0 ≤
        s.waking + s.armed + 1
      omega
  · split
    · exact .quiet stored rfl rfl rfl
    · exact .quiet stored rfl rfl rfl

private theorem pays_step {action : Action} (stored : Stored s)
    (taken : step s action = some next) :
    Pays s action next := by
  cases action with
  | attach =>
      simp only [step] at taken
      split at taken
      · cases taken
        exact .mutes rfl rfl rfl
      · cases taken
  | del =>
      simp only [step] at taken
      split at taken
      · cases taken
        constructor
        · exact fun attached => by cases attached
        · change s.waking + State.armed { s with attached := false } + 0 ≤ s.waking + s.armed + 0
          have free : State.armed { s with attached := false } = 0 :=
            if_neg (fun both => by cases both.1)
          omega
      · cases taken
  | prepareIo =>
      simp only [step] at taken
      split at taken
      · cases taken
        exact .mutes rfl rfl rfl
      · cases taken
  | compareExchangeWeak spurious =>
      simp only [step] at taken
      split at taken
      · cases taken
        exact .exchange stored
      · cases taken
  | dispatch =>
      simp only [step] at taken
      split at taken
      · split at taken
        · rename_i attached
          cases taken
          exact .notify stored attached _ rfl
        · cases taken
          exact .quiet stored rfl rfl rfl
      · cases taken
  | notify =>
      simp only [step] at taken
      split at taken
      · rename_i attached
        cases taken
        exact .notify stored attached s.batch rfl
      · cases taken
  | wakeByRef =>
      simp only [step] at taken
      split at taken
      · rename_i waiting
        cases taken
        refine .quiet stored rfl rfl ?_
        change s.waking - 1 + 1 = s.waking
        exact Nat.sub_add_cancel waiting
      · cases taken
  | arrive =>
      cases taken
      exact .quiet stored rfl rfl rfl
  | ioOk | ioPartly | ioError | ioWouldBlock | returnPending | poll | cancel | pollReactor =>
      simp only [step] at taken
      split at taken
      · cases taken
        exact .quiet stored rfl rfl rfl
      · cases taken

/-- In every run the wakes made, those under way and the one that an armed dispatcher can still
cause are at most as many as the times that the task has gone to sleep: each of them answers a
sleep of its own, whatever events come, spurious ones and stale ones included. -/
theorem wakes_le_sleeps {start last : State} {actions : List Action}
    (initial : system.initial start) (ran : system.exec start actions = some last) :
    actions.countP Action.isWake + last.waking + last.armed ≤
      system.tally suspends start actions := by
  obtain ⟨free, _outside, none⟩ := initial
  have stored : Stored start := by
    intro attached
    rw [free] at attached
    cases attached
  have unarmed : start.armed = 0 := by
    refine if_neg ?_
    rintro ⟨attached, _⟩
    rw [free] at attached
    cases attached
  have bound := system.tally_le Stored (fun s => s.waking + s.armed) wakesMade suspends
    (fun _ _ _ stored taken => (pays_step stored taken).stored)
    (fun _ _ _ stored taken => (pays_step stored taken).paid) stored ran
  have counted := System.tally_countP Action.isWake ran
  rw [none, unarmed] at bound
  change last.waking + last.armed + system.tally wakesMade start actions ≤
    0 + system.tally suspends start actions at bound
  change system.tally wakesMade start actions = actions.countP Action.isWake at counted
  omega

theorem wakes_le_sleeps_while_suspending :
    ∃ last, system.exec unattached eventDuringSuspension = some last ∧
      eventDuringSuspension.countP Action.isWake + last.waking + last.armed ≤
        system.tally suspends unattached eventDuringSuspension := by
  have runs : (system.exec unattached eventDuringSuspension).isSome = true := rfl
  have ran := (Option.some_get runs).symm
  exact ⟨_, ran, wakes_le_sleeps ⟨rfl, rfl, rfl⟩ ran⟩

end Yaay.Net.Dispatcher
