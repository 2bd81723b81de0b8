import Yaay.Transition

set_option autoImplicit false

/-! The `Dispatcher` of one direction of one registered resource: the `io_poll!`
loop of the task that owns the `MIO`, and the reactor that turns readiness events
into calls of `notify`. Each atomic operation on the status is one action. -/

namespace Yaay.Net.Dispatcher

open Yaay.Transition

def muted : BitVec 8 := 1

def notified : BitVec 8 := muted <<< 1

def notifiedStatus : BitVec 8 := notified ||| muted

/-- `notify` goes on to wake: neither bit of the status it read was set. -/
def wakes (prev : BitVec 8) : Bool := prev &&& (muted ||| notified) == 0

/-- Where the task is: outside every `io_poll!`, in front of the I/O expression, in
the loop of `wait_io`, with the status exchanged, or suspended in `PendingOnce`. -/
inductive Phase
  | outside
  | attempting
  | waiting
  | suspending
  | suspended
  deriving DecidableEq

/-- `kernel` and `batch` count the undelivered events of this direction, `waking`
the calls of `notify` that are about to wake the stored waker; `repoll` says that
the waker was woken since the latest poll of the task started. -/
structure State where
  status : BitVec 8
  attached : Bool
  phase : Phase
  ready : Bool
  kernel : Nat
  batch : Nat
  waking : Nat
  repoll : Bool

inductive Action
  | attach
  | del
  | prepareIo
  | ioOk (drained : Bool)
  | ioPartly
  | ioError
  | ioWouldBlock
  | compareExchangeWeak (spurious : Bool)
  | returnPending
  | poll
  | cancel
  | arrive
  | pollReactor
  | dispatch
  | notify
  | wakeByRef

/-- `DispatcherInner::notify` up to the wake. -/
def notify (s : State) : State :=
  { s with
    status := notifiedStatus
    waking := if wakes s.status then s.waking + 1 else s.waking }

def prepareIo (s : State) : State := { s with status := muted, phase := .attempting }

/-- One round of the loop of `wait_io`. A return without suspension goes back to
the head of `io_poll!`. -/
def compareExchangeWeak (s : State) (spurious : Bool) : State :=
  if s.status = muted ∧ spurious = false then { s with status := 0, phase := .suspending }
  else if s.status = muted then s
  else { s with phase := .outside }

/-- A new poll of the task; `PendingOnce` is ready in it. -/
def poll (s : State) : State :=
  { s with repoll := false, phase := if s.phase = .suspended then .outside else s.phase }

/-- An attempt meets `WouldBlock` only when the resource is not ready. While it is
ready an attempt may succeed or take some of what there is. -/
def step (s : State) : Action → Option State
  | .attach =>
      if s.attached = false ∧ s.phase = .outside then
        some { s with attached := true, status := muted }
      else none
  | .del => if s.phase = .outside then some { s with attached := false } else none
  | .prepareIo =>
      if s.attached = true ∧ s.phase = .outside then some (prepareIo s) else none
  | .ioOk drained =>
      if s.phase = .attempting ∧ s.ready = true then
        some { s with phase := .outside, ready := !drained }
      else none
  | .ioPartly =>
      if s.phase = .attempting ∧ s.ready = true then some { s with ready := false } else none
  | .ioError => if s.phase = .attempting then some { s with phase := .outside } else none
  | .ioWouldBlock =>
      if s.phase = .attempting ∧ s.ready = false then some { s with phase := .waiting }
      else none
  | .compareExchangeWeak spurious =>
      if s.phase = .waiting then some (compareExchangeWeak s spurious) else none
  | .returnPending =>
      if s.phase = .suspending then some { s with phase := .suspended } else none
  | .poll => if s.phase = .suspended ∨ s.phase = .outside then some (poll s) else none
  | .cancel =>
      if s.phase = .suspended then some { s with phase := .outside } else none
  | .arrive => some { s with ready := true, kernel := s.kernel + 1 }
  | .pollReactor =>
      if 0 < s.kernel then some { s with kernel := s.kernel - 1, batch := s.batch + 1 }
      else none
  | .dispatch =>
      if 0 < s.batch then
        if s.attached then some (notify { s with batch := s.batch - 1 })
        else some { s with batch := s.batch - 1 }
      else none
  | .notify => if s.attached then some (notify s) else none
  | .wakeByRef =>
      if 0 < s.waking then some { s with waking := s.waking - 1, repoll := true } else none

/-- No dispatcher is attached yet; events may have come and gone before. -/
def system : System State Action :=
  { initial := fun s => s.attached = false ∧ s.phase = .outside ∧ s.waking = 0
    step := step }

def Undelivered (s : State) : Prop := 0 < s.kernel ∨ 0 < s.batch

/-- A `notify` read the idle status, and the wake is under way or has been made. -/
def Waking (s : State) : Prop := 0 < s.waking ∨ s.repoll = true

/-- From the attempt's `WouldBlock` to the next poll: an unnoticed readiness has an
event on its way, a delivered event has left its mark. -/
def Watched (s : State) : Prop :=
  match s.phase with
  | .outside | .attempting => True
  | .waiting =>
      (s.status = muted ∧ (s.ready = true → Undelivered s)) ∨ s.status = notifiedStatus
  | .suspending | .suspended =>
      (s.status = 0 ∧ (s.ready = true → Undelivered s)) ∨
        (s.status = notifiedStatus ∧ Waking s)

structure Inv (s : State) : Prop where
  attached : s.phase ≠ .outside → s.attached = true
  marked : s.phase = .attempting → s.status = muted ∨ s.status = notifiedStatus
  watched : Watched s

private theorem wakes_idle : wakes 0 = true := by decide

private theorem wakes_notified : wakes notifiedStatus = false := by decide

theorem Watched.outside {s : State} (phase : s.phase = .outside) : Watched s := by
  rw [Watched, phase]
  trivial

theorem Inv.left {s : State} (phase : s.phase = .outside) : Inv s := by
  refine ⟨fun inside => absurd phase inside, ?_, .outside phase⟩
  intro attempting
  rw [phase] at attempting
  cases attempting

theorem Inv.later {s : State} (attached : s.attached = true) (phase : s.phase ≠ .attempting)
    (watched : Watched s) : Inv s :=
  ⟨fun _ => attached, fun attempting => absurd attempting phase, watched⟩

theorem Inv.notify {s : State} (inv : Inv s) (batch : Nat) :
    Inv (notify { s with batch := batch }) := by
  refine ⟨inv.attached, fun _ => Or.inr rfl, ?_⟩
  have watched := inv.watched
  unfold Watched at watched ⊢
  unfold Dispatcher.notify
  cases phase : s.phase with
  | outside | attempting => trivial
  | waiting => exact Or.inr rfl
  | suspending | suspended =>
      rw [phase] at watched
      refine Or.inr ⟨rfl, ?_⟩
      rcases watched with ⟨idle, _⟩ | ⟨marked, waking⟩
      · have first : wakes s.status = true := by rw [idle, wakes_idle]
        exact Or.inl (by simp [first])
      · have again : wakes s.status = false := by rw [marked, wakes_notified]
        simpa [Waking, again] using waking

theorem Inv.events {s next : State} (inv : Inv s) (phase : next.phase = s.phase)
    (status : next.status = s.status) (attached : next.attached = s.attached)
    (ready : next.ready = true → s.ready = true ∨ Undelivered next)
    (undelivered : Undelivered s → Undelivered next) (waking : Waking s → Waking next) :
    Inv next := by
  refine ⟨by rw [phase, attached]; exact inv.attached,
    by rw [phase, status]; exact inv.marked, ?_⟩
  have watched := inv.watched
  have onward (before : s.ready = true → Undelivered s) (now : next.ready = true) :
      Undelivered next := by
    rcases ready now with still | there
    · exact undelivered (before still)
    · exact there
  rw [Watched, phase, status]
  rw [Watched] at watched
  cases here : s.phase with
  | outside | attempting => trivial
  | waiting =>
      rw [here] at watched
      rcases watched with ⟨same, before⟩ | marked
      · exact Or.inl ⟨same, onward before⟩
      · exact Or.inr marked
  | suspending | suspended =>
      rw [here] at watched
      rcases watched with ⟨same, before⟩ | ⟨marked, under⟩
      · exact Or.inl ⟨same, onward before⟩
      · exact Or.inr ⟨marked, waking under⟩

theorem Inv.compareExchangeWeak {s : State} (inv : Inv s) (phase : s.phase = .waiting)
    (spurious : Bool) : Inv (compareExchangeWeak s spurious) := by
  have watched := inv.watched
  rw [Watched, phase] at watched
  unfold Dispatcher.compareExchangeWeak
  split
  · rename_i success
    rcases watched with ⟨_, before⟩ | marked
    · exact .later (inv.attached (by rw [phase]; simp)) (by simp) (Or.inl ⟨rfl, before⟩)
    · rw [marked] at success
      exact absurd success.1 (by decide)
  · split
    · exact inv
    · exact .left rfl

theorem Inv.step {s next : State} {action : Action} (inv : Inv s)
    (taken : step s action = some next) : Inv next := by
  cases action with
  | attach =>
      simp only [Dispatcher.step] at taken
      split at taken
      · rename_i allowed
        cases taken
        exact .left allowed.2
      · cases taken
  | del =>
      simp only [Dispatcher.step] at taken
      split at taken
      · rename_i outside
        cases taken
        exact .left outside
      · cases taken
  | prepareIo =>
      simp only [Dispatcher.step] at taken
      split at taken
      · rename_i allowed
        cases taken
        exact ⟨fun _ => allowed.1, fun _ => Or.inl rfl, trivial⟩
      · cases taken
  | ioOk drained =>
      simp only [Dispatcher.step] at taken
      split at taken
      · cases taken
        exact .left rfl
      · cases taken
  | ioPartly =>
      simp only [Dispatcher.step] at taken
      split at taken
      · rename_i allowed
        cases taken
        refine inv.events rfl rfl rfl ?_ id id
        intro impossible
        cases impossible
      · cases taken
  | ioError =>
      simp only [Dispatcher.step] at taken
      split at taken
      · cases taken
        exact .left rfl
      · cases taken
  | ioWouldBlock =>
      simp only [Dispatcher.step] at taken
      split at taken
      · rename_i blocked
        cases taken
        refine .later (inv.attached (by rw [blocked.1]; simp)) (by simp) ?_
        rcases inv.marked blocked.1 with still | marked
        · refine Or.inl ⟨still, ?_⟩
          intro ready
          rw [blocked.2] at ready
          cases ready
        · exact Or.inr marked
      · cases taken
  | compareExchangeWeak spurious =>
      simp only [Dispatcher.step] at taken
      split at taken
      · rename_i waiting
        cases taken
        exact inv.compareExchangeWeak waiting spurious
      · cases taken
  | returnPending =>
      simp only [Dispatcher.step] at taken
      split at taken
      · rename_i suspending
        cases taken
        have watched := inv.watched
        rw [Watched, suspending] at watched
        exact .later (inv.attached (by rw [suspending]; simp)) (by simp) watched
      · cases taken
  | poll =>
      simp only [Dispatcher.step] at taken
      split at taken
      · rename_i allowed
        cases taken
        refine .left ?_
        rcases allowed with suspended | outside
        · rw [poll, if_pos suspended]
        · rw [poll, if_neg (by rw [outside]; simp)]
          exact outside
      · cases taken
  | cancel =>
      simp only [Dispatcher.step] at taken
      split at taken
      · cases taken
        exact .left rfl
      · cases taken
  | arrive =>
      cases taken
      refine inv.events rfl rfl rfl ?_ ?_ id
      · exact fun _ => Or.inr (Or.inl (Nat.succ_pos _))
      · exact fun _ => Or.inl (Nat.succ_pos _)
  | pollReactor =>
      simp only [Dispatcher.step] at taken
      split at taken
      · cases taken
        refine inv.events rfl rfl rfl (fun ready => Or.inl ready) ?_ id
        exact fun _ => Or.inr (Nat.succ_pos _)
      · cases taken
  | dispatch =>
      simp only [Dispatcher.step] at taken
      split at taken
      · split at taken
        · cases taken
          exact inv.notify _
        · rename_i free
          cases taken
          have outside : s.phase = .outside := by
            by_contra inside
            exact free (inv.attached inside)
          exact .left outside
      · cases taken
  | notify =>
      simp only [Dispatcher.step] at taken
      split at taken
      · cases taken
        exact inv.notify _
      · cases taken
  | wakeByRef =>
      simp only [Dispatcher.step] at taken
      split at taken
      · cases taken
        exact inv.events rfl rfl rfl (fun ready => Or.inl ready) id (fun _ => Or.inr rfl)
      · cases taken

theorem reachable_inv {s : State} (reached : system.Reachable anyAction s) : Inv s := by
  apply reached.invariant Inv
  · intro state start
    exact .left start.2.1
  · exact fun _state _next _action _earlier inv _permitted taken => inv.step taken

/-- A task suspended in `wait_io` on a resource that is ready has an event on its
way or a wake under way. -/
theorem no_lost_readiness {s : State} (reached : system.Reachable anyAction s)
    (suspended : s.phase = .suspended) (ready : s.ready = true) :
    Undelivered s ∨ (s.status = notifiedStatus ∧ Waking s) := by
  have watched := (reachable_inv reached).watched
  rw [Watched, suspended] at watched
  rcases watched with ⟨_, arriving⟩ | waking
  · exact Or.inl (arriving ready)
  · exact Or.inr waking

/-- The first event is discarded before the dispatcher is attached; the attempt
blocks, and the next event is delivered between the exchange and the suspension. -/
def eventDuringSuspension : List Action :=
  [.arrive, .pollReactor, .dispatch, .attach, .prepareIo, .ioPartly, .ioWouldBlock,
    .compareExchangeWeak true, .compareExchangeWeak false, .arrive, .pollReactor, .dispatch,
    .returnPending, .wakeByRef]

def unattached : State :=
  { status := 0, attached := false, phase := .outside, ready := false, kernel := 0, batch := 0,
    waking := 0, repoll := false }

theorem no_lost_readiness_while_suspending :
    ∃ s, system.exec unattached eventDuringSuspension = some s ∧ s.phase = .suspended ∧
      s.ready = true ∧ (Undelivered s ∨ (s.status = notifiedStatus ∧ Waking s)) := by
  have permitted : system.Permitted anyAction unattached eventDuringSuspension :=
    System.permitted_of_all eventDuringSuspension (fun _ _ _ => trivial) _
  have start : system.Reachable anyAction unattached := .initial unattached ⟨rfl, rfl, rfl⟩
  exact ⟨_, rfl, rfl, rfl, no_lost_readiness (start.exec permitted rfl) rfl rfl⟩

end Yaay.Net.Dispatcher
