import Yaay.Runtime.QueueSteps

set_option autoImplicit false

/-! What holds of the word, of the stamps in the queues and of the statuses in the
workers' hands in every run. -/

namespace Yaay.Scheduler

open Yaay.Transition

variable {n : Nat} {s s' : State n} {w : Fin n} {action : Action n}

def Stamp.counted : Stamp n → Option Nat
  | .announcing _ epoch | .announced epoch => some epoch
  | _ => none

def State.Uncounted (s : State n) (w : Fin n) : Prop :=
  ∀ entry ∈ s.queue w, entry.stamp.counted = none

/-- The tasks of the worker's queue were counted after so many calls, or not yet. -/
def State.Newer (s : State n) (w : Fin n) (calls : Nat) : Prop :=
  ∀ entry ∈ s.queue w, ∀ epoch, entry.stamp.counted = some epoch → calls < epoch

/-- The worker has found its queue empty and pushes nothing until it polls again. -/
def Pc.drained : Pc n → Bool
  | .deactivate => true
  | pc => pc.snapshot.isSome

/-- The stamp tells how far the thread that pushed the entry has come. -/
def Stamped (s : State n) (w : Fin n) : Stamp n → Prop
  | .own => (s.pc w).drained = false
  | .pushed thread => (s.call thread).announces
  | .announcing thread epoch => epoch ≤ s.calls ∧ ∃ origin, s.call thread = .unpark origin
  | .announced epoch => epoch ≤ s.calls

/-- A status that the word had when it was read, by a worker that was inactive. -/
def Held (s : State n) (old : Snapshot) : Prop :=
  old.readAt ≤ s.calls ∧ ∃ active < n, old.status = Epoch.pack old.readAt active

def Branch (s : State n) (w : Fin n) : Pc n → Prop
  | .steal old tries => Epoch.activeCount old.status ≠ 0 ∧ tries ≤ 4 * n
  | .stealPop old tries _ => Epoch.activeCount old.status ≠ 0 ∧ tries < 4 * n
  | .recheck old => Epoch.activeCount old.status = 0
  | .wait old | .park old | .parked old =>
      Epoch.activeCount old.status = 0 ∧ s.Newer w old.readAt
  | _ => True

structure Consistent (s : State n) : Prop where
  word : s.word = Epoch.pack s.calls s.activeWorkers
  calling : Calling s
  stamped : ∀ w, ∀ entry ∈ s.queue w, Stamped s w entry.stamp
  held : ∀ w old, (s.pc w).snapshot = some old → Held s old
  branch : ∀ w, Branch s w (s.pc w)

theorem newer_of_uncounted (none : s.Uncounted w) (calls : Nat) : s.Newer w calls := by
  intro entry member epoch counted
  rw [none entry member] at counted
  cases counted

theorem uncounted_of_empty (empty : s.queue w = []) : s.Uncounted w := by
  intro entry member
  rw [empty] at member
  cases member

private theorem snapshot_inactive {pc : Pc n} {old : Snapshot} (holds : pc.snapshot = some old) :
    pc.active = false := by
  cases pc <;> first | rfl | cases holds

private theorem unparked_drained (pc : Pc n) : pc.unparked.drained = pc.drained := by
  cases pc <;> rfl

theorem Held.several {old : Snapshot} (held : Held s old) (small : n < 512)
    (busy : Epoch.activeCount old.status ≠ 0) : 2 ≤ n := by
  obtain ⟨_earlier, active, few, status⟩ := held
  rw [status, Ne, Epoch.activeCount_pack_eq_zero (Nat.lt_trans few small)] at busy
  omega

theorem index_of_several (two : 2 ≤ n) (w : Fin n) (seed : BitVec 32) :
    seed.toNat % (n - 1) < (others w).length := by
  rw [others_length]
  exact Nat.mod_lt _ (by omega)

/-- A status with active workers is one of a runtime with another worker to rob. -/
theorem trySteal_of_busy (small : n < 512) {old : Snapshot} (held : Held s old)
    (busy : Epoch.activeCount old.status ≠ 0) (tries : Nat) :
    ∃ s', trySteal s w old tries = some s' := by
  have two := held.several small busy
  have index := index_of_several two w (s.seed w)
  rw [trySteal, if_neg (by omega), List.getElem?_eq_getElem index]
  dsimp only
  split
  · exact ⟨_, rfl⟩
  · exact ⟨_, rfl⟩

namespace Consistent

theorem counted_le (consistent : Consistent s) {entry : Entry n} (member : entry ∈ s.queue w)
    {epoch : Nat} (counted : entry.stamp.counted = some epoch) : epoch ≤ s.calls := by
  have stamped := consistent.stamped w entry member
  cases stamp : entry.stamp with
  | announcing thread other =>
      rw [stamp] at counted stamped
      cases counted
      exact stamped.1
  | announced other =>
      rw [stamp] at counted stamped
      cases counted
      exact stamped
  | own | pushed thread =>
      rw [stamp] at counted
      cases counted

theorem uncounted_of_newer (consistent : Consistent s) (newer : s.Newer w s.calls) :
    s.Uncounted w := by
  intro entry member
  cases counted : entry.stamp.counted with
  | none => rfl
  | some epoch =>
      have later := newer entry member epoch counted
      have bound := consistent.counted_le member counted
      omega

theorem activeCount_eq_zero (consistent : Consistent s) (small : n < 512) :
    Epoch.activeCount s.word = 0 ↔ s.activeWorkers = 0 := by
  rw [consistent.word]
  exact Epoch.activeCount_pack_eq_zero (Nat.lt_of_le_of_lt (activeWorkers_le s) small)

theorem readAt_of_same (consistent : Consistent s) (small : n < 512) {old : Snapshot}
    (held : Held s old) (same : s.word = old.status) :
    s.calls % Epoch.epochs = old.readAt % Epoch.epochs ∧
      (Epoch.activeCount old.status = 0 → s.activeWorkers = 0) := by
  obtain ⟨_earlier, active, few, status⟩ := held
  constructor
  · have word := congrArg (fun word => (Epoch.epoch word).toNat) same
    simp only [consistent.word, status] at word
    rwa [Epoch.epoch_pack (Nat.lt_of_le_of_lt (activeWorkers_le s) small),
      Epoch.epoch_pack (Nat.lt_trans few small)] at word
  · intro none
    exact (consistent.activeCount_eq_zero small).mp (by rw [same, none])

end Consistent

private theorem word_step (consistent : Consistent s) (taken : step s action = some s') :
    s'.word = Epoch.pack s'.calls s'.activeWorkers := by
  have word := consistent.word
  rcases step_cases taken with ⟨w, refuse, rfl, moved⟩ | ⟨thread, rfl, moved⟩ | started
  · have worked := worked_of_work moved
    rw [worked.calls]
    rcases word_of_work moved with ⟨kept, same⟩ | ⟨left, before, after⟩ | ⟨came, before, after⟩
    · have alike : ∀ u, (s'.pc u).active = (s.pc u).active := by
        intro u
        by_cases here : u = w
        · rw [here, same]
        · exact worked.active_other here
      rw [kept, word, activeWorkers_congr alike]
    · have fewer := activeWorkers_gain after before
        (fun _ other => (worked.active_other other).symm)
      rw [left, word, fewer, Epoch.pack_setInactive]
    · have more := activeWorkers_gain before after (fun _ other => worked.active_other other)
      rw [came, word, more, Epoch.pack_setActive]
  · have called := called_of_callStep moved
    rw [activeWorkers_congr called.active]
    rcases called.word with ⟨kept, same⟩ | ⟨counted, more, _pushing⟩
    · rw [kept, same, word]
    · rw [counted, more, word, Epoch.pack_nextEpoch]
  · cases started <;> exact word

/-- A worker comes to the end of its queue only by finding it empty. -/
theorem drained_step (taken : step s action = some s')
    (before : (s.pc w).drained = false) (after : (s'.pc w).drained = true) :
    s.queue w = [] := by
  rcases pc_of_step taken w with (same | unparked) | ⟨refuse, rfl, moved⟩
  · rw [same, before] at after
    cases after
  · rw [unparked, unparked_drained, before] at after
    cases after
  · have place := moved_of_work moved
    generalize s.pc w = pc at place before
    generalize s'.pc w = pc' at place after
    cases place with
    | drained empty => exact empty
    | _ => simp [Pc.drained, Pc.snapshot] at before after

private theorem stamped_step (consistent : Consistent s) (taken : step s action = some s')
    (w : Fin n) (entry : Entry n) (member : entry ∈ s'.queue w) :
    Stamped s' w entry.stamp := by
  have calls := calls_mono taken
  cases entered_of_step consistent.calling taken member with
  | kept old pushed announcing =>
      have stamped := consistent.stamped w entry old
      cases stamp : entry.stamp with
      | own =>
          rw [stamp] at stamped
          cases after : (s'.pc w).drained with
          | false => exact after
          | true =>
              rw [drained_step taken stamped after] at old
              cases old
      | pushed thread =>
          rw [stamp] at stamped
          exact pushed thread stamp stamped
      | announcing thread epoch =>
          rw [stamp] at stamped
          obtain ⟨bound, origin, unparking⟩ := stamped
          exact ⟨Nat.le_trans bound calls, origin,
            announcing thread epoch origin stamp unparking⟩
      | announced epoch =>
          rw [stamp] at stamped
          exact Nat.le_trans stamped calls
  | own stamp user still =>
      obtain ⟨task, polling⟩ := userCode_worker user
      rw [stamp, Stamped, still, polling]
      rfl
  | pushed thread stamp announces still =>
      rw [stamp]
      exact announces
  | counted thread origin earlier old same stamp call calling counted now =>
      rcases now with ⟨now, unparking⟩ | ⟨now, _busy⟩
      · rw [now]
        exact ⟨Nat.le_of_eq counted.symm, origin, unparking⟩
      · rw [now]
        exact Nat.le_of_eq counted.symm
  | announced thread epoch earlier old same stamp now woken =>
      have stamped := consistent.stamped w earlier old
      rw [stamp] at stamped
      rw [now]
      exact Nat.le_trans stamped.1 calls

theorem newer_step (consistent : Consistent s) (taken : step s action = some s')
    {calls : Nat} (earlier : calls ≤ s.calls) (newer : s.Newer w calls) :
    s'.Newer w calls := by
  intro entry member epoch counted
  cases entered_of_step consistent.calling taken member with
  | kept old pushed announcing => exact newer entry old epoch counted
  | own stamp user still =>
      rw [stamp] at counted
      cases counted
  | pushed thread stamp announces still =>
      rw [stamp] at counted
      cases counted
  | counted thread origin before old same stamp call calling more now =>
      have epoch_eq : epoch = s.calls + 1 := by
        rcases now with ⟨now, _unparking⟩ | ⟨now, _busy⟩
        all_goals
          rw [now] at counted
          exact (Option.some.inj counted).symm
      omega
  | announced thread other before old same stamp now woken =>
      rw [now] at counted
      cases counted
      exact newer before old epoch (by rw [stamp]; rfl)

private theorem held_step (consistent : Consistent s) (taken : step s action = some s')
    {new : Snapshot} (holds : (s'.pc w).snapshot = some new) : Held s' new := by
  have fresh (pass : Nat) : Held s' ⟨s'.word, s'.calls, pass⟩ :=
    ⟨Nat.le_refl _, s'.activeWorkers, activeWorkers_lt (snapshot_inactive holds),
      word_step consistent taken⟩
  rcases snapshot_of_step taken holds with kept | ⟨_stays, rfl⟩ | ⟨old, _here, rfl⟩
  · obtain ⟨earlier, active⟩ := consistent.held w new kept
    exact ⟨Nat.le_trans earlier (calls_mono taken), active⟩
  · exact fresh _
  · exact fresh _

private theorem branch_step (consistent : Consistent s) (taken : step s action = some s')
    (w : Fin n) : Branch s' w (s'.pc w) := by
  have branch := consistent.branch w
  have newer {old : Snapshot} (holds : (s.pc w).snapshot = some old)
      (before : s.Newer w old.readAt) : s'.Newer w old.readAt :=
    newer_step consistent taken (consistent.held w old holds).1 before
  rcases pc_of_step taken w with (same | unparked) | ⟨refuse, rfl, moved⟩
  · rw [same]
    generalize here : s.pc w = pc at branch newer
    cases pc with
    | wait old | park old | parked old => exact ⟨branch.1, newer rfl branch.2⟩
    | _ => exact branch
  · rw [unparked]
    generalize here : s.pc w = pc at branch newer
    cases pc with
    | wait old | park old => exact ⟨branch.1, newer rfl branch.2⟩
    | parked old => trivial
    | _ => exact branch
  · have place := moved_of_work moved
    have queue := (worked_of_work moved).queue w
    generalize s.pc w = pc at place branch newer
    generalize s'.pc w = pc' at place
    cases place with
    | busy old some => exact ⟨some, Nat.zero_le _⟩
    | calm old none => exact none
    | missed old tries more | stealing old tries victim more =>
        exact ⟨branch.1, Nat.lt_of_le_of_ne branch.2 more⟩
    | late old tries victim => exact branch
    | rechecked old empty =>
        rw [empty, List.suffix_nil] at queue
        exact ⟨branch, newer_of_uncounted (uncounted_of_empty queue) _⟩
    | waiting old same | parking old same => exact ⟨branch.1, newer rfl branch.2⟩
    | _ => trivial

private theorem consistent_initial (start : Initial s) : Consistent s where
  word := by
    have all : s.activeWorkers = n := by
      simp [State.activeWorkers, start.pc, Pc.active]
    rw [start.word, start.calls, all, Epoch.pack, Nat.mul_zero, Nat.zero_add]
  calling := fun w busy => absurd (start.call _) busy
  stamped := by
    intro w entry member
    rw [start.queue] at member
    cases member
  held := by
    intro w old holds
    rw [start.pc] at holds
    cases holds
  branch := by
    intro w
    rw [start.pc]
    trivial

theorem consistent_step (consistent : Consistent s) (taken : step s action = some s') :
    Consistent s' where
  word := word_step consistent taken
  calling := calling_step consistent.calling taken
  stamped := stamped_step consistent taken
  held := fun _w _old holds => held_step consistent taken holds
  branch := branch_step consistent taken

theorem reachable_consistent {permits : State n → Action n → Prop}
    (reached : (system n).Reachable permits s) : Consistent s :=
  reached.invariant Consistent (fun _state start => consistent_initial start)
    (fun _state _next _action _reached consistent _permitted taken =>
      consistent_step consistent taken)

end Yaay.Scheduler
