import Mathlib.Algebra.BigOperators.Fin
import Yaay.Runtime.ShutdownSupply

set_option autoImplicit false

/-! How far a worker is from the end of its loop: the tasks that it could still find,
and its place between two tasks. -/

namespace Yaay.Scheduler

open Yaay.Transition

variable {n : Nat} {s s' : State n} {w : Fin n}

def State.load (s : State n) : Nat := ∑ w, (s.queue w).length

def Call.pending : Call n → Nat
  | .pushing todo _ => (todo.map (fun insert => insert.works.length)).sum
  | .shutdownPush _ _ => 1
  | _ => 0

private theorem load_congr (same : ∀ u, (s'.queue u).length = (s.queue u).length) :
    s'.load = s.load := by
  simp only [State.load, same]

theorem load_change {v : Fin n} (others : ∀ u, u ≠ v → s'.queue u = s.queue u) :
    s'.load + (s.queue v).length = s.load + (s'.queue v).length := by
  rw [State.load, State.load, ← Finset.add_sum_erase _ _ (Finset.mem_univ v),
    ← Finset.add_sum_erase _ (fun u => (s.queue u).length) (Finset.mem_univ v)]
  have rest : ∑ u ∈ Finset.univ.erase v, (s'.queue u).length =
      ∑ u ∈ Finset.univ.erase v, (s.queue u).length :=
    Finset.sum_congr rfl (fun u member => by rw [others u (Finset.ne_of_mem_erase member)])
  rw [rest]
  omega

private theorem load_insert (s : State n) (insert : Insert n) (stamp : Stamp n) :
    (s.insert insert stamp).load = s.load + insert.works.length := by
  have others (u : Fin n) (other : u ≠ insert.target) :
      (s.insert insert stamp).queue u = s.queue u := by
    rw [State.insert, State.setQueue_queue, Function.update_of_ne other]
  have length : ((s.insert insert stamp).queue insert.target).length =
      (s.queue insert.target).length + insert.works.length := by
    rw [State.insert, State.setQueue_queue, Function.update_self]
    split
    · rw [List.length_append, List.length_map, Nat.add_comm]
    · rw [List.length_append, List.length_map]
  have change := load_change others
  omega

private theorem pending_shutdownLoop (rest : List (Fin n)) : (shutdownLoop rest).pending = 0 := by
  cases rest <;> rfl

theorem load_of_work {refuse : Bool} (taken : work s w refuse = some s') :
    s'.load + 1 = s.load ∨
      (s'.load = s.load ∧ ((s.pc w).hand = none → (s'.pc w).hand = none)) := by
  rcases queue_of_work taken with ⟨same, free⟩ | ⟨victim, entry, queue, others, _hand⟩
  · exact Or.inr ⟨load_congr (fun u => by rw [same u]), free⟩
  · left
    have change := load_change others
    rw [queue, List.length_cons] at change
    omega

theorem load_of_callStep {thread : Thread n} (taken : callStep s thread = some s')
    (flags : ∀ other rest, s.call thread = .shutdownRead other rest →
      s.shutdown other = true) :
    s'.load + (s'.call thread).pending = s.load + (s.call thread).pending := by
  cases here : s.call thread with
  | none => simp [callStep, here] at taken
  | pushing todo origin =>
      cases todo with
      | cons insert rest =>
          simp only [callStep, here] at taken
          cases taken
          have load := load_insert s insert (.pushed thread)
          simp only [State.setCall_call, Function.update_self, Call.pending, List.map_cons,
            List.sum_cons]
          change (s.insert insert (.pushed thread)).load + _ = _
          omega
      | nil =>
          simp only [callStep, here, nextEpoch] at taken
          split at taken
          all_goals
            obtain rfl := Option.some.inj taken
            exact congrArg₂ (· + ·) (load_congr (fun u => by simp)) (by simp [Call.pending])
  | shutdownRead other rest =>
      simp only [callStep, here, flags other rest here, if_true] at taken
      cases taken
      rw [State.setCall_call, Function.update_self, pending_shutdownLoop]
      rfl
  | shutdownPush other rest =>
      simp only [callStep, here] at taken
      cases taken
      rw [State.setCall_call, Function.update_self, pending_shutdownLoop]
      exact load_insert s _ _
  | unpark origin =>
      simp only [callStep, here, wakeAllSlow] at taken
      cases taken
      exact congrArg₂ (· + ·) (load_congr (fun u => by simp)) (by simp [Call.pending])

def Call.rank : Call n → Nat
  | .none => 0
  | .unpark _ => 1
  | .pushing todo _ => 2 + todo.length
  | .shutdownPush _ rest => 3 + 2 * rest.length
  | .shutdownRead _ rest => 4 + 2 * rest.length

/-- The steps that the worker may still take before it finds a task or returns. -/
def Pc.rank (call : Call n) : Pc n → Nat
  | .returned => 0
  | .drain => 1
  | .check => 2
  | .polling _ => 3 + call.rank
  | .poll _ => 2 * n + 6
  | .unpark _ => 2 * n + 7
  | .activate _ => 2 * n + 8
  | .popChanged _ => 2 * n + 9
  | .reread _ => 2 * n + 10
  | .parked _ => 2 * n + 11
  | .park _ => 2 * n + 12
  | .wait _ => 2 * n + 13
  | .recheck _ => 2 * n + 14
  | .stealPop _ tries _ => 2 * n + 10 + 2 * (4 * n - tries)
  | .steal _ tries => 2 * n + 11 + 2 * (4 * n - tries)
  | .search _ => 10 * n + 20
  | .deactivate => 10 * n + 21

private theorem rank_shutdownLoop (rest : List (Fin n)) :
    (shutdownLoop rest).rank ≤ 2 + 2 * rest.length := by
  cases rest with
  | nil => exact Nat.le_refl 2
  | cons other rest =>
      simp only [shutdownLoop, Call.rank, List.length_cons]
      omega

theorem rank_of_callStep {thread : Thread n} (taken : callStep s thread = some s') :
    (s'.call thread).rank < (s.call thread).rank := by
  have proceeded := proceeded_of_callStep taken
  generalize s.call thread = call at proceeded
  generalize s'.call thread = call' at proceeded
  cases proceeded with
  | pushed insert rest origin =>
      simp only [Call.rank, List.length_cons]
      omega
  | counted origin | announced origin | woken origin =>
      simp only [Call.rank]
      omega
  | skipped other rest | sent other rest =>
      refine Nat.lt_of_le_of_lt (rank_shutdownLoop rest) ?_
      simp only [Call.rank]
      omega
  | missing other rest =>
      simp only [Call.rank]
      omega

theorem pending_of_work (calling : Calling s) {refuse : Bool}
    (taken : work s w refuse = some s') :
    (s'.call (.worker w)).pending = (s.call (.worker w)).pending := by
  rcases (worked_of_work taken).call (.worker w) with same | ⟨_self, here, looping, _flag⟩
  · rw [same]
  · rw [looping, idle_of_poll calling here, pending_shutdownLoop]
    rfl

private theorem rank_of_poll (calling : Calling s) {refuse : Bool}
    (taken : work s w refuse = some s')
    {job : Work} (here : s.pc w = .poll job) : (s'.call (.worker w)).rank ≤ 2 * n + 2 := by
  rcases (worked_of_work taken).call (.worker w) with same | ⟨_self, _here, looping, _flag⟩
  · rw [same, idle_of_poll calling here]
    exact Nat.zero_le _
  · rw [looping]
    have bound := rank_shutdownLoop (others w)
    rw [others_length] at bound
    omega

/-- A worker's step brings it nearer or takes a task into its hands, unless a pop from
its own queue fails or the epoch is as it was. -/
theorem rank_of_work (consistent : Consistent s) {refuse : Bool}
    (taken : work s w refuse = some s')
    (queued : (s.pc w).leaving = false → (s.pc w).hand = none → s.queue w ≠ [])
    (later : ∀ old, s.pc w = .reread old → Epoch.epoch old.status < Epoch.epoch s.word) :
    (s'.pc w).rank (s'.call (.worker w)) < (s.pc w).rank (s.call (.worker w)) ∨
      ((s.pc w).hand = none ∧ (s'.pc w).hand ≠ none) := by
  have branch := consistent.branch w
  have polled {job : Work} (here : s.pc w = .poll job) :=
    rank_of_poll consistent.calling taken here
  have place := moved_of_work taken
  generalize s.pc w = pc at place branch queued later polled ⊢
  generalize s'.pc w = pc' at place ⊢
  cases place with
  | drained empty | rechecked old empty | nothing new empty =>
      exact absurd empty (queued rfl rfl)
  | drain | stole | found | own => exact Or.inr ⟨rfl, by simp [Pc.hand]⟩
  | same old still => exact absurd (later old rfl) still
  | poll work =>
      have bound := polled rfl
      left
      simp only [Pc.rank]
      omega
  | missed old tries more | stealing old tries victim more =>
      have tries_le := branch.2
      left
      simp only [Pc.rank]
      omega
  | late old tries victim =>
      have tries_lt := branch.2
      left
      simp only [Pc.rank]
      omega
  | _ =>
      left
      simp only [Pc.rank]
      omega

/-- The tasks to find first, then the place. -/
def State.rank (w : Fin n) (s : State n) : Nat × Nat :=
  (s.load + (s.call (.worker w)).pending, (s.pc w).rank (s.call (.worker w)))

end Yaay.Scheduler
