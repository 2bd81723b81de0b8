import Yaay.Runtime.TaskExclusivity

set_option autoImplicit false

/-! The reference count of a task counts the runtime and the owned wakers, and
nothing uses a task whose memory is gone. -/

namespace Yaay.TaskSystem

open Yaay.Transition

variable {cfg : Config} {s next : State cfg} {task : TaskRef} {place : Place cfg}

/-- The `fetch_sub` that took the count to zero is about to deallocate. -/
def Freeing (s : State cfg) (task : TaskRef) : Prop :=
  ∃ thread, (∃ unwound, s.frame thread = .deallocating task unwound) ∨
    s.call thread = .dealloc task

structure Accounted (s : State cfg) (task : TaskRef) : Prop where
  counted : (s.history task).created = true →
    (s.tasks task).rc = runtimeRefs (s.history task) + (s.history task).wakers.length
  dropped_once : (s.history task).drops ≤ 1
  freed_once : (s.history task).deallocs ≤ 1
  freed_at_zero : (s.history task).created = true →
    ((s.tasks task).rc = 0 ↔ Freeing s task ∨ (s.history task).deallocs = 1)
  freed_after_drop : Freeing s task ∨ (s.history task).deallocs = 1 →
    (s.history task).drops = 1
  not_freed_twice : Freeing s task → (s.history task).deallocs = 0

/-- The tasks whose memory the step may read or write. A push writes the `next`
field of the node that it links, a pop reads that of the head. -/
def State.touches (s : State cfg) : Action cfg → List TaskRef
  | .create _ task _ _ _ | .cloneWaker _ task _ _ => [task]
  | .place thread =>
      match s.call thread with
      | .placing task worker _ _ => task :: s.lists (.queue worker)
      | _ => []
  | .pop _ worker => s.lists (.queue worker)
  | .setWorkerId thread | .clearNotified thread | .callPoll thread | .pollReturn thread _
  | .pollPanic thread | .compareExchangeWeak thread _ | .setDropped thread
  | .callDropInPlace thread | .dropReturn thread | .release thread | .fnDealloc thread
  | .unwind thread => (s.frame thread).held
  | .wakeFetchOr thread | .rcDec thread | .callDealloc thread => (s.call thread).subject
  | .wakePush thread misread =>
      match s.call thread with
      | .push task _ =>
          match s.slot thread with
          | .null => task :: s.lists (.queue (s.tasks task).workerId)
          | .runtimeLocal => task :: s.lists (.batch thread (s.tasks task).workerId)
          | .worker _ => task :: s.lists misread
      | _ => []
  | .pushBatchNext thread =>
      match s.call thread with
      | .pushBatch worker _ _ => s.lists (.batch thread worker) ++ s.lists (.queue worker)
      | _ => []
  | .collect =>
      match s.stage with
      | .collecting worker => s.lists .teardown ++ s.lists (.queue worker)
      | _ => []
  | .teardownPop => s.lists .teardown
  | .assertRc | .dropTask | .checkRc => (s.frame cfg.main).held
  | .build _ _ | .batchNew _ | .pushBatch _ _ _ | .rngGen _ | .shutdownPoll _ | .wake _ _ _
  | .wakeNextEpoch _ | .dropWaker _ _ _ | .teardown | .freeWorker => []

theorem Frame.Settled.deallocs {status : BitVec 8} {history : History} {frame : Frame}
    (settled : frame.Settled status history) : history.deallocs = 0 := by
  cases frame with
  | stolen | popped | tearing | dropInPlace | cleared | polling | pending =>
      exact settled.1.1.deallocs_eq
  | ready | retiring | dropping | checkRc | releasing | deallocating =>
      exact settled.1.deallocs_eq
  | idle | dead | unwinding => exact settled.elim

theorem Call.Settled.deallocs {status : BitVec 8} {history : History} {call : Call cfg}
    (settled : call.Settled status history) : history.deallocs = 0 := by
  cases call with
  | placing | push => exact settled.1.1.deallocs_eq
  | dealloc => exact settled.1.deallocs_eq
  | none | wake | nextEpoch | rcDec | pushBatch => exact settled.elim

theorem Located.deallocs (located : Located s task place) :
    (s.history task).deallocs = if place = .freed then 1 else 0 := by
  have settled := located.settled
  cases place with
  | unborn =>
      have blank : s.history task = {} := settled
      rw [blank]
      rfl
  | idle => exact settled.1.1.deallocs_eq
  | retired | freed => exact settled.1.deallocs_eq
  | held holder =>
      cases holder with
      | list list => exact settled.1.1.deallocs_eq
      | frame thread => exact Frame.Settled.deallocs settled
      | call thread => exact Call.Settled.deallocs settled

theorem Frame.Settled.drops {status : BitVec 8} {history : History} {frame : Frame}
    (settled : frame.Settled status history) : history.drops ≤ 1 := by
  cases frame with
  | stolen | popped | tearing | dropInPlace | cleared | polling | pending =>
      rw [settled.1.1.drops_eq]
      exact Nat.zero_le 1
  | ready | retiring =>
      rw [settled.1.drops_eq]
      exact Nat.zero_le 1
  | dropping | checkRc | releasing | deallocating =>
      rw [settled.1.drops_eq]
  | idle | dead | unwinding => exact settled.elim

theorem Call.Settled.drops {status : BitVec 8} {history : History} {call : Call cfg}
    (settled : call.Settled status history) : history.drops ≤ 1 := by
  cases call with
  | placing | push =>
      rw [settled.1.1.drops_eq]
      exact Nat.zero_le 1
  | dealloc => rw [settled.1.drops_eq]
  | none | wake | nextEpoch | rcDec | pushBatch => exact settled.elim

theorem Located.drops (located : Located s task place) : (s.history task).drops ≤ 1 := by
  have settled := located.settled
  cases place with
  | unborn =>
      have blank : s.history task = {} := settled
      rw [blank]
      exact Nat.zero_le 1
  | idle =>
      rw [settled.1.1.drops_eq]
      exact Nat.zero_le 1
  | retired | freed => rw [settled.1.drops_eq]
  | held holder =>
      cases holder with
      | list list =>
          rw [settled.1.1.drops_eq]
          exact Nat.zero_le 1
      | frame thread => exact Frame.Settled.drops settled
      | call thread => exact Call.Settled.drops settled

theorem Located.freeing (located : Located s task place) (freeing : Freeing s task) :
    Lifetime (s.history task) 1 true 0 ∧ (s.history task).wakers = [] := by
  have settled := located.settled
  obtain ⟨thread, ⟨unwound, frame⟩ | called⟩ := freeing
  · rw [located.counts.place_of_frame (show task ∈ (s.frame thread).held by
      simp [frame, Frame.held]), Settled, frame] at settled
    exact ⟨settled.1, settled.2.2⟩
  · rw [located.counts.place_of_call (show task ∈ (s.call thread).held by
      simp [called, Call.held]), Settled, called] at settled
    exact ⟨settled.1, settled.2.2⟩

theorem Located.freeing_of_unreferenced (located : Located s task place)
    (unborn : place ≠ .unborn) (released : (s.history task).released = true)
    (none : (s.history task).wakers = []) :
    Freeing s task ∨ (s.history task).deallocs = 1 := by
  have settled := located.settled
  cases place with
  | unborn => exact absurd rfl unborn
  | idle =>
      rw [settled.1.1.released_eq] at released
      cases released
  | retired => exact absurd none settled.2.2
  | freed => exact Or.inr settled.1.deallocs_eq
  | held holder =>
      have member := located.counts.mem_of_held
      cases holder with
      | list list =>
          rw [settled.1.1.released_eq] at released
          cases released
      | frame thread =>
          change (s.frame thread).Settled _ _ at settled
          change task ∈ (s.frame thread).held at member
          cases frame : s.frame thread <;> rw [frame] at settled member
          case deallocating name unwound =>
            cases List.mem_singleton.mp member
            exact Or.inl ⟨thread, Or.inl ⟨unwound, frame⟩⟩
          case idle | dead | unwinding => exact settled.elim
          case stolen | popped | tearing | dropInPlace | cleared | polling | pending =>
            rw [settled.1.1.released_eq] at released
            cases released
          all_goals
            rw [settled.1.released_eq] at released
            cases released
      | call thread =>
          change (s.call thread).Settled _ _ at settled
          change task ∈ (s.call thread).held at member
          cases called : s.call thread <;> rw [called] at settled member
          case dealloc name =>
            cases List.mem_singleton.mp member
            exact Or.inl ⟨thread, Or.inr called⟩
          case placing | push =>
            rw [settled.1.1.released_eq] at released
            cases released
          all_goals exact settled.elim

theorem Located.born (located : Located s task place)
    (created : (s.history task).created = true) : place ≠ .unborn := by
  intro unborn
  subst unborn
  have blank : s.history task = {} := located.settled
  rw [blank] at created
  cases created

theorem Located.accounted (located : Located s task place) : Accounted s task := by
  have freed : (s.history task).deallocs = 1 → place = .freed := by
    intro once
    rw [located.deallocs] at once
    by_contra kept
    rw [if_neg kept] at once
    cases once
  refine ⟨fun created => located.counted (located.born created), located.drops, ?_, ?_, ?_, ?_⟩
  · rw [located.deallocs]
    split
    · exact Nat.le_refl 1
    · exact Nat.zero_le 1
  · intro created
    have born := located.born created
    have counted := located.counted born
    constructor
    · intro zero
      rw [zero] at counted
      have none : (s.history task).wakers = [] :=
        List.eq_nil_of_length_eq_zero (by omega)
      have released : (s.history task).released = true := by
        cases kept : (s.history task).released with
        | true => rfl
        | false =>
            rw [runtimeRefs, kept, if_neg Bool.false_ne_true] at counted
            omega
      exact located.freeing_of_unreferenced born released none
    · intro ending
      rcases ending with freeing | once
      · obtain ⟨lifetime, none⟩ := located.freeing freeing
        rw [counted, none, runtimeRefs, lifetime.released_eq]
        rfl
      · have gone := freed once
        subst gone
        rw [counted, located.settled.2.2, runtimeRefs, located.settled.1.released_eq]
        rfl
  · intro ending
    rcases ending with freeing | once
    · exact (located.freeing freeing).1.drops_eq
    · have gone := freed once
      subst gone
      exact located.settled.1.drops_eq
  · exact fun freeing => (located.freeing freeing).1.deallocs_eq

theorem Located.alive_of_held {holder : Holder cfg} (located : Located s task place)
    (member : task ∈ s.content holder) : (s.history task).deallocs = 0 := by
  rw [located.deallocs, located.counts.place_of_mem member]
  rfl

theorem Located.alive_in_frame {thread : Fin cfg.threads} (located : Located s task place)
    (member : task ∈ (s.frame thread).held) : (s.history task).deallocs = 0 :=
  located.alive_of_held (show task ∈ s.content (.frame thread) from member)

theorem Located.alive_in_call (located : Located s task place) (thread : Fin cfg.threads)
    (member : task ∈ (s.call thread).held) : (s.history task).deallocs = 0 :=
  located.alive_of_held (show task ∈ s.content (.call thread) from member)

theorem Located.alive_in_list {list : ListId cfg} (located : Located s task place)
    (member : task ∈ s.lists list) : (s.history task).deallocs = 0 :=
  located.alive_of_held (show task ∈ s.content (.list list) from member)

theorem Located.alive_of_referenced (located : Located s task place)
    (referenced : Referenced s task) : (s.history task).deallocs = 0 := by
  rw [located.deallocs, if_neg]
  intro freed
  subst freed
  rcases referenced with some | ⟨worker, polls⟩
  · exact some located.settled.2.2
  · cases (located.polling polls).1

theorem Located.alive_of_call {thread : Fin cfg.threads} (located : Located s task place)
    (fetches : (∃ via, s.call thread = .wake task via) ∨
      ∃ waker, s.call thread = .rcDec task waker) : (s.history task).deallocs = 0 := by
  apply located.alive_of_referenced
  rcases fetches with ⟨via, called⟩ | ⟨waker, called⟩
  · exact located.borrows.referenced called
  · exact Or.inl (List.ne_nil_of_mem
      (located.borrows.owned thread waker (by simp [called, Call.uses])))

theorem Located.alive_if_touched (located : Located s task place) {action : Action cfg}
    (taken : step s action = some next) (touched : task ∈ s.touches action) :
    (s.history task).deallocs = 0 := by
  cases action with
  | build | batchNew | pushBatch | rngGen | shutdownPoll | wake | wakeNextEpoch | dropWaker
  | teardown | freeWorker => cases touched
  | setWorkerId | clearNotified | callPoll | pollReturn | pollPanic | compareExchangeWeak
  | setDropped | callDropInPlace | dropReturn | release | fnDealloc | unwind | assertRc
  | dropTask | checkRc => exact located.alive_in_frame touched
  | pop | teardownPop => exact located.alive_in_list touched
  | create thread name worker front maker =>
      cases List.mem_singleton.mp touched
      simp only [step, create] at taken
      split at taken
      · split at taken
        · rename_i ready
          rw [located.deallocs, if_neg]
          intro freed
          subst freed
          rw [located.settled.1.created] at ready
          cases ready.1
        · cases taken
      · cases taken
  | cloneWaker thread name via fresh =>
      cases List.mem_singleton.mp touched
      simp only [step, cloneWaker] at taken
      split at taken
      · split at taken
        · rename_i ready
          exact located.alive_of_referenced ready.1.referenced
        · cases taken
      · cases taken
  | place thread =>
      simp only [State.touches] at touched
      split at touched
      · rename_i name worker front maker called
        rcases List.mem_cons.mp touched with same | queued
        · subst same
          exact located.alive_in_call thread (by simp [called, Call.held])
        · exact located.alive_in_list queued
      · cases touched
  | wakeFetchOr thread =>
      simp only [step, wakeFetchOr] at taken
      split at taken
      · rename_i name via called
        simp only [State.touches, called, Call.subject] at touched
        cases List.mem_singleton.mp touched
        exact located.alive_of_call (Or.inl ⟨via, called⟩)
      · cases taken
  | rcDec thread =>
      simp only [step, rcDec] at taken
      split at taken
      · rename_i name waker called
        simp only [State.touches, called, Call.subject] at touched
        cases List.mem_singleton.mp touched
        exact located.alive_of_call (Or.inr ⟨waker, called⟩)
      · cases taken
  | callDealloc thread =>
      simp only [step, callDealloc] at taken
      split at taken
      · rename_i name called
        simp only [State.touches, called, Call.subject] at touched
        exact located.alive_in_call thread (by rw [called]; exact touched)
      · cases taken
  | wakePush thread misread =>
      simp only [State.touches] at touched
      split at touched
      · rename_i name via called
        have pushed : task = name → (s.history task).deallocs = 0 := by
          intro same
          subst same
          exact located.alive_in_call thread (by simp [called, Call.held])
        split at touched
        all_goals
          rcases List.mem_cons.mp touched with same | listed
          · exact pushed same
          · exact located.alive_in_list listed
      · cases touched
  | pushBatchNext thread =>
      simp only [State.touches] at touched
      split at touched
      · rcases List.mem_append.mp touched with batched | queued
        · exact located.alive_in_list batched
        · exact located.alive_in_list queued
      · cases touched
  | collect =>
      simp only [State.touches] at touched
      split at touched
      · rcases List.mem_append.mp touched with gathered | queued
        · exact located.alive_in_list gathered
        · exact located.alive_in_list queued
      · cases touched

/-- In every run without unwinding polls the counts are right, and no step uses
the memory of a deallocated task. -/
theorem lifetime_accounting (reached : (system cfg).Reachable noPanic s) (task : TaskRef) :
    Accounted s task ∧
      ∀ action next, step s action = some next → task ∈ s.touches action →
        (s.history task).deallocs = 0 := by
  obtain ⟨_place, located⟩ := reachable_inv reached task
  exact ⟨located.accounted, fun _action _next taken touched =>
    located.alive_if_touched taken touched⟩

def lastWakerDrops : List (Action twoWorkers) :=
  [.build thread0 0, .create mainThread 7 0 false .run, .place mainThread, .pop thread0 0,
    .clearNotified thread0, .callPoll thread0, .cloneWaker thread0 7 (.lent thread0) 5,
    .pollReturn thread0 true, .setDropped thread0, .callDropInPlace thread0, .dropReturn thread0,
    .release thread0, .dropWaker mainThread 7 5, .rcDec mainThread]

private theorem lastWakerDrops_runs :
    ((system twoWorkers).exec (State.init twoWorkers) lastWakerDrops).isSome = true := by
  decide

def unreferenced : State twoWorkers :=
  ((system twoWorkers).exec (State.init twoWorkers) lastWakerDrops).get lastWakerDrops_runs

private theorem unreferenced_reached : (system twoWorkers).Reachable noPanic unreferenced := by
  refine System.Reachable.replay (.initial _ rfl) ?_ lastWakerDrops_runs
  exact System.permitted_of_all lastWakerDrops (by simp [lastWakerDrops, noPanic]) _

theorem lifetime_accounting_at_last_waker :
    (unreferenced.tasks 7).rc = 0 ∧ Accounted unreferenced 7 ∧
      ∀ action next, step unreferenced action = some next →
        7 ∈ unreferenced.touches action → (unreferenced.history 7).deallocs = 0 :=
  ⟨rfl, lifetime_accounting unreferenced_reached 7⟩

end Yaay.TaskSystem
