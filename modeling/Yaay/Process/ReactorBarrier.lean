import Yaay.Process.RepeatedRuns

set_option autoImplicit false

/-! The wait of `GlobalData::build`: every reactor stores its pointer, and neither a reactor
nor the main thread goes on before all of them have. The last one notifies behind the mutex,
and until it has, it is there to be waited for. -/

namespace Yaay.Process

open Yaay.Transition

variable {cfg : Config} {s s' : State cfg} {cycle tid : Nat}

def ReactorPc.stored : ReactorPc → Prop
  | .absent | .build | .store => False
  | _ => True

def ReactorPc.passed : ReactorPc → Prop
  | .absent | .build | .store | .parked | .relock => False
  | _ => True

def MainPc.passed : MainPc → Prop
  | .start | .spawn _ | .check | .parked => False
  | _ => True

def MainPc.joined : MainPc → Prop
  | .setShutdown => True
  | main => main.stopped

def Filled (ptrs : List (Option LocalData)) (tid : Nat) : Prop :=
  ∃ data, ptrs[tid]? = some (some data)

def State.waiting (s : State cfg) (cycle : Nat) : Prop :=
  (∃ tid, (s.reactor cycle tid).pc = .parked) ∨ (s.cycle = cycle ∧ s.main = .parked)

structure Barrier (s : State cfg) : Prop where
  begun : ∀ tid, tid < cfg.reactors s.cycle → s.main.spawned tid →
    (s.reactor s.cycle tid).pc ≠ .absent
  filled : ∀ cycle tid, tid < cfg.reactors cycle →
    ((s.reactor cycle tid).pc.stored ↔ Filled (s.ptrs cycle) tid)
  reactors : ∀ cycle tid, (s.reactor cycle tid).pc.passed → allBuilt (s.ptrs cycle) = true
  main : s.main.passed → allBuilt (s.ptrs s.cycle) = true
  notifies : ∀ cycle, allBuilt (s.ptrs cycle) = true → s.waiting cycle →
    ∃ tid, (s.reactor cycle tid).pc = .notify
  joined : s.main.joined → s.returned = cfg.workers s.cycle

theorem Barrier.init : Barrier (State.init cfg) := by
  refine ⟨fun _ _ spawned => spawned.elim, ?_, fun _ _ passed => passed.elim,
    fun passed => passed.elim, ?_, fun joined => joined.elim⟩
  · intro cycle tid _inside
    refine iff_of_false id ?_
    rintro ⟨data, found⟩
    have null : (List.replicate (cfg.reactors cycle) none : List (Option LocalData))[tid]? =
        some (some data) := found
    rw [List.getElem?_replicate] at null
    split at null <;> cases null
  · rintro cycle _built (⟨_tid, parked⟩ | ⟨_same, parked⟩)
    · cases parked
    · cases parked

private theorem passed_stored {pc : ReactorPc} (passed : pc.passed) : pc.stored := by
  cases pc <;> first | exact trivial | exact passed

theorem Barrier.setReactor (barrier : Barrier s) {r : Reactor} (born : r.pc ≠ .absent)
    (stored : r.pc.stored ↔ (s.reactor cycle tid).pc.stored)
    (passed : r.pc.passed → allBuilt (s.ptrs cycle) = true)
    (parks : r.pc = .parked → allBuilt (s.ptrs cycle) = false)
    (silent : (s.reactor cycle tid).pc ≠ .notify) : Barrier (s.setReactor cycle tid r) := by
  refine ⟨?_, ?_, ?_, barrier.main, ?_, barrier.joined⟩
  · intro name inside spawned
    by_cases same : s.cycle = cycle ∧ name = tid
    · obtain ⟨rfl, rfl⟩ := same
      change ((s.setReactor s.cycle name r).reactor s.cycle name).pc ≠ .absent
      rw [setReactor_self]
      exact born
    · change ((s.setReactor cycle tid r).reactor s.cycle name).pc ≠ .absent
      rw [setReactor_other same]
      exact barrier.begun name inside spawned
  · intro other name inside
    by_cases same : other = cycle ∧ name = tid
    · obtain ⟨rfl, rfl⟩ := same
      rw [setReactor_self, stored]
      exact barrier.filled other name inside
    · rw [setReactor_other same]
      exact barrier.filled other name inside
  · intro other name here
    by_cases same : other = cycle ∧ name = tid
    · obtain ⟨rfl, rfl⟩ := same
      rw [setReactor_self] at here
      exact passed here
    · rw [setReactor_other same] at here
      exact barrier.reactors other name here
  · intro other built waits
    have waited : s.waiting other := by
      rcases waits with ⟨name, parked⟩ | main
      · by_cases same : other = cycle ∧ name = tid
        · obtain ⟨rfl, rfl⟩ := same
          rw [setReactor_self] at parked
          have unbuilt := parks parked
          rw [State.setReactor_ptrs, unbuilt] at built
          cases built
        · rw [setReactor_other same] at parked
          exact Or.inl ⟨name, parked⟩
      · exact Or.inr main
    obtain ⟨notifier, notifying⟩ := barrier.notifies other built waited
    refine ⟨notifier, ?_⟩
    rw [setReactor_other]
    · exact notifying
    · rintro ⟨rfl, rfl⟩
      exact silent notifying

theorem Barrier.goes (barrier : Barrier s) {r : Reactor} {here : ReactorPc}
    (place : (s.reactor cycle tid).pc = here) (before : here.passed) (silent : here ≠ .notify)
    (after : r.pc.passed) : Barrier (s.setReactor cycle tid r) := by
  subst place
  have born : r.pc ≠ .absent := by
    intro absent
    rw [absent] at after
    exact after
  refine barrier.setReactor born (iff_of_true (passed_stored after) (passed_stored before))
    (fun _ => barrier.reactors cycle tid before) ?_ silent
  intro parked
  rw [parked] at after
  exact after.elim

theorem Filled.isSome {ptrs : List (Option LocalData)} (built : allBuilt ptrs = true)
    (inside : tid < ptrs.length) : Filled ptrs tid := by
  rw [allBuilt, List.all_eq_true] at built
  obtain ⟨data, found⟩ := Option.isSome_iff_exists.mp (built ptrs[tid] (List.getElem_mem inside))
  exact ⟨data, by rw [List.getElem?_eq_getElem inside, found]⟩

private theorem allBuilt_of_filled {ptrs : List (Option LocalData)}
    (filled : ∀ tid, tid < ptrs.length → Filled ptrs tid) : allBuilt ptrs = true := by
  rw [allBuilt, List.all_eq_true]
  intro entry member
  obtain ⟨tid, inside, same⟩ := List.getElem_of_mem member
  obtain ⟨data, found⟩ := filled tid inside
  rw [List.getElem?_eq_getElem inside, same] at found
  rw [Option.some.inj found]
  rfl

theorem Barrier.store (barrier : Barrier s) (inv : Inv s)
    (place : (s.reactor cycle tid).pc = .store) {ptrs : List (Option LocalData)}
    (stores : ptrs = (s.ptrs cycle).set tid (some ⟨cycle, tid⟩)) :
    Barrier ((s.setPtrs cycle ptrs).setReactor cycle tid ((s.reactor cycle tid).setPc
      (if allBuilt ptrs then .notify else .parked))) := by
  have ok := inv.reactors cycle tid
  have inside : tid < (s.ptrs cycle).length := by
    rw [(inv.stored cycle).length]
    exact (ok.spawned (by rw [place]; exact ReactorPc.noConfusion)).1
  have unbuilt : allBuilt (s.ptrs cycle) = false := by
    by_contra built
    rw [Bool.not_eq_false] at built
    have stored := (barrier.filled cycle tid
      (by rw [← (inv.stored cycle).length]; exact inside)).mpr (Filled.isSome built inside)
    rw [place] at stored
    exact stored
  have fresh (other : Nat) : ¬ (s.reactor cycle other).pc.passed := by
    intro passed
    have built := barrier.reactors cycle other passed
    rw [unbuilt] at built
    cases built
  generalize placed : (s.reactor cycle tid).setPc
    (if allBuilt ptrs then ReactorPc.notify else .parked) = r
  have lands : r.pc = .notify ∧ allBuilt ptrs = true ∨ r.pc = .parked ∧ allBuilt ptrs = false := by
    rw [← placed]
    cases allBuilt ptrs with
    | true => exact Or.inl ⟨rfl, rfl⟩
    | false => exact Or.inr ⟨rfl, rfl⟩
  have elsewhere (other : Nat) (different : other ≠ cycle) :
      (s.setPtrs cycle ptrs).ptrs other = s.ptrs other := by
    rw [State.setPtrs_ptrs, Function.update_of_ne different]
  have own : (s.setPtrs cycle ptrs).ptrs cycle = ptrs := by
    rw [State.setPtrs_ptrs, Function.update_self]
  refine ⟨?_, ?_, ?_, ?_, ?_, barrier.joined⟩
  · intro name bound spawned
    by_cases same : s.cycle = cycle ∧ name = tid
    · obtain ⟨rfl, rfl⟩ := same
      change (((s.setPtrs s.cycle ptrs).setReactor s.cycle name r).reactor s.cycle name).pc ≠
        .absent
      rw [setReactor_self]
      rcases lands with ⟨there, _⟩ | ⟨there, _⟩ <;> rw [there] <;> exact ReactorPc.noConfusion
    · change (((s.setPtrs cycle ptrs).setReactor cycle tid r).reactor s.cycle name).pc ≠ .absent
      rw [setReactor_other same]
      exact barrier.begun name bound spawned
  · intro other name bound
    rw [State.setReactor_ptrs]
    by_cases present : other = cycle
    · subst present
      rw [own, stores]
      by_cases same : name = tid
      · subst same
        rw [setReactor_self]
        refine iff_of_true ?_ ⟨_, List.getElem?_set_self inside⟩
        rcases lands with ⟨there, _⟩ | ⟨there, _⟩ <;> rw [there] <;> trivial
      · rw [setReactor_other (fun both => same both.2), Filled,
          List.getElem?_set_ne (fun equal => same equal.symm)]
        exact barrier.filled other name bound
    · rw [setReactor_other (fun both => present both.1), elsewhere other present]
      exact barrier.filled other name bound
  · intro other name here
    rw [State.setReactor_ptrs]
    by_cases present : other = cycle
    · subst present
      rw [own]
      by_cases same : name = tid
      · subst same
        rw [setReactor_self] at here
        rcases lands with ⟨_, built⟩ | ⟨there, _⟩
        · exact built
        · rw [there] at here
          exact here.elim
      · rw [setReactor_other (fun both => same both.2)] at here
        exact absurd here (fresh name)
    · rw [setReactor_other (fun both => present both.1)] at here
      rw [elsewhere other present]
      exact barrier.reactors other name here
  · intro passed
    have before := barrier.main passed
    by_cases present : s.cycle = cycle
    · rw [present, unbuilt] at before
      cases before
    · change allBuilt ((s.setPtrs cycle ptrs).ptrs s.cycle) = true
      rw [elsewhere s.cycle present]
      exact before
  · intro other built waits
    rw [State.setReactor_ptrs] at built
    by_cases present : other = cycle
    · subst present
      rw [own] at built
      refine ⟨tid, ?_⟩
      rw [setReactor_self]
      rcases lands with ⟨there, _⟩ | ⟨_, open_⟩
      · exact there
      · rw [open_] at built
        cases built
    · rw [elsewhere other present] at built
      obtain ⟨notifier, notifying⟩ := barrier.notifies other built (by
        rcases waits with ⟨name, parked⟩ | main
        · rw [setReactor_other (fun both => present both.1)] at parked
          exact Or.inl ⟨name, parked⟩
        · exact Or.inr main)
      refine ⟨notifier, ?_⟩
      rw [setReactor_other (fun both => present both.1)]
      exact notifying

theorem Reactor.woken_parked (r : Reactor) : r.woken.pc ≠ .parked := by
  unfold Reactor.woken
  split
  · exact ReactorPc.noConfusion
  · rename_i awake
    exact awake

theorem Reactor.woken_stored (r : Reactor) : r.woken.pc.stored ↔ r.pc.stored := by
  unfold Reactor.woken
  split
  · rename_i parked
    rw [parked]
    exact iff_of_true trivial trivial
  · rfl

/-- The thread notifies; whoever was parked tests the array again. -/
theorem Barrier.notify (barrier : Barrier s) (place : (s.reactor cycle tid).pc = .notify) :
    Barrier ((s.notifyAll cycle).setReactor cycle tid
      ((s.reactor cycle tid).setPc .batchGuard)) := by
  have built : allBuilt (s.ptrs cycle) = true :=
    barrier.reactors cycle tid (by rw [place]; trivial)
  generalize placed : (s.reactor cycle tid).setPc ReactorPc.batchGuard = r
  have lands : r.pc = .batchGuard := by
    rw [← placed]
    rfl
  have elsewhere (other name : Nat) (different : other ≠ cycle) :
      (((s.notifyAll cycle).setReactor cycle tid r).reactor other name) = s.reactor other name := by
    rw [setReactor_other (fun both => different both.1), State.notifyAll_reactor,
      Function.update_of_ne different]
  have woken (name : Nat) (different : name ≠ tid) :
      (((s.notifyAll cycle).setReactor cycle tid r).reactor cycle name) =
        (s.reactor cycle name).woken := by
    rw [setReactor_other (fun both => different both.2), State.notifyAll_reactor,
      Function.update_self]
  have mainPassed : ((s.notifyAll cycle).setReactor cycle tid r).main.passed → s.main.passed := by
    change (if s.cycle = cycle ∧ s.main = .parked then MainPc.check else s.main).passed → _
    split
    · exact False.elim
    · exact id
  have mainJoined : ((s.notifyAll cycle).setReactor cycle tid r).main.joined → s.main.joined := by
    change (if s.cycle = cycle ∧ s.main = .parked then MainPc.check else s.main).joined → _
    split
    · exact False.elim
    · exact id
  have mainSpawned (name : Nat) :
      ((s.notifyAll cycle).setReactor cycle tid r).main.spawned name → s.main.spawned name := by
    change (if s.cycle = cycle ∧ s.main = .parked then MainPc.check else s.main).spawned name → _
    split
    · rename_i parked
      rw [parked.2]
      exact id
    · exact id
  refine ⟨?_, ?_, ?_, fun passed => barrier.main (mainPassed passed), ?_,
    fun joined => barrier.joined (mainJoined joined)⟩
  · intro name inside spawned
    have before := barrier.begun name inside (mainSpawned name spawned)
    change (((s.notifyAll cycle).setReactor cycle tid r).reactor s.cycle name).pc ≠ .absent
    by_cases present : s.cycle = cycle
    · rw [present] at before ⊢
      by_cases same : name = tid
      · rw [same, setReactor_self, lands]
        exact ReactorPc.noConfusion
      · rw [woken name same]
        intro absent
        unfold Reactor.woken at absent
        split at absent
        · cases absent
        · exact before absent
    · rw [elsewhere s.cycle name present]
      exact before
  · intro other name inside
    by_cases present : other = cycle
    · subst present
      by_cases same : name = tid
      · subst same
        rw [setReactor_self, lands]
        exact (iff_of_true trivial (by rw [place]; trivial)).trans
          (barrier.filled other name inside)
      · rw [woken name same, Reactor.woken_stored]
        exact barrier.filled other name inside
    · rw [elsewhere other name present]
      exact barrier.filled other name inside
  · intro other name here
    by_cases present : other = cycle
    · rw [present]
      exact built
    · rw [elsewhere other name present] at here
      exact barrier.reactors other name here
  · rintro other full waits
    by_cases present : other = cycle
    · subst present
      rcases waits with ⟨name, parked⟩ | ⟨same, parked⟩
      · by_cases own : name = tid
        · rw [own, setReactor_self, lands] at parked
          cases parked
        · rw [woken name own] at parked
          exact absurd parked (Reactor.woken_parked _)
      · change (if s.cycle = other ∧ s.main = .parked then MainPc.check else s.main) = _ at parked
        have here : s.cycle = other := same
        split at parked
        · cases parked
        · rename_i awake
          exact absurd ⟨here, parked⟩ awake
    · obtain ⟨notifier, notifying⟩ := barrier.notifies other full (by
        rcases waits with ⟨name, parked⟩ | ⟨same, parked⟩
        · rw [elsewhere other name present] at parked
          exact Or.inl ⟨name, parked⟩
        · refine Or.inr ⟨same, ?_⟩
          change (if s.cycle = cycle ∧ s.main = .parked then MainPc.check else s.main) = _
            at parked
          split at parked
          · cases parked
          · exact parked)
      refine ⟨notifier, ?_⟩
      rw [elsewhere other notifier present]
      exact notifying

theorem State.batchGuard_passed (r : Reactor) : (s.batchGuard r).pc.passed := by
  unfold State.batchGuard
  split <;> trivial

theorem State.dispatchOne_passed (r : Reactor) (k left : Nat) (woken : Option Nat) :
    (s.dispatchOne r k left woken).pc.passed := by
  unfold State.dispatchOne
  split <;> trivial

theorem State.pushTurn_passed (r : Reactor) : (s.pushTurn r).pc.passed := by
  unfold State.pushTurn
  split <;> trivial

theorem State.dropGuard_passed (r : Reactor) : (s.dropGuard r).pc.passed := by
  unfold State.dropGuard
  split <;> trivial

theorem Barrier.reactor {events : Nat} {woken : Option Nat} (barrier : Barrier s) (inv : Inv s)
    (taken : reactor s cycle tid events woken = some s') : Barrier s' := by
  unfold Process.reactor at taken
  cases place : (s.reactor cycle tid).pc with
  | absent | parked | finished | faulted =>
      simp only [place] at taken
      cases taken
  | build =>
      simp only [place] at taken
      cases taken
      exact barrier.setReactor ReactorPc.noConfusion (iff_of_false id (by rw [place]; exact id))
        False.elim ReactorPc.noConfusion (by rw [place]; exact ReactorPc.noConfusion)
  | store =>
      have own := (inv.reactors cycle tid).built (by rw [place]; exact ReactorPc.noConfusion)
        (by rw [place]; exact ReactorPc.noConfusion)
      simp only [place] at taken
      cases taken
      exact barrier.store inv place (by rw [own])
  | relock =>
      simp only [place] at taken
      cases taken
      cases built : allBuilt (s.ptrs cycle) with
      | true =>
          exact barrier.setReactor ReactorPc.noConfusion
            (iff_of_true trivial (by rw [place]; trivial)) (fun _ => built)
            ReactorPc.noConfusion (by rw [place]; exact ReactorPc.noConfusion)
      | false =>
          exact barrier.setReactor ReactorPc.noConfusion
            (iff_of_true trivial (by rw [place]; trivial)) False.elim
            (fun _ => built) (by rw [place]; exact ReactorPc.noConfusion)
  | notify =>
      simp only [place] at taken
      cases taken
      exact barrier.notify place
  | batchGuard =>
      simp only [place] at taken
      cases taken
      exact barrier.goes place trivial ReactorPc.noConfusion (State.batchGuard_passed _)
  | loopTest =>
      simp only [place] at taken
      cases taken
      refine barrier.goes place trivial ReactorPc.noConfusion ?_
      change (if s.shutdown = true then ReactorPc.drain else .poll).passed
      split <;> trivial
  | poll | deferredRemove | drain =>
      simp only [place] at taken
      cases taken
      exact barrier.goes place trivial ReactorPc.noConfusion trivial
  | dispatch k left =>
      cases left with
      | zero =>
          simp only [place] at taken
          cases taken
          exact barrier.goes place trivial ReactorPc.noConfusion trivial
      | succ left =>
          simp only [place] at taken
          split at taken
          · cases taken
            exact barrier.goes place trivial ReactorPc.noConfusion
              (State.dispatchOne_passed _ _ _ _)
          · cases taken
  | pushBatch =>
      simp only [place] at taken
      cases taken
      exact barrier.goes place trivial ReactorPc.noConfusion (State.pushTurn_passed _)
  | dropGuard =>
      simp only [place] at taken
      cases taken
      exact barrier.goes place trivial ReactorPc.noConfusion (State.dropGuard_passed _)

theorem Barrier.setMain (barrier : Barrier s) {here next : MainPc} (place : s.main = here)
    (spawned : ∀ tid, tid < cfg.reactors s.cycle → next.spawned tid →
      here.spawned tid ∨ (s.reactor s.cycle tid).pc ≠ .absent)
    (passed : next.passed → here.passed ∨ allBuilt (s.ptrs s.cycle) = true)
    (parks : next = .parked → allBuilt (s.ptrs s.cycle) = false)
    (joined : next.joined → here.joined ∨ s.returned = cfg.workers s.cycle) :
    Barrier (s.setMain next) := by
  subst place
  refine ⟨?_, barrier.filled, barrier.reactors, ?_, ?_, ?_⟩
  · intro tid inside now
    rcases spawned tid inside now with before | born
    · exact barrier.begun tid inside before
    · exact born
  · intro now
    rcases passed now with before | built
    · exact barrier.main before
    · exact built
  · rintro cycle built (reactor | ⟨same, parked⟩)
    · exact barrier.notifies cycle built (Or.inl reactor)
    · have here : s.cycle = cycle := same
      have unbuilt := parks parked
      rw [here] at unbuilt
      change allBuilt (s.ptrs cycle) = true at built
      rw [unbuilt] at built
      cases built
  · intro now
    rcases joined now with before | returned
    · exact barrier.joined before
    · exact returned

theorem Barrier.others (barrier : Barrier s) {next : State cfg} (cycle : next.cycle = s.cycle)
    (main : next.main = s.main) (reactor : next.reactor = s.reactor) (ptrs : next.ptrs = s.ptrs)
    (returned : next.main.joined → next.returned = s.returned) : Barrier next := by
  refine ⟨?_, ?_, ?_, ?_, ?_, ?_⟩
  · rw [cycle, main, reactor]
    exact barrier.begun
  · rw [reactor, ptrs]
    exact barrier.filled
  · rw [reactor, ptrs]
    exact barrier.reactors
  · rw [cycle, main, ptrs]
    exact barrier.main
  · intro other
    rw [State.waiting, cycle, main, reactor, ptrs]
    exact barrier.notifies other
  · intro joined
    rw [returned joined, cycle]
    rw [main] at joined
    exact barrier.joined joined

theorem Barrier.spawn (barrier : Barrier s) (inv : Inv s) {next : Nat}
    (place : s.main = .spawn next) :
    Barrier ((s.setMain (.spawn (next + 1))).setReactor s.cycle next
      { pc := .build, localPtr := none, batch := none }) := by
  have absent : (s.reactor s.cycle next).pc = .absent := by
    by_contra born
    rcases ((inv.reactors s.cycle next).spawned born).2 with earlier | ⟨_, spawned⟩
    · exact absurd earlier (Nat.lt_irrefl s.cycle)
    · rw [place] at spawned
      exact absurd spawned (Nat.lt_irrefl next)
  have built : Barrier (s.setReactor s.cycle next
      { pc := .build, localPtr := none, batch := none }) :=
    barrier.setReactor ReactorPc.noConfusion (iff_of_false id (by rw [absent]; exact id))
      False.elim ReactorPc.noConfusion (by rw [absent]; exact ReactorPc.noConfusion)
  refine built.setMain place ?_ False.elim MainPc.noConfusion False.elim
  intro tid _inside spawned
  rcases Nat.lt_succ_iff_lt_or_eq.mp spawned with before | same
  · exact Or.inl before
  · refine Or.inr ?_
    change ((s.setReactor s.cycle next _).reactor s.cycle tid).pc ≠ .absent
    rw [same, setReactor_self]
    exact ReactorPc.noConfusion

theorem Barrier.mainStep (barrier : Barrier s) (inv : Inv s) (taken : Process.main s = some s') :
    Barrier s' := by
  unfold Process.main at taken
  cases place : s.main with
  | start =>
      simp only [place] at taken
      cases taken
      have moved : Barrier (s.setMain (.spawn 0)) :=
        barrier.setMain place (fun _ _ spawned => absurd spawned (Nat.not_lt_zero _)) False.elim
          MainPc.noConfusion False.elim
      exact moved.others rfl rfl rfl rfl False.elim
  | spawn next =>
      simp only [place] at taken
      split at taken
      · cases taken
        exact barrier.spawn inv place
      · rename_i all
        cases taken
        refine barrier.setMain place ?_ False.elim MainPc.noConfusion False.elim
        exact fun tid inside _ => Or.inl (Nat.lt_of_lt_of_le inside (Nat.le_of_not_lt all))
  | check =>
      simp only [place] at taken
      cases taken
      cases built : allBuilt (s.ptrs s.cycle) with
      | true =>
          exact barrier.setMain place (fun _ _ => Or.inl) (fun _ => Or.inr built)
            MainPc.noConfusion False.elim
      | false =>
          exact barrier.setMain place (fun _ _ => Or.inl) False.elim (fun _ => built) False.elim
  | parked =>
      simp only [place] at taken
      cases taken
  | collect =>
      simp only [place] at taken
      cases taken
      exact barrier.setMain place (fun _ _ => Or.inl) Or.inl MainPc.noConfusion False.elim
  | storeGlobal pointers =>
      simp only [place] at taken
      cases taken
      have moved : Barrier (s.setMain .run) :=
        barrier.setMain place (fun _ _ => Or.inl) Or.inl MainPc.noConfusion False.elim
      exact moved.others rfl rfl rfl rfl False.elim
  | run =>
      simp only [place] at taken
      cases taken
      have moved : Barrier (s.setMain .joinWorkers) :=
        barrier.setMain place (fun _ _ => Or.inl) Or.inl MainPc.noConfusion False.elim
      exact moved.others rfl rfl rfl rfl False.elim
  | joinWorkers =>
      simp only [place] at taken
      split at taken
      · rename_i returned
        cases taken
        exact barrier.setMain place (fun _ _ => Or.inl) Or.inl MainPc.noConfusion
          (fun _ => Or.inr returned)
      · cases taken
  | setShutdown =>
      simp only [place] at taken
      cases taken
      have moved : Barrier (s.setMain (.joinReactors 0)) :=
        barrier.setMain place (fun _ _ => Or.inl) Or.inl MainPc.noConfusion Or.inl
      exact moved.others rfl rfl rfl rfl (fun _ => rfl)
  | joinReactors next =>
      simp only [place] at taken
      split at taken
      · split at taken
        · cases taken
          exact barrier.setMain place (fun _ _ => Or.inl) Or.inl MainPc.noConfusion Or.inl
        · cases taken
      · cases taken
        exact barrier.setMain place (fun _ _ => Or.inl) Or.inl MainPc.noConfusion Or.inl
  | freeWorker worker =>
      simp only [place] at taken
      split at taken
      · cases taken
        have moved : Barrier (s.setMain (.freeWorker (worker + 1))) :=
          barrier.setMain place (fun _ _ => Or.inl) Or.inl MainPc.noConfusion Or.inl
        exact moved.others rfl rfl rfl rfl (fun _ => rfl)
      · cases taken
        exact barrier.setMain place (fun _ _ => Or.inl) Or.inl MainPc.noConfusion Or.inl
  | dropTasks =>
      simp only [place] at taken
      cases taken
      exact barrier.setMain place (fun _ _ => Or.inl) Or.inl MainPc.noConfusion Or.inl
  | freeEpoch =>
      simp only [place] at taken
      cases taken
      have moved : Barrier (s.setMain .freeShared) :=
        barrier.setMain place (fun _ _ => Or.inl) Or.inl MainPc.noConfusion Or.inl
      exact moved.others rfl rfl rfl rfl (fun _ => rfl)
  | freeShared =>
      simp only [place] at taken
      cases taken
      have moved : Barrier (s.setMain .clearGlobal) :=
        barrier.setMain place (fun _ _ => Or.inl) Or.inl MainPc.noConfusion Or.inl
      exact moved.others rfl rfl rfl rfl (fun _ => rfl)
  | clearGlobal =>
      simp only [place] at taken
      cases taken
      have moved : Barrier (s.setMain .exit) :=
        barrier.setMain place (fun _ _ => Or.inl) Or.inl MainPc.noConfusion Or.inl
      exact moved.others rfl rfl rfl rfl (fun _ => rfl)
  | exit =>
      simp only [place] at taken
      cases taken
      refine ⟨fun _ _ => False.elim, barrier.filled, barrier.reactors, False.elim, ?_, False.elim⟩
      rintro cycle built (reactor | ⟨_same, parked⟩)
      · exact barrier.notifies cycle built (Or.inl reactor)
      · cases parked

theorem Barrier.step {action : Action} (barrier : Barrier s) (inv : Inv s)
    (taken : step s action = some s') : Barrier s' := by
  cases action with
  | main => exact barrier.mainStep inv taken
  | wakeMain =>
      simp only [Process.step, Process.wakeMain] at taken
      split at taken
      · rename_i parked
        cases taken
        exact barrier.setMain parked (fun _ _ => Or.inl) False.elim MainPc.noConfusion False.elim
      · cases taken
  | reactor cycle tid events woken => exact barrier.reactor inv taken
  | wakeReactor cycle tid =>
      simp only [Process.step, wakeReactor] at taken
      split at taken
      · rename_i parked
        cases taken
        exact barrier.setReactor ReactorPc.noConfusion
          (iff_of_true trivial (by rw [parked]; trivial)) False.elim ReactorPc.noConfusion
          (by rw [parked]; exact ReactorPc.noConfusion)
      · cases taken
  | workerReturns =>
      simp only [Process.step, workerReturns] at taken
      split at taken
      · rename_i running
        cases taken
        refine barrier.others rfl rfl rfl rfl ?_
        intro joined
        exact absurd (barrier.joined joined) (Nat.ne_of_lt running.2)
      · cases taken
  | newCell =>
      simp only [Process.step, Process.newCell] at taken
      repeat' split at taken
      all_goals
        cases taken
      exact barrier.others rfl rfl rfl rfl (fun _ => rfl)

theorem reachable_barrier (reached : (system cfg).Reachable anyAction s) : Barrier s := by
  apply reached.invariant Barrier
  · intro state start
    rw [start]
    exact Barrier.init
  · intro state next action earlier barrier _permitted taken
    exact barrier.step (reachable_inv earlier) taken

def State.arriving (s : State cfg) (cycle tid : Nat) : Prop :=
  (s.reactor cycle tid).pc = .build ∨ (s.reactor cycle tid).pc = .store ∨
    (s.reactor cycle tid).pc = .notify

/-- Behind the wait the array is full. A thread that waits is not forgotten: a reactor is still
to store or to notify, or the main thread is still to spawn one. -/
structure Awaited (s : State cfg) (cycle : Nat) : Prop where
  reactors : ∀ tid, (s.reactor cycle tid).pc.passed → s.ptrs cycle = locals cfg cycle
  main : s.cycle = cycle → s.main.passed → s.ptrs cycle = locals cfg cycle
  waits : s.waiting cycle → (∃ tid, tid < cfg.reactors cycle ∧ s.arriving cycle tid) ∨
    ∃ next, s.cycle = cycle ∧ s.main = .spawn next ∧ next < cfg.reactors cycle

theorem reactors_awaited (reached : (system cfg).Reachable anyAction s) (cycle : Nat) :
    Awaited s cycle := by
  have inv := reachable_inv reached
  have barrier := reachable_barrier reached
  constructor
  · exact fun tid passed => (inv.stored cycle).eq_locals (barrier.reactors cycle tid passed)
  · intro present passed
    rw [← present]
    exact (inv.stored s.cycle).eq_locals (barrier.main passed)
  · intro waits
    have present : s.cycle = cycle := by
      rcases waits with ⟨tid, parked⟩ | ⟨same, _⟩
      · exact ((inv.reactors cycle tid).live (by rw [parked]; trivial)).1.symm
      · exact same
    have bound (tid : Nat) (born : (s.reactor cycle tid).pc ≠ .absent) : tid < cfg.reactors cycle :=
      ((inv.reactors cycle tid).spawned born).1
    by_cases full : ∀ tid, tid < (s.ptrs cycle).length → Filled (s.ptrs cycle) tid
    · obtain ⟨tid, notifying⟩ := barrier.notifies cycle (allBuilt_of_filled full) waits
      refine Or.inl ⟨tid, bound tid ?_, Or.inr (Or.inr notifying)⟩
      rw [notifying]
      exact ReactorPc.noConfusion
    · simp only [not_forall] at full
      obtain ⟨tid, inside, empty⟩ := full
      rw [(inv.stored cycle).length] at inside
      have unstored := (not_congr (barrier.filled cycle tid inside)).mpr empty
      cases place : (s.reactor cycle tid).pc with
      | build => exact Or.inl ⟨tid, inside, Or.inl place⟩
      | store => exact Or.inl ⟨tid, inside, Or.inr (Or.inl place)⟩
      | absent =>
          have unspawned : ¬ s.main.spawned tid := by
            intro spawned
            subst present
            exact barrier.begun tid inside spawned place
          refine Or.inr ?_
          cases mainAt : s.main with
          | spawn next =>
              rw [mainAt] at unspawned
              exact ⟨next, present, rfl, Nat.lt_of_le_of_lt (Nat.le_of_not_lt unspawned) inside⟩
          | start =>
              rcases waits with ⟨waiter, parked⟩ | ⟨_, parked⟩
              · have hosts := ((inv.reactors cycle waiter).live (by rw [parked]; trivial)).2
                rw [mainAt] at hosts
                exact hosts.elim
              · rw [mainAt] at parked
                cases parked
          | _ =>
              rw [mainAt] at unspawned
              exact absurd trivial unspawned
      | _ =>
          rw [place] at unstored
          exact absurd trivial unstored

/-- In the second cycle the main thread goes to the condition variable before its reactor has
stored a pointer. -/
def waitInSecond : List Action :=
  startActions 0 ++ List.replicate 7 (.reactor 0 0 0 none) ++ [.workerReturns, .main, .main] ++
    List.replicate 3 (.reactor 0 0 0 none) ++ List.replicate 13 .main

private theorem waitInSecond_runs :
    ((system oneEach).exec (State.init oneEach) waitInSecond).isSome = true := by
  decide +kernel

def waitingSecond : State oneEach :=
  ((system oneEach).exec (State.init oneEach) waitInSecond).get waitInSecond_runs

theorem reactors_awaited_in_second :
    Awaited secondCycle 1 ∧ waitingSecond.cycle = 1 ∧ waitingSecond.main = .parked ∧
      Awaited waitingSecond 1 := by
  have start : (system oneEach).Reachable anyAction (State.init oneEach) := .initial _ rfl
  refine ⟨reactors_awaited (start.replay_any twoCycles_runs) 1, by decide +kernel,
    by decide +kernel, ?_⟩
  exact reactors_awaited (start.replay_any waitInSecond_runs) 1

end Yaay.Process
