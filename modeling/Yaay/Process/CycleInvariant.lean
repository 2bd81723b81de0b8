import Yaay.Process.Cycles

set_option autoImplicit false

/-! What holds in every cycle: a reactor thread lives between its spawn and its join,
while the runtime of its cycle is up, and the statics are those of the present cycle
once its hook has stored them. The flag alone is left over from the cycle before. -/

namespace Yaay.Process

open Yaay.Transition

variable {cfg : Config} {s s' : State cfg} {cycle tid : Nat}

def MainPc.spawned (tid : Nat) : MainPc → Prop
  | .start => False
  | .spawn next => tid < next
  | _ => True

/-- The reactor with this number has been spawned and not joined. -/
def MainPc.hosts (tid : Nat) : MainPc → Prop
  | .spawn next => tid < next
  | .check | .parked | .collect | .storeGlobal _ | .run | .joinWorkers | .setShutdown => True
  | .joinReactors next => next ≤ tid
  | .start | .freeWorker _ | .dropTasks | .freeEpoch | .freeShared | .clearGlobal | .exit => False

/-- The runtime of the cycle is built and nothing of it is freed. -/
def MainPc.up : MainPc → Prop
  | .spawn _ | .check | .parked | .collect | .storeGlobal _ | .run | .joinWorkers | .setShutdown
  | .joinReactors _ => True
  | .start | .freeWorker _ | .dropTasks | .freeEpoch | .freeShared | .clearGlobal | .exit => False

def MainPc.stopped : MainPc → Prop
  | .joinReactors _ | .freeWorker _ | .dropTasks | .freeEpoch | .freeShared | .clearGlobal
  | .exit => True
  | _ => False

def MainPc.running : MainPc → Prop
  | .start | .spawn _ | .check | .parked | .collect | .storeGlobal _ | .run => False
  | _ => True

def MainPc.freeing : MainPc → Prop
  | .freeWorker _ | .dropTasks | .freeEpoch | .freeShared | .clearGlobal | .exit => True
  | _ => False

theorem MainPc.down_of_freeing {pc : MainPc} (freeing : pc.freeing) :
    (∀ tid, pc.spawned tid) ∧ ¬ pc.up ∧ pc.stopped ∧ pc.published ∧ pc.running := by
  cases pc <;>
    first
    | exact freeing.elim
    | exact ⟨fun _ => trivial, id, trivial, trivial, trivial⟩

theorem MainPc.hosts_up {pc : MainPc} (hosts : pc.hosts tid) : pc.up := by
  cases pc <;> first | exact trivial | exact hosts

def ReactorPc.live : ReactorPc → Prop
  | .absent | .finished | .faulted => False
  | _ => True

def ReactorPc.early : ReactorPc → Prop
  | .absent | .build | .store | .parked | .relock | .notify | .batchGuard => True
  | _ => False

/-- Between `BatchGuard::new` and the drop of the guard. -/
def ReactorPc.guarded : ReactorPc → Prop
  | .loopTest | .poll | .dispatch _ _ | .pushBatch | .deferredRemove | .drain | .dropGuard => True
  | _ => False

def ReactorPc.turning : ReactorPc → Prop
  | .poll | .dispatch _ _ | .pushBatch | .deferredRemove => True
  | _ => False

def ReactorPc.left : ReactorPc → Prop
  | .drain | .dropGuard | .finished => True
  | _ => False

theorem ReactorPc.calm_of_early {pc : ReactorPc} (early : pc.early) :
    ¬ pc.guarded ∧ ¬ pc.left ∧ ¬ pc.turning ∧ pc ≠ .faulted := by
  cases pc <;> first | exact early.elim | exact ⟨id, id, id, ReactorPc.noConfusion⟩

theorem ReactorPc.busy_of_guarded {pc : ReactorPc} (guarded : pc.guarded) :
    pc.live ∧ ¬ pc.early ∧ pc ≠ .build ∧ pc ≠ .faulted := by
  cases pc <;>
    first
    | exact guarded.elim
    | exact ⟨trivial, id, ReactorPc.noConfusion, ReactorPc.noConfusion⟩

/-- A reactor thread of some cycle, as the present cycle and its main thread allow it. -/
structure ReactorOk (cfg : Config) (present : Nat) (main : MainPc) (shutdown : Bool)
    (cycle tid : Nat) (r : Reactor) : Prop where
  spawned : r.pc ≠ .absent →
    tid < cfg.reactors cycle ∧ (cycle < present ∨ cycle = present ∧ main.spawned tid)
  live : r.pc.live → cycle = present ∧ main.hosts tid
  built : r.pc ≠ .absent → r.pc ≠ .build → r.localPtr = some ⟨cycle, tid⟩
  fresh : r.pc.early → r.batch = none
  batched : r.pc.guarded → ∃ lists, r.batch = some lists ∧ lists.length = cfg.workers cycle
  sound : r.pc ≠ .faulted
  leaves : r.pc.left → shutdown = true
  turns : r.pc.turning → cycle = 0

def locals (cfg : Config) (cycle : Nat) : List (Option LocalData) :=
  (List.range (cfg.reactors cycle)).map (fun tid => some (LocalData.mk cycle tid))

/-- The array of a cycle holds what the reactors with these numbers have built. -/
structure Stored (cfg : Config) (cycle : Nat) (ptrs : List (Option LocalData)) : Prop where
  length : ptrs.length = cfg.reactors cycle
  own : ∀ tid data, ptrs[tid]? = some (some data) → data = LocalData.mk cycle tid

/-- The whole runtime of a cycle is there, and the static pointer leads to it. -/
structure Alive (cfg : Config) (cycle : Nat) (global : Option Nat) (memory : Memory) :
    Prop where
  global : global = some cycle
  shared : memory.shared = true
  epoch : memory.epoch = true
  workers : ∀ worker, worker < cfg.workers cycle → memory.workers worker = true

def Published (cfg : Config) (cycle : Nat) (mioGlobal : Option GlobalData) : Prop :=
  ∃ data, mioGlobal = some data ∧ data.locals = locals cfg cycle

/-- The cell was registered in some cycle up to the one that created it. -/
structure CellOk (cfg : Config) (present : Nat) (main : MainPc) (cell : MIOCell) : Prop where
  created : cell.cycle ≤ present
  registered : ∃ home, cell.home = some ⟨home, cell.localI⟩ ∧
    cell.localI < cfg.reactors home ∧ home ≤ cell.cycle ∧ (home = present → main.published) ∧
    (cell.started = true → home = cell.cycle)

structure Inv (s : State cfg) : Prop where
  reactors : ∀ cycle tid,
    ReactorOk cfg s.cycle s.main s.shutdown cycle tid (s.reactor cycle tid)
  stored : ∀ cycle, Stored cfg cycle (s.ptrs cycle)
  alive : s.main.up → Alive cfg s.cycle s.global (s.memory s.cycle)
  flag : s.shutdown = true ↔ 0 < s.cycle ∨ s.main.stopped
  collects : s.main = .collect → allBuilt (s.ptrs s.cycle) = true
  stores : ∀ pointers, s.main = .storeGlobal pointers → pointers = locals cfg s.cycle
  published : s.main.published → Published cfg s.cycle s.mioGlobal
  stale : ¬ s.main.published → ∀ data, s.mioGlobal = some data →
    ∃ before, before + 1 = s.cycle ∧ data.locals = locals cfg before
  born : s.born = true → 0 < s.cycle ∨ s.main.running
  cells : ∀ cell ∈ s.cells, CellOk cfg s.cycle s.main cell

theorem Inv.reading (inv : Inv s) (live : (s.reactor cycle tid).pc.live) :
    Alive cfg cycle s.global (s.memory cycle) := by
  obtain ⟨rfl, hosts⟩ := (inv.reactors cycle tid).live live
  exact inv.alive (MainPc.hosts_up hosts)

theorem Alive.shared_eq
    (alive : Alive cfg cycle s.global (s.memory cycle)) : s.shared = some cycle := by
  rw [State.shared, alive.global]
  simp [alive.shared]

theorem Alive.newBatch (alive : Alive cfg cycle s.global (s.memory cycle)) :
    s.newBatch = some (List.replicate (cfg.workers cycle) 0) := by
  rw [State.newBatch, alive.shared_eq, Option.map_some]

theorem Alive.pushBatch {lists : List Nat}
    (alive : Alive cfg cycle s.global (s.memory cycle))
    (length : lists.length = cfg.workers cycle) :
    s.pushBatch lists = some (lists.map (fun _ => 0)) := by
  have there : ∀ worker ∈ List.range lists.length,
      lists.getD worker 0 = 0 ∨ (s.memory cycle).workers worker = true := by
    intro worker member
    rw [List.mem_range, length] at member
    exact Or.inr (alive.workers worker member)
  simp only [State.pushBatch, alive.shared_eq]
  exact if_pos ⟨there, Or.inr alive.epoch⟩

theorem Alive.dispatch {lists : List Nat} {k : Nat} {woken : Option Nat}
    (alive : Alive cfg cycle s.global (s.memory cycle))
    (length : lists.length = cfg.workers cycle)
    (bounded : ∀ worker ∈ woken, worker < cfg.workers cycle) :
    ∃ after, s.dispatch lists k woken = some after ∧ after.length = cfg.workers cycle := by
  have pushed : ∃ between, (if (k + 1) % 128 = 0 then s.pushBatch lists else some lists) =
      some between ∧ between.length = cfg.workers cycle := by
    by_cases full : (k + 1) % 128 = 0
    · rw [if_pos full]
      exact ⟨_, alive.pushBatch length, by rw [List.length_map, length]⟩
    · rw [if_neg full]
      exact ⟨lists, rfl, length⟩
  obtain ⟨between, flushed, size⟩ := pushed
  simp only [State.dispatch, flushed]
  cases woken with
  | none => exact ⟨between, rfl, size⟩
  | some worker =>
      have inside : worker < between.length := by
        rw [size]
        exact bounded worker rfl
      refine ⟨between.modify worker (· + 1), if_pos inside, ?_⟩
      rw [List.length_modify, size]

theorem setReactor_self (r : Reactor) : (s.setReactor cycle tid r).reactor cycle tid = r := by
  rw [State.setReactor_reactor, Function.update_self, Function.update_self]

theorem setReactor_pc {r : Reactor} {pc : ReactorPc} (placed : r.pc = pc) :
    ((s.setReactor cycle tid r).reactor cycle tid).pc = pc := by
  rw [setReactor_self, placed]

theorem setReactor_other {r : Reactor} {other name : Nat}
    (different : ¬ (other = cycle ∧ name = tid)) :
    (s.setReactor cycle tid r).reactor other name = s.reactor other name := by
  rw [State.setReactor_reactor]
  by_cases same : other = cycle
  · subst same
    rw [Function.update_self, Function.update_of_ne (fun equal => different ⟨rfl, equal⟩)]
  · rw [Function.update_of_ne same]

theorem Inv.setReactor (inv : Inv s) {r : Reactor}
    (ok : ReactorOk cfg s.cycle s.main s.shutdown cycle tid r) :
    Inv (s.setReactor cycle tid r) := by
  refine ⟨?_, inv.stored, inv.alive, inv.flag, inv.collects, inv.stores, inv.published, inv.stale,
    inv.born, inv.cells⟩
  intro other name
  by_cases same : other = cycle ∧ name = tid
  · obtain ⟨rfl, rfl⟩ := same
    rw [setReactor_self]
    exact ok
  · rw [setReactor_other same]
    exact inv.reactors other name

section Going

variable {present : Nat} {main : MainPc} {shutdown : Bool} {r : Reactor} {here there : ReactorPc}

theorem ReactorOk.go {r' : Reactor} (ok : ReactorOk cfg present main shutdown cycle tid r)
    (live : r.pc.live) (built : r'.pc ≠ .build → r'.localPtr = some ⟨cycle, tid⟩)
    (fresh : r'.pc.early → r'.batch = none)
    (batched : r'.pc.guarded →
      ∃ lists, r'.batch = some lists ∧ lists.length = cfg.workers cycle)
    (sound : r'.pc ≠ .faulted) (leaves : r'.pc.left → shutdown = true)
    (turns : r'.pc.turning → cycle = 0) :
    ReactorOk cfg present main shutdown cycle tid r' := by
  have born : r.pc ≠ .absent := by
    intro absent
    rw [absent] at live
    exact live
  exact ⟨fun _ => ok.spawned born, fun _ => ok.live live, fun _ => built, fresh, batched, sound,
    leaves, turns⟩

theorem ReactorOk.local_of_live (ok : ReactorOk cfg present main shutdown cycle tid r)
    (place : r.pc = here) (live : here.live) (behind : here ≠ .build) :
    r.localPtr = some ⟨cycle, tid⟩ := by
  subst place
  apply ok.built _ behind
  intro absent
  rw [absent] at live
  exact live

theorem ReactorOk.wait (ok : ReactorOk cfg present main shutdown cycle tid r)
    (place : r.pc = here) (live : here.live) (behind : here ≠ .build) (before : here.early)
    (after : there.early) : ReactorOk cfg present main shutdown cycle tid (r.setPc there) := by
  have own := ok.local_of_live place live behind
  obtain ⟨unguarded, stays, idle, sound⟩ := ReactorPc.calm_of_early after
  subst place
  exact ok.go live (fun _ => own) (fun _ => ok.fresh before) (fun now => absurd now unguarded)
    sound (fun now => absurd now stays) (fun now => absurd now idle)

theorem ReactorOk.turn (ok : ReactorOk cfg present main shutdown cycle tid r)
    (place : r.pc = here) (before : here.guarded) (after : there.guarded)
    (leaves : there.left → shutdown = true) (turns : there.turning → cycle = 0) :
    ReactorOk cfg present main shutdown cycle tid (r.setPc there) := by
  obtain ⟨live, _, behind, _⟩ := ReactorPc.busy_of_guarded before
  obtain ⟨_, late, _, sound⟩ := ReactorPc.busy_of_guarded after
  have own := ok.local_of_live place live behind
  subst place
  exact ok.go live (fun _ => own) (fun now => absurd now late) (fun _ => ok.batched before)
    sound leaves turns

theorem ReactorOk.moveBatch {lists : List Nat}
    (ok : ReactorOk cfg present main shutdown cycle tid r)
    (place : r.pc = here) (live : here.live) (behind : here ≠ .build)
    (length : lists.length = cfg.workers cycle) (after : there.guarded)
    (leaves : there.left → shutdown = true) (turns : there.turning → cycle = 0) :
    ReactorOk cfg present main shutdown cycle tid (r.setBatch there (some lists)) := by
  obtain ⟨_, late, _, sound⟩ := ReactorPc.busy_of_guarded after
  have own := ok.local_of_live place live behind
  subst place
  exact ok.go live (fun _ => own) (fun now => absurd now late) (fun _ => ⟨lists, rfl, length⟩)
    sound leaves turns

end Going

theorem Inv.pushes (inv : Inv s) {here : ReactorPc} (place : (s.reactor cycle tid).pc = here)
    (live : here.live) (guarded : here.guarded) :
    ∃ lists, (s.reactor cycle tid).batch.bind s.pushBatch = some lists ∧
      lists.length = cfg.workers cycle := by
  subst place
  obtain ⟨lists, batch, length⟩ := (inv.reactors cycle tid).batched guarded
  refine ⟨lists.map (fun _ => 0), ?_, by rw [List.length_map, length]⟩
  rw [batch]
  exact (inv.reading live).pushBatch length

theorem Inv.notStopped (inv : Inv s) (first : ¬ s.shutdown = true) : s.cycle = 0 := by
  have open_ := fun either => first (inv.flag.mpr either)
  have small : ¬ 0 < s.cycle := fun later => open_ (Or.inl later)
  omega

/-- The steps that neither store into the array nor wake the threads that wait for it. -/
theorem Inv.moveReactor {events : Nat} {woken : Option Nat} (inv : Inv s)
    (taken : reactor s cycle tid events woken = some s')
    (notStore : (s.reactor cycle tid).pc ≠ .store)
    (notNotify : (s.reactor cycle tid).pc ≠ .notify) : Inv s' := by
  have ok := inv.reactors cycle tid
  unfold Process.reactor at taken
  cases place : (s.reactor cycle tid).pc with
  | absent | parked | finished | faulted =>
      simp only [place] at taken
      cases taken
  | store => exact absurd place notStore
  | notify => exact absurd place notNotify
  | build =>
      simp only [place] at taken
      cases taken
      apply inv.setReactor
      apply ok.go (by rw [place]; trivial)
      · exact fun _ => rfl
      · exact fun _ => ok.fresh (by rw [place]; trivial)
      · exact False.elim
      · exact ReactorPc.noConfusion
      · exact False.elim
      · exact False.elim
  | relock =>
      simp only [place] at taken
      cases taken
      apply inv.setReactor
      cases allBuilt (s.ptrs cycle) with
      | true =>
          exact ok.wait place trivial ReactorPc.noConfusion trivial trivial
      | false =>
          exact ok.wait place trivial ReactorPc.noConfusion trivial trivial
  | batchGuard =>
      simp only [place] at taken
      cases taken
      apply inv.setReactor
      have live : (s.reactor cycle tid).pc.live := by rw [place]; trivial
      have none : (s.reactor cycle tid).batch = none := ok.fresh (by rw [place]; trivial)
      rw [State.batchGuard, (inv.reading live).newBatch, none]
      exact ok.moveBatch place trivial ReactorPc.noConfusion List.length_replicate trivial
        False.elim False.elim
  | loopTest =>
      simp only [place] at taken
      cases taken
      apply inv.setReactor
      have live : (s.reactor cycle tid).pc.live := by rw [place]; trivial
      by_cases flag : s.shutdown = true
      · rw [if_pos flag]
        exact ok.turn place trivial trivial (fun _ => flag) False.elim
      · rw [if_neg flag]
        have first : cycle = 0 := by
          rw [(ok.live live).1]
          exact inv.notStopped flag
        exact ok.turn place trivial trivial False.elim (fun _ => first)
  | poll =>
      simp only [place] at taken
      cases taken
      apply inv.setReactor
      exact ok.turn place trivial trivial False.elim (fun _ => ok.turns (by rw [place]; trivial))
  | dispatch k left =>
      have first : cycle = 0 := ok.turns (by rw [place]; trivial)
      cases left with
      | zero =>
          simp only [place] at taken
          cases taken
          apply inv.setReactor
          exact ok.turn place trivial trivial False.elim (fun _ => first)
      | succ left =>
          simp only [place] at taken
          split at taken
          · rename_i bounded
            cases taken
            apply inv.setReactor
            have live : (s.reactor cycle tid).pc.live := by rw [place]; trivial
            obtain ⟨lists, batch, length⟩ := ok.batched (by rw [place]; trivial)
            obtain ⟨after, dispatched, size⟩ := (inv.reading live).dispatch length bounded
            rw [State.dispatchOne, batch, Option.bind_some, dispatched]
            exact ok.moveBatch place trivial ReactorPc.noConfusion size trivial False.elim
              (fun _ => first)
          · cases taken
  | pushBatch =>
      simp only [place] at taken
      cases taken
      apply inv.setReactor
      obtain ⟨lists, pushed, length⟩ := inv.pushes place trivial trivial
      rw [State.pushTurn, pushed]
      exact ok.moveBatch place trivial ReactorPc.noConfusion length trivial False.elim
        (fun _ => ok.turns (by rw [place]; trivial))
  | deferredRemove =>
      simp only [place] at taken
      cases taken
      apply inv.setReactor
      exact ok.turn place trivial trivial False.elim False.elim
  | drain =>
      simp only [place] at taken
      cases taken
      apply inv.setReactor
      exact ok.turn place trivial trivial (fun _ => ok.leaves (by rw [place]; trivial)) False.elim
  | dropGuard =>
      simp only [place] at taken
      cases taken
      apply inv.setReactor
      have live : (s.reactor cycle tid).pc.live := by rw [place]; trivial
      have own := ok.local_of_live place trivial ReactorPc.noConfusion
      obtain ⟨lists, pushed, _⟩ := inv.pushes place trivial trivial
      rw [State.dropGuard, pushed]
      apply ok.go live
      · exact fun _ => own
      · exact fun _ => rfl
      · exact False.elim
      · exact ReactorPc.noConfusion
      · exact fun _ => ok.leaves (by rw [place]; trivial)
      · exact False.elim

private theorem allBuilt_set {ptrs : List (Option LocalData)} {data : LocalData} (tid : Nat)
    (built : allBuilt ptrs = true) : allBuilt (ptrs.set tid (some data)) = true := by
  rw [allBuilt, List.all_eq_true] at built ⊢
  intro entry member
  rcases List.mem_or_eq_of_mem_set member with before | same
  · exact built entry before
  · rw [same]
    rfl

theorem Stored.set {ptrs : List (Option LocalData)} (stored : Stored cfg cycle ptrs) (tid : Nat) :
    Stored cfg cycle (ptrs.set tid (some ⟨cycle, tid⟩)) := by
  constructor
  · rw [List.length_set, stored.length]
  · intro name data found
    by_cases same : tid = name
    · subst same
      rw [List.getElem?_set_self'] at found
      cases entry : ptrs[tid]? with
      | none => rw [entry] at found; cases found
      | some before => rw [entry] at found; cases found; rfl
    · rw [List.getElem?_set_ne same] at found
      exact stored.own name data found

theorem Stored.eq_locals {ptrs : List (Option LocalData)} (stored : Stored cfg cycle ptrs)
    (built : allBuilt ptrs = true) : ptrs = locals cfg cycle := by
  apply List.ext_getElem?
  intro tid
  by_cases inside : tid < cfg.reactors cycle
  · have bound : tid < ptrs.length := by rw [stored.length]; exact inside
    have entry : ptrs[tid]? = some ptrs[tid] := List.getElem?_eq_getElem bound
    rw [allBuilt, List.all_eq_true] at built
    have some := built ptrs[tid] (List.getElem_mem bound)
    obtain ⟨data, found⟩ := Option.isSome_iff_exists.mp some
    rw [found] at entry
    rw [entry, stored.own tid data entry, locals, List.getElem?_map, List.getElem?_range inside]
    rfl
  · have outside : cfg.reactors cycle ≤ tid := Nat.le_of_not_lt inside
    rw [List.getElem?_eq_none (by rw [stored.length]; exact outside), locals,
      List.getElem?_eq_none (by rw [List.length_map, List.length_range]; exact outside)]

theorem Inv.setPtrs (inv : Inv s) (cycle tid : Nat) :
    Inv (s.setPtrs cycle ((s.ptrs cycle).set tid (some ⟨cycle, tid⟩))) := by
  refine ⟨inv.reactors, ?_, inv.alive, inv.flag, ?_, inv.stores, inv.published, inv.stale,
    inv.born, inv.cells⟩
  · intro other
    rw [State.setPtrs_ptrs]
    by_cases same : other = cycle
    · subst same
      rw [Function.update_self]
      exact (inv.stored other).set tid
    · rw [Function.update_of_ne same]
      exact inv.stored other
  · intro collecting
    have built := inv.collects collecting
    rw [State.setPtrs_ptrs, State.setPtrs_cycle]
    by_cases same : s.cycle = cycle
    · subst same
      rw [Function.update_self]
      exact allBuilt_set tid built
    · rw [Function.update_of_ne same]
      exact built

theorem Reactor.woken_pc_of_ne {r : Reactor} (awake : r.pc ≠ .parked) : r.woken = r := by
  unfold Reactor.woken
  split
  · rename_i parked
    exact absurd parked awake
  · rfl

theorem ReactorOk.woken {present : Nat} {main : MainPc} {shutdown : Bool} {r : Reactor}
    (ok : ReactorOk cfg present main shutdown cycle tid r) :
    ReactorOk cfg present main shutdown cycle tid r.woken := by
  by_cases parked : r.pc = .parked
  · have woken : r.woken = r.setPc .relock := by
      unfold Reactor.woken
      rw [parked]
    rw [woken]
    exact ok.wait parked trivial ReactorPc.noConfusion trivial trivial
  · rw [Reactor.woken_pc_of_ne parked]
    exact ok

theorem ReactorOk.setMain {present : Nat} {main next : MainPc} {shutdown : Bool} {r : Reactor}
    (ok : ReactorOk cfg present main shutdown cycle tid r)
    (spawned : main.spawned tid → next.spawned tid)
    (hosts : cycle = present → r.pc.live → main.hosts tid → next.hosts tid) :
    ReactorOk cfg present next shutdown cycle tid r := by
  refine ⟨?_, ?_, ok.built, ok.fresh, ok.batched, ok.sound, ok.leaves, ok.turns⟩
  · intro born
    obtain ⟨inside, earlier | ⟨same, before⟩⟩ := ok.spawned born
    · exact ⟨inside, Or.inl earlier⟩
    · exact ⟨inside, Or.inr ⟨same, spawned before⟩⟩
  · intro live
    obtain ⟨same, hosted⟩ := ok.live live
    exact ⟨same, hosts same live hosted⟩

theorem CellOk.setMain {present : Nat} {main next : MainPc} {cell : MIOCell}
    (ok : CellOk cfg present main cell) (published : main.published → next.published) :
    CellOk cfg present next cell := by
  obtain ⟨created, home, registered, inside, before, now, started⟩ := ok
  exact ⟨created, home, registered, inside, before, fun same => published (now same), started⟩

theorem Inv.setMain (inv : Inv s) {here next : MainPc} (place : s.main = here)
    (spawned : ∀ tid, here.spawned tid → next.spawned tid)
    (hosts : ∀ tid, (s.reactor s.cycle tid).pc.live → here.hosts tid → next.hosts tid)
    (up : next.up → here.up) (stopped : next.stopped ↔ here.stopped)
    (published : next.published ↔ here.published) (running : here.running → next.running)
    (collects : next = .collect → allBuilt (s.ptrs s.cycle) = true)
    (stores : ∀ pointers, next = .storeGlobal pointers → pointers = locals cfg s.cycle) :
    Inv (s.setMain next) := by
  subst place
  constructor
  · intro cycle tid
    apply (inv.reactors cycle tid).setMain (spawned tid)
    intro same live
    rw [same] at live
    exact hosts tid live
  · exact inv.stored
  · exact fun now => inv.alive (up now)
  · rw [State.setMain_main, stopped]
    exact inv.flag
  · exact collects
  · exact stores
  · exact fun now => inv.published (published.mp now)
  · exact fun not => inv.stale (fun now => not (published.mpr now))
  · intro born
    exact (inv.born born).imp id running
  · exact fun cell member => (inv.cells cell member).setMain published.mpr

/-- The teardown goes on; nobody but the main thread is there to see it. -/
theorem Inv.free (inv : Inv s) {here next : MainPc} (place : s.main = here)
    (before : here.freeing) (after : next.freeing) : Inv (s.setMain next) := by
  obtain ⟨_, wasDown, wasStopped, wasPublished, _⟩ := MainPc.down_of_freeing before
  obtain ⟨spawned, down, stopped, published, running⟩ := MainPc.down_of_freeing after
  apply inv.setMain place
  · exact fun tid _ => spawned tid
  · exact fun tid _ hosted => absurd (MainPc.hosts_up hosted) wasDown
  · exact fun up => absurd up down
  · exact iff_of_true stopped wasStopped
  · exact iff_of_true published wasPublished
  · exact fun _ => running
  · intro collecting
    rw [collecting] at after
    exact after.elim
  · intro pointers storing
    rw [storing] at after
    exact after.elim

theorem Inv.setMemory (inv : Inv s) (down : ¬ s.main.up) (cycle : Nat) (memory : Memory) :
    Inv (s.setMemory cycle memory) :=
  ⟨inv.reactors, inv.stored, fun up => absurd up down, inv.flag, inv.collects, inv.stores,
    inv.published, inv.stale, inv.born, inv.cells⟩

theorem Inv.wakeMain (inv : Inv s) (parked : s.main = .parked) : Inv (s.setMain .check) :=
  inv.setMain parked (fun _ => id) (fun _ _ => id) id Iff.rfl Iff.rfl id MainPc.noConfusion
    (fun _ => MainPc.noConfusion)

theorem Inv.notifyAll (inv : Inv s) (cycle : Nat) : Inv (s.notifyAll cycle) := by
  have woken : Inv ({ s with
      reactor := Function.update s.reactor cycle
        (fun tid => (s.reactor cycle tid).woken) } : State cfg) := by
    refine ⟨?_, inv.stored, inv.alive, inv.flag, inv.collects, inv.stores, inv.published,
      inv.stale, inv.born, inv.cells⟩
    intro other tid
    by_cases same : other = cycle
    · subst same
      change ReactorOk cfg _ _ _ _ _ (Function.update s.reactor other _ other tid)
      rw [Function.update_self]
      exact (inv.reactors other tid).woken
    · change ReactorOk cfg _ _ _ _ _ (Function.update s.reactor cycle _ other tid)
      rw [Function.update_of_ne same]
      exact inv.reactors other tid
  by_cases waits : s.cycle = cycle ∧ s.main = .parked
  · have both := woken.wakeMain waits.2
    rw [State.notifyAll, if_pos waits]
    exact both
  · rw [State.notifyAll, if_neg waits]
    exact woken

theorem Inv.reactor {events : Nat} {woken : Option Nat} (inv : Inv s)
    (taken : reactor s cycle tid events woken = some s') : Inv s' := by
  cases place : (s.reactor cycle tid).pc with
  | store =>
      have ok := inv.reactors cycle tid
      have own := ok.local_of_live place trivial ReactorPc.noConfusion
      simp only [Process.reactor, place, own] at taken
      cases taken
      apply (inv.setPtrs cycle tid).setReactor
      split
      · exact ok.wait place trivial ReactorPc.noConfusion trivial trivial
      · exact ok.wait place trivial ReactorPc.noConfusion trivial trivial
  | notify =>
      have told := inv.notifyAll cycle
      have ok := told.reactors cycle tid
      have same : (s.notifyAll cycle).reactor cycle tid = s.reactor cycle tid := by
        rw [State.notifyAll_reactor, Function.update_self, Reactor.woken_pc_of_ne]
        rw [place]
        exact ReactorPc.noConfusion
      rw [same] at ok
      simp only [Process.reactor, place] at taken
      cases taken
      apply told.setReactor
      exact ok.wait place trivial ReactorPc.noConfusion trivial trivial
  | _ =>
      apply inv.moveReactor taken
      · rw [place]
        exact ReactorPc.noConfusion
      · rw [place]
        exact ReactorPc.noConfusion

theorem Inv.start (inv : Inv s) (place : s.main = .start) (memory : Memory)
    (whole : Alive cfg s.cycle (some s.cycle) memory) :
    Inv ({ (s.setMain (.spawn 0)).setMemory s.cycle memory with
      global := some s.cycle
      returned := 0 } : State cfg) := by
  constructor
  · intro cycle tid
    have ok := inv.reactors cycle tid
    rw [place] at ok
    exact ok.setMain False.elim (fun _ _ => False.elim)
  · exact inv.stored
  · intro _up
    change Alive cfg s.cycle (some s.cycle) (Function.update s.memory s.cycle memory s.cycle)
    rw [Function.update_self]
    exact whole
  · have flag := inv.flag
    rw [place] at flag
    exact flag
  · exact MainPc.noConfusion
  · exact fun _ => MainPc.noConfusion
  · exact False.elim
  · intro _early
    apply inv.stale
    rw [place]
    exact id
  · intro born
    have started := inv.born born
    rw [place] at started
    exact started
  · intro cell member
    have ok := inv.cells cell member
    rw [place] at ok
    exact ok.setMain id

theorem Inv.spawn (inv : Inv s) {next : Nat} (place : s.main = .spawn next)
    (inside : next < cfg.reactors s.cycle) :
    Inv ((s.setMain (.spawn (next + 1))).setReactor s.cycle next
      { pc := .build, localPtr := none, batch := none }) := by
  have moved : Inv (s.setMain (.spawn (next + 1))) :=
    inv.setMain place (fun _ before => Nat.lt_succ_of_lt before)
      (fun _ _ before => Nat.lt_succ_of_lt before) id Iff.rfl Iff.rfl id MainPc.noConfusion
      (fun _ => MainPc.noConfusion)
  apply moved.setReactor
  constructor
  · exact fun _ => ⟨inside, Or.inr ⟨rfl, Nat.lt_succ_self next⟩⟩
  · exact fun _ => ⟨rfl, Nat.lt_succ_self next⟩
  · exact fun _ behind => absurd rfl behind
  · exact fun _ => rfl
  · exact False.elim
  · exact ReactorPc.noConfusion
  · exact False.elim
  · exact False.elim

theorem Inv.storeGlobal (inv : Inv s) {pointers : List (Option LocalData)}
    (place : s.main = .storeGlobal pointers) :
    Inv ({ s.setMain .run with
      mioGlobal := some { locals := pointers, counter := 0 } } : State cfg) := by
  constructor
  · intro cycle tid
    have ok := inv.reactors cycle tid
    rw [place] at ok
    exact ok.setMain id (fun _ _ => id)
  · exact inv.stored
  · intro _up
    apply inv.alive
    rw [place]
    trivial
  · have flag := inv.flag
    rw [place] at flag
    exact flag
  · exact MainPc.noConfusion
  · exact fun _ => MainPc.noConfusion
  · exact fun _ => ⟨_, rfl, inv.stores pointers place⟩
  · exact fun early => absurd trivial early
  · intro born
    have started := inv.born born
    rw [place] at started
    exact started
  · intro cell member
    have ok := inv.cells cell member
    rw [place] at ok
    exact ok.setMain False.elim

theorem Inv.run (inv : Inv s) (place : s.main = .run) :
    Inv ({ s.setMain .joinWorkers with born := true } : State cfg) := by
  have moved : Inv (s.setMain .joinWorkers) :=
    inv.setMain place (fun _ => id) (fun _ _ => id) id Iff.rfl Iff.rfl False.elim
      MainPc.noConfusion (fun _ => MainPc.noConfusion)
  exact ⟨moved.reactors, moved.stored, moved.alive, moved.flag, moved.collects, moved.stores,
    moved.published, moved.stale, fun _ => Or.inr trivial, moved.cells⟩

theorem Inv.setShutdown (inv : Inv s) (place : s.main = .setShutdown) :
    Inv ({ s.setMain (.joinReactors 0) with shutdown := true } : State cfg) := by
  constructor
  · intro cycle tid
    have ok := inv.reactors cycle tid
    rw [place] at ok
    have moved : ReactorOk cfg s.cycle (.joinReactors 0) s.shutdown cycle tid _ :=
      ok.setMain id (fun _ _ _ => Nat.zero_le tid)
    exact ⟨moved.spawned, moved.live, moved.built, moved.fresh, moved.batched, moved.sound,
      fun _ => rfl, moved.turns⟩
  · exact inv.stored
  · intro _up
    apply inv.alive
    rw [place]
    trivial
  · exact iff_of_true rfl (Or.inr trivial)
  · exact MainPc.noConfusion
  · exact fun _ => MainPc.noConfusion
  · intro _now
    apply inv.published
    rw [place]
    trivial
  · exact fun early => absurd trivial early
  · intro born
    have started := inv.born born
    rw [place] at started
    exact started
  · intro cell member
    have ok := inv.cells cell member
    rw [place] at ok
    exact ok.setMain id

theorem Inv.joinReactor (inv : Inv s) {next : Nat} (place : s.main = .joinReactors next)
    (ended : (s.reactor s.cycle next).pc.ended = true) :
    Inv (s.setMain (.joinReactors (next + 1))) := by
  have waits : ∀ tid, (s.reactor s.cycle tid).pc.live → next ≤ tid → next + 1 ≤ tid := by
    intro tid live joined
    apply Nat.lt_of_le_of_ne joined
    intro same
    subst same
    cases pc : (s.reactor s.cycle next).pc <;> rw [pc] at live ended <;>
      first | exact live | cases ended
  exact inv.setMain place (fun _ => id) waits id Iff.rfl Iff.rfl id MainPc.noConfusion
    (fun _ => MainPc.noConfusion)

theorem Inv.joinedAll (inv : Inv s) {next : Nat} (place : s.main = .joinReactors next)
    (all : ¬ next < cfg.reactors s.cycle) : Inv (s.setMain (.freeWorker 0)) := by
  have none : ∀ tid, (s.reactor s.cycle tid).pc.live → next ≤ tid → False := by
    intro tid live joined
    have ok := inv.reactors s.cycle tid
    have born : (s.reactor s.cycle tid).pc ≠ .absent := by
      intro absent
      rw [absent] at live
      exact live
    exact all (Nat.lt_of_le_of_lt joined (ok.spawned born).1)
  exact inv.setMain place (fun _ => id) none False.elim Iff.rfl Iff.rfl id MainPc.noConfusion
    (fun _ => MainPc.noConfusion)

theorem Inv.exit (inv : Inv s) (place : s.main = .exit) :
    Inv ({ s.setMain .start with cycle := s.cycle + 1 } : State cfg) := by
  constructor
  · intro cycle tid
    have ok := inv.reactors cycle tid
    rw [place] at ok
    have past (live : (s.reactor cycle tid).pc.live) {conclusion : Prop} : conclusion :=
      (ok.live live).2.elim
    refine ⟨?_, fun live => past live, ok.built, ok.fresh, ok.batched, ok.sound, ok.leaves,
      ok.turns⟩
    intro born
    obtain ⟨inside, earlier | ⟨same, _⟩⟩ := ok.spawned born
    · exact ⟨inside, Or.inl (Nat.lt_succ_of_lt earlier)⟩
    · exact ⟨inside, Or.inl (by rw [same]; exact Nat.lt_succ_self s.cycle)⟩
  · exact inv.stored
  · exact False.elim
  · have set := inv.flag.mpr (by rw [place]; exact Or.inr trivial)
    exact iff_of_true set (Or.inl (Nat.succ_pos s.cycle))
  · exact MainPc.noConfusion
  · exact fun _ => MainPc.noConfusion
  · exact False.elim
  · intro _early data stored
    obtain ⟨now, found, whole⟩ := inv.published (by rw [place]; trivial)
    have same : now = data := Option.some.inj (found.symm.trans stored)
    subst same
    exact ⟨s.cycle, rfl, whole⟩
  · exact fun _ => Or.inl (Nat.succ_pos s.cycle)
  · intro cell member
    obtain ⟨created, home, registered, inside, before, _, started⟩ := inv.cells cell member
    refine ⟨Nat.le_succ_of_le created, home, registered, inside, before, ?_, started⟩
    intro same
    change home = s.cycle + 1 at same
    omega

theorem Inv.main (inv : Inv s) (taken : main s = some s') : Inv s' := by
  unfold Process.main at taken
  cases place : s.main with
  | start =>
      simp only [place] at taken
      cases taken
      apply inv.start place
      exact ⟨rfl, rfl, rfl, fun worker inside => decide_eq_true inside⟩
  | spawn next =>
      simp only [place] at taken
      split at taken
      · rename_i inside
        cases taken
        exact inv.spawn place inside
      · cases taken
        exact inv.setMain place (fun _ _ => trivial) (fun _ _ _ => trivial) (fun _ => trivial)
          Iff.rfl Iff.rfl id MainPc.noConfusion (fun _ => MainPc.noConfusion)
  | check =>
      simp only [place] at taken
      cases taken
      cases built : allBuilt (s.ptrs s.cycle) with
      | true =>
          exact inv.setMain place (fun _ => id) (fun _ _ => id) id Iff.rfl Iff.rfl id
            (fun _ => built) (fun _ => MainPc.noConfusion)
      | false =>
          exact inv.setMain place (fun _ => id) (fun _ _ => id) id Iff.rfl Iff.rfl id
            MainPc.noConfusion (fun _ => MainPc.noConfusion)
  | parked =>
      simp only [place] at taken
      cases taken
  | collect =>
      simp only [place] at taken
      cases taken
      have full := (inv.stored s.cycle).eq_locals (inv.collects place)
      exact inv.setMain place (fun _ => id) (fun _ _ => id) id Iff.rfl Iff.rfl id
        MainPc.noConfusion (fun _ same => by cases same; exact full)
  | storeGlobal pointers =>
      simp only [place] at taken
      cases taken
      exact inv.storeGlobal place
  | run =>
      simp only [place] at taken
      cases taken
      exact inv.run place
  | joinWorkers =>
      simp only [place] at taken
      split at taken
      · cases taken
        exact inv.setMain place (fun _ => id) (fun _ _ => id) id Iff.rfl Iff.rfl id
          MainPc.noConfusion (fun _ => MainPc.noConfusion)
      · cases taken
  | setShutdown =>
      simp only [place] at taken
      cases taken
      exact inv.setShutdown place
  | joinReactors next =>
      simp only [place] at taken
      split at taken
      · split at taken
        · rename_i ended
          cases taken
          exact inv.joinReactor place ended
        · cases taken
      · rename_i all
        cases taken
        exact inv.joinedAll place all
  | freeWorker worker =>
      simp only [place] at taken
      split at taken
      · cases taken
        have moved : Inv (s.setMain (.freeWorker (worker + 1))) := inv.free place trivial trivial
        exact moved.setMemory id _ _
      · cases taken
        exact inv.free place trivial trivial
  | dropTasks =>
      simp only [place] at taken
      cases taken
      exact inv.free place trivial trivial
  | freeEpoch =>
      simp only [place] at taken
      cases taken
      have moved : Inv (s.setMain .freeShared) := inv.free place trivial trivial
      exact moved.setMemory id _ _
  | freeShared =>
      simp only [place] at taken
      cases taken
      have moved : Inv (s.setMain .clearGlobal) := inv.free place trivial trivial
      exact moved.setMemory id _ _
  | clearGlobal =>
      simp only [place] at taken
      cases taken
      have moved : Inv (s.setMain .exit) := inv.free place trivial trivial
      exact ⟨moved.reactors, moved.stored, False.elim, moved.flag, moved.collects, moved.stores,
        moved.published, moved.stale, moved.born, moved.cells⟩
  | exit =>
      simp only [place] at taken
      cases taken
      exact inv.exit place

theorem getI_of_locals {data : GlobalData} {i : Nat} (found : s.mioGlobal = some data)
    (whole : data.locals = locals cfg cycle) (inside : i < cfg.reactors cycle) :
    s.getI i = some ⟨cycle, i⟩ := by
  rw [State.getI, found, Option.bind_some, whole, List.getD_eq_getElem?_getD, locals,
    List.getElem?_map, List.getElem?_range inside]
  rfl

/-- The static pointer leads to the reactors of this cycle or of the one before. -/
theorem Inv.whose (inv : Inv s) {data : GlobalData} (found : s.mioGlobal = some data) :
    ∃ home, data.locals = locals cfg home ∧ home ≤ s.cycle ∧
      (home = s.cycle ↔ s.main.published) := by
  by_cases published : s.main.published
  · obtain ⟨now, present, whole⟩ := inv.published published
    have same : now = data := Option.some.inj (present.symm.trans found)
    subst same
    exact ⟨s.cycle, whole, Nat.le_refl _, iff_of_true rfl published⟩
  · obtain ⟨before, earlier, whole⟩ := inv.stale published data found
    have older : before ≠ s.cycle := by omega
    exact ⟨before, whole, by omega, iff_of_false older published⟩

theorem Inv.newCell (inv : Inv s) (taken : newCell s = some s') : Inv s' := by
  unfold Process.newCell at taken
  split at taken
  · split at taken
    · cases taken
    · rename_i data found
      split at taken
      · cases taken
      · cases taken
        obtain ⟨home, whole, before, now⟩ := inv.whose found
        have length : data.locals.length = cfg.reactors home := by
          rw [whole, locals, List.length_map, List.length_range]
        have inside : data.counter % data.locals.length < cfg.reactors home := by
          rw [length]
          exact Nat.mod_lt _ (cfg.reactors_pos home)
        refine ⟨inv.reactors, inv.stored, inv.alive, inv.flag, inv.collects, inv.stores, ?_, ?_,
          inv.born, ?_⟩
        · intro published
          obtain ⟨present, same, all⟩ := inv.published published
          cases found.symm.trans same
          exact ⟨_, rfl, all⟩
        · intro early later same
          obtain ⟨earlier, next, all⟩ := inv.stale early data found
          cases same
          exact ⟨earlier, next, all⟩
        · intro cell member
          rcases List.mem_cons.mp member with rfl | old
          · exact ⟨Nat.le_refl _, home, getI_of_locals found whole inside, inside, before, now.mp,
              fun started => now.mpr (of_decide_eq_true started)⟩
          · exact inv.cells cell old
  · cases taken

theorem Inv.init : Inv (State.init cfg) := by
  constructor
  · intro cycle tid
    exact ⟨fun born => absurd rfl born, False.elim, fun born => absurd rfl born, fun _ => rfl,
      False.elim, ReactorPc.noConfusion, False.elim, False.elim⟩
  · intro cycle
    refine ⟨List.length_replicate, ?_⟩
    intro tid data found
    change (List.replicate (cfg.reactors cycle) none)[tid]? = some (some data) at found
    rw [List.getElem?_replicate] at found
    split at found <;> cases found
  · exact False.elim
  · refine iff_of_false Bool.false_ne_true ?_
    rintro (later | stopped)
    · exact absurd later (Nat.lt_irrefl 0)
    · exact stopped
  · exact MainPc.noConfusion
  · exact fun _ => MainPc.noConfusion
  · exact False.elim
  · intro _early data found
    cases found
  · intro born
    cases born
  · intro cell member
    cases member

theorem Inv.step {action : Action} (inv : Inv s) (taken : step s action = some s') : Inv s' := by
  cases action with
  | main => exact inv.main taken
  | wakeMain =>
      simp only [Process.step, Process.wakeMain] at taken
      split at taken
      · rename_i parked
        cases taken
        exact inv.wakeMain parked
      · cases taken
  | reactor cycle tid events woken => exact inv.reactor taken
  | wakeReactor cycle tid =>
      simp only [Process.step, wakeReactor] at taken
      split at taken
      · rename_i parked
        cases taken
        apply inv.setReactor
        exact (inv.reactors cycle tid).wait parked trivial ReactorPc.noConfusion trivial trivial
      · cases taken
  | workerReturns =>
      simp only [Process.step, workerReturns] at taken
      split at taken
      · cases taken
        exact ⟨inv.reactors, inv.stored, inv.alive, inv.flag, inv.collects, inv.stores,
          inv.published, inv.stale, inv.born, inv.cells⟩
      · cases taken
  | newCell => exact inv.newCell taken

theorem reachable_inv (reached : (system cfg).Reachable anyAction s) : Inv s := by
  apply reached.invariant Inv
  · intro state start
    rw [start]
    exact Inv.init
  · exact fun _state _next _action _earlier inv _permitted taken => inv.step taken

end Yaay.Process
