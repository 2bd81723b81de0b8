import Mathlib.Data.Fintype.Card
import Yaay.Runtime.Startup

set_option autoImplicit false

/-! What a thread knows of the others at each place of the start-up. Everything follows
from how far each thread is: no thread goes back. -/

namespace Yaay.Startup

open Yaay.Transition

variable {n : Nat} {s s' : State n} {id : Fin n} {thread : Thread n} {pc : Pc}
  {action : Action n}

/-- How far a thread is: it has an allocation (1), stored its pointer (2), learned
that all are stored (3), collected the others (4), written its worker (5), counted
itself (6), learned that all are counted (7). -/
def Pc.stage : Pc → Nat
  | .alloc | .panicked => 0
  | .lockStore | .store => 1
  | .testStored | .unlockStored false | .lockPtrs | .testPtrs | .parkPtrs | .parkedPtrs => 2
  | .unlockStored true | .notifyPtrs | .unlockPtrs | .lockCollect | .collect => 3
  | .write _ => 4
  | .lockCount | .count => 5
  | .testCounted | .unlockCounted false | .lockBuilt | .testBuilt | .parkBuilt
  | .parkedBuilt => 6
  | .unlockCounted true | .notifyBuilt | .unlockBuilt | .lockRead | .read | .setGlobal _
  | .returned => 7

def State.stage (s : State n) (id : Fin n) : Nat := (s.pc (.builder id)).stage

def Pc.waits : Pc → Bool
  | .lockBuilt | .testBuilt | .parkBuilt | .parkedBuilt | .unlockBuilt | .lockRead | .read
  | .setGlobal _ | .returned => true
  | _ => false

def Pc.builds : Pc → Bool
  | .lockRead | .read | .setGlobal _ | .panicked => false
  | _ => true

def State.othersOf (s : State n) (id : Fin n) : List Ptr := (List.ofFn s.slot).eraseIdx id

def State.worker (s : State n) (id : Fin n) : Worker := ⟨id, n, s.epoch, s.othersOf id⟩

def State.published (s : State n) (id : Fin n) : Ptr :=
  if 2 ≤ s.stage id then s.slot id else 0

def State.counted (s : State n) : Nat :=
  (Finset.univ.filter (fun id => 6 ≤ s.stage id)).card

structure BuilderKnows (s : State n) (id : Fin n) (pc : Pc) : Prop where
  place : pc.builds = true
  stored : 3 ≤ pc.stage → ∀ other, 2 ≤ s.stage other
  others : ∀ otherWorkers, pc = .write otherWorkers → otherWorkers = s.othersOf id
  written : 5 ≤ pc.stage → s.memory (s.slot id) = some (s.worker id)
  built : 7 ≤ pc.stage → ∀ other, 6 ≤ s.stage other

structure MainKnows (s : State n) (pc : Pc) : Prop where
  place : pc.waits = true
  built : 7 ≤ pc.stage → ∀ other, 6 ≤ s.stage other
  ptrs : ∀ workerPtrs, pc = .setGlobal workerPtrs → workerPtrs = List.ofFn s.slot
  shared : pc = .returned → s.global = some ⟨s.epoch, List.ofFn s.slot⟩

def Knows (s : State n) : Thread n → Pc → Prop
  | .builder id, pc => BuilderKnows s id pc
  | .main, pc => MainKnows s pc

structure Inv (s : State n) : Prop where
  ptrs : s.workerPtrs = List.ofFn s.published
  counted : s.nBuilt = s.counted
  slots : ∀ id, s.slot id ≠ 0 ↔ 1 ≤ s.stage id
  distinct : ∀ id other, 1 ≤ s.stage id → s.slot id = s.slot other → id = other
  knows : ∀ thread, Knows s thread (s.pc thread)

private theorem nonNull_new {ptr : Ptr} (some : ptr ≠ 0) :
    NonNull.new ptr = .some ptr := if_neg some

theorem mapM_nonNull {ptrs : List Ptr} (all : ∀ ptr ∈ ptrs, ptr ≠ 0) :
    ptrs.mapM NonNull.new = some ptrs := by
  induction ptrs with
  | nil => rfl
  | cons ptr rest ih =>
      rw [List.mapM_cons, nonNull_new (all ptr List.mem_cons_self),
        ih (fun other member => all other (List.mem_cons_of_mem ptr member))]
      rfl

private theorem filter_zipIdx (ptrs : List Ptr) (id start : Nat) :
    ((ptrs.zipIdx start).filter (fun entry => entry.2 != start + id)).map Prod.fst =
      ptrs.eraseIdx id := by
  induction ptrs generalizing id start with
  | nil => rfl
  | cons ptr rest ih =>
      cases id with
      | zero =>
          have tail : (rest.zipIdx (start + 1)).filter (fun entry => entry.2 != start + 0) =
              rest.zipIdx (start + 1) := by
            rw [List.filter_eq_self]
            intro entry member
            have later := List.le_snd_of_mem_zipIdx member
            simp only [bne_iff_ne, ne_eq]
            omega
          rw [List.zipIdx_cons, List.filter_cons_of_neg (by simp), tail]
          simp
      | succ id =>
          have shift : start + (id + 1) = start + 1 + id := by omega
          rw [List.zipIdx_cons, List.filter_cons_of_pos (by simp), List.map_cons,
            List.eraseIdx_cons_succ, shift, ih id (start + 1)]

theorem collectOthers_eq {ptrs : List Ptr} (all : ∀ ptr ∈ ptrs, ptr ≠ 0) (id : Nat) :
    collectOthers ptrs id = some (ptrs.eraseIdx id) := by
  have erased := filter_zipIdx ptrs id 0
  rw [Nat.zero_add] at erased
  have collected : collectOthers ptrs id = (ptrs.eraseIdx id).mapM NonNull.new := by
    rw [collectOthers, ← erased, List.mapM_map]
    rfl
  rw [collected]
  exact mapM_nonNull (fun ptr member => all ptr (List.mem_of_mem_eraseIdx member))

namespace Inv

theorem allStored_iff (inv : Inv s) : s.allStored = true ↔ ∀ id, 2 ≤ s.stage id := by
  rw [State.allStored, inv.ptrs, List.all_eq_true]
  constructor
  · intro all id
    have here := all (s.published id) (List.mem_ofFn.mpr ⟨id, rfl⟩)
    by_contra early
    rw [State.published, if_neg early] at here
    cases here
  · intro all ptr member
    obtain ⟨id, rfl⟩ := List.mem_ofFn.mp member
    have slot := (inv.slots id).mpr (Nat.le_trans (by decide) (all id))
    rw [State.published, if_pos (all id)]
    simpa using slot

theorem allBuilt_iff (inv : Inv s) : s.allBuilt = true ↔ ∀ id, 6 ≤ s.stage id := by
  rw [State.allBuilt, beq_iff_eq, inv.counted, State.counted]
  have full : (Finset.univ.filter (fun id => 6 ≤ s.stage id)).card = n ↔
      (Finset.univ.filter (fun id => 6 ≤ s.stage id)) = Finset.univ := by
    rw [← Finset.card_eq_iff_eq_univ, Fintype.card_fin]
  rw [full, Finset.filter_eq_self]
  exact ⟨fun all id => all id (Finset.mem_univ id), fun all id _ => all id⟩

/-- Behind the first barrier the array holds every worker's pointer. -/
theorem ptrs_of_stored (inv : Inv s) (all : ∀ id, 2 ≤ s.stage id) :
    s.workerPtrs = List.ofFn s.slot ∧ ∀ ptr ∈ s.workerPtrs, ptr ≠ 0 := by
  have same : s.published = s.slot := by
    funext id
    exact if_pos (all id)
  constructor
  · rw [inv.ptrs, same]
  · intro ptr member
    rw [inv.ptrs, same] at member
    obtain ⟨id, rfl⟩ := List.mem_ofFn.mp member
    exact (inv.slots id).mpr (Nat.le_trans (by decide) (all id))

end Inv

/-- Nobody goes back, and what a thread relies on stays. -/
structure Later (s s' : State n) : Prop where
  epoch : s'.epoch = s.epoch
  stage : ∀ id, s.stage id ≤ s'.stage id
  slot : ∀ id, 1 ≤ s.stage id → s'.slot id = s.slot id
  memory : ∀ id, 5 ≤ s.stage id → s'.memory (s.slot id) = s.memory (s.slot id)

namespace Later

variable (later : Later s s')
include later

theorem slots (all : ∀ id, 2 ≤ s.stage id) : s'.slot = s.slot := by
  funext id
  exact later.slot id (Nat.le_trans (by decide) (all id))

theorem othersOf (all : ∀ id, 2 ≤ s.stage id) : s'.othersOf id = s.othersOf id := by
  rw [State.othersOf, State.othersOf, later.slots all]

theorem builder (knows : BuilderKnows s id pc) (here : 5 ≤ pc.stage → 5 ≤ s.stage id) :
    BuilderKnows s' id pc where
  place := knows.place
  stored := fun far other => Nat.le_trans (knows.stored far other) (later.stage other)
  others := by
    intro otherWorkers writing
    have all := knows.stored (by rw [writing]; exact Nat.le_succ 3)
    rw [later.othersOf all]
    exact knows.others otherWorkers writing
  written := by
    intro far
    have all := knows.stored (Nat.le_trans (by decide) far)
    rw [later.slots all, later.memory id (here far), knows.written far, State.worker,
      State.worker, later.epoch, later.othersOf all]
  built := fun far other => Nat.le_trans (knows.built far other) (later.stage other)

theorem main (knows : MainKnows s pc) (same : s'.global = s.global) : MainKnows s' pc where
  place := knows.place
  built := fun far other => Nat.le_trans (knows.built far other) (later.stage other)
  ptrs := by
    intro workerPtrs setting
    have all := knows.built (by rw [setting]; exact Nat.le_refl 7)
    rw [later.slots (fun other => Nat.le_trans (by decide) (all other))]
    exact knows.ptrs workerPtrs setting
  shared := by
    intro done
    have all := knows.built (by rw [done]; decide)
    rw [later.slots (fun other => Nat.le_trans (by decide) (all other)), later.epoch, same]
    exact knows.shared done

end Later

variable {pc' : Pc}

/-- The thread learns nothing at the new place, or what all others have done. -/
def Learns (s : State n) (pc pc' : Pc) : Prop :=
  pc'.stage ≤ pc.stage ∨ (pc'.stage = 3 ∧ ∀ other, 2 ≤ s.stage other) ∨
    (pc'.stage = 7 ∧ 6 ≤ pc.stage ∧ ∀ other, 6 ≤ s.stage other)

theorem BuilderKnows.go (knows : BuilderKnows s id pc) (learns : Learns s pc pc')
    (place : pc'.builds = true) (plain : ∀ otherWorkers, pc' ≠ .write otherWorkers) :
    BuilderKnows s id pc' where
  place := place
  stored := by
    intro far
    rcases learns with near | ⟨_three, all⟩ | ⟨_seven, six, _all⟩
    · exact knows.stored (Nat.le_trans far near)
    · exact all
    · exact knows.stored (Nat.le_trans (by decide) six)
  others := fun otherWorkers writing => absurd writing (plain otherWorkers)
  written := by
    intro far
    rcases learns with near | ⟨three, _all⟩ | ⟨_seven, six, _all⟩
    · exact knows.written (Nat.le_trans far near)
    · omega
    · exact knows.written (Nat.le_trans (by decide) six)
  built := by
    intro far
    rcases learns with near | ⟨three, _all⟩ | ⟨_seven, _six, all⟩
    · exact knows.built (Nat.le_trans far near)
    · omega
    · exact all

theorem BuilderKnows.early (place : pc.builds = true) (near : pc.stage ≤ 2) :
    BuilderKnows s id pc where
  place := place
  stored := fun far => absurd (Nat.le_trans far near) (by decide)
  others := by
    intro otherWorkers writing
    rw [writing] at near
    exact absurd near (by simp [Pc.stage])
  written := fun far => absurd (Nat.le_trans far near) (by decide)
  built := fun far => absurd (Nat.le_trans far near) (by decide)

theorem MainKnows.go (knows : MainKnows s pc) (learns : Learns s pc pc')
    (place : pc'.waits = true) (plain : ∀ workerPtrs, pc' ≠ .setGlobal workerPtrs)
    (more : pc' ≠ .returned) : MainKnows s pc' where
  place := place
  built := by
    intro far
    rcases learns with near | ⟨three, _all⟩ | ⟨_seven, _six, all⟩
    · exact knows.built (Nat.le_trans far near)
    · omega
    · exact all
  ptrs := fun workerPtrs setting => absurd setting (plain workerPtrs)
  shared := fun done => absurd done more

/-- Neither a list is carried away from the place, nor is `wait` over. -/
def Pc.plain : Pc → Bool
  | .write _ | .setGlobal _ | .returned => false
  | _ => true

theorem Knows.go (knows : Knows s thread pc) (learns : Learns s pc pc')
    (builds : pc.builds = true → pc'.builds = true) (waits : pc.waits = true → pc'.waits = true)
    (plain : pc'.plain = true) : Knows s thread pc' := by
  cases thread with
  | builder id =>
      apply BuilderKnows.go knows learns (builds knows.place)
      intro otherWorkers same
      rw [same] at plain
      cases plain
  | main =>
      apply MainKnows.go knows learns (waits knows.place)
      · intro workerPtrs same
        rw [same] at plain
        cases plain
      · intro same
        rw [same] at plain
        cases plain

theorem wokenPtrs_stage (pc : Pc) : pc.wokenPtrs.stage = pc.stage := by
  cases pc <;> rfl

theorem wokenBuilt_stage (pc : Pc) : pc.wokenBuilt.stage = pc.stage := by
  cases pc <;> rfl

theorem Knows.wokenPtrs (knows : Knows s thread pc) : Knows s thread pc.wokenPtrs := by
  cases pc with
  | parkedPtrs => exact knows.go (Or.inl (Nat.le_refl 2)) (by decide) (by decide) rfl
  | _ => exact knows

theorem Knows.wokenBuilt (knows : Knows s thread pc) : Knows s thread pc.wokenBuilt := by
  cases pc with
  | parkedBuilt => exact knows.go (Or.inl (Nat.le_refl 6)) (by decide) (by decide) rfl
  | _ => exact knows

/-- What every thread knows is known later. -/
theorem Knows.later (later : Later s s') (same : s'.global = s.global)
    (knows : Knows s thread pc) (here : 5 ≤ pc.stage → 5 ≤ (s.pc thread).stage) :
    Knows s' thread pc := by
  cases thread with
  | builder id => exact later.builder knows here
  | main => exact later.main knows same

structure Untouched (s s' : State n) : Prop where
  epoch : s'.epoch = s.epoch
  workerPtrs : s'.workerPtrs = s.workerPtrs
  nBuilt : s'.nBuilt = s.nBuilt
  slot : s'.slot = s.slot
  memory : s'.memory = s.memory
  global : s'.global = s.global

/-- A thread's own step; `notify_all` moves the others. -/
structure Quiet (s s' : State n) (thread : Thread n) : Prop where
  untouched : Untouched s s'
  rest : ∀ other, other ≠ thread → s'.pc other = s.pc other ∨
    s'.pc other = (s.pc other).wokenPtrs ∨ s'.pc other = (s.pc other).wokenBuilt

def Pc.aside (pc pc' : Pc) : Prop :=
  pc.stage ≤ pc'.stage ∧ ∀ mark ∈ [1, 2, 5, 6], mark ≤ pc'.stage → mark ≤ pc.stage

instance (pc pc' : Pc) : Decidable (pc.aside pc') :=
  inferInstanceAs (Decidable (_ ∧ _))

theorem Pc.aside_of_stage (same : pc'.stage = pc.stage) : pc.aside pc' := by
  rw [Pc.aside, same]
  exact ⟨Nat.le_refl _, fun _ _ far => far⟩

theorem Quiet.aside (quiet : Quiet s s' thread)
    (own : (s.pc thread).aside (s'.pc thread)) (other : Thread n) :
    (s.pc other).aside (s'.pc other) := by
  by_cases same : other = thread
  · rw [same]
    exact own
  · rcases quiet.rest other same with kept | woken | woken
    · exact Pc.aside_of_stage (by rw [kept])
    · exact Pc.aside_of_stage (by rw [woken, wokenPtrs_stage])
    · exact Pc.aside_of_stage (by rw [woken, wokenBuilt_stage])

theorem Inv.quiet (inv : Inv s) (quiet : Quiet s s' thread)
    (own : (s.pc thread).aside (s'.pc thread)) (knows : Knows s thread (s'.pc thread)) :
    Inv s' := by
  have mark (other : Fin n) {bound : Nat} (known : bound ∈ [1, 2, 5, 6]) :
      bound ≤ s'.stage other ↔ bound ≤ s.stage other := by
    have side := quiet.aside own (.builder other)
    exact ⟨side.2 bound known, fun far => Nat.le_trans far side.1⟩
  have later : Later s s' :=
    ⟨quiet.untouched.epoch, fun other => (quiet.aside own (.builder other)).1,
      fun other _ => congrFun quiet.untouched.slot other,
      fun other _ => congrFun quiet.untouched.memory _⟩
  constructor
  · have same : s'.published = s.published := by
      funext other
      simp only [State.published, mark other (show 2 ∈ [1, 2, 5, 6] by decide),
        quiet.untouched.slot]
    rw [quiet.untouched.workerPtrs, inv.ptrs, same]
  · have same : s'.counted = s.counted := by
      simp only [State.counted, mark _ (show 6 ∈ [1, 2, 5, 6] by decide)]
    rw [quiet.untouched.nBuilt, inv.counted, same]
  · intro other
    rw [quiet.untouched.slot, inv.slots other, mark other (by decide)]
  · intro first other far same
    rw [quiet.untouched.slot] at same
    exact inv.distinct first other ((mark first (by decide)).mp far) same
  · intro other
    have before : Knows s other (s'.pc other) := by
      by_cases mine : other = thread
      · rw [mine]
        exact knows
      · rcases quiet.rest other mine with kept | woken | woken
        · rw [kept]
          exact inv.knows other
        · rw [woken]
          exact (inv.knows other).wokenPtrs
        · rw [woken]
          exact (inv.knows other).wokenBuilt
    exact before.later later quiet.untouched.global ((quiet.aside own other).2 5 (by decide))

private theorem stage_of_update (pcs : s'.pc = Function.update s.pc (.builder id) pc)
    (other : Fin n) :
    s'.stage other = if other = id then pc.stage else s.stage other := by
  rw [State.stage, pcs]
  by_cases same : other = id
  · rw [same, Function.update_self, if_pos rfl]
  · rw [Function.update_of_ne (fun equal => same (Thread.builder.inj equal)), if_neg same]
    rfl

private theorem counted_of_update (pcs : s'.pc = Function.update s.pc (.builder id) pc)
    (side : 6 ≤ pc.stage ↔ 6 ≤ s.stage id) : s'.counted = s.counted := by
  rw [State.counted, State.counted]
  congr 1
  apply Finset.filter_congr
  intro other _
  rw [stage_of_update pcs other]
  by_cases same : other = id
  · rw [if_pos same, same]
    exact side
  · rw [if_neg same]

theorem Inv.knows_of_later (inv : Inv s) (later : Later s s')
    (pcs : s'.pc = Function.update s.pc (.builder id) pc) (same : s'.global = s.global)
    (own : BuilderKnows s' id pc) (thread : Thread n) : Knows s' thread (s'.pc thread) := by
  rw [pcs]
  by_cases mine : thread = .builder id
  · rw [mine, Function.update_self]
    exact own
  · rw [Function.update_of_ne mine]
    exact (inv.knows thread).later later same (fun far => far)

theorem Inv.allocated (inv : Inv s) {address : Ptr} (here : s.pc (.builder id) = .alloc)
    (some : address ≠ 0) (fresh : ∀ other, s.slot other ≠ address)
    (pcs : s'.pc = Function.update s.pc (.builder id) .lockStore)
    (slots : s'.slot = Function.update s.slot id address) (epoch : s'.epoch = s.epoch)
    (ptrs : s'.workerPtrs = s.workerPtrs) (built : s'.nBuilt = s.nBuilt)
    (memory : s'.memory = s.memory) (global : s'.global = s.global) : Inv s' := by
  have start : s.stage id = 0 := by rw [State.stage, here]; rfl
  have stages := stage_of_update pcs
  have later : Later s s' := by
    refine ⟨epoch, ?_, ?_, fun other _ => congrFun memory _⟩
    · intro other
      rw [stages other]
      split
      · next same =>
          rw [same, start]
          exact Nat.zero_le _
      · exact Nat.le_refl _
    · intro other far
      rw [slots]
      apply Function.update_of_ne
      intro same
      rw [same, start] at far
      omega
  constructor
  · rw [ptrs, inv.ptrs]
    congr 1
    funext other
    rw [State.published, State.published, stages other, slots]
    by_cases same : other = id
    · rw [if_pos same, same, start, Pc.stage]
      rfl
    · rw [if_neg same, Function.update_of_ne same]
  · rw [built, inv.counted, counted_of_update pcs (by rw [start]; decide)]
  · intro other
    rw [slots, stages other]
    by_cases same : other = id
    · rw [if_pos same, same, Function.update_self]
      exact iff_of_true some (Nat.le_refl 1)
    · rw [if_neg same, Function.update_of_ne same]
      exact inv.slots other
  · intro first other far same
    rw [stages first] at far
    rw [slots] at same
    by_cases one : first = id
    · by_cases two : other = id
      · rw [one, two]
      · rw [one, Function.update_self, Function.update_of_ne two] at same
        exact absurd same.symm (fresh other)
    · rw [if_neg one] at far
      rw [Function.update_of_ne one] at same
      by_cases two : other = id
      · rw [two, Function.update_self] at same
        exact absurd same (fresh first)
      · rw [Function.update_of_ne two] at same
        exact inv.distinct first other far same
  · exact inv.knows_of_later later pcs global (BuilderKnows.early rfl (by decide))

theorem Inv.moved (inv : Inv s) (pcs : s'.pc = Function.update s.pc (.builder id) pc)
    (begun : 1 ≤ s.stage id) (up : s.stage id ≤ pc.stage) (epoch : s'.epoch = s.epoch)
    (slots : s'.slot = s.slot) (global : s'.global = s.global)
    (memory : ∀ other, 5 ≤ s.stage other → s'.memory (s.slot other) = s.memory (s.slot other))
    (ptrs : s'.workerPtrs = List.ofFn s'.published) (counted : s'.nBuilt = s'.counted)
    (own : Later s s' → BuilderKnows s' id pc) : Inv s' := by
  have stages := stage_of_update pcs
  have later : Later s s' := by
    refine ⟨epoch, ?_, fun other _ => congrFun slots other, memory⟩
    intro other
    rw [stages other]
    split
    · next same =>
        rw [same]
        exact up
    · exact Nat.le_refl _
  have begun_iff (other : Fin n) : 1 ≤ s'.stage other ↔ 1 ≤ s.stage other := by
    rw [stages other]
    split
    · next same =>
        rw [same]
        exact iff_of_true (Nat.le_trans begun up) begun
    · exact Iff.rfl
  constructor
  · exact ptrs
  · exact counted
  · intro other
    rw [slots, begun_iff other]
    exact inv.slots other
  · intro first other far same
    rw [slots] at same
    exact inv.distinct first other ((begun_iff first).mp far) same
  · exact inv.knows_of_later later pcs global (own later)

private theorem published_of_update (pcs : s'.pc = Function.update s.pc (.builder id) pc)
    (slots : s'.slot = s.slot) (side : 2 ≤ pc.stage ↔ 2 ≤ s.stage id) :
    s'.published = s.published := by
  funext other
  rw [State.published, State.published, stage_of_update pcs other, slots]
  by_cases same : other = id
  · simp only [same, if_true, side]
  · rw [if_neg same]

theorem Inv.stored (inv : Inv s) (here : s.pc (.builder id) = .store)
    (pcs : s'.pc = Function.update s.pc (.builder id) .testStored)
    (ptrs : s'.workerPtrs = s.workerPtrs.set id (s.slot id)) (epoch : s'.epoch = s.epoch)
    (slots : s'.slot = s.slot) (built : s'.nBuilt = s.nBuilt)
    (memory : s'.memory = s.memory) (global : s'.global = s.global) : Inv s' := by
  have start : s.stage id = 1 := by rw [State.stage, here]; rfl
  apply inv.moved pcs (by rw [start]) (by rw [start]; decide) epoch slots global
    (fun other _ => congrFun memory _)
  · rw [ptrs, inv.ptrs]
    apply List.ext_getElem
    · simp
    · intro index low high
      rw [List.length_ofFn] at high
      have after (other : Fin n) : s'.published other =
          if 2 ≤ (if other = id then 2 else s.stage other) then s.slot other else 0 := by
        rw [State.published, stage_of_update pcs other, slots]
        rfl
      rw [List.getElem_set, List.getElem_ofFn, List.getElem_ofFn, after]
      by_cases same : id.val = index
      · have equal : (⟨index, high⟩ : Fin n) = id := Fin.ext same.symm
        rw [if_pos same, if_pos equal, equal]
        rfl
      · have different : (⟨index, high⟩ : Fin n) ≠ id :=
          fun equal => same (congrArg Fin.val equal).symm
        rw [if_neg same, if_neg different]
        rfl
  · rw [built, inv.counted, counted_of_update pcs (by rw [start]; decide)]
  · exact fun _later => BuilderKnows.early rfl (Nat.le_refl 2)

theorem Inv.wrote (inv : Inv s) {otherWorkers : List Ptr}
    (here : s.pc (.builder id) = .write otherWorkers)
    (pcs : s'.pc = Function.update s.pc (.builder id) .lockCount)
    (memory : s'.memory = Function.update s.memory (s.slot id)
      (some ⟨id, n, s.epoch, otherWorkers⟩))
    (ptrs : s'.workerPtrs = s.workerPtrs) (epoch : s'.epoch = s.epoch)
    (slots : s'.slot = s.slot) (built : s'.nBuilt = s.nBuilt)
    (global : s'.global = s.global) : Inv s' := by
  have start : s.stage id = 4 := by rw [State.stage, here]; rfl
  have knows : BuilderKnows s id (s.pc (.builder id)) := inv.knows (.builder id)
  rw [here] at knows
  have all := knows.stored (Nat.le_succ 3)
  apply inv.moved pcs (by rw [start]; decide) (by rw [start]; decide) epoch slots global
  · intro other far
    rw [memory]
    apply Function.update_of_ne
    intro same
    have equal := inv.distinct other id (Nat.le_trans (by decide) far) same
    rw [equal, start] at far
    omega
  · rw [ptrs, inv.ptrs, published_of_update pcs slots (by rw [start]; decide)]
  · rw [built, inv.counted, counted_of_update pcs (by rw [start]; decide)]
  · intro later
    constructor
    · rfl
    · exact fun _ other => Nat.le_trans (all other) (later.stage other)
    · intro others writing
      cases writing
    · intro _far
      rw [slots, memory, Function.update_self, State.worker, later.othersOf all, epoch,
        knows.others otherWorkers rfl]
    · intro far
      exact absurd far (by decide)

theorem Inv.countedOne (inv : Inv s) (small : n < 2 ^ 32) (here : s.pc (.builder id) = .count)
    (pcs : s'.pc = Function.update s.pc (.builder id) .testCounted)
    (built : s'.nBuilt = (s.nBuilt + 1) % 2 ^ 32)
    (ptrs : s'.workerPtrs = s.workerPtrs) (epoch : s'.epoch = s.epoch)
    (slots : s'.slot = s.slot) (memory : s'.memory = s.memory)
    (global : s'.global = s.global) : Inv s' := by
  have start : s.stage id = 5 := by rw [State.stage, here]; rfl
  have knows : BuilderKnows s id (s.pc (.builder id)) := inv.knows (.builder id)
  rw [here] at knows
  have more : s'.counted = s.counted + 1 := by
    have inserted : Finset.univ.filter (fun other => 6 ≤ s'.stage other) =
        insert id (Finset.univ.filter (fun other => 6 ≤ s.stage other)) := by
      ext other
      rw [Finset.mem_filter, Finset.mem_insert, Finset.mem_filter, stage_of_update pcs other]
      by_cases same : other = id
      · rw [if_pos same]
        exact iff_of_true ⟨Finset.mem_univ _, Nat.le_refl 6⟩ (Or.inl same)
      · rw [if_neg same]
        exact ⟨Or.inr, fun either => either.resolve_left same⟩
    rw [State.counted, inserted, Finset.card_insert_of_notMem, State.counted]
    intro member
    have far := (Finset.mem_filter.mp member).2
    rw [start] at far
    omega
  have bound : s'.counted ≤ n := by
    have subset := Finset.card_le_univ (Finset.univ.filter (fun other => 6 ≤ s'.stage other))
    rw [Fintype.card_fin] at subset
    exact subset
  apply inv.moved pcs (by rw [start]; decide) (by rw [start]; decide) epoch slots global
    (fun other _ => congrFun memory _)
  · rw [ptrs, inv.ptrs, published_of_update pcs slots (by rw [start]; decide)]
  · rw [built, inv.counted, ← more]
    exact Nat.mod_eq_of_lt (Nat.lt_of_le_of_lt bound small)
  · intro later
    have before := later.builder knows (fun _ => by rw [start])
    constructor
    · rfl
    · exact fun _far => before.stored (by decide)
    · intro otherWorkers writing
      cases writing
    · exact fun _far => before.written (by decide)
    · intro far
      exact absurd far (by decide)

theorem Inv.shared (inv : Inv s) {workerPtrs : List Ptr}
    (here : s.pc .main = .setGlobal workerPtrs)
    (pcs : s'.pc = Function.update s.pc .main .returned)
    (global : s'.global = some ⟨s.epoch, workerPtrs⟩) (epoch : s'.epoch = s.epoch)
    (ptrs : s'.workerPtrs = s.workerPtrs) (slots : s'.slot = s.slot)
    (built : s'.nBuilt = s.nBuilt) (memory : s'.memory = s.memory) : Inv s' := by
  have knows : MainKnows s (s.pc .main) := inv.knows .main
  rw [here] at knows
  have rest (other : Fin n) : s'.pc (.builder other) = s.pc (.builder other) := by
    rw [pcs]
    exact Function.update_of_ne (fun same => by cases same) ..
  have stages : s'.stage = s.stage := by
    funext other
    rw [State.stage, State.stage, rest other]
  have later : Later s s' := ⟨epoch, fun other => Nat.le_of_eq (congrFun stages other).symm,
    fun other _ => congrFun slots other, fun other _ => congrFun memory _⟩
  constructor
  · rw [ptrs, inv.ptrs]
    congr 1
    funext other
    rw [State.published, State.published, stages, slots]
  · rw [built, inv.counted, State.counted, State.counted, stages]
  · rw [slots, stages]
    exact inv.slots
  · rw [slots, stages]
    exact inv.distinct
  · intro thread
    cases thread with
    | builder other =>
        rw [rest other]
        exact later.builder (inv.knows (.builder other)) (fun far => far)
    | main =>
        rw [pcs, Function.update_self]
        constructor
        · rfl
        · rw [stages]
          exact fun _far => knows.built (Nat.le_refl 7)
        · intro others setting
          cases setting
        · intro _done
          rw [global, epoch, slots, knows.ptrs workerPtrs rfl]

theorem Inv.goes (inv : Inv s) (quiet : Quiet s s' thread) (here : s.pc thread = pc)
    (own : s'.pc thread = pc') (side : pc.aside pc')
    (knows : Knows s thread pc → Knows s thread pc') : Inv s' := by
  apply inv.quiet quiet
  · rw [here, own]
    exact side
  · rw [own]
    apply knows
    rw [← here]
    exact inv.knows thread

theorem Inv.go (inv : Inv s) (here : s.pc thread = pc)
    (pcs : s'.pc = Function.update s.pc thread pc') (untouched : Untouched s s')
    (side : pc.aside pc') (knows : Knows s thread pc → Knows s thread pc') : Inv s' := by
  refine inv.goes ⟨untouched, ?_⟩ here (by rw [pcs, Function.update_self]) side knows
  intro other different
  rw [pcs, Function.update_of_ne different]
  exact Or.inl rfl

theorem lockPtrs_eq (taken : s.lockPtrs thread pc = some s') :
    s.ptrsOwner = none ∧ s' = { s.setPc thread pc with ptrsOwner := some thread } := by
  unfold State.lockPtrs at taken
  split at taken
  · next free => exact ⟨free, (Option.some.inj taken).symm⟩
  · cases taken

theorem lockBuilt_eq (taken : s.lockBuilt thread pc = some s') :
    s.builtOwner = none ∧ s' = { s.setPc thread pc with builtOwner := some thread } := by
  unfold State.lockBuilt at taken
  split at taken
  · next free => exact ⟨free, (Option.some.inj taken).symm⟩
  · cases taken

theorem Inv.built (inv : Inv s) (taken : build s id = some s')
    : Inv s' := by
  have knows : BuilderKnows s id (s.pc (.builder id)) := inv.knows (.builder id)
  unfold build at taken
  cases here : s.pc (.builder id) with
  | store =>
      simp only [here] at taken
      cases taken
      exact inv.stored here rfl rfl rfl rfl rfl rfl rfl
  | collect =>
      rw [here] at knows
      have all := knows.stored (Nat.le_refl 3)
      obtain ⟨ptrs, some⟩ := inv.ptrs_of_stored all
      simp only [here, collectOthers_eq some] at taken
      cases taken
      refine inv.go here rfl ⟨rfl, rfl, rfl, rfl, rfl, rfl⟩ ?_ ?_
      · exact ⟨Nat.le_succ 3, by simp [Pc.stage]⟩
      · intro _knows
        constructor
        · rfl
        · exact fun _far => all
        · intro otherWorkers writing
          rw [← Pc.write.inj writing, ptrs]
          rfl
        · intro far
          exact absurd far (by simp [Pc.stage])
        · intro far
          exact absurd far (by simp [Pc.stage])
  | write otherWorkers =>
      simp only [here] at taken
      cases taken
      exact inv.wrote here rfl rfl rfl rfl rfl rfl rfl
  | _ => simp [here] at taken

theorem Inv.waited (inv : Inv s) (taken : wait s = some s') : Inv s' := by
  have knows : MainKnows s (s.pc .main) := inv.knows .main
  unfold wait at taken
  cases here : s.pc .main with
  | lockRead =>
      simp only [here] at taken
      obtain ⟨_free, rfl⟩ := lockPtrs_eq taken
      exact inv.go here rfl ⟨rfl, rfl, rfl, rfl, rfl, rfl⟩ (by decide)
        (fun knows => knows.go (Or.inl (by decide)) (by decide) (by decide) rfl)
  | read =>
      rw [here] at knows
      have all (other : Fin n) : 2 ≤ s.stage other :=
        Nat.le_trans (by decide) (knows.built (Nat.le_refl 7) other)
      obtain ⟨ptrs, some⟩ := inv.ptrs_of_stored all
      simp only [here, mapM_nonNull some] at taken
      cases taken
      refine inv.go here rfl ⟨rfl, rfl, rfl, rfl, rfl, rfl⟩ ?_ ?_
      · exact Pc.aside_of_stage rfl
      · intro _knows
        constructor
        · rfl
        · exact knows.built
        · intro workerPtrs setting
          rw [← Pc.setGlobal.inj setting, ptrs]
        · intro done
          cases done
  | setGlobal workerPtrs =>
      simp only [here] at taken
      cases taken
      exact inv.shared here rfl rfl rfl rfl rfl rfl rfl
  | _ => simp [here] at taken

theorem Inv.ran (inv : Inv s) (small : n < 2 ^ 32) (taken : run s thread = some s') :
    Inv s' := by
  unfold run at taken
  cases here : s.pc thread with
  | lockStore | lockPtrs | lockCollect =>
      simp only [here] at taken
      obtain ⟨_free, rfl⟩ := lockPtrs_eq taken
      exact inv.go here rfl ⟨rfl, rfl, rfl, rfl, rfl, rfl⟩ (by decide)
        (fun knows => knows.go (Or.inl (by decide)) (by decide) (by decide) rfl)
  | lockCount | lockBuilt =>
      simp only [here] at taken
      obtain ⟨_free, rfl⟩ := lockBuilt_eq taken
      exact inv.go here rfl ⟨rfl, rfl, rfl, rfl, rfl, rfl⟩ (by decide)
        (fun knows => knows.go (Or.inl (by decide)) (by decide) (by decide) rfl)
  | parkPtrs | unlockPtrs | parkBuilt =>
      simp only [here] at taken
      cases taken
      exact inv.go here rfl ⟨rfl, rfl, rfl, rfl, rfl, rfl⟩ (by decide)
        (fun knows => knows.go (Or.inl (by decide)) (by decide) (by decide) rfl)
  | unlockStored flag | unlockCounted flag =>
      simp only [here] at taken
      cases taken
      cases flag with
      | true =>
          exact inv.go here rfl ⟨rfl, rfl, rfl, rfl, rfl, rfl⟩ (by decide)
            (fun knows => knows.go (Or.inl (by decide)) (by decide) (by decide) rfl)
      | false =>
          exact inv.go here rfl ⟨rfl, rfl, rfl, rfl, rfl, rfl⟩ (by decide)
            (fun knows => knows.go (Or.inl (by decide)) (by decide) (by decide) rfl)
  | testStored =>
      simp only [here] at taken
      cases taken
      cases stored : s.allStored with
      | true =>
          have all := inv.allStored_iff.mp stored
          exact inv.go here rfl ⟨rfl, rfl, rfl, rfl, rfl, rfl⟩ (by decide)
            (fun knows => knows.go (Or.inr (Or.inl ⟨rfl, all⟩)) (by decide) (by decide) rfl)
      | false =>
          exact inv.go here rfl ⟨rfl, rfl, rfl, rfl, rfl, rfl⟩ (by decide)
            (fun knows => knows.go (Or.inl (by decide)) (by decide) (by decide) rfl)
  | testPtrs =>
      simp only [here] at taken
      cases taken
      cases stored : s.allStored with
      | true =>
          have all := inv.allStored_iff.mp stored
          exact inv.go here rfl ⟨rfl, rfl, rfl, rfl, rfl, rfl⟩ (by decide)
            (fun knows => knows.go (Or.inr (Or.inl ⟨rfl, all⟩)) (by decide) (by decide) rfl)
      | false =>
          exact inv.go here rfl ⟨rfl, rfl, rfl, rfl, rfl, rfl⟩ (by decide)
            (fun knows => knows.go (Or.inl (by decide)) (by decide) (by decide) rfl)
  | testCounted | testBuilt =>
      simp only [here] at taken
      cases taken
      cases built : s.allBuilt with
      | true =>
          have all := inv.allBuilt_iff.mp built
          exact inv.go here rfl ⟨rfl, rfl, rfl, rfl, rfl, rfl⟩ (by decide)
            (fun knows => knows.go (Or.inr (Or.inr ⟨rfl, by decide, all⟩)) (by decide) (by decide)
              rfl)
      | false =>
          exact inv.go here rfl ⟨rfl, rfl, rfl, rfl, rfl, rfl⟩ (by decide)
            (fun knows => knows.go (Or.inl (by decide)) (by decide) (by decide) rfl)
  | notifyPtrs =>
      simp only [here] at taken
      cases taken
      refine inv.goes ⟨⟨rfl, rfl, rfl, rfl, rfl, rfl⟩, ?_⟩ here (Function.update_self ..)
        (by decide) (fun knows => knows.go (Or.inl (by decide)) (by decide) (by decide) rfl)
      intro other different
      exact Or.inr (Or.inl (Function.update_of_ne different ..))
  | notifyBuilt =>
      simp only [here] at taken
      cases taken
      refine inv.goes ⟨⟨rfl, rfl, rfl, rfl, rfl, rfl⟩, ?_⟩ here (Function.update_self ..)
        (by decide) ?_
      · intro other different
        exact Or.inr (Or.inr (Function.update_of_ne different ..))
      · intro knows
        cases thread with
        | builder id =>
            exact BuilderKnows.go knows (Or.inl (by decide)) rfl
              (fun _ writing => by cases writing)
        | main => cases knows.place
  | unlockBuilt =>
      simp only [here] at taken
      cases taken
      cases thread with
      | builder id =>
          exact inv.go here rfl ⟨rfl, rfl, rfl, rfl, rfl, rfl⟩ (Pc.aside_of_stage rfl)
            (fun knows => BuilderKnows.go knows (Or.inl (Nat.le_refl 7)) rfl
              (fun _ writing => by cases writing))
      | main =>
          exact inv.go here rfl ⟨rfl, rfl, rfl, rfl, rfl, rfl⟩ (Pc.aside_of_stage rfl)
            (fun knows => MainKnows.go knows (Or.inl (Nat.le_refl 7)) rfl
              (fun _ setting => by cases setting) (fun done => by cases done))
  | count =>
      simp only [here] at taken
      cases taken
      cases thread with
      | builder id => exact inv.countedOne small here rfl rfl rfl rfl rfl rfl rfl
      | main =>
          have knows := inv.knows .main
          rw [here] at knows
          cases knows.place
  | store | collect | write otherWorkers | lockRead | read | setGlobal workerPtrs =>
      simp only [here] at taken
      cases thread with
      | builder id => exact inv.built taken
      | main => exact inv.waited taken
  | alloc | parkedPtrs | parkedBuilt | returned | panicked => simp [here] at taken

theorem Inv.step (inv : Inv s) (small : n < 2 ^ 32) (taken : step s action = some s') :
    Inv s' := by
  cases action with
  | alloc id address =>
      simp only [Startup.step, alloc] at taken
      split at taken
      · next allowed =>
          cases taken
          exact inv.allocated allowed.1 allowed.2.1 allowed.2.2 rfl rfl rfl rfl rfl rfl rfl
      · cases taken
  | run thread => exact inv.ran small taken
  | wake thread =>
      simp only [Startup.step, wake] at taken
      cases here : s.pc thread with
      | parkedPtrs | parkedBuilt =>
          simp only [here] at taken
          cases taken
          exact inv.go here rfl ⟨rfl, rfl, rfl, rfl, rfl, rfl⟩ (by decide)
            (fun knows => knows.go (Or.inl (by decide)) (by decide) (by decide) rfl)
      | _ => simp [here] at taken

private theorem inv_initial (start : Initial s) : Inv s := by
  have begin (id : Fin n) : s.stage id = 0 := by
    rw [State.stage, start.builder id]
    rfl
  constructor
  · rw [start.workerPtrs, ← List.ofFn_const]
    congr 1
    funext id
    rw [State.published, begin id]
    rfl
  · rw [start.nBuilt, State.counted]
    symm
    rw [Finset.card_eq_zero, Finset.filter_eq_empty_iff]
    intro id _
    rw [begin id]
    decide
  · intro id
    rw [start.slot id, begin id]
    decide
  · intro id other far
    rw [begin id] at far
    cases far
  · intro thread
    cases thread with
    | builder id =>
        rw [start.builder id]
        exact BuilderKnows.early rfl (by decide)
    | main =>
        rw [start.main]
        constructor
        · rfl
        · intro far
          exact absurd far (by decide)
        · intro workerPtrs setting
          cases setting
        · intro done
          cases done

theorem reachable_inv (small : n < 2 ^ 32) (reached : (system n).Reachable anyAction s) : Inv s :=
  reached.invariant Inv (fun _state start => inv_initial start)
    (fun _state _next _action _earlier inv _permitted taken => inv.step small taken)

end Yaay.Startup
