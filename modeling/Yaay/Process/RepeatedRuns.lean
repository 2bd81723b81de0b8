import Yaay.Process.EveryCycle

set_option autoImplicit false

/-! Only the first cycle of a process has an event loop: the flag that ends the loops is
never cleared, so that in every later cycle each reactor leaves its loop at its first
test. The batches and the pointers to the reactors are right in every cycle. -/

namespace Yaay.Process

open Yaay.Transition

variable {cfg : Config} {s s' : State cfg} {cycle tid : Nat}

def State.shutdownCalled (s : State cfg) (cycle : Nat) : Prop :=
  cycle < s.cycle ∨ cycle = s.cycle ∧ s.main.stopped

def ReactorPc.looping (pc : ReactorPc) : Prop := pc = .loopTest ∨ pc.turning

/-- The cell is registered at a reactor of the cycle, and `get_i` finds that reactor. -/
def State.looksUp (s : State cfg) (cycle : Nat) (cell : MIOCell) : Prop :=
  cell.home = some ⟨cycle, cell.localI⟩ ∧ s.getI cell.localI = some ⟨cycle, cell.localI⟩

/-- What every cycle keeps: a reactor uses the runtime only while it is there, and a cell
that is created once `on_start` has published its `GlobalData` leads to a reactor of the
cycle until the cycle ends. -/
structure Kept (s : State cfg) (cycle : Nat) : Prop where
  guarded : ∀ tid, (s.reactor cycle tid).pc = .batchGuard ∨ (s.reactor cycle tid).pc.guarded →
    Alive cfg cycle s.global (s.memory cycle)
  sound : ∀ tid, (s.reactor cycle tid).pc ≠ .faulted
  found : s.cycle = cycle → ∀ cell ∈ s.cells, cell.cycle = cycle → cell.started = true →
    s.looksUp cycle cell

/-- A step that the reactor thread takes by itself. -/
def State.turns (cycle tid : Nat) (s s' : State cfg) : Prop :=
  ∃ events woken, step s (.reactor cycle tid events woken) = some s'

/-- What the process asks of a cycle, the first and every other one. -/
structure Repeats (s : State cfg) (cycle : Nat) : Prop extends Kept s cycle where
  stays : ∀ tid, (s.reactor cycle tid).pc.left → s.shutdownCalled cycle
  goes_on : ∀ tid events, (s.reactor cycle tid).pc.looping →
    (step s (.reactor cycle tid events none)).isSome = true
  polls : ∀ tid, (s.reactor cycle tid).pc.looping → Inevitable (State.turns cycle tid)
    (fun later => (later.reactor cycle tid).pc = .poll ∨ later.shutdownCalled cycle) s
  registered : s.cycle = cycle → ∀ cell ∈ s.cells, cell.cycle = cycle → s.looksUp cycle cell

private theorem reactor_goes_on (events : Nat) (looping : (s.reactor cycle tid).pc.looping) :
    (step s (.reactor cycle tid events none)).isSome = true := by
  rcases looping with testing | turning
  · simp only [step, reactor, testing]
    rfl
  · cases pc : (s.reactor cycle tid).pc with
    | dispatch k left =>
        cases left with
        | zero =>
            simp only [step, reactor, pc]
            rfl
        | succ left =>
            simp only [step, reactor, pc]
            rw [if_pos (fun _ impossible => by cases impossible)]
            rfl
    | poll | pushBatch | deferredRemove =>
        simp only [step, reactor, pc]
        rfl
    | _ =>
        rw [pc] at turning
        exact turning.elim

theorem Inv.looksUp (inv : Inv s) {cell : MIOCell} (ok : CellOk cfg s.cycle s.main cell)
    (now : ∀ home, home ≤ cell.cycle → (cell.started = true → home = cell.cycle) →
      home = s.cycle) : s.looksUp s.cycle cell := by
  obtain ⟨_created, home, registered, inside, before, published, started⟩ := ok
  have same : home = s.cycle := now home before started
  subst same
  obtain ⟨data, stored, whole⟩ := inv.published (published rfl)
  exact ⟨registered, getI_of_locals stored whole inside⟩

theorem Inv.kept (inv : Inv s) (cycle : Nat) : Kept s cycle := by
  constructor
  · intro tid using_
    have live : (s.reactor cycle tid).pc.live := by
      rcases using_ with creating | guarded
      · rw [creating]
        trivial
      · cases pc : (s.reactor cycle tid).pc <;> rw [pc] at guarded <;> trivial
    exact inv.reading live
  · exact fun tid => (inv.reactors cycle tid).sound
  · intro now cell member own started
    subst now
    apply inv.looksUp (inv.cells cell member)
    intro home _before present
    exact (present started).trans own

theorem Inv.called_of_flag (inv : Inv s) (flag : s.shutdown = true) : s.shutdownCalled 0 := by
  rcases inv.flag.mp flag with later | stopped
  · exact Or.inl later
  · by_cases first : s.cycle = 0
    · exact Or.inr ⟨first.symm, stopped⟩
    · exact Or.inl (Nat.pos_of_ne_zero first)

def ReactorPc.rank : ReactorPc → Nat
  | .loopTest => 1
  | .deferredRemove => 2
  | .pushBatch => 3
  | .dispatch _ left => left + 4
  | _ => 0

private theorem nearer_of_place {r : Reactor} {here : ReactorPc} (there : ReactorPc)
    (place : (s.reactor cycle tid).pc = here) (placed : r.pc = there) (looping : there.looping)
    (below : there.rank < here.rank) :
    ((s.setReactor cycle tid r).reactor cycle tid).pc.looping ∧
      ((s.setReactor cycle tid r).reactor cycle tid).pc.rank <
        (s.reactor cycle tid).pc.rank := by
  rw [setReactor_self, placed, place]
  exact ⟨looping, below⟩

private theorem dispatchOne_pc {r : Reactor} {k left : Nat} {woken : Option Nat}
    (sound : (s.dispatchOne r k left woken).pc ≠ .faulted) :
    (s.dispatchOne r k left woken).pc = .dispatch (k + 1) left := by
  unfold State.dispatchOne at sound ⊢
  split
  · rfl
  · rename_i none
    rw [none] at sound
    exact absurd rfl sound

private theorem pushTurn_pc {r : Reactor} (sound : (s.pushTurn r).pc ≠ .faulted) :
    (s.pushTurn r).pc = .deferredRemove := by
  unfold State.pushTurn at sound ⊢
  split
  · rfl
  · rename_i none
    rw [none] at sound
    exact absurd rfl sound

/-- In the first cycle every step of the thread brings it nearer to its next `poll`. -/
theorem nearer (inv : Inv s) (looping : (s.reactor 0 tid).pc.looping)
    (before : ¬ s.shutdownCalled 0) (notPoll : (s.reactor 0 tid).pc ≠ .poll)
    (taken : State.turns 0 tid s s') :
    (s'.reactor 0 tid).pc.looping ∧
      (s'.reactor 0 tid).pc.rank < (s.reactor 0 tid).pc.rank := by
  obtain ⟨events, woken, taken⟩ := taken
  have sound := ((inv.step taken).reactors 0 tid).sound
  simp only [step, reactor] at taken
  cases place : (s.reactor 0 tid).pc with
  | poll => exact absurd place notPoll
  | loopTest =>
      have clear : ¬ s.shutdown = true := fun flag => before (inv.called_of_flag flag)
      simp only [place, if_neg clear] at taken
      cases taken
      rw [← place]
      exact nearer_of_place .poll place rfl (Or.inr trivial) Nat.zero_lt_one
  | dispatch k left =>
      cases left with
      | zero =>
          simp only [place] at taken
          cases taken
          rw [← place]
          exact nearer_of_place .pushBatch place rfl (Or.inr trivial) (Nat.lt_succ_self 3)
      | succ left =>
          simp only [place] at taken
          split at taken
          · cases taken
            rw [setReactor_self] at sound
            rw [← place]
            apply nearer_of_place (.dispatch (k + 1) left) place (dispatchOne_pc sound)
              (Or.inr trivial)
            change left + 4 < left + 1 + 4
            omega
          · cases taken
  | pushBatch =>
      simp only [place] at taken
      cases taken
      rw [setReactor_self] at sound
      rw [← place]
      exact nearer_of_place .deferredRemove place (pushTurn_pc sound) (Or.inr trivial)
        (Nat.lt_succ_self 2)
  | deferredRemove =>
      simp only [place] at taken
      cases taken
      rw [← place]
      exact nearer_of_place .loopTest place rfl (Or.inl rfl) (Nat.lt_succ_self 1)
  | _ =>
      rw [place] at looping
      rcases looping with testing | turning
      · cases testing
      · exact turning.elim

theorem Inv.polls_first (inv : Inv s) (looping : (s.reactor 0 tid).pc.looping) :
    Inevitable (State.turns 0 tid)
      (fun later => (later.reactor 0 tid).pc = .poll ∨ later.shutdownCalled 0) s := by
  have live (later : State cfg) (here : Inv later ∧ (later.reactor 0 tid).pc.looping) :
      ∃ next, State.turns 0 tid later next := by
    obtain ⟨next, taken⟩ := Option.isSome_iff_exists.mp (reactor_goes_on 0 here.2)
    exact ⟨next, 0, none, taken⟩
  apply Inevitable.of_rank Nat.lt_wfRel.wf (fun later => (later.reactor 0 tid).pc.rank)
    (fun later here _going => live later here) _ ⟨inv, looping⟩
  rintro later next ⟨inv, looping⟩ going taken
  have moved := nearer inv looping (fun called => going (Or.inr called))
    (fun polling => going (Or.inl polling)) taken
  obtain ⟨events, woken, taken⟩ := taken
  exact ⟨⟨inv.step taken, moved.1⟩, moved.2⟩

theorem Inv.repeats_first (inv : Inv s) : Repeats s 0 := by
  refine ⟨inv.kept 0, ?_, ?_, ?_, ?_⟩
  · intro tid left
    exact inv.called_of_flag ((inv.reactors 0 tid).leaves left)
  · intro tid events looping
    exact reactor_goes_on events looping
  · exact fun tid looping => inv.polls_first looping
  · intro now cell member own
    rw [← now]
    apply inv.looksUp (inv.cells cell member)
    intro home before _present
    omega

/-- No reactor of a later cycle ever polls. -/
theorem no_turns_later (inv : Inv s) (later : 0 < cycle) (tid : Nat) :
    ¬ (s.reactor cycle tid).pc.turning := by
  intro turning
  exact absurd ((inv.reactors cycle tid).turns turning) (Nat.ne_of_gt later)

theorem test_iff (inv : Inv s) {events : Nat} {woken : Option Nat}
    (testing : (s.reactor cycle tid).pc = .loopTest) (before : ¬ s.shutdownCalled cycle)
    (taken : step s (.reactor cycle tid events woken) = some s') :
    (s'.reactor cycle tid).pc = .poll ↔ cycle = 0 := by
  have live : (s.reactor cycle tid).pc.live := by rw [testing]; trivial
  have now := ((inv.reactors cycle tid).live live).1
  simp only [step, reactor, testing] at taken
  cases taken
  rw [setReactor_self]
  change (if s.shutdown = true then ReactorPc.drain else .poll) = .poll ↔ cycle = 0
  by_cases flag : s.shutdown = true
  · rw [if_pos flag]
    have later : 0 < s.cycle := by
      rcases inv.flag.mp flag with later | stopped
      · exact later
      · exact absurd (Or.inr ⟨now, stopped⟩) before
    refine iff_of_false ReactorPc.noConfusion ?_
    omega
  · rw [if_neg flag]
    refine iff_of_true rfl ?_
    rw [now]
    exact inv.notStopped flag

/-- The runtime, the batches and the pointers are those of the cycle in every cycle, and the
event loop runs in the first one only. -/
theorem repeats_iff_first (cfg : Config) (cycle : Nat) :
    (∀ s : State cfg, (system cfg).Reachable anyAction s → Kept s cycle) ∧
      ((∀ s : State cfg, (system cfg).Reachable anyAction s → Repeats s cycle) ↔
        cycle = 0) := by
  constructor
  · intro s reached
    exact (reachable_inv reached).kept cycle
  constructor
  · intro repeats
    by_contra later
    obtain ⟨s, reached, present, joining, drain⟩ := leaves_early cfg (Nat.pos_of_ne_zero later)
    have left : (s.reactor cycle 0).pc.left := by rw [drain]; trivial
    rcases (repeats s reached).stays 0 left with ended | ⟨_, stopped⟩
    · omega
    · rw [joining] at stopped
      exact stopped
  · intro first s reached
    rw [first]
    exact (reachable_inv reached).repeats_first

def oneEach : Config where
  workers := fun _ => 1
  reactors := fun _ => 1
  workers_pos := fun _ => Nat.zero_lt_one
  reactors_pos := fun _ => Nat.zero_lt_one

def startActions (cycle : Nat) : List Action :=
  [.main, .main, .main] ++
    List.replicate 2 (.reactor cycle 0 0 none) ++ [.main, .main, .main, .main]

/-- The first cycle with one turn of its reactor, and the second one up to the end of the
loop of its reactor, whose worker still runs. -/
def twoCycles : List Action :=
  startActions 0 ++ List.replicate 7 (.reactor 0 0 0 none) ++ [.workerReturns, .main, .main] ++
    List.replicate 3 (.reactor 0 0 0 none) ++ List.replicate 9 .main ++
    startActions 1 ++ List.replicate 3 (.reactor 1 0 0 none)

theorem twoCycles_runs :
    ((system oneEach).exec (State.init oneEach) twoCycles).isSome = true := by
  decide +kernel

def secondCycle : State oneEach :=
  ((system oneEach).exec (State.init oneEach) twoCycles).get twoCycles_runs

theorem second_cycle_unpolled :
    ¬ ∀ (cfg : Config) (cycle : Nat) (s : State cfg),
      (system cfg).Reachable anyAction s → Repeats s cycle := by
  intro repeats
  have start : (system oneEach).Reachable anyAction (State.init oneEach) := .initial _ rfl
  have drain : (secondCycle.reactor 1 0).pc = .drain := by decide +kernel
  have left : (secondCycle.reactor 1 0).pc.left := by rw [drain]; trivial
  have joining : secondCycle.main = .joinWorkers := by decide +kernel
  have present : secondCycle.cycle = 1 := by decide +kernel
  rcases (repeats oneEach 1 secondCycle (start.replay_any twoCycles_runs)).stays 0 left
    with ended | ⟨_, stopped⟩
  · omega
  · rw [joining] at stopped
    exact stopped

end Yaay.Process
