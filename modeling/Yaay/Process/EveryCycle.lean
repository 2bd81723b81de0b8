import Yaay.Process.CycleInvariant

set_option autoImplicit false

/-! A run through every cycle, whatever the thread counts are. The main thread starts the
reactors, each of them stores its pointer and waits, and once `mio_shutdown` is called
they leave one after the other, each just before it is joined. -/

namespace Yaay.Process

open Yaay.Transition

variable {cfg : Config} {s s' : State cfg} {action : Action} {here there : MainPc}
  {cycle tid from_ : Nat}

structure Stage (s : State cfg) (cycle : Nat) (main : MainPc) : Prop where
  reached : (system cfg).Reachable anyAction s
  present : s.cycle = cycle
  mainAt : s.main = main
  returned : s.returned ≤ cfg.workers cycle

def ReactorPc.waiting (pc : ReactorPc) : Prop := pc = .parked ∨ pc = .relock ∨ pc = .notify

/-- The array is full, and the reactors from this number on have not left the wait. -/
structure Ready (s : State cfg) (cycle : Nat) (main : MainPc) (from_ : Nat) : Prop
    extends Stage s cycle main where
  built : allBuilt (s.ptrs cycle) = true
  waits : ∀ tid, from_ ≤ tid → tid < cfg.reactors cycle → (s.reactor cycle tid).pc.waiting

theorem Stage.go (stage : Stage s cycle here) (action : Action)
    (taken : step s action = some s') (sameCycle : s'.cycle = s.cycle) (main : s'.main = there)
    (returned : s'.returned ≤ cfg.workers cycle) : Stage s' cycle there :=
  ⟨.step s s' action stage.reached trivial taken, sameCycle.trans stage.present, main, returned⟩

theorem Ready.go (ready : Ready s cycle here from_) (action : Action)
    (taken : step s action = some s') (sameCycle : s'.cycle = s.cycle) (main : s'.main = there)
    (returned : s'.returned ≤ cfg.workers cycle) (ptrs : s'.ptrs = s.ptrs)
    (reactor : s'.reactor = s.reactor) : Ready s' cycle there from_ := by
  refine ⟨ready.toStage.go _ taken sameCycle main returned, ?_, ?_⟩
  · rw [ptrs]
    exact ready.built
  · rw [reactor]
    exact ready.waits

theorem Ready.place {r : Reactor} (ready : Ready s cycle here (tid + 1))
    (taken : step s action = some (s.setReactor cycle tid r)) :
    Ready (s.setReactor cycle tid r) cycle here (tid + 1) := by
  refine ⟨ready.toStage.go _ taken rfl ready.mainAt ready.returned, ready.built, ?_⟩
  intro other later inside
  have different : ¬ (cycle = cycle ∧ other = tid) := by omega
  rw [setReactor_other different]
  exact ready.waits other later inside

theorem Ready.relocks (ready : Ready s cycle here (tid + 1))
    (place : (s.reactor cycle tid).pc = .relock) :
    ∃ next : State cfg, Ready next cycle here (tid + 1) ∧
      (next.reactor cycle tid).pc = .notify := by
  have taken : step s (.reactor cycle tid 0 none) =
      some (s.setReactor cycle tid ((s.reactor cycle tid).setPc .notify)) := by
    simp only [step, reactor, place, ready.built, if_true]
  exact ⟨_, ready.place taken, setReactor_pc rfl⟩

theorem Ready.notifies (ready : Ready s cycle here tid) (inside : tid < cfg.reactors cycle) :
    ∃ next : State cfg, Ready next cycle here (tid + 1) ∧
      (next.reactor cycle tid).pc = .notify := by
  have rest : Ready s cycle here (tid + 1) :=
    ⟨ready.toStage, ready.built, fun other later => ready.waits other (Nat.le_of_lt later)⟩
  rcases ready.waits tid (Nat.le_refl tid) inside with parked | relock | notify
  · have taken : step s (.wakeReactor cycle tid) =
        some (s.setReactor cycle tid ((s.reactor cycle tid).setPc .relock)) := by
      simp only [step, wakeReactor, parked, if_true]
    exact (rest.place taken).relocks (setReactor_pc rfl)
  · exact rest.relocks relock
  · exact ⟨s, rest, notify⟩

theorem Reactor.woken_waiting {r : Reactor} (waiting : r.pc.waiting) : r.woken.pc.waiting := by
  by_cases parked : r.pc = .parked
  · unfold Reactor.woken
    rw [parked]
    exact Or.inr (Or.inl rfl)
  · rw [Reactor.woken_pc_of_ne parked]
    exact waiting

/-- The notification may wake the others, and leaves the main thread where it is. -/
theorem Ready.guards (ready : Ready s cycle here (tid + 1)) (awake : here ≠ .parked)
    (place : (s.reactor cycle tid).pc = .notify) :
    ∃ next : State cfg, Ready next cycle here (tid + 1) ∧
      (next.reactor cycle tid).pc = .batchGuard := by
  have taken : step s (.reactor cycle tid 0 none) =
      some ((s.notifyAll cycle).setReactor cycle tid
        ((s.reactor cycle tid).setPc .batchGuard)) := by
    simp only [step, reactor, place]
  have still : (s.notifyAll cycle).main = here := by
    rw [State.notifyAll_main, ready.mainAt]
    exact if_neg (fun both => awake both.2)
  refine ⟨_, ⟨ready.toStage.go _ taken rfl still ready.returned, ready.built, ?_⟩, ?_⟩
  · intro other later inside
    have different : ¬ (cycle = cycle ∧ other = tid) := by omega
    rw [setReactor_other different, State.notifyAll_reactor, Function.update_self]
    exact Reactor.woken_waiting (ready.waits other later inside)
  · rw [setReactor_self]
    rfl

theorem Ready.tests (ready : Ready s cycle here (tid + 1))
    (place : (s.reactor cycle tid).pc = .batchGuard) :
    ∃ next : State cfg, Ready next cycle here (tid + 1) ∧
      (next.reactor cycle tid).pc = .loopTest := by
  have inv := reachable_inv ready.reached
  have live : (s.reactor cycle tid).pc.live := by rw [place]; trivial
  have empty : (s.reactor cycle tid).batch = none :=
    (inv.reactors cycle tid).fresh (by rw [place]; trivial)
  have taken : step s (.reactor cycle tid 0 none) =
      some (s.setReactor cycle tid ((s.reactor cycle tid).setBatch .loopTest
        (some (List.replicate (cfg.workers cycle) 0)))) := by
    simp only [step, reactor, place, State.batchGuard, (inv.reading live).newBatch, empty]
  exact ⟨_, ready.place taken, setReactor_pc rfl⟩

theorem Ready.leaves (ready : Ready s cycle here (tid + 1)) (behind : 0 < cycle ∨ here.stopped)
    (place : (s.reactor cycle tid).pc = .loopTest) :
    ∃ next : State cfg, Ready next cycle here (tid + 1) ∧
      (next.reactor cycle tid).pc = .drain := by
  have flag : s.shutdown = true := by
    rw [(reachable_inv ready.reached).flag, ready.present, ready.mainAt]
    exact behind
  have taken : step s (.reactor cycle tid 0 none) =
      some (s.setReactor cycle tid ((s.reactor cycle tid).setPc .drain)) := by
    simp only [step, reactor, place, flag, if_true]
  exact ⟨_, ready.place taken, setReactor_pc rfl⟩

theorem Ready.drains (ready : Ready s cycle here tid) (inside : tid < cfg.reactors cycle)
    (awake : here ≠ .parked) (behind : 0 < cycle ∨ here.stopped) :
    ∃ next : State cfg, Ready next cycle here (tid + 1) ∧
      (next.reactor cycle tid).pc = .drain := by
  obtain ⟨first, ready, notify⟩ := ready.notifies inside
  obtain ⟨second, ready, batchGuard⟩ := ready.guards awake notify
  obtain ⟨third, ready, loopTest⟩ := ready.tests batchGuard
  exact ready.leaves behind loopTest

theorem Ready.drops (ready : Ready s cycle here (tid + 1))
    (place : (s.reactor cycle tid).pc = .dropGuard) :
    ∃ next : State cfg, Ready next cycle here (tid + 1) ∧
      (next.reactor cycle tid).pc = .finished := by
  obtain ⟨lists, pushed, _⟩ := (reachable_inv ready.reached).pushes place trivial trivial
  have taken : step s (.reactor cycle tid 0 none) =
      some (s.setReactor cycle tid ((s.reactor cycle tid).setBatch .finished none)) := by
    simp only [step, reactor, place, State.dropGuard, pushed]
  exact ⟨_, ready.place taken, setReactor_pc rfl⟩

theorem Ready.finishes (ready : Ready s cycle here tid) (inside : tid < cfg.reactors cycle)
    (awake : here ≠ .parked) (behind : 0 < cycle ∨ here.stopped) :
    ∃ next : State cfg, Ready next cycle here (tid + 1) ∧
      (next.reactor cycle tid).pc = .finished := by
  obtain ⟨between, ready, drain⟩ := ready.drains inside awake behind
  have taken : step between (.reactor cycle tid 0 none) =
      some (between.setReactor cycle tid ((between.reactor cycle tid).setPc .dropGuard)) := by
    simp only [step, reactor, drain]
  exact (ready.place taken).drops (setReactor_pc rfl)

theorem Stage.spawns (stage : Stage s cycle (.spawn 0)) {count : Nat}
    (bound : count ≤ cfg.reactors cycle) :
    ∃ next : State cfg, Stage next cycle (.spawn count) ∧
      ∀ tid, tid < count → (next.reactor cycle tid).pc = .build := by
  induction count with
  | zero => exact ⟨s, stage, fun tid impossible => absurd impossible (Nat.not_lt_zero tid)⟩
  | succ count ih =>
      obtain ⟨before, stage, each⟩ := ih (Nat.le_of_succ_le bound)
      have inside : count < cfg.reactors before.cycle := by
        rw [stage.present]
        exact bound
      have taken : step before .main = some ((before.setMain (.spawn (count + 1))).setReactor
          before.cycle count { pc := .build, localPtr := none, batch := none }) := by
        simp only [step, main, stage.mainAt, inside, if_true]
      refine ⟨_, stage.go _ taken rfl rfl stage.returned, ?_⟩
      intro tid below
      rw [stage.present]
      by_cases same : tid = count
      · subst same
        exact setReactor_pc rfl
      · have different : ¬ (cycle = cycle ∧ tid = count) := fun both => same both.2
        rw [setReactor_other different]
        apply each
        omega

private theorem spawns_all (reached : (system cfg).Reachable anyAction s)
    (present : s.cycle = cycle)
    (start : s.main = .start) :
    ∃ next : State cfg, Stage next cycle .check ∧
      ∀ tid, tid < cfg.reactors cycle → (next.reactor cycle tid).pc = .build := by
  have started : step s .main = some { (s.setMain (.spawn 0)).setMemory s.cycle
      { shared := true, epoch := true, workers := fun w => w < cfg.workers s.cycle } with
      global := some s.cycle, returned := 0 } := by
    simp only [step, main, start]
  have stage : Stage _ cycle (.spawn 0) :=
    ⟨.step s _ .main reached trivial started, present, rfl, Nat.zero_le _⟩
  obtain ⟨before, stage, each⟩ := stage.spawns (Nat.le_refl _)
  have outside : ¬ cfg.reactors cycle < cfg.reactors before.cycle := by
    rw [stage.present]
    exact Nat.lt_irrefl _
  have taken : step before .main = some (before.setMain .check) := by
    simp only [step, main, stage.mainAt, outside, if_false]
  exact ⟨_, stage.go _ taken rfl rfl stage.returned, each⟩

theorem Stage.stores (stage : Stage s cycle here) (place : (s.reactor cycle tid).pc = .store) :
    ∃ next : State cfg, Stage next cycle here ∧
      next.ptrs cycle = (s.ptrs cycle).set tid (some ⟨cycle, tid⟩) ∧
      (next.reactor cycle tid).pc.waiting ∧
      ∀ other, other ≠ tid → next.reactor cycle other = s.reactor cycle other := by
  have ok := (reachable_inv stage.reached).reactors cycle tid
  have own := ok.local_of_live place trivial ReactorPc.noConfusion
  have taken : step s (.reactor cycle tid 0 none) =
      some ((s.setPtrs cycle ((s.ptrs cycle).set tid (some ⟨cycle, tid⟩))).setReactor cycle tid
        ((s.reactor cycle tid).setPc
          (if allBuilt ((s.ptrs cycle).set tid (some ⟨cycle, tid⟩)) then .notify
            else .parked))) := by
    simp only [step, reactor, place, own]
  refine ⟨_, stage.go _ taken rfl stage.mainAt stage.returned, ?_, ?_, ?_⟩
  · exact Function.update_self cycle _ s.ptrs
  · rw [setReactor_self]
    by_cases full : allBuilt ((s.ptrs cycle).set tid (some ⟨cycle, tid⟩)) = true
    · rw [if_pos full]
      exact Or.inr (Or.inr rfl)
    · rw [if_neg full]
      exact Or.inl rfl
  · intro other different
    exact setReactor_other (fun both => different both.2)

theorem Stage.builds (stage : Stage s cycle here) (place : (s.reactor cycle tid).pc = .build) :
    ∃ next : State cfg, Stage next cycle here ∧
      next.ptrs cycle = (s.ptrs cycle).set tid (some ⟨cycle, tid⟩) ∧
      (next.reactor cycle tid).pc.waiting ∧
      ∀ other, other ≠ tid → next.reactor cycle other = s.reactor cycle other := by
  have taken : step s (.reactor cycle tid 0 none) =
      some (s.setReactor cycle tid { s.reactor cycle tid with
        pc := .store
        localPtr := some ⟨cycle, tid⟩ }) := by
    simp only [step, reactor, place]
  have between := stage.go _ taken rfl stage.mainAt stage.returned
  obtain ⟨next, stage, stored, waiting, others⟩ := between.stores (setReactor_pc rfl)
  refine ⟨next, stage, stored, waiting, ?_⟩
  intro other different
  rw [others other different, setReactor_other (fun both => different both.2)]

theorem Stage.fills (stage : Stage s cycle here)
    (each : ∀ tid, tid < cfg.reactors cycle → (s.reactor cycle tid).pc = .build) {count : Nat}
    (bound : count ≤ cfg.reactors cycle) :
    ∃ next : State cfg, Stage next cycle here ∧
      (∀ tid, tid < count → (next.reactor cycle tid).pc.waiting ∧
        (next.ptrs cycle)[tid]? = some (some ⟨cycle, tid⟩)) ∧
      ∀ tid, count ≤ tid → tid < cfg.reactors cycle →
        (next.reactor cycle tid).pc = .build := by
  induction count with
  | zero =>
      exact ⟨s, stage, fun tid impossible => absurd impossible (Nat.not_lt_zero tid),
        fun tid _ => each tid⟩
  | succ count ih =>
      obtain ⟨before, stage, done, left⟩ := ih (Nat.le_of_succ_le bound)
      obtain ⟨next, after, stored, waiting, others⟩ :=
        stage.builds (left count (Nat.le_refl count) bound)
      have length := ((reachable_inv stage.reached).stored cycle).length
      refine ⟨next, after, ?_, ?_⟩
      · intro tid below
        rw [stored]
        by_cases same : tid = count
        · subst same
          refine ⟨waiting, List.getElem?_set_self ?_⟩
          rw [length]
          exact bound
        · rw [others tid same, List.getElem?_set_ne (Ne.symm same)]
          apply done
          omega
      · intro tid later inside
        have different : tid ≠ count := by omega
        rw [others tid different]
        exact left tid (Nat.le_of_succ_le later) inside

theorem Stage.full (stage : Stage s cycle here)
    (each : ∀ tid, tid < cfg.reactors cycle → (s.reactor cycle tid).pc = .build) :
    ∃ next : State cfg, Ready next cycle here 0 := by
  obtain ⟨next, stage, done, _left⟩ := stage.fills each (Nat.le_refl _)
  refine ⟨next, stage, ?_, fun tid _ inside => (done tid inside).1⟩
  rw [allBuilt, List.all_eq_true]
  intro entry member
  obtain ⟨tid, inside, found⟩ := List.getElem_of_mem member
  rw [((reachable_inv stage.reached).stored cycle).length] at inside
  have stored := List.getElem?_eq_some_iff.mp (done tid inside).2
  obtain ⟨_, same⟩ := stored
  rw [← found, same]
  rfl

theorem Ready.runs (ready : Ready s cycle .check 0) :
    ∃ next : State cfg, Ready next cycle .joinWorkers 0 ∧ next.born = true := by
  have built : allBuilt (s.ptrs s.cycle) = true := by
    rw [ready.present]
    exact ready.built
  have checked : step s .main = some (s.setMain .collect) := by
    simp only [step, main, ready.mainAt, built, if_true]
  have collecting : Ready _ cycle .collect 0 :=
    ready.go _ checked rfl rfl ready.returned rfl rfl
  have storing : Ready _ cycle (.storeGlobal (s.ptrs s.cycle)) 0 :=
    collecting.go .main rfl rfl rfl ready.returned rfl rfl
  have running : Ready _ cycle .run 0 :=
    storing.go .main rfl rfl rfl ready.returned rfl rfl
  have joining : Ready _ cycle .joinWorkers 0 :=
    running.go .main rfl rfl rfl ready.returned rfl rfl
  exact ⟨_, joining, rfl⟩

theorem Ready.returns (ready : Ready s cycle .joinWorkers 0) (born : s.born = true) {left : Nat}
    (all : s.returned + left = cfg.workers cycle) :
    ∃ next : State cfg, Ready next cycle .joinWorkers 0 ∧
      next.returned = cfg.workers cycle := by
  induction left generalizing s with
  | zero => exact ⟨s, ready, all⟩
  | succ left ih =>
      have below : s.returned < cfg.workers s.cycle := by
        rw [ready.present]
        omega
      have taken : step s .workerReturns = some { s with returned := s.returned + 1 } := by
        simp only [step, workerReturns]
        exact if_pos ⟨born, below⟩
      have more : s.returned + 1 + left = cfg.workers cycle := by omega
      have within : s.returned + 1 ≤ cfg.workers cycle := by omega
      exact ih (ready.go _ taken rfl ready.mainAt within rfl rfl) born more

theorem Ready.shutsDown (ready : Ready s cycle .joinWorkers 0) (born : s.born = true) :
    ∃ next : State cfg, Ready next cycle (.joinReactors 0) 0 := by
  obtain ⟨next, ready, all⟩ := ready.returns born (Nat.add_sub_of_le ready.returned)
  have whole : next.returned = cfg.workers next.cycle := by
    rw [ready.present]
    exact all
  have joined : step next .main = some (next.setMain .setShutdown) := by
    simp only [step, main, ready.mainAt]
    exact if_pos whole
  have setting : Ready _ cycle .setShutdown 0 :=
    ready.go _ joined rfl rfl ready.returned rfl rfl
  exact ⟨_, setting.go .main rfl rfl rfl ready.returned rfl rfl⟩

theorem Ready.joins (ready : Ready s cycle (.joinReactors 0) 0) {count : Nat}
    (bound : count ≤ cfg.reactors cycle) :
    ∃ next : State cfg, Ready next cycle (.joinReactors count) count := by
  induction count with
  | zero => exact ⟨s, ready⟩
  | succ count ih =>
      obtain ⟨before, ready⟩ := ih (Nat.le_of_succ_le bound)
      obtain ⟨between, ready, finished⟩ :=
        ready.finishes bound MainPc.noConfusion (Or.inr trivial)
      have inside : count < cfg.reactors between.cycle := by
        rw [ready.present]
        exact bound
      have ended : (between.reactor between.cycle count).pc.ended = true := by
        rw [ready.present, finished]
        rfl
      have taken : step between .main = some (between.setMain (.joinReactors (count + 1))) := by
        simp only [step, main, ready.mainAt, inside, ended, if_true]
      exact ⟨_, ready.go _ taken rfl rfl ready.returned rfl rfl⟩

theorem Stage.frees (stage : Stage s cycle (.freeWorker 0)) {count : Nat}
    (bound : count ≤ cfg.workers cycle) :
    ∃ next : State cfg, Stage next cycle (.freeWorker count) := by
  induction count with
  | zero => exact ⟨s, stage⟩
  | succ count ih =>
      obtain ⟨before, stage⟩ := ih (Nat.le_of_succ_le bound)
      have inside : count < cfg.workers before.cycle := by
        rw [stage.present]
        exact bound
      have taken : step before .main = some ((before.setMain (.freeWorker (count + 1))).setMemory
          before.cycle { before.memory before.cycle with
            workers := Function.update (before.memory before.cycle).workers count false }) := by
        simp only [step, main, stage.mainAt, inside, if_true]
      exact ⟨_, stage.go _ taken rfl rfl stage.returned⟩

theorem Stage.exits (stage : Stage s cycle (.freeWorker (cfg.workers cycle))) :
    ∃ next : State cfg, (system cfg).Reachable anyAction next ∧ next.cycle = cycle + 1 ∧
      next.main = .start := by
  have outside : ¬ cfg.workers cycle < cfg.workers s.cycle := by
    rw [stage.present]
    exact Nat.lt_irrefl _
  have taken : step s .main = some (s.setMain .dropTasks) := by
    simp only [step, main, stage.mainAt, outside, if_false]
  have dropping : Stage _ cycle .dropTasks := stage.go _ taken rfl rfl stage.returned
  have epoch : Stage _ cycle .freeEpoch :=
    dropping.go .main rfl rfl rfl stage.returned
  have shared : Stage _ cycle .freeShared :=
    epoch.go .main rfl rfl rfl stage.returned
  have clearing : Stage _ cycle .clearGlobal :=
    shared.go .main rfl rfl rfl stage.returned
  have exit : Stage _ cycle .exit :=
    clearing.go .main rfl rfl rfl stage.returned
  refine ⟨_, .step _ _ .main exit.reached trivial rfl, ?_, rfl⟩
  exact congrArg (· + 1) stage.present

private theorem reaches_run (reached : (system cfg).Reachable anyAction s)
    (present : s.cycle = cycle)
    (start : s.main = .start) :
    ∃ next : State cfg, Ready next cycle .joinWorkers 0 ∧ next.born = true := by
  obtain ⟨spawned, stage, each⟩ := spawns_all reached present start
  obtain ⟨full, ready⟩ := stage.full each
  exact ready.runs

private theorem reaches_next (reached : (system cfg).Reachable anyAction s)
    (present : s.cycle = cycle)
    (start : s.main = .start) :
    ∃ next : State cfg, (system cfg).Reachable anyAction next ∧ next.cycle = cycle + 1 ∧
      next.main = .start := by
  obtain ⟨running, ready, born⟩ := reaches_run reached present start
  obtain ⟨stopped, ready⟩ := ready.shutsDown born
  obtain ⟨joined, ready⟩ := ready.joins (Nat.le_refl _)
  have outside : ¬ cfg.reactors cycle < cfg.reactors joined.cycle := by
    rw [ready.present]
    exact Nat.lt_irrefl _
  have taken : step joined .main = some (joined.setMain (.freeWorker 0)) := by
    simp only [step, main, ready.mainAt, outside, if_false]
  have freeing : Stage _ cycle (.freeWorker 0) :=
    ready.toStage.go _ taken rfl rfl ready.returned
  obtain ⟨freed, stage⟩ := freeing.frees (Nat.le_refl _)
  exact stage.exits

private theorem reaches_every_cycle (cfg : Config) (cycle : Nat) :
    ∃ s : State cfg, (system cfg).Reachable anyAction s ∧ s.cycle = cycle ∧
      s.main = .start := by
  induction cycle with
  | zero => exact ⟨State.init cfg, .initial _ rfl, rfl, rfl⟩
  | succ cycle ih =>
      obtain ⟨s, reached, present, start⟩ := ih
      exact reaches_next reached present start

/-- In a later cycle a reactor can be behind its loop while the tasks of the cycle run. -/
theorem leaves_early (cfg : Config) (later : 0 < cycle) :
    ∃ s : State cfg, (system cfg).Reachable anyAction s ∧ s.cycle = cycle ∧
      s.main = .joinWorkers ∧ (s.reactor cycle 0).pc = .drain := by
  obtain ⟨started, reached, present, start⟩ := reaches_every_cycle cfg cycle
  obtain ⟨running, ready, _born⟩ := reaches_run reached present start
  obtain ⟨s, ready, drain⟩ :=
    ready.drains (cfg.reactors_pos cycle) MainPc.noConfusion (Or.inl later)
  exact ⟨s, ready.reached, ready.present, ready.mainAt, drain⟩

end Yaay.Process
