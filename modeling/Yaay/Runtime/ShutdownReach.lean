import Yaay.Runtime.LocalQueue
import Yaay.Runtime.Parking
import Yaay.Runtime.SoloRank

set_option autoImplicit false

/-! The last worker in its loop returns on its own, if every task was counted where its
worker could still notice. -/

namespace Yaay.Scheduler

open Yaay.Transition

variable {n : Nat} {s s' : State n} {w : Fin n} {action : Action n}

/-- The runs of `attentive` workers that validate their statuses in time. -/
def vigilant (s : State n) (action : Action n) : Prop := attentive s action ∧ timely s action

instance (s : State n) (action : Action n) : Decidable (vigilant s action) :=
  inferInstanceAs (Decidable (attentive s action ∧ timely s action))

/-- Where the worker stands, it will notice the counted tasks of its queue: it is not
about to call `set_inactive` with one, and its status is not from before a wrap. -/
structure Told (s : State n) (w : Fin n) : Prop where
  window : s.pc w = .deactivate → Epoch.activeCount s.word = 1 ∨ s.Uncounted w
  near : ∀ old, (s.pc w).snapshot = some old →
    s.calls / Epoch.epochs = old.readAt / Epoch.epochs ∨ s.Uncounted w

private theorem snapshot_of_rereading {pc : Pc n} {old : Snapshot}
    (holds : pc.rereading = some old) :
    pc.snapshot = some old := by
  cases pc <;> first | exact holds | cases holds

private theorem snapshot_of_parking {pc : Pc n} {old : Snapshot} (holds : pc.parking = some old) :
    pc.snapshot = some old := by
  cases pc <;> first | exact holds | cases holds

theorem Told.attentive (told : Told s w) (refuse : Bool) :
    attentive s (.work w refuse) := by
  intro u same
  cases same
  exact ⟨told.window, fun old holds => told.near old (snapshot_of_rereading holds)⟩

private theorem timely_of_near (refuse : Bool) (near : ∀ old, (s.pc w).snapshot = some old →
    s.calls / Epoch.epochs = old.readAt / Epoch.epochs) : timely s (.work w refuse) := by
  intro u same old holds
  cases same
  have near := near old (snapshot_of_parking holds)
  simp only [Epoch.epochs] at near ⊢
  omega

theorem callStep_of_busy {thread : Thread n} (busy : s.call thread ≠ .none) :
    ∃ s', callStep s thread = some s' := by
  cases here : s.call thread with
  | none => exact absurd here busy
  | pushing todo origin => cases todo <;> simp [callStep, here]
  | _ => simp [callStep, here]

def solo (w : Fin n) (s s' : State n) : Prop :=
  (∃ refuse, step s (.work w refuse) = some s') ∨ step s (.call (.worker w)) = some s'

structure LastOne (w : Fin n) (s : State n) : Prop where
  reached : (system n).Reachable vigilant s
  stopped : s.stopped = true
  others : ∀ u, u ≠ w → s.pc u = .returned
  told : Told s w

namespace LastOne

theorem idle (last : LastOne w s) {u : Fin n} (other : u ≠ w) :
    s.call (.worker u) = .none := by
  by_contra busy
  obtain ⟨job, polling⟩ := (reachable_consistent last.reached).calling u busy
  rw [last.others u other] at polling
  cases polling

private theorem idle_of_place (last : LastOne w s) (place : ∀ work, s.pc w ≠ .polling work) :
    s.call (.worker w) = .none := by
  by_contra busy
  obtain ⟨job, polling⟩ := (reachable_consistent last.reached).calling w busy
  exact place job polling

theorem announced (last : LastOne w s) (place : (s.pc w).leaving = false)
    (free : (s.pc w).hand = none) :
    ∃ entry ∈ s.queue w, ∃ epoch, entry.stamp = .announced epoch := by
  have calm : s.call (.worker w) = .none :=
    last.idle_of_place (fun work polling => by rw [polling] at place; cases place)
  have silent (u : Fin n) : s.call (.worker u) = .none := by
    by_cases same : u = w
    · rw [same, calm]
    · exact last.idle same
  rcases (reachable_spread last.reached).stopped last.stopped w with
    flag | ⟨entry, member, _work, settled⟩ | ⟨u, hand⟩ | ⟨u, visits⟩
  · rw [(reachable_flagged last.reached).leaving w flag] at place
    cases place
  · have stamped := (reachable_consistent last.reached).stamped w entry member
    refine ⟨entry, member, ?_⟩
    generalize entry.stamp = stamp at settled stamped
    cases stamp with
    | own => exact settled.elim
    | pushed thread =>
        cases thread with
        | worker u =>
            rw [Stamped, silent u] at stamped
            exact stamped.elim
        | external name => exact settled.elim
    | announcing thread epoch =>
        cases thread with
        | worker u =>
            rw [Stamped, silent u] at stamped
            obtain ⟨_bound, origin, unparking⟩ := stamped
            cases unparking
        | external name => exact settled.elim
    | announced epoch => exact ⟨epoch, rfl⟩
  · by_cases same : u = w
    · rw [← same, hand] at free
      cases free
    · rw [last.others u same] at hand
      cases hand
  · rw [silent u] at visits
    exact visits.elim

theorem counted (last : LastOne w s) (place : (s.pc w).leaving = false)
    (free : (s.pc w).hand = none) : ¬ s.Uncounted w := by
  obtain ⟨entry, member, epoch, stamp⟩ := last.announced place free
  intro uncounted
  have none := uncounted entry member
  rw [stamp] at none
  cases none

theorem queued (last : LastOne w s) (place : (s.pc w).leaving = false)
    (free : (s.pc w).hand = none) : s.queue w ≠ [] :=
  fun empty => last.counted place free (uncounted_of_empty empty)

theorem near (last : LastOne w s) {old : Snapshot} (holds : (s.pc w).snapshot = some old) :
    s.calls / Epoch.epochs = old.readAt / Epoch.epochs := by
  refine (last.told.near old holds).resolve_right (last.counted ?_ ?_)
  · generalize s.pc w = pc at holds
    cases pc <;> first | rfl | cases holds
  · generalize s.pc w = pc at holds
    cases pc <;> first | rfl | cases holds

theorem permitted (last : LastOne w s) (moved : solo w s s') :
    ∃ action, vigilant s action ∧ step s action = some s' := by
  rcases moved with ⟨refuse, taken⟩ | taken
  · exact ⟨.work w refuse, ⟨last.told.attentive refuse,
      timely_of_near refuse (fun _old holds => last.near holds)⟩, taken⟩
  · exact ⟨.call (.worker w), ⟨(fun _ other => by cases other), (fun _ other => by cases other)⟩,
      taken⟩

private theorem told_step (last : LastOne w s) (moved : solo w s s') : Told s' w := by
  rcases moved with ⟨refuse, taken⟩ | taken
  · constructor
    · intro place
      have before := moved_of_work taken
      rw [place] at before
      generalize here : s.pc w = pc at before
      cases before with
      | drained empty =>
          exact absurd empty (last.queued (by rw [here]; rfl) (by rw [here]; rfl))
    · intro new holds
      rcases snapshot_of_step taken holds with kept | ⟨_stays, rfl⟩ | ⟨old, _here, rfl⟩
      · rw [(worked_of_work taken).calls]
        exact Or.inl (last.near kept)
      · exact Or.inl rfl
      · exact Or.inl rfl
  · have called := called_of_callStep taken
    obtain ⟨job, polling⟩ := (reachable_consistent last.reached).calling w called.busy
    have still := polling_kept polling (called.pc w)
    constructor
    · intro place
      rw [still] at place
      cases place
    · intro new holds
      rw [still] at holds
      cases holds

private theorem stopped_step (taken : step s action = some s') (stopped : s.stopped = true) :
    s'.stopped = true := by
  rcases stopped_of_step taken with same | ⟨now, _ended⟩
  · rw [same, stopped]
  · exact now

theorem step (last : LastOne w s) (moved : solo w s s') : LastOne w s' := by
  obtain ⟨action, permitted, taken⟩ := last.permitted moved
  refine ⟨.step s s' action last.reached permitted taken, stopped_step taken last.stopped, ?_,
    last.told_step moved⟩
  intro u other
  have returned := last.others u other
  rcases pc_of_step taken u with (same | unparked) | ⟨refuse, _same, worked⟩
  · rw [same, returned]
  · rw [unparked, returned]
    rfl
  · simp [work, returned] at worked

theorem flags (last : LastOne w s) (flag : s.shutdown w = true) (u : Fin n) :
    s.shutdown u = true := by
  by_cases same : u = w
  · rw [same, flag]
  · exact (reachable_flagged last.reached).returned u (last.others u same)

/-- A producer of the last worker comes nearer to its end and pushes what it had to. -/
theorem call_nearer (last : LastOne w s) (taken : callStep s (.worker w) = some s') :
    Prod.Lex (· < ·) (· < ·) (s'.rank w) (s.rank w) := by
  have called := called_of_callStep taken
  obtain ⟨job, polling⟩ := (reachable_consistent last.reached).calling w called.busy
  have still := polling_kept polling (called.pc w)
  refine Prod.lex_def.mpr (Or.inr ⟨load_of_callStep taken ?_, ?_⟩)
  · intro other rest reading
    refine last.flags ((reachable_flagged last.reached).looping w other ?_) other
    rw [reading]
    exact List.mem_cons_self
  · have fewer := rank_of_callStep taken
    simp only [State.rank, polling, still, Pc.rank]
    omega

/-- With a counted task in its queue, the worker re-reads a later epoch. -/
theorem later (small : n < 512) (last : LastOne w s) {old : Snapshot}
    (place : s.pc w = .reread old) : Epoch.epoch old.status < Epoch.epoch s.word := by
  have consistent := reachable_consistent last.reached
  have holds : (s.pc w).snapshot = some old := by rw [place]; rfl
  have counted := last.counted (by rw [place]; rfl) (by rw [place]; rfl)
  have attentively := last.reached.weaken (fun _state _action _reached both => both.1)
  have noticed := reachable_noticed small attentively w
  rw [place] at noticed
  by_contra still
  have current := readAt_of_unchanged consistent small (consistent.held w old holds) still
    (last.near holds)
  exact counted (consistent.uncounted_of_newer (current ▸ noticed))

private theorem work_nearer (small : n < 512) (last : LastOne w s) {refuse : Bool}
    (taken : work s w refuse = some s') :
    Prod.Lex (· < ·) (· < ·) (s'.rank w) (s.rank w) := by
  have consistent := reachable_consistent last.reached
  have pending := pending_of_work consistent.calling taken
  rcases load_of_work taken with fewer | ⟨same, free⟩
  · refine Prod.lex_def.mpr (Or.inl ?_)
    simp only [State.rank]
    omega
  · refine Prod.lex_def.mpr (Or.inr ⟨?_, ?_⟩)
    · simp only [State.rank]
      omega
    · rcases rank_of_work consistent taken last.queued (fun old place => last.later small place)
        with less | ⟨before, after⟩
      · exact less
      · exact absurd (free before) after

/-- The worker is not parked for good, and always finds another worker to rob. -/
theorem live (small : n < 512) (last : LastOne w s) (going : s.pc w ≠ .returned) :
    ∃ s', solo w s s' := by
  have consistent := reachable_consistent last.reached
  by_cases idle : s.call (.worker w) = .none
  · have works : ∃ s', work s w false = some s' := by
      cases here : s.pc w with
      | steal old tries =>
          have held := consistent.held w old (by rw [here]; rfl)
          have branch := consistent.branch w
          rw [here] at branch
          obtain ⟨s', robbed⟩ : ∃ s', trySteal s w old tries = some s' :=
            trySteal_of_busy small held branch.1 tries
          by_cases done : tries = 4 * n
          · simp [work, here, done]
          · exact ⟨s', by simp only [work, here, if_neg done, robbed]⟩
      | parked old =>
          obtain ⟨entry, member, epoch, announced⟩ :=
            last.announced (by rw [here]; rfl) (by rw [here]; rfl)
          have timely := last.reached.weaken (fun _state _action _reached both => both.2)
          rcases reachable_asleep small (timely_careful small) timely w old here with
            ⟨v, job, raised⟩ | ⟨_calm, unannounced⟩
          · by_cases same : v = w
            · rw [same, here] at raised
              cases raised
            · rw [last.others v same] at raised
              cases raised
          · exact absurd announced (unannounced entry member epoch)
      | returned => exact absurd here going
      | polling job => simp [work, here, idle, Call.isNone]
      | _ => simp [work, here]
    obtain ⟨s', taken⟩ := works
    exact ⟨s', Or.inl ⟨false, taken⟩⟩
  · obtain ⟨s', taken⟩ := callStep_of_busy idle
    exact ⟨s', Or.inr taken⟩

end LastOne

/-- Shutdown reaches the last worker: once `shutdown_async` has returned and all others
have left their loops, the worker leaves its own, on every path of its own steps. -/
theorem shutdown_reaches_last_worker (small : n < 512)
    (reached : (system n).Reachable vigilant s) (stopped : s.stopped = true)
    (others : ∀ u, u ≠ w → s.pc u = .returned) (told : Told s w) :
    Inevitable (solo w) (fun s => s.pc w = .returned) s := by
  have grounded : WellFounded (Prod.Lex (· < ·) (· < ·) : Nat × Nat → Nat × Nat → Prop) :=
    WellFounded.prod_lex Nat.lt_wfRel.wf Nat.lt_wfRel.wf
  refine Inevitable.of_rank grounded (State.rank w) (fun s last going => last.live small going)
    ?_ (show LastOne w s from ⟨reached, stopped, others, told⟩)
  intro before after last _going moved
  refine ⟨last.step moved, ?_⟩
  rcases moved with ⟨refuse, taken⟩ | taken
  · exact last.work_nearer small taken
  · exact last.call_nearer taken

def firstReturns : List (Action 2) :=
  works first 2 ++ List.replicate 3 (.call (.worker first)) ++ works first 2

def shutdownOfTwo : List (Action 2) :=
  [.shutdownAsync (.external 0)] ++ List.replicate 3 (.call (.external 0)) ++ firstReturns

private theorem shutdownOfTwo_runs : ((system 2).exec pair shutdownOfTwo).isSome = true := by
  decide

def secondLeft : State 2 := ((system 2).exec pair shutdownOfTwo).get shutdownOfTwo_runs

private theorem secondLeft_reached : (system 2).Reachable vigilant secondLeft :=
  System.Reachable.replay (.initial pair pair_initial) (System.permitted_of_checks (by decide))
    shutdownOfTwo_runs

theorem second_worker_returns :
    secondLeft.pc 1 = .drain ∧
      Inevitable (solo 1) (fun s => s.pc 1 = .returned) secondLeft := by
  refine ⟨rfl, shutdown_reaches_last_worker (by decide) secondLeft_reached rfl ?_ ⟨?_, ?_⟩⟩
  · intro u other
    have first : u = 0 := by omega
    rw [first]
    rfl
  · exact fun place => absurd place (by decide)
  · exact fun old holds => by cases holds

/-- The second worker is between its last pop and its `set_inactive` all the while. -/
def shutdownInWindow : List (Action 2) := works second 1 ++ shutdownOfTwo ++ works second 1

private theorem shutdownInWindow_runs : ((system 2).exec pair shutdownInWindow).isSome = true := by
  decide

def secondSearches : State 2 := ((system 2).exec pair shutdownInWindow).get shutdownInWindow_runs

/-- The second worker robs an empty queue and re-reads one word for ever. -/
structure Spins (s : State 2) : Prop where
  word : Epoch.activeCount s.word ≠ 0
  empty : s.queue 0 = []
  place : ∃ old, old.status = s.word ∧
    (s.pc 1 = .search old ∨ (∃ tries, s.pc 1 = .steal old tries) ∨ s.pc 1 = .reread old)

private theorem spins_step {s : State 2} (spins : Spins s) : ∃ s', solo 1 s s' ∧ Spins s' := by
  obtain ⟨word, empty, old, same, place⟩ := spins
  rcases place with here | ⟨tries, here⟩ | here
  · refine ⟨s.setPc 1 (.steal old 0), Or.inl ⟨false, ?_⟩, word, empty, old, same,
      Or.inr (Or.inl ⟨0, rfl⟩)⟩
    simp only [step, work, here, same, if_neg word]
  · by_cases done : tries = 4 * 2
    · refine ⟨s.setPc 1 (.reread old), Or.inl ⟨false, ?_⟩, word, empty, old, same,
        Or.inr (Or.inr rfl)⟩
      simp only [step, work, here, if_pos done]
    · refine ⟨(s.setSeed 1 (Rng.nextSeed (s.seed 1))).setPc 1 (.steal old (tries + 1)),
        Or.inl ⟨false, ?_⟩, word, empty, old, same, Or.inr (Or.inl ⟨tries + 1, rfl⟩)⟩
      have victim : (others (1 : Fin 2))[(s.seed 1).toNat % (2 - 1)]? = some 0 := by
        rw [Nat.mod_one]
        rfl
      simp [step, work, here, done, trySteal, victim, empty]
  · refine ⟨s.setPc 1 (.search (s.getStatus old)), Or.inl ⟨false, ?_⟩, word, empty,
      s.getStatus old, rfl, Or.inl rfl⟩
    simp only [step, work, here, same, if_neg (BitVec.lt_irrefl _)]

theorem shutdown_misses_second_worker :
    (system 2).Reachable anyAction secondSearches ∧ secondSearches.stopped = true ∧
      secondSearches.pc 0 = .returned ∧
      ¬ Inevitable (solo 1) (fun s => s.pc 1 = .returned) secondSearches := by
  refine ⟨?_, rfl, rfl, ?_⟩
  · exact System.Reachable.replay_any (.initial pair pair_initial) shutdownInWindow_runs
  · intro sure
    refine Inevitable.escapes Spins ?_ (fun s spins _ _ => spins_step spins) sure ?_
    · rintro s ⟨_word, _empty, old, _same, place⟩ returned
      rw [returned] at place
      simp at place
    · exact ⟨by decide, rfl, ⟨_, 2, 0⟩, rfl, Or.inl rfl⟩

end Yaay.Scheduler
