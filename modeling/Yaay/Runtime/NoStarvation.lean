import Yaay.Runtime.Draining
import Yaay.Runtime.LemmaB
import Yaay.Runtime.QueueOrder

set_option autoImplicit false

/-! No task starves, however many are pushed behind it: a worker that is never shut down and
whose polls end comes back to its queue as long as there is a task in it, even if the runtime is
never idle. -/

namespace Yaay.Scheduler

open Yaay.Transition Filter

variable {n : Nat} {s s' : State n} {v w : Fin n} {action : Action n}
  {run : (system n).Run} {start time : Nat}

/-- The worker cannot go on, or it is in a poll, for as long as the future pleases. -/
def Excused (w : Fin n) (s : State n) : Prop :=
  work s w false = none ∨ ∃ job, s.pc w = .polling job

/-- The worker is never shut down and each of its polls ends, in a run in which all threads go on
and no worker overlooks a counted task. Polls of other workers need not end. -/
structure Minded (run : (system n).Run) (v : Fin n) : Prop where
  small : n < 512
  initial : Initial (run.state 0)
  watchful : ∀ time action, run.action time = some action → vigilant (run.state time) action
  lasting : ∀ time, (run.state time).shutdown v = false
  ends : ∀ time, ∃ later, time ≤ later ∧ ∀ job, (run.state later).pc v ≠ .polling job
  workers : ∀ w, run.Diligent (fun action => action.worker = some w) (Excused w)
  callers : ∀ thread, run.Fair (fun action => action = .call thread)

theorem Minded.reached (minded : Minded run v) (time : Nat) :
    (system n).Reachable vigilant (run.state time) :=
  System.Run.reachable (.initial _ minded.initial) minded.watchful time

theorem Minded.consistent (minded : Minded run v) (time : Nat) : Consistent (run.state time) :=
  reachable_consistent (minded.reached time)

private theorem drop_of_takes {refuse : Bool} (taken : work s w refuse = some s')
    (untaken : takes v s (.work w refuse) = 0) : s'.queue v = s.queue v := by
  have line := line_of_work (v := v) taken
  rw [untaken, List.drop_zero] at line
  have length := congrArg List.length line
  simp only [State.line, List.length_map] at length
  rcases queue_of_work taken with ⟨same, _free⟩ | ⟨victim, entry, queue, others, _hand⟩
  · exact same v
  · by_cases own : v = victim
    · rw [own, queue, List.length_cons] at length
      omega
    · exact others v own

private theorem entry_stays (taken : step s action = some s') (untaken : takes v s action = 0)
    {entry : Entry n} (member : entry ∈ s.queue v) :
    ∃ later ∈ s'.queue v, entry.stamp.Grows later.stamp := by
  rcases step_cases taken with ⟨w, refuse, rfl, moved⟩ | ⟨thread, rfl, moved⟩ | started
  · refine ⟨entry, ?_, .refl _⟩
    rw [drop_of_takes moved untaken]
    exact member
  · obtain ⟨later, there, _same, grows⟩ := grown_by_call moved member
    exact ⟨later, there, grows⟩
  · refine ⟨entry, ?_, .refl _⟩
    cases started with
    | entered | drawn => exact member
    | deferred => exact mem_insert.mpr (Or.inl member)

private theorem queued_step (taken : step s action = some s') (untaken : takes v s action = 0)
    (queued : s.queue v ≠ []) : s'.queue v ≠ [] := by
  obtain ⟨entry, member⟩ := List.exists_mem_of_ne_nil _ queued
  obtain ⟨later, there, _grows⟩ := entry_stays taken untaken member
  exact List.ne_nil_of_mem there

private theorem counted_grows {stamp later : Stamp n} (grows : stamp.Grows later)
    (counted : stamp.counted ≠ none) : later.counted ≠ none := by
  cases grows with
  | refl => exact counted
  | counted | passed | announced => exact Option.some_ne_none _

def Ready (s : State n) (v : Fin n) : Prop := (s.pc v).drained = false ∨ ¬ s.Uncounted v

private theorem ready_step (taken : step s action = some s') (untaken : takes v s action = 0)
    (queued : s.queue v ≠ []) (ready : Ready s v) : Ready s' v := by
  rcases ready with way | counted
  · left
    by_contra after
    rw [Bool.not_eq_false] at after
    exact queued (drained_step taken way after)
  · right
    intro none
    apply counted
    intro entry member
    obtain ⟨later, there, grows⟩ := entry_stays taken untaken member
    by_contra some
    exact counted_grows grows some (none later there)

def Pushed (s : State n) (v : Fin n) (thread : Thread n) : Prop :=
  ∃ entry ∈ s.queue v, entry.stamp = .pushed thread

private theorem pushed_of_drained (consistent : Consistent s) (drained : (s.pc v).drained = true)
    (uncounted : s.Uncounted v) (queued : s.queue v ≠ []) : ∃ thread, Pushed s v thread := by
  obtain ⟨entry, member⟩ := List.exists_mem_of_ne_nil _ queued
  have stamped := consistent.stamped v entry member
  have none := uncounted entry member
  cases stamp : entry.stamp with
  | own =>
      rw [stamp, Stamped, drained] at stamped
      cases stamped
  | pushed thread => exact ⟨thread, entry, member, stamp⟩
  | announcing | announced =>
      rw [stamp] at none
      cases none

private theorem pushed_busy (consistent : Consistent s) {thread : Thread n}
    (pushed : Pushed s v thread) : s.call thread ≠ .none := by
  obtain ⟨entry, member, stamp⟩ := pushed
  have announces := consistent.stamped v entry member
  rw [stamp] at announces
  intro idle
  rw [Stamped, idle] at announces
  exact announces

private theorem pushed_step (taken : step s action = some s') (untaken : takes v s action = 0)
    (uncounted : s'.Uncounted v) {thread : Thread n} (pushed : Pushed s v thread) :
    Pushed s' v thread := by
  obtain ⟨entry, member, stamp⟩ := pushed
  obtain ⟨later, there, grows⟩ := entry_stays taken untaken member
  refine ⟨later, there, ?_⟩
  have none := uncounted later there
  rw [stamp] at grows
  generalize later.stamp = now at grows none
  cases grows with
  | refl => rfl
  | counted | passed => cases none

private theorem call_kept (calling : Calling s) (taken : step s action = some s')
    {thread : Thread n}
    (busy : s.call thread ≠ .none) (other : action ≠ .call thread) :
    s'.call thread = s.call thread := by
  rcases step_cases taken with ⟨u, refuse, rfl, moved⟩ | ⟨caller, rfl, moved⟩ | started
  · rcases (worked_of_work moved).call thread with same | ⟨rfl, here, _looping, _flag⟩
    · exact same
    · exact absurd (idle_of_poll calling here) busy
  · refine (called_of_callStep moved).call thread ?_
    intro same
    exact other (congrArg Action.call same.symm)
  · cases started with
    | entered seed caller todo origin user idle everyone =>
        refine Function.update_of_ne ?_ ..
        rintro rfl
        exact busy idle
    | deferred | drawn => rfl

private theorem unparked_by_work {refuse : Bool} (taken : work s w refuse = some s') {job : Work}
    (here : s.pc w = .unpark job) (u : Fin n) (old : Snapshot) : s'.pc u ≠ .parked old := by
  simp only [work, here] at taken
  cases taken
  rw [State.setPc_pc]
  by_cases same : u = w
  · rw [same, Function.update_self]
    exact fun other => by cases other
  · rw [Function.update_of_ne same]
    exact unparked_ne _ old

/-- A worker with a counted task in its queue is parked only while its producer or another
worker is about to wake all. -/
theorem waking_of_parked (consistent : Consistent s) (asleep : Asleep s) (ready : Ready s v)
    {old : Snapshot} (parked : s.pc v = .parked old) : s.Owed := by
  rcases asleep v old parked with raised | ⟨_calm, unannounced⟩
  · exact Or.inl raised
  · right
    rcases ready with way | told
    · rw [parked] at way
      cases way
    · simp only [State.Uncounted, not_forall] at told
      obtain ⟨entry, member, counted⟩ := told
      have stamped := consistent.stamped v entry member
      cases stamp : entry.stamp with
      | announcing thread epoch =>
          rw [stamp] at stamped
          exact ⟨thread, stamped.2⟩
      | announced epoch => exact absurd stamp (unannounced entry member epoch)
      | own | pushed => exact absurd (by rw [stamp]; rfl) counted

/-- The steps that the worker may still take before it pops from its own queue, if it has been
told of a task there. -/
def Pc.way : Pc n → Nat
  | .returned => 0
  | .drain | .recheck _ | .popChanged _ => 1
  | .check | .reread _ => 2
  | .polling _ | .park _ | .parked _ | .deactivate => 3
  | .poll _ | .wait _ => 4
  | .unpark _ => 5
  | .activate _ => 6
  | .steal _ tries => 7 + 2 * (4 * n - tries)
  | .stealPop _ tries _ => 6 + 2 * (4 * n - tries)
  | .search old => if Epoch.activeCount old.status = 0 then 2 else 8 * n + 8

private theorem way_unparked (pc : Pc n) : pc.unparked.way ≤ pc.way := by
  cases pc with
  | parked old => exact Nat.le_succ 2
  | _ => exact Nat.le_refl _

private theorem unparked_of_way {pc : Pc n} (same : pc.unparked.way = pc.way) :
    pc.unparked = pc := by
  cases pc with
  | parked old => cases same
  | _ => rfl

private theorem way_of_deactivate (consistent : Consistent s) (small : n < 512) {refuse : Bool}
    (taken : work s w refuse = some s') (here : s.pc w = .deactivate)
    (permitted : attentive s (.work w refuse)) (counted : ¬ s.Uncounted w) :
    (s'.pc w).way = 2 := by
  have moved : step s (.work w refuse) = some s' := taken
  have last : Epoch.activeCount s.word = 1 := by
    rcases (permitted w rfl).1 here with last | none
    · exact last
    · exact absurd none counted
  have there : s'.pc w = .search ⟨s'.word, s'.calls, 0⟩ := by
    have place := moved_of_work taken
    rw [here] at place
    generalize s'.pc w = pc' at place
    cases place
    rfl
  have others : ∀ u, u ≠ w → (s.pc u).active = (s'.pc u).active := by
    intro u other
    rcases (worked_of_work taken).pc u other with same | unparked
    · rw [same]
    · rw [unparked, unparked_active]
  have fewer := activeWorkers_gain (by rw [there]; rfl) (by rw [here]; rfl) others
  have none := lastActive_step consistent small moved last fewer
  rw [there]
  exact if_pos none

/-- Its own step brings a worker that has been told nearer to its queue, or takes from it. -/
theorem way_of_work (reached : (system n).Reachable vigilant s) (small : n < 512)
    (queued : s.queue w ≠ []) (ready : Ready s w) (lasting : s.shutdown w = false)
    {refuse : Bool} (permitted : vigilant s (.work w refuse))
    (taken : work s w refuse = some s') (untaken : takes w s (.work w refuse) = 0) :
    (s'.pc w).way < (s.pc w).way := by
  have consistent := reachable_consistent reached
  have branch := consistent.branch w
  have held := consistent.held w
  have attentively := reached.weaken (fun _state _action _reached both => both.1)
  have noticed := reachable_noticed small attentively w
  have near := (permitted.1 w rfl).2
  have deactivates := way_of_deactivate consistent small taken
  have recent := permitted.2 w rfl
  have parks (old : Snapshot) (place : s.pc w = .park old) (same : s.word = old.status) :=
    uncounted_of_recent consistent small place same
  have counted (drained : (s.pc w).drained = true) : ¬ s.Uncounted w := by
    rcases ready with way | counted
    · rw [drained] at way
      cases way
    · exact counted
  have place := moved_of_work taken
  generalize here : s.pc w = pc at place branch noticed near deactivates recent parks counted held
  generalize s'.pc w = pc' at place deactivates ⊢
  cases place with
  | drained empty | rechecked old empty | nothing new empty => exact absurd empty queued
  | drain | found | own =>
      simp [takes, here, queued] at untaken
  | leave flag =>
      rw [lasting] at flag
      cases flag
  | deactivate =>
      rw [deactivates rfl permitted.1 (counted rfl)]
      exact Nat.lt_succ_self 2
  | parking old same =>
      exact absurd (parks old rfl same (recent old rfl)) (counted rfl)
  | same old still =>
      rcases near old rfl with near | none
      · have current := readAt_of_unchanged consistent small (held old rfl) still near
        exact absurd (consistent.uncounted_of_newer (current ▸ noticed)) (counted rfl)
      · exact absurd none (counted rfl)
  | busy old some =>
      simp only [Pc.way, if_neg some]
      omega
  | calm old none =>
      simp only [Pc.way, if_pos none]
      exact Nat.lt_succ_self 1
  | missed old tries more | stealing old tries victim more =>
      have bound := branch.2
      simp only [Pc.way]
      omega
  | late old tries victim | stole old tries victim job =>
      have bound := branch.2
      simp only [Pc.way]
      omega
  | _ =>
      simp only [Pc.way]
      omega

private theorem way_of_step (reached : (system n).Reachable vigilant s) (small : n < 512)
    (queued : s.queue v ≠ []) (ready : Ready s v) (lasting : s.shutdown v = false)
    (permitted : vigilant s action) (taken : step s action = some s')
    (untaken : takes v s action = 0) :
    (s'.pc v).way ≤ (s.pc v).way ∧
      (action.worker = some v → (s'.pc v).way < (s.pc v).way) := by
  cases action with
  | work w refuse =>
      by_cases same : w = v
      · subst same
        have less := way_of_work reached small queued ready lasting permitted taken untaken
        exact ⟨Nat.le_of_lt less, fun _ => less⟩
      · refine ⟨?_, fun own => absurd (Option.some.inj own) same⟩
        rcases (worked_of_work taken).pc v (Ne.symm same) with kept | unparked
        · rw [kept]
        · rw [unparked]
          exact way_unparked _
  | _ =>
      refine ⟨?_, fun own => by cases own⟩
      rcases pc_of_step taken v with (kept | unparked) | ⟨refuse, other, _moved⟩
      · rw [kept]
      · rw [unparked]
        exact way_unparked _
      · cases other

private theorem place_of_excused (consistent : Consistent s) (small : n < 512)
    (excused : Excused w s) :
    (∃ job, s.pc w = .polling job) ∨ (∃ old, s.pc w = .parked old) ∨ s.pc w = .returned := by
  refine excused.elim (fun stuck => ?_) Or.inl
  cases here : s.pc w with
  | polling job => exact Or.inl ⟨job, rfl⟩
  | parked old => exact Or.inr (Or.inl ⟨old, rfl⟩)
  | returned => exact Or.inr (Or.inr rfl)
  | steal old tries =>
      have held := consistent.held w old (by rw [here]; rfl)
      have branch := consistent.branch w
      rw [here] at branch
      obtain ⟨s', robbed⟩ : ∃ s', trySteal s w old tries = some s' :=
        trySteal_of_busy small held branch.1 tries
      by_cases done : tries = 4 * n
      · simp [work, here, done] at stuck
      · simp [work, here, done, robbed] at stuck
  | _ => simp [work, here] at stuck

structure Neglected (run : (system n).Run) (v : Fin n) (start : Nat) : Prop where
  minded : Minded run v
  queued : ∀ time, start ≤ time → (run.state time).queue v ≠ []
  untaken : ∀ time, start ≤ time → ∀ action, run.action time = some action →
    takes v (run.state time) action = 0

theorem Minded.neglected (minded : Minded run v) (queued : (run.state start).queue v ≠ [])
    (untaken : ∀ time, start ≤ time → ∀ action, run.action time = some action →
      takes v (run.state time) action = 0) : Neglected run v start := by
  refine ⟨minded, fun time later => ?_, untaken⟩
  refine System.Run.always (fun s : State n => s.queue v ≠ []) queued ?_ later
  intro between order action acts before
  exact queued_step (System.Run.moves acts) (untaken between order action acts) before

namespace Neglected

variable (neglected : Neglected run v start)
include neglected

theorem later (after : start ≤ time) : Neglected run v time where
  minded := neglected.minded
  queued := fun later order => neglected.queued later (Nat.le_trans after order)
  untaken := fun later order => neglected.untaken later (Nat.le_trans after order)

private theorem tells : ∃ time, start ≤ time ∧ Ready (run.state time) v := by
  by_contra never
  have minded := neglected.minded
  have untold (time : Nat) (later : start ≤ time) :
      ((run.state time).pc v).drained = true ∧ (run.state time).Uncounted v := by
    constructor
    · by_contra way
      exact never ⟨time, later, Or.inl (Bool.eq_false_iff.mpr way)⟩
    · by_contra counted
      exact never ⟨time, later, Or.inr counted⟩
  obtain ⟨thread, pushed⟩ : ∃ thread, Pushed (run.state start) v thread := by
    obtain ⟨drained, uncounted⟩ := untold start (Nat.le_refl _)
    exact pushed_of_drained (minded.consistent start) drained uncounted
      (neglected.queued start (Nat.le_refl _))
  have busy (time : Nat) (later : start ≤ time) : (run.state time).call thread ≠ .none := by
    have still : Pushed (run.state time) v thread := by
      refine System.Run.always (fun s : State n => Pushed s v thread) pushed ?_ later
      intro between order action acts before
      exact pushed_step (System.Run.moves acts) (neglected.untaken between order action acts)
        (untold (between + 1) (Nat.le_succ_of_le order)).2 before
    exact pushed_busy (minded.consistent time) still
  have down : ∀ᶠ time in atTop, ((run.state time).call thread).rank = 0 := by
    refine System.Run.comes_down (minded.callers thread) (fun s => (s.call thread).rank)
      (fun time (later : start ≤ time) action acts => ?_) ?_
    · have taken := System.Run.moves acts
      by_cases own : action = .call thread
      · rw [own] at taken
        have less := rank_of_callStep taken
        exact ⟨Nat.le_of_lt less, fun _ _ => less⟩
      · rw [call_kept (minded.consistent time).calling taken (busy time later) own]
        exact ⟨Nat.le_refl _, fun same => absurd same own⟩
    · intro time later _positive
      obtain ⟨next, taken⟩ := callStep_of_busy (busy time later)
      exact ⟨.call thread, rfl, Option.isSome_iff_exists.mpr ⟨next, taken⟩⟩
  obtain ⟨late, zero⟩ := eventually_atTop.mp down
  exact busy _ (Nat.le_max_left start late)
    (Call.rank_eq_zero.mp (zero _ (Nat.le_max_right start late)))

theorem ready (ready : Ready (run.state start) v) (later : start ≤ time) :
    Ready (run.state time) v := by
  refine System.Run.always (fun s : State n => Ready s v) ready ?_ later
  intro between order action acts before
  exact ready_step (System.Run.moves acts) (neglected.untaken between order action acts)
    (neglected.queued between order) before

theorem wakes (ready : Ready (run.state start) v) :
    ∃ time, start ≤ time ∧ ∀ old, (run.state time).pc v ≠ .parked old := by
  by_contra never
  have minded := neglected.minded
  have parked (time : Nat) (later : start ≤ time) :
      ∃ old, (run.state time).pc v = .parked old := by
    by_contra awake
    exact never ⟨time, later, fun old here => awake ⟨old, here⟩⟩
  obtain ⟨old, here⟩ := parked start (Nat.le_refl start)
  have reached := (minded.reached start).weaken (fun _state _action _reached both => both.2)
  have asleep := reachable_asleep minded.small (timely_careful minded.small) reached
  rcases waking_of_parked (minded.consistent start) asleep ready here with
    ⟨u, job, raised⟩ | ⟨thread, origin, waking⟩
  · obtain ⟨time, later, unparks, action, own, acts⟩ := System.Run.turn (minded.workers u)
      (fun s : State n => s.pc u = .unpark job) raised
      (fun time _later action acts other before => by
        rcases pc_of_step (System.Run.moves acts) u with (same | unparked) | ⟨refuse, rfl, _⟩
        · rw [same, before]
        · rw [unparked, before]
          rfl
        · exact absurd rfl other)
      (fun time _later before => by simp [Excused, work, before])
    obtain ⟨old, still⟩ := parked (time + 1) (Nat.le_succ_of_le later)
    cases action with
    | work w refuse =>
        cases own
        exact unparked_by_work (System.Run.moves acts) unparks v old still
    | _ => cases own
  · obtain ⟨time, later, unparks, action, rfl, acts⟩ := System.Run.turn (minded.callers thread)
      (fun s : State n => s.call thread = .unpark origin) waking
      (fun time _later action acts other before => by
        rw [call_kept (minded.consistent time).calling (System.Run.moves acts) _ other, before]
        rw [before]
        exact fun none => by cases none)
      (fun time _later before unable => by
        have none := unable (.call thread) rfl
        simp [system, step, callStep, before] at none)
    obtain ⟨old, still⟩ := parked (time + 1) (Nat.le_succ_of_le later)
    have taken : callStep (run.state time) thread = some (run.state (time + 1)) :=
      System.Run.moves acts
    rw [callStep, unparks] at taken
    rw [← Option.some.inj taken] at still
    exact wakeAllSlow_wakes _ thread origin v old still

theorem impossible : False := by
  have minded := neglected.minded
  obtain ⟨told, after, ready⟩ := neglected.tells
  have onward := neglected.later after
  obtain ⟨calm, order, same, unable⟩ := System.Run.stalls (minded.workers v)
    (fun s : State n => (s.pc v).way)
    (fun time (later : told ≤ time) action acts =>
      way_of_step (minded.reached time) minded.small (onward.queued time later)
        (onward.ready ready later) (minded.lasting time) (minded.watchful time action acts)
        (System.Run.moves acts) (onward.untaken time later action acts))
  -- it stays where it is from now on
  have stands (time : Nat) (later : calm ≤ time) :
      (run.state time).pc v = (run.state calm).pc v := by
    refine System.Run.always (fun s : State n => s.pc v = (run.state calm).pc v) rfl ?_ later
    intro between further action acts before
    have within := Nat.le_trans order further
    have kept := (same (between + 1) (Nat.le_succ_of_le further)).trans (same between further).symm
    rcases pc_of_step (System.Run.moves acts) v with (still | unparked) | ⟨refuse, rfl, _moved⟩
    · rw [still, before]
    · rw [unparked] at kept ⊢
      rw [unparked_of_way kept, before]
    · have less := (way_of_step (minded.reached between) minded.small
        (onward.queued between within) (onward.ready ready within) (minded.lasting between)
        (minded.watchful between _ acts) (System.Run.moves acts)
        (onward.untaken between within _ acts)).2 rfl
      rw [kept] at less
      exact absurd less (Nat.lt_irrefl _)
  obtain ⟨late, further, stuck⟩ := unable calm (Nat.le_refl calm)
  have here := stands late further
  rcases place_of_excused (minded.consistent late) minded.small stuck with
    ⟨job, polling⟩ | ⟨old, parked⟩ | returned
  · obtain ⟨time, later, over_⟩ := minded.ends late
    apply over_ job
    rw [stands time (Nat.le_trans further later), ← here, polling]
  · have within := Nat.le_trans order further
    obtain ⟨time, later, awake⟩ := (onward.later within).wakes (onward.ready ready within)
    apply awake old
    rw [stands time (Nat.le_trans further later), ← here, parked]
  · have flag := (reachable_flagged (minded.reached late)).returned v returned
    rw [minded.lasting late] at flag
    cases flag

end Neglected

/-- As long as there is a task in its queue, a task is taken from it again and again. -/
theorem Minded.takes_again (minded : Minded run v) (queued : (run.state start).queue v ≠ []) :
    ∃ time, start ≤ time ∧ ∃ action, run.action time = some action ∧
      takes v (run.state time) action = 1 := by
  by_contra never
  refine (minded.neglected queued ?_).impossible
  intro time later action acts
  rcases (lined v).single _ action _ (System.Run.moves acts) with none | ⟨one, _none⟩
  · exact none
  · exact absurd ⟨time, later, action, acts, one⟩ never

/-- No task starves: if each poll of a worker ends and the worker is never shut down, then every
task in its queue is taken at last, by the worker or by a thief, unless there is no end of tasks
that are put before it. -/
theorem no_task_starves (minded : Minded run v) {task : Work} {place bound : Nat}
    (here : ((run.state start).line v)[place]? = some task)
    (few : ∀ count, (system n).tally (overtakes v) (run.state start) (run.stretch start count) ≤
      bound) :
    ∃ count before middle next w refuse,
      Taken (system n) (State.line v) (takes v) (overtakes v) place task (run.state start)
          (run.stretch start count) before middle next (.work w refuse) ∧
        (next.pc w = .poll task ∨ next.pc w = .activate task) := by
  obtain ⟨count, before, middle, next, action, found⟩ := (lined v).serves here
    (fun time _later queued => minded.takes_again (fun empty => queued (by
      rw [State.line, empty]
      rfl)))
    few
  cases action with
  | work w refuse =>
      exact ⟨count, before, middle, next, w, refuse, found,
        hand_of_takes found.taken found.leaves found.head⟩
  | _ => exact absurd found.leaves Nat.zero_ne_one

def wakeTwo : List (Action 2) :=
  [.wake 0 second 7, .call (.external 0), .call (.external 0), .wake 0 second 8,
    .call (.external 0), .call (.external 0)] ++
    works first 11 ++ works second 6 ++ works first 15 ++ works second 4

private theorem wakeTwo_runs : ((system 2).exec pair wakeTwo).isSome = true := by decide

def bothPolled : State 2 := ((system 2).exec pair wakeTwo).get wakeTwo_runs

def twoTasks : (system 2).Run := System.Run.replay (Option.some_get wakeTwo_runs).symm

private theorem bothPolled_work : ∀ w refuse, (work bothPolled w refuse).isNone = true := by decide

private theorem bothPolled_call (thread : Thread 2) : callStep bothPolled thread = none := by
  cases thread with
  | worker w => exact Option.isNone_iff_eq_none.mp (by revert w; decide)
  | external name => cases name <;> rfl

private theorem twoTasks_minded : Minded twoTasks second where
  small := by decide
  initial := pair_initial
  watchful := fun _time _action acts =>
    System.Run.replay_permits _ (System.permitted_of_checks (by decide)) acts
  lasting := fun time =>
    System.Run.replay_holds flagless _ (System.permitted_of_checks (by decide)) (by decide)
      time second
  ends := by
    intro time
    refine ⟨max time 42, Nat.le_max_left .., ?_⟩
    intro job polling
    have ended : twoTasks.state (max time 42) = bothPolled :=
      System.follow_end (Option.some_get wakeTwo_runs).symm (Nat.le_max_right ..)
    rw [ended] at polling
    cases polling
  workers := by
    intro w time
    refine ⟨max time 42, Nat.le_max_left .., Or.inr (Or.inl ?_)⟩
    have ended : twoTasks.state (max time 42) = bothPolled :=
      System.follow_end (Option.some_get wakeTwo_runs).symm (Nat.le_max_right ..)
    rw [ended]
    exact Option.isNone_iff_eq_none.mp (bothPolled_work w false)
  callers := by
    intro thread
    apply System.Run.replay_fair
    rintro _ rfl
    exact bothPolled_call thread

private theorem workers_since {action : Action 2} (member : action ∈ wakeTwo.drop 6) :
    ∃ w, action = .work w false := by
  have each : ∀ action ∈ wakeTwo.drop 6, ∃ w, action = .work w false := by
    simp [wakeTwo, works]
  exact each action member

theorem second_task_does_not_starve :
    (twoTasks.state 6).line second = [.task 7, .task 8] ∧
    ∃ count before middle next w refuse,
      Taken (system 2) (State.line second) (takes second) (overtakes second) 1 (.task 8)
          (twoTasks.state 6) (twoTasks.stretch 6 count) before middle next (.work w refuse) ∧
        (next.pc w = .poll (.task 8) ∨ next.pc w = .activate (.task 8)) := by
  have none (count : Nat) : (system 2).tally (overtakes second) (twoTasks.state 6)
      (twoTasks.stretch 6 count) ≤ 0 := by
    refine Nat.le_of_eq (System.tally_eq_zero ?_ _)
    intro action member state
    obtain ⟨time, later, acts⟩ := System.Run.action_of_stretch member
    obtain ⟨further, rfl⟩ := Nat.exists_eq_add_of_le later
    have listed : action ∈ wakeTwo.drop 6 := by
      refine List.mem_of_getElem? (i := further) ?_
      rw [List.getElem?_drop]
      exact acts
    obtain ⟨w, rfl⟩ := workers_since listed
    rfl
  exact ⟨by decide, no_task_starves twoTasks_minded (by decide) none⟩

end Yaay.Scheduler
