import Yaay.Runtime.SchedulerSteps

set_option autoImplicit false

/-! What one step of the scheduler can do to the queues and to the producers: where the
entries of a queue come from, where they go, and how a call proceeds. -/

namespace Yaay.Scheduler

open Yaay.Transition

variable {n : Nat} {s s' : State n}

theorem mem_insert {insert : Insert n} {stamp : Stamp n} {w : Fin n} {entry : Entry n} :
    entry ∈ (s.insert insert stamp).queue w ↔
      entry ∈ s.queue w ∨
        (w = insert.target ∧ entry.work ∈ insert.works ∧ entry.stamp = stamp) := by
  have new : entry ∈ insert.works.map (⟨·, stamp⟩) ↔
      entry.work ∈ insert.works ∧ entry.stamp = stamp := by
    rw [List.mem_map]
    constructor
    · rintro ⟨work, member, rfl⟩
      exact ⟨member, rfl⟩
    · rintro ⟨member, same⟩
      exact ⟨entry.work, member, by rw [← same]⟩
  simp only [State.insert, State.setQueue_queue]
  by_cases same : w = insert.target
  · subst same
    rw [Function.update_self]
    split <;> simp only [List.mem_append, new, true_and]
    exact Or.comm
  · simp only [Function.update_of_ne same, same, false_and, or_false]

private theorem mem_restamp {change : Stamp n → Stamp n} {w : Fin n} {entry : Entry n} :
    entry ∈ (s.restamp change).queue w ↔
      ∃ earlier ∈ s.queue w, earlier.work = entry.work ∧ change earlier.stamp = entry.stamp := by
  rw [State.restamp_queue, List.mem_map]
  constructor
  · rintro ⟨earlier, member, rfl⟩
    exact ⟨earlier, member, rfl, rfl⟩
  · rintro ⟨earlier, member, same, changed⟩
    exact ⟨earlier, member, by rw [changed, same]⟩

/-- An entry was in the queue before, with the same stamp or with the stamp before it
in the order of `Stamp`, or it is new. -/
inductive Entered (s s' : State n) (action : Action n) (w : Fin n) (entry : Entry n) : Prop
  | kept (member : entry ∈ s.queue w)
      (pushed : ∀ thread, entry.stamp = .pushed thread → (s.call thread).announces →
        (s'.call thread).announces)
      (announcing : ∀ thread epoch origin, entry.stamp = .announcing thread epoch →
        s.call thread = .unpark origin → s'.call thread = .unpark origin)
  | own (stamp : entry.stamp = .own) (user : s.userCode (.worker w) = true)
      (still : s'.pc = s.pc)
  | pushed (thread : Thread n) (stamp : entry.stamp = .pushed thread)
      (announces : (s'.call thread).announces) (still : s'.pc = s.pc)
  | counted (thread : Thread n) (origin : Origin) (earlier : Entry n)
      (member : earlier ∈ s.queue w) (same : earlier.work = entry.work)
      (stamp : earlier.stamp = .pushed thread) (call : s.call thread = .pushing [] origin)
      (calling : action = .call thread) (calls : s'.calls = s.calls + 1)
      (now : (entry.stamp = .announcing thread (s.calls + 1) ∧
          s'.call thread = .unpark origin) ∨
        (entry.stamp = .announced (s.calls + 1) ∧ Epoch.activeCount s.word ≠ 0))
  | announced (thread : Thread n) (epoch : Nat) (earlier : Entry n)
      (member : earlier ∈ s.queue w) (same : earlier.work = entry.work)
      (stamp : earlier.stamp = .announcing thread epoch)
      (now : entry.stamp = .announced epoch) (woken : ∀ u, s'.pc u = (s.pc u).unparked)

private theorem entered_of_callStep {thread : Thread n} (taken : callStep s thread = some s')
    {w : Fin n} {entry : Entry n} (member : entry ∈ s'.queue w) :
    Entered s s' (.call thread) w entry := by
  have called := called_of_callStep taken
  have kept (here : entry ∈ s.queue w)
      (pushed : entry.stamp = .pushed thread → (s.call thread).announces →
        (s'.call thread).announces)
      (announcing : ∀ epoch origin, entry.stamp = .announcing thread epoch →
        s.call thread = .unpark origin → s'.call thread = .unpark origin) :
      Entered s s' (.call thread) w entry := by
    refine .kept here ?_ ?_
    · intro other stamp announces
      by_cases same : other = thread
      · subst same
        exact pushed stamp announces
      · rw [called.call other same]
        exact announces
    · intro other epoch origin stamp call
      by_cases same : other = thread
      · subst same
        exact announcing epoch origin stamp call
      · rw [called.call other same]
        exact call
  cases here : s.call thread with
  | none => exact absurd here called.busy
  | pushing todo origin =>
      cases todo with
      | cons insert rest =>
          simp only [callStep, here] at taken
          cases taken
          have announces : (Function.update s.call thread (.pushing rest origin)
              thread).announces := by
            rw [Function.update_self]
            trivial
          rw [State.setCall_queue, mem_insert] at member
          rcases member with old | ⟨_target, _work, stamp⟩
          · exact kept old (fun _ _ => announces) (by simp [here])
          · exact .pushed thread stamp announces rfl
      | nil =>
          simp only [callStep, here, nextEpoch] at taken
          split at taken
          · obtain rfl := Option.some.inj taken
            rw [State.setCall_queue, mem_restamp] at member
            obtain ⟨earlier, old, same, changed⟩ := member
            by_cases mine : earlier.stamp = .pushed thread
            · rw [if_pos mine] at changed
              exact .counted thread origin earlier old same mine here rfl rfl
                (Or.inl ⟨changed.symm, Function.update_self ..⟩)
            · rw [if_neg mine] at changed
              obtain rfl := Entry.ext same changed
              exact kept old (fun stamp => absurd stamp mine) (by simp [here])
          · rename_i counted
            obtain rfl := Option.some.inj taken
            rw [State.finish, State.setCall_queue, mem_restamp] at member
            obtain ⟨earlier, old, same, changed⟩ := member
            by_cases mine : earlier.stamp = .pushed thread
            · rw [if_pos mine] at changed
              exact .counted thread origin earlier old same mine here rfl rfl
                (Or.inr ⟨changed.symm, counted⟩)
            · rw [if_neg mine] at changed
              obtain rfl := Entry.ext same changed
              exact kept old (fun stamp => absurd stamp mine) (by simp [here])
  | shutdownRead other rest =>
      simp only [callStep, here] at taken
      cases taken
      refine kept member (fun _ _ => ?_) (by simp [here])
      rw [State.setCall_call, Function.update_self]
      split
      · exact announces_shutdownLoop rest
      · trivial
  | shutdownPush other rest =>
      simp only [callStep, here] at taken
      cases taken
      have announces : (Function.update s.call thread (shutdownLoop rest) thread).announces := by
        rw [Function.update_self]
        exact announces_shutdownLoop rest
      rw [State.setCall_queue, mem_insert] at member
      rcases member with old | ⟨_target, _work, stamp⟩
      · exact kept old (fun _ _ => announces) (by simp [here])
      · exact .pushed thread stamp announces rfl
  | unpark origin =>
      simp only [callStep, here, wakeAllSlow] at taken
      cases taken
      rw [State.finish, State.setCall_queue, mem_restamp] at member
      obtain ⟨earlier, old, same, changed⟩ := member
      cases was : earlier.stamp with
      | announcing other epoch =>
          by_cases mine : other = thread
          · simp only [was, if_pos mine] at changed
            rw [mine] at was
            exact .announced thread epoch earlier old same was changed.symm (fun _ => rfl)
          · simp only [was, if_neg mine] at changed
            obtain rfl := Entry.ext same (was.trans changed)
            exact kept old (by simp [was]) (fun _ _ stamp => absurd (by
              rw [was] at stamp
              exact (Stamp.announcing.inj stamp).1) mine)
      | own | pushed | announced =>
          simp only [was] at changed
          obtain rfl := Entry.ext same (was.trans changed)
          exact kept old (by simp [here, Call.announces]) (by simp [was])

theorem entered_of_step {action : Action n} (calling : Calling s)
    (taken : step s action = some s') {w : Fin n} {entry : Entry n}
    (member : entry ∈ s'.queue w) : Entered s s' action w entry := by
  rcases step_cases taken with ⟨u, refuse, rfl, moved⟩ | ⟨thread, rfl, moved⟩ | started
  · have worked := worked_of_work moved
    refine .kept ((worked.queue w).subset member) ?_ ?_
    · intro thread _stamp announces
      rcases worked.call thread with same | ⟨_thread, _here, looping, _flag⟩
      · rw [same]
        exact announces
      · rw [looping]
        exact announces_shutdownLoop _
    · intro thread epoch origin _stamp unparking
      rcases worked.call thread with same | ⟨rfl, here, _looping, _flag⟩
      · rw [same]
        exact unparking
      · obtain ⟨job, polling⟩ := calling u (by simp [unparking])
        rw [here] at polling
        cases polling
  · exact entered_of_callStep moved member
  · cases started with
    | entered seed thread todo origin user idle everyone =>
        refine .kept member ?_ ?_
        · intro other _stamp announces
          by_cases same : other = thread
          · rw [State.setCall_call, same, Function.update_self]
            trivial
          · rw [State.setCall_call, Function.update_of_ne same]
            exact announces
        · intro other epoch other_origin _stamp unparking
          have different : other ≠ thread := by
            rintro rfl
            rw [idle] at unparking
            cases unparking
          rw [State.setCall_call, Function.update_of_ne different]
          exact unparking
    | deferred seed u task front user idle =>
        rw [mem_insert] at member
        rcases member with old | ⟨rfl, _work, stamp⟩
        · exact .kept old (fun _ _ announces => announces) (fun _ _ _ _ call => call)
        · exact .own stamp user rfl
    | drawn => exact .kept member (fun _ _ announces => announces) (fun _ _ _ _ call => call)

/-- What a `next_epoch` makes of the stamp of a task that stays in its queue. -/
inductive Stamp.Grows : Stamp n → Stamp n → Prop
  | refl (stamp : Stamp n) : Grows stamp stamp
  | counted (thread : Thread n) (epoch : Nat) :
      Grows (.pushed thread) (.announcing thread epoch)
  | passed (thread : Thread n) (epoch : Nat) : Grows (.pushed thread) (.announced epoch)
  | announced (thread : Thread n) (epoch : Nat) :
      Grows (.announcing thread epoch) (.announced epoch)

/-- A worker's step leaves the queues alone, or has the first task of one in hand. -/
theorem queue_of_work {w : Fin n} {refuse : Bool} (taken : work s w refuse = some s') :
    ((∀ u, s'.queue u = s.queue u) ∧ ((s.pc w).hand = none → (s'.pc w).hand = none)) ∨
      ∃ victim entry, s.queue victim = entry :: s'.queue victim ∧
        (∀ u, u ≠ victim → s'.queue u = s.queue u) ∧
        (s'.pc w = .poll entry.work ∨ s'.pc w = .activate entry.work) := by
  have takes (victim : Fin n) {entry : Entry n} {rest : List (Entry n)} {found : Work → Pc n}
      (queue : s.queue victim = entry :: rest) (hand : found = Pc.poll ∨ found = Pc.activate)
      (same : (s.setQueue victim rest).setPc w (found entry.work) = s') :
      ∃ victim entry, s.queue victim = entry :: s'.queue victim ∧
        (∀ u, u ≠ victim → s'.queue u = s.queue u) ∧
        (s'.pc w = .poll entry.work ∨ s'.pc w = .activate entry.work) := by
    refine ⟨victim, entry, ?_, ?_, ?_⟩
    · rw [← same, State.setPc_queue, State.setQueue_queue, Function.update_self, queue]
    · intro u other
      rw [← same, State.setPc_queue, State.setQueue_queue, Function.update_of_ne other]
    · rw [← same, State.setPc_pc, Function.update_self]
      rcases hand with rfl | rfl
      · exact Or.inl rfl
      · exact Or.inr rfl
  have pops (empty : Pc n) (found : Work → Pc n) (hand : found = Pc.poll ∨ found = Pc.activate)
      (free : empty.hand = none) (same : s.popFront w w empty found = s') :
      ((∀ u, s'.queue u = s.queue u) ∧ ((s.pc w).hand = none → (s'.pc w).hand = none)) ∨
        ∃ victim entry, s.queue victim = entry :: s'.queue victim ∧
          (∀ u, u ≠ victim → s'.queue u = s.queue u) ∧
          (s'.pc w = .poll entry.work ∨ s'.pc w = .activate entry.work) := by
    rcases popFront_cases s w w empty found with ⟨_none, shape⟩ | ⟨entry, rest, queue, shape⟩
    · rw [← same, shape]
      refine Or.inl ⟨fun _ => rfl, fun _ => ?_⟩
      rw [State.setPc_pc, Function.update_self, free]
    · exact Or.inr (takes w queue hand (shape.symm.trans same))
  have place := moved_of_work taken
  cases here : s.pc w with
  | drain =>
      simp only [work, here] at taken
      rw [← here]
      exact pops _ _ (Or.inl rfl) rfl (Option.some.inj taken)
  | recheck old | popChanged new =>
      simp only [work, here] at taken
      rw [← here]
      exact pops _ _ (Or.inr rfl) rfl (Option.some.inj taken)
  | stealPop old tries victim =>
      simp only [work, here, stealPop] at taken
      split at taken
      · cases taken
        exact Or.inl ⟨fun _ => rfl, fun _ => by rw [State.setPc_pc, Function.update_self]; rfl⟩
      · rename_i first rest queue
        exact Or.inr (takes victim queue (Or.inr rfl) (Option.some.inj taken))
  | steal old tries =>
      rw [here] at place
      refine Or.inl ⟨?_, fun _ => ?_⟩
      · intro u
        simp only [work, here, trySteal] at taken
        repeat' split at taken
        all_goals
          cases taken <;> rfl
      · generalize s'.pc w = pc' at place
        cases place <;> rfl
  | poll work =>
      simp only [Scheduler.work, here] at taken
      cases taken
      refine Or.inl ⟨fun u => ?_, fun free => by cases free⟩
      cases work <;> rfl
  | polling work =>
      simp only [Scheduler.work, here] at taken
      split at taken <;> cases taken
      exact Or.inl ⟨fun _ => rfl, fun _ => by rw [State.setPc_pc, Function.update_self]; rfl⟩
  | activate work | unpark work =>
      simp only [Scheduler.work, here] at taken
      cases taken
      exact Or.inl ⟨fun _ => rfl, fun free => by cases free⟩
  | deactivate =>
      simp only [work, here] at taken
      cases taken
      exact Or.inl ⟨fun _ => rfl, fun _ => by simp [setInactive, Pc.hand]⟩
  | check | search old | wait old | park old | reread old =>
      simp only [work, here] at taken
      cases taken
      refine Or.inl ⟨fun _ => rfl, fun _ => ?_⟩
      rw [State.setPc_pc, Function.update_self]
      split <;> rfl
  | parked old | returned => simp [work, here] at taken

private theorem taken_by_work {w u : Fin n} {refuse : Bool} (taken : work s w refuse = some s')
    {entry : Entry n} (member : entry ∈ s.queue u) :
    entry ∈ s'.queue u ∨ s'.pc w = .poll entry.work ∨ s'.pc w = .activate entry.work := by
  rcases queue_of_work taken with ⟨same, _free⟩ | ⟨victim, first, queue, others, hand⟩
  · rw [same]
    exact Or.inl member
  · by_cases here : u = victim
    · subst here
      rw [queue, List.mem_cons] at member
      rcases member with rfl | later
      · exact Or.inr hand
      · exact Or.inl later
    · rw [others u here]
      exact Or.inl member

theorem grown_by_call {thread : Thread n} (taken : callStep s thread = some s') {w : Fin n}
    {entry : Entry n} (member : entry ∈ s.queue w) :
    ∃ later ∈ s'.queue w, later.work = entry.work ∧ entry.stamp.Grows later.stamp := by
  have kept (here : entry ∈ s'.queue w) :
      ∃ later ∈ s'.queue w, later.work = entry.work ∧ entry.stamp.Grows later.stamp :=
    ⟨entry, here, rfl, .refl _⟩
  have changed (change : Stamp n → Stamp n) (t : State n)
      (queue : s'.queue w = (t.restamp change).queue w) (same : t.queue w = s.queue w)
      (grows : ∀ stamp : Stamp n, stamp.Grows (change stamp)) :
      ∃ later ∈ s'.queue w, later.work = entry.work ∧ entry.stamp.Grows later.stamp := by
    rw [queue]
    exact ⟨⟨entry.work, change entry.stamp⟩, mem_restamp.mpr ⟨entry, same ▸ member, rfl, rfl⟩,
      rfl, grows entry.stamp⟩
  cases here : s.call thread with
  | none => simp [callStep, here] at taken
  | pushing todo origin =>
      cases todo with
      | cons insert rest =>
          simp only [callStep, here] at taken
          cases taken
          exact kept (mem_insert.mpr (Or.inl member))
      | nil =>
          simp only [callStep, here, nextEpoch] at taken
          split at taken
          · obtain rfl := Option.some.inj taken
            refine changed _ _ (State.setCall_queue ..) rfl ?_
            intro stamp
            split
            · rename_i mine
              rw [mine]
              exact .counted thread _
            · exact .refl stamp
          · obtain rfl := Option.some.inj taken
            refine changed _ _ ((State.finish_queue ..).trans (State.setCall_queue ..)) rfl ?_
            intro stamp
            split
            · rename_i mine
              rw [mine]
              exact .passed thread _
            · exact .refl stamp
  | shutdownRead other rest =>
      simp only [callStep, here] at taken
      cases taken
      exact kept member
  | shutdownPush other rest =>
      simp only [callStep, here] at taken
      cases taken
      exact kept (mem_insert.mpr (Or.inl member))
  | unpark origin =>
      simp only [callStep, here, wakeAllSlow] at taken
      cases taken
      refine changed _ _ ((State.finish_queue ..).trans (State.setCall_queue ..)) rfl ?_
      intro stamp
      cases stamp with
      | announcing other epoch =>
          by_cases mine : other = thread
          · simp only [if_pos mine]
            exact .announced other epoch
          · simp only [if_neg mine]
            exact .refl _
      | own | pushed | announced => exact .refl _

theorem carried_of_step {action : Action n} (taken : step s action = some s') {w : Fin n}
    {entry : Entry n} (member : entry ∈ s.queue w) :
    (∃ later ∈ s'.queue w, later.work = entry.work ∧ entry.stamp.Grows later.stamp) ∨
      ∃ u, s'.pc u = .poll entry.work ∨ s'.pc u = .activate entry.work := by
  rcases step_cases taken with ⟨u, refuse, rfl, moved⟩ | ⟨thread, rfl, moved⟩ | started
  · rcases taken_by_work moved member with kept | hand
    · exact Or.inl ⟨entry, kept, rfl, .refl _⟩
    · exact Or.inr ⟨u, hand⟩
  · exact Or.inl (grown_by_call moved member)
  · refine Or.inl ⟨entry, ?_, rfl, .refl _⟩
    cases started with
    | entered | drawn => exact member
    | deferred => exact mem_insert.mpr (Or.inl member)

inductive Proceeded (s s' : State n) (thread : Thread n) : Call n → Call n → Prop
  | pushed (insert : Insert n) (rest : List (Insert n)) (origin : Origin)
      (queued : ∀ work ∈ insert.works, ⟨work, .pushed thread⟩ ∈ s'.queue insert.target)
      (stopped : s'.stopped = s.stopped) :
      Proceeded s s' thread (.pushing (insert :: rest) origin) (.pushing rest origin)
  | counted (origin : Origin) (stopped : s'.stopped = s.stopped) :
      Proceeded s s' thread (.pushing [] origin) (.unpark origin)
  | announced (origin : Origin)
      (stopped : s'.stopped = (s.stopped || origin == .shutdownAsync)) :
      Proceeded s s' thread (.pushing [] origin) .none
  | skipped (other : Fin n) (rest : List (Fin n)) (flag : s.shutdown other = true)
      (stopped : s'.stopped = s.stopped) :
      Proceeded s s' thread (.shutdownRead other rest) (shutdownLoop rest)
  | missing (other : Fin n) (rest : List (Fin n)) (flag : s.shutdown other = false)
      (stopped : s'.stopped = s.stopped) :
      Proceeded s s' thread (.shutdownRead other rest) (.shutdownPush other rest)
  | sent (other : Fin n) (rest : List (Fin n))
      (queued : ⟨.shutdown, .pushed thread⟩ ∈ s'.queue other)
      (stopped : s'.stopped = s.stopped) :
      Proceeded s s' thread (.shutdownPush other rest) (shutdownLoop rest)
  | woken (origin : Origin)
      (stopped : s'.stopped = (s.stopped || origin == .shutdownAsync)) :
      Proceeded s s' thread (.unpark origin) .none

theorem proceeded_of_callStep {thread : Thread n} (taken : callStep s thread = some s') :
    Proceeded s s' thread (s.call thread) (s'.call thread) := by
  cases here : s.call thread with
  | none => simp [callStep, here] at taken
  | pushing todo origin =>
      cases todo with
      | cons insert rest =>
          simp only [callStep, here] at taken
          cases taken
          rw [State.setCall_call, Function.update_self]
          refine .pushed insert rest origin ?_ rfl
          intro work member
          rw [State.setCall_queue, mem_insert]
          exact Or.inr ⟨rfl, member, rfl⟩
      | nil =>
          simp only [callStep, here, nextEpoch] at taken
          split at taken
          · obtain rfl := Option.some.inj taken
            rw [State.setCall_call, Function.update_self]
            exact .counted origin (by simp)
          · obtain rfl := Option.some.inj taken
            rw [State.finish_call, State.setCall_call, Function.update_self]
            exact .announced origin (by simp)
  | shutdownRead other rest =>
      simp only [callStep, here] at taken
      cases taken
      rw [State.setCall_call, Function.update_self]
      cases flag : s.shutdown other with
      | true => exact .skipped other rest flag rfl
      | false => exact .missing other rest flag rfl
  | shutdownPush other rest =>
      simp only [callStep, here] at taken
      cases taken
      rw [State.setCall_call, Function.update_self]
      refine .sent other rest ?_ rfl
      rw [State.setCall_queue, mem_insert]
      exact Or.inr ⟨rfl, List.mem_singleton_self _, rfl⟩
  | unpark origin =>
      simp only [callStep, here, wakeAllSlow] at taken
      cases taken
      rw [State.finish_call, State.setCall_call, Function.update_self]
      exact .woken origin rfl

/-- A thread's call is kept, proceeds, or is entered from user code or as `Shutdown`. -/
theorem call_of_step {action : Action n} (taken : step s action = some s')
    (thread : Thread n) :
    s'.call thread = s.call thread ∨
      Proceeded s s' thread (s.call thread) (s'.call thread) ∨
      (s.call thread = .none ∧ ∃ todo origin, s'.call thread = .pushing todo origin ∧
        (origin = .shutdownAsync →
          todo = (List.finRange n).map (fun target => ⟨target, [.shutdown], true⟩))) ∨
      ∃ w, thread = .worker w ∧ s.pc w = .poll .shutdown ∧
        s'.call thread = shutdownLoop (others w) ∧ s'.shutdown w = true := by
  rcases step_cases taken with ⟨u, refuse, rfl, moved⟩ | ⟨other, rfl, moved⟩ | started
  · rcases (worked_of_work moved).call thread with same | entered
    · exact Or.inl same
    · exact Or.inr (Or.inr (Or.inr ⟨u, entered⟩))
  · by_cases same : thread = other
    · rw [same]
      exact Or.inr (Or.inl (proceeded_of_callStep moved))
    · exact Or.inl ((called_of_callStep moved).call thread same)
  · cases started with
    | entered seed other todo origin user idle everyone =>
        by_cases same : thread = other
        · rw [same]
          exact Or.inr (Or.inr (Or.inl
            ⟨idle, todo, origin, Function.update_self .., everyone⟩))
        · exact Or.inl (Function.update_of_ne same ..)
    | deferred | drawn => exact Or.inl rfl

theorem stopped_of_step {action : Action n} (taken : step s action = some s') :
    s'.stopped = s.stopped ∨
      (s'.stopped = true ∧ ∃ thread, s'.call thread = .none ∧
        (s.call thread = .pushing [] .shutdownAsync ∨ s.call thread = .unpark .shutdownAsync)) := by
  rcases step_cases taken with ⟨u, refuse, rfl, moved⟩ | ⟨thread, rfl, moved⟩ | started
  · exact Or.inl (worked_of_work moved).stopped
  · have proceeded := proceeded_of_callStep moved
    generalize before : s.call thread = call at proceeded
    generalize after : s'.call thread = call' at proceeded
    cases proceeded with
    | announced origin stopped =>
        cases origin with
        | push => exact Or.inl (stopped.trans (Bool.or_false _))
        | shutdownAsync =>
            exact Or.inr ⟨stopped.trans (Bool.or_true _), thread, after, Or.inl before⟩
    | woken origin stopped =>
        cases origin with
        | push => exact Or.inl (stopped.trans (Bool.or_false _))
        | shutdownAsync =>
            exact Or.inr ⟨stopped.trans (Bool.or_true _), thread, after, Or.inr before⟩
    | _ => exact Or.inl (by assumption)
  · cases started <;> exact Or.inl rfl

end Yaay.Scheduler
