import Yaay.Runtime.SchedulerInvariant

set_option autoImplicit false

/-! Once `shutdown_async` has returned, every worker that has not set its flag has a
`Shutdown` in its queue, or a worker that will see to it has one in hand. -/

namespace Yaay.Scheduler

open Yaay.Transition

variable {n : Nat} {s s' : State n} {w : Fin n} {action : Action n}

def Pc.leaving : Pc n → Bool
  | .polling _ | .check | .returned => true
  | _ => false

def Call.visits (call : Call n) (w : Fin n) : Prop :=
  match call with
  | .shutdownRead other rest | .shutdownPush other rest => w ∈ other :: rest
  | _ => False

/-- A worker sets its own flag in `Shutdown::poll`, and goes on to return. -/
structure Flagged (s : State n) : Prop where
  leaving : ∀ w, s.shutdown w = true → (s.pc w).leaving = true
  returned : ∀ w, s.pc w = .returned → s.shutdown w = true
  looping : ∀ w u, (s.call (.worker w)).visits u → s.shutdown w = true

private theorem shutdown_mono (taken : step s action = some s') (flag : s.shutdown w = true) :
    s'.shutdown w = true := by
  rcases step_cases taken with ⟨u, refuse, rfl, moved⟩ | ⟨thread, rfl, moved⟩ | started
  · rcases (worked_of_work moved).shutdown w with same | ⟨_worker, _here, set⟩
    · rw [same, flag]
    · exact set
  · rw [(called_of_callStep moved).shutdown w, flag]
  · cases started <;> exact flag

private theorem shutdown_set (taken : step s action = some s') (flag : s'.shutdown w = true) :
    s.shutdown w = true ∨
      ∃ refuse, work s w refuse = some s' ∧ s.pc w = .poll .shutdown := by
  rcases step_cases taken with ⟨u, refuse, rfl, moved⟩ | ⟨thread, rfl, moved⟩ | started
  · rcases (worked_of_work moved).shutdown w with same | ⟨worker, here, _set⟩
    · rw [same] at flag
      exact Or.inl flag
    · rw [worker]
      exact Or.inr ⟨refuse, moved, here⟩
  · rw [(called_of_callStep moved).shutdown w] at flag
    exact Or.inl flag
  · cases started <;> exact Or.inl flag

private theorem unparked_leaving (pc : Pc n) : pc.unparked.leaving = pc.leaving := by
  cases pc <;> rfl

private theorem visits_shutdownLoop {rest : List (Fin n)} :
    (shutdownLoop rest).visits w ↔ w ∈ rest := by
  cases rest with
  | nil => simp [shutdownLoop, Call.visits]
  | cons other rest => rfl

private theorem flagged_step (flagged : Flagged s) (taken : step s action = some s') :
    Flagged s' where
  leaving := by
    intro w flag
    rcases shutdown_set taken flag with before | ⟨refuse, moved, here⟩
    · have leaving := flagged.leaving w before
      rcases pc_of_step taken w with (same | unparked) | ⟨refuse, rfl, moved⟩
      · rw [same, leaving]
      · rw [unparked, unparked_leaving, leaving]
      · have place := moved_of_work moved
        generalize s.pc w = pc at place leaving
        generalize s'.pc w = pc' at place
        cases place with
        | polled | leave => rfl
        | again clear =>
            rw [before] at clear
            cases clear
        | _ => cases leaving
    · have place := moved_of_work moved
      rw [here] at place
      generalize s'.pc w = pc' at place
      cases place
      rfl
  returned := by
    intro w place
    rcases pc_of_step taken w with (same | unparked) | ⟨refuse, rfl, moved⟩
    · rw [same] at place
      exact shutdown_mono taken (flagged.returned w place)
    · rw [unparked] at place
      have before := eq_of_unparked place (fun _ other => by cases other)
      exact shutdown_mono taken (flagged.returned w before)
    · have before := moved_of_work moved
      rw [place] at before
      generalize s.pc w = pc at before
      cases before with
      | leave flag => exact shutdown_mono taken flag
  looping := by
    intro w u visits
    rcases call_of_step taken (.worker w) with same | proceeded | entered | polled
    · rw [same] at visits
      exact shutdown_mono taken (flagged.looping w u visits)
    · have before : ∃ v, (s.call (.worker w)).visits v := by
        generalize s.call (.worker w) = call at proceeded
        generalize s'.call (.worker w) = call' at proceeded visits
        cases proceeded with
        | skipped other rest | missing other rest | sent other rest =>
            exact ⟨other, List.mem_cons_self⟩
        | _ => exact visits.elim
      obtain ⟨v, visits⟩ := before
      exact shutdown_mono taken (flagged.looping w v visits)
    · obtain ⟨_idle, todo, origin, entered, _everyone⟩ := entered
      rw [entered] at visits
      exact visits.elim
    · obtain ⟨v, same, _here, _looping, flag⟩ := polled
      cases same
      exact flag

private theorem flagged_initial (start : Initial s) : Flagged s where
  leaving := by
    intro w flag
    rw [start.shutdown] at flag
    cases flag
  returned := by
    intro w place
    rw [start.pc] at place
    cases place
  looping := by
    intro w u visits
    rw [start.call] at visits
    exact visits.elim

/-- The task was pushed by a worker, or its `next_epoch` has returned. -/
def Stamp.settled : Stamp n → Prop
  | .pushed (.worker _) | .announcing (.worker _) _ | .announced _ => True
  | _ => False

/-- The worker has set its flag, or a `Shutdown` is in its queue or will come there. -/
def Supplied (s : State n) (settled : Stamp n → Prop) (w : Fin n) : Prop :=
  s.shutdown w = true ∨
    (∃ entry ∈ s.queue w, entry.work = .shutdown ∧ settled entry.stamp) ∨
    (∃ u, (s.pc u).hand = some .shutdown) ∨
    ∃ u, (s.call (.worker u)).visits w

def Call.remaining : Call n → Option (List (Insert n))
  | .pushing todo .shutdownAsync => some todo
  | .unpark .shutdownAsync => some []
  | _ => Option.none

def Stamp.isOf (stamp : Stamp n) (thread : Thread n) : Prop :=
  stamp = .pushed thread ∨ ∃ epoch, stamp = .announcing thread epoch

structure Spread (s : State n) : Prop where
  stopped : s.stopped = true → ∀ w, Supplied s Stamp.settled w
  sending : ∀ thread todo, (s.call thread).remaining = some todo → ∀ w,
    (∃ insert ∈ todo, insert.target = w ∧ .shutdown ∈ insert.works) ∨
      Supplied s (fun stamp => stamp.settled ∨ stamp.isOf thread) w

private theorem settled_grows {stamp later : Stamp n} (grows : stamp.Grows later)
    (settled : stamp.settled) : later.settled := by
  cases grows with
  | refl => exact settled
  | counted thread epoch =>
      cases thread with
      | worker u => trivial
      | external name => exact settled.elim
  | passed | announced => trivial

private theorem settled_or_isOf_grows {thread : Thread n} {stamp later : Stamp n}
    (grows : stamp.Grows later) (before : stamp.settled ∨ stamp.isOf thread) :
    later.settled ∨ later.isOf thread := by
  rcases before with settled | own
  · exact Or.inl (settled_grows grows settled)
  · cases grows with
    | refl => exact Or.inr own
    | counted other epoch =>
        rcases own with same | ⟨epoch, same⟩
        · cases same
          exact Or.inr (Or.inr ⟨epoch, rfl⟩)
        · cases same
    | passed | announced => exact Or.inl trivial

private theorem unparked_hand (pc : Pc n) : pc.unparked.hand = pc.hand := by
  cases pc <;> rfl

private theorem remaining_shutdownLoop (rest : List (Fin n)) :
    (shutdownLoop rest).remaining = Option.none := by
  cases rest <;> rfl

theorem hand_step (taken : step s action = some s') {u : Fin n} {work : Work}
    (hand : (s.pc u).hand = some work) :
    (s'.pc u).hand = some work ∨
      ∃ refuse, Scheduler.work s u refuse = some s' ∧ s.pc u = .poll work := by
  rcases pc_of_step taken u with (same | unparked) | ⟨refuse, rfl, moved⟩
  · rw [same]
    exact Or.inl hand
  · rw [unparked, unparked_hand]
    exact Or.inl hand
  · have place := moved_of_work moved
    generalize here : s.pc u = pc at place hand
    generalize s'.pc u = pc' at place
    cases place with
    | poll other =>
        cases hand
        exact Or.inr ⟨refuse, moved, here ▸ rfl⟩
    | first | another | unpark => exact Or.inl hand
    | _ => cases hand

/-- A supply lasts as long as the stamps that it counts grow into such stamps. -/
theorem supplied_step (calling : Calling s) (taken : step s action = some s')
    {settled : Stamp n → Prop} (workers : ∀ u, settled (.pushed (.worker u)))
    (grows : ∀ stamp later : Stamp n, stamp.Grows later → settled stamp → settled later)
    (supplied : Supplied s settled w) : Supplied s' settled w := by
  rcases supplied with flag | ⟨entry, member, shutdown, here⟩ | ⟨u, hand⟩ | ⟨u, visits⟩
  · exact Or.inl (shutdown_mono taken flag)
  · rcases carried_of_step taken member with ⟨later, kept, same, grown⟩ | ⟨u, hand⟩
    · exact Or.inr (Or.inl ⟨later, kept, same.trans shutdown, grows _ _ grown here⟩)
    · refine Or.inr (Or.inr (Or.inl ⟨u, ?_⟩))
      rcases hand with hand | hand
      · rw [hand, shutdown]
        rfl
      · rw [hand, shutdown]
        rfl
  · rcases hand_step taken hand with still | ⟨refuse, moved, here⟩
    · exact Or.inr (Or.inr (Or.inl ⟨u, still⟩))
    · simp only [work, here, pollTask] at moved
      cases moved
      by_cases same : w = u
      · rw [same]
        exact Or.inl (Function.update_self ..)
      · refine Or.inr (Or.inr (Or.inr ⟨u, ?_⟩))
        simp only [State.setCall_call, Function.update_self, visits_shutdownLoop]
        exact List.mem_filter.mpr ⟨List.mem_finRange w, by simp [same]⟩
  · rcases call_of_step taken (.worker u) with same | proceeded | entered | polled
    · refine Or.inr (Or.inr (Or.inr ⟨u, ?_⟩))
      rw [same]
      exact visits
    · generalize s.call (.worker u) = call at proceeded visits
      generalize after : s'.call (.worker u) = call' at proceeded
      cases proceeded with
      | skipped other rest flag stopped =>
          rcases List.mem_cons.mp visits with same | later
          · rw [same]
            exact Or.inl (shutdown_mono taken flag)
          · exact Or.inr (Or.inr (Or.inr ⟨u, by rw [after]; exact visits_shutdownLoop.mpr later⟩))
      | missing other rest flag stopped =>
          exact Or.inr (Or.inr (Or.inr ⟨u, by rw [after]; exact visits⟩))
      | sent other rest queued stopped =>
          rcases List.mem_cons.mp visits with same | later
          · rw [same]
            exact Or.inr (Or.inl ⟨_, queued, rfl, workers u⟩)
          · exact Or.inr (Or.inr (Or.inr ⟨u, by rw [after]; exact visits_shutdownLoop.mpr later⟩))
      | _ => exact visits.elim
    · rw [entered.1] at visits
      exact visits.elim
    · obtain ⟨v, same, here, _looping, _flag⟩ := polled
      cases same
      rw [idle_of_poll calling here] at visits
      exact visits.elim

theorem Supplied.settle (consistent : Consistent s) {thread : Thread n}
    (idle : s.call thread = .none)
    (supplied : Supplied s (fun stamp => stamp.settled ∨ stamp.isOf thread) w) :
    Supplied s Stamp.settled w := by
  refine supplied.imp_right (fun rest => rest.imp_left ?_)
  rintro ⟨entry, member, shutdown, settled | own⟩
  · exact ⟨entry, member, shutdown, settled⟩
  · have stamped := consistent.stamped w entry member
    rcases own with stamp | ⟨epoch, stamp⟩
    · rw [stamp, Stamped, idle] at stamped
      exact stamped.elim
    · rw [stamp, Stamped, idle] at stamped
      obtain ⟨_bound, origin, unparking⟩ := stamped
      cases unparking

private theorem spread_step (consistent : Consistent s) (spread : Spread s)
    (taken : step s action = some s') : Spread s' := by
  have kept (thread : Thread n) (w : Fin n)
      (supplied : Supplied s (fun stamp => stamp.settled ∨ stamp.isOf thread) w) :
      Supplied s' (fun stamp => stamp.settled ∨ stamp.isOf thread) w :=
    supplied_step consistent.calling taken (fun _ => Or.inl trivial)
      (fun _ _ grows before => settled_or_isOf_grows grows before) supplied
  constructor
  · intro stopped w
    rcases stopped_of_step taken with same | ⟨_now, thread, idle, ending⟩
    · rw [same] at stopped
      exact supplied_step consistent.calling taken (fun _ => trivial)
        (fun _ _ grows before => settled_grows grows before) (spread.stopped stopped w)
    · have sent : (s.call thread).remaining = some [] := by
        rcases ending with here | here
        · rw [here]
          rfl
        · rw [here]
          rfl
      rcases spread.sending thread [] sent w with ⟨insert, member, _target⟩ | supplied
      · cases member
      · exact (kept thread w supplied).settle (consistent_step consistent taken) idle
  · intro thread todo remaining w
    rcases call_of_step taken thread with same | proceeded | entered | polled
    · rw [same] at remaining
      exact (spread.sending thread todo remaining w).imp_right (kept thread w)
    · have sending := spread.sending thread
      generalize s.call thread = call at proceeded sending
      generalize s'.call thread = call' at proceeded remaining
      cases proceeded with
      | pushed insert rest origin queued stopped =>
          cases origin with
          | push => cases remaining
          | shutdownAsync =>
              cases remaining
              rcases sending _ rfl w with ⟨next, member, target, shutdown⟩ | supplied
              · rcases List.mem_cons.mp member with rfl | later
                · rw [← target]
                  exact Or.inr (Or.inr (Or.inl
                    ⟨_, queued .shutdown shutdown, rfl, Or.inr (Or.inl rfl)⟩))
                · exact Or.inl ⟨next, later, target, shutdown⟩
              · exact Or.inr (kept thread w supplied)
      | counted origin stopped =>
          cases origin with
          | push => cases remaining
          | shutdownAsync =>
              cases remaining
              exact (sending _ rfl w).imp_right (kept thread w)
      | skipped other rest | sent other rest =>
          rw [remaining_shutdownLoop] at remaining
          cases remaining
      | _ => cases remaining
    · obtain ⟨_idle, works, origin, entered, everyone⟩ := entered
      rw [entered] at remaining
      cases origin with
      | push => cases remaining
      | shutdownAsync =>
          cases remaining
          rw [everyone rfl]
          exact Or.inl ⟨⟨w, [.shutdown], true⟩,
            List.mem_map.mpr ⟨w, List.mem_finRange w, rfl⟩, rfl, List.mem_singleton_self _⟩
    · obtain ⟨v, _same, _here, looping, _flag⟩ := polled
      rw [looping, remaining_shutdownLoop] at remaining
      cases remaining

theorem reachable_flagged {permits : State n → Action n → Prop}
    (reached : (system n).Reachable permits s) : Flagged s :=
  reached.invariant Flagged (fun _state start => flagged_initial start)
    (fun _state _next _action _reached flagged _permitted taken => flagged_step flagged taken)

/-- After `shutdown_async` has returned, no worker is without a `Shutdown` to come. -/
theorem reachable_spread {permits : State n → Action n → Prop}
    (reached : (system n).Reachable permits s) : Spread s := by
  apply reached.invariant Spread
  · intro start initial
    constructor
    · intro stopped
      rw [initial.stopped] at stopped
      cases stopped
    · intro thread todo remaining
      rw [initial.call] at remaining
      cases remaining
  · intro state next action earlier spread _permitted taken
    exact spread_step (reachable_consistent earlier) spread taken

end Yaay.Scheduler
