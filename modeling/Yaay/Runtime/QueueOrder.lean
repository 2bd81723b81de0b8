import Yaay.Line
import Yaay.Runtime.Conservation

set_option autoImplicit false

/-! Every queue is a line: its worker and the thieves take its first task, `spawn`, wakes and
batches put tasks behind the others, and only `defer` and the shutdown put them before. -/

namespace Yaay.Scheduler

open Yaay.Transition

variable {n : Nat} {s s' : State n} {v : Fin n}

def State.line (v : Fin n) (s : State n) : List Work := (s.queue v).map Entry.work

def takes (v : Fin n) (s : State n) : Action n → Nat
  | .work w _ =>
      match s.pc w with
      | .drain | .recheck _ | .popChanged _ => if w = v ∧ s.queue v ≠ [] then 1 else 0
      | .stealPop _ _ victim => if victim = v ∧ s.queue v ≠ [] then 1 else 0
      | _ => 0
  | _ => 0

def ahead (v : Fin n) (s : State n) : Action n → List Work
  | .call thread =>
      match s.call thread with
      | .pushing (insert :: _) _ => if insert.target = v ∧ insert.front then insert.works else []
      | .shutdownPush other _ => if other = v then [.shutdown] else []
      | _ => []
  | .defer w task => if w = v then [.task task] else []
  | _ => []

def overtakes (v : Fin n) (s : State n) (action : Action n) : Nat := (ahead v s action).length

/-- The line moves by so many at its head, between what joins before and behind it. -/
def Moves (v : Fin n) (s : State n) (action : Action n) (s' : State n) : Prop :=
  ∃ back, s'.line v = ahead v s action ++ (s.line v).drop (takes v s action) ++ back

theorem Moves.still {action : Action n} (same : s'.line v = s.line v)
    (none : ahead v s action = []) (stays : takes v s action = 0) : Moves v s action s' :=
  ⟨[], by rw [none, stays, same, List.drop_zero, List.nil_append, List.append_nil]⟩

private theorem line_insert (insert : Insert n) (stamp : Stamp n) :
    (s.insert insert stamp).line v =
      if insert.target = v then
        (if insert.front then insert.works ++ s.line v else s.line v ++ insert.works)
      else s.line v := by
  have works : (insert.works.map (fun work => (⟨work, stamp⟩ : Entry n))).map Entry.work =
      insert.works := by
    rw [List.map_map]
    exact List.map_id insert.works
  rw [State.line, State.insert, State.setQueue_queue]
  by_cases same : insert.target = v
  · rw [if_pos same, same, Function.update_self]
    split
    · rw [List.map_append, works]
      rfl
    · rw [List.map_append, works]
      rfl
  · rw [if_neg same, Function.update_of_ne (Ne.symm same)]
    rfl

private theorem line_tail {victim : Fin n} {entry : Entry n} {rest : List (Entry n)} (w : Fin n)
    (pc : Pc n)
    (here : s.queue victim = entry :: rest) :
    ((s.setQueue victim rest).setPc w pc).line v =
      (s.line v).drop (if victim = v ∧ s.queue v ≠ [] then 1 else 0) := by
  rw [State.line, State.setPc_queue, State.setQueue_queue]
  by_cases same : victim = v
  · subst same
    rw [Function.update_self, if_pos ⟨rfl, by rw [here]; exact List.cons_ne_nil _ _⟩, State.line,
      here]
    rfl
  · rw [Function.update_of_ne (Ne.symm same), if_neg (fun both => same both.1)]
    rfl

private theorem line_popFront (s : State n) (w victim : Fin n) (empty : Pc n)
    (found : Work → Pc n) :
    (s.popFront w victim empty found).line v =
      (s.line v).drop (if victim = v ∧ s.queue v ≠ [] then 1 else 0) := by
  rcases popFront_cases s w victim empty found with ⟨none, shape⟩ | ⟨entry, rest, here, shape⟩
  · have stays : ¬ (victim = v ∧ s.queue v ≠ []) := by
      rintro ⟨rfl, some⟩
      exact some none
    rw [shape, if_neg stays]
    rfl
  · rw [shape, line_tail w (found entry.work) here]

/-- A step of a worker takes the first task of one queue or none. -/
theorem line_of_work {w : Fin n} {refuse : Bool} (taken : work s w refuse = some s') :
    s'.line v = (s.line v).drop (takes v s (.work w refuse)) := by
  cases here : s.pc w with
  | drain | recheck old | popChanged new =>
      simp only [work, here] at taken
      cases taken
      simp only [takes, here]
      exact line_popFront s w w _ _
  | stealPop old tries victim =>
      simp only [work, here, stealPop] at taken
      cases taken
      simp only [takes, here]
      split
      · rename_i none
        rw [if_neg]
        · rfl
        · rintro ⟨rfl, some⟩
          exact some none
      · rename_i first rest queue
        exact line_tail w _ queue
  | poll task =>
      simp only [work, here] at taken
      cases taken
      simp only [takes, here, List.drop_zero]
      cases task <;> rfl
  | polling task =>
      simp only [work, here] at taken
      split at taken <;> cases taken
      simp only [takes, here, List.drop_zero]
      rfl
  | steal old tries =>
      simp only [work, here, trySteal] at taken
      simp only [takes, here, List.drop_zero]
      repeat' split at taken
      all_goals
        cases taken
      all_goals
        rfl
  | check | deactivate | search old | wait old | park old | reread old | activate task
  | unpark task =>
      simp only [work, here] at taken
      cases taken
      simp only [takes, here, List.drop_zero]
      rfl
  | parked old | returned => simp [work, here] at taken

private theorem moves_of_callStep {thread : Thread n} (taken : callStep s thread = some s') :
    Moves v s (.call thread) s' := by
  cases here : s.call thread with
  | none => simp [callStep, here] at taken
  | pushing todo origin =>
      cases todo with
      | cons insert rest =>
          simp only [callStep, here] at taken
          cases taken
          change ∃ back, (s.insert insert (.pushed thread)).line v = _
          simp only [ahead, takes, here, List.drop_zero, line_insert]
          by_cases same : insert.target = v
          · by_cases front : insert.front = true
            · exact ⟨[], by rw [if_pos same, if_pos front, if_pos ⟨same, front⟩, List.append_nil]⟩
            · refine ⟨insert.works, ?_⟩
              rw [if_pos same, if_neg front, if_neg (fun both => front both.2), List.nil_append]
          · refine ⟨[], ?_⟩
            rw [if_neg same, if_neg (fun both => same both.1), List.nil_append, List.append_nil]
      | nil =>
          simp only [callStep, here, nextEpoch] at taken
          refine .still ?_ (by simp only [ahead, here]) rfl
          split at taken
          all_goals
            obtain rfl := Option.some.inj taken
            simp only [State.line, State.setCall_queue, State.finish_queue, State.restamp_queue,
              List.map_map]
            rfl
  | shutdownRead other rest =>
      simp only [callStep, here] at taken
      cases taken
      exact .still rfl (by simp only [ahead, here]) rfl
  | shutdownPush other rest =>
      simp only [callStep, here] at taken
      cases taken
      have inserted := line_insert (s := s) (v := v) ⟨other, [.shutdown], true⟩ (.pushed thread)
      refine ⟨[], ?_⟩
      simp only [ahead, takes, here, List.drop_zero, List.append_nil]
      by_cases same : other = v
      · rw [if_pos same] at inserted ⊢
        exact inserted
      · rw [if_neg same] at inserted ⊢
        exact inserted
  | unpark origin =>
      simp only [callStep, here, wakeAllSlow] at taken
      cases taken
      refine .still ?_ (by simp only [ahead, here]) rfl
      simp only [State.line, State.finish_queue, State.setCall_queue, State.restamp_queue,
        State.unparkAll_queue, List.map_map]
      rfl

private theorem moves_of_step {action : Action n} (taken : step s action = some s') :
    Moves v s action s' := by
  have entered {t : State n} {caller : Thread n} {todo : List (Insert n)} {origin : Origin}
      (same : t.line v = s.line v) (none : ahead v s action = []) (stays : takes v s action = 0)
      (taken : enter t caller todo origin = some s') : Moves v s action s' := by
    obtain ⟨_idle, rfl⟩ := enter_cases taken
    exact .still same none stays
  cases action with
  | work w refuse => exact ⟨[], (line_of_work taken).trans (List.append_nil _).symm⟩
  | call thread => exact moves_of_callStep taken
  | run name task =>
      simp only [step, run] at taken
      split at taken
      · exact entered rfl rfl rfl taken
      · cases taken
  | wake name target task => exact entered rfl rfl rfl taken
  | pushBatch name tasks =>
      simp only [step, pushBatch] at taken
      split at taken
      · cases taken
      · exact entered rfl rfl rfl taken
  | shutdownAsync thread => exact entered rfl rfl rfl taken
  | spawn w task =>
      simp only [step, spawn] at taken
      split at taken
      · split at taken
        · split at taken
          · exact entered (t := s.setSeed w _) rfl rfl rfl taken
          · cases taken
        · cases taken
          have inserted := line_insert (s := s.setSeed w (Rng.nextSeed (s.seed w))) (v := v)
            ⟨w, [.task task], false⟩ .own
          by_cases same : w = v
          · rw [if_pos same] at inserted
            exact ⟨[.task task], inserted⟩
          · rw [if_neg same] at inserted
            exact .still inserted rfl rfl
      · cases taken
  | defer w task =>
      simp only [step, defer] at taken
      split at taken
      · cases taken
        have inserted := line_insert (s := s) (v := v) ⟨w, [.task task], true⟩ .own
        refine ⟨[], ?_⟩
        simp only [ahead, takes, List.drop_zero, List.append_nil]
        by_cases same : w = v
        · rw [if_pos same] at inserted ⊢
          exact inserted
        · rw [if_neg same] at inserted ⊢
          exact inserted
      · cases taken
  | rngGen w =>
      simp only [step, rngGen] at taken
      split at taken
      · cases taken
        exact .still rfl rfl rfl
      · cases taken

theorem lined (v : Fin n) : Line (system n) (State.line v) (takes v) (overtakes v) := by
  constructor
  · intro s action s' taken
    obtain ⟨back, moved⟩ := moves_of_step (v := v) taken
    exact ⟨ahead v s action, back, moved, rfl⟩
  · intro s action s' _taken
    cases action with
    | work w refuse =>
        have none : overtakes v s (.work w refuse) = 0 := rfl
        rw [none]
        simp only [takes]
        split
        all_goals
          first
          | exact Or.inl rfl
          | split
            · exact Or.inr ⟨rfl, trivial⟩
            · exact Or.inl rfl
    | _ => exact Or.inl rfl

theorem hand_of_takes {w : Fin n} {refuse : Bool} {task : Work}
    (taken : work s w refuse = some s') (takes : takes v s (.work w refuse) = 1)
    (head : (s.line v)[0]? = some task) : s'.pc w = .poll task ∨ s'.pc w = .activate task := by
  have moved := line_of_work (v := v) taken
  rw [takes] at moved
  have some := (List.getElem?_eq_some_iff.mp head).1
  have changed (same : s'.queue v = s.queue v) : False := by
    have still : s'.line v = s.line v := congrArg (List.map Entry.work) same
    have length := congrArg List.length (moved.symm.trans still)
    rw [List.length_drop] at length
    omega
  rcases queue_of_work taken with ⟨same, _free⟩ | ⟨victim, entry, queue, others, hand⟩
  · exact (changed (same v)).elim
  · by_cases own : v = victim
    · subst own
      rw [State.line, queue] at head
      cases head
      exact hand
    · exact (changed (others v own)).elim

/-- A task that waits behind so many others in a queue is overtaken by those that `defer` and
the shutdown put before it and by no others. Either it still waits, or a worker has taken it
when just those had been taken, and goes on to poll it. -/
theorem queued_task_waits {place : Nat} {task : Work} {last : State n}
    {actions : List (Action n)} (here : (s.line v)[place]? = some task)
    (ran : (system n).exec s actions = some last) :
    (∃ left, (system n).tally (takes v) s actions + left =
        place + (system n).tally (overtakes v) s actions ∧
        (last.line v)[left]? = some task) ∨
      ∃ before middle next w refuse,
        Taken (system n) (State.line v) (takes v) (overtakes v) place task s actions before
            middle next (.work w refuse) ∧
          (next.pc w = .poll task ∨ next.pc w = .activate task) := by
  rcases (lined v).waits here ran with waits | ⟨before, middle, next, action, found⟩
  · exact Or.inl waits
  · cases action with
    | work w refuse =>
        exact Or.inr ⟨before, middle, next, w, refuse, found,
          hand_of_takes found.taken found.leaves found.head⟩
    | _ => exact absurd found.leaves Nat.zero_ne_one

def queueTwo : List (Action 2) :=
  [.run 0 5, .call (.external 0), .call (.external 0), .wake 1 first 6, .call (.external 1)]

private theorem queueTwo_runs : ((system 2).exec pair queueTwo).isSome = true := by decide

def twoQueued : State 2 := ((system 2).exec pair queueTwo).get queueTwo_runs

/-- The first task defers a third one, which is polled before the second. -/
def deferBefore : List (Action 2) := works first 2 ++ [.defer first 8] ++ works first 7

private theorem deferBefore_runs :
    ((system 2).exec twoQueued deferBefore).isSome = true := by decide

theorem queued_task_waits_behind_deferred :
    ∃ last, (system 2).exec twoQueued deferBefore = some last ∧
      ((∃ left, (system 2).tally (takes first) twoQueued deferBefore + left =
          1 + (system 2).tally (overtakes first) twoQueued deferBefore ∧
          (last.line first)[left]? = some (.task 6)) ∨
        ∃ before middle next w refuse,
          Taken (system 2) (State.line first) (takes first) (overtakes first) 1 (.task 6)
              twoQueued deferBefore before middle next (.work w refuse) ∧
            (next.pc w = .poll (.task 6) ∨ next.pc w = .activate (.task 6))) := by
  have ran := (Option.some_get deferBefore_runs).symm
  exact ⟨_, ran, queued_task_waits (by decide) ran⟩

end Yaay.Scheduler
