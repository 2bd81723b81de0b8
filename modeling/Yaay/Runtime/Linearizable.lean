import Yaay.Runtime.SyncListSteps

set_option autoImplicit false

/-! `SyncTaskList` is linearizable, its unlocked `is_empty` included: a locked operation is
one step to everybody else. -/

namespace Yaay.SyncTaskList

open Yaay.Transition
open TaskSystem (TaskRef)

variable {Name Thread : Type} [DecidableEq Name] [DecidableEq Thread]
  {s s' : State Name Thread} {a a' : Spec Name Thread} {thread : Thread} {name : Name}
  {spot next : Spot} {phase : SpecPhase Name} {tasks batch : List TaskRef}

private theorem lock_follows (related : Represents s a) (here : s.pc thread = .lock name spot)
    (moved : access s thread = some s') : Follows s' a := by
  rw [access, here] at moved
  obtain ⟨free, moved⟩ := Option.ite_none_right_eq_some.mp moved
  have sound := related.lists name
  have waiting := related.threads thread
  rw [here] at waiting
  have holds := sound.free free
  have there : (s.goto thread (.inside name spot)).pc thread = .inside name spot :=
    Function.update_self ..
  have taken : Function.update s.rawMutex name (some thread) name = some thread :=
    Function.update_self ..
  have none : ∀ other, s.rawMutex other ≠ some thread := by
    intro other held
    obtain ⟨_spot, inside⟩ := (related.lists other).held thread held
    rw [here] at inside
    cases inside
  cases moved
  apply Represents.follows
  refine related.stroke ?_ ?_ (fun other held => absurd held (none other)) (fun _ _ => rfl)
    (fun _ _ => rfl) ⟨sound.member, sound.head, ?_, ?_⟩ ?_
  · exact ((Touches.refl s _).goto (stroke_call name thread) _).setMutex
      (stroke_list name thread) (some thread)
  · intro other held
    rw [free] at held
    cases held
  · intro free
    cases taken.symm.trans free
  · intro other held
    cases taken.symm.trans held
    exact ⟨spot, there⟩
  · rw [there]
    refine ⟨taken, ?_⟩
    cases spot with
    | pushBack batch | pushFront batch =>
        obtain ⟨called, some, linked, own⟩ := waiting
        exact ⟨⟨called, some, linked, own⟩, holds⟩
    | popFront | takeAll => exact ⟨waiting, holds⟩
    | _ => exact waiting.elim

def Outside (thread : Thread) : Place Name Thread → Prop
  | .list _ => False
  | .call other => other = thread
  | .hand _ => True

omit [DecidableEq Name] [DecidableEq Thread] in
theorem Represents.outside (related : Represents s a) (thread : Thread)
    (touches : Touches s s' (Outside thread))
    (out : ∀ name spot, s.pc thread ≠ .inside name spot) (shared : a'.shared = a.shared)
    (phases : ∀ other, other ≠ thread → a'.phase other = a.phase other)
    (agrees : Agrees s' a'.shared thread (a'.phase thread) (s'.pc thread)) : Represents s' a' := by
  refine related.frame touches ?_ (fun _ _ => by rw [shared]) phases (fun _ => False.elim) ?_
  · intro name other held
    constructor
    · exact False.elim
    · intro same
      have held : s.rawMutex name = some thread := same ▸ held
      obtain ⟨spot, inside⟩ := (related.lists name).held thread held
      exact absurd inside (out name spot)
  · intro other same
    rw [show other = thread from same]
    exact agrees

private theorem call_follows (related : Represents s a) {op : Op Name}
    (moved : call s thread op = some s') :
    ∃ a', Atomic.step Queues.machine a (.call thread op) = some a' ∧ Represents s' a' := by
  obtain ⟨⟨idle, brings⟩, moved⟩ := Option.ite_none_right_eq_some.mp moved
  have agrees := related.threads thread
  cases here : s.pc thread with
  | idle =>
      rw [here] at agrees
      have phase : (a.enter thread (.called op)).phase thread = .called op :=
        Function.update_self ..
      have there : ((s.move op.batch (.call thread)).goto thread op.start).pc thread = op.start :=
        Function.update_self ..
      cases moved
      refine ⟨_, Atomic.step_call op agrees, related.outside thread ?_ ?_ rfl ?_ ?_⟩
      · refine ((Touches.refl s (Outside thread)).move ?_ ?_).goto rfl _
        · intro task member
          have own : s.place task = .hand thread := by
            cases op with
            | pushBackBatch name batch | pushFrontBatch name batch =>
                exact brings.2.2.2 task member
            | _ => cases member
          rw [own]
          trivial
        · rfl
      · intro name spot inside
        cases here.symm.trans inside
      · exact fun other different => Function.update_of_ne different _ _
      · rw [there, phase]
        cases op with
        | pushBackBatch name batch | pushFrontBatch name batch =>
            obtain ⟨nonempty, linked, distinct, _own⟩ := brings
            exact ⟨rfl, nonempty, ⟨rfl, rfl, linked, distinct⟩, fun task member => if_pos member⟩
        | popFront name | takeAll name | isEmpty name => rfl
  | _ =>
      rw [here] at idle
      cases idle

private theorem load_follows (related : Represents s a) (here : s.pc thread = .load name)
    (moved : access s thread = some s') : Follows s' a := by
  have called := related.threads thread
  have head := (related.lists name).head
  rw [here] at called
  rw [access, here] at moved
  have answers : Queues.step a.shared (.isEmpty name) =
      some (.empty (a.shared name).isEmpty, a.shared) := rfl
  have same : (s.lists name).isEmpty = (a.shared name).isEmpty := by
    rw [TaskList.isEmpty, head]
    cases a.shared name <;> rfl
  have there : (s.goto thread (.returning (.empty (s.lists name).isEmpty))).pc thread =
      .returning (.empty (s.lists name).isEmpty) := Function.update_self ..
  have answered : (a.enter thread (.answered (.empty (a.shared name).isEmpty))).phase thread =
      .answered (.empty (a.shared name).isEmpty) := Function.update_self ..
  cases moved
  refine ⟨[.effect thread (.isEmpty name) (.empty (a.shared name).isEmpty)],
    { a.enter thread (.answered (.empty (a.shared name).isEmpty)) with shared := a.shared },
    Atomic.exec_single (Atomic.step_effect called answers), rfl,
    related.outside thread ?_ ?_ rfl ?_ ?_⟩
  · exact (Touches.refl s (Outside thread)).goto rfl _
  · intro other spot inside
    cases here.symm.trans inside
  · exact fun other different => Function.update_of_ne different _ _
  · rw [there]
    exact ⟨_, answered, congrArg Reply.empty same, carries_nil _ _⟩

private theorem ret_follows (related : Represents s a) {reply : Reply TaskList}
    (moved : ret s thread reply = some s') :
    ∃ answer a', Atomic.step Queues.machine a (.ret thread answer) = some a' ∧
      answer.ends = reply ∧ Represents s' a' := by
  have agrees := related.threads thread
  rw [ret] at moved
  cases here : s.pc thread with
  | returning given =>
      rw [here] at agrees moved
      obtain ⟨same, moved⟩ := Option.ite_none_right_eq_some.mp moved
      obtain ⟨answer, answered, shown, _carries⟩ := agrees
      have there : ((s.settle (.call thread) (.hand thread)).goto thread .idle).pc thread =
          .idle := Function.update_self ..
      have idle : (a.enter thread .idle).phase thread = .idle := Function.update_self ..
      cases moved
      refine ⟨answer, _, Atomic.step_ret answered, shown.symm.trans same,
        related.outside thread ?_ ?_ rfl ?_ ?_⟩
      · have mine : Outside thread (.call thread : Place Name Thread) := rfl
        have own : Outside thread (.hand thread : Place Name Thread) := trivial
        exact ((Touches.refl s _).settle mine own).goto mine _
      · intro name spot inside
        cases here.symm.trans inside
      · exact fun other different => Function.update_of_ne different _ _
      · rw [there]
        exact idle
  | _ =>
      rw [here] at moved
      cases moved

def Hands : Place Name Thread → Prop
  | .hand _ => True
  | _ => False

omit [DecidableEq Name] [DecidableEq Thread] in
theorem Represents.hands (related : Represents s a) (touches : Touches s s' Hands) :
    Represents s' a :=
  related.frame touches (fun _ _ _ => Iff.rfl) (fun _ _ => rfl) (fun _ _ => rfl)
    (fun _ => False.elim) (fun _ => False.elim)

private theorem link_follows (related : Represents s a) {task : TaskRef} {after : Option TaskRef}
    (moved : link s thread task after = some s') : Represents s' a := by
  obtain ⟨⟨_idle, own⟩, moved⟩ := Option.ite_none_right_eq_some.mp moved
  cases moved
  exact related.hands ((Touches.refl s _).setLink (own ▸ trivial) after)

private theorem give_follows (related : Represents s a) {other : Thread} {task : TaskRef}
    (moved : give s thread other task = some s') : Represents s' a := by
  obtain ⟨own, moved⟩ := Option.ite_none_right_eq_some.mp moved
  cases moved
  refine related.hands ((Touches.refl s _).move ?_ trivial)
  intro given member
  rw [List.mem_singleton.mp member, own]
  trivial

omit [DecidableEq Name] [DecidableEq Thread] in
private theorem represents_initial (start : Initial s) :
    Represents s { shared := fun _ => [], phase := fun _ => .idle } := by
  constructor
  · intro name
    refine ⟨?_, by rw [start.lists name]; rfl, ?_, ?_⟩
    · intro task
      obtain ⟨thread, here⟩ := start.place task
      rw [here]
      exact ⟨fun none => absurd none List.not_mem_nil, fun impossible => nomatch impossible⟩
    · intro _free
      rw [start.lists name]
      exact Segment.empty s.next
    · intro thread held
      rw [start.rawMutex name] at held
      cases held
  · intro thread
    rw [start.pc thread]
    rfl

theorem simulation :
    Simulation (system : System (State Name Thread) (Action Name Thread))
      (Atomic.system Queues.machine (fun _ => [])) (fun _ => Action.event?) atomicEvent?
      Represents := by
  constructor
  · exact fun s start => ⟨_, rfl, represents_initial start⟩
  · intro s a action s' related moved
    cases action with
    | call thread op =>
        obtain ⟨a', called, after⟩ := call_follows related moved
        exact ⟨[.call thread op], a', Atomic.exec_single called, rfl, after⟩
    | ret thread reply =>
        obtain ⟨answer, a', returned, shown, after⟩ := ret_follows related moved
        refine ⟨[.ret thread answer], a', Atomic.exec_single returned, ?_, after⟩
        rw [← shown]
        rfl
    | access thread =>
        have taken : access s thread = some s' := moved
        cases here : s.pc thread with
        | lock name spot => exact lock_follows related here taken
        | inside name spot =>
            rw [access, here] at taken
            exact inside_follows related here taken
        | load name => exact load_follows related here taken
        | idle | returning reply =>
            rw [access, here] at taken
            cases taken
    | link thread task after => exact (link_follows related moved).follows
    | give thread other task => exact (give_follows related moved).follows

/-- Every run shows the calls and the replies of a run in which each operation happens at one
stroke between its call and its return. These strokes are one sequential run of the queues,
and between the critical sections the memory represents where they have come to. At every
access the head alone tells whether a queue is empty. -/
theorem sync_task_list_linearizable {start last : State Name Thread}
    {actions : List (Action Name Thread)} (initial : Initial start)
    (ran : system.exec start actions = some last) :
    ∃ run after, (Atomic.system Queues.machine (fun _ => [])).exec
        { shared := fun _ => [], phase := fun _ => .idle } run = some after ∧
      run.filterMap atomicEvent? = actions.filterMap Action.event? ∧
      Queues.machine.run (fun _ => [])
          ((run.filterMap Atomic.Action.effect?).map (fun effect => effect.2.1)) =
        some ((run.filterMap Atomic.Action.effect?).map (fun effect => effect.2.2),
          after.shared) ∧
      (∀ name, last.rawMutex name = none →
        (last.lists name).Holds last.next (after.shared name)) ∧
      ∀ name, (last.lists name).isEmpty = (after.shared name).isEmpty := by
  obtain ⟨run, after, above, shown, related⟩ :=
    simulation.exec (represents_initial initial) ran
  rw [System.trace_of_moves ran] at shown
  refine ⟨run, after, above, shown, Atomic.effects_run above,
    fun name => (related.lists name).free, ?_⟩
  intro name
  rw [TaskList.isEmpty, (related.lists name).head]
  cases after.shared name <;> rfl

/-- A thread pushes a batch whose first task another one pops, while a third one looks at the
queue before and after the store to its head. -/
def handover : List (Action Unit Nat) :=
  [.call 0 (.pushBackBatch () [7, 8]), .access 0, .call 1 (.popFront ()), .access 0,
    .call 2 (.isEmpty ()), .access 2, .ret 2 (.empty true), .access 0, .call 2 (.isEmpty ()),
    .access 2, .ret 2 (.empty false), .access 0, .access 0, .ret 0 .done, .access 1, .access 1,
    .access 1, .access 1, .access 1, .access 1, .ret 1 (.popped (some 7))]

def newList : State Unit Nat :=
  { next := fun task => if task = 7 then some 8 else none
    lists := fun _ => TaskList.new
    rawMutex := fun _ => none
    pc := fun _ => .idle
    place := fun _ => .hand 0 }

private theorem newList_initial : Initial newList :=
  ⟨fun _ => rfl, fun _ => rfl, fun _ => rfl, fun _ => ⟨0, rfl⟩⟩

theorem sync_task_list_linearizable_of_handover :
    ∃ (last : State Unit Nat) (after : Spec Unit Nat)
      (run : List (Atomic.Action Nat (Op Unit) (Reply (List TaskRef)))),
      system.exec newList handover = some last ∧
        run.filterMap atomicEvent? = handover.filterMap Action.event? ∧
        (last.lists ()).Holds last.next (after.shared ()) := by
  have free : ((system.exec newList handover).map (fun last => last.rawMutex ())) = some none := by
    decide
  obtain ⟨last, ran, unlocked⟩ := Option.map_eq_some_iff.mp free
  obtain ⟨run, after, _above, shown, _sequential, holds, _head⟩ :=
    sync_task_list_linearizable newList_initial ran
  exact ⟨last, after, run, ran, shown, holds () unlocked⟩

@[simp] def Spot.left : Spot → Nat
  | .unlock _ => 1
  | .storeTail _ | .storeHead _ | .clearTail _ | .advance _ _ | .dropTail _ => 2
  | .linkTail _ _ | .fillHead _ | .linkBatch _ _ | .fillTail _ | .clearHead _ | .loadNext _
  | .dropHead _ => 3
  | .pushBack _ | .pushFront _ | .loadTail _ | .takeTail _ => 4
  | .popFront | .takeHead => 5
  | .takeAll => 6

theorem Spot.left_le (spot : Spot) : spot.left ≤ 6 := by
  cases spot <;> simp

/-- No access under the lock has to wait or meets a null pointer. -/
theorem inside_moves (related : Represents s a) (here : s.pc thread = .inside name spot) :
    ∃ s', access s thread = some s' ∧
      ((∃ reply, s'.rawMutex name = none ∧ s'.pc thread = .returning reply) ∨
        ∃ next, s'.pc thread = .inside name next ∧ next.left < spot.left) := by
  have opened := (related.opened here).2
  have goes (s' : State Name Thread) (next : Spot) (closer : next.left < spot.left) :
      ∃ after, (s'.goto thread (.inside name next)).pc thread = .inside name after ∧
        after.left < spot.left := ⟨next, Function.update_self .., closer⟩
  rw [access, here]
  dsimp only
  cases spot with
  | pushBack batch =>
      rw [inside]
      cases (s.lists name).tail with
      | none => exact ⟨_, rfl, .inr (goes _ _ (by simp))⟩
      | some tail => exact ⟨_, rfl, .inr (goes _ _ (by simp))⟩
  | pushFront batch =>
      rw [inside]
      cases (s.lists name).head with
      | none => exact ⟨_, rfl, .inr (goes _ _ (by simp))⟩
      | some head => exact ⟨_, rfl, .inr (goes _ _ (by simp))⟩
  | popFront =>
      rw [inside]
      cases (s.lists name).head with
      | none => exact ⟨_, rfl, .inr (goes _ _ (by simp))⟩
      | some head => exact ⟨_, rfl, .inr (goes _ _ (by simp))⟩
  | linkBatch batch head =>
      obtain ⟨⟨_called, nonempty, _carries⟩, _holds⟩ := opened
      have last : (ends batch).tail = some (batch.getLast nonempty) :=
        List.getLast?_eq_some_getLast nonempty
      rw [inside, last]
      exact ⟨_, rfl, .inr (goes _ _ (by simp))⟩
  | loadTail head =>
      refine ⟨_, rfl, .inr (goes _ _ ?_)⟩
      split <;> simp
  | takeAll =>
      refine ⟨_, rfl, .inr (goes _ _ ?_)⟩
      split <;> simp
  | unlock reply =>
      exact ⟨_, rfl, .inl ⟨reply, Function.update_self .., Function.update_self ..⟩⟩
  | _ => exact ⟨_, rfl, .inr (goes _ _ (by simp))⟩

/-- At most one thread is inside of a list, whatever the others do; left to itself it frees
the lock within six accesses, none of which meets a null pointer. -/
theorem critical_section_ends (reached : system.Reachable anyAction s)
    (here : s.pc thread = .inside name spot) :
    (∀ other place, s.pc other = .inside name place → other = thread) ∧
    ∃ count ≤ 6, ∃ (last : State Name Thread) (reply : Reply TaskList),
      system.exec s (List.replicate count (.access thread)) = some last ∧
        last.rawMutex name = none ∧ last.pc thread = .returning reply := by
  obtain ⟨a, related⟩ := simulation.reachable reached
  constructor
  · intro other place also
    exact Option.some.inj ((related.opened also).1.symm.trans (related.opened here).1)
  · suffices within : ∀ bound, spot.left ≤ bound → ∃ count ≤ bound,
        ∃ (last : State Name Thread) (reply : Reply TaskList),
          system.exec s (List.replicate count (.access thread)) = some last ∧
            last.rawMutex name = none ∧ last.pc thread = .returning reply from
      within 6 spot.left_le
    intro bound
    induction bound generalizing s a spot with
    | zero =>
        intro impossible
        have some : 0 < spot.left := by cases spot <;> simp
        omega
    | succ bound ih =>
        intro enough
        obtain ⟨s', moved, ended | more⟩ := inside_moves related here
        · obtain ⟨reply, free, returned⟩ := ended
          exact ⟨1, by omega, s', reply, Option.bind_eq_some_iff.mpr ⟨s', moved, rfl⟩, free,
            returned⟩
        · obtain ⟨next, there, closer⟩ := more
          have still : system.Reachable anyAction s' :=
            .step s s' (.access thread) reached trivial moved
          obtain ⟨b, after⟩ := simulation.reachable still
          obtain ⟨count, few, last, reply, ran, free, returned⟩ :=
            ih still there b after (Nat.le_of_lt_succ (Nat.lt_of_lt_of_le closer enough))
          refine ⟨count + 1, Nat.succ_le_succ few, last, reply, ?_, free, returned⟩
          exact Option.bind_eq_some_iff.mpr ⟨s', moved, ran⟩

theorem critical_section_ends_of_handover :
    ∃ (s : State Unit Nat) (spot : Spot), system.exec newList (handover.take 2) = some s ∧
      s.pc 0 = .inside () spot ∧
      ∃ count ≤ 6, ∃ last : State Unit Nat,
        system.exec s (List.replicate count (.access 0)) = some last ∧
          last.rawMutex () = none := by
  have runs : (system.exec newList (handover.take 2)).isSome = true := by decide
  have reached := (System.Reachable.initial newList newList_initial).replay_any runs
  have here : ((system.exec newList (handover.take 2)).get runs).pc 0 =
      .inside () (.pushBack [7, 8]) := rfl
  obtain ⟨_alone, count, few, last, _reply, ran, free, _returned⟩ :=
    critical_section_ends reached here
  exact ⟨_, _, (Option.some_get runs).symm, here, count, few, last, ran, free⟩

end Yaay.SyncTaskList
