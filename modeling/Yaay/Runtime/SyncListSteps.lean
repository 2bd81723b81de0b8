import Yaay.Runtime.SyncListInvariant

set_option autoImplicit false

/-! Each access of a `SyncTaskList` is a step of the atomic lists, or none. -/

namespace Yaay.SyncTaskList

open Yaay.Transition
open TaskSystem (TaskRef)

variable {Name Thread : Type} [DecidableEq Name] [DecidableEq Thread]
  {s s' : State Name Thread} {a a' : Spec Name Thread} {thread : Thread} {name : Name}
  {spot next : Spot} {phase : SpecPhase Name} {tasks batch : List TaskRef}
  {area : Place Name Thread → Prop}

namespace Touches

omit [DecidableEq Name] [DecidableEq Thread] in
theorem refl (s : State Name Thread) (area : Place Name Thread → Prop) : Touches s s area :=
  ⟨fun _ _ => rfl, fun _ _ => rfl, fun _ => id, fun _ _ => rfl, fun _ _ => rfl, fun _ _ => rfl⟩

omit [DecidableEq Name] in
theorem goto (touches : Touches s s' area) (mine : area (.call thread)) (pc : Pc Name) :
    Touches s (s'.goto thread pc) area :=
  { touches with
    pc := by
      intro other outside
      have different : other ≠ thread := fun same => outside (same ▸ mine)
      rw [State.goto_pc, Function.update_of_ne different]
      exact touches.pc other outside }

omit [DecidableEq Thread] in
theorem setHead (touches : Touches s s' area) (mine : area (.list name))
    (head : Option TaskRef) : Touches s (s'.setHead name head) area :=
  { touches with
    lists := by
      intro other outside
      have different : other ≠ name := fun same => outside (same ▸ mine)
      rw [State.setHead_lists, Function.update_of_ne different]
      exact touches.lists other outside }

omit [DecidableEq Thread] in
theorem setTail (touches : Touches s s' area) (mine : area (.list name))
    (tail : Option TaskRef) : Touches s (s'.setTail name tail) area :=
  { touches with
    lists := by
      intro other outside
      have different : other ≠ name := fun same => outside (same ▸ mine)
      rw [State.setTail_lists, Function.update_of_ne different]
      exact touches.lists other outside }

omit [DecidableEq Name] [DecidableEq Thread] in
theorem setLink (touches : Touches s s' area) {task : TaskRef} (mine : area (s.place task))
    (link : Option TaskRef) : Touches s (s'.setLink task link) area :=
  { touches with
    next := by
      intro other outside
      have different : other ≠ task := fun same => outside (same ▸ mine)
      rw [State.setLink_next, setNext, Function.update_of_ne different]
      exact touches.next other outside }

omit [DecidableEq Name] [DecidableEq Thread] in
theorem move (touches : Touches s s' area) {target : Place Name Thread}
    (mine : ∀ task ∈ tasks, area (s.place task)) (inside : area target) :
    Touches s (s'.move tasks target) area :=
  { touches with
    place := by
      intro task outside
      rw [State.move_place, if_neg (fun member => outside (mine task member))]
      exact touches.place task outside
    kept := by
      intro task before
      rw [State.move_place]
      split
      · exact inside
      · exact touches.kept task before }

theorem settle (touches : Touches s s' area) {source target : Place Name Thread}
    (left : area source) (inside : area target) : Touches s (s'.settle source target) area :=
  { touches with
    place := by
      intro task outside
      have same := touches.place task outside
      have different : s'.place task ≠ source := fun was => outside (same ▸ was ▸ left)
      rw [State.settle_place, if_neg different]
      exact same
    kept := by
      intro task before
      rw [State.settle_place]
      split
      · exact inside
      · exact touches.kept task before }

omit [DecidableEq Thread] in
theorem setMutex (touches : Touches s s' area) (mine : area (.list name))
    (holder : Option Thread) :
    Touches s { s' with rawMutex := Function.update s'.rawMutex name holder } area :=
  { touches with
    rawMutex := by
      intro other outside
      have different : other ≠ name := fun same => outside (same ▸ mine)
      exact (Function.update_of_ne different holder s'.rawMutex).trans
        (touches.rawMutex other outside) }

end Touches

def Stroke (name : Name) (thread : Thread) (place : Place Name Thread) : Prop :=
  place = .list name ∨ place = .call thread

omit [DecidableEq Name] [DecidableEq Thread] in
theorem stroke_list (name : Name) (thread : Thread) : Stroke name thread (.list name) := .inl rfl

omit [DecidableEq Name] [DecidableEq Thread] in
theorem stroke_call (name : Name) (thread : Thread) : Stroke name thread (.call thread) := .inr rfl

omit [DecidableEq Name] [DecidableEq Thread] in
theorem Represents.stroke (related : Represents s a)
    (touches : Touches s s' (Stroke name thread))
    (holder : ∀ other, s.rawMutex name = some other → other = thread)
    (mine : ∀ other, s.rawMutex other = some thread → other = name)
    (shared : ∀ other, other ≠ name → a'.shared other = a.shared other)
    (phases : ∀ other, other ≠ thread → a'.phase other = a.phase other)
    (sound : Sound s' name (a'.shared name))
    (agrees : Agrees s' a'.shared thread (a'.phase thread) (s'.pc thread)) : Represents s' a' := by
  refine related.frame touches ?_ ?_ ?_ ?_ ?_
  · intro other owner held
    constructor
    · intro listed
      rcases listed with same | same
      · cases same
        exact .inr (congrArg Place.call (holder owner held))
      · cases same
    · intro called
      rcases called with same | same
      · cases same
      · cases same
        exact .inl (congrArg Place.list (mine other held))
  · exact fun other outside => shared other (fun same => outside (same ▸ stroke_list _ _))
  · exact fun other outside => phases other (fun same => outside (same ▸ stroke_call _ _))
  · intro other listed
    rcases listed with same | same
    · cases same
      exact sound
    · cases same
  · intro other called
    rcases called with same | same
    · cases same
    · cases same
      exact agrees

omit [DecidableEq Name] [DecidableEq Thread] in
theorem Represents.unique (related : Represents s a) (here : s.pc thread = .inside name spot)
    {other : Name} (held : s.rawMutex other = some thread) : other = name := by
  obtain ⟨there, inside⟩ := (related.lists other).held thread held
  rw [here] at inside
  cases inside
  rfl

/-- The run of the atomic lists that a step amounts to, with nothing to see. -/
def Follows (s' : State Name Thread) (a : Spec Name Thread) : Prop :=
  ∃ run a', (Atomic.system Queues.machine (fun _ => [])).exec a run = some a' ∧
    run.filterMap atomicEvent? = [] ∧ Represents s' a'

theorem Represents.follows (related : Represents s' a) : Follows s' a :=
  ⟨[], a, rfl, rfl, related⟩

theorem Represents.stays (related : Represents s a) (here : s.pc thread = .inside name spot)
    (touches : Touches s s' (Stroke name thread)) (still : s'.rawMutex = s.rawMutex)
    (there : s'.pc thread = .inside name next) (place : s'.place = s.place)
    (head : (s'.lists name).head = (s.lists name).head)
    (inside : Inside s' thread name (a.shared name) (a.phase thread) next) : Follows s' a := by
  have held := (related.opened here).1
  have only : ∀ other, s.rawMutex name = some other → other = thread :=
    fun other also => Option.some.inj (also.symm.trans held)
  apply Represents.follows
  refine related.stroke touches only (fun _ => related.unique here) (fun _ _ => rfl)
    (fun _ _ => rfl) ⟨?_, ?_, ?_, ?_⟩ ?_
  · rw [place]
    exact (related.lists name).member
  · rw [head]
    exact (related.lists name).head
  · intro free
    rw [still, held] at free
    cases free
  · intro other also
    rw [still] at also
    rw [only other also]
    exact ⟨next, there⟩
  · rw [there]
    exact ⟨by rw [still]; exact held, inside⟩

/-- The operation takes effect on the list that the thread is inside of. -/
theorem Represents.effect (related : Represents s a) (here : s.pc thread = .inside name spot)
    (touches : Touches s s' (Stroke name thread)) (still : s'.rawMutex = s.rawMutex)
    (there : s'.pc thread = .inside name next) {op : Op Name} {answer : Reply (List TaskRef)}
    (called : a.phase thread = .called op)
    (answers : Queues.step a.shared op = some (answer, Function.update a.shared name tasks))
    (member : ∀ task, task ∈ tasks ↔ s'.place task = .list name)
    (head : (s'.lists name).head = tasks.head?)
    (inside : Inside s' thread name tasks (.answered answer) next) : Follows s' a := by
  have held := (related.opened here).1
  have only : ∀ other, s.rawMutex name = some other → other = thread :=
    fun other also => Option.some.inj (also.symm.trans held)
  refine ⟨[.effect thread op answer],
    { a.enter thread (.answered answer) with shared := Function.update a.shared name tasks },
    Atomic.exec_single (Atomic.step_effect called answers), rfl, ?_⟩
  refine related.stroke touches only (fun _ => related.unique here) ?_ ?_ ⟨?_, ?_, ?_, ?_⟩ ?_
  · exact fun other different => Function.update_of_ne different _ _
  · exact fun other different => Function.update_of_ne different _ _
  · dsimp only
    rw [Function.update_self]
    exact member
  · dsimp only
    rw [Function.update_self]
    exact head
  · intro free
    rw [still, held] at free
    cases free
  · intro other also
    rw [still] at also
    rw [only other also]
    exact ⟨next, there⟩
  · have answered : Function.update a.phase thread (.answered answer) thread = .answered answer :=
      Function.update_self ..
    have listed : Function.update a.shared name tasks name = tasks := Function.update_self ..
    dsimp only [Atomic.Object.enter]
    rw [there, answered]
    refine ⟨by rw [still]; exact held, ?_⟩
    rw [listed]
    exact inside

omit [DecidableEq Name] [DecidableEq Thread] in
theorem carries_nil (s : State Name Thread) (thread : Thread) : Carries s thread [] :=
  ⟨Segment.empty s.next, fun _ member => absurd member List.not_mem_nil⟩

omit [DecidableEq Name] [DecidableEq Thread] in
private theorem carries_single {task : TaskRef} (own : s.place task = .call thread) :
    Carries s thread [task] := by
  refine ⟨Segment.single s.next task, ?_⟩
  intro other member
  rw [List.mem_singleton.mp member]
  exact own

omit [DecidableEq Name] [DecidableEq Thread] in
theorem Sound.apart (sound : Sound s name tasks) (carries : Carries s thread batch) :
    tasks.Disjoint batch := by
  intro task listed mine
  have here := (sound.member task).mp listed
  rw [carries.own task mine] at here
  cases here

omit [DecidableEq Name] [DecidableEq Thread] in
theorem Sound.joined (sound : Sound s name tasks) {order : List TaskRef}
    (all : ∀ task, task ∈ order ↔ task ∈ tasks ∨ task ∈ batch) (task : TaskRef) :
    task ∈ order ↔ (s.move batch (.list name)).place task = .list name := by
  rw [all, State.move_place, sound.member task]
  by_cases mine : task ∈ batch
  · rw [if_pos mine]
    exact ⟨fun _ => rfl, fun _ => .inr mine⟩
  · rw [if_neg mine]
    exact or_iff_left mine

omit [DecidableEq Name] [DecidableEq Thread] in
theorem Sound.left {head : TaskRef} {rest : List TaskRef} (sound : Sound s name (head :: rest))
    (distinct : (head :: rest).Nodup) (task : TaskRef) :
    task ∈ rest ↔ (s.move [head] (.call thread)).place task = .list name := by
  rw [State.move_place]
  by_cases first : task = head
  · rw [if_pos (List.mem_singleton.mpr first), first]
    exact ⟨fun later => absurd later (List.nodup_cons.mp distinct).1,
      fun impossible => nomatch impossible⟩
  · rw [if_neg (fun member => first (List.mem_singleton.mp member)), ← sound.member task,
      List.mem_cons, or_iff_right first]

theorem Represents.loads (related : Represents s a) (here : s.pc thread = .inside name spot)
    (inside : Inside s thread name (a.shared name) (a.phase thread) next) :
    Follows (s.goto thread (.inside name next)) a := by
  refine related.stays here ?_ rfl (Function.update_self ..) rfl rfl ?_
  · exact (Touches.refl s _).goto (stroke_call name thread) _
  · exact inside.frame (fun task => ((related.lists name).member task).mp) rfl (fun _ _ => rfl)
      (fun _ own => ⟨rfl, own⟩)

private theorem pushBack_follows (related : Represents s a)
    (here : s.pc thread = .inside name (.pushBack batch))
    (moved : inside s thread name (.pushBack batch) = some s') : Follows s' a := by
  obtain ⟨_held, waiting, holds⟩ := related.opened here
  rw [inside] at moved
  cases last : (s.lists name).tail with
  | none =>
      rw [last] at moved
      cases moved
      exact related.loads here ⟨waiting, holds, last⟩
  | some tail =>
      rw [last] at moved
      cases moved
      exact related.loads here ⟨waiting, holds, last⟩

private theorem linkTail_follows (related : Represents s a) {tail : TaskRef}
    (here : s.pc thread = .inside name (.linkTail batch tail))
    (moved : inside s thread name (.linkTail batch tail) = some s') : Follows s' a := by
  obtain ⟨_held, ⟨called, nonempty, carries⟩, holds, last⟩ := related.opened here
  have sound := related.lists name
  have answers : Queues.step a.shared (.pushBackBatch name batch) =
      some (.done, Function.update a.shared name (a.shared name ++ batch)) := rfl
  have listed : tail ∈ a.shared name := by
    rw [holds.tail_eq] at last
    exact List.mem_of_getLast? last
  have joined : Segment (setNext s.next tail (ends batch).head) (s.lists name).head
      (ends batch).tail (a.shared name ++ batch) := by
    obtain ⟨first, rest, starting⟩ := List.exists_cons_of_ne_nil nonempty
    have head : (ends batch).head = some first := by rw [ends, starting]; rfl
    have linked := carries.linked
    rw [TaskList.Holds, head] at linked
    rw [TaskList.Holds, last] at holds
    rw [head]
    exact holds.join linked (sound.apart carries)
  cases moved
  refine related.effect here ?_ rfl (Function.update_self ..) called answers
    (sound.joined (fun _ => List.mem_append)) ?_ ⟨rfl, joined⟩
  · apply ((Touches.refl s _).setLink (.inl ((sound.member tail).mp listed)) _).move ?_
      (stroke_list name thread) |>.goto (stroke_call name thread)
    exact fun task mine => .inr (carries.own task mine)
  · exact sound.head.trans (List.head?_append_of_ne_nil _ (List.ne_nil_of_mem listed)).symm

private theorem fillHead_follows (related : Represents s a)
    (here : s.pc thread = .inside name (.fillHead batch))
    (moved : inside s thread name (.fillHead batch) = some s') : Follows s' a := by
  obtain ⟨_held, ⟨called, _nonempty, carries⟩, holds, none⟩ := related.opened here
  have sound := related.lists name
  have empty := holds.tail_eq_none.mp none
  have answers : Queues.step a.shared (.pushBackBatch name batch) =
      some (.done, Function.update a.shared name batch) := by
    rw [Queues.step, empty, List.nil_append]
  have stored := s.setHead_head name (ends batch).head
  have linked : Segment s.next (ends batch).head (ends batch).tail batch := carries.linked
  rw [← stored] at linked
  rw [empty] at sound
  cases moved
  refine related.effect here ?_ rfl (Function.update_self ..) called answers
    (sound.joined (fun _ => (or_iff_right List.not_mem_nil).symm)) stored ⟨rfl, linked⟩
  exact (((Touches.refl s _).setHead (stroke_list name thread) _).move
    (fun task mine => .inr (carries.own task mine)) (stroke_list name thread)).goto
      (stroke_call name thread) _

private theorem storeTail_follows (related : Represents s a)
    (here : s.pc thread = .inside name (.storeTail batch))
    (moved : inside s thread name (.storeTail batch) = some s') : Follows s' a := by
  obtain ⟨_held, answered, segment⟩ := related.opened here
  cases moved
  refine related.stays here ?_ rfl (Function.update_self ..) rfl (s.setTail_head name _)
    ⟨⟨.done, answered, rfl, carries_nil _ _⟩, State.holds_setTail segment⟩
  exact ((Touches.refl s _).setTail (stroke_list name thread) _).goto (stroke_call name thread) _

private theorem pushFront_follows (related : Represents s a)
    (here : s.pc thread = .inside name (.pushFront batch))
    (moved : inside s thread name (.pushFront batch) = some s') : Follows s' a := by
  obtain ⟨_held, waiting, holds⟩ := related.opened here
  rw [inside] at moved
  cases first : (s.lists name).head with
  | none =>
      rw [first] at moved
      cases moved
      exact related.loads here ⟨waiting, holds, first⟩
  | some head =>
      rw [first] at moved
      cases moved
      exact related.loads here ⟨waiting, holds, first⟩

private theorem linkBatch_follows (related : Represents s a) {head : TaskRef}
    (here : s.pc thread = .inside name (.linkBatch batch head))
    (moved : inside s thread name (.linkBatch batch head) = some s') : Follows s' a := by
  obtain ⟨_held, ⟨called, _nonempty, carries⟩, holds, first⟩ := related.opened here
  obtain ⟨tail, last, moved⟩ := Option.map_eq_some_iff.mp moved
  have mine : s.place tail = .call thread := carries.own tail (List.mem_of_getLast? last)
  have joined : Segment (setNext s.next tail (some head)) (ends batch).head (s.lists name).tail
      (batch ++ a.shared name) := by
    have linked := carries.linked
    rw [TaskList.Holds, last] at linked
    rw [TaskList.Holds, first] at holds
    exact linked.join holds (List.disjoint_symm ((related.lists name).apart carries))
  cases moved
  refine related.stays here ?_ rfl (Function.update_self ..) rfl rfl
    ⟨called, carries.own, joined⟩
  exact ((Touches.refl s _).setLink (.inr mine) _).goto (stroke_call name thread) _

private theorem fillTail_follows (related : Represents s a)
    (here : s.pc thread = .inside name (.fillTail batch))
    (moved : inside s thread name (.fillTail batch) = some s') : Follows s' a := by
  obtain ⟨_held, ⟨called, _nonempty, carries⟩, holds, none⟩ := related.opened here
  have joined : Segment s.next (ends batch).head
      ((s.setTail name (ends batch).tail).lists name).tail (batch ++ a.shared name) := by
    rw [holds.head_eq_none.mp none, List.append_nil, State.setTail_lists, Function.update_self]
    exact carries.linked
  cases moved
  refine related.stays here ?_ rfl (Function.update_self ..) rfl (s.setTail_head name _)
    ⟨called, carries.own, joined⟩
  exact ((Touches.refl s _).setTail (stroke_list name thread) _).goto (stroke_call name thread) _

private theorem storeHead_follows (related : Represents s a)
    (here : s.pc thread = .inside name (.storeHead batch))
    (moved : inside s thread name (.storeHead batch) = some s') : Follows s' a := by
  obtain ⟨_held, called, own, segment⟩ := related.opened here
  have sound := related.lists name
  have answers : Queues.step a.shared (.pushFrontBatch name batch) =
      some (.done, Function.update a.shared name (batch ++ a.shared name)) := rfl
  have head := (s.setHead_head name _).trans segment.head_eq
  cases moved
  refine related.effect here ?_ rfl (Function.update_self ..) called answers
    (sound.joined (fun _ => List.mem_append.trans or_comm)) head
    ⟨⟨.done, rfl, rfl, carries_nil _ _⟩, State.holds_setHead segment⟩
  exact (((Touches.refl s _).setHead (stroke_list name thread) _).move
    (fun task mine => .inr (own task mine)) (stroke_list name thread)).goto
      (stroke_call name thread) _

private theorem popFront_follows (related : Represents s a)
    (here : s.pc thread = .inside name .popFront)
    (moved : inside s thread name .popFront = some s') : Follows s' a := by
  obtain ⟨_held, called, holds⟩ := related.opened here
  rw [inside] at moved
  cases first : (s.lists name).head with
  | none =>
      have empty := holds.head_eq_none.mp first
      have answers : Queues.step a.shared (.popFront name) =
          some (.popped none, Function.update a.shared name []) := by
        rw [Queues.step, empty]
        rfl
      have sound := related.lists name
      rw [empty] at sound holds
      rw [first] at moved
      cases moved
      refine related.effect here ?_ rfl (Function.update_self ..) called answers sound.member
        sound.head ⟨⟨_, rfl, rfl, carries_nil _ _⟩, holds⟩
      exact (Touches.refl s _).goto (stroke_call name thread) _
  | some head =>
      rw [first] at moved
      cases moved
      exact related.loads here ⟨called, holds, first⟩

private theorem loadTail_follows (related : Represents s a) {head : TaskRef}
    (here : s.pc thread = .inside name (.loadTail head))
    (moved : inside s thread name (.loadTail head) = some s') : Follows s' a := by
  obtain ⟨_held, called, holds, first⟩ := related.opened here
  cases moved
  by_cases single : some head = (s.lists name).tail
  · rw [if_pos single]
    exact related.loads here ⟨called, holds, first, single.symm⟩
  · rw [if_neg single]
    exact related.loads here ⟨called, holds, first, fun same => single same.symm⟩

private theorem clearHead_follows (related : Represents s a) {head : TaskRef}
    (here : s.pc thread = .inside name (.clearHead head))
    (moved : inside s thread name (.clearHead head) = some s') : Follows s' a := by
  obtain ⟨_held, called, holds, first, last⟩ := related.opened here
  have sound := related.lists name
  rw [TaskList.Holds, first] at holds
  obtain ⟨rest, starting, single, _linked⟩ := holds.rest
  rw [single.mp last] at starting
  have answers : Queues.step a.shared (.popFront name) =
      some (.popped (some head), Function.update a.shared name []) := by
    rw [Queues.step, starting]
    rfl
  have own : (s.move [head] (.call thread)).place head = .call thread :=
    if_pos List.mem_cons_self
  rw [starting] at sound
  cases moved
  refine related.effect here ?_ rfl (Function.update_self ..) called answers
    (sound.left (List.nodup_singleton head)) (s.setHead_head name _) ⟨rfl, own, rfl⟩
  refine (((Touches.refl s _).setHead (stroke_list name thread) _).move ?_
    (stroke_call name thread)).goto (stroke_call name thread) _
  exact fun task member => .inl ((sound.member task).mp member)

private theorem clearTail_follows (related : Represents s a) {head : TaskRef}
    (here : s.pc thread = .inside name (.clearTail head))
    (moved : inside s thread name (.clearTail head) = some s') : Follows s' a := by
  obtain ⟨_held, answered, own, empty⟩ := related.opened here
  have segment : Segment s.next (s.lists name).head none (a.shared name) := by
    rw [(related.lists name).head, empty]
    exact Segment.empty s.next
  cases moved
  refine related.stays here ?_ rfl (Function.update_self ..) rfl (s.setTail_head name _)
    ⟨⟨_, answered, rfl, carries_single own⟩, State.holds_setTail segment⟩
  exact ((Touches.refl s _).setTail (stroke_list name thread) _).goto (stroke_call name thread) _

private theorem advance_follows (related : Represents s a) {head : TaskRef} {link : Option TaskRef}
    (here : s.pc thread = .inside name (.advance head link))
    (moved : inside s thread name (.advance head link) = some s') : Follows s' a := by
  obtain ⟨_held, called, holds, first, several, loaded⟩ := related.opened here
  have sound := related.lists name
  have distinct := holds.distinct
  rw [TaskList.Holds, first] at holds
  obtain ⟨rest, starting, single, linked⟩ := holds.rest
  have linked := linked (fun none => several (single.mpr none))
  rw [← loaded] at linked
  have answers : Queues.step a.shared (.popFront name) =
      some (.popped (some head), Function.update a.shared name rest) := by
    rw [Queues.step, starting]
    rfl
  have own : (s.move [head] (.call thread)).place head = .call thread :=
    if_pos List.mem_cons_self
  have head_eq := (s.setHead_head name _).trans linked.head_eq
  rw [starting] at sound distinct
  cases moved
  refine related.effect here ?_ rfl (Function.update_self ..) called answers
    (sound.left distinct) head_eq
    ⟨⟨_, rfl, rfl, carries_single own⟩, State.holds_setHead linked⟩
  refine (((Touches.refl s _).setHead (stroke_list name thread) _).move ?_
    (stroke_call name thread)).goto (stroke_call name thread) _
  intro task member
  rw [List.mem_singleton.mp member]
  exact .inl ((sound.member head).mp List.mem_cons_self)

private theorem takeAll_follows (related : Represents s a)
    (here : s.pc thread = .inside name .takeAll)
    (moved : inside s thread name .takeAll = some s') : Follows s' a := by
  obtain ⟨_held, called, holds⟩ := related.opened here
  have sound := related.lists name
  have tested := TaskList.isEmpty_iff holds
  cases moved
  cases empty : (s.lists name).isEmpty with
  | true =>
      have none : a.shared name = [] := List.isEmpty_iff.mp (tested.symm.trans empty)
      have answers : Queues.step a.shared (.takeAll name) =
          some (.taken [], Function.update a.shared name []) := by
        rw [Queues.step, none]
      rw [none] at sound holds
      refine related.effect here ?_ rfl (Function.update_self ..) called answers sound.member
        sound.head ⟨⟨_, rfl, rfl, carries_nil _ _⟩, holds⟩
      exact (Touches.refl s _).goto (stroke_call name thread) _
  | false => exact related.loads here ⟨called, holds⟩

private theorem dropHead_follows (related : Represents s a) {taken : TaskList}
    (here : s.pc thread = .inside name (.dropHead taken))
    (moved : inside s thread name (.dropHead taken) = some s') : Follows s' a := by
  obtain ⟨_held, called, holds, loaded⟩ := related.opened here
  have sound := related.lists name
  have answers : Queues.step a.shared (.takeAll name) =
      some (.taken (a.shared name), Function.update a.shared name []) := rfl
  have shown : taken = ends (a.shared name) := by
    rw [loaded, ends, ← holds.head_eq, ← holds.tail_eq]
  have linked : (ends (a.shared name)).Holds s.next (a.shared name) := by
    rw [← shown, loaded]
    exact holds
  have own : ∀ task ∈ a.shared name,
      (s.settle (.list name) (.call thread)).place task = .call thread :=
    fun task member => if_pos ((sound.member task).mp member)
  have member : ∀ task, task ∈ [] ↔
      (s.settle (.list name) (.call thread)).place task = .list name := by
    intro task
    rw [State.settle_place]
    split
    · exact ⟨fun none => absurd none List.not_mem_nil, fun impossible => nomatch impossible⟩
    · exact ⟨fun none => absurd none List.not_mem_nil, fun listed => absurd listed ‹_›⟩
  cases moved
  refine related.effect here ?_ rfl (Function.update_self ..) called answers member
    (s.setHead_head name _) ⟨_, rfl, shown, ⟨linked, own⟩, rfl⟩
  exact (((Touches.refl s _).setHead (stroke_list name thread) _).settle
    (stroke_list name thread) (stroke_call name thread)).goto (stroke_call name thread) _

private theorem dropTail_follows (related : Represents s a) {taken : TaskList}
    (here : s.pc thread = .inside name (.dropTail taken))
    (moved : inside s thread name (.dropTail taken) = some s') : Follows s' a := by
  obtain ⟨_held, tasks, answered, shown, ⟨linked, own⟩, empty⟩ := related.opened here
  have segment : Segment s.next (s.lists name).head none (a.shared name) := by
    rw [(related.lists name).head, empty]
    exact Segment.empty s.next
  have reply : Reply.taken taken = Reply.ends (.taken tasks) := congrArg Reply.taken shown
  cases moved
  refine related.stays here ?_ rfl (Function.update_self ..) rfl (s.setTail_head name _)
    ⟨⟨_, answered, reply, linked, own⟩, State.holds_setTail segment⟩
  exact ((Touches.refl s _).setTail (stroke_list name thread) _).goto (stroke_call name thread) _

private theorem unlock_follows (related : Represents s a) {reply : Reply TaskList}
    (here : s.pc thread = .inside name (.unlock reply))
    (moved : inside s thread name (.unlock reply) = some s') : Follows s' a := by
  obtain ⟨held, ⟨answer, answered, shown, linked, own⟩, holds⟩ := related.opened here
  have sound := related.lists name
  have only : ∀ other, s.rawMutex name = some other → other = thread :=
    fun other also => Option.some.inj (also.symm.trans held)
  have there : (s.goto thread (.returning reply)).pc thread = .returning reply :=
    Function.update_self ..
  cases moved
  apply Represents.follows
  refine related.stroke ?_ only (fun _ => related.unique here) (fun _ _ => rfl) (fun _ _ => rfl)
    ⟨sound.member, sound.head, fun _ => holds, ?_⟩ ?_
  · exact ((Touches.refl s _).goto (stroke_call name thread) _).setMutex
      (stroke_list name thread) none
  · intro other held
    cases (Function.update_self name none s.rawMutex).symm.trans held
  · rw [there]
    exact ⟨answer, answered, shown, linked, own⟩

/-- The access that a thread goes on to make with the lock held. -/
theorem inside_follows (related : Represents s a) (here : s.pc thread = .inside name spot)
    (moved : inside s thread name spot = some s') : Follows s' a := by
  cases spot with
  | pushBack batch => exact pushBack_follows related here moved
  | linkTail batch tail => exact linkTail_follows related here moved
  | fillHead batch => exact fillHead_follows related here moved
  | storeTail batch => exact storeTail_follows related here moved
  | pushFront batch => exact pushFront_follows related here moved
  | linkBatch batch head => exact linkBatch_follows related here moved
  | fillTail batch => exact fillTail_follows related here moved
  | storeHead batch => exact storeHead_follows related here moved
  | popFront => exact popFront_follows related here moved
  | loadTail head => exact loadTail_follows related here moved
  | clearHead head => exact clearHead_follows related here moved
  | clearTail head => exact clearTail_follows related here moved
  | loadNext head =>
      obtain ⟨_held, called, holds, first, several⟩ := related.opened here
      cases moved
      exact related.loads here ⟨called, holds, first, several, rfl⟩
  | advance head link => exact advance_follows related here moved
  | takeAll => exact takeAll_follows related here moved
  | takeHead =>
      obtain ⟨_held, called, holds⟩ := related.opened here
      cases moved
      exact related.loads here ⟨called, holds, rfl⟩
  | takeTail head =>
      obtain ⟨_held, called, holds, loaded⟩ := related.opened here
      cases moved
      exact related.loads here ⟨called, holds, by rw [loaded]⟩
  | dropHead taken => exact dropHead_follows related here moved
  | dropTail taken => exact dropTail_follows related here moved
  | unlock reply => exact unlock_follows related here moved

end Yaay.SyncTaskList
