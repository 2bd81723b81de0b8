import Yaay.Runtime.TaskSystem

set_option autoImplicit false

/-! The abstract life of a task: at every moment it is in exactly one place, and
the place fixes its status word, its history and its reference count. The
concrete lists and threads refine the place of every task. -/

namespace Yaay.TaskSystem

variable {cfg : Config}

inductive Holder (cfg : Config)
  | list (list : ListId cfg)
  | frame (thread : Fin cfg.threads)
  | call (thread : Fin cfg.threads)
  deriving DecidableEq

/-- `retired`: the runtime gave up its reference while owned wakers remain. -/
inductive Place (cfg : Config)
  | unborn
  | idle
  | held (holder : Holder cfg)
  | retired
  | freed
  deriving DecidableEq

def Frame.held : Frame → List TaskRef
  | .idle | .dead => []
  | .stolen task | .popped task | .cleared task | .polling task | .pending task _
  | .ready task | .retiring task _ | .dropping task _ | .releasing task
  | .deallocating task _ | .tearing task | .dropInPlace task | .checkRc task
  | .unwinding task => [task]

def Call.held : Call cfg → List TaskRef
  | .placing task _ _ _ | .push task _ | .dealloc task => [task]
  | .none | .wake _ _ | .nextEpoch _ _ | .rcDec _ _ | .pushBatch _ _ _ => []

/-- The task that a call is about, held by it or not. -/
def Call.subject : Call cfg → List TaskRef
  | .placing task _ _ _ | .push task _ | .dealloc task | .wake task _
  | .nextEpoch task _ | .rcDec task _ => [task]
  | .none | .pushBatch _ _ _ => []

def State.content (s : State cfg) : Holder cfg → List TaskRef
  | .list list => s.lists list
  | .frame thread => (s.frame thread).held
  | .call thread => (s.call thread).held

/-- How often the future was dropped in place, whether the runtime gave up its
reference, and how often the memory was deallocated. -/
structure Lifetime (history : History) (drops : Nat) (released : Bool)
    (deallocs : Nat) : Prop where
  created : history.created = true
  drops_eq : history.drops = drops
  released_eq : history.released = released
  deallocs_eq : history.deallocs = deallocs

def Live (history : History) : Prop :=
  Lifetime history 0 false 0 ∧ history.ready = false

def Frame.Settled (status : BitVec 8) (history : History) : Frame → Prop
  | .stolen _ | .popped _ | .tearing _ | .dropInPlace _ =>
      Live history ∧ Task.Scheduled status
  | .cleared _ => Live history ∧ Task.Held status
  | .polling _ | .pending _ _ =>
      Live history ∧ Task.Held status ∧
        (history.woken = true → Task.Scheduled status)
  | .ready _ => Lifetime history 0 false 0 ∧ history.ready = true ∧ Task.Held status
  | .retiring _ _ => Lifetime history 0 false 0 ∧ Task.Retired status
  | .dropping _ _ | .checkRc _ | .releasing _ =>
      Lifetime history 1 false 0 ∧ Task.Retired status
  | .deallocating _ _ =>
      Lifetime history 1 true 0 ∧ Task.Retired status ∧ history.wakers = []
  | .idle | .dead | .unwinding _ => False

def Call.Settled (status : BitVec 8) (history : History) : Call cfg → Prop
  | .placing _ _ _ _ | .push _ _ => Live history ∧ Task.Scheduled status
  | .dealloc _ => Lifetime history 1 true 0 ∧ Task.Retired status ∧ history.wakers = []
  | .none | .wake _ _ | .nextEpoch _ _ | .rcDec _ _ | .pushBatch _ _ _ => False

def Settled (s : State cfg) (task : TaskRef) : Place cfg → Prop
  | .unborn => s.history task = {}
  | .idle =>
      Live (s.history task) ∧ (s.tasks task).status = Task.idleStatus ∧
        (s.history task).woken = false
  | .held (.list _) => Live (s.history task) ∧ Task.Scheduled (s.tasks task).status
  | .held (.frame thread) =>
      (s.frame thread).Settled (s.tasks task).status (s.history task)
  | .held (.call thread) =>
      (s.call thread).Settled (s.tasks task).status (s.history task)
  | .retired =>
      Lifetime (s.history task) 1 true 0 ∧ Task.Retired (s.tasks task).status ∧
        (s.history task).wakers ≠ []
  | .freed =>
      Lifetime (s.history task) 1 true 1 ∧ Task.Retired (s.tasks task).status ∧
        (s.history task).wakers = []

def Counts (s : State cfg) (task : TaskRef) (place : Place cfg) : Prop :=
  ∀ holder, (s.content holder).count task = if place = .held holder then 1 else 0

def runtimeRefs (history : History) : Nat := if history.released then 0 else 1

/-- The owned wakers that calls go through exist, one that is being given up is
used by no other call, and a lent waker belongs to a poll that still runs. -/
structure Borrows (s : State cfg) (task : TaskRef) : Prop where
  owned : ∀ thread waker, (s.call thread).uses task waker = true →
    waker ∈ (s.history task).wakers
  exclusive : ∀ thread other waker, (s.call thread).consumes task waker = true →
    other ≠ thread → (s.call other).uses task waker = false
  lent : ∀ thread worker, (s.call thread).lentBy task worker = true →
    (s.frame worker).polls task = true

structure Located (s : State cfg) (task : TaskRef) (place : Place cfg) : Prop where
  counts : Counts s task place
  settled : Settled s task place
  counted : place ≠ .unborn →
    (s.tasks task).rc = runtimeRefs (s.history task) + (s.history task).wakers.length
  borrows : Borrows s task

def Inv (s : State cfg) : Prop := ∀ task, ∃ place, Located s task place

/-- The frame is unwinding out of the poll, or about to free memory that no waker
refers to. -/
def Frame.Wrecked (history : History) : Frame → Prop
  | .unwinding _ => True
  | .deallocating _ _ => history.wakers = []
  | _ => False

def Call.Wrecked (history : History) : Call cfg → Prop
  | .dealloc _ => history.wakers = []
  | _ => False

/-- `retired`: only owned wakers refer to the task, which no thread will poll again. -/
def Wrecked (s : State cfg) (task : TaskRef) : Place cfg → Prop
  | .held (.frame thread) => (s.frame thread).Wrecked (s.history task)
  | .held (.call thread) => (s.call thread).Wrecked (s.history task)
  | .retired => (s.history task).wakers ≠ []
  | .freed => (s.history task).wakers = []
  | .unborn | .idle | .held (.list _) => False

/-- How the task fares: no poll of it has panicked, one is unwinding, or one has. -/
inductive Condition
  | whole
  | unwinding
  | ruined
  deriving DecidableEq

/-- The reference that the unwinding is still to take from the count. -/
def Condition.owed : Condition → Nat
  | .unwinding => 1
  | .whole | .ruined => 0

def Frame.condition : Frame → Condition
  | .unwinding _ => .unwinding
  | _ => .ruined

def condition (s : State cfg) : Place cfg → Condition
  | .held (.frame thread) => (s.frame thread).condition
  | _ => .ruined

theorem condition_ne_whole (s : State cfg) (place : Place cfg) : condition s place ≠ .whole := by
  cases place with
  | held holder =>
      cases holder with
      | frame thread =>
          rw [condition]
          cases s.frame thread <;> exact Condition.noConfusion
      | list | call => exact Condition.noConfusion
  | unborn | idle | retired | freed => exact Condition.noConfusion

/-- The poll of the task has panicked. Its future is not dropped, and once the lent
waker is gone only the owned wakers are counted. -/
structure Ruined (s : State cfg) (task : TaskRef) (place : Place cfg) : Prop where
  counts : Counts s task place
  wrecked : Wrecked s task place
  lifetime : Lifetime (s.history task) 0 false (if place = .freed then 1 else 0)
  held : Task.Held (s.tasks task).status
  counted : (s.tasks task).rc = (condition s place).owed + (s.history task).wakers.length
  borrows : Borrows s task

/-- What has become of a task, among the conditions that a run leaves open. -/
inductive Fate (among : Condition → Prop) (s : State cfg) (task : TaskRef) : Prop
  | placed (place : Place cfg) (whole : among .whole) (located : Located s task place)
  | ruined (place : Place cfg) (broken : among (condition s place)) (ruin : Ruined s task place)

theorem Counts.place_of_mem {s : State cfg} {task : TaskRef} {place : Place cfg}
    (counts : Counts s task place) {holder : Holder cfg}
    (member : task ∈ s.content holder) : place = .held holder := by
  have positive : 0 < (s.content holder).count task := List.count_pos_iff.mpr member
  rw [counts holder] at positive
  by_cases same : place = .held holder
  · exact same
  · rw [if_neg same] at positive
    omega

theorem Counts.mem_of_held {s : State cfg} {task : TaskRef} {holder : Holder cfg}
    (counts : Counts s task (.held holder)) : task ∈ s.content holder := by
  apply List.count_pos_iff.mp
  rw [counts holder, if_pos rfl]
  exact Nat.one_pos

theorem Counts.place_of_frame {s : State cfg} {task : TaskRef} {place : Place cfg}
    (counts : Counts s task place) {thread : Fin cfg.threads}
    (member : task ∈ (s.frame thread).held) : place = .held (.frame thread) :=
  counts.place_of_mem (show task ∈ s.content (.frame thread) from member)

theorem Counts.place_of_call {s : State cfg} {task : TaskRef} {place : Place cfg}
    (counts : Counts s task place) {thread : Fin cfg.threads}
    (member : task ∈ (s.call thread).held) : place = .held (.call thread) :=
  counts.place_of_mem (show task ∈ s.content (.call thread) from member)

theorem Counts.place_of_list {s : State cfg} {task : TaskRef} {place : Place cfg}
    (counts : Counts s task place) {list : ListId cfg}
    (member : task ∈ s.lists list) : place = .held (.list list) :=
  counts.place_of_mem (show task ∈ s.content (.list list) from member)

theorem Call.held_subject {call : Call cfg} {task : TaskRef}
    (other : task ∉ call.subject) : task ∉ call.held := by
  cases call <;> simp_all [Call.subject, Call.held]

theorem Call.uses_subject {call : Call cfg} {task : TaskRef} (waker : Nat)
    (other : task ∉ call.subject) : call.uses task waker = false := by
  cases call with
  | wake held via | push held via | nextEpoch held via =>
      have different : held ≠ task := fun same => other (by simp [Call.subject, same])
      cases via <;> simp [Call.uses, different]
  | rcDec held name =>
      have different : held ≠ task := fun same => other (by simp [Call.subject, same])
      simp [Call.uses, different]
  | none | placing | dealloc | pushBatch => rfl

theorem Call.consumes_uses {call : Call cfg} {task : TaskRef} {waker : Nat}
    (consumed : call.consumes task waker = true) : call.uses task waker = true := by
  cases call with
  | wake held via | push held via | nextEpoch held via =>
      cases via with
      | byValue name => exact consumed
      | lent | byRef => cases consumed
  | rcDec held name => exact consumed
  | none | placing | dealloc | pushBatch => exact consumed

theorem Call.consumes_subject {call : Call cfg} {task : TaskRef} (waker : Nat)
    (other : task ∉ call.subject) : call.consumes task waker = false := by
  have unused := call.uses_subject waker other
  cases consumed : call.consumes task waker with
  | false => rfl
  | true => rw [Call.consumes_uses consumed] at unused; cases unused

theorem Call.lentBy_subject {call : Call cfg} {task : TaskRef} (worker : Fin cfg.threads)
    (other : task ∉ call.subject) : call.lentBy task worker = false := by
  cases call with
  | wake held via | push held via | nextEpoch held via =>
      have different : held ≠ task := fun same => other (by simp [Call.subject, same])
      cases via <;> simp [Call.lentBy, different]
  | none | placing | dealloc | pushBatch | rcDec => rfl

theorem Frame.polls_held {frame : Frame} {task : TaskRef}
    (polls : frame.polls task = true) : frame = .polling task := by
  cases frame <;> simp_all [Frame.polls]

structure Untouched (s next : State cfg) (task : TaskRef) : Prop where
  counts : ∀ holder, (next.content holder).count task = (s.content holder).count task
  header : next.tasks task = s.tasks task
  history : next.history task = s.history task
  frames : ∀ thread, task ∈ (s.frame thread).held → next.frame thread = s.frame thread
  calls : ∀ thread, next.call thread = s.call thread ∨
    (task ∉ (s.call thread).subject ∧ task ∉ (next.call thread).subject)

theorem Untouched.refl (s : State cfg) (task : TaskRef) : Untouched s s task :=
  ⟨fun _ => rfl, rfl, rfl, fun _ _ => rfl, fun _ => Or.inl rfl⟩

theorem Untouched.trans {s middle next : State cfg} {task : TaskRef}
    (first : Untouched s middle task) (second : Untouched middle next task) :
    Untouched s next task := by
  refine ⟨fun holder => (second.counts holder).trans (first.counts holder),
    second.header.trans first.header, second.history.trans first.history, ?_, ?_⟩
  · intro thread member
    have same := first.frames thread member
    rw [← same] at member
    exact (second.frames thread member).trans same
  · intro thread
    rcases first.calls thread with same | ⟨before, between⟩
    · rcases second.calls thread with again | ⟨between, after⟩
      · exact Or.inl (again.trans same)
      · rw [same] at between
        exact Or.inr ⟨between, after⟩
    · rcases second.calls thread with again | ⟨_, after⟩
      · rw [← again] at between
        exact Or.inr ⟨before, between⟩
      · exact Or.inr ⟨before, after⟩

theorem Untouched.settled {s next : State cfg} {task : TaskRef} {place : Place cfg}
    (untouched : Untouched s next task) (counts : Counts s task place)
    (settled : Settled s task place) : Settled next task place := by
  cases place with
  | unborn | idle | retired | freed =>
      simpa only [Settled, untouched.header, untouched.history] using settled
  | held holder =>
      have member := counts.mem_of_held
      cases holder with
      | list list => simpa only [Settled, untouched.header, untouched.history] using settled
      | frame thread =>
          simpa only [Settled, untouched.header, untouched.history,
            untouched.frames thread member] using settled
      | call thread =>
          rcases untouched.calls thread with same | ⟨other, _⟩
          · simpa only [Settled, untouched.header, untouched.history, same] using settled
          · exact absurd member (Call.held_subject other)

theorem Untouched.frame_of_place {s next : State cfg} {task : TaskRef}
    (untouched : Untouched s next task) {thread : Fin cfg.threads}
    (counts : Counts s task (.held (.frame thread))) : next.frame thread = s.frame thread :=
  untouched.frames thread counts.mem_of_held

theorem Untouched.uses {s next : State cfg} {task : TaskRef}
    (untouched : Untouched s next task) (thread : Fin cfg.threads) (waker : Nat) :
    (next.call thread).uses task waker = (s.call thread).uses task waker := by
  rcases untouched.calls thread with same | ⟨before, after⟩
  · rw [same]
  · rw [Call.uses_subject waker before, Call.uses_subject waker after]

theorem Untouched.borrows {s next : State cfg} {task : TaskRef}
    (untouched : Untouched s next task) (borrows : Borrows s task) :
    Borrows next task := by
  constructor
  · intro thread waker used
    rw [untouched.uses] at used
    rw [untouched.history]
    exact borrows.owned thread waker used
  · intro thread other waker consumed different
    rw [untouched.uses]
    rcases untouched.calls thread with same | ⟨_, after⟩
    · rw [same] at consumed
      exact borrows.exclusive thread other waker consumed different
    · rw [Call.consumes_subject waker after] at consumed
      cases consumed
  · intro thread worker lent
    rcases untouched.calls thread with same | ⟨_, after⟩
    · rw [same] at lent
      have polls := borrows.lent thread worker lent
      rw [untouched.frames worker
        (by rw [Frame.polls_held polls]; exact List.mem_singleton.mpr rfl)]
      exact polls
    · rw [Call.lentBy_subject worker after] at lent
      cases lent

theorem Located.untouched {s next : State cfg} {task : TaskRef} {place : Place cfg}
    (located : Located s task place) (untouched : Untouched s next task) :
    Located next task place := by
  refine ⟨?_, untouched.settled located.counts located.settled, ?_,
    untouched.borrows located.borrows⟩
  · intro holder
    rw [untouched.counts, located.counts]
  · intro born
    rw [untouched.header, untouched.history]
    exact located.counted born

theorem Ruined.condition_untouched {s next : State cfg} {task : TaskRef} {place : Place cfg}
    (ruin : Ruined s task place) (untouched : Untouched s next task) :
    condition next place = condition s place := by
  cases place with
  | unborn | idle | retired | freed => rfl
  | held holder =>
      cases holder with
      | list | call => rfl
      | frame thread => rw [condition, untouched.frame_of_place ruin.counts, condition]

theorem Ruined.untouched {s next : State cfg} {task : TaskRef} {place : Place cfg}
    (ruin : Ruined s task place) (untouched : Untouched s next task) :
    Ruined next task place := by
  constructor
  · intro holder
    rw [untouched.counts, ruin.counts]
  · have wrecked := ruin.wrecked
    cases place with
    | unborn | idle => exact wrecked.elim
    | retired | freed => simpa only [Wrecked, untouched.history] using wrecked
    | held holder =>
        cases holder with
        | list list => exact wrecked.elim
        | frame thread =>
            rw [Wrecked, untouched.frame_of_place ruin.counts, untouched.history]
            exact wrecked
        | call thread =>
            rw [Wrecked, untouched.history]
            rcases untouched.calls thread with same | ⟨other, _⟩
            · rw [same]
              exact wrecked
            · exact absurd ruin.counts.mem_of_held (Call.held_subject other)
  · rw [untouched.history]
    exact ruin.lifetime
  · rw [untouched.header]
    exact ruin.held
  · rw [untouched.header, untouched.history, ruin.condition_untouched untouched]
    exact ruin.counted
  · exact untouched.borrows ruin.borrows

theorem Fate.untouched {among : Condition → Prop} {s next : State cfg} {observed : TaskRef}
    (fate : Fate among s observed) (untouched : Untouched s next observed) :
    Fate among next observed := by
  cases fate with
  | placed place whole located => exact .placed place whole (located.untouched untouched)
  | ruined place broken ruin =>
      rw [← ruin.condition_untouched untouched] at broken
      exact .ruined place broken (ruin.untouched untouched)

/-- A step about one task keeps every fate if it relocates that task, ruined or not,
and leaves every other task untouched. -/
theorem Fate.move {among : Condition → Prop} {s next : State cfg} {observed : TaskRef}
    (fate : Fate among s observed) (task : TaskRef)
    (others : ∀ other, other ≠ task → Untouched s next other)
    (moved : ∀ place, Located s task place → ∃ target, Located next task target)
    (ruined : ∀ place, Ruined s task place →
      ∃ target, Ruined next task target ∧ condition next target = condition s place) :
    Fate among next observed := by
  by_cases same : observed = task
  · subst same
    cases fate with
    | placed place whole located =>
        obtain ⟨target, there⟩ := moved place located
        exact .placed target whole there
    | ruined place broken ruin =>
        obtain ⟨target, there, unchanged⟩ := ruined place ruin
        rw [← unchanged] at broken
        exact .ruined target broken there
  · exact fate.untouched (others observed same)

end Yaay.TaskSystem
