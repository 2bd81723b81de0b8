import Mathlib.Data.Prod.Lex
import Yaay.Net.Dispatcher

set_option autoImplicit false

/-! A task that calls `TcpStreamReader::read` again and again, over its dispatcher and what the
kernel holds for it. For `TcpListenerAcceptor::accept` the items are the connections that wait
for the listener, and there is room for one. Reads into an empty buffer and the end of the stream,
both of which return `Ok(0)`, are left out. -/

namespace Yaay.Net.Reading

open Yaay.Transition

variable {Item : Type}

/-- `call` is the room of the running call; `received` and `delivered` are all items that have
arrived so far and those that the calls have returned. -/
structure State (Item : Type) where
  core : Dispatcher.State
  call : Option Nat
  buffered : List Item
  received : List Item
  delivered : List Item

/-- `own` are the steps that only the dispatcher sees. -/
inductive Action (Item : Type)
  | arrive (first : Item) (more : List Item)
  | read (room : Nat)
  | ioOk (count : Nat)
  | ioError
  | cancel
  | own (action : Dispatcher.Action)

/-- A `MIO` comes and goes between the calls, the loop of `io_poll!` is inside one, and a poll of
the task continues a call at its suspension. -/
def State.allows (s : State Item) : Dispatcher.Action → Prop
  | .attach | .del => s.call = none
  | .prepareIo => s.call ≠ none
  | .poll => s.call = none ∨ s.core.phase = .suspended
  | .ioWouldBlock | .compareExchangeWeak _ | .returnPending | .pollReactor | .dispatch | .notify
  | .wakeByRef => True
  | .ioOk _ | .ioPartly | .ioError | .cancel | .arrive => False

instance (s : State Item) : (action : Dispatcher.Action) → Decidable (s.allows action)
  | .attach | .del => inferInstanceAs (Decidable (s.call = none))
  | .prepareIo => inferInstanceAs (Decidable (s.call ≠ none))
  | .poll => inferInstanceAs (Decidable (s.call = none ∨ s.core.phase = .suspended))
  | .ioWouldBlock | .compareExchangeWeak _ | .returnPending | .pollReactor | .dispatch | .notify
  | .wakeByRef => isTrue trivial
  | .ioOk _ | .ioPartly | .ioError | .cancel | .arrive => isFalse id

def step (s : State Item) : Action Item → Option (State Item)
  | .arrive first more =>
      (Dispatcher.step s.core .arrive).map (fun core =>
        { s with
          core := core
          buffered := s.buffered ++ first :: more
          received := s.received ++ first :: more })
  | .read room =>
      if s.call = none ∧ s.core.attached = true ∧ 0 < room then some { s with call := some room }
      else none
  | .ioOk count =>
      match s.call with
      | some room =>
          if 0 < count ∧ count ≤ room ∧ count ≤ s.buffered.length then
            (Dispatcher.step s.core (.ioOk (count == s.buffered.length))).map (fun core =>
              { s with
                core := core
                call := none
                buffered := s.buffered.drop count
                delivered := s.delivered ++ s.buffered.take count })
          else none
      | none => none
  | .ioError =>
      (Dispatcher.step s.core .ioError).map (fun core => { s with core := core, call := none })
  | .cancel =>
      (Dispatcher.step s.core .cancel).map (fun core => { s with core := core, call := none })
  | .own action =>
      if s.allows action then
        (Dispatcher.step s.core action).map (fun core => { s with core := core })
      else none

def system (Item : Type) : System (State Item) (Action Item) :=
  { initial := fun s => Dispatcher.system.initial s.core ∧ s.core.ready = false ∧ s.call = none ∧
      s.buffered = [] ∧ s.received = [] ∧ s.delivered = []
    step := step }

structure Inv (s : State Item) : Prop where
  core : Dispatcher.Inv s.core
  ready : s.core.ready = true ↔ s.buffered ≠ []
  outside : s.call = none → s.core.phase = .outside
  room : ∀ room, s.call = some room → 0 < room
  kept : s.received = s.delivered ++ s.buffered

variable {s s' : State Item} {core : Dispatcher.State} {action : Action Item}

private theorem own_core {own : Dispatcher.Action} (allowed : s.allows own)
    (taken : Dispatcher.step s.core own = some core) :
    core.ready = s.core.ready ∧
      (s.call = none → s.core.phase = .outside → core.phase = .outside) := by
  cases own with
  | attach | del | pollReactor | notify | wakeByRef =>
      simp only [Dispatcher.step] at taken
      split at taken
      · cases taken
        exact ⟨rfl, fun _none outside => outside⟩
      · cases taken
  | ioWouldBlock =>
      simp only [Dispatcher.step] at taken
      split at taken
      · rename_i blocked
        cases taken
        refine ⟨rfl, ?_⟩
        intro _none outside
        rw [outside] at blocked
        cases blocked.1
      · cases taken
  | returnPending =>
      simp only [Dispatcher.step] at taken
      split at taken
      · rename_i suspending
        cases taken
        refine ⟨rfl, ?_⟩
        intro _none outside
        rw [outside] at suspending
        cases suspending
      · cases taken
  | prepareIo =>
      simp only [Dispatcher.step] at taken
      split at taken
      · cases taken
        exact ⟨rfl, fun none _outside => absurd none allowed⟩
      · cases taken
  | poll =>
      simp only [Dispatcher.step] at taken
      split at taken
      · cases taken
        refine ⟨rfl, ?_⟩
        intro _none outside
        rw [Dispatcher.poll, outside]
        rfl
      · cases taken
  | compareExchangeWeak spurious =>
      simp only [Dispatcher.step] at taken
      split at taken
      · rename_i waiting
        cases taken
        constructor
        · unfold Dispatcher.compareExchangeWeak
          split
          · rfl
          · split <;> rfl
        · intro _none outside
          rw [outside] at waiting
          cases waiting
      · cases taken
  | dispatch =>
      simp only [Dispatcher.step] at taken
      split at taken
      · split at taken
        · cases taken
          exact ⟨rfl, fun _none outside => outside⟩
        · cases taken
          exact ⟨rfl, fun _none outside => outside⟩
      · cases taken
  | ioOk | ioPartly | ioError | cancel | arrive => cases allowed

theorem ended {ending : Dispatcher.Action} (inv : Inv s)
    (failed : ending = .ioError ∨ ending = .cancel)
    (taken : Dispatcher.step s.core ending = some core) :
    Inv { s with core := core, call := none } := by
  have left : core.phase = .outside ∧ core.ready = s.core.ready := by
    rcases failed with rfl | rfl <;>
    · simp only [Dispatcher.step] at taken
      split at taken
      · cases taken
        exact ⟨rfl, rfl⟩
      · cases taken
  constructor
  · exact inv.core.step taken
  · rw [left.2]
    exact inv.ready
  · exact fun _ => left.1
  · intro room running
    cases running
  · exact inv.kept

private theorem ioOk_inv {count : Nat} (inv : Inv s) (taken : step s (.ioOk count) = some s') :
    Inv s' := by
  simp only [step] at taken
  split at taken
  · split at taken
    · rename_i fits
      obtain ⟨core, took, rfl⟩ := Option.map_eq_some_iff.mp taken
      have kept := inv.core.step took
      simp only [Dispatcher.step] at took
      split at took
      · cases took
        constructor
        · exact kept
        · change (!(count == s.buffered.length)) = true ↔ s.buffered.drop count ≠ []
          rw [Bool.not_eq_true', beq_eq_false_iff_ne, ne_eq, ne_eq, List.drop_eq_nil_iff]
          have bound := fits.2.2
          omega
        · exact fun _ => rfl
        · intro room running
          cases running
        · change s.received = s.delivered ++ s.buffered.take count ++ s.buffered.drop count
          rw [List.append_assoc, List.take_append_drop]
          exact inv.kept
      · cases took
    · cases taken
  · cases taken

theorem Inv.step (inv : Inv s) (taken : step s action = some s') : Inv s' := by
  cases action with
  | arrive first more =>
      simp only [Reading.step] at taken
      obtain ⟨core, took, rfl⟩ := Option.map_eq_some_iff.mp taken
      have kept := inv.core.step took
      cases took
      constructor
      · exact kept
      · exact ⟨fun _ => by simp, fun _ => rfl⟩
      · exact inv.outside
      · exact inv.room
      · change s.received ++ first :: more = s.delivered ++ (s.buffered ++ first :: more)
        rw [inv.kept, List.append_assoc]
  | read room =>
      simp only [Reading.step] at taken
      split at taken
      · rename_i begins
        cases taken
        constructor
        · exact inv.core
        · exact inv.ready
        · intro running
          cases running
        · intro other same
          cases same
          exact begins.2.2
        · exact inv.kept
      · cases taken
  | ioOk count => exact ioOk_inv inv taken
  | ioError =>
      simp only [Reading.step] at taken
      obtain ⟨core, took, rfl⟩ := Option.map_eq_some_iff.mp taken
      exact ended inv (Or.inl rfl) took
  | cancel =>
      simp only [Reading.step] at taken
      obtain ⟨core, took, rfl⟩ := Option.map_eq_some_iff.mp taken
      exact ended inv (Or.inr rfl) took
  | own action =>
      simp only [Reading.step] at taken
      split at taken
      · rename_i allowed
        obtain ⟨core, took, rfl⟩ := Option.map_eq_some_iff.mp taken
        obtain ⟨ready, outside⟩ := own_core allowed took
        constructor
        · exact inv.core.step took
        · rw [ready]
          exact inv.ready
        · exact fun idle => outside idle (inv.outside idle)
        · exact inv.room
        · exact inv.kept
      · cases taken

theorem reachable_inv (reached : (system Item).Reachable anyAction s) : Inv s := by
  apply reached.invariant Inv
  · rintro state ⟨start, ready, none, empty, nothing, fresh⟩
    constructor
    · exact .left start.2.1
    · rw [ready, empty]
      constructor
      · intro impossible
        cases impossible
      · exact fun some => absurd rfl some
    · exact fun _ => start.2.1
    · intro room running
      rw [none] at running
      cases running
    · rw [nothing, fresh, empty]
      rfl
  · exact fun _state _next _action _earlier inv _permitted taken => inv.step taken

/-- The steps of a reader whose calls are neither cancelled nor fail, of the reactor, and of the
runtime, which polls the task when it has been woken. No exchange fails spuriously, and nothing
more arrives. -/
def Action.proper (s : State Item) : Action Item → Prop
  | .read _ | .ioOk _ => True
  | .own action => match action with
    | .prepareIo | .ioWouldBlock | .returnPending | .pollReactor | .dispatch | .wakeByRef => True
    | .compareExchangeWeak spurious => spurious = false
    | .poll => s.core.phase = .suspended ∧ s.core.repoll = true
    | _ => False
  | .arrive _ _ | .ioError | .cancel => False

def Proceeds (s s' : State Item) : Prop :=
  ∃ action : Action Item, action.proper s ∧ step s action = some s'

/-- How many steps lie before the next attempt if the items stay. -/
def State.place (s : State Item) : Nat :=
  match s.core.phase with
  | .waiting => 5
  | .suspending => 4
  | .suspended => 3
  | .outside => if s.call = none then 3 else 2
  | .attempting => 1

def State.events (s : State Item) : Nat := 3 * s.core.kernel + 2 * s.core.batch + s.core.waking

def State.togo (s : State Item) : ℕ ×ₗ ℕ := toLex (s.buffered.length, s.events + s.place)

private theorem togo_of_less (same : s'.buffered = s.buffered)
    (less : s'.events + s'.place < s.events + s.place) : s'.togo < s.togo := by
  rw [State.togo, State.togo, same, Prod.Lex.toLex_lt_toLex]
  exact Or.inr ⟨rfl, less⟩

/-- With something to read, every step of the dispatcher leads towards the attempt. -/
theorem own_nearer {own : Dispatcher.Action} (inv : Inv s) (ready : s.core.ready = true)
    (proper : (Action.own own : Action Item).proper s) (allowed : s.allows own)
    (taken : Dispatcher.step s.core own = some core) :
    ({ s with core := core } : State Item).togo < s.togo ∧ core.attached = s.core.attached := by
  cases own with
  | prepareIo =>
      simp only [Dispatcher.step] at taken
      split at taken
      · rename_i free
        cases taken
        refine ⟨togo_of_less rfl (Nat.add_lt_add_left ?_ _), rfl⟩
        rw [State.place, State.place, free.2, if_neg allowed]
        exact Nat.lt_succ_self 1
      · cases taken
  | ioWouldBlock =>
      simp only [Dispatcher.step] at taken
      split at taken
      · rename_i blocked
        rw [ready] at blocked
        cases blocked.2
      · cases taken
  | compareExchangeWeak spurious =>
      simp only [Dispatcher.step] at taken
      split at taken
      · rename_i waiting
        cases taken
        have exchanged : spurious = false := proper
        rw [Dispatcher.compareExchangeWeak, exchanged]
        split
        · refine ⟨togo_of_less rfl (Nat.add_lt_add_left ?_ _), rfl⟩
          rw [State.place, State.place, waiting]
          exact Nat.lt_succ_self 4
        · rename_i changed
          rw [if_neg (fun same => changed ⟨same, rfl⟩)]
          refine ⟨togo_of_less rfl (Nat.add_lt_add_left ?_ _), rfl⟩
          rw [State.place, State.place, waiting]
          change (if s.call = none then 3 else 2) < 5
          split <;> decide
      · cases taken
  | returnPending =>
      simp only [Dispatcher.step] at taken
      split at taken
      · rename_i suspending
        cases taken
        refine ⟨togo_of_less rfl (Nat.add_lt_add_left ?_ _), rfl⟩
        rw [State.place, State.place, suspending]
        exact Nat.lt_succ_self 3
      · cases taken
  | poll =>
      have suspended : s.core.phase = .suspended := proper.1
      have running : s.call ≠ none := by
        intro idle
        have outside := inv.outside idle
        rw [suspended] at outside
        cases outside
      simp only [Dispatcher.step] at taken
      split at taken
      · cases taken
        rw [Dispatcher.poll, if_pos suspended]
        refine ⟨togo_of_less rfl (Nat.add_lt_add_left ?_ _), rfl⟩
        rw [State.place, State.place, suspended]
        change (if s.call = none then 3 else 2) < 3
        rw [if_neg running]
        exact Nat.lt_succ_self 2
      · cases taken
  | pollReactor =>
      simp only [Dispatcher.step] at taken
      split at taken
      · rename_i some
        cases taken
        refine ⟨togo_of_less rfl (Nat.add_lt_add_right ?_ _), rfl⟩
        change 3 * (s.core.kernel - 1) + 2 * (s.core.batch + 1) + s.core.waking <
          3 * s.core.kernel + 2 * s.core.batch + s.core.waking
        omega
      · cases taken
  | dispatch =>
      simp only [Dispatcher.step] at taken
      split at taken
      · rename_i some
        split at taken
        · cases taken
          refine ⟨togo_of_less rfl (Nat.add_lt_add_right ?_ _), rfl⟩
          change 3 * s.core.kernel + 2 * (s.core.batch - 1) +
              (if Dispatcher.wakes s.core.status then s.core.waking + 1 else s.core.waking) <
            3 * s.core.kernel + 2 * s.core.batch + s.core.waking
          split <;> omega
        · cases taken
          refine ⟨togo_of_less rfl (Nat.add_lt_add_right ?_ _), rfl⟩
          change 3 * s.core.kernel + 2 * (s.core.batch - 1) + s.core.waking <
            3 * s.core.kernel + 2 * s.core.batch + s.core.waking
          omega
      · cases taken
  | wakeByRef =>
      simp only [Dispatcher.step] at taken
      split at taken
      · rename_i some
        cases taken
        refine ⟨togo_of_less rfl (Nat.add_lt_add_right ?_ _), rfl⟩
        change 3 * s.core.kernel + 2 * s.core.batch + (s.core.waking - 1) <
          3 * s.core.kernel + 2 * s.core.batch + s.core.waking
        omega
      · cases taken
  | attach | del | notify | ioOk | ioPartly | ioError | cancel | arrive => cases proper

theorem nearer (inv : Inv s) (left : s.buffered ≠ []) (proper : action.proper s)
    (taken : step s action = some s') :
    s'.togo < s.togo ∧ s'.core.attached = s.core.attached ∧ s'.received = s.received := by
  have ready := inv.ready.mpr left
  cases action with
  | read room =>
      simp only [step] at taken
      split at taken
      · rename_i begins
        cases taken
        have outside := inv.outside begins.1
        refine ⟨togo_of_less rfl (Nat.add_lt_add_left ?_ _), rfl, rfl⟩
        rw [State.place, State.place, outside, begins.1]
        exact Nat.lt_succ_self 2
      · cases taken
  | ioOk count =>
      simp only [step] at taken
      split at taken
      · split at taken
        · rename_i fits
          obtain ⟨core, took, rfl⟩ := Option.map_eq_some_iff.mp taken
          have same : core.attached = s.core.attached := by
            simp only [Dispatcher.step] at took
            split at took
            · cases took
              rfl
            · cases took
          refine ⟨?_, same, rfl⟩
          rw [State.togo, State.togo, Prod.Lex.toLex_lt_toLex]
          left
          change (s.buffered.drop count).length < s.buffered.length
          rw [List.length_drop]
          omega
        · cases taken
      · cases taken
  | own own =>
      simp only [step] at taken
      split at taken
      · rename_i allowed
        obtain ⟨core, took, rfl⟩ := Option.map_eq_some_iff.mp taken
        obtain ⟨less, same⟩ := own_nearer inv ready proper allowed took
        exact ⟨less, same, rfl⟩
      · cases taken
  | arrive | ioError | cancel => cases proper

private theorem proceeds_own (own : Dispatcher.Action)
    (proper : (Action.own own : Action Item).proper s) (allowed : s.allows own)
    (possible : (Dispatcher.step s.core own).isSome = true) : ∃ after, Proceeds s after := by
  obtain ⟨core, took⟩ := Option.isSome_iff_exists.mp possible
  refine ⟨{ s with core := core }, .own own, proper, ?_⟩
  rw [step, if_pos allowed, took]
  rfl

/-- With something to read the reader goes on, or its wake-up is on the way. -/
theorem live (inv : Inv s) (attached : s.core.attached = true) (left : s.buffered ≠ []) :
    ∃ after, Proceeds s after := by
  have ready := inv.ready.mpr left
  have watched := inv.core.watched
  rw [Dispatcher.Watched] at watched
  cases phase : s.core.phase with
  | outside =>
      cases idle : s.call with
      | none =>
          refine ⟨{ s with call := some 1 }, .read 1, trivial, ?_⟩
          rw [step, if_pos ⟨idle, attached, Nat.one_pos⟩]
      | some room =>
          have running : s.call ≠ none := by
            rw [idle]
            exact Option.some_ne_none room
          refine proceeds_own .prepareIo trivial running ?_
          rw [Dispatcher.step, if_pos ⟨attached, phase⟩]
          rfl
  | attempting =>
      cases idle : s.call with
      | none =>
          have outside := inv.outside idle
          rw [phase] at outside
          cases outside
      | some room =>
          have fits : 0 < 1 ∧ 1 ≤ room ∧ 1 ≤ s.buffered.length :=
            ⟨Nat.one_pos, inv.room room idle, List.length_pos_iff.mpr left⟩
          have possible :
              (step s (.ioOk 1)).isSome = true := by
            simp only [step, idle, if_pos fits, Dispatcher.step, if_pos (And.intro phase ready)]
            rfl
          obtain ⟨after, took⟩ := Option.isSome_iff_exists.mp possible
          exact ⟨after, .ioOk 1, trivial, took⟩
  | waiting =>
      refine proceeds_own (.compareExchangeWeak false) rfl trivial ?_
      rw [Dispatcher.step, if_pos phase]
      rfl
  | suspending =>
      refine proceeds_own .returnPending trivial trivial ?_
      rw [Dispatcher.step, if_pos phase]
      rfl
  | suspended =>
      rw [phase] at watched
      rcases watched with ⟨_idle, arriving⟩ | ⟨_marked, waking⟩
      · rcases arriving ready with kernel | batch
        · refine proceeds_own .pollReactor trivial trivial ?_
          rw [Dispatcher.step, if_pos kernel]
          rfl
        · refine proceeds_own .dispatch trivial trivial ?_
          rw [Dispatcher.step, if_pos batch, if_pos attached]
          rfl
      · rcases waking with waking | woken
        · refine proceeds_own .wakeByRef trivial trivial ?_
          rw [Dispatcher.step, if_pos waking]
          rfl
        · refine proceeds_own .poll ⟨phase, woken⟩ (Or.inr phase) ?_
          rw [Dispatcher.step, if_pos (Or.inl phase)]
          rfl

structure Onward (all : List Item) (s : State Item) : Prop where
  inv : Inv s
  attached : s.core.attached = true
  arrived : s.received = all

theorem Onward.left {all : List Item} (onward : Onward all s) (open_ : ¬ s.delivered = all) :
    s.buffered ≠ [] := by
  intro none
  apply open_
  rw [← onward.arrived, onward.inv.kept, none, List.append_nil]

theorem Onward.delivers {all : List Item} (onward : Onward all s) :
    Inevitable Proceeds (fun last => last.delivered = all) s := by
  apply Inevitable.of_rank wellFounded_lt State.togo ?_ ?_ onward
  · intro state onward open_
    exact live onward.inv onward.attached (onward.left open_)
  · rintro state after onward open_ ⟨action, proper, taken⟩
    obtain ⟨less, attached, arrived⟩ := nearer onward.inv (onward.left open_) proper taken
    constructor
    · exact ⟨onward.inv.step taken, attached.trans onward.attached,
        arrived.trans onward.arrived⟩
    · exact less

/-- What the calls have returned and what the kernel holds are what has arrived, in its order;
and once the reader has its dispatcher, every order of the proper steps leads to where all of it
has been returned. -/
theorem arrived_is_delivered (reached : (system Item).Reachable anyAction s) :
    s.received = s.delivered ++ s.buffered ∧
      (s.core.attached = true →
        Inevitable Proceeds (fun last => last.delivered = s.received) s) := by
  have inv := reachable_inv reached
  refine ⟨inv.kept, fun attached => ?_⟩
  have onward : Onward s.received s := ⟨inv, attached, rfl⟩
  exact onward.delivers

def threeMore : List (Action Nat) :=
  [.arrive 1 [2], .own .pollReactor, .own .dispatch, .own .attach, .read 1, .own .prepareIo,
    .ioOk 1, .read 1, .own .prepareIo, .ioOk 1, .read 4, .own .prepareIo, .own .ioWouldBlock,
    .own (.compareExchangeWeak true), .own (.compareExchangeWeak false), .arrive 3 [4, 5],
    .own .pollReactor, .own .returnPending]

def unread : State Nat :=
  { core := Dispatcher.unattached, call := none, buffered := [], received := [], delivered := [] }

private theorem threeMore_runs : ((system Nat).exec unread threeMore).isSome = true := by decide

def asleep : State Nat := ((system Nat).exec unread threeMore).get threeMore_runs

private theorem unread_initial : (system Nat).initial unread :=
  ⟨⟨rfl, rfl, rfl⟩, rfl, rfl, rfl, rfl, rfl⟩

private theorem asleep_reached : (system Nat).Reachable anyAction asleep :=
  System.Reachable.replay_any (.initial unread unread_initial) threeMore_runs

theorem three_more_are_delivered :
    asleep.received = asleep.delivered ++ asleep.buffered ∧ asleep.delivered = [1, 2] ∧
      asleep.core.phase = .suspended ∧
      Inevitable Proceeds (fun last => last.delivered = [1, 2, 3, 4, 5]) asleep := by
  obtain ⟨kept, delivers⟩ := arrived_is_delivered asleep_reached
  refine ⟨kept, by decide, by decide, ?_⟩
  have delivered := delivers (by decide)
  have all : asleep.received = [1, 2, 3, 4, 5] := by decide
  rw [all] at delivered
  exact delivered

end Yaay.Net.Reading
