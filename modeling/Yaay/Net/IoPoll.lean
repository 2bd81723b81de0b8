import Mathlib.Logic.Basic

set_option autoImplicit false

/-! The `io_poll!` loop around an I/O expression, and how many bytes it moves in
all when the expression is itself a loop that stops half way on `WouldBlock`.
Everything here counts bytes and names no socket. -/

namespace Yaay.Net

universe u v

inductive IoErrorKind
  | wouldBlock
  | interrupted
  | unexpectedEof
  | writeZero
  | other (code : Nat)
  deriving DecidableEq

abbrev IoResult (α : Type u) := Except IoErrorKind α

/-- `io_poll!`: evaluate the whole expression again after each `WouldBlock`. The
result is `none` if the task is still suspended after that many rounds. -/
def ioPoll {World : Type u} {α : Type v} (io : World → IoResult α × World) :
    Nat → World → Option (IoResult α × World)
  | 0, _ => none
  | rounds + 1, world =>
      match io world with
      | (.error .wouldBlock, next) => ioPoll io rounds next
      | (result, next) => some (result, next)

/-- The loop over an expression simulates the loop over an abstraction of it. -/
theorem ioPoll_map {World Abstract : Type u} {α : Type v}
    (io : World → IoResult α × World) (abstracted : Abstract → IoResult α × Abstract)
    (view : World → Abstract) (holds : World → Prop)
    (kept : ∀ world, holds world → holds (io world).2)
    (same : ∀ world, holds world →
      abstracted (view world) = ((io world).1, view (io world).2))
    (rounds : Nat) (world : World) (held : holds world) :
    ioPoll abstracted rounds (view world) =
      (ioPoll io rounds world).map (fun answer => (answer.1, view answer.2)) := by
  induction rounds generalizing world with
  | zero => rfl
  | succ rounds ih =>
      have after := kept world held
      rw [ioPoll, ioPoll, same world held]
      cases attempt : io world with
      | mk result next =>
          rw [attempt] at after
          cases result with
          | ok value => rfl
          | error kind =>
              cases kind with
              | wouldBlock => exact ih next after
              | interrupted | unexpectedEof | writeZero | other code => rfl

theorem ioPoll_ok {World : Type u} {α : Type v} (io : World → IoResult α × World)
    (keeps : World → Prop)
    (kept : ∀ world next, keeps world → io world = (.error .wouldBlock, next) → keeps next)
    (rounds : Nat) (world last : World) (value : α) (held : keeps world)
    (finished : ioPoll io rounds world = some (.ok value, last)) :
    ∃ before, keeps before ∧ io before = (.ok value, last) := by
  induction rounds generalizing world with
  | zero => cases finished
  | succ rounds ih =>
      rw [ioPoll] at finished
      cases attempt : io world with
      | mk result next =>
          rw [attempt] at finished
          cases result with
          | ok answer =>
              cases finished
              exact ⟨world, held, attempt⟩
          | error kind =>
              cases kind with
              | wouldBlock => exact ih next (kept world next held attempt) finished
              | interrupted | unexpectedEof | writeZero | other code => cases finished

/-- What one non-blocking call meets: readiness for some bytes, the other end
closed, or an error. -/
inductive Outcome
  | ready (extra : Nat)
  | closed
  | wouldBlock
  | interrupted
  | failed (code : Nat)

def Outcome.moves (room : Nat) : Outcome → IoResult Nat
  | .ready extra => .ok (min (extra + 1) room)
  | .closed => .ok 0
  | .wouldBlock => .error .wouldBlock
  | .interrupted => .error .interrupted
  | .failed code => .error (.other code)

structure Attempt where
  result : IoResult Unit
  moved : Nat
  schedule : List Outcome

/-- The byte counts of the loops of `read_exact` and `write_all`: call until the
room is used up, again after `Interrupted`, and give up on any other error. A
schedule that has run out blocks. -/
def moveAll (short : IoErrorKind) : List Outcome → Nat → Attempt
  | schedule, 0 => ⟨.ok (), 0, schedule⟩
  | [], _ + 1 => ⟨.error .wouldBlock, 0, []⟩
  | outcome :: rest, room + 1 =>
      match outcome.moves (room + 1) with
      | .ok 0 => ⟨.error short, 0, rest⟩
      | .ok (count + 1) =>
          let later := moveAll short rest (room - count)
          ⟨later.result, count + 1 + later.moved, later.schedule⟩
      | .error .interrupted => moveAll short rest (room + 1)
      | .error kind => ⟨.error kind, 0, rest⟩

/-- The bytes offered before the schedule first blocks, closes or fails. -/
def handsOut : List Outcome → Nat
  | .ready extra :: rest => extra + 1 + handsOut rest
  | .interrupted :: rest => handsOut rest
  | _ => 0

/-- The schedule from its first readiness on. -/
def started : List Outcome → List Outcome
  | .wouldBlock :: rest | .interrupted :: rest => started rest
  | schedule => schedule

/-- Once bytes have started to move, no `WouldBlock` comes before all of them have. -/
def Unbroken (schedule : List Outcome) (room : Nat) : Prop :=
  room ≤ handsOut (started schedule)

instance (schedule : List Outcome) (room : Nat) : Decidable (Unbroken schedule room) :=
  inferInstanceAs (Decidable (_ ≤ _))

def leftover : List Outcome → Nat → List Outcome
  | schedule, 0 => schedule
  | [], _ + 1 => []
  | .ready extra :: rest, room + 1 => leftover rest (room - extra)
  | _ :: rest, room + 1 => leftover rest (room + 1)

theorem moveAll_ready (short : IoErrorKind) (extra room : Nat) (rest : List Outcome) :
    moveAll short (.ready extra :: rest) (room + 1) =
      ⟨(moveAll short rest (room - extra)).result,
        min extra room + 1 + (moveAll short rest (room - extra)).moved,
        (moveAll short rest (room - extra)).schedule⟩ := by
  have clipped : min (extra + 1) (room + 1) = min extra room + 1 := by omega
  have left : room - min extra room = room - extra := by omega
  simp only [moveAll, Outcome.moves, clipped, left]

theorem moveAll_moved_le (short : IoErrorKind) (schedule : List Outcome) (room : Nat) :
    (moveAll short schedule room).moved ≤ room := by
  induction schedule generalizing room with
  | nil => cases room <;> exact Nat.zero_le _
  | cons outcome rest ih =>
      cases room with
      | zero => simp [moveAll]
      | succ room =>
          cases outcome with
          | ready extra =>
              have less := ih (room - extra)
              rw [moveAll_ready]
              change min extra room + 1 + (moveAll short rest (room - extra)).moved ≤ room + 1
              omega
          | interrupted => exact ih (room + 1)
          | closed | wouldBlock | failed code => exact Nat.zero_le _

theorem moveAll_ok {short : IoErrorKind} (schedule : List Outcome) (room : Nat)
    (finished : (moveAll short schedule room).result = .ok ()) :
    (moveAll short schedule room).moved = room ∧ room ≤ handsOut schedule ∧
      (moveAll short schedule room).schedule = leftover schedule room := by
  induction schedule generalizing room with
  | nil =>
      cases room with
      | zero => exact ⟨rfl, Nat.zero_le _, rfl⟩
      | succ room => cases finished
  | cons outcome rest ih =>
      cases room with
      | zero => exact ⟨by simp [moveAll], Nat.zero_le _, by simp [moveAll, leftover]⟩
      | succ room =>
          cases outcome with
          | ready extra =>
              rw [moveAll_ready] at finished ⊢
              obtain ⟨moved, enough, left⟩ := ih (room - extra) finished
              refine ⟨?_, ?_, left⟩
              · change min extra room + 1 + (moveAll short rest (room - extra)).moved = room + 1
                rw [moved]
                omega
              · change room + 1 ≤ extra + 1 + handsOut rest
                omega
          | interrupted => exact ih (room + 1) finished
          | closed | wouldBlock | failed code => cases finished

/-- An attempt that blocks has moved all that was offered, and if that is nothing
the schedule has only been waited for. -/
theorem moveAll_blocked {short : IoErrorKind} (different : short ≠ .wouldBlock)
    (schedule : List Outcome) (room : Nat)
    (blocked : (moveAll short schedule room).result = .error .wouldBlock) :
    (moveAll short schedule room).moved = handsOut schedule ∧ handsOut schedule < room ∧
      (handsOut schedule = 0 →
        started (moveAll short schedule room).schedule = started schedule ∧
          leftover (moveAll short schedule room).schedule room = leftover schedule room) := by
  induction schedule generalizing room with
  | nil =>
      cases room with
      | zero => cases blocked
      | succ room => exact ⟨rfl, Nat.succ_pos room, fun _ => ⟨rfl, rfl⟩⟩
  | cons outcome rest ih =>
      cases room with
      | zero => simp [moveAll] at blocked
      | succ room =>
          cases outcome with
          | ready extra =>
              rw [moveAll_ready] at blocked ⊢
              obtain ⟨moved, short, _⟩ := ih (room - extra) blocked
              refine ⟨?_, ?_, ?_⟩
              · simp only [moved, handsOut]
                omega
              · simp only [handsOut]
                omega
              · intro none
                simp only [handsOut] at none
                omega
          | interrupted => exact ih (room + 1) blocked
          | wouldBlock => exact ⟨rfl, Nat.succ_pos room, fun _ => ⟨rfl, rfl⟩⟩
          | closed => exact absurd (Except.error.inj blocked) different
          | failed code => cases blocked

private theorem started_of_handsOut (schedule : List Outcome) (some : handsOut schedule ≠ 0) :
    handsOut (started schedule) = handsOut schedule := by
  induction schedule with
  | nil => rfl
  | cons outcome rest ih =>
      cases outcome with
      | ready extra => rfl
      | interrupted => exact ih some
      | closed | wouldBlock | failed code => exact absurd rfl some

/-- A schedule and the bytes moved so far, by any call. -/
structure Tally where
  schedule : List Outcome
  total : Nat

def tallyAll (short : IoErrorKind) (room : Nat) (tally : Tally) : IoResult Unit × Tally :=
  ((moveAll short tally.schedule room).result,
    ⟨(moveAll short tally.schedule room).schedule,
      tally.total + (moveAll short tally.schedule room).moved⟩)

/-- A call of the loop that succeeds moves at least what it should, and no more
exactly if no `WouldBlock` came in the middle of an attempt. -/
theorem ioPoll_tally {short : IoErrorKind} (different : short ≠ .wouldBlock)
    (room rounds : Nat) (tally last : Tally)
    (finished : ioPoll (tallyAll short room) rounds tally = some (.ok (), last)) :
    tally.total + room ≤ last.total ∧
      (last.total = tally.total + room ↔ Unbroken tally.schedule room) ∧
      (Unbroken tally.schedule room → last.schedule = leftover tally.schedule room) := by
  induction rounds generalizing tally with
  | zero => cases finished
  | succ rounds ih =>
      rw [ioPoll, tallyAll] at finished
      cases result : (moveAll short tally.schedule room).result with
      | ok value =>
          rw [result] at finished
          obtain ⟨moved, enough, left⟩ := moveAll_ok tally.schedule room result
          have whole : Unbroken tally.schedule room := by
            by_cases none : handsOut tally.schedule = 0
            · have empty : room = 0 := by omega
              rw [empty]
              exact Nat.zero_le _
            · rw [Unbroken, started_of_handsOut tally.schedule none]
              exact enough
          cases finished
          refine ⟨Nat.le_of_eq (by rw [moved]), ⟨fun _ => whole, fun _ => by rw [moved]⟩,
            fun _ => left⟩
      | error kind =>
          rw [result] at finished
          cases kind with
          | wouldBlock =>
              obtain ⟨moved, less, waited⟩ :=
                moveAll_blocked different tally.schedule room result
              obtain ⟨least, exact, left⟩ := ih _ finished
              rw [moved] at least exact
              change tally.total + handsOut tally.schedule + room ≤ last.total at least
              by_cases none : handsOut tally.schedule = 0
              · obtain ⟨start, rest⟩ := waited none
                have same : Unbroken (moveAll short tally.schedule room).schedule room ↔
                    Unbroken tally.schedule room := by rw [Unbroken, start, Unbroken]
                rw [none, Nat.add_zero] at least exact
                refine ⟨least, exact.trans same, ?_⟩
                intro whole
                rw [left (same.mpr whole)]
                exact rest
              · have broken : ¬ Unbroken tally.schedule room := by
                  rw [Unbroken, started_of_handsOut tally.schedule none]
                  omega
                refine ⟨by omega, ⟨fun total => ?_, fun whole => absurd whole broken⟩,
                  fun whole => absurd whole broken⟩
                omega
          | interrupted | unexpectedEof | writeZero | other code => cases finished

end Yaay.Net
