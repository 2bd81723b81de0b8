import Yaay.Net.IoPoll

set_option autoImplicit false

/-! `TcpStreamReader::read_exact` and `TcpStreamWriter::write_all`: the loops of the
standard library inside `io_poll!`. A `WouldBlock` in the middle of such a loop
makes `io_poll!` start it again from the whole buffer. -/

namespace Yaay.Net

def slice (stream : Nat → UInt8) (position count : Nat) : List UInt8 :=
  (List.range count).map (fun index => stream (position + index))

private theorem slice_length (stream : Nat → UInt8) (position count : Nat) :
    (slice stream position count).length = count := by
  rw [slice, List.length_map, List.length_range]

private theorem slice_add (stream : Nat → UInt8) (position first second : Nat) :
    slice stream position (first + second) =
      slice stream position first ++ slice stream (position + first) second := by
  simp only [slice, List.range_add, List.map_append, List.map_map]
  congr 1
  apply List.map_congr_left
  intro index _member
  exact congrArg stream (Nat.add_assoc position first index).symm

def read (stream : Nat → UInt8) (position room : Nat) (outcome : Outcome) :
    IoResult (List UInt8) :=
  (outcome.moves room).map (slice stream position)

/-- The socket's incoming bytes, how many of them have been consumed, what the next
calls will meet, and the caller's buffer. -/
structure Incoming where
  stream : Nat → UInt8
  position : Nat
  schedule : List Outcome
  buffer : List UInt8

/-- `Read::read_exact` of the standard library: `filled` is the part of the buffer
already written, `room` the old content of the rest. -/
def readExactLoop (stream : Nat → UInt8) :
    List Outcome → Nat → List UInt8 → List UInt8 → IoResult Unit × Incoming
  | schedule, position, filled, [] => (.ok (), ⟨stream, position, schedule, filled⟩)
  | [], position, filled, byte :: room =>
      (.error .wouldBlock, ⟨stream, position, [], filled ++ byte :: room⟩)
  | outcome :: rest, position, filled, byte :: room =>
      match read stream position (room.length + 1) outcome with
      | .ok [] => (.error .unexpectedEof, ⟨stream, position, rest, filled ++ byte :: room⟩)
      | .ok (first :: bytes) =>
          readExactLoop stream rest (position + (bytes.length + 1)) (filled ++ first :: bytes)
            (room.drop bytes.length)
      | .error .interrupted => readExactLoop stream rest position filled (byte :: room)
      | .error kind => (.error kind, ⟨stream, position, rest, filled ++ byte :: room⟩)

def readExactOnce (socket : Incoming) : IoResult Unit × Incoming :=
  readExactLoop socket.stream socket.schedule socket.position [] socket.buffer

def TcpStreamReader.readExact (rounds : Nat) (socket : Incoming) :
    Option (IoResult Unit × Incoming) :=
  ioPoll readExactOnce rounds socket

private theorem readExactLoop_moves (stream : Nat → UInt8) (schedule : List Outcome)
    (position : Nat) (filled room : List UInt8) :
    readExactLoop stream schedule position filled room =
      ((moveAll .unexpectedEof schedule room.length).result,
        ⟨stream, position + (moveAll .unexpectedEof schedule room.length).moved,
          (moveAll .unexpectedEof schedule room.length).schedule,
          filled ++ slice stream position (moveAll .unexpectedEof schedule room.length).moved ++
            room.drop (moveAll .unexpectedEof schedule room.length).moved⟩) := by
  induction schedule generalizing position filled room with
  | nil =>
      cases room with
      | nil => simp [readExactLoop, moveAll, slice]
      | cons byte room => simp [readExactLoop, moveAll, slice]
  | cons outcome rest ih =>
      cases room with
      | nil => simp [readExactLoop, moveAll, slice]
      | cons byte room =>
          cases outcome with
          | ready extra =>
              have clipped : min (extra + 1) (room.length + 1) = min extra room.length + 1 := by
                omega
              have bytes : read stream position (room.length + 1) (.ready extra) =
                  .ok (slice stream position (min extra room.length + 1)) := by
                rw [read, Outcome.moves, clipped]
                rfl
              cases taken : slice stream position (min extra room.length + 1) with
              | nil =>
                  have impossible := slice_length stream position (min extra room.length + 1)
                  rw [taken] at impossible
                  cases impossible
              | cons first others =>
                  have length := slice_length stream position (min extra room.length + 1)
                  rw [taken] at length
                  have count : others.length = min extra room.length := Nat.succ.inj length
                  have left : (room.drop others.length).length = room.length - extra := by
                    rw [List.length_drop, count]
                    omega
                  rw [readExactLoop, bytes, taken]
                  change readExactLoop stream rest (position + (others.length + 1))
                    (filled ++ first :: others) (room.drop others.length) = _
                  rw [ih, left, List.length_cons, moveAll_ready]
                  have further := slice_add stream position (min extra room.length + 1)
                    (moveAll .unexpectedEof rest (room.length - extra)).moved
                  have shifted (moved : Nat) :
                      (byte :: room).drop (min extra room.length + 1 + moved) =
                        room.drop (min extra room.length + moved) := by
                    rw [Nat.add_right_comm, List.drop_succ_cons]
                  rw [further, shifted, taken, count, List.drop_drop]
                  simp only [List.append_assoc, Nat.add_assoc]
          | interrupted => exact ih position filled (byte :: room)
          | closed | wouldBlock | failed code =>
              simp [readExactLoop, read, Outcome.moves, Except.map, moveAll, slice]

private theorem readExactOnce_moves (socket : Incoming) :
    readExactOnce socket =
      ((moveAll .unexpectedEof socket.schedule socket.buffer.length).result,
        { socket with
          position := socket.position +
            (moveAll .unexpectedEof socket.schedule socket.buffer.length).moved
          schedule := (moveAll .unexpectedEof socket.schedule socket.buffer.length).schedule
          buffer := slice socket.stream socket.position
              (moveAll .unexpectedEof socket.schedule socket.buffer.length).moved ++
            socket.buffer.drop
              (moveAll .unexpectedEof socket.schedule socket.buffer.length).moved }) := by
  rw [readExactOnce, readExactLoop_moves, List.nil_append]

private theorem readExactOnce_length (socket : Incoming) :
    (readExactOnce socket).2.buffer.length = socket.buffer.length := by
  have less := moveAll_moved_le .unexpectedEof socket.schedule socket.buffer.length
  rw [readExactOnce_moves]
  simp only [List.length_append, slice_length, List.length_drop]
  omega

private theorem readExact_filled {rounds : Nat} {socket last : Incoming}
    (finished : TcpStreamReader.readExact rounds socket = some (.ok (), last)) :
    ∃ start, last.position = start + socket.buffer.length ∧
      last.buffer = slice socket.stream start socket.buffer.length := by
  obtain ⟨before, ⟨stream, length⟩, filled⟩ := ioPoll_ok readExactOnce
    (fun world => world.stream = socket.stream ∧ world.buffer.length = socket.buffer.length)
    (fun world next held blocked => by
      have kept := readExactOnce_length world
      have same := readExactOnce_moves world
      rw [blocked] at kept same
      exact ⟨(congrArg (fun answer => answer.2.stream) same).trans held.1,
        kept.trans held.2⟩)
    rounds socket last () ⟨rfl, rfl⟩ finished
  have attempt := readExactOnce_moves before
  rw [filled] at attempt
  have result := congrArg Prod.fst attempt
  have after := congrArg Prod.snd attempt
  obtain ⟨moved, _, _⟩ := moveAll_ok before.schedule before.buffer.length result.symm
  simp only [moved, List.drop_length, List.append_nil] at after
  subst after
  exact ⟨before.position, by rw [length], by rw [stream, length]⟩

private theorem readExact_tally (room rounds : Nat) (socket : Incoming)
    (length : socket.buffer.length = room) :
    ioPoll (tallyAll .unexpectedEof room) rounds ⟨socket.schedule, socket.position⟩ =
      (TcpStreamReader.readExact rounds socket).map
        (fun answer => (answer.1, ⟨answer.2.schedule, answer.2.position⟩)) := by
  refine ioPoll_map readExactOnce (tallyAll .unexpectedEof room)
    (fun world => ⟨world.schedule, world.position⟩)
    (fun world => world.buffer.length = room) ?_ ?_ rounds socket length
  · intro world held
    exact (readExactOnce_length world).trans held
  · intro world held
    rw [readExactOnce_moves, held]
    rfl

/-- A successful `read_exact` has put the next bytes of the stream into the buffer
and consumed no others, if and only if its schedule was unbroken. -/
theorem readExact_consumes_once (rounds : Nat) (socket last : Incoming)
    (finished : TcpStreamReader.readExact rounds socket = some (.ok (), last)) :
    (last.buffer = slice socket.stream socket.position socket.buffer.length ∧
        last.position = socket.position + socket.buffer.length) ↔
      Unbroken socket.schedule socket.buffer.length := by
  have tallied := readExact_tally socket.buffer.length rounds socket rfl
  rw [finished] at tallied
  have exact_iff := (ioPoll_tally (by simp) socket.buffer.length rounds _ _ tallied).2.1
  obtain ⟨start, position, filled⟩ := readExact_filled finished
  constructor
  · intro once
    exact exact_iff.mp once.2
  · intro whole
    have total : last.position = socket.position + socket.buffer.length := exact_iff.mpr whole
    have same : start = socket.position := by omega
    rw [filled, same]
    exact ⟨rfl, total⟩

def twoSegments : Incoming :=
  { stream := fun index => UInt8.ofNat (index + 1)
    position := 0
    schedule := [.wouldBlock, .ready 0, .interrupted, .ready 4]
    buffer := [0, 0] }

theorem readExact_after_pause :
    ∃ last, TcpStreamReader.readExact 2 twoSegments = some (.ok (), last) ∧
      last.buffer = [1, 2] ∧
      ((last.buffer = slice twoSegments.stream twoSegments.position twoSegments.buffer.length ∧
          last.position = twoSegments.position + twoSegments.buffer.length) ↔
        Unbroken twoSegments.schedule twoSegments.buffer.length) :=
  ⟨_, rfl, rfl, readExact_consumes_once 2 twoSegments _ rfl⟩

/-- The second segment comes only after the socket has blocked once. -/
def brokenRead : Incoming :=
  { twoSegments with schedule := [.ready 0, .wouldBlock, .ready 1] }

/-- The first byte is overwritten and lost. -/
theorem readExact_loses_byte :
    ∃ last, TcpStreamReader.readExact 2 brokenRead = some (.ok (), last) ∧
      last.buffer = [2, 3] ∧ last.position = 3 ∧
      ¬ (last.buffer = slice brokenRead.stream brokenRead.position brokenRead.buffer.length ∧
          last.position = brokenRead.position + brokenRead.buffer.length) :=
  ⟨_, rfl, by decide, rfl, by decide⟩

structure Outgoing where
  sent : List UInt8
  schedule : List Outcome

def writeAllLoop : List Outcome → List UInt8 → List UInt8 → IoResult Unit × Outgoing
  | schedule, sent, [] => (.ok (), ⟨sent, schedule⟩)
  | [], sent, _ :: _ => (.error .wouldBlock, ⟨sent, []⟩)
  | outcome :: rest, sent, byte :: buf =>
      match outcome.moves (buf.length + 1) with
      | .ok 0 => (.error .writeZero, ⟨sent, rest⟩)
      | .ok (count + 1) =>
          writeAllLoop rest (sent ++ byte :: buf.take count) (buf.drop count)
      | .error .interrupted => writeAllLoop rest sent (byte :: buf)
      | .error kind => (.error kind, ⟨sent, rest⟩)

def writeAllOnce (buf : List UInt8) (socket : Outgoing) : IoResult Unit × Outgoing :=
  writeAllLoop socket.schedule socket.sent buf

def TcpStreamWriter.writeAll (rounds : Nat) (buf : List UInt8) (socket : Outgoing) :
    Option (IoResult Unit × Outgoing) :=
  ioPoll (writeAllOnce buf) rounds socket

/-- Calls of `write_all`, each with the rounds that it takes, as long as they all
return `Ok`. -/
def writeEach : List (Nat × List UInt8) → Outgoing → Option Outgoing
  | [], socket => some socket
  | (rounds, buf) :: calls, socket =>
      match TcpStreamWriter.writeAll rounds buf socket with
      | some (.ok (), next) => writeEach calls next
      | _ => none

private theorem writeAllLoop_moves (schedule : List Outcome) (sent buf : List UInt8) :
    writeAllLoop schedule sent buf =
      ((moveAll .writeZero schedule buf.length).result,
        ⟨sent ++ buf.take (moveAll .writeZero schedule buf.length).moved,
          (moveAll .writeZero schedule buf.length).schedule⟩) := by
  induction schedule generalizing sent buf with
  | nil => cases buf <;> simp [writeAllLoop, moveAll]
  | cons outcome rest ih =>
      cases buf with
      | nil => simp [writeAllLoop, moveAll]
      | cons byte buf =>
          cases outcome with
          | ready extra =>
              have clipped : min (extra + 1) (buf.length + 1) = min extra buf.length + 1 := by
                omega
              have left : (buf.drop (min extra buf.length)).length = buf.length - extra := by
                rw [List.length_drop]
                omega
              have shifted (moved : Nat) :
                  (byte :: buf).take (min extra buf.length + 1 + moved) =
                    byte :: (buf.take (min extra buf.length) ++
                      (buf.drop (min extra buf.length)).take moved) := by
                rw [Nat.add_right_comm, List.take_succ_cons, List.take_add]
              rw [writeAllLoop, Outcome.moves, clipped]
              change writeAllLoop rest (sent ++ byte :: buf.take (min extra buf.length))
                (buf.drop (min extra buf.length)) = _
              rw [ih, left, List.length_cons, moveAll_ready, shifted]
              simp only [List.append_assoc, List.cons_append]
          | interrupted => exact ih sent (byte :: buf)
          | closed | wouldBlock | failed code =>
              simp [writeAllLoop, Outcome.moves, moveAll]

private theorem writeAllOnce_moves (buf : List UInt8) (socket : Outgoing) :
    writeAllOnce buf socket =
      ((moveAll .writeZero socket.schedule buf.length).result,
        ⟨socket.sent ++ buf.take (moveAll .writeZero socket.schedule buf.length).moved,
          (moveAll .writeZero socket.schedule buf.length).schedule⟩) :=
  writeAllLoop_moves socket.schedule socket.sent buf

/-- A successful call has sent the whole buffer last; what it sent before that is
the beginnings of the attempts that blocked. -/
theorem writeAll_sent {rounds : Nat} {buf : List UInt8} {socket last : Outgoing}
    (finished : TcpStreamWriter.writeAll rounds buf socket = some (.ok (), last)) :
    ∃ repeated, last.sent = socket.sent ++ repeated ++ buf := by
  obtain ⟨before, ⟨repeated, sent⟩, written⟩ := ioPoll_ok (writeAllOnce buf)
    (fun world => ∃ repeated, world.sent = socket.sent ++ repeated)
    (fun world next held blocked => by
      obtain ⟨repeated, sent⟩ := held
      rw [writeAllOnce_moves] at blocked
      have after := congrArg (fun answer => answer.2.sent) blocked
      rw [← after, sent, List.append_assoc]
      exact ⟨_, rfl⟩)
    rounds socket last () ⟨[], (List.append_nil _).symm⟩ finished
  have attempt := writeAllOnce_moves buf before
  rw [written] at attempt
  have result := congrArg Prod.fst attempt
  have after := congrArg Prod.snd attempt
  obtain ⟨moved, _, _⟩ := moveAll_ok before.schedule buf.length result.symm
  simp only [moved, List.take_length, sent] at after
  subst after
  exact ⟨repeated, rfl⟩

private theorem writeAll_tally (rounds : Nat) (buf : List UInt8) (socket : Outgoing) :
    ioPoll (tallyAll .writeZero buf.length) rounds ⟨socket.schedule, socket.sent.length⟩ =
      (TcpStreamWriter.writeAll rounds buf socket).map
        (fun answer => (answer.1, ⟨answer.2.schedule, answer.2.sent.length⟩)) := by
  refine ioPoll_map (writeAllOnce buf) (tallyAll .writeZero buf.length)
    (fun world => ⟨world.schedule, world.sent.length⟩) (fun _ => True)
    (fun _ _ => trivial) ?_ rounds socket trivial
  intro world _held
  have less := moveAll_moved_le .writeZero world.schedule buf.length
  rw [writeAllOnce_moves]
  simp only [tallyAll, List.length_append, List.length_take, Nat.min_eq_left less]

private theorem writeAll_once {rounds : Nat} {buf : List UInt8} {socket last : Outgoing}
    (finished : TcpStreamWriter.writeAll rounds buf socket = some (.ok (), last)) :
    ∃ repeated, last.sent = socket.sent ++ repeated ++ buf ∧
      (repeated = [] ↔ Unbroken socket.schedule buf.length) ∧
      (Unbroken socket.schedule buf.length →
        last.schedule = leftover socket.schedule buf.length) := by
  obtain ⟨repeated, sent⟩ := writeAll_sent finished
  have tallied := writeAll_tally rounds buf socket
  rw [finished] at tallied
  obtain ⟨_, total, left⟩ := ioPoll_tally (by simp) buf.length rounds _ _ tallied
  refine ⟨repeated, sent, ?_, left⟩
  rw [← total, ← List.length_eq_zero_iff]
  simp only [sent, List.length_append]
  constructor
  · intro none
    omega
  · intro same
    omega

def EachUnbroken : List Outcome → List (List UInt8) → Prop
  | _, [] => True
  | schedule, buf :: buffers =>
      Unbroken schedule buf.length ∧ EachUnbroken (leftover schedule buf.length) buffers

private theorem writeEach_length {calls : List (Nat × List UInt8)} {socket last : Outgoing}
    (finished : writeEach calls socket = some last) :
    socket.sent.length + (calls.map Prod.snd).flatten.length ≤ last.sent.length := by
  induction calls generalizing socket with
  | nil =>
      cases finished
      simp
  | cons call calls ih =>
      obtain ⟨rounds, buf⟩ := call
      rw [writeEach] at finished
      split at finished
      · rename_i next written
        obtain ⟨repeated, sent⟩ := writeAll_sent written
        have later := ih finished
        rw [sent] at later
        simp only [List.length_append, List.map_cons, List.flatten_cons] at later ⊢
        omega
      · cases finished

/-- When all calls succeed the socket has accepted exactly the concatenation of the
buffers, if and only if the schedule was unbroken in each of them. -/
theorem writeEach_transmits_once (calls : List (Nat × List UInt8)) (socket last : Outgoing)
    (finished : writeEach calls socket = some last) :
    last.sent = socket.sent ++ (calls.map Prod.snd).flatten ↔
      EachUnbroken socket.schedule (calls.map Prod.snd) := by
  induction calls generalizing socket with
  | nil =>
      cases finished
      simp [EachUnbroken]
  | cons call calls ih =>
      obtain ⟨rounds, buf⟩ := call
      rw [writeEach] at finished
      split at finished
      · rename_i next written
        obtain ⟨repeated, sent, once, left⟩ := writeAll_once written
        rw [List.map_cons, List.flatten_cons, EachUnbroken]
        by_cases whole : Unbroken socket.schedule buf.length
        · have later := ih next finished
          rw [left whole, sent, once.mpr whole, List.append_nil, List.append_assoc] at later
          rw [later]
          exact ⟨fun rest => ⟨whole, rest⟩, fun both => both.2⟩
        · have longer := writeEach_length finished
          have some : repeated.length ≠ 0 :=
            fun none => whole (once.mp (List.length_eq_zero_iff.mp none))
          constructor
          · intro same
            rw [sent, same] at longer
            simp only [List.length_append] at longer
            omega
          · intro both
            exact absurd both.1 whole
      · cases finished

def patientWriter : Outgoing :=
  { sent := [], schedule := [.wouldBlock, .ready 7, .wouldBlock, .ready 0, .ready 0] }

theorem writeEach_after_pauses :
    ∃ last, writeEach [(2, [1, 2]), (2, [3, 4])] patientWriter = some last ∧
      last.sent = [1, 2, 3, 4] ∧
      (last.sent = patientWriter.sent ++ [[1, 2], [3, 4]].flatten ↔
        EachUnbroken patientWriter.schedule [[1, 2], [3, 4]]) :=
  ⟨_, rfl, rfl, writeEach_transmits_once [(2, [1, 2]), (2, [3, 4])] patientWriter _ rfl⟩

def brokenWriter : Outgoing := { sent := [], schedule := [.ready 0, .wouldBlock, .ready 1] }

/-- The first byte is sent twice. -/
theorem writeAll_repeats_byte :
    ∃ last, writeEach [(2, [1, 2])] brokenWriter = some last ∧ last.sent = [1, 1, 2] ∧
      ¬ last.sent = brokenWriter.sent ++ [[1, 2]].flatten :=
  ⟨_, rfl, by decide, by decide⟩

end Yaay.Net
