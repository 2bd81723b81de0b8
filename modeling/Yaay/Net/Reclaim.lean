import Yaay.Net.SlotOwnership

set_option autoImplicit false

/-! No slot is forgotten: the key of a cell that has ended is in the hands of its reactor or in
its list until it is removed, and a drain of that list that comes to its end has left none. -/

namespace Yaay.Net.Reactor

open Yaay.Transition

variable {n : Nat} {s s' : State} {id : CellId} {cell : Cell} {side : Side} {reactor : ReactorId}

/-- The cell has ended, and its key is still in the slab. -/
def Cell.Due (cell : Cell) : Prop := cell.phase = .deferred ∧ cell.removals = 0

def Listed (s : State) : Prop :=
  ∀ id, (s.cells id).Due → (s.cells id).key ∈ s.pending (s.cells id).localI

structure Keeps (s s' : State) : Prop where
  cells : ∀ id, (s'.cells id).Due →
    (s.cells id).Due ∧ (s'.cells id).place = (s.cells id).place
  pending : ∀ reactor, ∀ key ∈ s.pending reactor, key ∈ s'.pending reactor

theorem Listed.keep (listed : Listed s) (keeps : Keeps s s') : Listed s' := by
  intro id due
  obtain ⟨before, place⟩ := keeps.cells id due
  obtain ⟨localI, key⟩ := Prod.mk.inj place
  rw [localI, key]
  exact keeps.pending _ _ (listed id before)

theorem Keeps.recell (changed : s'.cells = Function.update s.cells id cell)
    (loop : s'.loop = s.loop) (deferred : s'.deferredRemove = s.deferredRemove)
    (due : cell.Due → (s.cells id).Due ∧ cell.place = (s.cells id).place) : Keeps s s' := by
  constructor
  · intro other ended
    rw [changed] at ended ⊢
    by_cases same : other = id
    · subst other
      rw [Function.update_self] at ended ⊢
      exact due ended
    · rw [Function.update_of_ne same] at ended ⊢
      exact ⟨ended, rfl⟩
  · intro reactor key member
    rw [State.pending, loop, deferred]
    exact member

theorem Keeps.phase (changed : s'.cells = Function.update s.cells id cell)
    (loop : s'.loop = s.loop) (deferred : s'.deferredRemove = s.deferredRemove)
    (still : cell.phase ≠ .deferred) : Keeps s s' :=
  .recell changed loop deferred (fun due => absurd due.1 still)

theorem Keeps.handle {handle : Handle}
    (changed : s'.cells = Function.update s.cells id ((s.cells id).setHandle side handle))
    (loop : s'.loop = s.loop) (deferred : s'.deferredRemove = s.deferredRemove) : Keeps s s' := by
  obtain ⟨phase, place, removals⟩ := (s.cells id).setHandle_keeps side handle
  refine .recell changed loop deferred ?_
  rintro ⟨ended, kept⟩
  exact ⟨⟨phase ▸ ended, removals ▸ kept⟩, place⟩

theorem Keeps.idle (cells : s'.cells = s.cells) (loop : s'.loop = s.loop)
    (deferred : s'.deferredRemove = s.deferredRemove) : Keeps s s' := by
  constructor
  · intro id due
    rw [cells] at due ⊢
    exact ⟨due, rfl⟩
  · intro reactor key member
    rw [State.pending, loop, deferred]
    exact member

theorem Keeps.loop {loop : Loop} (free : (s.loop reactor).inHand = []) :
    Keeps s (s.setLoop reactor loop) := by
  constructor
  · exact fun id due => ⟨due, rfl⟩
  · intro other key member
    by_cases same : other = reactor
    · subst other
      rw [State.pending, free] at member
      exact List.mem_append_right _ member
    · simp only [State.pending, State.setLoop, Function.update_of_ne same]
      exact member

theorem Keeps.withSlot {change : Slot → Except Violation Slot} {handle : Handle} :
    Keeps s (withSlot s id change ((s.cells id).setHandle side handle)) := by
  unfold Reactor.withSlot
  split
  · exact .idle rfl rfl rfl
  · split
    · exact .idle rfl rfl rfl
    · exact .handle rfl rfl rfl

theorem Listed.defer (listed : Listed s) (taken : defer s id = some s') : Listed s' := by
  unfold Reactor.defer at taken
  split at taken
  · split at taken
    · cases taken
      exact listed.keep (.idle rfl rfl rfl)
    · split at taken
      · cases taken
        intro other due
        by_cases same : other = id
        · subst other
          simp only [State.setCell, State.setDeferred, State.pending, Function.update_self]
          exact List.mem_append_right _ (List.mem_append_right _ (List.mem_singleton_self _))
        · simp only [State.setCell, State.setDeferred, State.pending,
            Function.update_of_ne same] at due ⊢
          have member := listed other due
          by_cases home : (s.cells other).localI = (s.cells id).localI
          · rw [home] at member ⊢
            rw [Function.update_self, ← List.append_assoc]
            exact List.mem_append_left _ member
          · rw [Function.update_of_ne home]
            exact member
      · cases taken
        exact listed.keep (.idle rfl rfl rfl)
  · cases taken

theorem Listed.pop (listed : Listed s) (taken : pop s reactor = some s') : Listed s' := by
  unfold Reactor.pop at taken
  split at taken
  · next final draining =>
      have free : (s.loop reactor).inHand = [] := by
        rw [draining]
        rfl
      split at taken
      · next key last =>
          cases taken
          have whole : (s.deferredRemove reactor).dropLast ++ [key] = s.deferredRemove reactor :=
            List.dropLast_append_getLast? key last
          refine listed.keep ⟨fun id due => ⟨due, rfl⟩, ?_⟩
          intro other waiting member
          by_cases same : other = reactor
          · subst other
            simp only [State.pending, State.setLoop, State.setDeferred, Function.update_self]
            rw [State.pending, free, List.nil_append, ← whole] at member
            exact List.mem_append.mpr (List.mem_append.mp member).symm
          · simp only [State.pending, State.setLoop, State.setDeferred,
              Function.update_of_ne same]
            exact member
      · cases taken
        exact listed.keep (.loop free)
  · cases taken

theorem Listed.remove (listed : Listed s) (inv : Inv s) (taken : remove s reactor = some s') :
    Listed s' := by
  unfold Reactor.remove at taken
  split at taken
  · next key final hand =>
      obtain ⟨slot, found, holds, _deferred, place⟩ := inv.slots.removing hand
      rw [found] at taken
      cases taken
      intro other due
      by_cases same : other = slot.owner
      · subst other
        simp only [State.setLoop, State.setCell, Function.update_self] at due
        exact absurd due.2 (Nat.succ_ne_zero _)
      · simp only [State.setLoop, State.setCell, State.setSlot, State.pending,
          Function.update_of_ne same] at due ⊢
        have member := listed other due
        have held : (s.cells other).Holds := by
          refine ⟨?_, due.2⟩
          rw [due.1]
          rfl
        by_cases home : (s.cells other).localI = reactor
        · rw [home] at member ⊢
          rw [Function.update_self]
          rw [State.pending, hand] at member
          rcases List.mem_cons.mp member with first | waiting
          · have shared : (s.cells other).place = (s.cells slot.owner).place := by
              rw [place, Cell.place, home, first]
            exact absurd (inv.slots.owner_unique held holds shared) same
          · exact waiting
        · rw [Function.update_of_ne home]
          exact member
  · cases taken

theorem Listed.step {action : Action} (listed : Listed s) (inv : Inv s)
    (taken : step n s action = some s') : Listed s' := by
  cases action with
  | defer id => exact listed.defer taken
  | pop reactor => exact listed.pop taken
  | remove reactor => exact listed.remove inv taken
  | choose id kind | insert id key | register id | registerFails id | deregister id =>
      simp only [Reactor.step, choose, insert, register, registerFails, deregister] at taken
      split at taken
      · cases taken
        exact listed.keep (.phase rfl rfl rfl Phase.noConfusion)
      · cases taken
  | registered id =>
      simp only [Reactor.step, registered] at taken
      split at taken
      · cases taken
        exact listed.keep (.phase rfl rfl rfl Phase.noConfusion)
      · cases taken
  | allocate id side addr =>
      simp only [Reactor.step, allocate] at taken
      split at taken
      · cases taken
        exact listed.keep (.handle rfl rfl rfl)
      · cases taken
  | free id side =>
      simp only [Reactor.step, free] at taken
      split at taken
      · cases taken
        exact listed.keep (.handle rfl rfl rfl)
      · cases taken
  | attach id side | del id side =>
      simp only [Reactor.step, attach, del] at taken
      split at taken
      · split at taken
        · cases taken
          exact listed.keep .withSlot
        · cases taken
      · cases taken
  | dropHandle id side =>
      simp only [Reactor.step, dropHandle] at taken
      split at taken
      · rename_i free
        cases taken
        have there : (s.cells id).handle side ≠ .absent := by
          rw [free]
          exact Handle.noConfusion
        have live := (inv.live there).1
        refine listed.keep (.phase rfl rfl rfl ?_)
        obtain ⟨phase, _place, _removals⟩ := (s.cells id).setHandle_keeps side .absent
        split
        · exact Phase.noConfusion
        · rw [live]
          exact Phase.noConfusion
      · cases taken
  | setShutdown =>
      cases taken
      exact listed.keep (.idle rfl rfl rfl)
  | check reactor =>
      simp only [Reactor.step, check] at taken
      split at taken
      · split at taken
        · rename_i here
          cases taken
          exact listed.keep (.loop (by rw [here]; rfl))
        · cases taken
      · cases taken
  | poll reactor | pollFails reactor | lock reactor | unlock reactor | pushBatch reactor =>
      simp only [Reactor.step, poll, pollFails, lock, unlock, pushBatch] at taken
      split at taken
      · rename_i here
        cases taken
        exact listed.keep (.loop (by rw [here]; rfl))
      · cases taken
  | pollReturns reactor events =>
      simp only [Reactor.step, pollReturns] at taken
      split at taken
      · rename_i here
        split at taken
        · cases taken
          exact listed.keep (.loop (by rw [here]; rfl))
        · cases taken
      · cases taken
  | process reactor =>
      simp only [Reactor.step, process] at taken
      split at taken
      · rename_i here
        split at taken
        · cases taken
          exact listed.keep (.idle rfl rfl rfl)
        · split at taken
          · cases taken
            exact listed.keep (.loop (by rw [here]; rfl))
          · cases taken
            exact listed.keep (.idle rfl rfl rfl)
      · cases taken

private theorem reachable_listed (reached : (system n).Reachable anyAction s) : Listed s := by
  apply reached.invariant Listed
  · intro state start id due
    rw [start] at due
    cases due.1
  · intro state next action earlier listed _permitted taken
    exact listed.step (reachable_inv earlier) taken

private theorem due_of_deferred (inv : Inv s) {place : ReactorId × Key} {slot : Slot}
    (found : s.slab place = some slot) (ended : (s.cells slot.owner).phase = .deferred) :
    (s.cells slot.owner).Due ∧ (s.cells slot.owner).place = place :=
  ⟨⟨ended, (inv.slots.owned place slot found).1.2⟩, (inv.slots.owned place slot found).2⟩

private theorem empty_of_drained (taken : pop s reactor = some s')
    (drained : ∀ key final, s'.loop reactor ≠ .removing key final) : s'.pending reactor = [] := by
  unfold Reactor.pop at taken
  split at taken
  · next final draining =>
      split at taken
      · next key last =>
          cases taken
          refine absurd ?_ (drained key final)
          simp only [State.setLoop, Function.update_self]
      · next none =>
          cases taken
          have empty : s.deferredRemove reactor = [] := List.getLast?_eq_none_iff.mp none
          simp only [State.pending, State.setLoop, Function.update_self, empty, List.append_nil]
          cases final <;> rfl
  · cases taken

/-- A slot whose cell has ended is to be removed, once; what is to be removed is such a slot; and
a reactor that has come to the end of its list, in a turn or behind the loop, has no such slot. -/
theorem slots_reclaimed (reached : (system n).Reachable anyAction s) :
    (∀ reactor key slot, s.slab (reactor, key) = some slot →
      (s.cells slot.owner).phase = .deferred → (s.pending reactor).count key = 1) ∧
      (∀ reactor, ∀ key ∈ s.pending reactor, ∃ slot, s.slab (reactor, key) = some slot ∧
        (s.cells slot.owner).phase = .deferred) ∧
      ∀ reactor s', step n s (.pop reactor) = some s' →
        (∀ key final, s'.loop reactor ≠ .removing key final) →
        ∀ key slot, s'.slab (reactor, key) = some slot →
          (s'.cells slot.owner).phase ≠ .deferred := by
  have inv := reachable_inv reached
  have listed := reachable_listed reached
  refine ⟨?_, ?_, ?_⟩
  · intro reactor key slot found ended
    obtain ⟨due, place⟩ := due_of_deferred inv found ended
    obtain ⟨localI, same⟩ := Prod.mk.inj place
    have member := listed slot.owner due
    rw [localI, same] at member
    exact List.count_eq_one_of_mem (inv.slots.distinct reactor) member
  · intro reactor key member
    obtain ⟨id, holds, ended, place⟩ := inv.slots.due reactor key member
    have found := inv.slots.occupied id holds
    rw [place] at found
    exact ⟨_, found, ended⟩
  · intro reactor s' taken drained key slot found ended
    have later : Inv s' := inv.step taken
    obtain ⟨due, place⟩ := due_of_deferred later found ended
    obtain ⟨localI, _same⟩ := Prod.mk.inj place
    have member := listed.step inv taken slot.owner due
    rw [localI, empty_of_drained taken drained] at member
    cases member

def disconnected : List Action :=
  connected ++ [.del 0 .read, .free 0 .read, .dropHandle 0 .read, .del 0 .write, .free 0 .write,
    .dropHandle 0 .write, .deregister 0, .defer 0]

private theorem disconnected_runs : ((system 2).exec State.init disconnected).isSome = true := by
  decide +kernel

def streamEnded : State := ((system 2).exec State.init disconnected).get disconnected_runs

private theorem streamEnded_reached : (system 2).Reachable anyAction streamEnded :=
  System.Reachable.replay_any (.initial State.init rfl) disconnected_runs

theorem slot_of_stream_reclaimed :
    (streamEnded.slab (0, 5)).map Slot.owner = some 0 ∧ (streamEnded.pending 0).count 5 = 1 := by
  have owned : (streamEnded.slab (0, 5)).map Slot.owner = some 0 := by decide +kernel
  have ended : (streamEnded.cells 0).phase = .deferred := by decide +kernel
  refine ⟨owned, ?_⟩
  obtain ⟨slot, found, owner⟩ := Option.map_eq_some_iff.mp owned
  refine (slots_reclaimed streamEnded_reached).1 0 5 slot found ?_
  rw [owner]
  exact ended

end Yaay.Net.Reactor
