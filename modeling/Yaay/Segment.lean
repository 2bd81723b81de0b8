import Mathlib.Data.List.Chain
import Mathlib.Data.List.Nodup

set_option autoImplicit false

/-! Segments of nodes that are linked through one shared field. The links outside of a
segment, and that of its last node, are arbitrary. -/

namespace Yaay

universe u

variable {Node : Type u}

/-- The nodes from the head to the tail, in the order of their links. -/
structure Segment (next : Node → Option Node) (head tail : Option Node) (nodes : List Node) :
    Prop where
  head_eq : head = nodes.head?
  tail_eq : tail = nodes.getLast?
  linked : nodes.IsChain (fun node after => next node = some after)
  distinct : nodes.Nodup

namespace Segment

variable {next : Node → Option Node} {head tail : Option Node} {nodes : List Node}

theorem empty (next : Node → Option Node) : Segment next none none [] :=
  ⟨rfl, rfl, List.isChain_nil, List.nodup_nil⟩

theorem single (next : Node → Option Node) (node : Node) :
    Segment next (some node) (some node) [node] :=
  ⟨rfl, rfl, List.isChain_singleton node, List.nodup_singleton node⟩

theorem head_eq_none (segment : Segment next head tail nodes) : head = none ↔ nodes = [] := by
  rw [segment.head_eq, List.head?_eq_none_iff]

theorem tail_eq_none (segment : Segment next head tail nodes) : tail = none ↔ nodes = [] := by
  rw [segment.tail_eq, List.getLast?_eq_none_iff]

theorem congr {after : Node → Option Node} (segment : Segment next head tail nodes)
    (same : ∀ node ∈ nodes, after node = next node) : Segment after head tail nodes :=
  { segment with
    linked := by
      apply segment.linked.imp_of_mem_imp
      intro node other member _other linked
      rw [same node member]
      exact linked }

/-- Behind the first node the segment goes on at its link, unless it was the last one. -/
theorem rest {first : Node} (segment : Segment next (some first) tail nodes) :
    ∃ rest, nodes = first :: rest ∧ (tail = some first ↔ rest = []) ∧
      (rest ≠ [] → Segment next (next first) tail rest) := by
  cases nodes with
  | nil => cases segment.head_eq
  | cons node rest =>
      have same : first = node := Option.some.inj segment.head_eq
      subst same
      have linked := List.isChain_cons.mp segment.linked
      have distinct := List.nodup_cons.mp segment.distinct
      refine ⟨rest, rfl, ?_, ?_⟩
      · constructor
        · intro last
          by_contra nonempty
          rw [segment.tail_eq, List.getLast?_cons_of_ne_nil nonempty] at last
          exact distinct.1 (List.mem_of_getLast? last)
        · intro none
          rw [segment.tail_eq, none]
          rfl
      · intro nonempty
        obtain ⟨second, later, starting⟩ := List.exists_cons_of_ne_nil nonempty
        rw [starting] at linked
        refine ⟨?_, ?_, starting ▸ linked.2, distinct.2⟩
        · rw [starting]
          exact linked.1 second rfl
        · rw [segment.tail_eq, List.getLast?_cons_of_ne_nil nonempty]

variable [DecidableEq Node]

/-- A write to a link outside of the segment, or to that of its last node. -/
theorem update {node : Node} (link : Option Node) (segment : Segment next head tail nodes)
    (outside : node ∈ nodes → tail = some node) :
    Segment (Function.update next node link) head tail nodes := by
  refine ⟨segment.head_eq, segment.tail_eq, ?_, segment.distinct⟩
  have ending : node ∈ nodes → nodes.getLast? = some node := by
    intro member
    rw [← segment.tail_eq, outside member]
  have linked := segment.linked
  have distinct := segment.distinct
  clear segment outside
  induction nodes with
  | nil => exact List.isChain_nil
  | cons first rest ih =>
      rw [List.isChain_cons] at linked ⊢
      have inner : node ∈ rest → rest.getLast? = some node := by
        intro member
        have last := ending (List.mem_cons_of_mem _ member)
        rwa [List.getLast?_cons_of_ne_nil (List.ne_nil_of_mem member)] at last
      refine ⟨?_, ih inner linked.2 (List.nodup_cons.mp distinct).2⟩
      intro second here
      have different : first ≠ node := by
        intro same
        have nonempty : rest ≠ [] := by
          intro none
          rw [none] at here
          cases here
        have last := ending (same ▸ List.mem_cons_self)
        rw [List.getLast?_cons_of_ne_nil nonempty] at last
        exact (List.nodup_cons.mp distinct).1 (same ▸ List.mem_of_getLast? last)
      rw [Function.update_of_ne different]
      exact linked.1 second here

theorem join {last first : Node} {front rear : List Node} {finish : Option Node}
    (before : Segment next head (some last) front)
    (after : Segment next (some first) finish rear) (apart : front.Disjoint rear) :
    Segment (Function.update next last (some first)) head finish (front ++ rear) := by
  have member : last ∈ front := List.mem_of_getLast? before.tail_eq.symm
  have left := before.update (some first) (fun _ => rfl)
  have right := after.update (some first) (fun other => absurd other (apart member))
  have nonempty : rear ≠ [] := fun none => by
    rw [← after.head_eq_none] at none
    cases none
  constructor
  · rw [List.head?_append_of_ne_nil _ (List.ne_nil_of_mem member), ← before.head_eq]
  · rw [List.getLast?_append_of_ne_nil _ nonempty, ← after.tail_eq]
  · apply left.linked.append right.linked
    intro node ending other starting
    have same : last = node := by
      rw [← before.tail_eq] at ending
      exact Option.some.inj ending
    have target : first = other := by
      rw [← after.head_eq] at starting
      exact Option.some.inj starting
    rw [same, Function.update_self, target]
  · exact before.distinct.append after.distinct apart

end Segment

end Yaay
