import Mathlib.Data.List.Nodup
import Mathlib.Logic.Function.Basic

namespace Sysprog.LinkedHeap

/-!
# Singly linked lists in a heap

A link is a place that holds a pointer to a node or the null pointer: the variable that
points to the first node, or the `next` field of a node.  The heap says what every link
holds.  A path is a sequence of nodes, each found in the `next` field of the one before.
The lemmas say how paths join, what storing to a link does to the paths around it, and
that a list determines the links it goes over.
-/

variable {Node : Type}

/-- A place that holds a pointer to a node. -/
inductive Link (Node : Type) where
  | root
  | next (node : Node)
  deriving DecidableEq

/-- The pointer that every link holds. -/
abbrev Heap (Node : Type) := Link Node → Option Node

/-- Store a pointer to a link. -/
def Heap.store [DecidableEq Node]
    (heap : Heap Node) (link : Link Node) (pointer : Option Node) : Heap Node :=
  Function.update heap link pointer

/-- The place of `pointer->next`; there is none for the null pointer. -/
def field (pointer : Option Node) : Option (Link Node) :=
  pointer.map .next

@[simp] theorem field_some (node : Node) : field (some node) = some (.next node) :=
  rfl

/-- From `pointer` on, the nodes follow each other in this order, and the last leads to `stop`. -/
def Path (heap : Heap Node) : Option Node → List Node → Option Node → Prop
  | pointer, [], stop => pointer = stop
  | pointer, node :: rest, stop => pointer = some node ∧ Path heap (heap (.next node)) rest stop

/-- The link holds a list of distinct nodes that ends with a null pointer. -/
structure Listed (heap : Heap Node) (link : Link Node) (nodes : List Node) : Prop where
  path : Path heap (heap link) nodes none
  distinct : nodes.Nodup
  outside : ∀ node ∈ nodes, link ≠ .next node

/-- Nothing but the list has changed: what other links hold is as before. -/
def Unchanged (heap after : Heap Node) (link : Link Node) (nodes : List Node) : Prop :=
  ∀ other, other ≠ link → (∀ node ∈ nodes, other ≠ .next node) → after other = heap other

variable
  {heap after : Heap Node}
  {pointer stop : Option Node}
  {nodes first second : List Node}
  {node : Node}
  {link : Link Node}

@[simp] theorem path_nil : Path heap pointer [] stop ↔ pointer = stop :=
  Iff.rfl

@[simp] theorem path_cons {rest : List Node} :
    Path heap pointer (node :: rest) stop ↔
      pointer = some node ∧ Path heap (heap (.next node)) rest stop :=
  Iff.rfl

/-- Different nodes have different links. -/
theorem next_ne {other : Node} (distinct : node ≠ other) : Link.next node ≠ .next other := by
  simpa using distinct

/-- The link of a node that is not among these is none of theirs. -/
theorem next_outside (apart : node ∉ nodes) :
    ∀ other ∈ nodes, Link.next node ≠ .next other := by
  intro other member same
  obtain rfl := Link.next.inj same
  exact apart member

/-- Two paths join at the pointer between them. -/
theorem path_append :
    Path heap pointer (first ++ second) stop ↔
      ∃ middle, Path heap pointer first middle ∧ Path heap middle second stop := by
  induction first generalizing pointer with
  | nil => simp
  | cons node rest inductionHypothesis => simp [inductionHypothesis, and_assoc]

/-- A path to one more node. -/
theorem path_snoc :
    Path heap pointer (first ++ [node]) stop ↔
      Path heap pointer first (some node) ∧ heap (.next node) = stop := by
  rw [path_append]
  constructor
  · rintro ⟨middle, before, rfl, last⟩
    exact ⟨before, last⟩
  · rintro ⟨before, last⟩
    exact ⟨some node, before, rfl, last⟩

/-- A path depends on nothing but the `next` fields of its nodes. -/
theorem Path.congr
    (path : Path heap pointer nodes stop)
    (same : ∀ node ∈ nodes, after (.next node) = heap (.next node)) :
    Path after pointer nodes stop := by
  induction nodes generalizing pointer with
  | nil => exact path
  | cons node rest inductionHypothesis =>
      refine ⟨path.1, ?_⟩
      rw [same node List.mem_cons_self]
      exact inductionHypothesis path.2 fun other member =>
        same other (List.mem_cons_of_mem _ member)

/-- The null pointer at the end decides how far a path goes. -/
theorem Path.unique
    {others : List Node}
    (path : Path heap pointer nodes none)
    (other : Path heap pointer others none) :
    nodes = others := by
  induction nodes generalizing pointer others with
  | nil =>
      cases others with
      | nil => rfl
      | cons node rest => exact absurd (path.symm.trans other.1) (by simp)
  | cons node rest inductionHypothesis =>
      cases others with
      | nil => exact absurd (other.symm.trans path.1) (by simp)
      | cons otherNode otherRest =>
          obtain rfl := Option.some.inj (path.1.symm.trans other.1)
          rw [inductionHypothesis path.2 other.2]

/-- The same list leads over the same links with the same pointers in them. -/
theorem Path.next_eq
    (path : Path heap pointer nodes stop)
    (other : Path after pointer nodes stop)
    (member : node ∈ nodes) :
    after (.next node) = heap (.next node) := by
  induction nodes generalizing pointer with
  | nil => simp at member
  | cons start rest inductionHypothesis =>
      have next : after (.next start) = heap (.next start) := by
        cases rest with
        | nil => rw [path.2, other.2]
        | cons second rest => rw [path.2.1, other.2.1]
      rcases List.mem_cons.mp member with rfl | later
      · exact next
      · have remaining := other.2
        rw [next] at remaining
        exact inductionHypothesis path.2 remaining later

/-- What a link of a list holds at first is the first node of the list. -/
theorem Path.pointer_eq (path : Path heap pointer nodes none) : pointer = nodes.head? := by
  cases nodes with
  | nil => exact path
  | cons node rest => exact path.1

/-- The same list at the same link, and nothing else changed: this is the same heap. -/
theorem heap_eq
    (listed : Listed heap link nodes)
    (other : Listed after link nodes)
    (unchanged : Unchanged heap after link nodes) :
    after = heap := by
  have start : after link = heap link := by
    rw [listed.path.pointer_eq, other.path.pointer_eq]
  funext place
  by_cases here : place = link
  · rw [here, start]
  · by_cases inside : ∃ node ∈ nodes, place = .next node
    · obtain ⟨node, member, rfl⟩ := inside
      have path := other.path
      rw [start] at path
      exact listed.path.next_eq path member
    · exact unchanged place here fun node member same => inside ⟨node, member, same⟩

/-- Changes of the same list add up. -/
theorem Unchanged.trans
    {final : Heap Node}
    {others : List Node}
    (before : Unchanged heap after link nodes)
    (later : Unchanged after final link others)
    (same : ∀ node ∈ others, node ∈ nodes) :
    Unchanged heap final link nodes := by
  intro place apart missed
  rw [later place apart fun node member => missed node (same node member)]
  exact before place apart missed

/-! ## A list of every length -/

/-- The numbers below `n`, linked in their order. -/
def counted (n : Nat) : Heap Nat
  | .root => if 0 < n then some 0 else none
  | .next node => if node + 1 < n then some (node + 1) else none

/-- From a number on, what remains of the numbers below `n`. -/
theorem counted_path {n start count : Nat} (whole : start + count = n) :
    Path (counted n) (if start < n then some start else none) (List.range' start count)
      none := by
  induction count generalizing start with
  | zero => simp [show ¬ start < n by omega]
  | succ count inductionHypothesis =>
      rw [List.range'_succ, path_cons, if_pos (by omega)]
      exact ⟨rfl, @inductionHypothesis (start + 1) (by omega)⟩

theorem counted_listed (n : Nat) : Listed (counted n) .root (List.range n) := by
  refine ⟨?_, List.nodup_range, fun node _ => by simp⟩
  rw [List.range_eq_range']
  exact counted_path (Nat.zero_add n)

/-! ## Storing -/

section Stores

variable [DecidableEq Node] {value : Option Node}

@[simp] theorem store_same : heap.store link value link = value := by
  rw [Heap.store, Function.update_self]

theorem store_other {other : Link Node} (apart : other ≠ link) :
    heap.store link value other = heap other := by
  rw [Heap.store, Function.update_of_ne apart]

/-- Storing to a link that no node of a path has leaves the path as it is. -/
theorem Path.store
    (path : Path heap pointer nodes stop)
    (outside : ∀ node ∈ nodes, link ≠ .next node) :
    Path (heap.store link value) pointer nodes stop :=
  path.congr fun node member => store_other fun same => outside node member same.symm

end Stores

end Sysprog.LinkedHeap
