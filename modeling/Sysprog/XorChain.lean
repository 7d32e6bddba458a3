import Mathlib.Data.List.Basic
import Mathlib.Logic.Function.Basic

namespace Sysprog.XorChain

/-!
# Chains linked by the exclusive-or of their neighbours

Every node of such a chain stores one word: the exclusive-or of the addresses of
its two neighbours.  A `Chain` describes a segment of nodes between two given
neighbours.  The lemmas say how segments join and turn around, and what storing
to one node's link does to the segments around it.
-/

variable {width : Nat}

/-- The link word stored at every address. -/
abbrev Links (width : Nat) := BitVec width → BitVec width

/--
`Chain links previous nodes next`: the nodes are linked in this order, the first
one after `previous` and the last one before `next`.
-/
def Chain (links : Links width) : BitVec width → List (BitVec width) → BitVec width → Prop
  | _, [], _ => True
  | previous, node :: rest, next =>
      links node = previous ^^^ rest.headD next ∧ Chain links node rest next

variable
  {links : Links width}
  {previous next node : BitVec width}
  {nodes first second : List (BitVec width)}

/-- The null address is neutral. -/
theorem xor_null (word : BitVec width) : word ^^^ (0 : BitVec width) = word :=
  BitVec.xor_zero

theorem null_xor (word : BitVec width) : (0 : BitVec width) ^^^ word = word :=
  BitVec.zero_xor

@[simp] theorem chain_nil : Chain links previous [] next :=
  trivial

theorem chain_cons {rest : List (BitVec width)} :
    Chain links previous (node :: rest) next ↔
      links node = previous ^^^ rest.headD next ∧ Chain links node rest next :=
  Iff.rfl

/-- A single node between two neighbours. -/
theorem chain_singleton :
    Chain links previous [node] next ↔ links node = previous ^^^ next := by
  simp [Chain]

/-- Folding the address one came from out of a link gives the address to go to. -/
theorem Chain.forward
    {rest : List (BitVec width)}
    (chain : Chain links previous (node :: rest) next) :
    links node ^^^ previous = rest.headD next := by
  rw [chain.1, BitVec.xor_comm previous, BitVec.xor_assoc, BitVec.xor_self,
    BitVec.xor_zero]

/-- Two segments join where each is the other's neighbour. -/
theorem chain_append :
    Chain links previous (first ++ second) next ↔
      Chain links previous first (second.headD next) ∧
        Chain links (first.getLastD previous) second next := by
  induction first generalizing previous with
  | nil =>
      simp
  | cons node rest inductionHypothesis =>
      have headJoined : (rest ++ second).headD next = rest.headD (second.headD next) := by
        cases rest <;> simp
      have lastJoined : (node :: rest).getLastD previous = rest.getLastD node := by
        cases rest <;> simp [List.getLastD]
      simp only [List.cons_append, chain_cons, headJoined, lastJoined, inductionHypothesis,
        and_assoc]

/-- A chain read backwards is a chain. -/
theorem chain_reverse :
    Chain links next nodes.reverse previous ↔ Chain links previous nodes next := by
  induction nodes generalizing previous with
  | nil =>
      simp
  | cons node rest inductionHypothesis =>
      have lastOfReverse : rest.reverse.getLastD next = rest.headD next := by
        rw [List.getLastD_eq_getLast?, List.getLast?_reverse, List.headD_eq_head?_getD]
      rw [List.reverse_cons, chain_append, chain_singleton, chain_cons, lastOfReverse,
        BitVec.xor_comm, and_comm]
      simp only [List.headD_cons, inductionHypothesis]

/-- From a node in the middle of a chain, its right neighbour leads to its left one. -/
theorem Chain.backward
    {leading trailing : List (BitVec width)}
    (chain : Chain links previous (leading ++ node :: trailing) next) :
    links node ^^^ trailing.headD next = leading.getLastD previous := by
  have here := (chain_append.mp chain).2.1
  rw [here, BitVec.xor_assoc, BitVec.xor_self, BitVec.xor_zero]

/-- From a node in the middle of a chain, its left neighbour leads to its right one. -/
theorem Chain.onward
    {leading trailing : List (BitVec width)}
    (chain : Chain links previous (leading ++ node :: trailing) next) :
    links node ^^^ leading.getLastD previous = trailing.headD next :=
  (chain_append.mp chain).2.forward

/-- The link of the node at an index joins the nodes at the two indices beside it. -/
theorem Chain.link_at
    {index : Nat}
    (chain : Chain links previous nodes next)
    (inside : index < nodes.length) :
    links (nodes.getD index next) =
      (previous :: nodes).getD index next ^^^ nodes.getD (index + 1) next := by
  induction nodes generalizing previous index with
  | nil =>
      simp at inside
  | cons node rest inductionHypothesis =>
      cases index with
      | zero =>
          have here := chain.1
          cases rest <;> simpa using here
      | succ index =>
          simp only [List.length_cons] at inside
          simpa using inductionHypothesis chain.2 (by omega)

/-- Stores to other nodes do not disturb a chain. -/
theorem chain_congr
    {other : Links width}
    (agree : ∀ node ∈ nodes, other node = links node) :
    Chain other previous nodes next ↔ Chain links previous nodes next := by
  induction nodes generalizing previous with
  | nil =>
      simp
  | cons node rest inductionHypothesis =>
      rw [chain_cons, chain_cons, agree node (by simp),
        inductionHypothesis fun later member => agree later (List.mem_cons_of_mem node member)]

/-- A store to a node outside a chain leaves the chain. -/
theorem Chain.store_other
    {target : BitVec width}
    (chain : Chain links previous nodes next)
    (outside : target ∉ nodes)
    (value : BitVec width) :
    Chain (Function.update links target value) previous nodes next := by
  refine (chain_congr ?_).mpr chain
  intro node member
  apply Function.update_of_ne
  intro same
  subst same
  exact outside member

/-- Exchanging the left neighbour in the first node's link. -/
theorem Chain.store_first
    {rest : List (BitVec width)}
    (chain : Chain links previous (node :: rest) next)
    (fresh : node ∉ rest)
    (replacement : BitVec width) :
    Chain (Function.update links node (links node ^^^ previous ^^^ replacement))
      replacement (node :: rest) next := by
  refine ⟨?_, chain.2.store_other fresh _⟩
  rw [Function.update_self, chain.forward, BitVec.xor_comm]

/-- Exchanging the right neighbour in the last node's link. -/
theorem Chain.store_last
    {leading : List (BitVec width)}
    (chain : Chain links previous (leading ++ [node]) next)
    (fresh : node ∉ leading)
    (replacement : BitVec width) :
    Chain (Function.update links node (links node ^^^ next ^^^ replacement))
      previous (leading ++ [node]) replacement := by
  have turned : Chain links next (node :: leading.reverse) previous := by
    rw [← chain_reverse] at chain
    simpa using chain
  have stored := turned.store_first (by simpa using fresh) replacement
  rw [← chain_reverse]
  simpa using stored

end Sysprog.XorChain
