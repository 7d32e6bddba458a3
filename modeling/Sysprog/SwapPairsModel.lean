import Mathlib.Algebra.Group.Nat.Defs
import Sysprog.FuelLoop
import Sysprog.LinkedHeap

namespace Sysprog.SwapPairs

open FuelLoop LinkedHeap

/-!
# The linked list of `swap-pairs/link-list.c`

A `node_t **` is a link, a `node_t *` is what a link holds.  The functions read no node's
value.  `none` is a null pointer that is dereferenced, a signed overflow, or a budget of
rounds or calls that runs out.
-/

variable {Node : Type} [DecidableEq Node]

/-! ## `swap_pair` -/

/-- The body of the loop of `swap_pair`, with the step to the next pair. -/
def swapStep (heap : Heap Node) (node : Link Node) : Option (Heap Node × Link Node) := do
  let tmp := heap node
  let heap := heap.store node (heap (← field (heap node)))
  let heap := heap.store (← field tmp) (heap (← field (heap node)))
  let heap := heap.store (← field (heap node)) tmp
  let node ← field (heap (← field (heap node)))
  return (heap, node)

/-- `*node && (*node)->next`. -/
def pairAhead (heap : Heap Node) (node : Link Node) : Bool :=
  match heap node with
  | none => false
  | some first => (heap (.next first)).isSome

/-- One round of the loop of `swap_pair`. -/
def swapRound : Heap Node × Link Node → Round (Heap Node × Link Node) (Option (Heap Node))
  | (heap, node) =>
      if pairAhead heap node then
        match swapStep heap node with
        | some state => .again state
        | none => .leave none
      else
        .leave (some heap)

/-- `swap_pair`. -/
def swapPair (fuel : Nat) (heap : Heap Node) (head : Link Node) : Option (Heap Node) :=
  (loop swapRound fuel (heap, head)).join

/-! ## `reverse` -/

/-- `rev_recursive`: the heap afterwards and the pointer returned. -/
def revRecursive : Nat → Heap Node → Option Node → Option (Heap Node × Option Node)
  | 0, _, _ => none
  | fuel + 1, heap, cur =>
      match cur with
      | none => some (heap, cur)
      | some node =>
          if heap (.next node) = none then
            some (heap, cur)
          else do
            let (heap, head) ← revRecursive fuel heap (heap (.next node))
            let heap := heap.store (← field (heap (.next node))) cur
            let heap := heap.store (.next node) none
            return (heap, head)

/-- `reverse`. -/
def reverse (fuel : Nat) (heap : Heap Node) (head : Link Node) : Option (Heap Node) := do
  let (heap, pointer) ← revRecursive fuel heap (heap head)
  return heap.store head pointer

/-! ## `fisher_yates_shuffle` -/

/-- The number of values of an `int` that are not negative. -/
abbrev ints : Nat := 2 ^ 31

/-- One round of the loop that counts the nodes in an `int`. -/
def lengthRound (heap : Heap Node) :
    Nat × Option Node → Round (Nat × Option Node) (Option Nat)
  | (len, none) => .leave (some len)
  | (len, some node) =>
      if len + 1 < ints then .again (len + 1, heap (.next node)) else .leave none

/-- `target = &((*target)->next)`, so many times. -/
def walk (heap : Heap Node) : Nat → Link Node → Option (Link Node)
  | 0, target => some target
  | count + 1, target => do walk heap count (← field (heap target))

/-- The exchange of the nodes that the two links hold, and the step to the next link. -/
def exchange (heap : Heap Node) (cur target : Link Node) :
    Option (Heap Node × Link Node) := do
  let tmp := heap target
  let heap := heap.store target (heap cur)
  let heap := heap.store cur tmp
  let tmp := heap (← field (heap target))
  let heap := heap.store (← field (heap target)) (heap (← field (heap cur)))
  let heap := heap.store (← field (heap cur)) tmp
  return (heap, ← field (heap cur))

/-- The rounds for `i` down to 1; `rand i` is what `rand()` returns in the round of `i`. -/
def shuffleRounds (rand : Nat → Nat) : Nat → Heap Node → Link Node → Option (Heap Node)
  | 0, heap, _ => some heap
  | i + 1, heap, cur => do
      let j := rand (i + 1) % (i + 1 + 1)
      let target ← walk heap j cur
      let (heap, cur) ← exchange heap cur target
      shuffleRounds rand i heap cur

/-- `fisher_yates_shuffle`; the last loop starts at `len - 1`, and does nothing from 0 down. -/
def fisherYatesShuffle
    (fuel : Nat)
    (rand : Nat → Nat)
    (heap : Heap Node)
    (head : Link Node) : Option (Heap Node) := do
  let len ← (loop (lengthRound heap) fuel (0, heap head)).join
  shuffleRounds rand (len - 1) heap head

end Sysprog.SwapPairs
