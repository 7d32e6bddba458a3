import Sysprog.HeldCells
import Sysprog.XorListAccesses

namespace Sysprog.XorList

open FuelLoop

/-!
# Many exclusive-or lists in one memory

`insert_node` allocates a node and `delete_list` frees all nodes of a list.  Here these
calls and the two sorts are made for any number of lists that share a memory.  A call that
would use a node that is not allocated has no result.  The unit test builds a list, sorts
it, compares it with the sorted array and deletes it again.
-/

/-! ## Deleting a list -/

/-- The memory and the pointer `l` between two rounds of `delete_list`. -/
structure DeleteState where
  heap : Heap
  live : Addr → Bool
  l : Addr

/-- What `free` does to the memory, once told what stays allocated and what is freed. -/
abbrev Free := (Addr → Bool) → Heap → Addr → Heap

/-- `free` may write to free memory only. -/
def KeepsAllocated (free : Free) : Prop :=
  ∀ live heap p q,
    live q = true →
    (free live heap p).data q = heap.data q ∧ (free live heap p).addr q = heap.addr q

/-- One round of `delete_list`. -/
def deleteRound (free : Free) (state : DeleteState) :
    Round DeleteState (Option (Heap × (Addr → Bool))) :=
  let { heap, live, l } := state
  if l = 0 then
    .leave (some (heap, live))
  else if live l = false then
    .leave none
  else
    let next := heap.addr l
    if next ≠ 0 ∧ live next = false then
      .leave none
    else
      let heap := if next ≠ 0 then heap.setAddr next (XOR (heap.addr next) l) else heap
      let live := Function.update live l false
      .again { heap := free live heap l, live := live, l := next }

/-- `delete_list`; `none` where it uses or frees a node that is not allocated. -/
def deleteList (free : Free) (fuel : Nat) (heap : Heap) (live : Addr → Bool) (l : Addr) :
    Option (Heap × (Addr → Bool)) :=
  (loop (deleteRound free) fuel { heap := heap, live := live, l := l }).join

/-! ## Calls -/

/-- The memory, its allocated nodes, and the variables that point to a list each. -/
structure Pool (Handle : Type) where
  heap : Heap
  live : Addr → Bool
  heads : Handle → Addr

/-- A call for one of the lists; `tmp` is the address `malloc` returns in it. -/
inductive Call (Handle : Type) where
  | insertNode (l : Handle) (d : Int) (tmp : Addr)
  | deleteList (l : Handle)
  | insertionSort (l : Handle)
  | mergeSort (l : Handle) (minSplitSize : Int)

variable {Handle : Type} [DecidableEq Handle]

/--
Run a call.  The caller stores the head that a sort returns, and sets the variable of a
list it has deleted to `NULL`.
-/
def Pool.perform (free : Free) (fuel : Nat) (pool : Pool Handle) :
    Call Handle → Option (Pool Handle)
  | .insertNode l d tmp =>
      if tmp ≠ 0 ∧ (pool.heads l ≠ 0 → pool.live (pool.heads l) = true) then
        let (heap, head) := insertNode pool.heap (pool.heads l) d tmp
        some
          { heap := heap
            live := Function.update pool.live tmp true
            heads := Function.update pool.heads l head }
      else
        none
  | .deleteList l =>
      (deleteList free fuel pool.heap pool.live (pool.heads l)).map fun (heap, live) =>
        { heap := heap, live := live, heads := Function.update pool.heads l 0 }
  | .insertionSort l =>
      if (insertionSortAccesses fuel pool.heap (pool.heads l)).all pool.live then
        (insertionSort fuel pool.heap (pool.heads l)).map fun (heap, head) =>
          { pool with heap := heap, heads := Function.update pool.heads l head }
      else
        none
  | .mergeSort l minSplitSize =>
      if (mergeSortAccesses fuel pool.heap (pool.heads l) minSplitSize).all pool.live then
        (mergeSort fuel pool.heap (pool.heads l) minSplitSize).map fun (heap, head) =>
          { pool with heap := heap, heads := Function.update pool.heads l head }
      else
        none

/-- `malloc` does not return a node that is allocated. -/
def Callable (pool : Pool Handle) : Call Handle → Prop
  | .insertNode _ _ tmp => pool.live tmp = false
  | _ => True

/-- What happens to the memory: a call, or somebody writes to memory that is free. -/
inductive Label (Handle : Type) where
  | call (call : Call Handle)
  | scribble

/-- One step; a call returns if it does so with any budget that is large enough. -/
inductive Step : Pool Handle → Label Handle → Pool Handle → Prop where
  | call
      {pool after : Pool Handle}
      {call : Call Handle}
      {free : Free}
      {bound : Nat}
      (frees : KeepsAllocated free)
      (callable : Callable pool call)
      (returns : ∀ fuel, bound < fuel → pool.perform free fuel call = some after) :
      Step pool (.call call) after
  | scribble
      {pool : Pool Handle}
      {heap : Heap}
      (allocated :
        ∀ p, pool.live p = true → heap.data p = pool.heap.data p ∧ heap.addr p = pool.heap.addr p) :
      Step pool .scribble { pool with heap := heap }

/-- Nothing is allocated and all variables are `NULL`. -/
def Pool.Empty (pool : Pool Handle) : Prop :=
  (∀ p, pool.live p = false) ∧ ∀ l, pool.heads l = 0

/-! ## The numbers in the lists -/

/--
What a call does to the numbers in the lists; `none` where `malloc` has failed, or where
`to_half` would count more nodes than an `int` holds.
-/
def expected (contents : Handle → List Int) : Call Handle → Option (Handle → List Int)
  | .insertNode l d tmp =>
      if tmp = 0 then none else some (Function.update contents l (d :: contents l))
  | .deleteList l => some (Function.update contents l [])
  | .insertionSort l => some (Function.update contents l (contents l).mergeSort)
  | .mergeSort l minSplitSize =>
      if (contents l).length < 2 ^ 32 ∨ minSplitSize = 0 then
        some (Function.update contents l (contents l).mergeSort)
      else
        none

/-- A label's effect on the numbers. -/
def advance (contents : Handle → List Int) : Label Handle → Option (Handle → List Int)
  | .call call => expected contents call
  | .scribble => some contents

/--
Every variable points to a well-formed list of its own, which holds these numbers, and no
other node is allocated.
-/
structure Represents
    (pool : Pool Handle)
    (nodes : Handle → List Addr)
    (contents : Handle → List Int) : Prop where
  held : HeldCells.Held pool.live nodes
  lists : ∀ l, IsList pool.heap (pool.heads l) (nodes l)
  values : ∀ l, (nodes l).map pool.heap.data = contents l

/-! ## The unit test -/

/-- `malloc` finds a free node as long as fewer than `capacity` nodes are allocated. -/
def Allocates (capacity : Nat) (malloc : Pool Handle → Addr) : Prop :=
  ∀ (pool : Pool Handle) (used : List Addr),
    (∀ p, pool.live p = true ↔ p ∈ used) →
    used.length < capacity →
    malloc pool ≠ 0 ∧ pool.live (malloc pool) = false

/-- `create_list`, called for a variable that holds `NULL`. -/
def Pool.createList
    (malloc : Pool Handle → Addr)
    (free : Free)
    (fuel : Nat)
    (l : Handle) : Pool Handle → List Int → Option (Pool Handle)
  | pool, [] => some pool
  | pool, d :: rest => do
      let pool ← pool.perform free fuel (.insertNode l d (malloc pool))
      Pool.createList malloc free fuel l pool rest

/-- The comparison that the tests give to `qsort`. -/
def cmp (a b : Int) : Int :=
  (a - b).bmod (2 ^ 32)

/-- The differences that `cmp` computes do not overflow. -/
def Comparable (array : List Int) : Prop :=
  ∀ a ∈ array, ∀ b ∈ array, -2 ^ 31 ≤ a - b ∧ a - b < 2 ^ 31

/-- `qsort` of an array of `int`, when its comparison is an order on them. -/
def qsort (compare : Int → Int → Int) (array : List Int) : List Int :=
  array.mergeSort fun a b => compare a b ≤ 0

/-- The comparisons of `check_sorted`, and the length checks behind them. -/
def compareSorted (heap : Heap) (live : Addr → Bool) : List Int → Addr → Addr → Option Bool
  | [], _, cur => some (cur = 0)
  | value :: rest, prev, cur =>
      if cur = 0 then
        some false
      else if live cur = false then
        none
      else if value ≠ heap.data cur then
        some false
      else
        compareSorted heap live rest cur (XOR (heap.addr cur) prev)

/-- `check_sorted`; `false` stands for `exit(1)`. -/
def checkSorted (heap : Heap) (live : Addr → Bool) (head : Addr) (array : List Int) :
    Option Bool :=
  compareSorted heap live (qsort cmp array) 0 head

/-- One round of `randomcheck`: build, sort, check and delete a list. -/
def Pool.testRound
    (malloc : Pool Handle → Addr)
    (free : Free)
    (fuel : Nat)
    (l : Handle)
    (pool : Pool Handle)
    (array : List Int) : Option (Bool × Pool Handle) := do
  let pool ← pool.createList malloc free fuel l array
  let pool ← pool.perform free fuel (.mergeSort l 1)
  let passed ← checkSorted pool.heap pool.live (pool.heads l) array
  if passed then
    let pool ← pool.perform free fuel (.deleteList l)
    return (true, pool)
  else
    return (false, pool)

/-- The rounds of `check` and of `randomcheck`; whether all of them passed. -/
def Pool.testRounds
    (malloc : Pool Handle → Addr)
    (free : Free)
    (fuel : Nat)
    (l : Handle) : Pool Handle → List (List Int) → Option (Bool × Pool Handle)
  | pool, [] => some (true, pool)
  | pool, array :: rest => do
      let (passed, pool) ← pool.testRound malloc free fuel l array
      if passed then
        Pool.testRounds malloc free fuel l pool rest
      else
        return (false, pool)

end Sysprog.XorList
