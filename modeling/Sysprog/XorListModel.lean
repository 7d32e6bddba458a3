import Mathlib.Tactic.Ring
import Sysprog.FuelLoop
import Sysprog.XorChain

namespace Sysprog.XorList

open FuelLoop XorChain

/-!
# The exclusive-or linked list of `xor-linkedlist/`

Nodes live at 64-bit addresses and have a `data` and an `addr` field; `addr` is
the exclusive-or of the two neighbours' addresses.  Memory is total: the list
functions read and store through whatever address they hold.  Loops carry a
step budget and give `none` when it runs out.
-/

/-- A node address; `NULL` is zero. -/
abbrev Addr := BitVec 64

/-- The two fields of the node at every address. -/
structure Heap where
  data : Addr → Int
  addr : Addr → Addr

namespace Heap

/-- The assignment `p->addr = value`. -/
def setAddr (heap : Heap) (p value : Addr) : Heap :=
  { heap with addr := Function.update heap.addr p value }

@[simp] theorem setAddr_data (heap : Heap) (p value : Addr) :
    (heap.setAddr p value).data = heap.data :=
  rfl

@[simp] theorem setAddr_addr (heap : Heap) (p value : Addr) :
    (heap.setAddr p value).addr = Function.update heap.addr p value :=
  rfl

end Heap

/-- The macro `XOR`. -/
def XOR (a b : Addr) : Addr :=
  a ^^^ b

/-- `insert_node`: push a node in front; `tmp` is the address `malloc` returned. -/
def insertNode (heap : Heap) (l : Addr) (d : Int) (tmp : Addr) : Heap × Addr :=
  let stored : Heap := { heap with data := Function.update heap.data tmp d }
  if l = 0 then
    (stored.setAddr tmp 0, tmp)
  else
    let linked := stored.setAddr l (XOR tmp (stored.addr l))
    (linked.setAddr tmp l, tmp)

/-! ## Splitting -/

/-- The local variables of `to_half`. -/
structure HalfState where
  size : Int
  head : Addr
  prev : Addr
  fast : Addr
  fastNext : Addr

/-- The loop of `to_half`; `none` where `++(*size)`, on an `int`, overflows. -/
def halfRound (heap : Heap) (state : HalfState) : Round HalfState (Option HalfState) :=
  if state.fast ≠ 0 ∧ state.fastNext ≠ 0 then
    if state.size + 1 < 2 ^ 31 then
      let fast := XOR (heap.addr state.fastNext) state.fast
      .again
        { size := state.size + 1
          head := XOR (heap.addr state.head) state.prev
          prev := state.head
          fast := fast
          fastNext :=
            if fast ≠ 0 then XOR (heap.addr fast) state.fastNext else state.fastNext }
    else
      .leave none
  else
    .leave (some state)

/-- `to_half`: cut the list in two; returns the heap, the second half and `*size`. -/
def toHalf (fuel : Nat) (heap : Heap) (head : Addr) (size : Int) :
    Option (Heap × Addr × Int) :=
  let fastNext := heap.addr head
  if head = 0 then
    some (heap, head, size)
  else
    (loop (halfRound heap) fuel
        { size := 0, head := head, prev := 0, fast := head, fastNext := fastNext }).join.map
      fun state =>
        let cutLeft := heap.setAddr state.prev (XOR (heap.addr state.prev) state.head)
        let cutRight :=
          cutLeft.setAddr state.head (XOR (cutLeft.addr state.head) state.prev)
        (cutRight, state.head, state.size)

/-! ## Insertion sort -/

/-- The local variables of `insertion_sort` that live across rounds. -/
structure InsertState where
  heap : Heap
  head : Addr
  sorted : Addr
  sortedPrev : Addr

/-- The inner loop: walk back over the nodes with data above the target's. -/
def searchRound (heap : Heap) (target : Addr) (state : Addr × Addr) :
    Round (Addr × Addr) (Addr × Addr) :=
  let (pos, prev) := state
  if pos ≠ 0 ∧ target ≠ 0 ∧ heap.data pos > heap.data target then
    .again (XOR (heap.addr pos) prev, pos)
  else
    .leave (pos, prev)

/--
The stores of `insertion_sort` that take `target` out from behind `sorted` and put it
between `pos` and `prev`; returns the heap and the head.
-/
def moveTarget (heap : Heap) (head sorted target pos prev next : Addr) : Heap × Addr :=
  let heap := heap.setAddr sorted (XOR (XOR (heap.addr sorted) target) next)
  if pos = 0 then
    let heap := heap.setAddr target prev
    (heap.setAddr prev (XOR (heap.addr prev) target), target)
  else
    let heap := heap.setAddr pos (XOR (XOR (heap.addr pos) prev) target)
    let heap := heap.setAddr prev (XOR (XOR (heap.addr prev) pos) target)
    (heap.setAddr target (XOR pos prev), head)

/-- One round of the outer loop of `insertion_sort`. -/
def insertRound (fuel : Nat) (state : InsertState) :
    Round InsertState (Option (Heap × Addr)) :=
  let { heap, head, sorted, sortedPrev } := state
  if sorted = 0 then
    .leave (some (heap, head))
  else
    let target := XOR (heap.addr sorted) sortedPrev
    match loop (searchRound heap target) fuel (sorted, target) with
    | none => .leave none
    | some (pos, prev) =>
        if sorted ≠ pos then
          let next := XOR (heap.addr target) sorted
          let (heap, head) := moveTarget heap head sorted target pos prev next
          if next = 0 then
            .leave (some (heap, head))
          else
            let heap := heap.setAddr next (XOR (XOR (heap.addr next) target) sorted)
            .again
              { heap := heap
                head := head
                sorted := sorted
                sortedPrev := XOR (heap.addr sorted) next }
        else
          .again
            { heap := heap
              head := head
              sorted := XOR (heap.addr sorted) sortedPrev
              sortedPrev := sorted }

/-- `insertion_sort`; returns the heap and the new head. -/
def insertionSort (fuel : Nat) (heap : Heap) (head : Addr) : Option (Heap × Addr) :=
  if head = 0 ∨ heap.addr head = 0 then
    some (heap, head)
  else
    (loop (insertRound fuel) fuel
      { heap := heap, head := head, sorted := head, sortedPrev := 0 }).join

/-! ## Merge sort -/

/-- The local variables of the merging loop. -/
structure MergeState where
  heap : Heap
  left : Addr
  right : Addr
  merge : Addr
  start : Addr

/--
Both branches of the merging loop: unlink `taken` from the front of its list, append
it to the merged list, and return its old successor.
-/
def takeNode (state : MergeState) (taken : Addr) : MergeState × Addr :=
  let heap := state.heap
  let next := heap.addr taken
  let heap := if next ≠ 0 then heap.setAddr next (XOR taken (heap.addr next)) else heap
  if state.merge = 0 then
    ({ state with heap := heap.setAddr taken 0, merge := taken, start := taken }, next)
  else
    let heap := heap.setAddr state.merge (XOR (heap.addr state.merge) taken)
    ({ state with heap := heap.setAddr taken state.merge, merge := taken }, next)

/-- One round of the merging loop. -/
def mergeRound (state : MergeState) : Round MergeState (Heap × Addr) :=
  if state.left = 0 ∧ state.right = 0 then
    .leave (state.heap, state.start)
  else if state.right = 0 ∨
      (state.left ≠ 0 ∧ state.heap.data state.left < state.heap.data state.right) then
    let (taken, next) := takeNode state state.left
    .again { taken with left := next }
  else
    let (taken, next) := takeNode state state.right
    .again { taken with right := next }

/-- `__merge_sort`; returns the heap and the new head. -/
def mergeSort : Nat → Heap → Addr → Int → Option (Heap × Addr)
  | 0, _, _, _ => none
  | fuel + 1, heap, start, minSplitSize =>
      if start = 0 ∨ heap.addr start = 0 then
        some (heap, start)
      else if minSplitSize = 0 then
        insertionSort fuel heap start
      else do
        let (heap, right, size) ← toHalf fuel heap start 0
        let minSplitSize := if size ≤ minSplitSize then 0 else minSplitSize
        let (heap, left) ← mergeSort fuel heap start minSplitSize
        let (heap, right) ← mergeSort fuel heap right minSplitSize
        loop mergeRound fuel
          { heap := heap, left := left, right := right, merge := 0, start := start }

/-! ## Well-formed lists -/

/-- `head` starts a well-formed list of exactly these nodes. -/
structure IsList (heap : Heap) (head : Addr) (nodes : List Addr) : Prop where
  chain : Chain heap.addr 0 nodes 0
  distinct : nodes.Nodup
  nonnull : (0 : Addr) ∉ nodes
  starts : head = nodes.headD 0

/-- The length test of the sorts: no node, or no second one. -/
theorem IsList.short_iff
    {heap : Heap}
    {head : Addr}
    {nodes : List Addr}
    (list : IsList heap head nodes) :
    (head = 0 ∨ heap.addr head = 0) ↔ nodes.length < 2 := by
  obtain ⟨chain, distinct, nonnull, starts⟩ := list
  rcases nodes with _ | ⟨first, _ | ⟨second, more⟩⟩
  · exact ⟨fun _ => by simp, fun _ => Or.inl starts⟩
  · obtain rfl : head = first := starts
    refine ⟨fun _ => by simp, fun _ => Or.inr ?_⟩
    simpa using chain.1
  · obtain rfl : head = first := starts
    refine ⟨?_, fun short => by simp only [List.length_cons] at short; omega⟩
    rintro (null | single)
    · simp [null] at nonnull
    · have link := chain.1
      rw [single] at link
      simp only [List.headD_cons, null_xor] at link
      simp [← link] at nonnull

/--
The walk the tests make: from `cur`, coming from `prev`, follow the links to `NULL`
and list the nodes met.
-/
def walk (heap : Heap) : Nat → Addr → Addr → Option (List Addr)
  | 0, _, _ => none
  | fuel + 1, prev, cur =>
      if cur = 0 then
        some []
      else
        (walk heap fuel cur (XOR (heap.addr cur) prev)).map (cur :: ·)

/-- Lists built from nothing by `insert_node`, with the nodes in list order. -/
inductive Built : Heap → Addr → List Addr → Prop where
  | empty (heap : Heap) : Built heap 0 []
  | insert
      {heap : Heap}
      {head : Addr}
      {nodes : List Addr}
      (built : Built heap head nodes)
      (d : Int)
      (tmp : Addr)
      (nonnull : tmp ≠ 0)
      (fresh : tmp ∉ nodes) :
      Built (insertNode heap head d tmp).1 (insertNode heap head d tmp).2 (tmp :: nodes)

end Sysprog.XorList
