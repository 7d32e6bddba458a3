import Sysprog.CircularList
import Sysprog.Execution
import Sysprog.MachineWord

namespace Sysprog.Buddy

open CircularList Execution MachineWord

/-!
# The buddy allocator of `buddy-alloc/alloc.c`

The constants of the source are `HEADER_SIZE = 8`, `MIN_ALLOC_LOG2 = 4`,
`MAX_ALLOC_LOG2 = 31`, `BUCKET_COUNT = 28` and `sizeof(list_t) = 16`.  Addresses are
numbers; a null pointer is `none` where a function may return or take one.

Memory is addressed by cells of the size of a `list_t`.  The first word of a cell is the
`prev` link of a free block and the header of a live one, as in the source, where both
are at the address of the block.
-/

/-- Where the program has its list heads, and where its heap will start. -/
structure Platform where
  /-- The address of `buckets[0]`. -/
  buckets : Nat
  /-- What `sbrk(0)` returns; the break lies behind all static data. -/
  programBreak : Nat
  behind : buckets + 28 * 16 ≤ programBreak
  room : programBreak + 2 ^ 31 + 16 < words

/--
A record of one call of `list_remove` outside of `list_pop`: the memory at the call, the
bucket the caller takes the block from, and the block.  The program has no such variable.
-/
structure Removal where
  cells : Links Nat
  bucketLimit : Nat
  bucket : Nat
  entry : Nat

/-- The static variables, and the memory. -/
structure State where
  cells : Links Nat
  bucketLimit : Nat
  nodeIsSplit : Nat → Nat
  basePtr : Nat
  maxPtr : Nat
  removals : List Removal

/--
What `brk` answers in one call of `bmalloc`: to the request at the start of the first call,
whose answer `bmalloc` does not look at, and to the requests after it.  Of those a refusal
ends the call and a grant raises `max_ptr`, so that no two are for the same address.
-/
structure Brk where
  first : Nat → Bool
  later : Nat → Bool

/-- A `brk` that answers by the address alone. -/
def Brk.ofAddress (grants : Nat → Bool) : Brk where
  first := grants
  later := grants

variable (platform : Platform) (brk : Nat → Bool)

/-- The address `&buckets[bucket]`. -/
def bucketHead (bucket : Nat) : Nat :=
  platform.buckets + 16 * bucket

/-- `update_max_ptr`, where `brk` tells which new ends of the heap are granted. -/
def updateMaxPtr (state : State) (newValue : Nat) : Option State :=
  if newValue > state.maxPtr then
    if brk newValue then some { state with maxPtr := newValue } else none
  else
    some state

/-! ## Free lists -/

/-- `list_init`. -/
def listInit (state : State) (list : Nat) : State :=
  { state with cells := state.cells.init list }

/-- `list_push`. -/
def listPush (state : State) (list entry : Nat) : State :=
  { state with cells := state.cells.pushBack list entry }

/-- `list_remove`, as `list_pop` calls it. -/
def listRemove (state : State) (entry : Nat) : State :=
  { state with cells := state.cells.remove entry }

/-- `list_remove` of a block that the caller takes to be in a bucket. -/
def listRemoveFrom (state : State) (bucket entry : Nat) : State :=
  let removal : Removal :=
    { cells := state.cells, bucketLimit := state.bucketLimit, bucket := bucket, entry := entry }
  listRemove { state with removals := removal :: state.removals } entry

/-- `list_pop`. -/
def listPop (state : State) (list : Nat) : Option Nat × State :=
  let back := state.cells.prev list
  if back = list then
    (none, state)
  else
    (some back, listRemove state back)

/-! ## The tree -/

/-- `ptr_for_node`; adding one first avoids the wrap below zero that the source undoes. -/
def ptrForNode (state : State) (index bucket : Nat) : Nat :=
  state.basePtr + (index + 1 - 2 ^ bucket) * 2 ^ (31 - bucket)

/-- `node_for_ptr`. -/
def nodeForPtr (state : State) (ptr bucket : Nat) : Nat :=
  (ptr - state.basePtr) / 2 ^ (31 - bucket) + 2 ^ bucket - 1

/-- The bit `index` of the array `node_is_split`. -/
def splitBitAt (state : State) (index : Nat) : Bool :=
  (state.nodeIsSplit (index / 8) >>> (index % 8)) &&& 1 ≠ 0

/-- `parent_is_split`. -/
def parentIsSplit (state : State) (index : Nat) : Bool :=
  splitBitAt state ((index - 1) / 2)

/-- `flip_parent_is_split`. -/
def flipParentIsSplit (state : State) (index : Nat) : State :=
  let index := (index - 1) / 2
  { state with
    nodeIsSplit :=
      Function.update state.nodeIsSplit (index / 8)
        (state.nodeIsSplit (index / 8) ^^^ 1 <<< (index % 8)) }

/-- The loop of `bucket_for_request`. -/
def bucketLoop (request : Nat) : Nat → Nat → Nat
  | 0, _ => 0
  | bucket + 1, size => if size < request then bucketLoop request bucket (size * 2) else bucket + 1

/-- `bucket_for_request`, for requests of at most `MAX_ALLOC`. -/
def bucketForRequest (request : Nat) : Nat :=
  bucketLoop request 27 16

/-- A round of `lower_bucket_limit` for a tree that is entirely free. -/
def growFree (state : State) : State :=
  let state := listRemoveFrom state state.bucketLimit state.basePtr
  let state := { state with bucketLimit := state.bucketLimit - 1 }
  let state := listInit state (bucketHead platform state.bucketLimit)
  listPush state (bucketHead platform state.bucketLimit) state.basePtr

/-- A round of `lower_bucket_limit` for a tree in use, once memory is reserved. -/
def growUsed (state : State) (root rightChild : Nat) : State :=
  let state := listPush state (bucketHead platform state.bucketLimit) rightChild
  let state := { state with bucketLimit := state.bucketLimit - 1 }
  let state := listInit state (bucketHead platform state.bucketLimit)
  let root := (root - 1) / 2
  if root ≠ 0 then flipParentIsSplit state root else state

/-- One round of the loop of `lower_bucket_limit`, or `none` where it returns 0. -/
def lowerOnce (state : State) : Option State :=
  let root := nodeForPtr state state.basePtr state.bucketLimit
  if parentIsSplit state root = false then
    some (growFree platform state)
  else
    let rightChild := ptrForNode state (root + 1) state.bucketLimit
    match updateMaxPtr brk state (rightChild + 16) with
    | none => none
    | some state => some (growUsed platform state root rightChild)

/-- The loop of `lower_bucket_limit`; each round lowers the limit by one. -/
def lowerLoop (bucket : Nat) : Nat → State → Bool × State
  | 0, state => (true, state)
  | rounds + 1, state =>
      if bucket < state.bucketLimit then
        match lowerOnce platform brk state with
        | none => (false, state)
        | some state => lowerLoop bucket rounds state
      else
        (true, state)

/-- `lower_bucket_limit`. -/
def lowerBucketLimit (state : State) (bucket : Nat) : Bool × State :=
  lowerLoop platform brk bucket state.bucketLimit state

/-! ## Allocation -/

/-- The start of `bmalloc` on its first call. -/
def initialise (state : State) : State :=
  let state :=
    { state with
      basePtr := platform.programBreak
      maxPtr := platform.programBreak
      bucketLimit := 27 }
  let state := (updateMaxPtr brk state (state.basePtr + 16)).getD state
  let state := listInit state (bucketHead platform 27)
  listPush state (bucketHead platform 27) state.basePtr

/-- The loop of `bmalloc` that splits a block, over the given number of levels. -/
def splitLoop : Nat → Nat → Nat → State → State
  | 0, _, _, state => state
  | rounds + 1, i, bucket, state =>
      let i := i * 2 + 1
      let bucket := bucket + 1
      let state := flipParentIsSplit state i
      let state := listPush state (bucketHead platform bucket) (ptrForNode state (i + 1) bucket)
      splitLoop rounds i bucket state

/-- What `bmalloc` does with a block it took from the free list of a bucket. -/
def allocateFrom (state : State) (request originalBucket bucket ptr : Nat) :
    Option Nat × State :=
  let size := 2 ^ (31 - bucket)
  let bytesNeeded := if bucket < originalBucket then size / 2 + 16 else size
  match updateMaxPtr brk state (ptr + bytesNeeded) with
  | none => (none, listPush state (bucketHead platform bucket) ptr)
  | some state =>
      let i := nodeForPtr state ptr bucket
      let state := if i ≠ 0 then flipParentIsSplit state i else state
      let state := splitLoop platform (originalBucket - bucket) i bucket state
      (some (ptr + 8), { state with cells := state.cells.setPrev ptr request })

/-- One round of the search of `bmalloc`, which may go on to the next bucket. -/
def searchRound
    (request originalBucket bucket : Nat)
    (state : State)
    (next : State → Option Nat × State) : Option Nat × State :=
  match lowerBucketLimit platform brk state bucket with
  | (false, state) => (none, state)
  | (true, state) =>
      match listPop state (bucketHead platform bucket) with
      | (some ptr, state) => allocateFrom platform brk state request originalBucket bucket ptr
      | (none, state) =>
          if bucket ≠ state.bucketLimit ∨ bucket = 0 then
            next state
          else
            match lowerBucketLimit platform brk state (bucket - 1) with
            | (false, state) => (none, state)
            | (true, state) =>
                let (ptr, state) := listPop state (bucketHead platform bucket)
                allocateFrom platform brk state request originalBucket bucket (ptr.getD 0)

/-- The search of `bmalloc`, from a bucket down to bucket 0. -/
def search (request originalBucket : Nat) : Nat → State → Option Nat × State
  | 0, state =>
      searchRound platform brk request originalBucket 0 state fun state => (none, state)
  | bucket + 1, state =>
      searchRound platform brk request originalBucket (bucket + 1) state
        (search request originalBucket bucket)

/-- `bmalloc`. -/
def bmalloc (answers : Brk) (state : State) (request : Nat) : Option Nat × State :=
  if add request 8 > 2 ^ 31 then
    (none, state)
  else
    let state := if state.basePtr = 0 then initialise platform answers.first state else state
    let bucket := bucketForRequest (add request 8)
    search platform answers.later request bucket bucket state

/-! ## Release -/

/-- The loop of `bfree`; a node number is a bound on the rounds. -/
def mergeLoop : Nat → Nat → Nat → State → (Nat × Nat) × State
  | 0, i, bucket, state => ((i, bucket), state)
  | rounds + 1, i, bucket, state =>
      if i ≠ 0 then
        let state := flipParentIsSplit state i
        if parentIsSplit state i = true ∨ bucket = state.bucketLimit then
          ((i, bucket), state)
        else
          let buddy := ptrForNode state (((i - 1) ^^^ 1) + 1) bucket
          mergeLoop rounds ((i - 1) / 2) (bucket - 1) (listRemoveFrom state bucket buddy)
      else
        ((i, bucket), state)

/-- `bfree`. -/
def bfree (state : State) : Option Nat → State
  | none => state
  | some ptr =>
      let ptr := ptr - 8
      let bucket := bucketForRequest (add (state.cells.prev ptr) 8)
      let i := nodeForPtr state ptr bucket
      let ((i, bucket), state) := mergeLoop i i bucket state
      listPush state (bucketHead platform bucket) (ptrForNode state i bucket)

/-! ## Programs -/

/-- The allocator together with the pointers in use and what was asked for them. -/
structure World where
  state : State
  live : Nat → Option Nat

/-- The bucket of a block for a request. -/
def requestBucket (request : Nat) : Nat :=
  bucketForRequest (add request 8)

/-- One action of a program. -/
inductive Op where
  | bmalloc (request : Nat) (answers : Brk)
  | bfree (ptr : Option Nat)
  | write (ptr : Nat) (cells : Links Nat)

/-- A pointer that is returned becomes live. -/
def World.returned (world : World) (request : Nat) : Option Nat × State → World
  | (none, state) => { world with state := state }
  | (some ptr, state) =>
      { state := state, live := Function.update world.live ptr (some request) }

/-- The world after `bmalloc`. -/
def World.afterMalloc (world : World) (answers : Brk) (request : Nat) : World :=
  world.returned request (bmalloc platform answers world.state request)

/-- The world after `bfree`. -/
def World.afterFree (world : World) (ptr : Option Nat) : World where
  state := Buddy.bfree platform world.state ptr
  live :=
    match ptr with
    | none => world.live
    | some ptr => Function.update world.live ptr none

/-- A program may write to what it was given, and nowhere else. -/
structure WritesInside (world : World) (ptr : Nat) (cells : Links Nat) (request : Nat) : Prop where
  live : world.live ptr = some request
  header : cells.prev (ptr - 8) = world.state.cells.prev (ptr - 8)
  outside :
    ∀ cell,
      cell < ptr - 8 ∨ ptr - 8 + 2 ^ (31 - requestBucket request) ≤ cell →
        cells.prev cell = world.state.cells.prev cell ∧
          cells.next cell = world.state.cells.next cell

/--
The actions considered: any request with any answers of `brk`, `bfree` of a null pointer
or of a live one, and writes of the program to its live blocks.
-/
def Step (before : World) : Op → World → Prop
  | .bmalloc request answers, after =>
      request < words ∧ after = before.afterMalloc platform answers request
  | .bfree ptr, after =>
      (∀ address, ptr = some address → (before.live address).isSome) ∧
        after = before.afterFree platform ptr
  | .write ptr cells, after =>
      (∃ request, WritesInside before ptr cells request) ∧
        after = { before with state := { before.state with cells := cells } }

/-- The program at its start: zeroed static data and nothing live. -/
def World.initial (memory : Links Nat) : World where
  state :=
    { cells := memory
      bucketLimit := 0
      nodeIsSplit := fun _ => 0
      basePtr := 0
      maxPtr := 0
      removals := [] }
  live := fun _ => none

end Sysprog.Buddy
