import Mathlib.Data.List.Sort
import Sysprog.Execution
import Sysprog.XorListCalls
import Sysprog.XorListSort

namespace Sysprog.XorList

open FuelLoop XorChain HeldCells Execution

/-!
# What the lists hold after any run

Every list holds the numbers that its calls describe, whatever happens to the other lists
and to free memory.  No call uses or frees a node that is not allocated, and deleting a
list frees each of its nodes.
-/

/-! ## The budget of a sort -/

/-- A round whose search ends is the same with a larger budget. -/
private theorem insertRound_more
    {fuel larger : Nat}
    {state : InsertState}
    (decides : insertRound fuel state ≠ .leave none)
    (within : fuel ≤ larger) :
    insertRound larger state = insertRound fuel state := by
  obtain ⟨heap, head, sorted, sortedPrev⟩ := state
  by_cases finished : sorted = 0
  · simp [insertRound, finished]
  · simp only [insertRound, if_neg finished] at decides ⊢
    cases searched :
        loop (searchRound heap (XOR (heap.addr sorted) sortedPrev)) fuel
          (sorted, XOR (heap.addr sorted) sortedPrev) with
    | none =>
        rw [searched] at decides
        exact (decides rfl).elim
    | some found =>
        rw [loop_more searched within]

/-- `insertion_sort` returns the same with a larger budget. -/
theorem insertionSort_more
    {fuel larger : Nat}
    {heap : Heap}
    {head : Addr}
    {result : Heap × Addr}
    (returned : insertionSort fuel heap head = some result)
    (within : fuel ≤ larger) :
    insertionSort larger heap head = some result := by
  unfold insertionSort at returned ⊢
  split at returned
  · rename_i short
    rw [if_pos short]
    exact returned
  · rename_i long
    rw [if_neg long]
    rw [Option.join_eq_some_iff] at returned ⊢
    exact loop_more (loop_refines (fun _ decides => insertRound_more decides within) returned) within

/-- `__merge_sort` returns the same with a larger budget. -/
theorem mergeSort_more
    {fuel larger : Nat}
    {heap : Heap}
    {head : Addr}
    {minSplitSize : Int}
    {result : Heap × Addr}
    (returned : mergeSort fuel heap head minSplitSize = some result)
    (within : fuel ≤ larger) :
    mergeSort larger heap head minSplitSize = some result := by
  induction fuel generalizing larger heap head minSplitSize result with
  | zero =>
      simp [mergeSort] at returned
  | succ fuel inductionHypothesis =>
      obtain ⟨larger, rfl⟩ := exists_round within
      have budget : fuel ≤ larger := Nat.le_of_succ_le_succ within
      unfold mergeSort at returned ⊢
      split at returned
      · rename_i short
        rw [if_pos short]
        exact returned
      rename_i long
      rw [if_neg long]
      split at returned
      · rename_i unsplit
        rw [if_pos unsplit]
        exact insertionSort_more returned budget
      rename_i splits
      rw [if_neg splits]
      simp only [Option.bind_eq_bind, Option.bind_eq_some_iff] at returned ⊢
      obtain ⟨halved, cut, ⟨left, sortedLeft, right, sortedRight, merged⟩⟩ := returned
      refine ⟨halved, ?_, left, inductionHypothesis sortedLeft budget, right,
        inductionHypothesis sortedRight budget, loop_more merged budget⟩
      unfold toHalf at cut ⊢
      split at cut
      · rename_i null
        simp only [if_pos null]
        exact cut
      · rename_i occupied
        simp only [if_neg occupied, Option.map_eq_some_iff, Option.join_eq_some_iff] at cut ⊢
        obtain ⟨state, walked, shape⟩ := cut
        exact ⟨state, loop_more walked budget, shape⟩

/-! ## Lists beside each other -/

/-- A list whose nodes keep their links is still well formed. -/
private theorem IsList.untouched
    {heap result : Heap}
    {head : Addr}
    {nodes : List Addr}
    (list : IsList heap head nodes)
    (same : ∀ p ∈ nodes, result.addr p = heap.addr p) :
    IsList result head nodes :=
  { list with chain := (chain_congr same).mpr list.chain }

/-- `insert_node` stores to the new node and to the old head only. -/
private theorem insertNode_frame
    {heap : Heap}
    {l tmp p : Addr}
    {d : Int}
    (new : p ≠ tmp)
    (old : l = 0 ∨ p ≠ l) :
    (insertNode heap l d tmp).1.data p = heap.data p ∧
      (insertNode heap l d tmp).1.addr p = heap.addr p := by
  unfold insertNode
  split
  · exact ⟨Function.update_of_ne new _ _, Function.update_of_ne new _ _⟩
  · rename_i occupied
    have apart : p ≠ l := old.resolve_left occupied
    refine ⟨Function.update_of_ne new _ _, ?_⟩
    simp [Function.update_of_ne new, Function.update_of_ne apart]

/-- The data fields after `insert_node`. -/
private theorem insertNode_data (heap : Heap) (l tmp : Addr) (d : Int) :
    (insertNode heap l d tmp).1.data = Function.update heap.data tmp d := by
  unfold insertNode
  split <;> rfl

section Pools

variable
  {Handle : Type}
  [DecidableEq Handle]
  {pool after : Pool Handle}
  {nodes : Handle → List Addr}
  {contents result : Handle → List Int}
  {free : Free}
  {l : Handle}

namespace Represents

omit [DecidableEq Handle] in
/-- The head of a list is one of its nodes, if there is any. -/
private theorem head_mem (represents : Represents pool nodes contents) (occupied : pool.heads l ≠ 0) :
    pool.heads l ∈ nodes l := by
  have starts := (represents.lists l).starts
  cases shape : nodes l with
  | nil =>
      rw [shape] at starts
      exact (occupied starts).elim
  | cons first rest =>
      rw [shape] at starts
      rw [starts]
      exact List.mem_cons_self

/-! ## Inserting -/

/-- A fresh node in front of one list leaves the other lists as they are. -/
theorem insertNode
    (represents : Represents pool nodes contents)
    {tmp : Addr}
    (nonnull : tmp ≠ 0)
    (fresh : pool.live tmp = false)
    (l : Handle)
    (d : Int)
    (fuel : Nat) :
    ∃ after,
      pool.perform free fuel (.insertNode l d tmp) = some after ∧
        Represents after (Function.update nodes l (tmp :: nodes l))
          (Function.update contents l (d :: contents l)) := by
  have live : pool.heads l ≠ 0 → pool.live (pool.heads l) = true := fun occupied =>
    represents.held.live_of_mem (represents.head_mem occupied)
  have missing : ∀ other, tmp ∉ nodes other := fun other => represents.held.not_mem_of_free fresh
  have performs :
      pool.perform free fuel (.insertNode l d tmp) =
        some
          { heap := (XorList.insertNode pool.heap (pool.heads l) d tmp).1
            live := Function.update pool.live tmp true
            heads :=
              Function.update pool.heads l (XorList.insertNode pool.heap (pool.heads l) d tmp).2 } := by
    simp only [Pool.perform, if_pos (And.intro nonnull live)]
  refine ⟨_, performs, ?_, ?_, ?_⟩
  · exact represents.held.acquire fresh l
  · intro other
    by_cases same : other = l
    · subst same
      simp only [Function.update_self]
      exact (represents.lists other).insertNode d nonnull (missing other)
    · simp only [Function.update_of_ne same]
      refine (represents.lists other).untouched fun p member => ?_
      have different : p ≠ tmp := by
        rintro rfl
        exact missing other member
      refine (insertNode_frame different ?_).2
      by_contra neither
      obtain ⟨occupied, equal⟩ := not_or.mp neither
      have inside := represents.head_mem occupied
      rw [← not_not.mp equal] at inside
      exact same (represents.held.apart member inside)
  · have dataKept : ∀ p, p ≠ tmp → Function.update pool.heap.data tmp d p = pool.heap.data p :=
      fun p different => Function.update_of_ne different _ _
    have listKept :
        ∀ other, (nodes other).map (Function.update pool.heap.data tmp d) = contents other := by
      intro other
      rw [← represents.values other]
      apply List.map_congr_left
      intro p member
      exact dataKept p fun equal => missing other (equal ▸ member)
    intro other
    simp only [insertNode_data]
    by_cases same : other = l
    · subst same
      simp only [Function.update_self, List.map_cons, listKept]
    · simp only [Function.update_of_ne same, listKept]

/-! ## Sorting -/

/-- The numbers of a sorted list. -/
private theorem sorted_values
    {data : Addr → Int}
    {order old : List Addr}
    (perm : order.Perm old)
    (ordered : InOrder data order) :
    order.map data = (old.map data).mergeSort := by
  have sorted : (order.map data).Pairwise (· ≤ ·) := List.pairwise_map.mpr ordered
  exact ((perm.map data).trans (List.mergeSort_perm _ _).symm).eq_of_pairwise' sorted
    (List.pairwise_mergeSort' (· ≤ ·) _)

/-- A sorted list leaves the other lists as they are. -/
theorem sorted
    (represents : Represents pool nodes contents)
    {sortedHeap : Heap}
    {newHead : Addr}
    {order : List Addr}
    (list : IsList sortedHeap newHead order)
    (rearranged : Rearranged pool.heap (nodes l) sortedHeap order)
    (ordered : InOrder pool.heap.data order) :
    Represents
      { pool with heap := sortedHeap, heads := Function.update pool.heads l newHead }
      (Function.update nodes l order)
      (Function.update contents l (contents l).mergeSort) := by
  refine ⟨represents.held.permute rearranged.perm, ?_, ?_⟩
  · intro other
    by_cases same : other = l
    · subst same
      simpa only [Function.update_self] using list
    · simp only [Function.update_of_ne same]
      refine (represents.lists other).untouched fun p member => rearranged.frame p ?_
      exact fun inside => same (represents.held.apart member inside)
  · intro other
    simp only [rearranged.data]
    by_cases same : other = l
    · subst same
      simp only [Function.update_self, ← represents.values other]
      exact sorted_values rearranged.perm ordered
    · simp only [Function.update_of_ne same, represents.values other]

end Represents

/-! ## Deleting -/

/-- Between two rounds of `delete_list`: the nodes that remain, and the other lists. -/
structure Deleting
    (pool : Pool Handle)
    (nodes : Handle → List Addr)
    (l : Handle)
    (remaining : List Addr)
    (state : DeleteState) : Prop where
  held : Held state.live (Function.update nodes l remaining)
  list : IsList state.heap state.l remaining
  others :
    ∀ other,
      other ≠ l →
      ∀ p ∈ nodes other,
        state.heap.data p = pool.heap.data p ∧ state.heap.addr p = pool.heap.addr p

/-- What `delete_list` leaves. -/
def Deleted
    (pool : Pool Handle)
    (nodes : Handle → List Addr)
    (l : Handle)
    (result : Option (Heap × (Addr → Bool))) : Prop :=
  ∃ heap live,
    result = some (heap, live) ∧
      Deleting pool nodes l [] { heap := heap, live := live, l := 0 }

namespace Deleting

variable {state : DeleteState} {node : Addr} {rest : List Addr}

/-- The nodes that remain are allocated. -/
private theorem live_of_mem
    (deleting : Deleting pool nodes l rest state)
    (member : node ∈ rest) :
    state.live node = true := by
  refine (deleting.held.allocated node).mpr ⟨l, ?_⟩
  rw [Function.update_self]
  exact member

/-- A node of another list does not remain in this one. -/
private theorem other_not_mem
    (deleting : Deleting pool nodes l rest state)
    {other : Handle}
    (different : other ≠ l)
    (member : node ∈ nodes other) :
    node ∉ rest := by
  intro inside
  apply different
  apply @deleting.held.apart other l node
  · rwa [Function.update_of_ne different]
  · rwa [Function.update_self]

/-- The first node is freed, and the one behind it has lost its left neighbour. -/
private theorem round
    (frees : KeepsAllocated free)
    (deleting : Deleting pool nodes l (node :: rest) state) :
    ∃ next,
      deleteRound free state = .again next ∧ Deleting pool nodes l rest next := by
  obtain ⟨heap, live, cursor⟩ := state
  obtain ⟨chain, distinct, nonnull, starts⟩ := deleting.list
  obtain rfl : cursor = node := starts
  have cursorNonnull : cursor ≠ 0 := by
    rintro rfl
    exact nonnull List.mem_cons_self
  have restNonnull : (0 : Addr) ∉ rest := fun null => nonnull (List.mem_cons_of_mem cursor null)
  have cursorLive : live cursor = true := deleting.live_of_mem List.mem_cons_self
  obtain ⟨missing, restDistinct⟩ := List.nodup_cons.mp distinct
  have next : heap.addr cursor = rest.headD 0 := by
    rw [chain.1, null_xor]
  have nextLive : ¬(rest.headD 0 ≠ 0 ∧ live (rest.headD 0) = false) := by
    rintro ⟨occupied, dead⟩
    cases rest with
    | nil =>
        exact occupied rfl
    | cons first more =>
        have allocated : live first = true := deleting.live_of_mem (by simp)
        rw [List.headD_cons, allocated] at dead
        cases dead
  obtain ⟨detached, stores, sameData, alone, frame⟩ :=
    detach_correct chain restDistinct restNonnull
  have released := deleting.held.release (Function.update_self l (cursor :: rest) nodes)
  rw [Function.update_idem] at released
  -- What stays allocated has the same fields before and after `free`.
  have kept := frees (Function.update live cursor false) detached cursor
  refine
    ⟨{ heap := free (Function.update live cursor false) detached cursor
       live := Function.update live cursor false
       l := rest.headD 0 },
      ?_, released, ⟨?_, restDistinct, restNonnull, rfl⟩, ?_⟩
  · simp only [deleteRound, if_neg cursorNonnull, cursorLive, next, if_neg nextLive,
      Bool.true_eq_false, if_false, XOR, BitVec.xor_comm _ cursor]
    rw [← stores]
    rfl
  · refine (chain_congr fun p member => ?_).mpr alone
    refine (kept p ?_).2
    have different : p ≠ cursor := by
      rintro rfl
      exact missing member
    rw [Function.update_of_ne different]
    exact deleting.live_of_mem (List.mem_cons_of_mem cursor member)
  · intro other different p member
    have outside := deleting.other_not_mem different member
    obtain ⟨apart, notRest⟩ := not_or.mp (fun inside => outside (List.mem_cons.mpr inside))
    have allocated : Function.update live cursor false p = true := by
      rw [Function.update_of_ne apart]
      refine (deleting.held.allocated p).mpr ⟨other, ?_⟩
      rw [Function.update_of_ne different]
      exact member
    have before := deleting.others other different p member
    rw [(kept p allocated).1, (kept p allocated).2, sameData, frame p notRest]
    exact before

end Deleting

/-- Between two rounds with this many nodes to free. -/
def DeletingWithin
    (pool : Pool Handle)
    (nodes : Handle → List Addr)
    (l : Handle)
    (bound : Nat)
    (state : DeleteState) : Prop :=
  ∃ remaining, remaining.length = bound ∧ Deleting pool nodes l remaining state

/-- Every round frees a node, and the last one finds none. -/
private theorem deleteRound_correct
    (frees : KeepsAllocated free)
    (bound : Nat)
    (state : DeleteState)
    (between : DeletingWithin pool nodes l bound state) :
    RoundOk (DeletingWithin pool nodes l) (Deleted pool nodes l) bound (deleteRound free state) := by
  obtain ⟨remaining, rfl, deleting⟩ := between
  cases remaining with
  | nil =>
      obtain ⟨heap, live, cursor⟩ := state
      obtain rfl : cursor = 0 := deleting.list.starts
      exact ⟨heap, live, rfl, deleting⟩
  | cons node rest =>
      obtain ⟨next, round, kept⟩ := deleting.round frees
      rw [round]
      exact ⟨rest.length, by simp, rest, rfl, kept⟩

namespace Represents

/-- `delete_list` frees the nodes of its list and leaves the other lists as they are. -/
theorem deleted
    (frees : KeepsAllocated free)
    (represents : Represents pool nodes contents)
    (l : Handle)
    {fuel : Nat}
    (enough : (nodes l).length < fuel) :
    ∃ heap live,
      deleteList free fuel pool.heap pool.live (pool.heads l) = some (heap, live) ∧
        Represents
          { heap := heap, live := live, heads := Function.update pool.heads l 0 }
          (Function.update nodes l [])
          (Function.update contents l []) := by
  have start :
      Deleting pool nodes l (nodes l)
        { heap := pool.heap, live := pool.live, l := pool.heads l } := by
    refine ⟨?_, represents.lists l, fun _ _ _ _ => ⟨rfl, rfl⟩⟩
    rw [Function.update_eq_self]
    exact represents.held
  obtain ⟨_, returned, heap, live, rfl, final⟩ :=
    loop_correct _ _ (deleteRound_correct frees) ⟨nodes l, rfl, start⟩ enough
  refine ⟨heap, live, by rw [deleteList, returned]; rfl, final.held, ?_, ?_⟩
  · intro other
    by_cases same : other = l
    · subst same
      simpa only [Function.update_self] using final.list
    · simp only [Function.update_of_ne same]
      exact (represents.lists other).untouched fun p member =>
        (final.others other same p member).2
  · intro other
    by_cases same : other = l
    · subst same
      simp
    · simp only [Function.update_of_ne same, ← represents.values other]
      exact List.map_congr_left fun p member => (final.others other same p member).1

/-! ## Calls -/

/-- A call of `delete_list`. -/
theorem deletes
    (frees : KeepsAllocated free)
    (represents : Represents pool nodes contents)
    (l : Handle) :
    ∃ after,
      (∀ fuel,
        (nodes l).length < fuel → pool.perform free fuel (.deleteList l) = some after) ∧
        Represents after (Function.update nodes l []) (Function.update contents l []) := by
  obtain ⟨heap, live, returned, kept⟩ :=
    represents.deleted frees l (Nat.lt_succ_self (nodes l).length)
  refine ⟨_, fun fuel enough => ?_, kept⟩
  rw [deleteList, Option.join_eq_some_iff] at returned
  simp only [Pool.perform, deleteList, loop_more returned enough, Option.join_some,
    Option.map_some]

/-- A call of `insertion_sort`. -/
theorem insertionSorts (represents : Represents pool nodes contents) (l : Handle) :
    ∃ after order,
      (∀ fuel,
        (nodes l).length < fuel → pool.perform free fuel (.insertionSort l) = some after) ∧
        order.Perm (nodes l) ∧
        Represents after (Function.update nodes l order)
          (Function.update contents l (contents l).mergeSort) := by
  obtain ⟨sortedHeap, newHead, order, returned, split⟩ :=
    insertionSort_correct (represents.lists l) (Nat.lt_succ_self (nodes l).length)
  have list : IsList sortedHeap newHead order := by simpa using split.list
  have rearranged : Rearranged pool.heap (nodes l) sortedHeap order := by
    simpa using split.rearranged
  refine ⟨_, order, fun fuel enough => ?_, rearranged.perm,
    represents.sorted list rearranged split.ordered⟩
  have live : (insertionSortAccesses fuel pool.heap (pool.heads l)).all pool.live := by
    rw [List.all_eq_true]
    exact fun p member =>
      represents.held.live_of_mem (insertionSortAccesses_mem (represents.lists l) enough p member)
  simp only [Pool.perform, if_pos live, insertionSort_more returned enough, Option.map_some]

/-- A call of `__merge_sort` that does not overflow. -/
theorem mergeSorts
    (represents : Represents pool nodes contents)
    (l : Handle)
    {minSplitSize : Int}
    (counts : (nodes l).length < 2 ^ 32 ∨ minSplitSize = 0) :
    ∃ after order,
      (∀ fuel,
        (nodes l).length + 2 ≤ fuel →
        pool.perform free fuel (.mergeSort l minSplitSize) = some after) ∧
        order.Perm (nodes l) ∧
        Represents after (Function.update nodes l order)
          (Function.update contents l (contents l).mergeSort) := by
  obtain ⟨⟨sortedHeap, newHead⟩, order, returned, sorted⟩ :=
    mergeSort_sorts (represents.lists l) (Nat.le_refl ((nodes l).length + 2)) counts
  refine ⟨_, order, fun fuel enough => ?_, sorted.rearranged.perm,
    represents.sorted sorted.list sorted.rearranged sorted.ordered⟩
  have live : (mergeSortAccesses fuel pool.heap (pool.heads l) minSplitSize).all pool.live := by
    rw [List.all_eq_true]
    exact fun p member =>
      represents.held.live_of_mem
        (mergeSortAccesses_mem (represents.lists l) enough counts p member)
  simp only [Pool.perform, if_pos live, mergeSort_more returned enough, Option.map_some]

omit [DecidableEq Handle] in
/-- A list has as many nodes as numbers. -/
theorem length_nodes (represents : Represents pool nodes contents) (l : Handle) :
    (nodes l).length = (contents l).length := by
  rw [← represents.values l, List.length_map]

/-- What a call that can be made does; with `NULL` from `malloc` or an overflow it faults. -/
theorem performs
    (frees : KeepsAllocated free)
    (represents : Represents pool nodes contents)
    {call : Call Handle}
    (callable : Callable pool call) :
    match expected contents call with
    | none => ∀ fuel, pool.perform free fuel call = none
    | some result =>
        ∃ after nodes bound,
          (∀ fuel, bound < fuel → pool.perform free fuel call = some after) ∧
            Represents after nodes result := by
  cases call with
  | insertNode l d tmp =>
      by_cases null : tmp = 0
      · simp only [expected, if_pos null]
        intro fuel
        simp [Pool.perform, null]
      · simp only [expected, if_neg null]
        obtain ⟨after, performs, kept⟩ :=
          @represents.insertNode _ _ _ _ _ free tmp null callable l d 0
        exact ⟨after, _, 0, fun _ _ => performs, kept⟩
  | deleteList l =>
      obtain ⟨after, performs, kept⟩ := represents.deletes frees l
      exact ⟨after, _, (nodes l).length, performs, kept⟩
  | insertionSort l =>
      obtain ⟨after, _, performs, _, kept⟩ := @represents.insertionSorts _ _ _ _ _ free l
      exact ⟨after, _, (nodes l).length, performs, kept⟩
  | mergeSort l minSplitSize =>
      have sameLength := represents.length_nodes l
      by_cases counts : (contents l).length < 2 ^ 32 ∨ minSplitSize = 0
      · simp only [expected, if_pos counts]
        obtain ⟨after, _, performs, _, kept⟩ :=
          @represents.mergeSorts _ _ _ _ _ free l minSplitSize (by rwa [sameLength])
        exact ⟨after, _, (nodes l).length + 1, performs, kept⟩
      · simp only [expected, if_neg counts]
        rw [not_or, Nat.not_lt] at counts
        intro fuel
        have overflows :=
          mergeSort_overflows (represents.lists l) (by omega) counts.2 fuel
        simp [Pool.perform, overflows]

omit [DecidableEq Handle] in
/-- Writing to free memory leaves the lists as they are. -/
theorem scribble
    (represents : Represents pool nodes contents)
    {heap : Heap}
    (allocated :
      ∀ p, pool.live p = true → heap.data p = pool.heap.data p ∧ heap.addr p = pool.heap.addr p) :
    Represents { pool with heap := heap } nodes contents := by
  refine ⟨represents.held, fun other => ?_, fun other => ?_⟩
  · exact (represents.lists other).untouched fun p member =>
      (allocated p (represents.held.live_of_mem member)).2
  · rw [← represents.values other]
    exact List.map_congr_left fun p member =>
      (allocated p (represents.held.live_of_mem member)).1

/-- Every step does to the numbers what its label says. -/
theorem step
    {label : Label Handle}
    (represents : Represents pool nodes contents)
    (step : Step pool label after) :
    ∃ nodes result, advance contents label = some result ∧ Represents after nodes result := by
  cases step with
  | @call _ call _ bound frees callable returns =>
      have performed := represents.performs frees callable
      cases described : expected contents call with
      | none =>
          rw [described] at performed
          have faults := performed (bound + 1)
          rw [returns (bound + 1) (Nat.lt_succ_self bound)] at faults
          simp at faults
      | some result =>
          rw [described] at performed
          obtain ⟨performedAfter, nodes, enough, performs, kept⟩ := performed
          have first := returns (max bound enough + 1) (by omega)
          rw [performs (max bound enough + 1) (by omega)] at first
          obtain rfl := Option.some.inj first
          exact ⟨nodes, result, described, kept⟩
  | scribble allocated =>
      exact ⟨nodes, contents, rfl, represents.scribble allocated⟩

end Represents

omit [DecidableEq Handle] in
/-- No list has a node at first. -/
theorem represents_empty (empty : pool.Empty) :
    Represents pool (fun _ => []) (fun _ => []) where
  held := Held.nothing empty.1
  lists := fun l => ⟨trivial, List.nodup_nil, List.not_mem_nil, empty.2 l⟩
  values := fun _ => rfl

/-- After every run all lists are well formed and hold the numbers that the calls describe. -/
theorem represents_run
    {start : Pool Handle}
    {labels : List (Label Handle)}
    (empty : start.Empty)
    (run : Run Step start labels pool) :
    ∃ nodes contents,
      labels.foldlM advance (fun _ => []) = some contents ∧ Represents pool nodes contents := by
  induction run with
  | stop =>
      exact ⟨_, _, rfl, represents_empty empty⟩
  | extend earlier last inductionHypothesis =>
      obtain ⟨nodes, contents, built, represents⟩ := inductionHypothesis
      obtain ⟨after, result, advanced, kept⟩ := represents.step last
      refine ⟨after, result, ?_, kept⟩
      rw [List.foldlM_append, built]
      simp [advanced]

/--
After every run all lists are well formed and hold the numbers that the calls describe, and
exactly their nodes are allocated.  The next call returns unless `malloc` has failed in it
or a counter overflows.  It uses and frees allocated nodes only.
-/
theorem lists_follow_calls
    {start : Pool Handle}
    {labels : List (Label Handle)}
    (empty : start.Empty)
    (run : Run Step start labels pool) :
    ∃ nodes contents,
      labels.foldlM advance (fun _ => []) = some contents ∧
        Represents pool nodes contents ∧
        ∀ call free,
          KeepsAllocated free →
          Callable pool call →
          (expected contents call = none → ∀ fuel, pool.perform free fuel call = none) ∧
            ∀ result,
              expected contents call = some result →
              ∃ after nodes bound,
                (∀ fuel, bound < fuel → pool.perform free fuel call = some after) ∧
                  Represents after nodes result := by
  obtain ⟨nodes, contents, built, represents⟩ := represents_run empty run
  refine ⟨nodes, contents, built, represents, fun call free frees callable => ?_⟩
  have performed := represents.performs frees callable
  constructor
  · intro described
    rw [described] at performed
    exact performed
  · intro result described
    rw [described] at performed
    exact performed

end Pools

/-- Memory that is all zero, with a variable for every number. -/
def emptyPool : Pool Nat where
  heap := { data := fun _ => 0, addr := fun _ => 0 }
  live := fun _ => false
  heads := fun _ => 0

/-- A list of one node is sorted and deleted, and then no node is allocated. -/
theorem emptyPool_lists :
    ∃ pool : Pool Nat,
      Run Step emptyPool
          [.call (.insertNode 0 72 0x1000), .call (.mergeSort 0 1), .call (.deleteList 0)] pool ∧
        ∀ p, pool.live p = false := by
  have empty : emptyPool.Empty := ⟨fun _ => rfl, fun _ => rfl⟩
  have frees : KeepsAllocated fun _ heap _ => heap := fun _ _ _ _ _ => ⟨rfl, rfl⟩
  have insertable : Callable emptyPool (.insertNode 0 72 0x1000) := rfl
  have sortable : ∀ pool : Pool Nat, Callable pool (.mergeSort 0 1) := fun _ => trivial
  have deletable : ∀ pool : Pool Nat, Callable pool (.deleteList 0) := fun _ => trivial
  obtain ⟨_, _, built, _, next⟩ := lists_follow_calls empty (@Run.stop _ _ Step _)
  obtain rfl := Option.some.inj built
  obtain ⟨_, _, _, inserts, _⟩ := (next _ _ frees insertable).2 _ rfl
  have run := Run.extend (@Run.stop _ _ Step _) (.call frees insertable inserts)
  obtain ⟨_, _, built, _, next⟩ := lists_follow_calls empty run
  obtain rfl := Option.some.inj built
  obtain ⟨_, _, _, sorts, _⟩ := (next _ _ frees (sortable _)).2 _ rfl
  have run := run.extend (.call frees (sortable _) sorts)
  obtain ⟨_, _, built, _, next⟩ := lists_follow_calls empty run
  obtain rfl := Option.some.inj built
  obtain ⟨pool, _, _, deletes, _⟩ := (next _ _ frees (deletable _)).2 _ rfl
  have run := run.extend (.call frees (deletable _) deletes)
  obtain ⟨nodes, _, built, represents, _⟩ := lists_follow_calls empty run
  obtain rfl := Option.some.inj built
  refine ⟨pool, run, fun p => ?_⟩
  by_contra allocated
  obtain ⟨owner, member⟩ := (represents.held.allocated p).mp (by simpa using allocated)
  have values := represents.values owner
  by_cases same : owner = 0
  · subst same
    rw [Function.update_self, List.map_eq_nil_iff] at values
    rw [values] at member
    simp at member
  · simp only [Function.update_of_ne same, List.map_eq_nil_iff] at values
    rw [values] at member
    simp at member

end Sysprog.XorList
