import Sysprog.XorListHistory

namespace Sysprog.XorList

open FuelLoop XorChain HeldCells Execution

/-!
# The unit test of the exclusive-or list

Every round of `check` and `randomcheck` builds a list from an array, sorts it, compares
it with the sorted array and deletes it.  The rounds pass for all arrays that an `int` can
count half of and whose numbers `cmp` compares without overflow, and they need no more
memory than one list at a time.
-/

/-! ## The comparison -/

/-- Without overflow `cmp` orders two numbers. -/
theorem cmp_le_iff
    {a b : Int}
    (above : -2 ^ 31 ≤ a - b)
    (below : a - b < 2 ^ 31) :
    cmp a b ≤ 0 ↔ a ≤ b := by
  rw [cmp, Int.bmod_eq_of_le (by omega) (by omega)]
  omega

/-- `qsort` sorts an array of comparable numbers. -/
theorem qsort_comparable {array : List Int} (comparable : Comparable array) :
    qsort cmp array = array.mergeSort := by
  have sameOrder :
      ∀ a ∈ array, ∀ b ∈ array, decide (cmp a b ≤ 0) = decide (id a ≤ id b) := by
    intro a inA b inB
    obtain ⟨above, below⟩ := comparable a inA b inB
    exact decide_eq_decide.mpr (cmp_le_iff above below)
  have mapped :=
    List.map_mergeSort (r := fun a b => cmp a b ≤ 0) (s := fun a b => a ≤ b) (f := id) sameOrder
  rwa [List.map_id, List.map_id] at mapped

/-- The order in which numbers were pushed does not matter to the sort. -/
theorem mergeSort_reverse (array : List Int) : array.reverse.mergeSort = array.mergeSort :=
  ((List.mergeSort_perm _ _).trans
        ((List.reverse_perm array).trans (List.mergeSort_perm _ _).symm)).eq_of_pairwise'
    (List.pairwise_mergeSort' (· ≤ ·) _) (List.pairwise_mergeSort' (· ≤ ·) _)

/-- The walk of `check_sorted` compares the data of the nodes one by one. -/
theorem compareSorted_chain
    {heap : Heap}
    {live : Addr → Bool}
    {nodes : List Addr}
    {previous : Addr}
    (chain : Chain heap.addr previous nodes 0)
    (nonnull : (0 : Addr) ∉ nodes)
    (allocated : ∀ p ∈ nodes, live p = true) :
    compareSorted heap live (nodes.map heap.data) previous (nodes.headD 0) = some true := by
  induction nodes generalizing previous with
  | nil =>
      rfl
  | cons node rest inductionHypothesis =>
      obtain ⟨notNode, notRest⟩ := not_or.mp fun inside => nonnull (List.mem_cons.mpr inside)
      have onward :=
        inductionHypothesis chain.2 notRest fun p member =>
          allocated p (List.mem_cons_of_mem node member)
      rw [← chain.forward] at onward
      simp only [List.map_cons, List.headD_cons, compareSorted, if_neg (Ne.symm notNode),
        allocated node List.mem_cons_self, Bool.true_eq_false, if_false, ne_eq, not_true_eq_false,
        XOR, onward]

section Pools

variable
  {Handle : Type}
  [DecidableEq Handle]
  {pool : Pool Handle}
  {nodes : Handle → List Addr}
  {contents : Handle → List Int}
  {malloc : Pool Handle → Addr}
  {free : Free}
  {capacity : Nat}
  {used : List Addr}

namespace Represents

/-! ## Building a list -/

/-- `create_list` pushes the numbers one by one. -/
theorem createList
    (allocates : Allocates capacity malloc)
    (l : Handle)
    (fuel : Nat)
    {array : List Int}
    (represents : Represents pool nodes contents)
    (allocated : ∀ p, pool.live p = true ↔ p ∈ used)
    (room : used.length + array.length ≤ capacity) :
    ∃ after list,
      pool.createList malloc free fuel l array = some after ∧
        Represents after (Function.update nodes l list)
          (Function.update contents l (array.reverse ++ contents l)) := by
  induction array generalizing pool nodes contents used with
  | nil =>
      refine ⟨pool, nodes l, rfl, ?_⟩
      rw [List.reverse_nil, List.nil_append, Function.update_eq_self, Function.update_eq_self]
      exact represents
  | cons d rest inductionHypothesis =>
      rw [List.length_cons] at room
      obtain ⟨nonnull, fresh⟩ := allocates pool used allocated (by omega)
      obtain ⟨grown, performs, kept⟩ :=
        @Represents.insertNode _ _ _ _ _ free represents (malloc pool) nonnull fresh l d fuel
      have live : grown.live = Function.update pool.live (malloc pool) true := by
        simp only [Pool.perform] at performs
        split at performs
        · rw [← Option.some.inj performs]
        · simp at performs
      have nowAllocated : ∀ p, grown.live p = true ↔ p ∈ malloc pool :: used := by
        intro p
        rw [live, List.mem_cons, ← allocated p]
        by_cases same : p = malloc pool
        · simp [same]
        · simp [same]
      obtain ⟨after, list, created, represented⟩ :=
        inductionHypothesis kept nowAllocated (by rw [List.length_cons]; omega)
      refine ⟨after, list, ?_, ?_⟩
      · simp only [Pool.createList, performs, Option.bind_eq_bind, Option.bind_some, created]
      · rw [Function.update_idem, Function.update_idem, Function.update_self] at represented
        rw [List.reverse_cons, List.append_assoc]
        exact represented

/-! ## One round -/

omit [DecidableEq Handle] in
/-- The sorted list passes the check. -/
theorem checkSorted
    (represents : Represents pool nodes contents)
    {l : Handle}
    {array : List Int}
    (comparable : Comparable array)
    (sorted : contents l = array.mergeSort) :
    checkSorted pool.heap pool.live (pool.heads l) array = some true := by
  obtain ⟨chain, _, nonnull, starts⟩ := represents.lists l
  rw [XorList.checkSorted, qsort_comparable comparable, ← sorted, ← represents.values l, starts]
  exact compareSorted_chain chain nonnull fun p member => represents.held.live_of_mem member

/-- One round passes and leaves the other lists as they were, and nothing else. -/
theorem testRound
    (frees : KeepsAllocated free)
    (allocates : Allocates capacity malloc)
    (represents : Represents pool nodes contents)
    (allocated : ∀ p, pool.live p = true ↔ p ∈ used)
    {l : Handle}
    (unused : pool.heads l = 0)
    {array : List Int}
    (comparable : Comparable array)
    (narrow : array.length < 2 ^ 32)
    (room : used.length + array.length ≤ capacity)
    {fuel : Nat}
    (enough : array.length + 2 ≤ fuel) :
    ∃ after,
      pool.testRound malloc free fuel l array = some (true, after) ∧
        Represents after nodes contents ∧
        after.heads l = 0 := by
  have noNodes : nodes l = [] := by
    obtain ⟨_, _, nonnull, starts⟩ := represents.lists l
    rw [unused] at starts
    cases shape : nodes l with
    | nil =>
        rfl
    | cons first rest =>
        rw [shape, List.headD_cons] at starts
        rw [shape, ← starts] at nonnull
        exact (nonnull List.mem_cons_self).elim
  have noNumbers : contents l = [] := by
    rw [← represents.values l, noNodes, List.map_nil]
  obtain ⟨created, list, creates, filled⟩ :=
    @Represents.createList _ _ _ _ _ _ free _ _ allocates l fuel array represents allocated room
  rw [noNumbers, List.append_nil] at filled
  have sameLength : list.length = array.length := by
    have values := congrArg List.length (filled.values l)
    simpa using values
  obtain ⟨sorted, order, sorts, perm, inOrder⟩ :=
    @filled.mergeSorts _ _ _ _ _ free l 1 (by rw [Function.update_self]; omega)
  rw [Function.update_self] at sorts perm
  simp only [Function.update_idem, Function.update_self] at inOrder
  have passes : XorList.checkSorted sorted.heap sorted.live (sorted.heads l) array = some true := by
    refine inOrder.checkSorted comparable ?_
    rw [Function.update_self]
    exact mergeSort_reverse array
  obtain ⟨deleted, deletes, kept⟩ := inOrder.deletes frees l
  have sortedLength := perm.length_eq
  have sameNodes : Function.update nodes l [] = nodes := by
    rw [← noNodes, Function.update_eq_self]
  have sameNumbers : Function.update contents l [] = contents := by
    rw [← noNumbers, Function.update_eq_self]
  rw [Function.update_self] at deletes
  simp only [Function.update_idem, sameNodes, sameNumbers] at kept
  refine ⟨deleted, ?_, kept, ?_⟩
  · have sortsHere := sorts fuel (by omega)
    have deletesHere := deletes fuel (by omega)
    simp only [Pool.testRound, creates, sortsHere, passes, deletesHere, Option.bind_eq_bind,
      Option.bind_some, if_true]
    rfl
  · have empty := (kept.lists l).starts
    rw [noNodes] at empty
    exact empty

end Represents

/-- All rounds pass and leave the other lists as they were, and nothing else. -/
theorem Represents.testRounds
    (frees : KeepsAllocated free)
    (allocates : Allocates capacity malloc)
    (represents : Represents pool nodes contents)
    (allocated : ∀ p, pool.live p = true ↔ p ∈ used)
    {l : Handle}
    (unused : pool.heads l = 0)
    {arrays : List (List Int)}
    (comparable : ∀ array ∈ arrays, Comparable array)
    (narrow : ∀ array ∈ arrays, array.length < 2 ^ 32)
    (room : ∀ array ∈ arrays, used.length + array.length ≤ capacity)
    {fuel : Nat}
    (enough : ∀ array ∈ arrays, array.length + 2 ≤ fuel) :
    ∃ after,
      pool.testRounds malloc free fuel l arrays = some (true, after) ∧
        Represents after nodes contents ∧
        after.live = pool.live := by
  induction arrays generalizing pool with
  | nil =>
      exact ⟨pool, rfl, represents, rfl⟩
  | cons array rest inductionHypothesis =>
      obtain ⟨first, passes, kept, stillUnused⟩ :=
        represents.testRound frees allocates allocated unused
          (comparable array List.mem_cons_self) (narrow array List.mem_cons_self)
          (room array List.mem_cons_self) (enough array List.mem_cons_self)
      have sameLive : first.live = pool.live := by
        funext p
        rw [Bool.eq_iff_iff, kept.held.allocated, represents.held.allocated]
      obtain ⟨after, others, represented, live⟩ :=
        inductionHypothesis kept (by rw [sameLive]; exact allocated) stillUnused
          (fun other member => comparable other (List.mem_cons_of_mem array member))
          (fun other member => narrow other (List.mem_cons_of_mem array member))
          (fun other member => room other (List.mem_cons_of_mem array member))
          (fun other member => enough other (List.mem_cons_of_mem array member))
      refine ⟨after, ?_, represented, live.trans sameLive⟩
      simp only [Pool.testRounds, passes, Option.bind_eq_bind, Option.bind_some, if_true, others]

/--
After any run all rounds of the tests pass, if each array has fewer than 2^32 numbers, which
compare without overflow, and `malloc` finds room for one list at a time beside the nodes
that are allocated.  Afterwards the same nodes are allocated and the other lists are as before.
-/
theorem tests_pass
    {start : Pool Handle}
    {labels : List (Label Handle)}
    (empty : start.Empty)
    (run : Run Step start labels pool)
    (frees : KeepsAllocated free)
    (allocates : Allocates capacity malloc)
    (allocated : ∀ p, pool.live p = true ↔ p ∈ used)
    {l : Handle}
    (unused : pool.heads l = 0)
    {arrays : List (List Int)}
    (comparable : ∀ array ∈ arrays, Comparable array)
    (narrow : ∀ array ∈ arrays, array.length < 2 ^ 32)
    (room : ∀ array ∈ arrays, used.length + array.length ≤ capacity)
    {fuel : Nat}
    (enough : ∀ array ∈ arrays, array.length + 2 ≤ fuel) :
    ∃ nodes contents after,
      labels.foldlM advance (fun _ => []) = some contents ∧
        Represents pool nodes contents ∧
        pool.testRounds malloc free fuel l arrays = some (true, after) ∧
        Represents after nodes contents ∧
        after.live = pool.live := by
  obtain ⟨nodes, contents, built, represents⟩ := represents_run empty run
  obtain ⟨after, pass, kept, live⟩ :=
    represents.testRounds frees allocates allocated unused comparable narrow room enough
  exact ⟨nodes, contents, after, built, represents, pass, kept, live⟩

end Pools

/-- A `malloc` that looks for a free node among these. -/
def firstFree (nodes : List Addr) (pool : Pool Nat) : Addr :=
  (nodes.find? fun p => !pool.live p).getD 0

/-- It finds one until all of them are allocated. -/
theorem firstFree_allocates
    {nodes : List Addr}
    (distinct : nodes.Nodup)
    (nonnull : (0 : Addr) ∉ nodes) :
    Allocates nodes.length (firstFree nodes) := by
  intro pool used allocated room
  cases found : nodes.find? fun p => !pool.live p with
  | none =>
      have inside : nodes ⊆ used := by
        intro p member
        have live := List.find?_eq_none.mp found p member
        exact (allocated p).mp (by simpa using live)
      have short := (List.subperm_of_subset distinct inside).length_le
      omega
  | some p =>
      have member := List.mem_of_find?_eq_some found
      have free := List.find?_some found
      simp only [firstFree, found, Option.getD_some]
      refine ⟨?_, by simpa using free⟩
      rintro rfl
      exact nonnull member

/-- Seven nodes. -/
def sevenNodes : List Addr :=
  [0x1000, 0x1020, 0x1040, 0x1060, 0x1080, 0x10a0, 0x10c0]

/-- Two of the arrays of `check`, with room for seven nodes. -/
theorem emptyPool_tests :
    ∃ nodes contents after,
      ([] : List (Label Nat)).foldlM advance (fun _ => []) = some contents ∧
        Represents emptyPool nodes contents ∧
        emptyPool.testRounds (firstFree sevenNodes) (fun _ heap _ => heap) 9 0
            [[7, 6, 5, 4, 3, 2, 1], [7, 2, 1, 3, 4, 6, 5]] =
          some (true, after) ∧
        Represents after nodes contents ∧
        after.live = emptyPool.live := by
  have allocates : Allocates 7 (firstFree sevenNodes) :=
    @firstFree_allocates sevenNodes (by decide) (by decide)
  have nothing : ∀ p, emptyPool.live p = true ↔ p ∈ ([] : List Addr) := by
    simp [emptyPool]
  refine tests_pass ⟨fun _ => rfl, fun _ => rfl⟩ .stop (fun _ _ _ _ _ => ⟨rfl, rfl⟩) allocates
    nothing rfl ?_ (by decide) (by decide) (by decide)
  unfold Comparable
  decide

end Sysprog.XorList
