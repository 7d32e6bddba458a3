import Sysprog.XorListMerge

namespace Sysprog.XorList

open FuelLoop XorChain

/-!
# The nodes that sorting accesses

Memory is total in the model, so a null or stray pointer would go unnoticed.  Here the
addresses that the sorting functions dereference are listed, each at least once.  On a
well-formed list all of them are nodes of the list, so none is `NULL`.
-/

/-! ## What is dereferenced -/

/-- One round of `to_half`: the slow cursor, and the fast one on both of its steps. -/
def halfAccesses (heap : Heap) (state : HalfState) : List Addr :=
  if state.fast ≠ 0 ∧ state.fastNext ≠ 0 then
    let fast := XOR (heap.addr state.fastNext) state.fast
    [state.head, state.fastNext] ++ if fast ≠ 0 then [fast] else []
  else
    []

/-- `to_half`; the head is read before it is compared with `NULL`. -/
def toHalfAccesses (fuel : Nat) (heap : Heap) (head : Addr) : List Addr :=
  if head = 0 then
    [head]
  else
    let start : HalfState :=
      { size := 0, head := head, prev := 0, fast := head, fastNext := heap.addr head }
    head :: observed (halfAccesses heap) (halfRound heap) fuel start ++
      match (loop (halfRound heap) fuel start).join with
      | none => []
      | some state => [state.prev, state.head]

/-- One test of the inner loop of `insertion_sort`, and the step behind it. -/
def searchAccesses (target : Addr) (cursor : Addr × Addr) : List Addr :=
  if cursor.1 ≠ 0 ∧ target ≠ 0 then [cursor.1, target] else []

/-- One round of the outer loop of `insertion_sort`. -/
def insertAccesses (fuel : Nat) (state : InsertState) : List Addr :=
  let { heap, head := _, sorted, sortedPrev } := state
  if sorted = 0 then
    []
  else
    let target := XOR (heap.addr sorted) sortedPrev
    sorted :: observed (searchAccesses target) (searchRound heap target) fuel (sorted, target) ++
      match loop (searchRound heap target) fuel (sorted, target) with
      | none => []
      | some (pos, prev) =>
          if sorted ≠ pos then
            let next := XOR (heap.addr target) sorted
            [target, sorted, prev] ++ (if pos = 0 then [] else [pos]) ++
              if next = 0 then [] else [next]
          else
            []

/-- `insertion_sort`. -/
def insertionSortAccesses (fuel : Nat) (heap : Heap) (head : Addr) : List Addr :=
  if head = 0 then
    []
  else
    head ::
      if heap.addr head = 0 then
        []
      else
        observed (insertAccesses fuel) (insertRound fuel) fuel
          { heap := heap, head := head, sorted := head, sortedPrev := 0 }

/-- Both branches of the merging loop. -/
def takeAccesses (state : MergeState) (taken : Addr) : List Addr :=
  let next := state.heap.addr taken
  taken :: (if next ≠ 0 then [next] else []) ++
    if state.merge = 0 then [] else [state.merge]

/-- One round of the merging loop; data is compared where both lists have a node left. -/
def mergeAccesses (state : MergeState) : List Addr :=
  if state.left = 0 ∧ state.right = 0 then
    []
  else if state.right = 0 then
    takeAccesses state state.left
  else if state.left = 0 then
    takeAccesses state state.right
  else if state.heap.data state.left < state.heap.data state.right then
    state.right :: takeAccesses state state.left
  else
    state.left :: takeAccesses state state.right

/-- `__merge_sort`. -/
def mergeSortAccesses : Nat → Heap → Addr → Int → List Addr
  | 0, _, _, _ => []
  | fuel + 1, heap, start, minSplitSize =>
      if start = 0 then
        []
      else
        start ::
          if heap.addr start = 0 then
            []
          else if minSplitSize = 0 then
            insertionSortAccesses fuel heap start
          else
            toHalfAccesses fuel heap start ++
              match toHalf fuel heap start 0 with
              | none => []
              | some (heap, right, size) =>
                  let minSplitSize := if size ≤ minSplitSize then 0 else minSplitSize
                  mergeSortAccesses fuel heap start minSplitSize ++
                    match mergeSort fuel heap start minSplitSize with
                    | none => []
                    | some (heap, left) =>
                        mergeSortAccesses fuel heap right minSplitSize ++
                          match mergeSort fuel heap right minSplitSize with
                          | none => []
                          | some (heap, right) =>
                              observed mergeAccesses mergeRound fuel
                                { heap := heap
                                  left := left
                                  right := right
                                  merge := 0
                                  start := start }

/-! ## Nodes at the ends of a list -/

section Ends

variable {nodes : List Addr}

/-- What is found in a list is a node, if it is not the null that stands for nothing. -/
private theorem found_mem
    {found : Option Addr}
    (member : ∀ node ∈ found, node ∈ nodes)
    (occupied : found.getD 0 ≠ 0) :
    found.getD 0 ∈ nodes := by
  cases found with
  | none =>
      exact (occupied rfl).elim
  | some node =>
      exact member node rfl

private theorem headD_mem (occupied : nodes.headD 0 ≠ 0) : nodes.headD 0 ∈ nodes := by
  rw [List.headD_eq_head?_getD] at occupied ⊢
  exact found_mem (fun _ => List.mem_of_head?) occupied

private theorem getLastD_mem (occupied : nodes.getLastD 0 ≠ 0) : nodes.getLastD 0 ∈ nodes := by
  rw [List.getLastD_eq_getLast?] at occupied ⊢
  exact found_mem (fun _ => List.mem_of_getLast?) occupied

private theorem getD_mem
    {index : Nat}
    (occupied : nodes.getD index 0 ≠ 0) :
    nodes.getD index 0 ∈ nodes := by
  rw [List.getD_eq_getElem?_getD] at occupied ⊢
  exact found_mem (fun _ => List.mem_of_getElem?) occupied

end Ends

/-! ## Cutting in the middle -/

/-- In every round, the cursors that are followed stand on nodes. -/
private theorem halfAccesses_mem
    {heap : Heap}
    {head : Addr}
    {nodes : List Addr}
    (list : IsList heap head nodes)
    (bound : Nat)
    (state : HalfState)
    (halving : HalvingWithin nodes bound state) :
    ∀ p ∈ halfAccesses heap state, p ∈ nodes := by
  intro p member
  obtain ⟨count, here, _⟩ := halving
  by_cases continues : state.fast ≠ 0 ∧ state.fastNext ≠ 0
  · obtain ⟨inside, fastNextEq, fastEq⟩ := here.fastStep list continues
    simp only [halfAccesses, if_pos continues, List.cons_append, List.nil_append,
      List.mem_cons] at member
    rcases member with atHead | atNext | atFast
    · rw [atHead, here.head]
      apply getD_mem
      rw [ne_eq, getD_eq_null list.nonnull]
      omega
    · rw [atNext, fastNextEq]
      apply getD_mem
      rw [← fastNextEq]
      exact continues.2
    · split at atFast
      · rename_i fastNonnull
        rw [List.mem_singleton.mp atFast]
        rw [fastEq] at fastNonnull ⊢
        exact getD_mem fastNonnull
      · simp at atFast
  · rw [halfAccesses, if_neg continues] at member
    simp at member

/-- `to_half` accesses only nodes of the list, when there are at least two. -/
theorem toHalfAccesses_mem
    {heap : Heap}
    {head : Addr}
    {nodes : List Addr}
    {fuel : Nat}
    (list : IsList heap head nodes)
    (several : 2 ≤ nodes.length)
    (narrow : nodes.length < 2 ^ 32)
    (enough : nodes.length < fuel) :
    ∀ p ∈ toHalfAccesses fuel heap head, p ∈ nodes := by
  have headNonnull := list.head_ne_null several
  have start := list.halvingWithin (by omega)
  have walked :=
    mem_observed _ _ (· ∈ nodes) (halfRound_correct list) (halfAccesses_mem list) start fuel
  obtain ⟨final, returned, halved⟩ := list.halves (by omega) narrow enough
  have nullAt := getD_eq_null list.nonnull
  intro p member
  simp only [toHalfAccesses, if_neg headNonnull, returned, Option.join_some,
    List.cons_append, List.mem_cons, List.mem_append, List.not_mem_nil, or_false] at member
  rcases member with atHead | onTheWay | atPrev | atMiddle
  · rw [atHead, list.starts]
    apply headD_mem
    rw [← list.starts]
    exact headNonnull
  · exact walked p onTheWay
  · have behind : final.prev = nodes.getD (nodes.length / 2 - 1) 0 := by
      rw [halved.prev, show nodes.length / 2 = nodes.length / 2 - 1 + 1 by omega,
        List.getD_cons_succ, Nat.add_sub_cancel]
    rw [atPrev, behind]
    apply getD_mem
    rw [ne_eq, nullAt]
    omega
  · rw [atMiddle, halved.head]
    apply getD_mem
    rw [ne_eq, nullAt]
    omega

/-! ## Insertion sort -/

/-- In every test of the search, the nodes compared are on the list. -/
private theorem searchAccesses_mem
    {heap : Heap}
    {front rest : List Addr}
    {cursor : Addr × Addr}
    {kept passed : List Addr}
    (place : Place heap front (rest.headD 0) kept passed cursor) :
    ∀ p ∈ searchAccesses (rest.headD 0) cursor, p ∈ front ++ rest := by
  intro p member
  unfold searchAccesses at member
  split at member
  · rename_i continues
    rw [place.pos] at continues member
    rcases List.mem_cons.mp member with atNode | atTarget
    · rw [atNode, place.split]
      exact List.mem_append_left _ (List.mem_append_left _ (getLastD_mem continues.1))
    · rw [List.mem_singleton.mp atTarget]
      exact List.mem_append_right _ (headD_mem continues.2)
  · simp at member

/-- A move that follows the search accesses nodes on both sides of both places. -/
private theorem moveAccesses_mem
    {heap : Heap}
    {leading rest : List Addr}
    {sorted pos prev : Addr}
    {kept passed : List Addr}
    (chain : Chain heap.addr 0 (leading ++ [sorted] ++ rest) 0)
    (place : Place heap (leading ++ [sorted]) (rest.headD 0) kept passed (pos, prev))
    (elsewhere : sorted ≠ pos) :
    ∀ p ∈ [rest.headD 0, sorted, prev] ++ (if pos = 0 then [] else [pos]) ++
        (if XOR (heap.addr (rest.headD 0)) sorted = 0 then []
          else [XOR (heap.addr (rest.headD 0)) sorted]),
      p ∈ leading ++ [sorted] ++ rest := by
  have posEq : pos = kept.getLastD 0 := place.pos
  have prevEq : prev = passed.headD (rest.headD 0) := place.prev
  have keptMem : ∀ p ∈ kept, p ∈ leading ++ [sorted] ++ rest := by
    intro p member
    rw [place.split]
    exact List.mem_append_left _ (List.mem_append_left _ member)
  -- Nothing passed would mean that the search stopped where it started.
  obtain ⟨first, more, rfl⟩ : ∃ first more, passed = first :: more := by
    cases passed with
    | nil =>
        have all : leading ++ [sorted] = kept := by simpa using place.split
        rw [← all] at posEq
        simp [List.getLastD_eq_getLast?] at posEq
        exact (elsewhere posEq.symm).elim
    | cons first more =>
        exact ⟨first, more, rfl⟩
  have targetNonnull := place.active (by simp)
  have prevMem : prev ∈ leading ++ [sorted] ++ rest := by
    rw [prevEq, place.split]
    simp
  cases rest with
  | nil =>
      exact (targetNonnull rfl).elim
  | cons target behind =>
      have next : XOR (heap.addr target) sorted = behind.headD 0 := by
        have onward := chain.onward
        simpa [XOR, List.getLastD_eq_getLast?] using onward
      intro p member
      simp only [List.headD_cons, next, List.mem_append, List.mem_cons, List.not_mem_nil,
        or_false] at member
      rcases member with ((rfl | rfl | rfl) | atPos) | atNext
      · simp
      · simp
      · exact prevMem
      · split at atPos
        · simp at atPos
        · rename_i posNonnull
          rw [List.mem_singleton.mp atPos]
          rw [posEq] at posNonnull ⊢
          exact keptMem _ (getLastD_mem posNonnull)
      · split at atNext
        · simp at atNext
        · rename_i nextNonnull
          rw [List.mem_singleton.mp atNext]
          exact List.mem_append_right _ (List.mem_cons_of_mem target (headD_mem nextNonnull))

/-- In every round of the outer loop, only nodes of the list are accessed. -/
private theorem insertAccesses_mem
    {original : Heap}
    {nodes : List Addr}
    {fuel : Nat}
    (enough : nodes.length < fuel)
    (bound : Nat)
    (state : InsertState)
    (inserting : Inserting original nodes bound state) :
    ∀ p ∈ insertAccesses fuel state, p ∈ nodes := by
  intro p member
  rcases inserting.cases with
    ⟨finished, _⟩ | ⟨leading, rest, split, active, behindSorted, _⟩
  · simp [insertAccesses, finished] at member
  · obtain ⟨targetHere, ⟨pos, prev⟩, searched, kept, passed, place, _⟩ :=
      split.searched behindSorted enough
    have frontNonnull : (0 : Addr) ∉ leading ++ [state.sorted] := by
      intro null
      exact split.list.nonnull (List.mem_append_left rest null)
    have atSorted : state.sorted = (leading ++ [state.sorted]).getLastD 0 := by
      simp [List.getLastD_eq_getLast?]
    have start := place_start state.heap (leading ++ [state.sorted]) (rest.headD 0)
    have walked :=
      mem_observed _ _ (· ∈ leading ++ [state.sorted] ++ rest)
        (search_round split.list.chain frontNonnull)
        (fun _ _ ⟨_, _, placed, _⟩ => searchAccesses_mem placed)
        ⟨_, _, start, Nat.le_refl _⟩ fuel
    rw [← atSorted] at walked
    apply split.rearranged.perm.mem_iff.mp
    simp only [insertAccesses, if_neg active, targetHere, searched, List.cons_append,
      List.mem_cons, List.mem_append] at member
    rcases member with same | onTheWay | moved
    · rw [same]
      simp
    · exact walked p onTheWay
    · split at moved
      · rename_i elsewhere
        exact moveAccesses_mem split.list.chain place elsewhere p (by simpa using moved)
      · simp at moved

/-- `insertion_sort` accesses only nodes of the list. -/
theorem insertionSortAccesses_mem
    {heap : Heap}
    {head : Addr}
    {nodes : List Addr}
    {fuel : Nat}
    (list : IsList heap head nodes)
    (enough : nodes.length < fuel) :
    ∀ p ∈ insertionSortAccesses fuel heap head, p ∈ nodes := by
  cases nodes with
  | nil =>
      obtain rfl : head = 0 := list.starts
      simp [insertionSortAccesses]
  | cons first rest =>
      obtain rfl : head = first := list.starts
      have walked :=
        mem_observed _ _ (· ∈ head :: rest) (insertRound_correct enough)
          (insertAccesses_mem enough) list.inserting fuel
      intro p member
      unfold insertionSortAccesses at member
      split at member
      · simp at member
      · rcases List.mem_cons.mp member with same | onTheWay
        · rw [same]
          exact List.mem_cons_self
        · split at onTheWay
          · simp at onTheWay
          · exact walked p onTheWay

/-! ## Merging -/

/-- Taking a node accesses it, the one behind it and the last one that was merged. -/
private theorem takeAccesses_mem
    {state : MergeState}
    {nodes merged rest : List Addr}
    {taken : Addr}
    (chain : Chain state.heap.addr 0 (taken :: rest) 0)
    (mergeEq : state.merge = merged.getLastD 0)
    (source : ∀ p ∈ taken :: rest, p ∈ nodes)
    (target : ∀ p ∈ merged, p ∈ nodes) :
    ∀ p ∈ takeAccesses state taken, p ∈ nodes := by
  have next : state.heap.addr taken = rest.headD 0 := by
    rw [chain.1, null_xor]
  intro p member
  simp only [takeAccesses, next, mergeEq, List.cons_append, List.mem_cons,
    List.mem_append] at member
  rcases member with same | atNext | atMerge
  · rw [same]
    exact source taken List.mem_cons_self
  · split at atNext
    · rename_i nextNonnull
      rw [List.mem_singleton.mp atNext]
      exact source _ (List.mem_cons_of_mem taken (headD_mem nextNonnull))
    · simp at atNext
  · split at atMerge
    · simp at atMerge
    · rename_i mergeNonnull
      rw [List.mem_singleton.mp atMerge]
      exact target _ (getLastD_mem mergeNonnull)

/-- In every round of the merging loop, only nodes of the two lists are accessed. -/
private theorem mergeAccesses_mem
    {original : Heap}
    {nodes : List Addr}
    (bound : Nat)
    (state : MergeState)
    (merging : MergingWithin original nodes bound state) :
    ∀ p ∈ mergeAccesses state, p ∈ nodes := by
  obtain ⟨merged, left, right, merging, _⟩ := merging
  have perm := merging.rearranged.perm
  have mergedMem : ∀ p ∈ merged, p ∈ nodes := by
    intro p member
    exact perm.mem_iff.mp (List.mem_append_left _ (List.mem_append_left _ member))
  have leftMem : ∀ p ∈ left, p ∈ nodes := by
    intro p member
    exact perm.mem_iff.mp (List.mem_append_left _ (List.mem_append_right _ member))
  have rightMem : ∀ p ∈ right, p ∈ nodes := by
    intro p member
    exact perm.mem_iff.mp (List.mem_append_right _ member)
  have takesLeft : state.left ≠ 0 → ∀ p ∈ takeAccesses state state.left, p ∈ nodes := by
    intro occupied
    have leftEq := merging.leftEq
    cases left with
    | nil =>
        exact (occupied leftEq).elim
    | cons taken rest =>
        rw [leftEq]
        exact takeAccesses_mem merging.leftChain merging.mergeEq leftMem mergedMem
  have takesRight : state.right ≠ 0 → ∀ p ∈ takeAccesses state state.right, p ∈ nodes := by
    intro occupied
    have rightEq := merging.rightEq
    cases right with
    | nil =>
        exact (occupied rightEq).elim
    | cons taken rest =>
        rw [rightEq]
        exact takeAccesses_mem merging.rightChain merging.mergeEq rightMem mergedMem
  have leftHead : state.left ≠ 0 → state.left ∈ nodes := by
    rw [merging.leftEq]
    exact fun occupied => leftMem _ (headD_mem occupied)
  have rightHead : state.right ≠ 0 → state.right ∈ nodes := by
    rw [merging.rightEq]
    exact fun occupied => rightMem _ (headD_mem occupied)
  intro p member
  unfold mergeAccesses at member
  split at member
  · simp at member
  · rename_i notBoth
    split at member
    · rename_i rightNull
      exact takesLeft (fun leftNull => notBoth ⟨leftNull, rightNull⟩) p member
    · rename_i rightNonnull
      split at member
      · exact takesRight rightNonnull p member
      · rename_i leftNonnull
        split at member
        · rcases List.mem_cons.mp member with compared | taken
          · rw [compared]
            exact rightHead rightNonnull
          · exact takesLeft leftNonnull p taken
        · rcases List.mem_cons.mp member with compared | taken
          · rw [compared]
            exact leftHead leftNonnull
          · exact takesRight rightNonnull p taken

/-! ## The sort -/

/-- A `__merge_sort` that does not overflow accesses only nodes of the list. -/
theorem mergeSortAccesses_mem
    {fuel : Nat}
    {heap : Heap}
    {head : Addr}
    {nodes : List Addr}
    (list : IsList heap head nodes)
    (enough : nodes.length + 2 ≤ fuel)
    {minSplitSize : Int}
    (counts : nodes.length < 2 ^ 32 ∨ minSplitSize = 0) :
    ∀ p ∈ mergeSortAccesses fuel heap head minSplitSize, p ∈ nodes := by
  induction fuel generalizing heap head nodes minSplitSize with
  | zero =>
      omega
  | succ fuel inductionHypothesis =>
      intro p member
      unfold mergeSortAccesses at member
      split at member
      · simp at member
      rename_i occupied
      rcases List.mem_cons.mp member with same | member
      · rw [same, list.starts]
        apply headD_mem
        rw [← list.starts]
        exact occupied
      split at member
      · simp at member
      rename_i linked
      split at member
      · exact insertionSortAccesses_mem list (by omega) p member
      rename_i splits
      have narrow := counts.resolve_right splits
      have several : 2 ≤ nodes.length := by
        by_contra short
        rcases list.short_iff.mpr (Nat.lt_of_not_le short) with null | single
        · exact occupied null
        · exact linked single
      obtain ⟨⟨halved, middle, size⟩, first, second, returned, cut, rfl, firstShorter,
        secondShorter⟩ := list.halved several narrow (show nodes.length < fuel by omega)
      rw [returned] at member
      simp only at member
      generalize (if size ≤ minSplitSize then 0 else minSplitSize) = splitSize at member
      obtain ⟨⟨heap₁, left⟩, order₁, returned₁, sortedFirst⟩ :=
        @mergeSort_sorts fuel _ _ _ cut.first (by omega) splitSize (.inl (by omega))
      have secondList := cut.second_kept list.distinct sortedFirst
      obtain ⟨⟨heap₂, right⟩, order₂, returned₂, sortedSecond⟩ :=
        @mergeSort_sorts fuel _ _ _ secondList (by omega) splitSize (.inl (by omega))
      have halves := cut.halvesSorted list sortedFirst sortedSecond
      rw [returned₁] at member
      simp only at member
      rw [returned₂] at member
      simp only [List.mem_append] at member
      rcases member with inCut | inFirst | inSecond | inMerge
      · exact toHalfAccesses_mem list several narrow (by omega) p inCut
      · exact List.mem_append_left _
          (@inductionHypothesis _ _ _ cut.first (by omega) splitSize (.inl (by omega)) p inFirst)
      · exact List.mem_append_right _
          (@inductionHypothesis _ _ _ secondList (by omega) splitSize (.inl (by omega)) p inSecond)
      · have nonempty : first ++ second ≠ [] := by
          intro empty
          rw [empty] at several
          simp at several
        exact mem_observed _ _ (· ∈ first ++ second) (mergeRound_correct nonempty)
          mergeAccesses_mem halves.mergingWithin fuel p inMerge

end Sysprog.XorList
