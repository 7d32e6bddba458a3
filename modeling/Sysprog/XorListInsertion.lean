import Mathlib.Data.List.Perm.Basic
import Sysprog.XorListModel

namespace Sysprog.XorList

open FuelLoop XorChain

/-!
# Insertion sort on exclusive-or lists

The sort keeps the list well formed after every round.  It is split in a sorted
front part and the untouched rest.  One round either takes the next node into the
front part where it stands, or moves it back past the larger nodes.
-/

/-- What every sorting step leaves alone: the data, and all nodes outside the list. -/
structure Rearranged
    (heap : Heap)
    (nodes : List Addr)
    (result : Heap)
    (order : List Addr) : Prop where
  data : result.data = heap.data
  frame : ∀ p, p ∉ nodes → result.addr p = heap.addr p
  perm : order.Perm nodes

/-- The nodes are in non-decreasing order of their data. -/
def InOrder (data : Addr → Int) (order : List Addr) : Prop :=
  order.Pairwise fun first second => data first ≤ data second

/-- Nodes of equal data come in the same relative order. -/
def SameTies (data : Addr → Int) (order nodes : List Addr) : Prop :=
  ∀ value, order.filter (data · = value) = nodes.filter (data · = value)

/-! ## The search for the insertion point -/

/--
A cursor of the inner loop between the nodes `kept` before it and the larger nodes
`passed` behind it.
-/
structure Place
    (heap : Heap)
    (front : List Addr)
    (target : Addr)
    (kept passed : List Addr)
    (cursor : Addr × Addr) : Prop where
  split : front = kept ++ passed
  pos : cursor.1 = kept.getLastD 0
  prev : cursor.2 = passed.headD target
  larger : ∀ node ∈ passed, heap.data target < heap.data node
  active : passed ≠ [] → target ≠ 0

/-- The cursor has passed every larger node at the end of the front part. -/
def Found
    (heap : Heap)
    (front : List Addr)
    (target : Addr)
    (cursor : Addr × Addr) : Prop :=
  ∃ kept passed,
    Place heap front target kept passed cursor ∧
      (target = 0 ∨ ∀ node ∈ kept.getLast?, heap.data node ≤ heap.data target)

/-- One round of the search moves the cursor back by one node, or stops in place. -/
theorem search_round
    {heap : Heap}
    {front rest : List Addr}
    (chain : Chain heap.addr 0 (front ++ rest) 0)
    (nonnull : (0 : Addr) ∉ front)
    (bound : Nat)
    (cursor : Addr × Addr)
    (placed :
      ∃ kept passed,
        Place heap front (rest.headD 0) kept passed cursor ∧ kept.length ≤ bound) :
    RoundOk
      (fun bound cursor =>
        ∃ kept passed,
          Place heap front (rest.headD 0) kept passed cursor ∧ kept.length ≤ bound)
      (Found heap front (rest.headD 0)) bound
      (searchRound heap (rest.headD 0) cursor) := by
  obtain ⟨pos, prev⟩ := cursor
  obtain ⟨kept, passed, place, short⟩ := placed
  obtain rfl : pos = kept.getLastD 0 := place.pos
  obtain rfl : prev = passed.headD (rest.headD 0) := place.prev
  by_cases continues :
      kept.getLastD 0 ≠ 0 ∧ rest.headD 0 ≠ 0 ∧
        heap.data (kept.getLastD 0) > heap.data (rest.headD 0)
  · simp only [searchRound, continues, ne_eq, not_false_eq_true, and_self, ↓reduceIte,
      RoundOk]
    obtain ⟨atNode, atTarget, bigger⟩ := continues
    obtain ⟨leading, node, rfl⟩ : ∃ leading node, kept = leading ++ [node] := by
      rcases List.eq_nil_or_concat kept with empty | ⟨leading, node, shape⟩
      · subst kept
        exact (atNode rfl).elim
      · exact ⟨leading, node, by simpa using shape⟩
    have lastNode : (leading ++ [node]).getLastD 0 = node := by
      simp [List.getLastD_eq_getLast?]
    rw [lastNode] at bigger ⊢
    have split : front = leading ++ node :: passed := by
      rw [place.split]
      simp
    have moved : XOR (heap.addr node) (passed.headD (rest.headD 0)) = leading.getLastD 0 := by
      have wholeChain : Chain heap.addr 0 (leading ++ node :: (passed ++ rest)) 0 := by
        rw [split] at chain
        simpa using chain
      have joined : (passed ++ rest).headD 0 = passed.headD (rest.headD 0) := by
        cases passed <;> simp
      rw [XOR, ← joined]
      exact wholeChain.backward
    simp only [List.length_append, List.length_cons, List.length_nil] at short
    refine ⟨leading.length, by omega, leading, node :: passed, ?_, Nat.le_refl _⟩
    refine ⟨split, moved, rfl, ?_, fun _ => atTarget⟩
    intro other member
    rcases List.mem_cons.mp member with same | later
    · rw [same]
      exact bigger
    · exact place.larger other later
  · simp only [searchRound, continues, ↓reduceIte, RoundOk]
    refine ⟨kept, passed, place, ?_⟩
    by_cases atTarget : rest.headD 0 = 0
    · exact Or.inl atTarget
    · right
      intro node last
      have lastNode : kept.getLastD 0 = node := by
        rw [List.getLastD_eq_getLast?, last, Option.getD_some]
      have nodeNonnull : node ≠ 0 := by
        rintro rfl
        apply nonnull
        rw [place.split]
        exact List.mem_append_left passed (List.mem_of_getLast? last)
      rw [lastNode] at continues
      by_contra larger
      exact continues ⟨nodeNonnull, atTarget, by omega⟩

/-- The search starts behind the front part. -/
theorem place_start
    (heap : Heap)
    (front : List Addr)
    (target : Addr) :
    Place heap front target front [] (front.getLastD 0, target) :=
  ⟨by simp, rfl, rfl, by simp, by simp⟩

/-- The inner loop finds the insertion point of the target. -/
theorem search_correct
    {heap : Heap}
    {front rest : List Addr}
    {fuel : Nat}
    (chain : Chain heap.addr 0 (front ++ rest) 0)
    (nonnull : (0 : Addr) ∉ front)
    (enough : front.length < fuel) :
    ∃ cursor,
      loop (searchRound heap (rest.headD 0)) fuel (front.getLastD 0, rest.headD 0) =
          some cursor ∧
        Found heap front (rest.headD 0) cursor := by
  refine loop_correct _ _ (search_round chain nonnull) ?_ enough
  exact ⟨front, [], place_start heap front (rest.headD 0), Nat.le_refl _⟩

/-! ## Moving the target -/

/-- What `moveTarget` achieves: the target linked in its new place, the rest untouched. -/
structure Moved
    (heap : Heap)
    (head : Addr)
    (kept passed rest : List Addr)
    (target next : Addr)
    (result : Heap × Addr) : Prop where
  data : result.1.data = heap.data
  frame :
    ∀ p, p ∉ kept ++ target :: passed → result.1.addr p = heap.addr p
  front : Chain result.1.addr 0 (kept ++ target :: passed) next
  behind : Chain result.1.addr target rest 0
  starts : result.2 = (kept ++ target :: passed).headD 0

/-- The target goes in front of every node of the front part. -/
private theorem moveTarget_first
    {heap : Heap}
    {head sorted target next : Addr}
    {middle rest : List Addr}
    (chain : Chain heap.addr 0 (middle ++ [sorted]) target)
    (behind : Chain heap.addr target rest 0)
    (distinct : (target :: (middle ++ [sorted]) ++ rest).Nodup) :
    Moved heap head [] (middle ++ [sorted]) rest target next
      (moveTarget heap head sorted target 0 ((middle ++ [sorted]).headD target) next) := by
  have sortedFresh : sorted ∉ middle := by
    simp only [List.cons_append, List.nodup_cons, List.nodup_append] at distinct
    grind
  have sortedBehind : sorted ∉ rest := by
    simp only [List.cons_append, List.nodup_cons, List.nodup_append] at distinct
    grind
  have widened := chain.store_last sortedFresh next
  obtain ⟨first, more, shape⟩ : ∃ first more, middle ++ [sorted] = first :: more := by
    cases middle <;> simp
  rw [shape] at widened distinct ⊢
  simp only [List.cons_append, List.nodup_cons, List.mem_cons, List.mem_append,
    not_or] at distinct
  obtain ⟨⟨targetNotFirst, targetNotMore, targetNotRest⟩,
    ⟨firstNotMore, firstNotRest⟩, _⟩ := distinct
  have targetFresh : target ∉ first :: more := by
    simp [targetNotFirst, targetNotMore]
  refine ⟨by simp [moveTarget], ?_, ⟨?_, ?_⟩, ?_, ?_⟩
  · intro p outside
    have sortedMember : sorted ∈ first :: more := by
      rw [← shape]
      simp
    have notSorted : p ≠ sorted := by
      rintro rfl
      exact outside (List.mem_cons_of_mem target sortedMember)
    have notTarget : p ≠ target := by
      rintro rfl
      simp at outside
    have notFirst : p ≠ first := by
      rintro rfl
      simp at outside
    simp [moveTarget, Function.update_of_ne, notSorted, notTarget, notFirst]
  · simp [moveTarget, XOR, Function.update_of_ne targetNotFirst]
  · have linked := (widened.store_other targetFresh first).store_first firstNotMore target
    rw [xor_null] at linked
    exact linked
  · exact ((behind.store_other sortedBehind _).store_other targetNotRest _).store_other
      firstNotRest _
  · simp [moveTarget]

/-- The target goes between two nodes of the front part. -/
private theorem moveTarget_between
    {heap : Heap}
    {head sorted target next pos : Addr}
    {leading middle rest : List Addr}
    (front : Chain heap.addr 0 (leading ++ [pos]) ((middle ++ [sorted]).headD target))
    (chain : Chain heap.addr pos (middle ++ [sorted]) target)
    (behind : Chain heap.addr target rest 0)
    (distinct : ((leading ++ [pos]) ++ target :: (middle ++ [sorted]) ++ rest).Nodup)
    (nonnull : pos ≠ 0)
    (starts : head = (leading ++ [pos]).headD 0) :
    Moved heap head (leading ++ [pos]) (middle ++ [sorted]) rest target next
      (moveTarget heap head sorted target pos ((middle ++ [sorted]).headD target) next) := by
  have sortedApart :
      sorted ∉ leading ++ [pos] ∧ sorted ≠ target ∧ sorted ∉ middle ∧ sorted ∉ rest := by
    simp only [List.nodup_append, List.nodup_cons, List.mem_append, List.mem_cons] at distinct
    grind
  obtain ⟨sortedNotFront, sortedNotTarget, sortedNotMiddle, sortedNotRest⟩ := sortedApart
  have widened := chain.store_last sortedNotMiddle next
  have frontKept := front.store_other sortedNotFront (heap.addr sorted ^^^ target ^^^ next)
  have restKept := behind.store_other sortedNotRest (heap.addr sorted ^^^ target ^^^ next)
  obtain ⟨first, more, shape⟩ : ∃ first more, middle ++ [sorted] = first :: more := by
    cases middle <;> simp
  have sortedMember : sorted ∈ first :: more := by
    rw [← shape]
    simp
  rw [shape] at widened distinct frontKept ⊢
  simp only [List.headD_cons] at frontKept ⊢
  have apart :
      pos ∉ leading ∧ pos ∉ first :: more ∧ pos ≠ target ∧ pos ∉ rest ∧
        first ∉ leading ++ [pos] ∧ first ∉ more ∧ first ≠ target ∧ first ∉ rest ∧
        target ∉ leading ++ [pos] ∧ target ∉ first :: more ∧ target ∉ rest := by
    simp only [List.nodup_append, List.nodup_cons, List.mem_append, List.mem_cons] at distinct
    grind
  obtain ⟨posNotLeading, posNotPassed, posNotTarget, posNotRest, firstNotFront,
    firstNotMore, firstNotTarget, firstNotRest, targetNotFront, targetNotPassed,
    targetNotRest⟩ := apart
  refine ⟨by simp only [moveTarget, if_neg nonnull, Heap.setAddr_data], ?_, ?_, ?_, ?_⟩
  · intro p outside
    have notSorted : p ≠ sorted := by
      rintro rfl
      exact outside (List.mem_append_right _ (List.mem_cons_of_mem target sortedMember))
    have notTarget : p ≠ target := by
      rintro rfl
      simp at outside
    have notFirst : p ≠ first := by
      rintro rfl
      simp at outside
    have notPos : p ≠ pos := by
      rintro rfl
      simp at outside
    simp only [moveTarget, if_neg nonnull, Heap.setAddr_addr, Function.update_of_ne notTarget,
      Function.update_of_ne notFirst, Function.update_of_ne notPos,
      Function.update_of_ne notSorted]
  · rw [chain_append]
    simp only [moveTarget, if_neg nonnull, XOR, Heap.setAddr_addr]
    refine ⟨?_, ?_, ?_⟩
    -- The stores follow the source: `sorted`, `pos`, `prev`, `target`.
    · exact ((frontKept.store_last posNotLeading target).store_other firstNotFront _).store_other
        targetNotFront _
    · simp [List.getLastD_eq_getLast?]
    · exact ((widened.store_other posNotPassed _).store_first firstNotMore target).store_other
        targetNotPassed _
  · simp only [moveTarget, if_neg nonnull, XOR, Heap.setAddr_addr]
    exact ((restKept.store_other posNotRest _).store_other firstNotRest _).store_other
      targetNotRest _
  · have sameHead : (leading ++ [pos] ++ target :: first :: more).headD 0 =
        (leading ++ [pos]).headD 0 := by
      cases leading <;> simp
    rw [sameHead]
    simpa only [moveTarget, if_neg nonnull] using starts

/-- The target is taken from behind the front part and linked in at its place. -/
private theorem moveTarget_correct
    {heap : Heap}
    {head sorted target : Addr}
    {kept middle rest : List Addr}
    (list : IsList heap head (kept ++ (middle ++ [sorted]) ++ target :: rest)) :
    Moved heap head kept (middle ++ [sorted]) rest target (rest.headD 0)
      (moveTarget heap head sorted target (kept.getLastD 0)
        ((middle ++ [sorted]).headD target) (rest.headD 0)) := by
  obtain ⟨chain, distinct, nonnull, starts⟩ := list
  obtain ⟨frontChain, targetChain⟩ := chain_append.mp chain
  obtain ⟨keptChain, passedChain⟩ := chain_append.mp frontChain
  have behind := (chain_cons.mp targetChain).2
  simp only [List.headD_cons] at keptChain passedChain
  have distinctMoved : (kept ++ target :: (middle ++ [sorted]) ++ rest).Nodup := by
    refine distinct.perm ?_
    rw [List.append_assoc kept, List.append_assoc kept]
    exact List.Perm.append_left kept List.perm_middle
  rcases List.eq_nil_or_concat kept with empty | ⟨leading, pos, shape⟩
  · subst kept
    exact moveTarget_first passedChain behind distinctMoved
  · obtain rfl : kept = leading ++ [pos] := by simpa using shape
    have lastKept : (leading ++ [pos]).getLastD 0 = pos := by
      simp [List.getLastD_eq_getLast?]
    rw [lastKept] at passedChain ⊢
    refine moveTarget_between keptChain passedChain behind distinctMoved ?_ ?_
    · rintro rfl
      simp at nonnull
    · rw [starts]
      cases leading <;> simp

/-! ## One round -/

/-- The list, split in a sorted front part and the rest still to be inserted. -/
structure Split
    (original : Heap)
    (nodes : List Addr)
    (heap : Heap)
    (head : Addr)
    (front rest : List Addr) : Prop where
  list : IsList heap head (front ++ rest)
  rearranged : Rearranged original nodes heap (front ++ rest)
  ordered : InOrder original.data front
  ties : SameTies original.data (front ++ rest) nodes

/-- Putting the target at its place keeps the front part sorted. -/
private theorem inOrder_place
    {heap : Heap}
    {front kept passed : List Addr}
    {target : Addr}
    {cursor : Addr × Addr}
    (ordered : InOrder heap.data front)
    (place : Place heap front target kept passed cursor)
    (found : ∀ node ∈ kept.getLast?, heap.data node ≤ heap.data target) :
    InOrder heap.data (kept ++ target :: passed) := by
  rw [InOrder, place.split, List.pairwise_append] at ordered
  obtain ⟨keptOrdered, passedOrdered, across⟩ := ordered
  have keptBelow : ∀ node ∈ kept, heap.data node ≤ heap.data target := by
    intro node member
    rcases List.eq_nil_or_concat kept with empty | ⟨leading, last, shape⟩
    · simp [empty] at member
    · obtain rfl : kept = leading ++ [last] := by simpa using shape
      have lastBelow := found last (by simp)
      rw [List.pairwise_append] at keptOrdered
      rcases List.mem_append.mp member with earlier | atEnd
      · exact Int.le_trans (keptOrdered.2.2 node earlier last (by simp)) lastBelow
      · rw [List.mem_singleton.mp atEnd]
        exact lastBelow
  refine List.pairwise_append.mpr ⟨keptOrdered, ?_, ?_⟩
  · refine List.pairwise_cons.mpr ⟨?_, passedOrdered⟩
    intro node member
    exact Int.le_of_lt (place.larger node member)
  · intro node member other otherMember
    rcases List.mem_cons.mp otherMember with same | later
    · rw [same]
      exact keptBelow node member
    · exact across node member other later

/-- Moving the target past larger nodes keeps the order among equal ones. -/
private theorem sameTies_place
    {data : Addr → Int}
    {kept passed rest nodes : List Addr}
    {target : Addr}
    (larger : ∀ node ∈ passed, data target < data node)
    (ties : SameTies data (kept ++ passed ++ target :: rest) nodes) :
    SameTies data (kept ++ target :: passed ++ rest) nodes := by
  intro value
  rw [← ties value]
  by_cases equal : data target = value
  · have passedNone : passed.filter (data · = value) = [] := by
      rw [List.filter_eq_nil_iff]
      intro node member
      have above := larger node member
      simp only [decide_eq_true_eq]
      omega
    simp [List.filter_append, equal, passedNone]
  · simp [List.filter_append, equal]

/-- The new split after the target was put at its place. -/
private theorem split_place
    {original heap result : Heap}
    {nodes kept passed rest : List Addr}
    {target head newHead : Addr}
    {cursor : Addr × Addr}
    (split : Split original nodes heap head (kept ++ passed) (target :: rest))
    (place : Place heap (kept ++ passed) target kept passed cursor)
    (found : ∀ node ∈ kept.getLast?, heap.data node ≤ heap.data target)
    (sameData : result.data = heap.data)
    (frame : ∀ p, p ∉ kept ++ passed ++ target :: rest → result.addr p = heap.addr p)
    (chain : Chain result.addr 0 (kept ++ target :: passed ++ rest) 0)
    (starts : newHead = (kept ++ target :: passed ++ rest).headD 0) :
    Split original nodes result newHead (kept ++ target :: passed) rest := by
  have reordered :
      (kept ++ target :: passed ++ rest).Perm (kept ++ passed ++ target :: rest) := by
    rw [List.append_assoc, List.append_assoc]
    exact List.Perm.append_left kept List.perm_middle.symm
  have heapData := split.rearranged.data
  refine ⟨⟨chain, ?_, ?_, starts⟩, ⟨?_, ?_, ?_⟩, ?_, ?_⟩
  · exact split.list.distinct.perm reordered.symm
  · intro null
    exact split.list.nonnull (reordered.mem_iff.mp null)
  · rw [sameData, heapData]
  · intro p outside
    rw [← split.rearranged.frame p outside]
    apply frame
    intro member
    exact outside (split.rearranged.perm.mem_iff.mp member)
  · exact reordered.trans split.rearranged.perm
  · rw [← heapData]
    exact inOrder_place (by rw [heapData]; exact split.ordered) place found
  · refine sameTies_place ?_ split.ties
    rw [← heapData]
    exact place.larger

/-- The local variables of the outer loop fit the split. -/
def CursorFits (front rest : List Addr) (state : InsertState) : Prop :=
  (state.sorted = 0 ∧ rest = []) ∨
    (front ≠ [] ∧ state.sorted = front.getLastD 0 ∧
      state.sortedPrev = front.dropLast.getLastD 0)

/-- The invariant of the outer loop, with a bound on the rounds to come. -/
def Inserting
    (original : Heap)
    (nodes : List Addr)
    (bound : Nat)
    (state : InsertState) : Prop :=
  ∃ front rest,
    Split original nodes state.heap state.head front rest ∧
      CursorFits front rest state ∧
      (if state.sorted = 0 then 0 else rest.length + 1) ≤ bound

/-- The outcome of a stable sort. -/
def StablySorted
    (original : Heap)
    (nodes : List Addr)
    (result : Option (Heap × Addr)) : Prop :=
  ∃ heap head order,
    result = some (heap, head) ∧ Split original nodes heap head order []

/-- The target already stands behind everything that is not larger. -/
private theorem insertRound_stay
    {original : Heap}
    {nodes front rest : List Addr}
    {fuel : Nat}
    {state : InsertState}
    {prev : Addr}
    (split : Split original nodes state.heap state.head front rest)
    (atSorted : state.sorted = front.getLastD 0)
    (targetHere : XOR (state.heap.addr state.sorted) state.sortedPrev = rest.headD 0)
    (searched :
      loop (searchRound state.heap (rest.headD 0)) fuel (state.sorted, rest.headD 0) =
        some (state.sorted, prev))
    (place : Place state.heap front (rest.headD 0) front [] (state.sorted, prev))
    (found :
      rest.headD 0 = 0 ∨
        ∀ node ∈ front.getLast?, state.heap.data node ≤ state.heap.data (rest.headD 0))
    (active : state.sorted ≠ 0) :
    RoundOk (Inserting original nodes) (StablySorted original nodes) (rest.length + 1)
      (insertRound fuel state) := by
  simp only [insertRound, if_neg active, targetHere, searched, ne_eq, not_true, if_false,
    RoundOk]
  cases rest with
  | nil =>
      refine ⟨0, by simp, front, [], split, Or.inl ⟨rfl, rfl⟩, by simp⟩
  | cons target more =>
      simp only [List.headD_cons] at found place ⊢
      have targetNonnull : target ≠ 0 := by
        rintro rfl
        exact split.list.nonnull (by simp)
      have lastBelow := found.resolve_left targetNonnull
      refine ⟨more.length + 1, by simp, front ++ [target], more, ?_, Or.inr ⟨by simp, ?_, ?_⟩,
        by rw [if_neg targetNonnull]⟩
      · have split' : Split original nodes state.heap state.head (front ++ []) (target :: more) := by
          simpa using split
        refine split_place split' (by simpa using place) lastBelow rfl (fun _ _ => rfl) ?_ ?_
        · simpa using split.list.chain
        · simpa using split.list.starts
      · simp [List.getLastD_eq_getLast?]
      · simpa [List.getLastD_eq_getLast?] using atSorted

/-- The target is moved back past at least one larger node. -/
private theorem insertRound_move
    {original : Heap}
    {nodes kept middle rest : List Addr}
    {fuel : Nat}
    {state : InsertState}
    {pos prev target : Addr}
    (split :
      Split original nodes state.heap state.head (kept ++ (middle ++ [state.sorted]))
        (target :: rest))
    (targetHere : XOR (state.heap.addr state.sorted) state.sortedPrev = target)
    (searched :
      loop (searchRound state.heap target) fuel (state.sorted, target) = some (pos, prev))
    (place :
      Place state.heap (kept ++ (middle ++ [state.sorted])) target kept
        (middle ++ [state.sorted]) (pos, prev))
    (found : ∀ node ∈ kept.getLast?, state.heap.data node ≤ state.heap.data target)
    (active : state.sorted ≠ 0)
    (elsewhere : state.sorted ≠ pos) :
    RoundOk (Inserting original nodes) (StablySorted original nodes) (rest.length + 2)
      (insertRound fuel state) := by
  obtain ⟨heap, head, sorted, sortedPrev⟩ := state
  obtain rfl : pos = kept.getLastD 0 := place.pos
  obtain rfl : prev = (middle ++ [sorted]).headD target := place.prev
  have next : XOR (heap.addr target) sorted = rest.headD 0 := by
    have onward := split.list.chain.onward
    simpa [XOR, List.getLastD_eq_getLast?] using onward
  have moved := moveTarget_correct split.list
  simp only [insertRound, if_neg active, targetHere, searched, if_pos elsewhere, next]
  generalize moveTarget heap head sorted target (kept.getLastD 0)
    ((middle ++ [sorted]).headD target) (rest.headD 0) = result at moved
  obtain ⟨heap', head'⟩ := result
  obtain ⟨sameData, frame, frontChain, behind, starts⟩ := moved
  simp only at sameData frame frontChain behind starts
  have frameAll :
      ∀ p, p ∉ kept ++ (middle ++ [sorted]) ++ target :: rest →
        heap'.addr p = heap.addr p := by
    intro p outside
    apply frame
    intro member
    apply outside
    simp only [List.mem_append, List.mem_cons] at member ⊢
    tauto
  cases rest with
  | nil =>
      simp only [List.headD_nil, if_true, RoundOk]
      refine ⟨heap', head', kept ++ target :: (middle ++ [sorted]), rfl, ?_⟩
      exact split_place split place found sameData frameAll (by simpa using frontChain)
        (by simpa using starts)
  | cons successor more =>
      have successorNonnull : (successor :: more).headD 0 ≠ 0 := by
        intro null
        apply split.list.nonnull
        rw [← null]
        simp
      have distinct := split.list.distinct
      simp only [List.nodup_append, List.nodup_cons, List.mem_append, List.mem_cons]
        at distinct
      have successorFront : successor ∉ kept ++ target :: (middle ++ [sorted]) := by
        simp only [List.mem_append, List.mem_cons]
        grind
      have successorMore : successor ∉ more := by
        grind
      simp only [if_neg successorNonnull, RoundOk]
      have front' := frontChain.store_other successorFront
        (heap'.addr successor ^^^ target ^^^ sorted)
      have behind' := behind.store_first successorMore sorted
      have lastFront : (kept ++ target :: (middle ++ [sorted])).getLastD 0 = sorted := by
        rw [← List.cons_append, ← List.append_assoc, List.getLastD_eq_getLast?,
          List.getLast?_concat, Option.getD_some]
      refine ⟨more.length + 2, by simp, kept ++ target :: (middle ++ [sorted]),
        successor :: more, ?_, Or.inr ⟨by simp, lastFront.symm, ?_⟩, ?_⟩
      · refine split_place split place found sameData ?_ ?_ ?_
        · intro p outside
          have notSuccessor : p ≠ successor := by
            rintro rfl
            simp at outside
          rw [← frameAll p outside]
          exact Function.update_of_ne notSuccessor _ _
        · rw [chain_append, lastFront]
          exact ⟨front', behind'⟩
        · rw [starts]
          cases kept <;> simp
      · have regrouped :
            kept ++ target :: (middle ++ [sorted]) = (kept ++ target :: middle) ++ [sorted] := by
          simp
        rw [regrouped] at front' ⊢
        rw [List.dropLast_concat]
        exact front'.backward
      · rw [if_neg active]
        simp

/-- The outer loop has reached the end, or stands at the last node of the front part. -/
theorem Inserting.cases
    {original : Heap}
    {nodes : List Addr}
    {bound : Nat}
    {state : InsertState}
    (inserting : Inserting original nodes bound state) :
    (state.sorted = 0 ∧ ∃ front, Split original nodes state.heap state.head front []) ∨
      ∃ leading rest,
        Split original nodes state.heap state.head (leading ++ [state.sorted]) rest ∧
          state.sorted ≠ 0 ∧
          state.sortedPrev = leading.getLastD 0 ∧
          rest.length + 1 ≤ bound := by
  obtain ⟨front, rest, split, fits, enoughRounds⟩ := inserting
  rcases fits with ⟨finished, rfl⟩ | ⟨occupied, atSorted, behindSorted⟩
  · exact Or.inl ⟨finished, front, split⟩
  · obtain ⟨leading, last, rfl⟩ : ∃ leading last, front = leading ++ [last] :=
      ⟨front.dropLast, front.getLast occupied, (List.dropLast_append_getLast occupied).symm⟩
    obtain rfl : last = state.sorted := by
      simpa [List.getLastD_eq_getLast?] using atSorted.symm
    rw [List.dropLast_concat] at behindSorted
    have active : state.sorted ≠ 0 := by
      intro null
      apply split.list.nonnull
      rw [← null]
      simp
    rw [if_neg active] at enoughRounds
    exact Or.inr ⟨leading, rest, split, active, behindSorted, enoughRounds⟩

/-- The target of a round is the first node of the rest, and the search finds its place. -/
theorem Split.searched
    {original : Heap}
    {nodes leading rest : List Addr}
    {fuel : Nat}
    {state : InsertState}
    (split : Split original nodes state.heap state.head (leading ++ [state.sorted]) rest)
    (behindSorted : state.sortedPrev = leading.getLastD 0)
    (enough : nodes.length < fuel) :
    XOR (state.heap.addr state.sorted) state.sortedPrev = rest.headD 0 ∧
      ∃ cursor,
        loop (searchRound state.heap (rest.headD 0)) fuel (state.sorted, rest.headD 0) =
            some cursor ∧
          Found state.heap (leading ++ [state.sorted]) (rest.headD 0) cursor := by
  have frontNonnull : (0 : Addr) ∉ leading ++ [state.sorted] := by
    intro member
    exact split.list.nonnull (List.mem_append_left rest member)
  have shorter : (leading ++ [state.sorted]).length < fuel := by
    have length := split.rearranged.perm.length_eq
    simp only [List.length_append] at length ⊢
    omega
  have atSorted : (leading ++ [state.sorted]).getLastD 0 = state.sorted := by
    simp [List.getLastD_eq_getLast?]
  constructor
  · have chain : Chain state.heap.addr 0 (leading ++ state.sorted :: rest) 0 := by
      simpa using split.list.chain
    rw [behindSorted]
    exact chain.onward
  · have found := search_correct split.list.chain frontNonnull shorter
    rw [atSorted] at found
    exact found

/-- Every round of the outer loop keeps the invariant or ends with a sorted list. -/
theorem insertRound_correct
    {original : Heap}
    {nodes : List Addr}
    {fuel : Nat}
    (enough : nodes.length < fuel)
    (bound : Nat)
    (state : InsertState)
    (inserting : Inserting original nodes bound state) :
    RoundOk (Inserting original nodes) (StablySorted original nodes) bound
      (insertRound fuel state) := by
  rcases inserting.cases with
    ⟨finished, front, split⟩ | ⟨leading, rest, split, active, behindSorted, enoughRounds⟩
  · simp only [insertRound, if_pos finished, RoundOk]
    exact ⟨state.heap, state.head, front, rfl, split⟩
  · obtain ⟨targetHere, ⟨pos, prev⟩, searched, kept, passed, place, found⟩ :=
      split.searched behindSorted enough
    refine RoundOk.weaken ?_ enoughRounds
    rcases List.eq_nil_or_concat passed with empty | ⟨middle, last, shape⟩
    · subst passed
      obtain rfl : kept = leading ++ [state.sorted] := by simpa using place.split.symm
      have atSorted : state.sorted = (leading ++ [state.sorted]).getLastD 0 := by
        simp [List.getLastD_eq_getLast?]
      obtain rfl : pos = state.sorted := by
        rw [atSorted]
        exact place.pos
      exact insertRound_stay split atSorted targetHere searched place found active
    · obtain rfl : passed = middle ++ [last] := by simpa using shape
      have targetNonnull := place.active (by simp)
      have shape : leading ++ [state.sorted] = kept ++ (middle ++ [last]) := place.split
      obtain rfl : last = state.sorted := by
        have lasts := congrArg List.getLast? shape
        rw [← List.append_assoc, List.getLast?_concat, List.getLast?_concat] at lasts
        exact (Option.some.inj lasts).symm
      rw [shape] at split place
      cases rest with
      | nil =>
          exact (targetNonnull rfl).elim
      | cons target more =>
          refine insertRound_move split targetHere searched place
            (found.resolve_left targetNonnull) active ?_
          intro same
          have kept_last : state.sorted ∈ kept := by
            have atPos : pos = kept.getLastD 0 := place.pos
            rcases List.eq_nil_or_concat kept with empty | ⟨initial, final, keptShape⟩
            · rw [empty] at atPos
              exact (active (same.trans atPos)).elim
            · rw [keptShape] at atPos ⊢
              rw [same, atPos]
              simp
          have distinct := split.list.distinct
          simp only [List.nodup_append, List.mem_append, List.mem_cons] at distinct
          grind

/-- A list without a second node is in order. -/
theorem inOrder_of_short
    {data : Addr → Int}
    {nodes : List Addr}
    (short : nodes.length < 2) :
    InOrder data nodes := by
  match nodes, short with
  | [], _ => exact List.Pairwise.nil
  | [_], _ => exact List.pairwise_singleton _ _

/-- A list whose front part is in order is split there before anything is done. -/
private theorem IsList.split
    {heap : Heap}
    {head : Addr}
    {front rest : List Addr}
    (list : IsList heap head (front ++ rest))
    (ordered : InOrder heap.data front) :
    Split heap (front ++ rest) heap head front rest :=
  ⟨list, ⟨rfl, fun _ _ => rfl, List.Perm.refl _⟩, ordered, fun _ => rfl⟩

/-- The outer loop starts with the first node as the front part. -/
theorem IsList.inserting
    {heap : Heap}
    {head : Addr}
    {rest : List Addr}
    (list : IsList heap head (head :: rest)) :
    Inserting heap (head :: rest) (rest.length + 1)
      { heap := heap, head := head, sorted := head, sortedPrev := 0 } := by
  have split : Split heap ([head] ++ rest) heap head [head] rest :=
    IsList.split list (List.pairwise_singleton _ _)
  refine ⟨[head], rest, split, Or.inr ⟨by simp, rfl, rfl⟩, ?_⟩
  split <;> omega

/--
`insertion_sort` on a well-formed list returns, for every budget above the number of
nodes, a well-formed list of the same nodes, sorted and stable.
-/
theorem insertionSort_correct
    {heap : Heap}
    {head : Addr}
    {nodes : List Addr}
    {fuel : Nat}
    (list : IsList heap head nodes)
    (enough : nodes.length < fuel) :
    StablySorted heap nodes (insertionSort fuel heap head) := by
  unfold insertionSort
  split
  · rename_i short
    have whole : Split heap (nodes ++ []) heap head nodes [] :=
      IsList.split (by simpa using list) (inOrder_of_short (list.short_iff.mp short))
    rw [List.append_nil] at whole
    exact ⟨heap, head, nodes, rfl, whole⟩
  · rename_i long
    cases nodes with
    | nil =>
        exact (long (Or.inl list.starts)).elim
    | cons first rest =>
        obtain rfl : head = first := list.starts
        obtain ⟨result, returned, sorted⟩ :=
          loop_correct _ _ (insertRound_correct enough) list.inserting enough
        rw [returned, Option.join_some]
        exact sorted

end Sysprog.XorList
