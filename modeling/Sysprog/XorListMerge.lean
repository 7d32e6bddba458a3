import Mathlib.Data.List.GetD
import Sysprog.XorListInsertion

namespace Sysprog.XorList

open FuelLoop XorChain

/-!
# Merge sort on exclusive-or lists

`to_half` cuts a list in the middle, the merging loop moves nodes from two sorted
lists to a third one, and `__merge_sort` combines them by recursion.  Each keeps
every node it is not given untouched, so that the two halves do not disturb each
other.
-/

/-! ## Cutting in the middle -/

/-- The cursors of `to_half` after `count` rounds, which an `int` has counted. -/
structure Halving (nodes : List Addr) (count : Nat) (state : HalfState) : Prop where
  size : state.size = count
  counted : count < 2 ^ 31
  head : state.head = nodes.getD count 0
  prev : state.prev = (0 :: nodes).getD count 0
  fast : state.fast = nodes.getD (2 * count) 0
  fastNext : state.fast ≠ 0 → state.fastNext = nodes.getD (2 * count + 1) 0
  within : 2 * count ≤ nodes.length

/-- The invariant of the loop of `to_half`, with a bound on the rounds to come. -/
def HalvingWithin (nodes : List Addr) (bound : Nat) (state : HalfState) : Prop :=
  ∃ count, Halving nodes count state ∧ nodes.length ≤ 2 * (count + bound) + 1

/-- How the loop of `to_half` ends: in the middle, or because half of the list is too long. -/
def HalvedOrOverflowed (nodes : List Addr) : Option HalfState → Prop
  | some state => Halving nodes (nodes.length / 2) state
  | none => 2 ^ 32 ≤ nodes.length

/-- In a list without null nodes, only indices past the end give null. -/
theorem getD_eq_null
    {nodes : List Addr}
    (nonnull : (0 : Addr) ∉ nodes)
    (index : Nat) :
    nodes.getD index 0 = 0 ↔ nodes.length ≤ index := by
  constructor
  · intro null
    by_contra inside
    have valid : index < nodes.length := by omega
    rw [List.getD_eq_getElem nodes 0 valid] at null
    exact nonnull (null ▸ List.getElem_mem valid)
  · intro past
    exact List.getD_eq_default nodes 0 past

/-- Coming from the node before, the link of the node at `index` leads to the next one. -/
private theorem step_at
    {heap : Heap}
    {nodes : List Addr}
    {index : Nat}
    (chain : Chain heap.addr 0 nodes 0)
    (inside : index < nodes.length) :
    XOR (heap.addr (nodes.getD index 0)) ((0 :: nodes).getD index 0) =
      nodes.getD (index + 1) 0 := by
  rw [XOR, chain.link_at inside, BitVec.xor_comm, ← BitVec.xor_assoc, BitVec.xor_self,
    BitVec.zero_xor]

/-- While the loop goes on, two more nodes follow, and the fast cursor moves by both. -/
theorem Halving.fastStep
    {heap : Heap}
    {head : Addr}
    {nodes : List Addr}
    {count : Nat}
    {state : HalfState}
    (halving : Halving nodes count state)
    (list : IsList heap head nodes)
    (continues : state.fast ≠ 0 ∧ state.fastNext ≠ 0) :
    2 * count + 1 < nodes.length ∧
      state.fastNext = nodes.getD (2 * count + 1) 0 ∧
      XOR (heap.addr state.fastNext) state.fast = nodes.getD (2 * (count + 1)) 0 := by
  obtain ⟨fastHere, nextHere⟩ := continues
  have nextEq := halving.fastNext fastHere
  have inside : 2 * count + 1 < nodes.length := by
    rw [nextEq, ne_eq, getD_eq_null list.nonnull] at nextHere
    omega
  refine ⟨inside, nextEq, ?_⟩
  rw [nextEq, halving.fast]
  exact step_at list.chain inside

/-- When the loop ends, the slow cursor stands in the middle. -/
theorem Halving.middle
    {nodes : List Addr}
    {count : Nat}
    {state : HalfState}
    (halving : Halving nodes count state)
    (nonnull : (0 : Addr) ∉ nodes)
    (stops : ¬(state.fast ≠ 0 ∧ state.fastNext ≠ 0)) :
    count = nodes.length / 2 := by
  have nullAt := getD_eq_null nonnull
  have within := halving.within
  by_cases fastNull : state.fast = 0
  · have past := fastNull
    rw [halving.fast, nullAt] at past
    omega
  · have past : state.fastNext = 0 := by
      by_contra nextNonnull
      exact stops ⟨fastNull, nextNonnull⟩
    rw [halving.fastNext fastNull, nullAt] at past
    omega

/--
One round moves the slow cursor by one node and the fast one by two, unless the count
overflows.
-/
theorem halfRound_correct
    {heap : Heap}
    {head : Addr}
    {nodes : List Addr}
    (list : IsList heap head nodes)
    (bound : Nat)
    (state : HalfState)
    (halving : HalvingWithin nodes bound state) :
    RoundOk (HalvingWithin nodes) (HalvedOrOverflowed nodes) bound
      (halfRound heap state) := by
  obtain ⟨count, halving, enough⟩ := halving
  have nullAt := getD_eq_null list.nonnull
  by_cases continues : state.fast ≠ 0 ∧ state.fastNext ≠ 0
  · obtain ⟨inside, nextEq, fastStep⟩ := halving.fastStep list continues
    have sizeEq := halving.size
    by_cases room : state.size + 1 < 2 ^ 31
    · simp only [halfRound, if_pos continues, if_pos room, RoundOk]
      refine ⟨bound - 1, by omega, count + 1,
        ⟨?_, by omega, ?_, ?_, fastStep, ?_, by omega⟩, by omega⟩
      · rw [sizeEq, Int.natCast_succ]
      · rw [halving.head, halving.prev]
        exact step_at list.chain (by omega)
      · rw [halving.head, List.getD_cons_succ]
      · intro fastNonnull
        simp only at fastNonnull ⊢
        rw [if_pos fastNonnull, fastStep, nextEq]
        rw [fastStep, ne_eq, nullAt] at fastNonnull
        exact step_at list.chain (by omega)
    · -- The count is half of the nodes passed so far, and two more are there.
      simp only [halfRound, if_pos continues, if_neg room, RoundOk, HalvedOrOverflowed]
      omega
  · simp only [halfRound, if_neg continues, RoundOk, HalvedOrOverflowed]
    rw [← halving.middle list.nonnull continues]
    exact halving

/-- Both cursors start at the head. -/
theorem IsList.halvingWithin
    {heap : Heap}
    {head : Addr}
    {nodes : List Addr}
    (list : IsList heap head nodes)
    (occupied : 0 < nodes.length) :
    HalvingWithin nodes nodes.length
      { size := 0, head := head, prev := 0, fast := head, fastNext := heap.addr head } := by
  have headAt : head = nodes.getD 0 0 := by
    rw [list.starts]
    cases nodes <;> simp
  refine ⟨0, ⟨rfl, by decide, headAt, rfl, headAt, ?_, by omega⟩, by omega⟩
  intro _
  simp only
  rw [headAt, list.chain.link_at occupied]
  simp only [List.getD_cons_zero, null_xor]

/-- What a cut achieves: two well-formed lists, everything outside untouched. -/
structure Cut
    (heap : Heap)
    (head : Addr)
    (left right : List Addr)
    (result : Heap × Addr × Int) : Prop where
  data : result.1.data = heap.data
  frame : ∀ p, p ∉ left ++ right → result.1.addr p = heap.addr p
  first : IsList result.1 head left
  second : IsList result.1 result.2.1 right

/-- The two stores after the loop cut the list between `left` and `right`. -/
private theorem cut_correct
    {heap : Heap}
    {head prev middle : Addr}
    {leading trailing : List Addr}
    (list : IsList heap head (leading ++ [prev] ++ middle :: trailing))
    (size : Int) :
    Cut heap head (leading ++ [prev]) (middle :: trailing)
      ((heap.setAddr prev (XOR (heap.addr prev) middle)).setAddr middle
        (XOR ((heap.setAddr prev (XOR (heap.addr prev) middle)).addr middle) prev),
        middle, size) := by
  obtain ⟨chain, distinct, nonnull, starts⟩ := list
  obtain ⟨leftChain, rightChain⟩ := chain_append.mp chain
  have lastLeft : (leading ++ [prev]).getLastD 0 = prev := by
    simp [List.getLastD_eq_getLast?]
  rw [lastLeft] at rightChain
  obtain ⟨leftDistinct, rightDistinct, apart⟩ := List.nodup_append.mp distinct
  have prevLeading : prev ∉ leading := by
    intro member
    exact (List.nodup_append.mp leftDistinct).2.2 prev member prev (by simp) rfl
  have prevRight : prev ∉ middle :: trailing := by
    intro member
    exact apart prev (by simp) prev member rfl
  have middleLeft : middle ∉ leading ++ [prev] := by
    intro member
    exact apart middle member middle (by simp) rfl
  have middleTrailing : middle ∉ trailing := (List.nodup_cons.mp rightDistinct).1
  have leftClosed := leftChain.store_last prevLeading 0
  have rightClosed := (rightChain.store_other prevRight
    (heap.addr prev ^^^ middle)).store_first middleTrailing 0
  rw [xor_null] at leftClosed rightClosed
  refine ⟨rfl, ?_, ⟨?_, leftDistinct, ?_, ?_⟩, ⟨rightClosed, rightDistinct, ?_, rfl⟩⟩
  · intro p outside
    have notPrev : p ≠ prev := by
      rintro rfl
      simp at outside
    have notMiddle : p ≠ middle := by
      rintro rfl
      simp at outside
    simp only [Heap.setAddr_addr, Function.update_of_ne notMiddle,
      Function.update_of_ne notPrev]
  · exact leftClosed.store_other middleLeft _
  · intro null
    exact nonnull (List.mem_append_left _ null)
  · rw [starts]
    cases leading <;> simp
  · intro null
    exact nonnull (List.mem_append_right _ null)

/-- The head of a list of several nodes is not null. -/
theorem IsList.head_ne_null
    {heap : Heap}
    {head : Addr}
    {nodes : List Addr}
    (list : IsList heap head nodes)
    (several : 2 ≤ nodes.length) :
    head ≠ 0 := by
  rintro rfl
  have short := list.short_iff.mp (Or.inl rfl)
  omega

/-- The loop of `to_half` ends in the middle of a list, if an `int` can count its half. -/
theorem IsList.halves
    {heap : Heap}
    {head : Addr}
    {nodes : List Addr}
    {fuel : Nat}
    (list : IsList heap head nodes)
    (occupied : 0 < nodes.length)
    (narrow : nodes.length < 2 ^ 32)
    (enough : nodes.length < fuel) :
    ∃ final,
      loop (halfRound heap) fuel
          { size := 0, head := head, prev := 0, fast := head, fastNext := heap.addr head } =
          some (some final) ∧
        Halving nodes (nodes.length / 2) final := by
  obtain ⟨result, returned, halved⟩ :=
    loop_correct _ _ (halfRound_correct list) (list.halvingWithin occupied) enough
  cases result with
  | none =>
      have long : 2 ^ 32 ≤ nodes.length := halved
      omega
  | some final =>
      exact ⟨final, returned, halved⟩

/-- If `to_half` returns, an `int` can count half of the list. -/
theorem toHalf_narrow
    {heap : Heap}
    {head : Addr}
    {nodes : List Addr}
    {fuel : Nat}
    {size : Int}
    {result : Heap × Addr × Int}
    (list : IsList heap head nodes)
    (several : 2 ≤ nodes.length)
    (returned : toHalf fuel heap head size = some result) :
    nodes.length < 2 ^ 32 := by
  simp only [toHalf, if_neg (list.head_ne_null several), Option.map_eq_some_iff,
    Option.join_eq_some_iff] at returned
  obtain ⟨final, walked, _⟩ := returned
  -- A budget that is large enough gives the same end of the loop.
  have more := loop_more walked (Nat.le_add_right fuel (nodes.length + 1))
  obtain ⟨ended, again, halved⟩ :=
    loop_correct _ _ (halfRound_correct list) (list.halvingWithin (by omega))
      (show nodes.length < fuel + (nodes.length + 1) by omega)
  obtain rfl := Option.some.inj (again.symm.trans more)
  have counted := halved.counted
  omega

/--
`to_half` on a list of at least two nodes cuts it after the first half, rounded down,
and counts the nodes of that half, if an `int` can.
-/
theorem toHalf_correct
    {heap : Heap}
    {head : Addr}
    {nodes : List Addr}
    {fuel : Nat}
    (list : IsList heap head nodes)
    (several : 2 ≤ nodes.length)
    (narrow : nodes.length < 2 ^ 32)
    (enough : nodes.length < fuel)
    (size : Int) :
    ∃ result,
      toHalf fuel heap head size = some result ∧
        Cut heap head (nodes.take (nodes.length / 2)) (nodes.drop (nodes.length / 2)) result ∧
        result.2.2 = ((nodes.length / 2 : Nat) : Int) := by
  have headNonnull := list.head_ne_null several
  obtain ⟨final, returned, halved⟩ := list.halves (by omega) narrow enough
  generalize half : nodes.length / 2 = count at halved ⊢
  have inside : count < nodes.length := by omega
  have leftShape : nodes.take count = nodes.take (count - 1) ++ [final.prev] := by
    have previousInside : count - 1 < nodes.length := by omega
    have grow := List.take_append_getElem previousInside
    rw [show count - 1 + 1 = count by omega] at grow
    have prevAt : final.prev = nodes.getD (count - 1) 0 := by
      rw [halved.prev, show count = count - 1 + 1 by omega, List.getD_cons_succ,
        Nat.add_sub_cancel]
    rw [← grow, prevAt, List.getD_eq_getElem nodes 0 previousInside]
  have rightShape : nodes.drop count = final.head :: nodes.drop (count + 1) := by
    rw [halved.head, List.getD_eq_getElem nodes 0 inside]
    exact List.drop_eq_getElem_cons inside
  have shape : IsList heap head (nodes.take (count - 1) ++ [final.prev] ++
      final.head :: nodes.drop (count + 1)) := by
    rw [← leftShape, ← rightShape, List.take_append_drop]
    exact list
  rw [leftShape, rightShape]
  refine ⟨_, ?_, cut_correct shape final.size, halved.size⟩
  simp only [toHalf, if_neg headNonnull, returned, Option.join_some, Option.map_some]

/-! ## Merging -/

/-- What `takeNode` achieves: `taken` has gone from its list to the end of the merged one. -/
structure Taken
    (state : MergeState)
    (merged rest other : List Addr)
    (taken : Addr)
    (result : MergeState × Addr) : Prop where
  data : result.1.heap.data = state.heap.data
  frame : ∀ p, p ∉ merged ++ taken :: rest → result.1.heap.addr p = state.heap.addr p
  mergedChain : Chain result.1.heap.addr 0 (merged ++ [taken]) 0
  restChain : Chain result.1.heap.addr 0 rest 0
  otherChain : Chain result.1.heap.addr 0 other 0
  next : result.2 = rest.headD 0
  left : result.1.left = state.left
  right : result.1.right = state.right
  merge : result.1.merge = taken
  start : result.1.start = (merged ++ [taken]).headD 0

/-- The first stores of `takeNode` make the rest of the list stand alone. -/
theorem detach_correct
    {heap : Heap}
    {taken : Addr}
    {rest : List Addr}
    (chain : Chain heap.addr 0 (taken :: rest) 0)
    (distinct : rest.Nodup)
    (nonnull : (0 : Addr) ∉ rest) :
    ∃ detached : Heap,
      (if rest.headD 0 ≠ 0 then
          heap.setAddr (rest.headD 0) (XOR taken (heap.addr (rest.headD 0)))
        else heap) = detached ∧
        detached.data = heap.data ∧
        Chain detached.addr 0 rest 0 ∧
        ∀ p, p ∉ rest → detached.addr p = heap.addr p := by
  cases rest with
  | nil =>
      exact ⟨heap, by simp, rfl, trivial, fun _ _ => rfl⟩
  | cons first more =>
      have firstNonnull : (first :: more).headD 0 ≠ 0 := by
        rintro null
        exact nonnull (null ▸ List.mem_cons_self)
      refine ⟨_, if_pos firstNonnull, rfl, ?_, ?_⟩
      · have stored := chain.2.store_first (List.nodup_cons.mp distinct).1 0
        rw [xor_null, BitVec.xor_comm] at stored
        exact stored
      · intro p outside
        have notFirst : p ≠ first := by
          rintro rfl
          simp at outside
        exact Function.update_of_ne notFirst _ _

/-- Taking the first node of one list keeps all three lists well formed. -/
private theorem takeNode_correct
    {state : MergeState}
    {merged rest other : List Addr}
    {taken : Addr}
    (mergedChain : Chain state.heap.addr 0 merged 0)
    (sourceChain : Chain state.heap.addr 0 (taken :: rest) 0)
    (otherChain : Chain state.heap.addr 0 other 0)
    (distinct : (merged ++ taken :: rest ++ other).Nodup)
    (nonnull : (0 : Addr) ∉ merged ++ taken :: rest ++ other)
    (mergeEq : state.merge = merged.getLastD 0)
    (startEq : merged ≠ [] → state.start = merged.headD 0) :
    Taken state merged rest other taken (takeNode state taken) := by
  simp only [List.nodup_append, List.nodup_cons, List.mem_append, List.mem_cons]
    at distinct nonnull
  have nextEq : state.heap.addr taken = rest.headD 0 := by
    rw [sourceChain.1, null_xor]
  obtain ⟨heap, detached, sameData, restChain, frame⟩ :=
    detach_correct sourceChain (by grind) (by grind)
  have mergedKept : Chain heap.addr 0 merged 0 :=
    (chain_congr fun node member => frame node (by grind)).mpr mergedChain
  have otherKept : Chain heap.addr 0 other 0 :=
    (chain_congr fun node member => frame node (by grind)).mpr otherChain
  have takenRest : taken ∉ rest := by grind
  have takenOther : taken ∉ other := by grind
  have takenMerged : taken ∉ merged := by grind
  rcases List.eq_nil_or_concat merged with empty | ⟨leading, last, shape⟩
  · subst merged
    have first : state.merge = 0 := mergeEq
    simp only [takeNode, nextEq, detached, if_pos first]
    refine ⟨sameData, ?_, ?_, restChain.store_other takenRest _,
      otherKept.store_other takenOther _, rfl, rfl, rfl, rfl, rfl⟩
    · intro p outside
      simp only [List.nil_append, List.mem_cons, not_or] at outside
      rw [Heap.setAddr_addr, Function.update_of_ne outside.1, frame p outside.2]
    · simp [chain_singleton]
  · obtain rfl : merged = leading ++ [last] := by simpa using shape
    have lastMerged : (leading ++ [last]).getLastD 0 = last := by
      simp [List.getLastD_eq_getLast?]
    rw [lastMerged] at mergeEq
    have later : ¬ last = 0 := by
      intro null
      exact nonnull (by simp [null])
    simp only [takeNode, nextEq, detached, if_neg later, mergeEq]
    have lastLeading : last ∉ leading := by grind
    have lastRest : last ∉ rest := by grind
    have lastOther : last ∉ other := by grind
    have extended := mergedKept.store_last lastLeading taken
    rw [xor_null] at extended
    refine ⟨sameData, ?_, ?_, (restChain.store_other lastRest _).store_other takenRest _,
      (otherKept.store_other lastOther _).store_other takenOther _, rfl, rfl, rfl, rfl, ?_⟩
    · intro p outside
      simp only [List.mem_append, List.mem_cons, not_or] at outside
      rw [Heap.setAddr_addr, Function.update_of_ne outside.2.1, Heap.setAddr_addr,
        Function.update_of_ne outside.1.2.1, frame p outside.2.2]
    · rw [chain_append, lastMerged, chain_singleton]
      exact ⟨extended.store_other takenMerged _, by simp⟩
    · rw [startEq (by simp)]
      cases leading <;> simp

/-- Taking the smaller of the two first nodes keeps the order towards the other list. -/
private theorem inOrder_take
    {data : Addr → Int}
    {merged rest other : List Addr}
    {taken : Addr}
    (source : InOrder data (merged ++ taken :: rest))
    (target : InOrder data (merged ++ other))
    (smaller : ∀ node ∈ other.head?, data taken ≤ data node) :
    InOrder data (merged ++ [taken] ++ other) := by
  rw [InOrder, List.pairwise_append] at source target
  obtain ⟨mergedOrdered, otherOrdered, mergedOther⟩ := target
  have mergedTaken : ∀ node ∈ merged, data node ≤ data taken := by
    intro node member
    exact source.2.2 node member taken (by simp)
  have takenOther : ∀ node ∈ other, data taken ≤ data node := by
    intro node member
    cases other with
    | nil =>
        simp at member
    | cons first more =>
        have firstLarger := smaller first (by simp)
        rcases List.mem_cons.mp member with same | later
        · rw [same]
          exact firstLarger
        · exact Int.le_trans firstLarger ((List.pairwise_cons.mp otherOrdered).1 node later)
  rw [InOrder, List.append_assoc, List.singleton_append, List.pairwise_append,
    List.pairwise_cons]
  refine ⟨mergedOrdered, ⟨takenOther, otherOrdered⟩, ?_⟩
  intro node member later laterMember
  rcases List.mem_cons.mp laterMember with same | inOther
  · rw [same]
    exact mergedTaken node member
  · exact mergedOther node member later inOther

/-- The outcome of a sort: a well-formed list of the same nodes in order. -/
structure SortedAs
    (original : Heap)
    (nodes : List Addr)
    (result : Heap × Addr)
    (order : List Addr) : Prop where
  list : IsList result.1 result.2 order
  rearranged : Rearranged original nodes result.1 order
  ordered : InOrder original.data order

/-- The three lists of the merging loop. -/
structure Merging
    (original : Heap)
    (nodes : List Addr)
    (state : MergeState)
    (merged left right : List Addr) : Prop where
  mergedChain : Chain state.heap.addr 0 merged 0
  leftChain : Chain state.heap.addr 0 left 0
  rightChain : Chain state.heap.addr 0 right 0
  distinct : nodes.Nodup
  nonnull : (0 : Addr) ∉ nodes
  rearranged : Rearranged original nodes state.heap (merged ++ left ++ right)
  leftOrdered : InOrder original.data (merged ++ left)
  rightOrdered : InOrder original.data (merged ++ right)
  leftEq : state.left = left.headD 0
  rightEq : state.right = right.headD 0
  mergeEq : state.merge = merged.getLastD 0
  startEq : merged ≠ [] → state.start = merged.headD 0

namespace Merging

variable
  {original : Heap}
  {nodes merged left right rest : List Addr}
  {state : MergeState}
  {taken : Addr}

/-- The node taken from the left list. -/
private theorem take_left
    (merging : Merging original nodes state merged (taken :: rest) right)
    (smaller : ∀ node ∈ right.head?, original.data taken ≤ original.data node) :
    Merging original nodes
      { (takeNode state taken).1 with left := (takeNode state taken).2 }
      (merged ++ [taken]) rest right := by
  have perm := merging.rearranged.perm
  have done := takeNode_correct merging.mergedChain merging.leftChain merging.rightChain
    (merging.distinct.perm perm.symm) (fun null => merging.nonnull (perm.mem_iff.mp null))
    merging.mergeEq merging.startEq
  refine
    { mergedChain := done.mergedChain
      leftChain := done.restChain
      rightChain := done.otherChain
      distinct := merging.distinct
      nonnull := merging.nonnull
      rearranged := ⟨done.data.trans merging.rearranged.data, ?_, by simpa using perm⟩
      leftOrdered := by simpa using merging.leftOrdered
      rightOrdered := inOrder_take merging.leftOrdered merging.rightOrdered smaller
      leftEq := done.next
      rightEq := done.right.trans merging.rightEq
      mergeEq := by simpa [List.getLastD_eq_getLast?] using done.merge
      startEq := fun _ => done.start }
  intro p outside
  rw [← merging.rearranged.frame p outside]
  apply done.frame
  intro member
  exact outside (perm.mem_iff.mp (List.mem_append_left right member))

/-- The node taken from the right list. -/
private theorem take_right
    (merging : Merging original nodes state merged left (taken :: rest))
    (smaller : ∀ node ∈ left.head?, original.data taken ≤ original.data node) :
    Merging original nodes
      { (takeNode state taken).1 with right := (takeNode state taken).2 }
      (merged ++ [taken]) left rest := by
  have swapped : (merged ++ taken :: rest ++ left).Perm (merged ++ left ++ taken :: rest) := by
    rw [List.append_assoc, List.append_assoc]
    exact List.Perm.append_left merged List.perm_append_comm
  have perm := swapped.trans merging.rearranged.perm
  have done := takeNode_correct merging.mergedChain merging.rightChain merging.leftChain
    (merging.distinct.perm perm.symm) (fun null => merging.nonnull (perm.mem_iff.mp null))
    merging.mergeEq merging.startEq
  have reordered : (merged ++ [taken] ++ left ++ rest).Perm nodes := by
    refine List.Perm.trans ?_ perm
    simp only [List.append_assoc, List.cons_append, List.nil_append]
    exact List.Perm.append_left merged (List.Perm.cons taken List.perm_append_comm)
  refine
    { mergedChain := done.mergedChain
      leftChain := done.otherChain
      rightChain := done.restChain
      distinct := merging.distinct
      nonnull := merging.nonnull
      rearranged := ⟨done.data.trans merging.rearranged.data, ?_, reordered⟩
      leftOrdered := inOrder_take merging.rightOrdered merging.leftOrdered smaller
      rightOrdered := by simpa using merging.rightOrdered
      leftEq := done.left.trans merging.leftEq
      rightEq := done.next
      mergeEq := by simpa [List.getLastD_eq_getLast?] using done.merge
      startEq := fun _ => done.start }
  intro p outside
  rw [← merging.rearranged.frame p outside]
  apply done.frame
  intro member
  exact outside (perm.mem_iff.mp (List.mem_append_left left member))

/-- A list at a null cursor is empty. -/
private theorem left_eq_nil
    (merging : Merging original nodes state merged left right)
    (null : state.left = 0) :
    left = [] := by
  cases left with
  | nil =>
      rfl
  | cons node more =>
      have atNull : node = 0 := merging.leftEq.symm.trans null
      subst atNull
      exact (merging.nonnull (merging.rearranged.perm.mem_iff.mp (by simp))).elim

private theorem right_eq_nil
    (merging : Merging original nodes state merged left right)
    (null : state.right = 0) :
    right = [] := by
  cases right with
  | nil =>
      rfl
  | cons node more =>
      have atNull : node = 0 := merging.rightEq.symm.trans null
      subst atNull
      exact (merging.nonnull (merging.rearranged.perm.mem_iff.mp (by simp))).elim

/-- When both lists are used up, the merged one holds all nodes in order. -/
private theorem finished
    (merging : Merging original nodes state merged [] [])
    (occupied : nodes ≠ []) :
    SortedAs original nodes (state.heap, state.start) merged := by
  have rearranged := merging.rearranged
  simp only [List.append_nil] at rearranged
  refine ⟨⟨merging.mergedChain, ?_, ?_, ?_⟩, rearranged, ?_⟩
  · exact merging.distinct.perm rearranged.perm.symm
  · exact fun null => merging.nonnull (rearranged.perm.mem_iff.mp null)
  · apply merging.startEq
    rintro rfl
    exact occupied (List.nil_perm.mp rearranged.perm)
  · simpa using merging.leftOrdered

end Merging

/-- The invariant of the merging loop, with a bound on the nodes still to be taken. -/
def MergingWithin
    (original : Heap)
    (nodes : List Addr)
    (bound : Nat)
    (state : MergeState) : Prop :=
  ∃ merged left right,
    Merging original nodes state merged left right ∧
      left.length + right.length ≤ bound

/-- Every round moves one node to the merged list, or ends with all of them there. -/
theorem mergeRound_correct
    {original : Heap}
    {nodes : List Addr}
    (occupied : nodes ≠ [])
    (bound : Nat)
    (state : MergeState)
    (merging : MergingWithin original nodes bound state) :
    RoundOk (MergingWithin original nodes)
      (fun result => ∃ order, SortedAs original nodes result order)
      bound (mergeRound state) := by
  obtain ⟨merged, left, right, merging, enough⟩ := merging
  have sameData := merging.rearranged.data
  unfold mergeRound
  split
  · rename_i bothNull
    obtain rfl := merging.left_eq_nil bothNull.1
    obtain rfl := merging.right_eq_nil bothNull.2
    exact ⟨merged, merging.finished occupied⟩
  · rename_i notBoth
    split
    · rename_i takesLeft
      cases left with
      | nil =>
          have leftNull : state.left = 0 := merging.leftEq
          rcases takesLeft with rightNull | ⟨leftNonnull, _⟩
          · exact (notBoth ⟨leftNull, rightNull⟩).elim
          · exact (leftNonnull leftNull).elim
      | cons taken rest =>
          have leftEq : state.left = taken := merging.leftEq
          rw [leftEq] at takesLeft ⊢
          refine ⟨rest.length + right.length, ?_, merged ++ [taken], rest, right,
            merging.take_left ?_, Nat.le_refl _⟩
          · simp only [List.length_cons] at enough
            omega
          · intro node first
            have rightEq : state.right = node := by
              rw [merging.rightEq, List.headD_eq_head?_getD, first, Option.getD_some]
            rcases takesLeft with null | ⟨_, smaller⟩
            · obtain rfl := merging.right_eq_nil null
              simp at first
            · rw [rightEq, sameData] at smaller
              omega
    · rename_i takesRight
      rw [not_or, not_and] at takesRight
      obtain ⟨rightNonnull, notSmaller⟩ := takesRight
      cases right with
      | nil =>
          exact (rightNonnull merging.rightEq).elim
      | cons taken rest =>
          have rightEq : state.right = taken := merging.rightEq
          rw [rightEq] at notSmaller ⊢
          refine ⟨left.length + rest.length, ?_, merged ++ [taken], left, rest,
            merging.take_right ?_, Nat.le_refl _⟩
          · simp only [List.length_cons] at enough
            omega
          · intro node first
            have leftEq : state.left = node := by
              rw [merging.leftEq, List.headD_eq_head?_getD, first, Option.getD_some]
            by_cases null : state.left = 0
            · obtain rfl := merging.left_eq_nil null
              simp at first
            · have notLess := notSmaller null
              rw [leftEq, sameData] at notLess
              omega

/-! ## The sort -/

/-- A list outside the rearranged nodes is still well formed. -/
private theorem IsList.kept
    {heap result : Heap}
    {head : Addr}
    {nodes moved order : List Addr}
    (list : IsList heap head nodes)
    (rearranged : Rearranged heap moved result order)
    (apart : ∀ node ∈ nodes, node ∉ moved) :
    IsList result head nodes :=
  { list with
    chain :=
      (chain_congr fun node member => rearranged.frame node (apart node member)).mpr
        list.chain }

/-- Two sorted halves, about to be merged. -/
structure HalvesSorted
    (original : Heap)
    (nodes : List Addr)
    (heap : Heap)
    (leftHead rightHead : Addr)
    (left right : List Addr) : Prop where
  leftList : IsList heap leftHead left
  rightList : IsList heap rightHead right
  distinct : nodes.Nodup
  nonnull : (0 : Addr) ∉ nodes
  rearranged : Rearranged original nodes heap (left ++ right)
  leftOrdered : InOrder original.data left
  rightOrdered : InOrder original.data right

namespace HalvesSorted

variable
  {original heap : Heap}
  {leftHead rightHead start : Addr}
  {nodes left right : List Addr}

/-- The merging loop starts with an empty merged list. -/
theorem mergingWithin
    (halves : HalvesSorted original nodes heap leftHead rightHead left right) :
    MergingWithin original nodes nodes.length
      { heap := heap, left := leftHead, right := rightHead, merge := 0, start := start } := by
  refine ⟨[], left, right, ?_, ?_⟩
  · exact
      { mergedChain := trivial
        leftChain := halves.leftList.chain
        rightChain := halves.rightList.chain
        distinct := halves.distinct
        nonnull := halves.nonnull
        rearranged := halves.rearranged
        leftOrdered := halves.leftOrdered
        rightOrdered := halves.rightOrdered
        leftEq := halves.leftList.starts
        rightEq := halves.rightList.starts
        mergeEq := rfl
        startEq := fun absurd => (absurd rfl).elim }
  · rw [← halves.rearranged.perm.length_eq, List.length_append]

/-- Two sorted halves are merged into one sorted list. -/
private theorem merge_correct
    {fuel : Nat}
    (halves : HalvesSorted original nodes heap leftHead rightHead left right)
    (occupied : nodes ≠ [])
    (enough : nodes.length < fuel) :
    ∃ result order,
      loop mergeRound fuel
          { heap := heap, left := leftHead, right := rightHead, merge := 0, start := start } =
          some result ∧
        SortedAs original nodes result order := by
  obtain ⟨result, returned, order, sorted⟩ :=
    loop_correct _ _ (mergeRound_correct occupied) halves.mergingWithin enough
  exact ⟨result, order, returned, sorted⟩

end HalvesSorted

/-- A list of two nodes or more is cut in two shorter lists. -/
theorem IsList.halved
    {heap : Heap}
    {head : Addr}
    {nodes : List Addr}
    {fuel : Nat}
    (list : IsList heap head nodes)
    (several : 2 ≤ nodes.length)
    (narrow : nodes.length < 2 ^ 32)
    (enough : nodes.length < fuel) :
    ∃ halved first second,
      toHalf fuel heap head 0 = some halved ∧
        Cut heap head first second halved ∧
        first ++ second = nodes ∧
        first.length < nodes.length ∧
        second.length < nodes.length := by
  obtain ⟨halved, returned, cut, _⟩ := toHalf_correct list several narrow enough 0
  refine ⟨halved, _, _, returned, cut, List.take_append_drop _ _, ?_, ?_⟩
  · rw [List.length_take]
    omega
  · rw [List.length_drop]
    omega

namespace Cut

variable
  {heap halved heap₁ heap₂ : Heap}
  {head middle left right : Addr}
  {first second order₁ order₂ : List Addr}
  {size : Int}

/-- Sorting the first half keeps the second one. -/
theorem second_kept
    (cut : Cut heap head first second (halved, middle, size))
    (distinct : (first ++ second).Nodup)
    (sortedFirst : SortedAs halved first (heap₁, left) order₁) :
    IsList heap₁ middle second := by
  refine cut.second.kept sortedFirst.rearranged ?_
  intro node inSecond inFirst
  exact (List.nodup_append.mp distinct).2.2 node inFirst node inSecond rfl

/-- Sorting the second half keeps the sorted first one. -/
theorem halvesSorted
    (cut : Cut heap head first second (halved, middle, size))
    (list : IsList heap head (first ++ second))
    (sortedFirst : SortedAs halved first (heap₁, left) order₁)
    (sortedSecond : SortedAs heap₁ second (heap₂, right) order₂) :
    HalvesSorted heap (first ++ second) heap₂ left right order₁ order₂ := by
  have rearranged₁ : Rearranged halved first heap₁ order₁ := sortedFirst.rearranged
  have rearranged₂ : Rearranged heap₁ second heap₂ order₂ := sortedSecond.rearranged
  have data₀ : halved.data = heap.data := cut.data
  have data₁ : heap₁.data = heap.data := rearranged₁.data.trans data₀
  have firstKept : IsList heap₂ left order₁ := by
    refine sortedFirst.list.kept rearranged₂ ?_
    intro node inOrder inSecond
    have inFirst : node ∈ first := rearranged₁.perm.mem_iff.mp inOrder
    exact (List.nodup_append.mp list.distinct).2.2 node inFirst node inSecond rfl
  refine ⟨firstKept, sortedSecond.list, list.distinct, list.nonnull,
    ⟨rearranged₂.data.trans data₁, ?_, rearranged₁.perm.append rearranged₂.perm⟩, ?_, ?_⟩
  · intro p outside
    rw [List.mem_append, not_or] at outside
    rw [rearranged₂.frame p outside.2, rearranged₁.frame p outside.1]
    exact cut.frame p (by simpa using outside)
  · rw [← data₀]
    exact sortedFirst.ordered
  · rw [← data₁]
    exact sortedSecond.ordered

end Cut

/--
`__merge_sort` on a well-formed list returns, for every budget of at least two above
the number of nodes, a well-formed list of the same nodes in order, if an `int` can count
half of them or `min_split_size` is zero.
-/
theorem mergeSort_sorts
    {fuel : Nat}
    {heap : Heap}
    {head : Addr}
    {nodes : List Addr}
    (list : IsList heap head nodes)
    (enough : nodes.length + 2 ≤ fuel)
    {minSplitSize : Int}
    (counts : nodes.length < 2 ^ 32 ∨ minSplitSize = 0) :
    ∃ result order,
      mergeSort fuel heap head minSplitSize = some result ∧
        SortedAs heap nodes result order := by
  induction fuel generalizing heap head nodes minSplitSize with
  | zero =>
      omega
  | succ fuel inductionHypothesis =>
      have unchanged : Rearranged heap nodes heap nodes :=
        ⟨rfl, fun _ _ => rfl, List.Perm.refl nodes⟩
      unfold mergeSort
      split
      · rename_i short
        refine ⟨(heap, head), nodes, rfl, list, unchanged, ?_⟩
        exact inOrder_of_short (list.short_iff.mp short)
      · rename_i long
        split
        · obtain ⟨result, newHead, order, returned, split⟩ :=
            insertionSort_correct list (show nodes.length < fuel by omega)
          refine ⟨(result, newHead), order, returned, ?_, ?_, split.ordered⟩
          · simpa using split.list
          · simpa using split.rearranged
        · rename_i splits
          have several : 2 ≤ nodes.length := by
            rw [list.short_iff] at long
            omega
          have narrow := counts.resolve_right splits
          obtain ⟨⟨halved, middle, size⟩, first, second, returned, cut, rfl, firstShorter,
            secondShorter⟩ := list.halved several narrow (show nodes.length < fuel by omega)
          simp only [returned, Option.bind_eq_bind, Option.bind_some]
          generalize (if size ≤ minSplitSize then 0 else minSplitSize) = splitSize
          obtain ⟨⟨heap₁, left⟩, order₁, returned₁, sortedFirst⟩ :=
            @inductionHypothesis _ _ _ cut.first (by omega) splitSize (.inl (by omega))
          simp only [returned₁, Option.bind_some]
          obtain ⟨⟨heap₂, right⟩, order₂, returned₂, sortedSecond⟩ :=
            @inductionHypothesis _ _ _ (cut.second_kept list.distinct sortedFirst) (by omega) splitSize
              (.inl (by omega))
          simp only [returned₂, Option.bind_some]
          refine (cut.halvesSorted list sortedFirst sortedSecond).merge_correct ?_ (by omega)
          intro empty
          rw [empty] at several
          simp at several

/-- On a longer list `__merge_sort` overflows, unless `min_split_size` is zero. -/
theorem mergeSort_overflows
    {heap : Heap}
    {head : Addr}
    {nodes : List Addr}
    (list : IsList heap head nodes)
    (long : 2 ^ 32 ≤ nodes.length)
    {minSplitSize : Int}
    (splits : minSplitSize ≠ 0)
    (fuel : Nat) :
    mergeSort fuel heap head minSplitSize = none := by
  cases fuel with
  | zero =>
      rfl
  | succ fuel =>
      have notShort : ¬(head = 0 ∨ heap.addr head = 0) := by
        rw [list.short_iff]
        omega
      rw [mergeSort, if_neg notShort, if_neg splits]
      cases returned : toHalf fuel heap head 0 with
      | none =>
          rfl
      | some result =>
          have narrow := toHalf_narrow list (by omega) returned
          omega

end Sysprog.XorList
