import Sysprog.BuddyTree

namespace Sysprog.Buddy

open CircularList DyadicBlocks Block MachineWord

/-!
# The allocator's state as a buddy heap

The free lists in memory, the bits and the bucket limit together represent a buddy heap.
Each elementary step of the allocator is shown to represent a step of that heap.
-/

variable
  {platform : Platform}
  {cells : Links Nat}
  {state : State}
  {lists : Nat → List Nat}
  {block : Block}
  {used rest : Set Block}
  {base top : Nat}

/-! ## Free lists -/

/-- The free blocks, from their indices by exponent. -/
def freeBlocks (lists : Nat → List Nat) : Set Block :=
  { block | block.index ∈ lists block.exponent }

/-- The addresses in one free list. -/
def entries (base : Nat) (lists : Nat → List Nat) (exponent : Nat) : List Nat :=
  (lists exponent).map fun index => base + index * 2 ^ exponent

/-- The memory holds the free lists of all blocks up to the root. -/
def RingsMatch
    (platform : Platform)
    (cells : Links Nat)
    (base top : Nat)
    (lists : Nat → List Nat) : Prop :=
  ∀ exponent,
    4 ≤ exponent →
    exponent ≤ top →
    Ring cells (bucketHead platform (31 - exponent)) (entries base lists exponent)

/-- No two blocks start at one address. -/
def StartsApart (blocks : Set Block) : Prop :=
  ∀ first ∈ blocks, ∀ second ∈ blocks, first.start = second.start → first = second

/-- Append a block to its free list. -/
def pushed (lists : Nat → List Nat) (block : Block) : Nat → List Nat :=
  Function.update lists block.exponent (lists block.exponent ++ [block.index])

theorem mem_freeBlocks : block ∈ freeBlocks lists ↔ block.index ∈ lists block.exponent :=
  Iff.rfl

theorem mem_freeBlocks_of_shape
    {front back : List Nat}
    (shape : lists block.exponent = front ++ block.index :: back) :
    block ∈ freeBlocks lists := by
  rw [mem_freeBlocks, shape]
  simp

theorem freeBlocks_pushed : freeBlocks (pushed lists block) = insert block (freeBlocks lists) := by
  ext other
  rw [Set.mem_insert_iff, mem_freeBlocks, mem_freeBlocks, pushed]
  by_cases same : other.exponent = block.exponent
  · obtain ⟨size, index⟩ := other
    obtain ⟨blockSize, blockIndex⟩ := block
    obtain rfl : size = blockSize := same
    simp [or_comm]
  · rw [Function.update_of_ne same]
    have different : other ≠ block := fun equal => same (congrArg Block.exponent equal)
    simp [different]

/-- Taking a block out of its free list. -/
theorem freeBlocks_removed
    {front back : List Nat}
    (shape : lists block.exponent = front ++ block.index :: back)
    (distinct : (lists block.exponent).Nodup) :
    freeBlocks (Function.update lists block.exponent (front ++ back)) =
      freeBlocks lists \ {block} := by
  have absent : block.index ∉ front ++ back := by
    rw [shape, List.nodup_middle, List.nodup_cons] at distinct
    exact distinct.1
  ext other
  rw [Set.mem_sdiff, mem_freeBlocks, mem_freeBlocks, Set.mem_singleton_iff]
  by_cases same : other.exponent = block.exponent
  · obtain ⟨size, index⟩ := other
    obtain ⟨blockSize, blockIndex⟩ := block
    obtain rfl : size = blockSize := same
    simp only at shape absent
    simp only [Function.update_self, shape, List.mem_append, List.mem_cons, Block.mk.injEq,
      true_and] at absent ⊢
    by_cases here : index = blockIndex
    · subst here
      simpa using absent
    · simp [here]
  · rw [Function.update_of_ne same]
    have different : other ≠ block := fun equal => same (congrArg Block.exponent equal)
    simp [different]

theorem mem_entries
    {exponent address : Nat} :
    address ∈ entries base lists exponent ↔
      ∃ index, (⟨exponent, index⟩ : Block) ∈ freeBlocks lists ∧
        base + (⟨exponent, index⟩ : Block).start = address := by
  simp [entries, freeBlocks, start]

/-- List heads lie before the heap. -/
theorem bucketHead_lt
    (platform : Platform)
    {bucket : Nat}
    (inside : bucket ≤ 27) :
    bucketHead platform bucket < platform.programBreak := by
  have behind := platform.behind
  rw [bucketHead]
  omega

/-- An address of the heap where no free block starts is outside of every free list. -/
theorem address_outside
    {exponent offset : Nat}
    (atBreak : base = platform.programBreak)
    (atLeast : 4 ≤ exponent)
    (noStart : ∀ other ∈ freeBlocks lists, other.start ≠ offset) :
    base + offset ∉ bucketHead platform (31 - exponent) :: entries base lists exponent := by
  have before := bucketHead_lt platform (show 31 - exponent ≤ 27 by omega)
  rw [List.mem_cons, not_or, mem_entries]
  refine ⟨by omega, ?_⟩
  rintro ⟨index, member, same⟩
  exact noStart _ member (by omega)

/-- Different free lists have no cell in common. -/
theorem cells_apart
    {first second : Nat}
    (atBreak : base = platform.programBreak)
    (apart : StartsApart (freeBlocks lists))
    (firstLeast : 4 ≤ first)
    (firstMost : first ≤ 31)
    (secondLeast : 4 ≤ second)
    (secondMost : second ≤ 31)
    (different : first ≠ second) :
    ∀ cell ∈ bucketHead platform (31 - first) :: entries base lists first,
      cell ∉ bucketHead platform (31 - second) :: entries base lists second := by
  have firstHead := bucketHead_lt platform (show 31 - first ≤ 27 by omega)
  have secondHead := bucketHead_lt platform (show 31 - second ≤ 27 by omega)
  intro cell member
  rw [List.mem_cons, mem_entries] at member
  rcases member with rfl | ⟨index, inFree, rfl⟩
  · rw [List.mem_cons, not_or, mem_entries]
    refine ⟨by simp only [bucketHead]; omega, ?_⟩
    rintro ⟨other, _, same⟩
    omega
  · rw [List.mem_cons, not_or, mem_entries]
    refine ⟨by omega, ?_⟩
    rintro ⟨other, otherFree, same⟩
    have equal := apart _ inFree _ otherFree (by omega)
    exact different (congrArg Block.exponent equal)

namespace RingsMatch

/-- Appending a block to its free list. -/
theorem push
    (rings : RingsMatch platform cells base top lists)
    (atBreak : base = platform.programBreak)
    (small : top ≤ 31)
    (apart : StartsApart (freeBlocks lists))
    (atLeast : 4 ≤ block.exponent)
    (atMost : block.exponent ≤ top)
    (noStart : ∀ other ∈ freeBlocks lists, other.start ≠ block.start) :
    RingsMatch platform
      (cells.pushBack (bucketHead platform (31 - block.exponent)) (base + block.start)) base top
      (pushed lists block) := by
  intro exponent least most
  have own := rings block.exponent atLeast atMost
  by_cases same : exponent = block.exponent
  · subst same
    have appended := own.pushBack (address_outside atBreak atLeast noStart)
    simpa [entries, pushed, start] using appended
  · have disjoint : ∀ cell ∈ bucketHead platform (31 - exponent) :: entries base lists exponent,
        cell ≠ base + block.start ∧
          cell ∉ bucketHead platform (31 - block.exponent) ::
            entries base lists block.exponent := by
      intro cell member
      refine ⟨?_, cells_apart atBreak apart least (by omega) atLeast (by omega) same cell member⟩
      rintro rfl
      exact address_outside atBreak least noStart member
    have kept := own.pushBack_other (rings exponent least most) disjoint
    simpa [entries, pushed, Function.update_of_ne same] using kept

/-- Taking a block out of its free list. -/
theorem remove
    {front back : List Nat}
    (rings : RingsMatch platform cells base top lists)
    (atBreak : base = platform.programBreak)
    (small : top ≤ 31)
    (apart : StartsApart (freeBlocks lists))
    (atLeast : 4 ≤ block.exponent)
    (atMost : block.exponent ≤ top)
    (shape : lists block.exponent = front ++ block.index :: back) :
    RingsMatch platform (cells.remove (base + block.start)) base top
      (Function.update lists block.exponent (front ++ back)) := by
  intro exponent least most
  have own := rings block.exponent atLeast atMost
  have member : base + block.start ∈ entries base lists block.exponent :=
    mem_entries.mpr ⟨block.index, mem_freeBlocks_of_shape shape, rfl⟩
  by_cases same : exponent = block.exponent
  · subst same
    simp only [entries, shape, List.map_append, List.map_cons] at own
    have removed := own.remove
    simpa [entries, start] using removed
  · have kept := own.remove_other member (rings exponent least most)
      (cells_apart atBreak apart least (by omega) atLeast (by omega) same)
    simpa [entries, Function.update_of_ne same] using kept

/-- A new list head above the root. -/
theorem grow
    (rings : RingsMatch platform cells base top lists)
    (atBreak : base = platform.programBreak)
    (small : top < 31)
    (large : 4 ≤ top)
    (empty : lists (top + 1) = []) :
    RingsMatch platform (cells.init (bucketHead platform (31 - (top + 1)))) base (top + 1)
      lists := by
  intro exponent least most
  by_cases same : exponent = top + 1
  · subst same
    simpa [entries, empty] using ring_init
  · refine (rings exponent least (by omega)).init_other ?_
    have before := bucketHead_lt platform (show 31 - (top + 1) ≤ 27 by omega)
    rw [List.mem_cons, not_or, mem_entries]
    refine ⟨by simp only [bucketHead]; omega, ?_⟩
    rintro ⟨index, _, same'⟩
    omega

end RingsMatch

/-! ## The representation -/

/-- A `list_remove` was applied to a block linked in the list of its bucket and in no other. -/
structure Removal.Sound (platform : Platform) (removal : Removal) : Prop where
  linked :
    ∃ entries, Ring removal.cells (bucketHead platform removal.bucket) entries ∧
      removal.entry ∈ entries
  only :
    ∀ other,
      removal.bucketLimit ≤ other →
      other ≤ 27 →
      other ≠ removal.bucket →
      ∀ entries, Ring removal.cells (bucketHead platform other) entries → removal.entry ∉ entries

/-- The state represents a buddy heap with these free lists and used blocks. -/
structure Consistent
    (platform : Platform)
    (state : State)
    (lists : Nat → List Nat)
    (used : Set Block) : Prop where
  base : state.basePtr = platform.programBreak
  limit : state.bucketLimit ≤ 27
  heap : Heap (31 - state.bucketLimit) (freeBlocks lists) used
  smallest : ∀ block ∈ freeBlocks lists ∪ used, 4 ≤ block.exponent
  rings : RingsMatch platform state.cells state.basePtr (31 - state.bucketLimit) lists
  bits : BitsMatch state (31 - state.bucketLimit) (freeBlocks lists)
  removals : ∀ removal ∈ state.removals, removal.Sound platform

/-- The headers of a set of blocks, and the place of the heap, are kept. -/
def Keeps (blocks : Set Block) (before after : State) : Prop :=
  after.basePtr = before.basePtr ∧
    ∀ block ∈ blocks,
      after.cells.prev (before.basePtr + block.start) =
        before.cells.prev (before.basePtr + block.start)

theorem Keeps.refl (blocks : Set Block) (state : State) : Keeps blocks state state :=
  ⟨rfl, fun _ _ => rfl⟩

theorem Keeps.trans
    {blocks : Set Block}
    {first second third : State}
    (before : Keeps blocks first second)
    (after : Keeps blocks second third) :
    Keeps blocks first third := by
  refine ⟨after.1.trans before.1, ?_⟩
  intro block member
  have last := after.2 block member
  rw [before.1] at last
  exact last.trans (before.2 block member)

namespace Consistent

variable (consistent : Consistent platform state lists used)

include consistent

theorem startsApart : StartsApart (freeBlocks lists ∪ used) := by
  intro first firstMember second secondMember same
  exact consistent.heap.tiles.unique first.start first firstMember second secondMember
    first.holds_start (same ▸ second.holds_start)

theorem freeApart : StartsApart (freeBlocks lists) := by
  intro first firstMember second secondMember same
  exact consistent.startsApart first (Or.inl firstMember) second (Or.inl secondMember) same

/-- A used block does not start where a free one does. -/
theorem used_noStart
    (member : block ∈ used) :
    ∀ other ∈ freeBlocks lists, other.start ≠ block.start := by
  intro other inFree same
  have equal := consistent.startsApart other (Or.inl inFree) block (Or.inr member) same
  exact consistent.heap.not_free_of_used member (equal ▸ inFree)

/-- The exponent of a block of the heap. -/
theorem exponent_bounds
    (member : block ∈ freeBlocks lists ∪ used) :
    4 ≤ block.exponent ∧ block.exponent ≤ 31 - state.bucketLimit :=
  ⟨consistent.smallest block member, (consistent.heap.tiles.within block member).1⟩

/-- Every block of the heap lies in the address range. -/
theorem within_range
    (member : block ∈ freeBlocks lists ∪ used) :
    Within block (root 31) := by
  have inside := consistent.heap.tiles.within block member
  refine inside.trans ?_
  rw [within_root]
  simp [root]

/-- No free list holds a block twice. -/
theorem nodup
    {exponent : Nat}
    (atLeast : 4 ≤ exponent)
    (atMost : exponent ≤ 31 - state.bucketLimit) :
    (lists exponent).Nodup :=
  (List.nodup_cons.mp (consistent.rings exponent atLeast atMost).nodup).2.of_map

/-- There are no free lists above the root. -/
theorem lists_above
    {exponent : Nat}
    (above : 31 - state.bucketLimit < exponent) :
    lists exponent = [] := by
  rw [List.eq_nil_iff_forall_not_mem]
  intro index member
  have inside := consistent.heap.tiles.within ⟨exponent, index⟩ (Or.inl member)
  have small := inside.1
  simp only [root] at small
  omega

/-- Headers of used blocks survive changes to the free lists. -/
theorem prev_pushBack
    {other : Block}
    {head : Nat}
    (before : head < platform.programBreak)
    (different : other.start ≠ block.start) :
    (state.cells.pushBack head (state.basePtr + other.start)).prev
        (state.basePtr + block.start) =
      state.cells.prev (state.basePtr + block.start) := by
  have atBreak := consistent.base
  exact CircularList.prev_pushBack (by omega) (by omega)

theorem prev_remove
    {other : Block}
    (member : block ∈ used)
    (inFree : other ∈ freeBlocks lists) :
    (state.cells.remove (state.basePtr + other.start)).prev (state.basePtr + block.start) =
      state.cells.prev (state.basePtr + block.start) := by
  obtain ⟨atLeast, atMost⟩ := consistent.exponent_bounds (Or.inl inFree)
  exact (consistent.rings other.exponent atLeast atMost).prev_remove
    (mem_entries.mpr ⟨other.index, inFree, rfl⟩)
    (address_outside consistent.base atLeast (consistent.used_noStart member))

omit consistent in
/-- A step that takes a block out of its free list. -/
theorem take
    {front back : List Nat}
    (consistent : Consistent platform state lists used)
    (after : State)
    (shape : lists block.exponent = front ++ block.index :: back)
    (sameBase : after.basePtr = state.basePtr)
    (sameLimit : after.bucketLimit = state.bucketLimit)
    (cells : after.cells = state.cells.remove (state.basePtr + block.start))
    (bits : BitsMatch after (31 - state.bucketLimit) (freeBlocks lists \ {block}))
    (removals : ∀ removal ∈ after.removals, removal.Sound platform) :
    Consistent platform after (Function.update lists block.exponent (front ++ back))
        (insert block used) ∧
      Keeps used state after := by
  have limit := consistent.limit
  have member := mem_freeBlocks_of_shape shape
  obtain ⟨atLeast, atMost⟩ := consistent.exponent_bounds (Or.inl member)
  have removed := freeBlocks_removed shape (consistent.nodup atLeast atMost)
  refine ⟨⟨sameBase.trans consistent.base, sameLimit ▸ limit, ?_, ?_, ?_, ?_, removals⟩,
    sameBase, ?_⟩
  · rw [removed, sameLimit]
    exact consistent.heap.take member
  · rw [removed]
    rintro other (⟨inFree, _⟩ | rfl | inUsed)
    · exact consistent.smallest other (Or.inl inFree)
    · exact atLeast
    · exact consistent.smallest other (Or.inr inUsed)
  · rw [sameBase, sameLimit, cells]
    exact consistent.rings.remove consistent.base (by omega) consistent.freeApart atLeast atMost
      shape
  · rw [removed, sameLimit]
    exact bits
  · intro other inUsed
    rw [cells]
    exact consistent.prev_remove inUsed member

omit consistent in
/-- A step that gives a block back. -/
theorem release
    (consistent : Consistent platform state lists used)
    (after : State)
    (member : block ∈ used)
    (buddyUsed : block.buddy ∉ freeBlocks lists)
    (sameBase : after.basePtr = state.basePtr)
    (sameLimit : after.bucketLimit = state.bucketLimit)
    (cells :
      after.cells =
        state.cells.pushBack (bucketHead platform (31 - block.exponent))
          (state.basePtr + block.start))
    (bits : BitsMatch after (31 - state.bucketLimit) (insert block (freeBlocks lists)))
    (removals : ∀ removal ∈ after.removals, removal.Sound platform) :
    Consistent platform after (pushed lists block) (used \ {block}) ∧
      Keeps (used \ {block}) state after := by
  have limit := consistent.limit
  obtain ⟨atLeast, atMost⟩ := consistent.exponent_bounds (Or.inr member)
  refine ⟨⟨sameBase.trans consistent.base, sameLimit ▸ limit, ?_, ?_, ?_, ?_, removals⟩,
    sameBase, ?_⟩
  · rw [freeBlocks_pushed, sameLimit]
    exact consistent.heap.release member buddyUsed
  · rw [freeBlocks_pushed]
    rintro other ((rfl | inFree) | ⟨inUsed, _⟩)
    · exact atLeast
    · exact consistent.smallest other (Or.inl inFree)
    · exact consistent.smallest other (Or.inr inUsed)
  · rw [sameBase, sameLimit, cells]
    exact consistent.rings.push consistent.base (by omega) consistent.freeApart atLeast atMost
      (consistent.used_noStart member)
  · rw [freeBlocks_pushed, sameLimit]
    exact bits
  · rintro other ⟨inUsed, different⟩
    rw [cells]
    refine consistent.prev_pushBack (bucketHead_lt platform (by omega)) ?_
    intro same
    exact different
      (consistent.startsApart other (Or.inr inUsed) block (Or.inr member) same.symm)

omit consistent in
/-- Used blocks may be regrouped when they tile the same range. -/
theorem regroup
    {regrouped : Set Block}
    (consistent : Consistent platform state lists used)
    (heap : Heap (31 - state.bucketLimit) (freeBlocks lists) regrouped)
    (smallest : ∀ block ∈ regrouped, 4 ≤ block.exponent) :
    Consistent platform state lists regrouped := by
  refine ⟨consistent.base, consistent.limit, heap, ?_, consistent.rings, consistent.bits,
    consistent.removals⟩
  rintro block (inFree | inUsed)
  · exact consistent.smallest block (Or.inl inFree)
  · exact smallest block inUsed

end Consistent

/-! ## Steps of `bmalloc` and `bfree` -/

/-- `list_pop` of an empty free list. -/
theorem Consistent.pop_empty
    {exponent : Nat}
    (consistent : Consistent platform state lists used)
    (atLeast : 4 ≤ exponent)
    (atMost : exponent ≤ 31 - state.bucketLimit)
    (empty : lists exponent = []) :
    listPop state (bucketHead platform (31 - exponent)) = (none, state) := by
  have ring := consistent.rings exponent atLeast atMost
  simp only [entries, empty, List.map_nil] at ring
  rw [listPop, ring.prev_nil, if_pos rfl]

/-- `list_pop` takes the last block of a free list. -/
theorem Consistent.pop_last
    {front : List Nat}
    (consistent : Consistent platform state lists used)
    (shape : lists block.exponent = front ++ [block.index]) :
    listPop state (bucketHead platform (31 - block.exponent)) =
      (some (state.basePtr + block.start), listRemove state (state.basePtr + block.start)) := by
  have member := mem_freeBlocks_of_shape shape
  obtain ⟨atLeast, atMost⟩ := consistent.exponent_bounds (Or.inl member)
  have ring := consistent.rings block.exponent atLeast atMost
  simp only [entries, shape, List.map_append, List.map_cons, List.map_nil] at ring
  have back : state.cells.prev (bucketHead platform (31 - block.exponent)) =
      state.basePtr + block.start := ring.prev_concat
  have notHead : state.basePtr + block.start ≠ bucketHead platform (31 - block.exponent) :=
    ring.ne_head (by simp [start])
  rw [listPop, back, if_neg notHead]

/-- A popped block that is put back leaves the state as it was. -/
theorem Consistent.put_back
    {front : List Nat}
    (consistent : Consistent platform state lists used)
    (shape : lists block.exponent = front ++ [block.index]) :
    listPush (listRemove state (state.basePtr + block.start))
        (bucketHead platform (31 - block.exponent)) (state.basePtr + block.start) =
      state := by
  have member := mem_freeBlocks_of_shape shape
  obtain ⟨atLeast, atMost⟩ := consistent.exponent_bounds (Or.inl member)
  have ring := consistent.rings block.exponent atLeast atMost
  simp only [entries, shape, List.map_append, List.map_cons, List.map_nil] at ring
  rw [listPush, listRemove]
  simp only
  rw [start, ring.pushBack_remove]

/-- The block taken by `bmalloc`, once its parent's bit is flipped. -/
theorem Consistent.take_last
    {front : List Nat}
    (consistent : Consistent platform state lists used)
    (shape : lists block.exponent = front ++ [block.index])
    (maxPtr : Nat) :
    let popped := { listRemove state (state.basePtr + block.start) with maxPtr := maxPtr }
    let after :=
      if nodeIndex block ≠ 0 then flipParentIsSplit popped (nodeIndex block) else popped
    Consistent platform after (Function.update lists block.exponent front) (insert block used) ∧
      Keeps used state after := by
  intro popped after
  have member := mem_freeBlocks_of_shape shape
  have bits : BitsMatch popped (31 - state.bucketLimit) (freeBlocks lists) :=
    consistent.bits.congr rfl
  have flipped := bits.flip_unless_root (consistent.within_range (Or.inl member))
    (consistent.smallest block (Or.inl member)) (consistent.heap.splitBit_take member)
  have unchanged : after.basePtr = state.basePtr ∧ after.bucketLimit = state.bucketLimit ∧
      after.cells = state.cells.remove (state.basePtr + block.start) ∧
      after.removals = state.removals := by
    simp only [after]
    split
    · exact ⟨rfl, rfl, rfl, rfl⟩
    · exact ⟨rfl, rfl, rfl, rfl⟩
  obtain ⟨sameBase, sameLimit, cells, sameRemovals⟩ := unchanged
  have taken := consistent.take after shape sameBase sameLimit cells flipped
    (sameRemovals ▸ consistent.removals)
  rwa [List.append_nil] at taken

/-- One round of splitting: the upper half is free, the lower one stays in hand. -/
theorem Consistent.split_hand
    (consistent : Consistent platform state lists (insert block rest))
    (inHand : block ∉ rest)
    (splits : 5 ≤ block.exponent) :
    let after :=
      listPush (flipParentIsSplit state (nodeIndex block.left))
        (bucketHead platform (31 - block.left.exponent))
        (ptrForNode state (nodeIndex block.left + 1) (31 - block.left.exponent))
    Consistent platform after (pushed lists block.right) (insert block.left rest) ∧
      Keeps rest state after ∧
      block.left ∉ rest := by
  intro after
  have member : block ∈ insert block rest := Set.mem_insert block rest
  have inside := consistent.within_range (Or.inr member)
  have small : block.exponent ≤ 31 := inside.1
  have positive : 0 < block.exponent := by omega
  have cut := consistent.heap.split member positive
  have leftWithin := left_within positive
  have rightWithin := right_within positive
  have halfOutside : ∀ half, Within half block → half.exponent < block.exponent →
      half ∉ rest := by
    intro half within smaller inRest
    have equal := consistent.heap.tiles.eq_of_within (Or.inr (Or.inr inRest)) (Or.inr member)
      within
    rw [equal] at smaller
    omega
  have leftOutside := halfOutside block.left leftWithin (by simp [left]; omega)
  have rightOutside := halfOutside block.right rightWithin (by simp [right]; omega)
  have pieces : insert block rest \ {block} ∪ {block.left, block.right} =
      insert block.right (insert block.left rest) := by
    rw [Set.insert_sdiff_self_of_notMem inHand, Set.union_comm, Set.insert_union,
      Set.singleton_union, Set.insert_comm]
  rw [pieces] at cut
  have grouped := consistent.regroup cut (by
    rintro other (rfl | rfl | inRest)
    · simp only [right]
      omega
    · simp only [left]
      omega
    · exact consistent.smallest other (Or.inr (Or.inr inRest)))
  have rightMember : block.right ∈ insert block.right (insert block.left rest) :=
    Set.mem_insert _ _
  have buddyUsed : block.right.buddy ∉ freeBlocks lists := by
    rw [buddy_right]
    exact cut.not_free_of_used (Or.inr (Or.inl rfl))
  have flipped := cut.splitBit_release rightMember buddyUsed
  have sameParent : block.right.parent = block.left.parent :=
    (parent_right positive).trans (parent_left positive).symm
  rw [sameParent] at flipped
  have bits := consistent.bits.flip (leftWithin.trans inside) (by simp only [left]; omega)
    (by simp only [left]; omega) flipped
  have address : ptrForNode state (nodeIndex block.left + 1) (31 - block.left.exponent) =
      state.basePtr + block.right.start := by
    rw [nodeIndex_right]
    exact @ptrForNode_nodeIndex state block.right (by simp only [right]; omega)
  obtain ⟨released, kept⟩ := grouped.release after rightMember buddyUsed rfl rfl
    (by rw [← address]; rfl) (bits.congr rfl) consistent.removals
  have remaining : insert block.right (insert block.left rest) \ {block.right} =
      insert block.left rest := by
    apply Set.insert_sdiff_self_of_notMem
    rintro (same | inRest)
    · exact left_ne_right same.symm
    · exact rightOutside inRest
  rw [remaining] at released kept
  exact ⟨released, ⟨kept.1, fun other inRest => kept.2 other (Or.inr inRest)⟩, leftOutside⟩

/-- The block in hand is not in the free lists, so its buddy's removal is sound. -/
theorem Consistent.removal_sound
    (consistent : Consistent platform state lists used)
    (member : block ∈ freeBlocks lists) :
    Removal.Sound platform
      { cells := state.cells
        bucketLimit := state.bucketLimit
        bucket := 31 - block.exponent
        entry := state.basePtr + block.start } := by
  have limit := consistent.limit
  obtain ⟨atLeast, atMost⟩ := consistent.exponent_bounds (Or.inl member)
  have inList : state.basePtr + block.start ∈ entries state.basePtr lists block.exponent :=
    mem_entries.mpr ⟨block.index, member, rfl⟩
  refine ⟨⟨_, consistent.rings block.exponent atLeast atMost, inList⟩, ?_⟩
  intro other above below different others ring
  simp only at above different ring ⊢
  have atExponent := consistent.rings (31 - other) (by omega) (by omega)
  rw [Nat.sub_sub_self (by omega)] at atExponent
  rw [ring.unique atExponent]
  intro elsewhere
  have apart := cells_apart consistent.base consistent.freeApart atLeast (by omega)
    (show 4 ≤ 31 - other by omega) (by omega) (by omega) _ (List.mem_cons_of_mem _ inList)
  exact apart (List.mem_cons_of_mem _ elsewhere)

/-- One round of merging: the buddy leaves its free list, and the parent is in hand. -/
theorem Consistent.merge_hand
    (consistent : Consistent platform state lists (insert block rest))
    (inHand : block ∉ rest)
    (smaller : block.exponent < 31 - state.bucketLimit)
    (buddyFree : block.buddy ∈ freeBlocks lists) :
    let flipped := flipParentIsSplit state (nodeIndex block)
    let after :=
      listRemoveFrom flipped (31 - block.exponent)
        (ptrForNode flipped (((nodeIndex block - 1) ^^^ 1) + 1) (31 - block.exponent))
    ∃ merged,
      Consistent platform after merged (insert block.parent rest) ∧
        Keeps rest state after ∧
        block.parent ∉ rest ∧
        ∀ exponent, (merged exponent).Sublist (lists exponent) := by
  intro flipped after
  have member : block ∈ insert block rest := Set.mem_insert block rest
  have limit := consistent.limit
  have inside := consistent.within_range (Or.inr member)
  obtain ⟨atLeast, _⟩ := consistent.exponent_bounds (Or.inr member)
  have flips := consistent.heap.splitBit_take buddyFree
  rw [parent_buddy] at flips
  have bits := consistent.bits.flip inside atLeast (by omega) flips
  obtain ⟨front, back, shape⟩ := List.append_of_mem (mem_freeBlocks.mp buddyFree)
  have address : ptrForNode flipped (((nodeIndex block - 1) ^^^ 1) + 1) (31 - block.exponent) =
      state.basePtr + block.buddy.start := by
    rw [nodeIndex_buddy (by omega)]
    exact @ptrForNode_nodeIndex state block.buddy (by simp only [buddy]; omega)
  have sound := consistent.removal_sound buddyFree
  obtain ⟨taken, kept⟩ := consistent.take after shape rfl rfl
    (by rw [← address]; rfl) (bits.congr rfl) (by
      intro removal recorded
      rcases List.mem_cons.mp recorded with rfl | earlier
      · simp only [address]
        exact sound
      · exact consistent.removals removal earlier)
  have buddyOutside : block.buddy ∉ rest := by
    intro inRest
    exact consistent.heap.not_free_of_used (Or.inr inRest) buddyFree
  have stillHeld : block ∈ insert block.buddy (insert block rest) := Or.inr member
  have joined := taken.heap.join stillHeld (Or.inl rfl) smaller
  have parentOutside : block.parent ∉ rest := by
    intro inRest
    have equal := consistent.heap.tiles.eq_of_within (Or.inr member) (Or.inr (Or.inr inRest))
      block.within_parent
    have sizes := congrArg Block.exponent equal
    simp [parent] at sizes
  have remaining : insert block.buddy (insert block rest) \ {block, block.buddy} = rest := by
    ext other
    simp only [Set.mem_sdiff, Set.mem_insert_iff, Set.mem_singleton_iff]
    constructor
    · rintro ⟨rfl | rfl | inRest, different⟩
      · simp at different
      · simp at different
      · exact inRest
    · intro inRest
      refine ⟨Or.inr (Or.inr inRest), ?_⟩
      rintro (rfl | rfl)
      · exact inHand inRest
      · exact buddyOutside inRest
  rw [remaining] at joined
  refine ⟨_, taken.regroup joined ?_, ⟨kept.1, fun other inRest => kept.2 other (Or.inr inRest)⟩,
    parentOutside, ?_⟩
  · rintro other (rfl | inRest)
    · simp only [parent]
      omega
    · exact consistent.smallest other (Or.inr (Or.inr inRest))
  · intro exponent
    by_cases same : exponent = block.buddy.exponent
    · rw [same, Function.update_self, shape]
      exact (List.sublist_cons_self _ _).append_left front
    · rw [Function.update_of_ne same]

/-- The end of `bfree`: the block in hand goes to its free list. -/
theorem Consistent.release_hand
    (consistent : Consistent platform state lists (insert block rest))
    (inHand : block ∉ rest)
    (buddyUsed : block.buddy ∉ freeBlocks lists) :
    let flipped := if nodeIndex block ≠ 0 then flipParentIsSplit state (nodeIndex block) else state
    let after :=
      listPush flipped (bucketHead platform (31 - block.exponent))
        (ptrForNode flipped (nodeIndex block) (31 - block.exponent))
    Consistent platform after (pushed lists block) rest ∧ Keeps rest state after := by
  intro flipped after
  have member : block ∈ insert block rest := Set.mem_insert block rest
  have inside := consistent.within_range (Or.inr member)
  have bits := consistent.bits.flip_unless_root inside (consistent.smallest block (Or.inr member))
    (consistent.heap.splitBit_release member buddyUsed)
  have unchanged : flipped.basePtr = state.basePtr ∧ flipped.bucketLimit = state.bucketLimit ∧
      flipped.cells = state.cells ∧ flipped.removals = state.removals := by
    simp only [flipped]
    split
    · exact ⟨rfl, rfl, rfl, rfl⟩
    · exact ⟨rfl, rfl, rfl, rfl⟩
  obtain ⟨sameBase, sameLimit, sameCells, sameRemovals⟩ := unchanged
  have cells : after.cells = state.cells.pushBack (bucketHead platform (31 - block.exponent))
      (state.basePtr + block.start) := by
    simp only [after, listPush, sameCells]
    rw [ptrForNode_nodeIndex inside.1, sameBase]
  have released := consistent.release after member buddyUsed sameBase sameLimit cells
    (bits.congr rfl) (sameRemovals ▸ consistent.removals)
  rwa [Set.insert_sdiff_self_of_notMem inHand] at released

end Sysprog.Buddy
