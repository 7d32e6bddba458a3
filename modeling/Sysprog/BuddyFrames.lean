import Sysprog.BuddyHistory

namespace Sysprog.Buddy

open CircularList DyadicBlocks Block Execution MachineWord

/-!
# The memory of live blocks

`bmalloc` and `bfree` store to list heads and to free blocks, and to the header of the
block they hand out.  So a program finds in its blocks what it has written there, whatever
else is allocated and freed in between.
-/

variable
  {platform : Platform}
  {brk : Nat → Bool}
  {state : State}
  {lists : Nat → List Nat}
  {block : Block}
  {used rest : Set Block}

/-- All words of these blocks are as before. -/
def Spares (platform : Platform) (blocks : Set Block) (before after : Links Nat) : Prop :=
  ∀ block ∈ blocks, ∀ offset, block.Holds offset →
    after.prev (platform.programBreak + offset) = before.prev (platform.programBreak + offset) ∧
      after.next (platform.programBreak + offset) = before.next (platform.programBreak + offset)

theorem Spares.refl (blocks : Set Block) (cells : Links Nat) : Spares platform blocks cells cells :=
  fun _ _ _ _ => ⟨rfl, rfl⟩

theorem Spares.trans
    {blocks : Set Block}
    {first second third : Links Nat}
    (before : Spares platform blocks first second)
    (after : Spares platform blocks second third) :
    Spares platform blocks first third := by
  intro block member offset holds
  obtain ⟨prevLater, nextLater⟩ := after block member offset holds
  obtain ⟨prevBefore, nextBefore⟩ := before block member offset holds
  exact ⟨prevLater.trans prevBefore, nextLater.trans nextBefore⟩

theorem Spares.mono
    {fewer blocks : Set Block}
    {before after : Links Nat}
    (spares : Spares platform blocks before after)
    (sub : fewer ⊆ blocks) :
    Spares platform fewer before after :=
  fun block member => spares block (sub member)

/-! ## Single stores -/

/-- A new list head. -/
theorem init_spares
    (blocks : Set Block)
    {bucket : Nat}
    (inside : bucket ≤ 27)
    (cells : Links Nat) :
    Spares platform blocks cells (cells.init (bucketHead platform bucket)) := by
  have head := bucketHead_lt platform inside
  intro other _ offset _
  exact ⟨Function.update_of_ne (by omega) _ _, Function.update_of_ne (by omega) _ _⟩

namespace Consistent

variable {offset : Nat}

/-- What a used block holds is in no ring. -/
theorem used_outside
    (consistent : Consistent platform state lists used)
    (member : block ∈ used)
    (holds : block.Holds offset)
    {exponent : Nat}
    (atLeast : 4 ≤ exponent) :
    platform.programBreak + offset ∉
      bucketHead platform (31 - exponent) :: entries state.basePtr lists exponent := by
  rw [consistent.base]
  refine address_outside rfl atLeast fun other inFree same => ?_
  have equal :=
    consistent.heap.tiles.unique offset other (Or.inl inFree) block (Or.inr member)
      (same ▸ other.holds_start) holds
  exact consistent.heap.not_free_of_used member (equal ▸ inFree)

/-- Taking a free block out of its list. -/
theorem remove_spares
    (consistent : Consistent platform state lists used)
    (inFree : block ∈ freeBlocks lists) :
    Spares platform used state.cells (state.cells.remove (state.basePtr + block.start)) := by
  obtain ⟨atLeast, atMost⟩ := consistent.exponent_bounds (Or.inl inFree)
  have ring := consistent.rings block.exponent atLeast atMost
  obtain ⟨before, after⟩ := ring.neighbours (mem_entries.mpr ⟨block.index, inFree, rfl⟩)
  intro other member offset holds
  have outside := consistent.used_outside member holds atLeast
  constructor
  · apply Function.update_of_ne
    intro same
    rw [same] at outside
    exact outside after
  · apply Function.update_of_ne
    intro same
    rw [same] at outside
    exact outside before

/-- Appending a block to a list, where the other used blocks are apart from it. -/
theorem push_spares
    (consistent : Consistent platform state lists used)
    {exponent start : Nat}
    (atLeast : 4 ≤ exponent)
    (atMost : exponent ≤ 31 - state.bucketLimit)
    (sub : rest ⊆ used)
    (apart : ∀ other ∈ rest, ¬other.Holds start) :
    Spares platform rest state.cells
      (state.cells.pushBack (bucketHead platform (31 - exponent)) (state.basePtr + start)) := by
  have ring := consistent.rings exponent atLeast atMost
  have base := consistent.base
  intro other member offset holds
  have outside := consistent.used_outside (sub member) holds atLeast
  have notEntry : platform.programBreak + offset ≠ state.basePtr + start := by
    intro same
    obtain rfl : offset = start := by omega
    exact apart other member holds
  constructor
  · refine CircularList.prev_pushBack notEntry ?_
    intro same
    rw [same] at outside
    exact outside List.mem_cons_self
  · refine CircularList.next_pushBack notEntry ?_
    intro same
    rw [same] at outside
    exact outside ring.path.prev_mem

/-- A block apart from one in hand does not hold what that one holds. -/
theorem not_holds_of_hand
    (consistent : Consistent platform state lists (insert block rest))
    (inHand : block ∉ rest)
    (holds : block.Holds offset) :
    ∀ other ∈ rest, ¬other.Holds offset := by
  intro other member also
  have equal :=
    consistent.heap.tiles.unique offset other (Or.inr (Or.inr member)) block
      (Or.inr (Set.mem_insert block rest)) also holds
  exact inHand (equal ▸ member)

end Consistent

/-! ## Splitting -/

/-- The splitting loop of `bmalloc` stores to the block that it splits. -/
theorem Consistent.splitLoop_spares
    {rounds : Nat}
    (consistent : Consistent platform state lists (insert block rest))
    (inHand : block ∉ rest)
    (deep : rounds + 4 ≤ block.exponent) :
    Spares platform rest state.cells
      (Buddy.splitLoop platform rounds (nodeIndex block) (31 - block.exponent) state).cells := by
  induction rounds generalizing state lists block with
  | zero =>
      exact .refl _ _
  | succ rounds inductionHypothesis =>
      have member : block ∈ insert block rest := Set.mem_insert block rest
      have inside := consistent.within_range (Or.inr member)
      have small := inside.1
      simp only [root] at small
      have positive : 0 < block.exponent := by omega
      obtain ⟨_, atMost⟩ := consistent.exponent_bounds (Or.inr member)
      obtain ⟨cut, _, leftOutside⟩ := consistent.split_hand inHand (by omega)
      have later := inductionHypothesis cut leftOutside (by simp only [left]; omega)
      have bucket : 31 - block.exponent + 1 = 31 - block.left.exponent := by
        simp only [left]
        omega
      have address :
          ptrForNode state (nodeIndex block.left + 1) (31 - block.left.exponent) =
            state.basePtr + block.right.start := by
        rw [nodeIndex_right]
        exact @ptrForNode_nodeIndex state block.right (by simp only [right]; omega)
      have pushed :=
        consistent.push_spares (show 4 ≤ block.left.exponent by simp only [left]; omega)
          (by simp only [left]; omega) (Set.subset_insert block rest)
          (consistent.not_holds_of_hand inHand
            ((right_within positive).holds block.right.holds_start))
      simp only [Buddy.splitLoop]
      rw [nodeIndex_left positive small, bucket]
      rw [← address] at pushed
      exact pushed.trans later

/-! ## Growth -/

/-- A round of `lower_bucket_limit`. -/
theorem Consistent.lowerOnce_spares
    {after : State}
    (consistent : Consistent platform state lists used)
    (notLast : 0 < state.bucketLimit)
    (lowered : Buddy.lowerOnce platform brk state = some after) :
    Spares platform used state.cells after.cells := by
  have limit := consistent.limit
  by_cases entirely : EntirelyFree (freeBlocks lists) (root (31 - state.bucketLimit))
  · obtain ⟨_, rfl⟩ := consistent.lists_eq_rootLists entirely
    rintro block ⟨⟩
  · rw [consistent.lowerOnce_used notLast entirely, Option.map_eq_some_iff] at lowered
    obtain ⟨reserved, updated, rfl⟩ := lowered
    obtain ⟨maxPtr, rfl⟩ := updateMaxPtr_some updated
    have apart : ∀ other ∈ used, ¬other.Holds (2 ^ (31 - state.bucketLimit)) := by
      intro other member holds
      have inside := (consistent.heap.tiles.within other (Or.inr member)).holds holds
      rw [holds_root] at inside
      omega
    have pushed :=
      consistent.push_spares (show 4 ≤ 31 - state.bucketLimit by omega) (Nat.le_refl _)
        (Set.Subset.refl used) apart
    rw [Nat.sub_sub_self (by omega)] at pushed
    refine pushed.trans ?_
    have initialised :=
      @init_spares platform used (state.bucketLimit - 1) (by omega)
        (state.cells.pushBack (bucketHead platform state.bucketLimit)
          (state.basePtr + 2 ^ (31 - state.bucketLimit)))
    simp only [Buddy.growUsed]
    split
    · exact initialised
    · exact initialised

/-- The loop of `lower_bucket_limit`. -/
theorem Consistent.lowerLoop_spares
    {rounds : Nat}
    (consistent : Consistent platform state lists used)
    (bucket : Nat) :
    Spares platform used state.cells (Buddy.lowerLoop platform brk bucket rounds state).2.cells := by
  induction rounds generalizing state lists with
  | zero =>
      exact .refl _ _
  | succ rounds inductionHypothesis =>
      simp only [Buddy.lowerLoop]
      by_cases lower : bucket < state.bucketLimit
      · rw [if_pos lower]
        cases round : Buddy.lowerOnce platform brk state with
        | none =>
            exact .refl _ _
        | some after =>
            obtain ⟨_, ⟨_, next⟩, _⟩ := consistent.lowerOnce (by omega) round
            exact (consistent.lowerOnce_spares (by omega) round).trans (inductionHypothesis next)
      · rw [if_neg lower]
        exact .refl _ _

/-! ## Allocation -/

/-- What `bmalloc` does with the last block of a free list. -/
theorem Consistent.allocateFrom_spares
    {front : List Nat}
    {request originalBucket : Nat}
    (consistent : Consistent platform state lists used)
    (shape : lists block.exponent = front ++ [block.index])
    (large : 31 - block.exponent ≤ originalBucket)
    (smallest : originalBucket ≤ 27) :
    Spares platform used state.cells
      (Buddy.allocateFrom platform brk (listRemove state (state.basePtr + block.start)) request
        originalBucket (31 - block.exponent) (state.basePtr + block.start)).2.cells := by
  have member := mem_freeBlocks_of_shape shape
  have inside := consistent.within_range (Or.inl member)
  have small : block.exponent ≤ 31 := inside.1
  have atLeast := consistent.smallest block (Or.inl member)
  simp only [Buddy.allocateFrom]
  split
  · rw [consistent.put_back shape]
    exact .refl _ _
  · rename_i reserved updated
    obtain ⟨maxPtr, rfl⟩ := updateMaxPtr_some updated
    have number :
        nodeForPtr { listRemove state (state.basePtr + block.start) with maxPtr := maxPtr }
          (state.basePtr + block.start) (31 - block.exponent) = nodeIndex block :=
      nodeForPtr_start small
    rw [number]
    obtain ⟨taken, keptTaken⟩ := consistent.take_last shape maxPtr
    have fresh : block ∉ used := fun inUsed => consistent.heap.not_free_of_used inUsed member
    have removed := consistent.remove_spares member
    have split :=
      taken.splitLoop_spares fresh
        (show originalBucket - (31 - block.exponent) + 4 ≤ block.exponent by omega)
    have sameCells :
        (if nodeIndex block ≠ 0 then
            flipParentIsSplit
              { listRemove state (state.basePtr + block.start) with maxPtr := maxPtr }
              (nodeIndex block)
          else
            { listRemove state (state.basePtr + block.start) with maxPtr := maxPtr }).cells =
          state.cells.remove (state.basePtr + block.start) := by
      split <;> rfl
    rw [sameCells] at split
    refine (removed.trans split).trans ?_
    -- The header is stored to the block itself.
    intro other inUsed offset holds
    refine ⟨Function.update_of_ne ?_ _ _, rfl⟩
    rw [consistent.base]
    intro same
    obtain rfl : offset = block.start := by omega
    have equal :=
      consistent.heap.tiles.unique block.start other (Or.inr inUsed) block (Or.inl member) holds
        block.holds_start
    exact fresh (equal ▸ inUsed)

/-- The search at the root when all of it is in use. -/
theorem Consistent.search_root_spares
    {request originalBucket : Nat}
    (consistent : Consistent platform state lists used)
    (empty : lists (31 - state.bucketLimit) = [])
    (large : state.bucketLimit ≤ originalBucket)
    (smallest : originalBucket ≤ 27) :
    Spares platform used state.cells
      (Buddy.search platform brk request originalBucket state.bucketLimit state).2.cells := by
  have limit := consistent.limit
  have inUse := consistent.inUse_of_empty empty
  rcases Nat.eq_zero_or_pos state.bucketLimit with last | notLast
  · rw [last] at empty ⊢
    rw [consistent.search_exhausted last empty]
    exact .refl _ _
  rw [consistent.search_root notLast empty]
  cases updated :
      updateMaxPtr brk state (state.basePtr + 2 ^ (31 - state.bucketLimit) + 16) with
  | none =>
      exact .refl _ _
  | some reserved =>
      have lowered : Buddy.lowerOnce platform brk state = _ := consistent.lowerOnce_used notLast inUse
      rw [updated, Option.map_some] at lowered
      have before := consistent.lowerOnce_spares notLast lowered
      obtain ⟨maxPtr, rfl⟩ := updateMaxPtr_some updated
      obtain ⟨_, _, grown, kept⟩ := consistent.growUsed notLast inUse maxPtr
      have shape : pushed lists ⟨31 - state.bucketLimit, 1⟩ (31 - state.bucketLimit) = [] ++ [1] := by
        simp [pushed, empty]
      have taken := @Consistent.allocateFrom_spares _ brk _ _ ⟨31 - state.bucketLimit, 1⟩ _ _
        request originalBucket grown shape (by simp only; omega) smallest
      simp only [Nat.sub_sub_self (show state.bucketLimit ≤ 31 by omega), start, Nat.one_mul,
        kept.1] at taken
      exact before.trans taken

/-- The search once the tree reaches to its bucket. -/
theorem Consistent.search_inside_spares
    {request originalBucket bucket : Nat}
    (consistent : Consistent platform state lists used)
    (inside : state.bucketLimit ≤ bucket)
    (large : bucket ≤ originalBucket)
    (smallest : originalBucket ≤ 27) :
    Spares platform used state.cells
      (Buddy.search platform brk request originalBucket bucket state).2.cells := by
  obtain ⟨level, atLeast, atMost, skipped, stops⟩ := exists_stop lists inside
  rw [consistent.search_skips atLeast atMost (by omega) skipped]
  rcases List.eq_nil_or_concat' (lists (31 - level)) with empty | ⟨front, index, shape⟩
  · have atRoot : level = state.bucketLimit := stops.resolve_right (not_not_intro empty)
    rw [atRoot] at empty ⊢
    exact consistent.search_root_spares empty (by omega) smallest
  · rw [consistent.search_found atLeast (by omega) shape]
    have taken := @Consistent.allocateFrom_spares _ brk _ _ ⟨31 - level, index⟩ _ _ request
      originalBucket consistent shape (by simp only; omega) smallest
    simpa only [Nat.sub_sub_self (show level ≤ 31 by omega), start] using taken

/-- The search of `bmalloc`. -/
theorem Consistent.search_spares
    {request bucket : Nat}
    (consistent : Consistent platform state lists used)
    (smallest : bucket ≤ 27) :
    Spares platform used state.cells
      (Buddy.search platform brk request bucket bucket state).2.cells := by
  obtain ⟨⟨lowered, grown⟩, _, reached⟩ :=
    @Consistent.lowerBucketLimit _ brk _ _ _ consistent bucket
  have before := @Consistent.lowerLoop_spares _ brk _ _ _ state.bucketLimit consistent bucket
  cases outcome : Buddy.lowerBucketLimit platform brk state bucket with
  | mk succeeded after =>
      rw [← Buddy.lowerBucketLimit, outcome] at before
      simp only [outcome] at grown reached
      cases succeeded with
      | false =>
          rw [search_refused outcome]
          exact before
      | true =>
          have inside : after.bucketLimit ≤ bucket := by
            rw [reached rfl]
            exact Nat.min_le_right _ _
          rw [search_lower outcome inside]
          exact before.trans (grown.search_inside_spares inside (Nat.le_refl _) smallest)

/-- `bmalloc` on a heap that is set up. -/
theorem Consistent.bmalloc_spares
    {answers : Brk}
    (consistent : Consistent platform state lists used)
    (request : Nat) :
    Spares platform used state.cells (Buddy.bmalloc platform answers state request).2.cells := by
  have setUp : state.basePtr ≠ 0 := by
    have base := consistent.base
    have behind := platform.behind
    omega
  simp only [Buddy.bmalloc, if_neg setUp]
  split
  · exact .refl _ _
  · exact consistent.search_spares (bucketForRequest_le _)

/-! ## Release -/

/-- The loop of `bfree` stores to list heads and free blocks. -/
theorem Consistent.mergeLoop_spares
    {rounds : Nat}
    (consistent : Consistent platform state lists (insert block rest))
    (inHand : block ∉ rest) :
    Spares platform rest state.cells
      (Buddy.mergeLoop rounds (nodeIndex block) (31 - block.exponent) state).2.cells := by
  induction rounds generalizing block state lists with
  | zero =>
      exact .refl _ _
  | succ rounds inductionHypothesis =>
      have limit := consistent.limit
      have bounds := consistent.exponent_bounds (Or.inr (Set.mem_insert block rest))
      by_cases number : nodeIndex block = 0
      · simp only [Buddy.mergeLoop, number]
        exact .refl _ _
      simp only [Buddy.mergeLoop, if_pos number]
      split
      · exact .refl _ _
      rename_i goesOn
      obtain ⟨notSplit, notRoot⟩ := not_or.mp goesOn
      have limitKept :
          (flipParentIsSplit state (nodeIndex block)).bucketLimit = state.bucketLimit := rfl
      rw [limitKept] at notRoot
      have smaller : block.exponent < 31 - state.bucketLimit := by omega
      have buddyFree : block.buddy ∈ freeBlocks lists := by
        by_contra buddyUsed
        exact notSplit ((consistent.parentIsSplit_flipped smaller).mpr buddyUsed)
      obtain ⟨joined, next, _, outside, _⟩ := consistent.merge_hand inHand smaller buddyFree
      have address :
          ptrForNode (flipParentIsSplit state (nodeIndex block))
              (((nodeIndex block - 1) ^^^ 1) + 1) (31 - block.exponent) =
            state.basePtr + block.buddy.start := by
        rw [nodeIndex_buddy (by omega)]
        exact @ptrForNode_nodeIndex state block.buddy (by simp only [buddy]; omega)
      have removed := consistent.remove_spares buddyFree
      rw [← address] at removed
      have later := @inductionHypothesis _ _ _ next outside
      rw [nodeIndex_parent (show block.exponent < 31 by omega),
        show 31 - block.exponent - 1 = 31 - block.parent.exponent by simp only [parent]; omega]
      exact (removed.mono (Set.subset_insert block rest)).trans later

/-- `bfree` of the block of a live pointer. -/
theorem Consistent.bfree_spares
    {ptr request : Nat}
    (consistent : Consistent platform state lists (insert block rest))
    (inHand : block ∉ rest)
    (address : ptr = state.basePtr + block.start + 8)
    (header : state.cells.prev (state.basePtr + block.start) = request)
    (size : block.exponent = 31 - requestBucket request) :
    Spares platform rest state.cells (Buddy.bfree platform state (some ptr)).cells := by
  obtain ⟨bucket, number⟩ := consistent.bfree_start address header size
  obtain ⟨before, merged, final, into, _, loop⟩ := consistent.mergeLoop inHand (Nat.le_refl _)
  have earlier := @Consistent.mergeLoop_spares _ _ _ _ _ (nodeIndex block) consistent inHand
  have bounds := into.consistent.exponent_bounds (Or.inr (Set.mem_insert final rest))
  have limit := into.consistent.limit
  have pushed :=
    into.consistent.push_spares bounds.1 bounds.2 (Set.subset_insert final rest)
      (into.consistent.not_holds_of_hand into.inHand final.holds_start)
  simp only [Buddy.bfree, bucket, number, loop] at earlier ⊢
  have flipped :
      (flippedUnlessRoot before final).cells = before.cells ∧
        (flippedUnlessRoot before final).basePtr = before.basePtr := by
    unfold flippedUnlessRoot
    split <;> exact ⟨rfl, rfl⟩
  rw [flipped.1] at earlier
  rw [ptrForNode_nodeIndex (by omega), listPush, flipped.1, flipped.2]
  exact earlier.trans pushed

/-! ## Programs -/

/-- All words of the block behind a pointer are as before. -/
def BlockKept (before after : World) (ptr request : Nat) : Prop :=
  ∀ cell,
    ptr - 8 ≤ cell →
    cell < ptr - 8 + 2 ^ (31 - requestBucket request) →
    after.state.cells.prev cell = before.state.cells.prev cell ∧
      after.state.cells.next cell = before.state.cells.next cell

variable {world after : World} {ptr request : Nat}

/-- The words from the header of a live block on are those of its block in the heap. -/
theorem PointersMatch.holds
    (pointers : PointersMatch platform world)
    (isLive : world.live ptr = some request)
    {cell : Nat}
    (above : ptr - 8 ≤ cell)
    (below : cell < ptr - 8 + 2 ^ (31 - requestBucket request)) :
    ∃ offset,
      cell = platform.programBreak + offset ∧ (liveBlock platform ptr request).Holds offset := by
  have address := (pointers ptr request isLive).1
  refine ⟨cell - platform.programBreak, by omega, holds_iff_range.mpr ⟨by omega, ?_⟩⟩
  change _ < (liveBlock platform ptr request).start + 2 ^ (31 - requestBucket request)
  omega

/-- Where the live blocks are spared, each of them is kept. -/
theorem PointersMatch.blockKept
    (pointers : PointersMatch platform world)
    (isLive : world.live ptr = some request)
    {blocks : Set Block}
    (member : liveBlock platform ptr request ∈ blocks)
    (spares : Spares platform blocks world.state.cells after.state.cells) :
    BlockKept world after ptr request := by
  intro cell above below
  obtain ⟨offset, rfl, holds⟩ := pointers.holds isLive above below
  exact spares _ member offset holds

/-- What a program writes to one of its blocks is outside of the other ones. -/
theorem Represented.write_keeps
    (represented : Represented platform world)
    (isLive : world.live ptr = some request)
    {other asked : Nat}
    {cells : Links Nat}
    (different : other ≠ ptr)
    (writes : WritesInside world other cells asked) :
    BlockKept world { world with state := { world.state with cells := cells } } ptr request := by
  obtain ⟨⟨lists, consistent⟩, pointers⟩ := represented
  intro cell above below
  apply writes.outside
  by_contra inside
  obtain ⟨offset, rfl, holds⟩ := pointers.holds isLive above below
  obtain ⟨otherOffset, same, otherHolds⟩ :=
    pointers.holds writes.live (show other - 8 ≤ platform.programBreak + offset by omega)
      (by omega)
  obtain rfl : otherOffset = offset := by omega
  have equal :=
    consistent.heap.tiles.unique otherOffset _ (Or.inr ⟨other, asked, writes.live, rfl⟩) _
      (Or.inr ⟨ptr, request, isLive, rfl⟩) otherHolds holds
  have first := (pointers ptr request isLive).1
  have second := (pointers other asked writes.live).1
  rw [equal] at second
  omega

/-- A step that neither frees a block nor writes to it keeps it. -/
theorem Invariant.step_keeps
    {op : Op}
    (invariant : Invariant platform world)
    (isLive : world.live ptr = some request)
    (step : Step platform world op after)
    (notFreed : op ≠ .bfree (some ptr))
    (notWritten : ∀ cells, op ≠ .write ptr cells) :
    after.live ptr = some request ∧ BlockKept world after ptr request := by
  rcases invariant with untouched | represented
  · rw [untouched.live] at isLive
    simp at isLive
  obtain ⟨⟨lists, consistent⟩, pointers⟩ := represented
  have member : liveBlock platform ptr request ∈ liveBlocks platform world.live :=
    ⟨ptr, request, isLive, rfl⟩
  cases op with
  | bmalloc asked answers =>
      obtain ⟨_, rfl⟩ := step
      have spares := @Consistent.bmalloc_spares _ _ _ _ answers consistent asked
      cases outcome : bmalloc platform answers world.state asked with
      | mk returned afterState =>
          rw [outcome] at spares
          cases returned with
          | none =>
              simp only [World.afterMalloc, outcome, World.returned]
              exact ⟨isLive, pointers.blockKept isLive member spares⟩
          | some fresh =>
              have notLive :=
                @Invariant.bmalloc_fresh _ answers _ _ _ _
                  (Or.inr ⟨⟨lists, consistent⟩, pointers⟩) outcome
              have different : ptr ≠ fresh := by
                rintro rfl
                rw [notLive] at isLive
                simp at isLive
              simp only [World.afterMalloc, outcome, World.returned,
                Function.update_of_ne different]
              exact ⟨isLive, pointers.blockKept isLive member spares⟩
  | bfree freed =>
      obtain ⟨allowed, rfl⟩ := step
      cases freed with
      | none =>
          exact ⟨isLive, fun _ _ _ => ⟨rfl, rfl⟩⟩
      | some other =>
          have different : ptr ≠ other := by
            rintro rfl
            exact notFreed rfl
          obtain ⟨asked, otherLive⟩ := Option.isSome_iff_exists.mp (allowed other rfl)
          obtain ⟨address, header⟩ := pointers other asked otherLive
          obtain ⟨shape, inHand⟩ := pointers.liveBlocks_update_none otherLive
          have base := consistent.base
          have cell : world.state.basePtr + (liveBlock platform other asked).start = other - 8 := by
            omega
          have stillLive : Function.update world.live other none ptr = some request := by
            rw [Function.update_of_ne different]
            exact isLive
          rw [shape] at consistent
          have spares :=
            consistent.bfree_spares inHand
              (show other = world.state.basePtr + (liveBlock platform other asked).start + 8 by omega)
              (by rw [cell]; exact header) rfl
          have stillUsed :
              liveBlock platform ptr request ∈
                liveBlocks platform (Function.update world.live other none) :=
            ⟨ptr, request, stillLive, rfl⟩
          exact ⟨stillLive, pointers.blockKept isLive stillUsed spares⟩
  | write other cells =>
      obtain ⟨⟨asked, writes⟩, rfl⟩ := step
      have different : other ≠ ptr := by
        rintro rfl
        exact notWritten cells rfl
      exact ⟨isLive,
        Represented.write_keeps ⟨⟨lists, consistent⟩, pointers⟩ isLive different writes⟩

/--
In every run from a reachable state, a block that is live keeps all its words, header
included, as long as the program neither frees it nor writes to it.
-/
theorem live_data_kept
    {memory : Links Nat}
    {ops : List Op}
    (reachable : Reachable (Step platform) (World.initial memory) world)
    (isLive : world.live ptr = some request)
    (run : Run (Step platform) world ops after)
    (notFreed : .bfree (some ptr) ∉ ops)
    (notWritten : ∀ cells, .write ptr cells ∉ ops) :
    after.live ptr = some request ∧ BlockKept world after ptr request := by
  have whole :
      Invariant platform after ∧ after.live ptr = some request ∧ BlockKept world after ptr request := by
    induction run with
    | stop =>
        exact ⟨invariant_reachable reachable, isLive, fun _ _ _ => ⟨rfl, rfl⟩⟩
    | extend earlier last inductionHypothesis =>
        obtain ⟨invariant, live, kept⟩ :=
          inductionHypothesis
            (fun member => notFreed (List.mem_append_left _ member))
            (fun cells member => notWritten cells (List.mem_append_left _ member))
        obtain ⟨stillLive, keptOn⟩ :=
          invariant.step_keeps live last
            (fun same => notFreed (List.mem_append_right _ (by rw [same]; exact List.mem_cons_self)))
            (fun cells same =>
              notWritten cells (List.mem_append_right _ (by rw [same]; exact List.mem_cons_self)))
        refine ⟨invariant.step last, stillLive, fun cell above below => ?_⟩
        obtain ⟨prevLater, nextLater⟩ := keptOn cell above below
        obtain ⟨prevBefore, nextBefore⟩ := kept cell above below
        exact ⟨prevLater.trans prevBefore, nextLater.trans nextBefore⟩
  exact whole.2

/-- Another request leaves the block of the first one alone. -/
theorem live_data_kept_sampleWorld :
    (sampleWorld.afterMalloc samplePlatform (.ofAddress fun _ => true) 0).live 8200 = some 24 ∧
      BlockKept sampleWorld
        (sampleWorld.afterMalloc samplePlatform (.ofAddress fun _ => true) 0) 8200 24 := by
  have step :
      Step samplePlatform sampleWorld (.bmalloc 0 (.ofAddress fun _ => true))
        (sampleWorld.afterMalloc samplePlatform (.ofAddress fun _ => true) 0) :=
    ⟨by decide, rfl⟩
  exact live_data_kept sampleWorld_reachable (by decide +kernel) (Run.stop.extend step) (by simp)
    (by simp)

end Sysprog.Buddy
