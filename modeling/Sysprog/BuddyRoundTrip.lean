import Sysprog.BuddyCanonical

namespace Sysprog.Buddy

open CircularList DyadicBlocks Block Execution MachineWord

/-!
# Allocation and release as a round trip

`bmalloc` takes the last block of the first list that is not empty and cuts it; all lists
that it passes on its way are empty.  `bfree` takes blocks out of lists and appends one.
With as many free blocks as before, it has to append the block that was taken to the list
it was taken from, and the lists are what they were, in the same order.
-/

variable
  {platform : Platform}
  {brk : Nat → Bool}
  {world : World}
  {state : State}
  {lists : Nat → List Nat}
  {used : Set Block}

/-! ## The lists -/

/-- A sublist with all members of a list without repetitions is the list. -/
theorem eq_of_sublist_of_mem_iff
    {short long : List Nat}
    (sublist : short.Sublist long)
    (distinct : long.Nodup)
    (members : ∀ index, index ∈ short ↔ index ∈ long) :
    short = long := by
  have same := (List.perm_ext_iff_of_nodup (sublist.nodup distinct) distinct).mpr members
  exact sublist.eq_of_length same.length_eq

/-- No free list of any size holds a block twice. -/
theorem Consistent.lists_nodup
    (consistent : Consistent platform state lists used)
    (exponent : Nat) :
    (lists exponent).Nodup := by
  by_cases above : 31 - state.bucketLimit < exponent
  · rw [consistent.lists_above above]
    exact List.nodup_nil
  · by_cases atLeast : 4 ≤ exponent
    · exact consistent.nodup atLeast (by omega)
    · have none : lists exponent = [] := by
        rw [List.eq_nil_iff_forall_not_mem]
        intro index member
        exact atLeast (consistent.smallest ⟨exponent, index⟩ (Or.inl member))
      rw [none]
      exact List.nodup_nil

/--
Lists from which a last block was taken, and which later gave up some blocks and got one,
are as before when they hold the same blocks as before.
-/
theorem pushed_eq_of_same_blocks
    {divided merged : Nat → List Nat}
    {block final : Block}
    (shape : lists block.exponent = divided block.exponent ++ [block.index])
    (elsewhere :
      ∀ exponent, exponent ≠ block.exponent →
        divided exponent = lists exponent ∨ lists exponent = [])
    (sublists : ∀ exponent, (merged exponent).Sublist (divided exponent))
    (distinct : ∀ exponent, (lists exponent).Nodup)
    (finalDistinct : ∀ exponent, (pushed merged final exponent).Nodup)
    (sameBlocks : freeBlocks (pushed merged final) = freeBlocks lists) :
    pushed merged final = lists := by
  have members : ∀ exponent index,
      index ∈ pushed merged final exponent ↔ index ∈ lists exponent := by
    intro exponent index
    have same := Set.ext_iff.mp sameBlocks ⟨exponent, index⟩
    rwa [mem_freeBlocks, mem_freeBlocks] at same
  have ownDistinct := distinct block.exponent
  rw [shape] at ownDistinct
  have sameExponent : final.exponent = block.exponent := by
    by_contra different
    have kept : block.index ∈ pushed merged final block.exponent := by
      rw [members, shape]
      simp
    rw [pushed, Function.update_of_ne (Ne.symm different)] at kept
    have still := (sublists block.exponent).subset kept
    exact (List.nodup_append.mp ownDistinct).2.2 _ still _ (List.mem_singleton_self _) rfl
  funext exponent
  by_cases here : exponent = block.exponent
  · subst here
    have own := finalDistinct block.exponent
    have ownMembers := members block.exponent
    simp only [pushed, sameExponent, Function.update_self] at own ownMembers ⊢
    rw [shape] at ownMembers ⊢
    have lengths :=
      ((List.perm_ext_iff_of_nodup own ownDistinct).mpr ownMembers).length_eq
    simp only [List.length_append, List.length_singleton, Nat.add_right_cancel_iff] at lengths
    have front := (sublists block.exponent).eq_of_length lengths
    rw [front] at own ownMembers ⊢
    have last := (ownMembers final.index).mp (by simp)
    rw [List.mem_append, List.mem_singleton] at last
    have outside : final.index ∉ divided block.exponent := fun inside =>
      (List.nodup_append.mp own).2.2 _ inside _ (List.mem_singleton_self _) rfl
    rw [last.resolve_left outside]
  · have away : exponent ≠ final.exponent := by
      rw [sameExponent]
      exact here
    have ownMembers := members exponent
    simp only [pushed, Function.update_of_ne away] at ownMembers ⊢
    rcases elsewhere exponent here with same | empty
    · exact eq_of_sublist_of_mem_iff (same ▸ sublists exponent) (distinct exponent) ownMembers
    · rw [empty] at ownMembers ⊢
      rw [List.eq_nil_iff_forall_not_mem]
      intro index member
      simpa using (ownMembers index).mp member

/-! ## The block that is taken -/

/-- Splitting does not change the size of the tree. -/
theorem splitLoop_limit (rounds i bucket : Nat) :
    (splitLoop platform rounds i bucket state).bucketLimit = state.bucketLimit := by
  induction rounds generalizing i bucket state with
  | zero =>
      rfl
  | succ rounds inductionHypothesis =>
      simp only [splitLoop]
      exact inductionHypothesis _ _

/-- Nor does the use of a block that was found. -/
theorem allocateFrom_limit (request originalBucket bucket ptr : Nat) :
    (allocateFrom platform brk state request originalBucket bucket ptr).2.bucketLimit =
      state.bucketLimit := by
  simp only [allocateFrom]
  split
  · rfl
  · rename_i reserved updated
    obtain ⟨maxPtr, rfl⟩ := updateMaxPtr_some updated
    simp only [splitLoop_limit]
    split
    · rfl
    · rfl

/-- A search at the root either fails or grows the tree. -/
theorem Consistent.search_root_limit
    {request originalBucket ptr : Nat}
    {after : State}
    (consistent : Consistent platform state lists used)
    (empty : lists (31 - state.bucketLimit) = [])
    (found :
      Buddy.search platform brk request originalBucket state.bucketLimit state =
        (some ptr, after)) :
    after.bucketLimit < state.bucketLimit := by
  rcases Nat.eq_zero_or_pos state.bucketLimit with last | notLast
  · rw [last] at empty found
    rw [consistent.search_exhausted last empty] at found
    simp at found
  · rw [consistent.search_root notLast empty] at found
    cases updated :
        updateMaxPtr brk state (state.basePtr + 2 ^ (31 - state.bucketLimit) + 16) with
    | none =>
        simp [updated] at found
    | some reserved =>
        obtain ⟨maxPtr, rfl⟩ := updateMaxPtr_some updated
        simp only [updated] at found
        have limit := congrArg (fun result => result.2.bucketLimit) found
        simp only [allocateFrom_limit] at limit
        have grown : after.bucketLimit = state.bucketLimit - 1 := by
          rw [← limit]
          simp only [Buddy.growUsed, listRemove]
          split
          · rfl
          · rfl
        omega

/-- How a search within the tree ends that finds a block without making the tree grow. -/
theorem Consistent.search_inside_takes
    {request bucket ptr : Nat}
    {after : State}
    (consistent : Consistent platform state lists used)
    (inside : state.bucketLimit ≤ bucket)
    (smallest : bucket ≤ 27)
    (found :
      Buddy.search platform brk request bucket bucket state = (some ptr, after)) :
    after.bucketLimit < state.bucketLimit ∨
      after.bucketLimit = state.bucketLimit ∧
        ∃ block divided,
          31 - bucket ≤ block.exponent ∧
            Takes platform state lists used request block (block.exponent - (31 - bucket)) ptr
              after divided ∧
            ∀ exponent,
              31 - bucket ≤ exponent → exponent < block.exponent → lists exponent = [] := by
  obtain ⟨level, atLeast, atMost, skipped, stops⟩ := exists_stop lists inside
  rw [consistent.search_skips atLeast atMost smallest skipped] at found
  rcases List.eq_nil_or_concat' (lists (31 - level)) with empty | ⟨front, index, shape⟩
  · obtain rfl : level = state.bucketLimit := stops.resolve_right (not_not_intro empty)
    exact Or.inl (consistent.search_root_limit empty found)
  · rw [consistent.search_found atLeast (by omega) shape] at found
    have limit := congrArg (fun result => result.2.bucketLimit) found
    simp only [allocateFrom_limit] at limit
    have takes := @Consistent.allocateFrom_takes _ brk _ _ ⟨31 - level, index⟩ _ _ request bucket
      ptr after consistent shape (by simp only; omega) smallest
    simp only [start, Nat.sub_sub_self (show level ≤ 31 by omega)] at takes
    obtain ⟨divided, takes⟩ := takes found
    refine Or.inr ⟨limit.symm, ⟨31 - level, index⟩, divided, by simp only; omega, ?_, ?_⟩
    · rwa [show 31 - level - (31 - bucket) = bucket - level by omega]
    · intro exponent above below
      have empty := skipped (31 - exponent) (by simp only at below; omega) (by omega)
      rwa [Nat.sub_sub_self (by simp only at below; omega)] at empty

/-- How `bmalloc` took its block when it left the tree as large as it was. -/
theorem Consistent.bmalloc_takes
    {answers : Brk}
    {request ptr : Nat}
    {after : State}
    (consistent : Consistent platform state lists used)
    (returned : Buddy.bmalloc platform answers state request = (some ptr, after))
    (sameLimit : after.bucketLimit = state.bucketLimit) :
    ∃ block divided,
      31 - requestBucket request ≤ block.exponent ∧
        Takes platform state lists used request block
          (block.exponent - (31 - requestBucket request)) ptr after divided ∧
        ∀ exponent,
          31 - requestBucket request ≤ exponent →
          exponent < block.exponent →
          lists exponent = [] := by
  have setUp : state.basePtr ≠ 0 := by
    have base := consistent.base
    have behind := platform.behind
    omega
  rw [Buddy.bmalloc] at returned
  split at returned
  · simp at returned
  simp only at returned
  have smallest : requestBucket request ≤ 27 := bucketForRequest_le _
  obtain ⟨⟨lowered, grown⟩, _, reached⟩ :=
    @Consistent.lowerBucketLimit _ answers.later _ _ _ consistent (requestBucket request)
  cases outcome : Buddy.lowerBucketLimit platform answers.later state (requestBucket request) with
  | mk succeeded lower =>
      simp only [outcome] at grown reached
      cases succeeded with
      | false =>
          rw [← requestBucket, search_refused outcome] at returned
          simp at returned
      | true =>
          have lowerLimit := reached rfl
          have inside : lower.bucketLimit ≤ requestBucket request := by
            omega
          rw [← requestBucket, search_lower outcome inside] at returned
          by_cases within : state.bucketLimit ≤ requestBucket request
          · rw [lowerBucketLimit_of_le within, Prod.mk.injEq] at outcome
            obtain ⟨_, rfl⟩ := outcome
            rcases consistent.search_inside_takes within smallest returned with lower | ⟨_, takes⟩
            · omega
            · exact takes
          · rcases grown.search_inside_takes inside smallest returned with lower | ⟨same, _⟩
            · omega
            · omega

/-! ## The round trip -/

/-- The free lists, with their order, and the bits of two states are the same. -/
structure SameLists (platform : Platform) (first second : State) : Prop where
  limit : first.bucketLimit = second.bucketLimit
  lists :
    ∀ bucket,
      first.bucketLimit ≤ bucket →
      bucket ≤ 27 →
      ∃ freeList,
        Ring first.cells (bucketHead platform bucket) freeList ∧
          Ring second.cells (bucketHead platform bucket) freeList
  bits : ∀ index, splitBitAt first index = splitBitAt second index

/-- States of one heap look the same. -/
theorem Consistent.sameLists
    {other : State}
    {otherUsed : Set Block}
    (consistent : Consistent platform state lists used)
    (otherConsistent : Consistent platform other lists otherUsed)
    (sameLimit : state.bucketLimit = other.bucketLimit) :
    SameLists platform state other where
  limit := sameLimit
  lists := by
    intro bucket atLeast atMost
    have ring := consistent.rings (31 - bucket) (by omega) (by omega)
    have otherRing := otherConsistent.rings (31 - bucket) (by omega) (by omega)
    rw [Nat.sub_sub_self (by omega), consistent.base] at ring
    rw [Nat.sub_sub_self (by omega), otherConsistent.base] at otherRing
    exact ⟨_, ring, otherRing⟩
  bits := (consistent.sameFree otherConsistent sameLimit rfl).bits

/-- `bfree` undoes a `bmalloc` that left the tree as large as it was. -/
theorem Consistent.bmalloc_bfree
    {answers : Brk}
    {request ptr : Nat}
    {after : State}
    (consistent : Consistent platform state lists used)
    (returned : Buddy.bmalloc platform answers state request = (some ptr, after))
    (sameLimit : after.bucketLimit = state.bucketLimit) :
    SameLists platform state (Buddy.bfree platform after (some ptr)) := by
  obtain ⟨block, divided, large, takes, skipped⟩ := consistent.bmalloc_takes returned sameLimit
  have bucketMost : requestBucket request ≤ 27 := bucketForRequest_le _
  have limitKept := (@bfree_limit platform after (some ptr)).1
  generalize levelsEq : block.exponent - (31 - requestBucket request) = levels at takes
  have size : (descend block levels).exponent = 31 - requestBucket request := by
    simp only [descend]
    omega
  have start := @start_descend block levels (by omega)
  have base : after.basePtr = state.basePtr := takes.keeps.1
  have handAddress : ptr = after.basePtr + (descend block levels).start + 8 := by
    rw [start, base]
    exact takes.address
  have handHeader : after.cells.prev (after.basePtr + (descend block levels).start) = request := by
    rw [start, base]
    exact takes.header
  obtain ⟨bucket, number⟩ := takes.consistent.bfree_start handAddress handHeader size
  obtain ⟨before, merged, final, into, sublists, loop⟩ :=
    takes.consistent.mergeLoop takes.fresh (Nat.le_refl _)
  obtain ⟨released, kept⟩ := into.consistent.release_hand into.inHand into.buddyUsed
  have freed : Consistent platform (Buddy.bfree platform after (some ptr)) (pushed merged final)
      used := by
    simp only [Buddy.bfree, bucket, number, loop]
    exact released
  have sameHeap := freed.heap
  rw [limitKept, sameLimit] at sameHeap
  have restored : pushed merged final = lists := by
    refine pushed_eq_of_same_blocks takes.shape ?_ sublists consistent.lists_nodup
      freed.lists_nodup (sameHeap.free_unique consistent.heap)
    intro exponent different
    by_cases passed : 31 - requestBucket request ≤ exponent ∧ exponent < block.exponent
    · exact Or.inr (skipped exponent passed.1 passed.2)
    · exact Or.inl (takes.sameLists exponent (by omega))
  rw [restored] at freed
  exact consistent.sameLists freed (by rw [limitKept, sameLimit])

/--
In every reachable state of an allocator that is set up, a `bmalloc` that leaves the
bucket limit alone and the `bfree` of what it returned leave all free lists in their
order and all bits as they were.
-/
theorem bfree_undoes_bmalloc
    {answers : Brk}
    {memory : Links Nat}
    {request ptr : Nat}
    {after : State}
    (reachable : Reachable (Step platform) (World.initial memory) world)
    (setUp : world.state.basePtr ≠ 0)
    (returned : bmalloc platform answers world.state request = (some ptr, after))
    (sameLimit : after.bucketLimit = world.state.bucketLimit) :
    SameLists platform world.state (bfree platform after (some ptr)) := by
  obtain ⟨lists, consistent⟩ := (represented_of_reachable reachable setUp).heap
  exact consistent.bmalloc_bfree returned sameLimit

/-- The sample world after its first block is freed. -/
def emptiedWorld : World :=
  sampleWorld.afterFree samplePlatform (some 8200)

theorem emptiedWorld_reachable :
    Reachable (Step samplePlatform) (World.initial ⟨fun _ => 0, fun _ => 0⟩) emptiedWorld := by
  have step : Step samplePlatform sampleWorld (.bfree (some 8200)) emptiedWorld := by
    refine ⟨?_, rfl⟩
    intro address same
    obtain rfl := Option.some.inj same
    simp [sampleWorld_live]
  exact sampleWorld_reachable.next step

/-- A small request cuts the block of the sample heap in two, and its release joins them. -/
theorem bfree_undoes_bmalloc_emptiedWorld :
    SameLists samplePlatform emptiedWorld.state
      (bfree samplePlatform (bmalloc samplePlatform (.ofAddress always) emptiedWorld.state 8).2
        (some 8200)) := by
  have pointer :
      (bmalloc samplePlatform (.ofAddress always) emptiedWorld.state 8).1 = some 8200 := by
    decide +kernel
  have limit :
      (bmalloc samplePlatform (.ofAddress always) emptiedWorld.state 8).2.bucketLimit =
        emptiedWorld.state.bucketLimit := by
    decide +kernel
  generalize called :
    bmalloc samplePlatform (.ofAddress always) emptiedWorld.state 8 = result at pointer limit ⊢
  obtain ⟨ptr, after⟩ := result
  obtain rfl : ptr = some 8200 := pointer
  exact bfree_undoes_bmalloc emptiedWorld_reachable (by decide +kernel) called limit

end Sysprog.Buddy
