import Mathlib.Logic.Relation
import Sysprog.BuddyHistory

namespace Sysprog.Buddy

open CircularList DyadicBlocks Block Execution MachineWord

/-!
# Running out of memory

With a fixed end of the memory that `brk` grants, a failing `bmalloc` may leave a larger
tree behind.  While a block is live that does no harm.  A tree without live blocks is
enlarged without reserving memory, and a later small request must then reserve half of it.
-/

variable
  {platform : Platform}
  {limit request originalBucket bucket : Nat}
  {state : State}
  {lists : Nat → List Nat}
  {used : Set Block}

/-- `brk` succeeds for addresses up to a limit. -/
def granted (limit : Nat) : Nat → Bool :=
  fun address => address ≤ limit

/-- The highest address the allocator can use. -/
def reach (limit : Nat) (state : State) : Nat :=
  max state.maxPtr limit

/-- The bytes that `bmalloc` reserves in a block of a bucket to serve a request of another. -/
def bytesNeeded (bucket originalBucket : Nat) : Nat :=
  if bucket < originalBucket then 2 ^ (31 - bucket) / 2 + 16 else 2 ^ (31 - bucket)

/-! ## What is reached stays in reach -/

theorem updateMaxPtr_granted (newValue : Nat) :
    (updateMaxPtr (granted limit) state newValue).isSome ↔ newValue ≤ reach limit state := by
  rw [updateMaxPtr, granted, reach]
  by_cases above : newValue > state.maxPtr
  · by_cases below : newValue ≤ limit
    · simp [above, below]
    · simp [above, below]
  · simp [above]
    omega

theorem reach_updateMaxPtr
    {after : State}
    {newValue : Nat}
    (updated : updateMaxPtr (granted limit) state newValue = some after) :
    reach limit after = reach limit state := by
  rw [updateMaxPtr, granted] at updated
  by_cases above : newValue > state.maxPtr
  · by_cases below : newValue ≤ limit
    · simp only [above, below, decide_true, if_true, Option.some.injEq] at updated
      subst updated
      simp only [reach]
      omega
    · simp [above, below] at updated
  · simp only [above, if_false, Option.some.injEq] at updated
    rw [updated]

/-- A block found is used exactly when the bytes needed of it are in reach. -/
theorem allocateFrom_isSome (ptr : Nat) :
    (allocateFrom platform (granted limit) state request originalBucket bucket ptr).1.isSome ↔
      ptr + bytesNeeded bucket originalBucket ≤ reach limit state := by
  rw [← updateMaxPtr_granted]
  simp only [allocateFrom, bytesNeeded]
  split
  · rename_i refused
    simp [refused]
  · rename_i after reserved
    simp [reserved]

/-! ## A heap without live blocks -/

/-- A free tree grows to any bucket without asking for memory. -/
theorem Consistent.lowerLoop_free
    {brk : Nat → Bool}
    {rounds : Nat}
    (consistent : Consistent platform state (rootLists (31 - state.bucketLimit)) ∅)
    (enough : state.bucketLimit ≤ rounds)
    (bucket : Nat) :
    ∃ after,
      Buddy.lowerLoop platform brk bucket rounds state = (true, after) ∧
        after.bucketLimit = min state.bucketLimit bucket ∧
        after.maxPtr = state.maxPtr ∧
        after.basePtr = state.basePtr ∧
        Consistent platform after (rootLists (31 - after.bucketLimit)) ∅ := by
  induction rounds generalizing state with
  | zero =>
      exact ⟨state, rfl, by omega, rfl, rfl, consistent⟩
  | succ rounds inductionHypothesis =>
      by_cases lower : bucket < state.bucketLimit
      · have entirely : EntirelyFree (freeBlocks (rootLists (31 - state.bucketLimit)))
            (root (31 - state.bucketLimit)) := by
          rw [consistent.heap.entirelyFree_iff]
          exact ⟨root _, by rw [freeBlocks_rootLists]; rfl, .refl _⟩
        obtain ⟨returned, grown⟩ :=
          @Consistent.growFree _ brk _ _ _ consistent (by omega) entirely
        obtain ⟨after, loop, newLimit, sameMax, sameBase, final⟩ :=
          inductionHypothesis grown (show state.bucketLimit - 1 ≤ rounds by omega)
        refine ⟨after, ?_, ?_, sameMax, sameBase, final⟩
        · rw [Buddy.lowerLoop, if_pos lower, returned]
          exact loop
        · rw [newLimit]
          show min (state.bucketLimit - 1) bucket = _
          omega
      · exact ⟨state, lowerLoop_of_le (by omega) _, by omega, rfl, rfl, consistent⟩

/-- In a free tree the search ends at the root. -/
theorem Consistent.search_free
    {brk : Nat → Bool}
    (consistent : Consistent platform state (rootLists (31 - state.bucketLimit)) ∅)
    (inside : state.bucketLimit ≤ bucket)
    (smallest : bucket ≤ 27) :
    Buddy.search platform brk request originalBucket bucket state =
      Buddy.allocateFrom platform brk (listRemove state state.basePtr) request originalBucket
        state.bucketLimit state.basePtr := by
  have limitMost := consistent.limit
  have between : ∀ level, state.bucketLimit < level → level ≤ bucket →
      rootLists (31 - state.bucketLimit) (31 - level) = [] := by
    intro level below _
    rw [rootLists, if_neg (by omega)]
  have atRoot : rootLists (31 - state.bucketLimit) (31 - state.bucketLimit) = [] ++ [0] := by
    rw [rootLists, if_pos rfl, List.nil_append]
  rw [consistent.search_skips (Nat.le_refl _) inside smallest between,
    consistent.search_found (Nat.le_refl _) limitMost atRoot, Nat.zero_mul, Nat.add_zero]

/-- A request to a free tree enlarges it and needs the bytes of the new root. -/
theorem Consistent.search_unused
    (consistent : Consistent platform state (rootLists (31 - state.bucketLimit)) ∅)
    (smallest : bucket ≤ 27) :
    let result := Buddy.search platform (granted limit) request bucket bucket state
    (result.1.isSome ↔
        state.basePtr + bytesNeeded (min state.bucketLimit bucket) bucket ≤ reach limit state) ∧
      (result.1 = none →
        result.2.bucketLimit = min state.bucketLimit bucket ∧
          result.2.maxPtr = state.maxPtr ∧
          result.2.basePtr = state.basePtr ∧
          Consistent platform result.2 (rootLists (31 - result.2.bucketLimit)) ∅) := by
  obtain ⟨grown, lowered, newLimit, sameMax, sameBase, final⟩ :=
    @Consistent.lowerLoop_free _ _ (granted limit) _ consistent (Nat.le_refl _) bucket
  have inside : grown.bucketLimit ≤ bucket := by
    rw [newLimit]
    exact Nat.min_le_right _ _
  have shape : rootLists (31 - grown.bucketLimit) (root (31 - grown.bucketLimit)).exponent =
      [] ++ [(root (31 - grown.bucketLimit)).index] := by
    simp [rootLists, root]
  have address : grown.basePtr + (root (31 - grown.bucketLimit)).start = grown.basePtr := by
    simp [start, root]
  have atBucket : 31 - (root (31 - grown.bucketLimit)).exponent = grown.bucketLimit := by
    have most := final.limit
    simp only [root]
    omega
  intro result
  have taken : result = Buddy.allocateFrom platform (granted limit)
      (listRemove grown grown.basePtr) request bucket grown.bucketLimit grown.basePtr := by
    simp only [result]
    rw [search_lower lowered inside, final.search_free inside smallest]
  constructor
  · rw [taken, allocateFrom_isSome, newLimit, sameBase]
    simp only [reach, listRemove, sameMax]
  · intro failed
    have back : result.2 = grown := by
      have same : result = (none, result.2) := Prod.ext failed rfl
      rw [taken] at same
      have none := @Consistent.allocateFrom_none _ (granted limit) _ _
        (root (31 - grown.bucketLimit)) _ [] request bucket result.2 final shape
      rw [address, atBucket] at none
      exact none (by rw [same, taken])
    rw [back]
    exact ⟨newLimit, sameMax, sameBase, final⟩

/-! ## A heap with live blocks -/

/-- Rounds of `lower_bucket_limit`. -/
def Grown (platform : Platform) (brk : Nat → Bool) : State → State → Prop :=
  Relation.ReflTransGen fun before after =>
    0 < before.bucketLimit ∧ lowerOnce platform brk before = some after

/-- The loop of `lower_bucket_limit` does nothing but rounds. -/
theorem grown_lowerLoop
    {brk : Nat → Bool}
    (rounds : Nat) :
    Grown platform brk state (lowerLoop platform brk bucket rounds state).2 := by
  induction rounds generalizing state with
  | zero =>
      exact .refl
  | succ rounds inductionHypothesis =>
      rw [lowerLoop]
      split
      · rename_i lower
        cases round : lowerOnce platform brk state with
        | none =>
            exact .refl
        | some after =>
            exact .head ⟨by omega, round⟩ inductionHypothesis
      · exact .refl

/-- A heap with a used block is in use at its root. -/
theorem Consistent.inUse
    (consistent : Consistent platform state lists used)
    (nonempty : used.Nonempty) :
    ¬ EntirelyFree (freeBlocks lists) (root (31 - state.bucketLimit)) := by
  obtain ⟨block, member⟩ := nonempty
  exact consistent.heap.not_entirelyFree member
    (Or.inr (consistent.heap.tiles.within block (Or.inr member)))

/-- The root of a heap in use is in no free list. -/
theorem Consistent.root_empty
    (consistent : Consistent platform state lists used)
    (nonempty : used.Nonempty) :
    lists (31 - state.bucketLimit) = [] := by
  rw [List.eq_nil_iff_forall_not_mem]
  intro index member
  apply consistent.inUse nonempty
  rw [consistent.heap.entirelyFree_iff]
  have inFree : (⟨31 - state.bucketLimit, index⟩ : Block) ∈ freeBlocks lists := member
  have isRoot := (consistent.heap.tiles.within _ (Or.inl inFree)).eq_of_le (Nat.le_refl _)
  exact ⟨_, inFree, isRoot ▸ .refl _⟩

/-- A failing search in a heap in use leaves nothing but a larger tree behind. -/
theorem Consistent.grown_of_search_none
    {brk : Nat → Bool}
    {after : State}
    (consistent : Consistent platform state lists used)
    (nonempty : used.Nonempty)
    (inside : state.bucketLimit ≤ bucket)
    (smallest : bucket ≤ 27)
    (failed :
      Buddy.search platform brk request originalBucket bucket state = (none, after)) :
    Grown platform brk state after := by
  have limitMost := consistent.limit
  have atRoot : Buddy.search platform brk request originalBucket state.bucketLimit state =
      (none, after) → Grown platform brk state after := by
    intro none
    have empty := consistent.root_empty nonempty
    rcases Nat.eq_zero_or_pos state.bucketLimit with last | notLast
    · rw [last] at empty none
      rw [consistent.search_exhausted last empty, Prod.mk.injEq] at none
      rw [← none.2]
      exact .refl
    rw [consistent.search_root notLast empty] at none
    have round := @Consistent.lowerOnce_used _ brk _ _ _ consistent notLast
      (consistent.inUse nonempty)
    cases updated :
        updateMaxPtr brk state (state.basePtr + 2 ^ (31 - state.bucketLimit) + 16) with
    | none =>
        simp only [updated, Prod.mk.injEq, true_and] at none
        rw [← none]
        exact .refl
    | some reserved =>
        simp only [updated] at none
        rw [updated, Option.map_some] at round
        obtain ⟨maxPtr, rfl⟩ := updateMaxPtr_some updated
        obtain ⟨_, _, grown, kept⟩ :=
          consistent.growUsed notLast (consistent.inUse nonempty) maxPtr
        have shape : pushed lists ⟨31 - state.bucketLimit, 1⟩ (31 - state.bucketLimit) =
            [] ++ [1] := by
          simp [pushed, empty]
        have same := @Consistent.allocateFrom_none _ brk _ _
          ⟨31 - state.bucketLimit, 1⟩ _ [] request originalBucket after grown shape
        simp only [start, Nat.one_mul, kept.1,
          Nat.sub_sub_self (show state.bucketLimit ≤ 31 by omega)] at same
        rw [same none]
        exact .single ⟨notLast, round⟩
  obtain ⟨level, atLeast, atMost, skipped, stops⟩ := exists_stop lists inside
  rw [consistent.search_skips atLeast atMost smallest skipped] at failed
  rcases stops with same | nonemptyList
  · exact atRoot (same ▸ failed)
  · obtain ⟨front, index, shape⟩ :=
      (List.eq_nil_or_concat' (lists (31 - level))).resolve_left nonemptyList
    rw [consistent.search_found atLeast (by omega) shape] at failed
    have unchanged := @Consistent.allocateFrom_none _ brk _ _ ⟨31 - level, index⟩ _ front request
      originalBucket after consistent shape
    simp only [start, Nat.sub_sub_self (show level ≤ 31 by omega)] at unchanged
    rw [unchanged failed]
    exact .refl

/-- Below the old root, a round of growth does not change whether a request is served. -/
theorem Consistent.search_inside_grown
    {after : State}
    {lowered : Nat → List Nat}
    (consistent : Consistent platform state lists used)
    (grown : Consistent platform after lowered used)
    (sameLists : ∀ exponent, exponent < 31 - state.bucketLimit → lowered exponent = lists exponent)
    (sameBase : after.basePtr = state.basePtr)
    (sameReach : reach limit after = reach limit state)
    (newLimit : after.bucketLimit < state.bucketLimit)
    (atRoot :
      (Buddy.search platform (granted limit) request originalBucket state.bucketLimit
          state).1.isSome ↔
        (Buddy.search platform (granted limit) request originalBucket state.bucketLimit
          after).1.isSome)
    (inside : state.bucketLimit ≤ bucket)
    (smallest : bucket ≤ 27) :
    (Buddy.search platform (granted limit) request originalBucket bucket state).1.isSome ↔
      (Buddy.search platform (granted limit) request originalBucket bucket after).1.isSome := by
  obtain ⟨level, atLeast, atMost, skipped, stops⟩ := exists_stop lists inside
  have sameList : ∀ between, state.bucketLimit < between → between ≤ 27 →
      lowered (31 - between) = lists (31 - between) := by
    intro between below _
    exact sameLists _ (by omega)
  have alsoSkipped : ∀ between, level < between → between ≤ bucket →
      lowered (31 - between) = [] := by
    intro between above most
    rw [sameList between (by omega) (by omega)]
    exact skipped between above most
  rw [consistent.search_skips atLeast atMost smallest skipped,
    grown.search_skips (by omega) atMost smallest alsoSkipped]
  by_cases same : level = state.bucketLimit
  · rw [same]
    exact atRoot
  · obtain ⟨front, index, shape⟩ :=
      (List.eq_nil_or_concat' (lists (31 - level))).resolve_left (stops.resolve_left same)
    have reaches : ∀ (some : State) (entry : Nat),
        reach limit (listRemove some entry) = reach limit some := fun _ _ => rfl
    rw [consistent.search_found atLeast (by omega) shape,
      grown.search_found (by omega) (by omega)
        ((sameList level (by omega) (by omega)).trans shape),
      allocateFrom_isSome, allocateFrom_isSome, sameBase, reaches, reaches, sameReach]

/-- A round of growth of a heap in use does not change which requests are served. -/
theorem Consistent.search_grown
    {after : State}
    (consistent : Consistent platform state lists used)
    (nonempty : used.Nonempty)
    (notLast : 0 < state.bucketLimit)
    (round : Buddy.lowerOnce platform (granted limit) state = some after)
    (smallest : bucket ≤ 27) :
    (Buddy.search platform (granted limit) request bucket bucket state).1.isSome ↔
      (Buddy.search platform (granted limit) request bucket bucket after).1.isSome := by
  have limitMost := consistent.limit
  have newLimit := (consistent.lowerOnce notLast round).1
  by_cases outside : bucket < state.bucketLimit
  · -- The search would do the same round first.
    have same : Buddy.lowerBucketLimit platform (granted limit) state bucket =
        Buddy.lowerBucketLimit platform (granted limit) after bucket := by
      obtain ⟨rounds, shape⟩ := Nat.exists_eq_succ_of_ne_zero (Nat.ne_of_gt notLast)
      rw [Buddy.lowerBucketLimit, Buddy.lowerBucketLimit, newLimit, shape, Buddy.lowerLoop,
        if_pos outside, round, Nat.succ_sub_one]
    obtain ⟨next, unfolded⟩ :=
      search_eq_searchRound platform (granted limit) request bucket bucket
    rw [unfolded, unfolded, searchRound, searchRound, same]
  have inside : state.bucketLimit ≤ bucket := by omega
  have empty := consistent.root_empty nonempty
  have inUse := consistent.inUse nonempty
  rw [consistent.lowerOnce_used notLast inUse, Option.map_eq_some_iff] at round
  obtain ⟨reserved, updated, rfl⟩ := round
  have sameReach := reach_updateMaxPtr updated
  obtain ⟨maxPtr, rfl⟩ := updateMaxPtr_some updated
  obtain ⟨_, newMax, grown, kept⟩ := consistent.growUsed notLast inUse maxPtr
  have shape : pushed lists ⟨31 - state.bucketLimit, 1⟩ (31 - state.bucketLimit) = [] ++ [1] := by
    simp [pushed, empty]
  refine consistent.search_inside_grown grown ?_ kept.1 ?_ (by omega) ?_ inside smallest
  · intro exponent below
    exact Function.update_of_ne (Nat.ne_of_lt below) _ _
  · rw [← sameReach]
    simp only [reach, newMax]
  · rw [consistent.search_root notLast empty, updated,
      grown.search_found (by omega) limitMost shape]
    simp only [Nat.one_mul, kept.1]

/-- However far a heap in use grows, the same requests are served. -/
theorem Consistent.search_all_grown
    {after : State}
    (consistent : Consistent platform state lists used)
    (nonempty : used.Nonempty)
    (grows : Grown platform (granted limit) state after)
    (smallest : bucket ≤ 27) :
    (∃ grown, Consistent platform after grown used) ∧
      ((Buddy.search platform (granted limit) request bucket bucket state).1.isSome ↔
        (Buddy.search platform (granted limit) request bucket bucket after).1.isSome) := by
  induction grows with
  | refl =>
      exact ⟨⟨lists, consistent⟩, Iff.rfl⟩
  | tail _ last inductionHypothesis =>
      obtain ⟨notLast, round⟩ := last
      obtain ⟨⟨between, middle⟩, same⟩ := inductionHypothesis
      exact ⟨(middle.lowerOnce notLast round).2.1,
        same.trans (middle.search_grown nonempty notLast round smallest)⟩

/-! ## A failed request and the next one -/

/-- A request that would have been served still is after another one failed. -/
def Survives (platform : Platform) (limit : Nat) (state : State) (failed later : Nat) : Prop :=
  let answers := Brk.ofAddress (granted limit)
  (bmalloc platform answers state failed).1 = none →
  (bmalloc platform answers state later).1.isSome →
  (bmalloc platform answers (bmalloc platform answers state failed).2 later).1.isSome

/-- The root's bucket, which the first call sets to that of the smallest block. -/
def treeLimit (world : World) : Nat :=
  if world.state.basePtr = 0 then 27 else world.state.bucketLimit

/-- The end of the memory in use or to be had. -/
def memoryEnd (platform : Platform) (limit : Nat) (world : World) : Nat :=
  max (if world.state.basePtr = 0 then platform.programBreak else world.state.maxPtr) limit

/--
Nothing is live, the failed request asks for more than the whole tree, and the memory is
enough for the later, smaller one in the tree as it is, but not for splitting a tree of
the size the failed request wanted.
-/
structure Overgrows
    (platform : Platform)
    (limit : Nat)
    (world : World)
    (failed later : Nat) : Prop where
  failedFits : add failed 8 ≤ 2 ^ 31
  laterFits : add later 8 ≤ 2 ^ 31
  unused : ∀ ptr, world.live ptr = none
  larger : requestBucket failed < treeLimit world
  smaller : requestBucket failed < requestBucket later
  served :
    platform.programBreak +
        bytesNeeded (min (treeLimit world) (requestBucket later)) (requestBucket later) ≤
      memoryEnd platform limit world
  half :
    memoryEnd platform limit world <
      platform.programBreak + bytesNeeded (requestBucket failed) (requestBucket later)

section FailedSearch

variable {first second firstRequest secondRequest : Nat}

/-- A heap with live blocks loses nothing by a failed request. -/
theorem Consistent.survives_used
    (consistent : Consistent platform state lists used)
    (nonempty : used.Nonempty)
    (firstMost : first ≤ 27)
    (secondMost : second ≤ 27)
    (failed :
      (Buddy.search platform (granted limit) firstRequest first first state).1 = none)
    (served :
      (Buddy.search platform (granted limit) secondRequest second second state).1.isSome) :
    (Buddy.search platform (granted limit) secondRequest second second
      (Buddy.search platform (granted limit) firstRequest first first state).2).1.isSome := by
  have grows : Grown platform (granted limit) state
      (Buddy.search platform (granted limit) firstRequest first first state).2 := by
    obtain ⟨⟨lowered, grown⟩, _, reached⟩ :=
      @Consistent.lowerBucketLimit _ (granted limit) _ _ _ consistent first
    have rounds : Grown platform (granted limit) state
        (Buddy.lowerBucketLimit platform (granted limit) state first).2 := grown_lowerLoop _
    cases outcome : Buddy.lowerBucketLimit platform (granted limit) state first with
    | mk succeeded middle =>
        simp only [outcome] at grown reached rounds
        cases succeeded with
        | false =>
            rw [search_refused outcome]
            exact rounds
        | true =>
            have inside : middle.bucketLimit ≤ first := by
              rw [reached rfl]
              exact Nat.min_le_right _ _
            rw [search_lower outcome inside] at failed ⊢
            exact rounds.trans
              (grown.grown_of_search_none nonempty inside firstMost (Prod.ext failed rfl))
  exact ((consistent.search_all_grown nonempty grows secondMost).2).mp served

/-- A heap without live blocks loses a request exactly when its tree becomes too large. -/
theorem Consistent.survives_unused_iff
    (consistent : Consistent platform state (rootLists (31 - state.bucketLimit)) ∅)
    (firstMost : first ≤ 27)
    (secondMost : second ≤ 27) :
    ((Buddy.search platform (granted limit) firstRequest first first state).1 = none →
        (Buddy.search platform (granted limit) secondRequest second second state).1.isSome →
        (Buddy.search platform (granted limit) secondRequest second second
          (Buddy.search platform (granted limit) firstRequest first first state).2).1.isSome) ↔
      ¬ (first < state.bucketLimit ∧
        first < second ∧
        state.basePtr + bytesNeeded (min state.bucketLimit second) second ≤ reach limit state ∧
        reach limit state < state.basePtr + bytesNeeded first second) := by
  have limitMost := consistent.limit
  obtain ⟨firstServed, firstFailed⟩ :=
    @Consistent.search_unused _ limit firstRequest _ _ consistent firstMost
  obtain ⟨secondServed, _⟩ :=
    @Consistent.search_unused _ limit secondRequest _ _ consistent secondMost
  generalize Buddy.search platform (granted limit) firstRequest first first state = result
    at firstServed firstFailed ⊢
  have again : result.1 = none →
      ((Buddy.search platform (granted limit) secondRequest second second result.2).1.isSome ↔
        state.basePtr + bytesNeeded (min (min state.bucketLimit first) second) second ≤
          reach limit state) := by
    intro failed
    obtain ⟨newLimit, sameMax, sameBase, final⟩ := firstFailed failed
    rw [(@Consistent.search_unused _ limit secondRequest _ _ final secondMost).1, newLimit,
      sameBase]
    simp only [reach, sameMax]
  have failedIff : result.1 = none ↔
      ¬ state.basePtr + bytesNeeded (min state.bucketLimit first) first ≤ reach limit state := by
    rw [← firstServed, Option.not_isSome_iff_eq_none]
  constructor
  · rintro survives ⟨larger, smaller, served, half⟩
    have whole : bytesNeeded first second ≤ bytesNeeded (min state.bucketLimit first) first := by
      have wide : 2 ^ 5 ≤ 2 ^ (31 - first) :=
        Nat.pow_le_pow_right (by decide) (by omega)
      rw [Nat.min_eq_right (Nat.le_of_lt larger)]
      simp only [bytesNeeded, if_pos smaller, Nat.lt_irrefl, if_false]
      omega
    have failed := failedIff.mpr (by omega)
    have final := (again failed).mp (survives failed (secondServed.mpr served))
    rw [Nat.min_eq_right (Nat.le_of_lt larger), Nat.min_eq_left (Nat.le_of_lt smaller)] at final
    omega
  · intro notOvergrown failed served
    rw [secondServed] at served
    rw [again failed]
    rcases Nat.lt_or_ge first state.bucketLimit with larger | inTree
    · rw [Nat.min_eq_right (Nat.le_of_lt larger)]
      rcases Nat.lt_or_ge first second with smaller | atLeast
      · rw [Nat.min_eq_left (Nat.le_of_lt smaller)]
        by_contra beyond
        exact notOvergrown ⟨larger, smaller, served, by omega⟩
      · rw [Nat.min_eq_right atLeast]
        rwa [Nat.min_eq_right (by omega)] at served
    · rwa [Nat.min_eq_left inTree]

end FailedSearch

/-- What the first call can reach. -/
theorem reach_initialise :
    reach limit (initialise platform (granted limit) state) = max platform.programBreak limit := by
  rw [initialise]
  simp only
  generalize outcome :
    updateMaxPtr (granted limit)
      { state with
        basePtr := platform.programBreak, maxPtr := platform.programBreak, bucketLimit := 27 }
      (platform.programBreak + 16) = reserved
  cases reserved with
  | none =>
      rfl
  | some after =>
      exact reach_updateMaxPtr outcome

/-- A request that fits is a search, once the heap is set up. -/
theorem bmalloc_eq_search
    {answers : Brk}
    (setUp : state.basePtr ≠ 0)
    (fits : add request 8 ≤ 2 ^ 31) :
    bmalloc platform answers state request =
      search platform answers.later request (requestBucket request) (requestBucket request)
        state := by
  rw [bmalloc, if_neg (by omega)]
  simp only [if_neg setUp]
  rfl

/-- Requests from a reachable state are searches in one heap. -/
theorem Invariant.prepared
    {world : World}
    (invariant : Invariant platform world) :
    ∃ prepared lists,
      (∀ request,
        add request 8 ≤ 2 ^ 31 →
        bmalloc platform (.ofAddress (granted limit)) world.state request =
          search platform (granted limit) request (requestBucket request) (requestBucket request)
            prepared) ∧
        Consistent platform prepared lists (liveBlocks platform world.live) ∧
        prepared.bucketLimit = treeLimit world ∧
        reach limit prepared = memoryEnd platform limit world := by
  rcases invariant with untouched | ⟨⟨lists, consistent⟩, _⟩
  · refine ⟨initialise platform (granted limit) world.state, rootLists 4, ?_, ?_, ?_, ?_⟩
    · intro request fits
      rw [bmalloc, if_neg (by omega)]
      simp only [untouched.base, if_true]
      rfl
    · rw [liveBlocks_empty untouched.live]
      exact consistent_initialise untouched.clear untouched.removals
    · obtain ⟨maxPtr, shape⟩ := @initialise_eq platform (granted limit) world.state
      rw [shape, treeLimit, if_pos untouched.base]
    · rw [reach_initialise, memoryEnd, if_pos untouched.base]
  · have setUp : world.state.basePtr ≠ 0 := by
      have base := consistent.base
      have behind := platform.behind
      omega
    refine ⟨world.state, lists, ?_, consistent, ?_, ?_⟩
    · intro request fits
      exact bmalloc_eq_search setUp fits
    · rw [treeLimit, if_neg setUp]
    · rw [memoryEnd, if_neg setUp, reach]

/-- Without used blocks the root is the only free block. -/
theorem Consistent.lists_of_unused
    (consistent : Consistent platform state lists ∅) :
    lists = rootLists (31 - state.bucketLimit) := by
  refine (consistent.lists_eq_rootLists ?_).1
  intro offset holds
  have covered := consistent.heap.tiles.covers offset (holds_root.mp holds)
  rwa [Set.union_empty] at covered

/-- A request for more than the largest block fails at once. -/
private theorem bmalloc_tooLarge
    {answers : Brk}
    (tooLarge : ¬ add request 8 ≤ 2 ^ 31) :
    bmalloc platform answers state request = (none, state) := by
  rw [bmalloc, if_pos (by omega)]

/-- A request after a failed one is a search in the heap that the failed one leaves behind. -/
private theorem Consistent.bmalloc_after_failed
    {failed later : Nat}
    (consistent : Consistent platform state lists used)
    (laterFits : add later 8 ≤ 2 ^ 31)
    (none :
      (Buddy.search platform (granted limit) failed (requestBucket failed)
        (requestBucket failed) state).1 = none) :
    Buddy.bmalloc platform (.ofAddress (granted limit))
        (Buddy.search platform (granted limit) failed (requestBucket failed)
          (requestBucket failed) state).2 later =
      Buddy.search platform (granted limit) later (requestBucket later) (requestBucket later)
        (Buddy.search platform (granted limit) failed (requestBucket failed)
          (requestBucket failed) state).2 := by
  have failedMost : requestBucket failed ≤ 27 := bucketForRequest_le _
  have left := @Consistent.search _ (granted limit) _ _ _ failed _ consistent failedMost
  have base := consistent.base
  generalize Buddy.search platform (granted limit) failed (requestBucket failed)
    (requestBucket failed) state = result at none left ⊢
  obtain ⟨_, after⟩ := result
  obtain rfl := none
  refine bmalloc_eq_search ?_ laterFits
  have behind := platform.behind
  have kept := left.2.1
  simp only at kept ⊢
  omega

/-- For two requests that fit, surviving is about searches in the prepared heap. -/
private theorem Consistent.survives_iff_searches
    {prepared : State}
    {failed later : Nat}
    (consistent : Consistent platform prepared lists used)
    (searches :
      ∀ request,
        add request 8 ≤ 2 ^ 31 →
        Buddy.bmalloc platform (.ofAddress (granted limit)) state request =
          Buddy.search platform (granted limit) request (requestBucket request)
            (requestBucket request) prepared)
    (failedFits : add failed 8 ≤ 2 ^ 31)
    (laterFits : add later 8 ≤ 2 ^ 31) :
    Survives platform limit state failed later ↔
      ((Buddy.search platform (granted limit) failed (requestBucket failed)
          (requestBucket failed) prepared).1 = none →
        (Buddy.search platform (granted limit) later (requestBucket later)
          (requestBucket later) prepared).1.isSome →
        (Buddy.search platform (granted limit) later (requestBucket later)
          (requestBucket later)
          (Buddy.search platform (granted limit) failed (requestBucket failed)
            (requestBucket failed) prepared).2).1.isSome) := by
  rw [Survives, searches failed failedFits, searches later laterFits]
  constructor
  · intro survives none served
    rw [← consistent.bmalloc_after_failed laterFits none]
    exact survives none served
  · intro survives none served
    rw [consistent.bmalloc_after_failed laterFits none]
    exact survives none served

/--
With a fixed end of memory, a request that a reachable allocator would have served is
still served after a failed one, except when the failed one left a larger free tree.
-/
theorem survives_iff_not_overgrows
    {memory : Links Nat}
    {world : World}
    (reachable : Reachable (Step platform) (World.initial memory) world)
    (limit failed later : Nat) :
    Survives platform limit world.state failed later ↔
      ¬ Overgrows platform limit world failed later := by
  by_cases failedFits : add failed 8 ≤ 2 ^ 31
  case neg =>
    refine iff_of_true ?_ fun overgrows => failedFits overgrows.failedFits
    intro _ served
    rw [bmalloc_tooLarge failedFits]
    exact served
  by_cases laterFits : add later 8 ≤ 2 ^ 31
  case neg =>
    refine iff_of_true ?_ fun overgrows => laterFits overgrows.laterFits
    intro _ served
    rw [bmalloc_tooLarge laterFits] at served
    simp at served
  obtain ⟨prepared, lists, searches, consistent, rootBucket, memory⟩ :=
    @Invariant.prepared _ limit _ (invariant_reachable reachable)
  have base := consistent.base
  have failedMost : requestBucket failed ≤ 27 := bucketForRequest_le _
  have laterMost : requestBucket later ≤ 27 := bucketForRequest_le _
  rw [consistent.survives_iff_searches searches failedFits laterFits]
  by_cases unused : ∀ ptr, world.live ptr = none
  · rw [liveBlocks_empty unused] at consistent
    obtain rfl := consistent.lists_of_unused
    rw [consistent.survives_unused_iff failedMost laterMost, rootBucket, memory, base]
    constructor
    · rintro notAll ⟨_, _, _, larger, smaller, served, half⟩
      exact notAll ⟨larger, smaller, served, half⟩
    · rintro notAll ⟨larger, smaller, served, half⟩
      exact notAll ⟨failedFits, laterFits, unused, larger, smaller, served, half⟩
  · have nonempty : (liveBlocks platform world.live).Nonempty := by
      obtain ⟨ptr, isLive⟩ := not_forall.mp unused
      obtain ⟨request, isLive⟩ := Option.ne_none_iff_exists'.mp isLive
      exact ⟨_, ptr, request, isLive, rfl⟩
    refine iff_of_true ?_ fun overgrows => unused overgrows.unused
    exact consistent.survives_used nonempty failedMost laterMost

theorem survives_sampleWorld : Survives samplePlatform 8400 sampleWorld.state (2 ^ 31 - 8) 8 :=
  (survives_iff_not_overgrows sampleWorld_reachable 8400 (2 ^ 31 - 8) 8).mpr fun overgrows =>
    absurd (overgrows.unused 8200) (by decide +kernel)

/-- A fresh allocator with 16 bytes of memory: a request for all of the range spoils it. -/
theorem failed_request_spoils_later :
    let world := World.initial ⟨fun _ => 0, fun _ => 0⟩
    Reachable (Step samplePlatform) (World.initial ⟨fun _ => 0, fun _ => 0⟩) world ∧
      ¬ Survives samplePlatform 8208 world.state (2 ^ 31 - 8) 8 := by
  refine ⟨Reachable.refl, ?_⟩
  rw [Survives]
  decide +kernel

end Sysprog.Buddy
