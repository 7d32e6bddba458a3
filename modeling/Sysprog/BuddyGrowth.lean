import Sysprog.BuddyHeap

namespace Sysprog.Buddy

open CircularList DyadicBlocks Block MachineWord

/-!
# Growth of the tree

The first call sets up a heap of one smallest block; `lower_bucket_limit` doubles the
heap until its root lies in the wanted bucket or `brk` refuses.
-/

variable
  {platform : Platform}
  {brk : Nat → Bool}
  {state : State}
  {lists : Nat → List Nat}
  {used : Set Block}

/-- The free lists of a heap that is one free block. -/
def rootLists (top : Nat) : Nat → List Nat :=
  fun exponent => if exponent = top then [0] else []

theorem freeBlocks_rootLists (top : Nat) : freeBlocks (rootLists top) = {root top} := by
  ext block
  obtain ⟨exponent, index⟩ := block
  simp only [mem_freeBlocks, rootLists, root, Set.mem_singleton_iff, Block.mk.injEq]
  by_cases same : exponent = top
  · simp [same]
  · simp [same]

/-- A state with the root as its only free block. -/
theorem consistent_rootLists
    (base : state.basePtr = platform.programBreak)
    (limit : state.bucketLimit ≤ 27)
    (rings :
      RingsMatch platform state.cells state.basePtr (31 - state.bucketLimit)
        (rootLists (31 - state.bucketLimit)))
    (clear :
      BitsMatch state (31 - state.bucketLimit) {root (31 - state.bucketLimit)})
    (removals : ∀ removal ∈ state.removals, removal.Sound platform) :
    Consistent platform state (rootLists (31 - state.bucketLimit)) ∅ where
  base := base
  limit := limit
  heap := by
    rw [freeBlocks_rootLists]
    exact .single _
  smallest := by
    rw [freeBlocks_rootLists]
    intro block member
    rw [Set.union_empty, Set.mem_singleton_iff] at member
    rw [member]
    simp only [root]
    omega
  rings := rings
  bits := by
    rw [freeBlocks_rootLists]
    exact clear
  removals := removals

/-- No bit is set, whatever the size of the only free block. -/
theorem BitsMatch.of_root
    {top : Nat}
    (clear : BitsMatch state top {root top})
    (newTop : Nat) :
    BitsMatch state newTop {root newTop} where
  nodes := by
    intro node inside large
    rw [clear.nodes node inside large]
    have before := @Heap.splitBit_single top node (by omega)
    have after := @Heap.splitBit_single newTop node (by omega)
    exact iff_of_false before after
  rest := clear.rest

/-- When the root is entirely free, it is the only entry of the free lists. -/
theorem Consistent.lists_eq_rootLists
    (consistent : Consistent platform state lists used)
    (entirely : EntirelyFree (freeBlocks lists) (root (31 - state.bucketLimit))) :
    lists = rootLists (31 - state.bucketLimit) ∧ used = ∅ := by
  have limit := consistent.limit
  obtain ⟨single, nothing⟩ := consistent.heap.eq_single entirely
  refine ⟨?_, nothing⟩
  have only : ∀ exponent, ∀ index ∈ lists exponent,
      exponent = 31 - state.bucketLimit ∧ index = 0 := by
    intro exponent index member
    have inFree : (⟨exponent, index⟩ : Block) ∈ freeBlocks lists := member
    rw [single, Set.mem_singleton_iff, root, Block.mk.injEq] at inFree
    exact inFree
  funext exponent
  by_cases atRoot : exponent = 31 - state.bucketLimit
  · subst atRoot
    have inList : (0 : Nat) ∈ lists (31 - state.bucketLimit) := by
      have inFree : root (31 - state.bucketLimit) ∈ freeBlocks lists := by
        rw [single]
        rfl
      exact inFree
    have distinct := consistent.nodup (show 4 ≤ 31 - state.bucketLimit by omega) (Nat.le_refl _)
    rw [rootLists, if_pos rfl]
    apply List.perm_singleton.mp
    rw [List.perm_ext_iff_of_nodup distinct (by simp)]
    intro index
    rw [List.mem_singleton]
    exact ⟨fun member => (only _ index member).2, fun same => same ▸ inList⟩
  · rw [rootLists, if_neg atRoot, List.eq_nil_iff_forall_not_mem]
    intro index member
    exact atRoot (only exponent index member).1

/-- The node number of the root. -/
theorem Consistent.nodeForPtr_root (consistent : Consistent platform state lists used) :
    nodeForPtr state state.basePtr state.bucketLimit =
      nodeIndex (root (31 - state.bucketLimit)) := by
  have limit := consistent.limit
  have node := @nodeForPtr_start state (root (31 - state.bucketLimit)) (by simp [root])
  simpa [start, root, Nat.sub_sub_self (show state.bucketLimit ≤ 31 by omega)] using node

/-- The bit above the root tells whether the heap is in use. -/
theorem Consistent.parentIsSplit_root
    (consistent : Consistent platform state lists used)
    (notLast : 0 < state.bucketLimit) :
    parentIsSplit state (nodeIndex (root (31 - state.bucketLimit))) = true ↔
      ¬ EntirelyFree (freeBlocks lists) (root (31 - state.bucketLimit)) := by
  have limit := consistent.limit
  have number := @nodeIndex_parent (root (31 - state.bucketLimit)) (by simp [root]; omega)
  rw [parent_root] at number
  rw [parentIsSplit, number, ← splitBit_above]
  apply consistent.bits.nodes
  · rw [within_root]
    simp [root]
    omega
  · simp [root]
    omega

/-- A free root is doubled in place. -/
theorem Consistent.growFree
    (consistent : Consistent platform state lists used)
    (notLast : 0 < state.bucketLimit)
    (entirely : EntirelyFree (freeBlocks lists) (root (31 - state.bucketLimit))) :
    lowerOnce platform brk state = some (growFree platform state) ∧
      Consistent platform (Buddy.growFree platform state)
        (rootLists (31 - (state.bucketLimit - 1))) ∅ := by
  have limit := consistent.limit
  have notSplit : parentIsSplit state (nodeIndex (root (31 - state.bucketLimit))) = false := by
    rw [← Bool.not_eq_true, consistent.parentIsSplit_root notLast]
    exact not_not_intro entirely
  refine ⟨by rw [lowerOnce, consistent.nodeForPtr_root, if_pos notSplit], ?_⟩
  obtain ⟨shape, rfl⟩ := consistent.lists_eq_rootLists entirely
  subst shape
  generalize topEq : 31 - state.bucketLimit = top at *
  have newTop : 31 - (state.bucketLimit - 1) = top + 1 := by omega
  have newBucket : 31 - (top + 1) = state.bucketLimit - 1 := by omega
  have atStart : ∀ exponent, state.basePtr + (root exponent).start = state.basePtr := by
    intro exponent
    simp [start, root]
  have rootFree : root top ∈ freeBlocks (rootLists top) := by
    rw [freeBlocks_rootLists]
    rfl
  have atRoot : rootLists top (root top).exponent = [] ++ (root top).index :: [] := by
    simp [rootLists, root]
  have emptied : freeBlocks (Function.update (rootLists top) (root top).exponent ([] ++ [])) =
      ∅ := by
    rw [freeBlocks_removed atRoot (by simp [atRoot]), freeBlocks_rootLists]
    simp
  have filled : pushed (Function.update (rootLists top) (root top).exponent ([] ++ []))
      (root (top + 1)) = rootLists (top + 1) := by
    funext exponent
    by_cases atTop : exponent = top + 1
    · simp [pushed, rootLists, root, atTop]
    · simp [pushed, rootLists, root, atTop, Function.update_apply]
  have rings := consistent.rings
  rw [topEq] at rings
  have removed := rings.remove consistent.base (by omega) consistent.freeApart
    (by simp [root]; omega) (by simp [root]) atRoot
  have grown := removed.grow consistent.base (by omega) (by omega) (by simp [rootLists, root])
  have completed := @RingsMatch.push _ _ _ (root (top + 1)) _ _ grown consistent.base (by omega)
    (by rw [emptied]; rintro _ ⟨⟩) (by simp [root]; omega) (by simp [root])
    (by rw [emptied]; rintro _ ⟨⟩)
  rw [filled, atStart, atStart, show (root (top + 1)).exponent = top + 1 from rfl,
    newBucket] at completed
  have clear := consistent.bits
  rw [topEq, freeBlocks_rootLists] at clear
  have sound := consistent.removal_sound rootFree
  rw [atStart, show (root top).exponent = top from rfl, ← topEq,
    Nat.sub_sub_self (by omega)] at sound
  refine @consistent_rootLists _ (Buddy.growFree platform state) consistent.base
    (show state.bucketLimit - 1 ≤ 27 by omega) ?_ ?_ ?_
  · change RingsMatch _ _ _ (31 - (state.bucketLimit - 1)) (rootLists (31 - (state.bucketLimit - 1)))
    rw [newTop]
    exact completed
  · have kept : BitsMatch (Buddy.growFree platform state) top {root top} := clear.congr rfl
    exact kept.of_root _
  · intro removal recorded
    rcases List.mem_cons.mp recorded with rfl | earlier
    · exact sound
    · exact consistent.removals removal earlier

/-- What growth needs when the heap is in use: room for one list entry behind the root. -/
theorem Consistent.rightChild_address
    (consistent : Consistent platform state lists used) :
    ptrForNode state (nodeIndex (root (31 - state.bucketLimit)) + 1) state.bucketLimit =
      state.basePtr + 2 ^ (31 - state.bucketLimit) := by
  have limit := consistent.limit
  have address := @ptrForNode_nodeIndex state ⟨31 - state.bucketLimit, 1⟩ (by simp)
  simpa [nodeIndex, root, start, Nat.sub_sub_self (show state.bucketLimit ≤ 31 by omega)]
    using address

/-- A heap in use gets a free second half. -/
theorem Consistent.growUsed
    (consistent : Consistent platform state lists used)
    (notLast : 0 < state.bucketLimit)
    (inUse : ¬ EntirelyFree (freeBlocks lists) (root (31 - state.bucketLimit)))
    (maxPtr : Nat) :
    let after :=
      growUsed platform { state with maxPtr := maxPtr }
        (nodeIndex (root (31 - state.bucketLimit)))
        (state.basePtr + 2 ^ (31 - state.bucketLimit))
    after.bucketLimit = state.bucketLimit - 1 ∧
      after.maxPtr = maxPtr ∧
      Consistent platform after (pushed lists ⟨31 - state.bucketLimit, 1⟩) used ∧
      Keeps used state after := by
  intro after
  have limit := consistent.limit
  have heap := consistent.heap.double inUse
  have flips := consistent.heap.splitBit_double inUse
  have bits := consistent.bits
  have rings := consistent.rings
  have inside := consistent.heap.tiles.within
  have newTop : 31 - (state.bucketLimit - 1) = 31 - state.bucketLimit + 1 := by omega
  have newBucket : 31 - (31 - state.bucketLimit + 1) = state.bucketLimit - 1 := by omega
  have oldBucket : 31 - (31 - state.bucketLimit) = state.bucketLimit := by omega
  have above : lists (31 - state.bucketLimit + 1) = [] := consistent.lists_above (by omega)
  have number := @nodeIndex_parent (root (31 - state.bucketLimit)) (by simp [root]; omega)
  rw [parent_root] at number
  generalize topEq : 31 - state.bucketLimit = top at *
  have upperStart : (⟨top, 1⟩ : Block).start = 2 ^ top := by simp [start]
  have below : ∀ other ∈ freeBlocks lists ∪ used, other.start ≠ 2 ^ top := by
    intro other member same
    have held := (inside other member).holds other.holds_start
    rw [holds_root, same] at held
    omega
  have head := bucketHead_lt platform (show state.bucketLimit - 1 ≤ 27 by omega)
  have oldHead := bucketHead_lt platform limit
  -- The free lists: one more entry in the old root's list, and an empty new one.
  have appended := @RingsMatch.push _ _ _ ⟨top, 1⟩ _ _ rings consistent.base (by omega)
    consistent.freeApart (show 4 ≤ top by omega) (Nat.le_refl top) (by
      intro other inFree
      rw [upperStart]
      exact below other (Or.inl inFree))
  simp only [upperStart, oldBucket] at appended
  have grown := appended.grow consistent.base (by omega) (by omega) (by simp [pushed, above])
  rw [newBucket] at grown
  -- The bit above the new root.
  let linked : State :=
    { state with
      cells :=
        (state.cells.pushBack (bucketHead platform state.bucketLimit)
          (state.basePtr + 2 ^ top)).init (bucketHead platform (state.bucketLimit - 1))
      bucketLimit := state.bucketLimit - 1
      maxPtr := maxPtr }
  have linkedBits : BitsMatch linked top (freeBlocks lists) := bits.congr rfl
  have flipped := @BitsMatch.flip_unless_root _ (root (top + 1)) _ _ _ _ linkedBits
    (by rw [within_root]; simp [root]; omega) (by simp [root]; omega)
    (by rw [parent_root]; exact flips)
  have shape : after =
      if nodeIndex (root (top + 1)) ≠ 0 then
        flipParentIsSplit linked (nodeIndex (root (top + 1))) else linked := by
    simp only [after, Buddy.growUsed, topEq, number]
    rfl
  have unchanged : after.basePtr = state.basePtr ∧ after.bucketLimit = state.bucketLimit - 1 ∧
      after.maxPtr = maxPtr ∧ after.cells = linked.cells ∧ after.removals = state.removals := by
    rw [shape]
    split
    · exact ⟨rfl, rfl, rfl, rfl, rfl⟩
    · exact ⟨rfl, rfl, rfl, rfl, rfl⟩
  rw [← shape] at flipped
  obtain ⟨sameBase, newLimit, newMax, cells, sameRemovals⟩ := unchanged
  refine ⟨newLimit, newMax,
    ⟨sameBase.trans consistent.base, by omega, ?_, ?_, ?_, ?_, sameRemovals ▸ consistent.removals⟩,
    sameBase, ?_⟩
  · rw [newLimit, newTop, freeBlocks_pushed]
    exact heap
  · rw [freeBlocks_pushed]
    rintro other ((rfl | inFree) | inUsed)
    · show 4 ≤ top
      omega
    · exact consistent.smallest other (Or.inl inFree)
    · exact consistent.smallest other (Or.inr inUsed)
  · rw [newLimit, newTop, sameBase, cells]
    exact grown
  · rw [newLimit, newTop, freeBlocks_pushed]
    exact flipped
  · intro other inUsed
    have atBreak := consistent.base
    have notHere := below other (Or.inr inUsed)
    rw [cells]
    refine (Function.update_of_ne (by omega) _ _).trans ?_
    exact CircularList.prev_pushBack (by omega) (by omega)

/-! ## The loop -/

/-- `update_max_ptr` only ever raises `max_ptr`. -/
theorem updateMaxPtr_some
    {after : State}
    {newValue : Nat}
    (updated : updateMaxPtr brk state newValue = some after) :
    ∃ maxPtr, after = { state with maxPtr := maxPtr } := by
  rw [updateMaxPtr] at updated
  split at updated
  · split at updated
    · exact ⟨newValue, (Option.some.inj updated).symm⟩
    · simp at updated
  · exact ⟨state.maxPtr, (Option.some.inj updated).symm⟩

/-- A round of `lower_bucket_limit` on a heap in use reserves room for a list entry. -/
theorem Consistent.lowerOnce_used
    (consistent : Consistent platform state lists used)
    (notLast : 0 < state.bucketLimit)
    (inUse : ¬ EntirelyFree (freeBlocks lists) (root (31 - state.bucketLimit))) :
    lowerOnce platform brk state =
      (updateMaxPtr brk state (state.basePtr + 2 ^ (31 - state.bucketLimit) + 16)).map
        fun reserved =>
          Buddy.growUsed platform reserved (nodeIndex (root (31 - state.bucketLimit)))
            (state.basePtr + 2 ^ (31 - state.bucketLimit)) := by
  have split := (consistent.parentIsSplit_root notLast).mpr inUse
  rw [Buddy.lowerOnce, consistent.nodeForPtr_root, if_neg (by simp [split]),
    consistent.rightChild_address]
  cases reserved :
      updateMaxPtr brk state (state.basePtr + 2 ^ (31 - state.bucketLimit) + 16) with
  | none =>
      simp only [reserved, Option.map_none]
  | some after =>
      simp only [reserved, Option.map_some]

/-- One round of `lower_bucket_limit`. -/
theorem Consistent.lowerOnce
    {after : State}
    (consistent : Consistent platform state lists used)
    (notLast : 0 < state.bucketLimit)
    (lowered : lowerOnce platform brk state = some after) :
    after.bucketLimit = state.bucketLimit - 1 ∧
      (∃ grown, Consistent platform after grown used) ∧
      Keeps used state after := by
  by_cases entirely : EntirelyFree (freeBlocks lists) (root (31 - state.bucketLimit))
  · obtain ⟨returned, grown⟩ := @Consistent.growFree _ brk _ _ _ consistent notLast entirely
    obtain rfl := Option.some.inj (returned.symm.trans lowered)
    obtain ⟨_, rfl⟩ := consistent.lists_eq_rootLists entirely
    exact ⟨rfl, ⟨_, grown⟩, rfl, by simp⟩
  · rw [consistent.lowerOnce_used notLast entirely, Option.map_eq_some_iff] at lowered
    obtain ⟨reserved, updated, rfl⟩ := lowered
    obtain ⟨maxPtr, rfl⟩ := updateMaxPtr_some updated
    obtain ⟨newLimit, _, grown, kept⟩ := consistent.growUsed notLast entirely maxPtr
    exact ⟨newLimit, ⟨_, grown⟩, kept⟩

/-- The loop of `lower_bucket_limit`, with rounds for every level above the root. -/
theorem Consistent.lowerLoop
    {rounds : Nat}
    (consistent : Consistent platform state lists used)
    (enough : state.bucketLimit ≤ rounds)
    (bucket : Nat) :
    let result := lowerLoop platform brk bucket rounds state
    (∃ grown, Consistent platform result.2 grown used) ∧
      Keeps used state result.2 ∧
      (result.1 = true → result.2.bucketLimit = min state.bucketLimit bucket) := by
  induction rounds generalizing state lists with
  | zero =>
      exact ⟨⟨lists, consistent⟩, .refl _ _, fun _ => by simp [Buddy.lowerLoop]; omega⟩
  | succ rounds inductionHypothesis =>
      simp only [Buddy.lowerLoop]
      by_cases lower : bucket < state.bucketLimit
      · rw [if_pos lower]
        cases round : Buddy.lowerOnce platform brk state with
        | none =>
            exact ⟨⟨lists, consistent⟩, .refl _ _, by simp⟩
        | some after =>
            obtain ⟨newLimit, ⟨grown, next⟩, kept⟩ := consistent.lowerOnce (by omega) round
            obtain ⟨final, keptOn, limit⟩ := inductionHypothesis next (by omega)
            refine ⟨final, kept.trans keptOn, ?_⟩
            intro reached
            rw [limit reached, newLimit]
            omega
      · rw [if_neg lower]
        refine ⟨⟨lists, consistent⟩, .refl _ _, ?_⟩
        intro _
        simp only
        omega

/-- `lower_bucket_limit` keeps the heap, and reaches the bucket unless `brk` refuses. -/
theorem Consistent.lowerBucketLimit
    (consistent : Consistent platform state lists used)
    (bucket : Nat) :
    let result := lowerBucketLimit platform brk state bucket
    (∃ grown, Consistent platform result.2 grown used) ∧
      Keeps used state result.2 ∧
      (result.1 = true → result.2.bucketLimit = min state.bucketLimit bucket) :=
  consistent.lowerLoop (Nat.le_refl _) bucket

/-- The loop stops at a bucket inside the tree. -/
theorem lowerLoop_of_le
    {bucket : Nat}
    (inside : state.bucketLimit ≤ bucket)
    (rounds : Nat) :
    lowerLoop platform brk bucket rounds state = (true, state) := by
  cases rounds with
  | zero =>
      rfl
  | succ rounds =>
      rw [lowerLoop, if_neg (by omega)]

/-- Nothing is done for a bucket inside the tree. -/
theorem lowerBucketLimit_of_le
    {bucket : Nat}
    (inside : state.bucketLimit ≤ bucket) :
    lowerBucketLimit platform brk state bucket = (true, state) :=
  lowerLoop_of_le inside _

/-- Growing the tree by one level takes one round. -/
theorem Consistent.lowerBucketLimit_pred
    (consistent : Consistent platform state lists used)
    (notLast : 0 < state.bucketLimit) :
    Buddy.lowerBucketLimit platform brk state (state.bucketLimit - 1) =
      match Buddy.lowerOnce platform brk state with
      | none => (false, state)
      | some after => (true, after) := by
  obtain ⟨rounds, shape⟩ := Nat.exists_eq_succ_of_ne_zero (Nat.ne_of_gt notLast)
  have unfolded : Buddy.lowerBucketLimit platform brk state (state.bucketLimit - 1) =
      Buddy.lowerLoop platform brk (state.bucketLimit - 1) (rounds + 1) state := by
    rw [Buddy.lowerBucketLimit, shape]
  rw [unfolded, Buddy.lowerLoop, if_pos (by omega)]
  cases round : Buddy.lowerOnce platform brk state with
  | none =>
      rfl
  | some after =>
      have newLimit := (consistent.lowerOnce notLast round).1
      exact lowerLoop_of_le (by omega) rounds

/-- The first call changes `max_ptr` in one of two ways, and everything else in one. -/
theorem initialise_eq :
    ∃ maxPtr,
      initialise platform brk state =
        { state with
          cells :=
            (state.cells.init (bucketHead platform 27)).pushBack (bucketHead platform 27)
              platform.programBreak
          bucketLimit := 27
          basePtr := platform.programBreak
          maxPtr := maxPtr } := by
  rw [initialise]
  simp only
  generalize outcome :
    updateMaxPtr brk
      { state with
        basePtr := platform.programBreak, maxPtr := platform.programBreak, bucketLimit := 27 }
      (platform.programBreak + 16) = reserved
  cases reserved with
  | none =>
      exact ⟨_, rfl⟩
  | some after =>
      obtain ⟨maxPtr, rfl⟩ := updateMaxPtr_some outcome
      exact ⟨maxPtr, rfl⟩

/-- The first call sets up a heap of one smallest block. -/
theorem consistent_initialise
    (clear : ∀ index, splitBitAt state index = false)
    (noRemovals : state.removals = []) :
    Consistent platform (initialise platform brk state) (rootLists 4) ∅ := by
  obtain ⟨maxPtr, shape⟩ := @initialise_eq platform brk state
  rw [shape]
  refine @consistent_rootLists _ { state with
    cells := _, bucketLimit := 27, basePtr := _, maxPtr := _ } rfl (Nat.le_refl 27) ?_ ?_ ?_
  · intro exponent atLeast atMost
    obtain rfl : exponent = 4 := Nat.le_antisymm atMost atLeast
    have head := bucketHead_lt platform (Nat.le_refl 27)
    have fresh : platform.programBreak ∉ [bucketHead platform 27] := by
      rw [List.mem_singleton]
      omega
    have ring := (@ring_init _ _ state.cells (bucketHead platform 27)).pushBack fresh
    simpa [entries, rootLists] using ring
  · refine ⟨?_, fun index _ => clear index⟩
    intro node _ large
    exact iff_of_false (Bool.eq_false_iff.mp (clear _)) (Heap.splitBit_single (by omega))
  · simp [noRemovals]

end Sysprog.Buddy
