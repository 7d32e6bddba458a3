import Sysprog.BuddyCanonical

namespace Sysprog.Buddy

open CircularList DyadicBlocks Block Execution MachineWord

/-!
# Memory below `max_ptr`

Every `list_push` writes a `list_t` into the block it links.  The records below follow the
functions of the allocator and list these writes, each with the value of `max_ptr` at that
moment.  All of them are to memory that `brk` has granted, unless `brk` refused the first
16 bytes, which `bmalloc` does not look at.
-/

/-- One `list_push`: the entry and `max_ptr`. -/
structure Link where
  entry : Nat
  maxPtr : Nat
  deriving Repr, DecidableEq

/-- The entry lies below `max_ptr`. -/
def Link.Granted (link : Link) : Prop :=
  link.entry + 16 ≤ link.maxPtr

variable (platform : Platform) (brk : Nat → Bool)

/-! ## The pushes of each function -/

/-- The pushes of `lowerOnce`. -/
def lowerOnceLinks (state : State) : List Link :=
  let root := nodeForPtr state state.basePtr state.bucketLimit
  if parentIsSplit state root = false then
    [⟨state.basePtr, state.maxPtr⟩]
  else
    let rightChild := ptrForNode state (root + 1) state.bucketLimit
    match updateMaxPtr brk state (rightChild + 16) with
    | none => []
    | some state => [⟨rightChild, state.maxPtr⟩]

/-- The pushes of `lowerLoop`. -/
def lowerLoopLinks (bucket : Nat) : Nat → State → List Link
  | 0, _ => []
  | rounds + 1, state =>
      if bucket < state.bucketLimit then
        lowerOnceLinks brk state ++
          match lowerOnce platform brk state with
          | none => []
          | some state => lowerLoopLinks bucket rounds state
      else
        []

/-- The pushes of `lowerBucketLimit`. -/
def lowerBucketLimitLinks (state : State) (bucket : Nat) : List Link :=
  lowerLoopLinks platform brk bucket state.bucketLimit state

/-- The push of `initialise`. -/
def initialiseLinks (state : State) : List Link :=
  let state :=
    { state with
      basePtr := platform.programBreak
      maxPtr := platform.programBreak
      bucketLimit := 27 }
  let state := (updateMaxPtr brk state (state.basePtr + 16)).getD state
  [⟨state.basePtr, state.maxPtr⟩]

/-- The pushes of `splitLoop`. -/
def splitLoopLinks : Nat → Nat → Nat → State → List Link
  | 0, _, _, _ => []
  | rounds + 1, i, bucket, state =>
      let i := i * 2 + 1
      let bucket := bucket + 1
      let state := flipParentIsSplit state i
      let entry := ptrForNode state (i + 1) bucket
      ⟨entry, state.maxPtr⟩ ::
        splitLoopLinks rounds i bucket (listPush state (bucketHead platform bucket) entry)

/-- The pushes of `allocateFrom`. -/
def allocateFromLinks (state : State) (originalBucket bucket ptr : Nat) : List Link :=
  let size := 2 ^ (31 - bucket)
  let bytesNeeded := if bucket < originalBucket then size / 2 + 16 else size
  match updateMaxPtr brk state (ptr + bytesNeeded) with
  | none => [⟨ptr, state.maxPtr⟩]
  | some state =>
      let i := nodeForPtr state ptr bucket
      let state := if i ≠ 0 then flipParentIsSplit state i else state
      splitLoopLinks platform (originalBucket - bucket) i bucket state

/-- The pushes of `searchRound`, where `next` lists those of the next bucket. -/
def searchRoundLinks
    (originalBucket bucket : Nat)
    (state : State)
    (next : State → List Link) : List Link :=
  lowerBucketLimitLinks platform brk state bucket ++
    match lowerBucketLimit platform brk state bucket with
    | (false, _) => []
    | (true, state) =>
        match listPop state (bucketHead platform bucket) with
        | (some ptr, state) => allocateFromLinks platform brk state originalBucket bucket ptr
        | (none, state) =>
            if bucket ≠ state.bucketLimit ∨ bucket = 0 then
              next state
            else
              lowerBucketLimitLinks platform brk state (bucket - 1) ++
                match lowerBucketLimit platform brk state (bucket - 1) with
                | (false, _) => []
                | (true, state) =>
                    let (ptr, state) := listPop state (bucketHead platform bucket)
                    allocateFromLinks platform brk state originalBucket bucket (ptr.getD 0)

/-- The pushes of `search`. -/
def searchLinks (originalBucket : Nat) : Nat → State → List Link
  | 0, state => searchRoundLinks platform brk originalBucket 0 state fun _ => []
  | bucket + 1, state =>
      searchRoundLinks platform brk originalBucket (bucket + 1) state
        (searchLinks originalBucket bucket)

/-- The pushes of `bmalloc`. -/
def bmallocLinks (answers : Brk) (state : State) (request : Nat) : List Link :=
  if add request 8 > 2 ^ 31 then
    []
  else
    let bucket := bucketForRequest (add request 8)
    if state.basePtr = 0 then
      initialiseLinks platform answers.first state ++
        searchLinks platform answers.later bucket bucket (initialise platform answers.first state)
    else
      searchLinks platform answers.later bucket bucket state

/-- The push of `bfree`. -/
def bfreeLinks (state : State) : Option Nat → List Link
  | none => []
  | some ptr =>
      let ptr := ptr - 8
      let bucket := bucketForRequest (add (state.cells.prev ptr) 8)
      let i := nodeForPtr state ptr bucket
      let ((i, bucket), state) := mergeLoop i i bucket state
      [⟨ptrForNode state i bucket, state.maxPtr⟩]

/-- The pushes of an action. -/
def Op.links (world : World) : Op → List Link
  | .bmalloc request answers => bmallocLinks platform answers world.state request
  | .bfree ptr => bfreeLinks world.state ptr
  | .write _ _ => []

/-! ## Backed blocks -/

variable
  {platform : Platform}
  {brk : Nat → Bool}
  {state : State}
  {lists : Nat → List Nat}
  {block : Block}
  {free used rest : Set Block}

/-- Free blocks are granted as far as their links go, used blocks as a whole. -/
structure Backed (state : State) (free used : Set Block) : Prop where
  free : ∀ block ∈ free, state.basePtr + block.start + 16 ≤ state.maxPtr
  used : ∀ block ∈ used, state.basePtr + block.start + 2 ^ block.exponent ≤ state.maxPtr

/-- The state is a heap of backed blocks. -/
def Secured (platform : Platform) (state : State) (used : Set Block) : Prop :=
  ∃ lists, Consistent platform state lists used ∧ Backed state (freeBlocks lists) used

/-- Which free lists represent the heap does not matter. -/
theorem Secured.backed
    (secured : Secured platform state used)
    (consistent : Consistent platform state lists used) :
    Backed state (freeBlocks lists) used := by
  obtain ⟨other, otherConsistent, backed⟩ := secured
  rwa [consistent.heap.free_unique otherConsistent.heap]

/-- What `update_max_ptr` reserves. -/
theorem updateMaxPtr_reserves
    {after : State}
    {newValue : Nat}
    (updated : updateMaxPtr brk state newValue = some after) :
    ∃ maxPtr,
      after = { state with maxPtr := maxPtr } ∧ state.maxPtr ≤ maxPtr ∧ newValue ≤ maxPtr := by
  rw [updateMaxPtr] at updated
  split at updated
  · split at updated
    · exact ⟨newValue, (Option.some.inj updated).symm, by omega, Nat.le_refl _⟩
    · simp at updated
  · exact ⟨state.maxPtr, (Option.some.inj updated).symm, Nat.le_refl _, by omega⟩

/-- More memory does no harm. -/
theorem Backed.mono
    {after : State}
    (backed : Backed state free used)
    (sameBase : after.basePtr = state.basePtr)
    (more : state.maxPtr ≤ after.maxPtr) :
    Backed after free used where
  free := by
    intro block member
    have enough := backed.free block member
    omega
  used := by
    intro block member
    have enough := backed.used block member
    omega

/-- Earlier pushes come before later ones. -/
theorem granted_append
    {first second : List Link}
    {achieved : Prop}
    (granted : ∀ link ∈ first, link.Granted)
    (later : (∀ link ∈ second, link.Granted) ∧ achieved) :
    (∀ link ∈ first ++ second, link.Granted) ∧ achieved := by
  refine ⟨fun link member => ?_, later.2⟩
  rcases List.mem_append.mp member with inFirst | inSecond
  · exact granted link inFirst
  · exact later.1 link inSecond

/-! ## Growth -/

/-- One round of `lower_bucket_limit`. -/
theorem Consistent.lowerOnce_links
    (consistent : Consistent platform state lists used)
    (backed : Backed state (freeBlocks lists) used)
    (notLast : 0 < state.bucketLimit) :
    (∀ link ∈ lowerOnceLinks brk state, link.Granted) ∧
      ∀ after, Buddy.lowerOnce platform brk state = some after → Secured platform after used := by
  by_cases entirely : EntirelyFree (freeBlocks lists) (root (31 - state.bucketLimit))
  · obtain ⟨returned, grown⟩ := @Consistent.growFree _ brk _ _ _ consistent notLast entirely
    obtain ⟨isRoot, rfl⟩ := consistent.lists_eq_rootLists entirely
    have notSplit : parentIsSplit state (nodeIndex (root (31 - state.bucketLimit))) = false := by
      rw [← Bool.not_eq_true, consistent.parentIsSplit_root notLast]
      exact not_not_intro entirely
    have atBase : state.basePtr + 16 ≤ state.maxPtr := by
      have rootFree := backed.free (root (31 - state.bucketLimit))
        (by rw [isRoot, freeBlocks_rootLists]; rfl)
      simpa [start, root] using rootFree
    constructor
    · rw [lowerOnceLinks, consistent.nodeForPtr_root, if_pos notSplit]
      simpa [Link.Granted] using atBase
    · intro after lowered
      obtain rfl := Option.some.inj (returned.symm.trans lowered)
      refine ⟨_, grown, ?_, by simp⟩
      rw [freeBlocks_rootLists]
      rintro _ rfl
      show state.basePtr + (root _).start + 16 ≤ state.maxPtr
      simpa [start, root] using atBase
  · have split := (consistent.parentIsSplit_root notLast).mpr entirely
    rw [consistent.lowerOnce_used notLast entirely, lowerOnceLinks, consistent.nodeForPtr_root,
      if_neg (by simp [split]), consistent.rightChild_address]
    cases updated :
        updateMaxPtr brk state (state.basePtr + 2 ^ (31 - state.bucketLimit) + 16) with
    | none => simp [updated]
    | some reserved =>
        obtain ⟨maxPtr, rfl, more, enough⟩ := updateMaxPtr_reserves updated
        obtain ⟨_, newMax, grown, kept⟩ := consistent.growUsed notLast entirely maxPtr
        simp only [updated, Option.map_some, Option.some.injEq]
        constructor
        · simpa [Link.Granted] using enough
        · rintro after rfl
          refine ⟨_, grown, ?_, ?_⟩
          · rw [freeBlocks_pushed, kept.1, newMax]
            rintro other (rfl | inFree)
            · simpa [start] using enough
            · exact (backed.free other inFree).trans more
          · rw [kept.1, newMax]
            exact fun other inUse => (backed.used other inUse).trans more

/-- The loop of `lower_bucket_limit`. -/
theorem Consistent.lowerLoop_links
    {bucket rounds : Nat}
    (consistent : Consistent platform state lists used)
    (backed : Backed state (freeBlocks lists) used) :
    (∀ link ∈ lowerLoopLinks platform brk bucket rounds state, link.Granted) ∧
      Secured platform (Buddy.lowerLoop platform brk bucket rounds state).2 used := by
  induction rounds generalizing state lists with
  | zero =>
      exact ⟨by simp [lowerLoopLinks], lists, consistent, backed⟩
  | succ rounds inductionHypothesis =>
      rw [lowerLoopLinks, Buddy.lowerLoop]
      by_cases lower : bucket < state.bucketLimit
      · obtain ⟨granted, secured⟩ :=
          @Consistent.lowerOnce_links _ brk _ _ _ consistent backed (by omega)
        rw [if_pos lower, if_pos lower]
        cases round : Buddy.lowerOnce platform brk state with
        | none =>
            simp only [List.append_nil]
            exact ⟨granted, lists, consistent, backed⟩
        | some after =>
            obtain ⟨grown, next, nextBacked⟩ := secured after round
            exact granted_append granted (inductionHypothesis next nextBacked)
      · rw [if_neg lower, if_neg lower]
        exact ⟨by simp, lists, consistent, backed⟩

/-! ## Splitting and taking a block -/

/-- The splitting loop of `bmalloc` stays in the first half of the block, but for one entry. -/
theorem Consistent.splitLoop_links
    {rounds : Nat}
    (consistent : Consistent platform state lists (insert block rest))
    (inHand : block ∉ rest)
    (deep : rounds + 4 ≤ block.exponent)
    (backed : Backed state (freeBlocks lists) rest)
    (half :
      0 < rounds →
      state.basePtr + block.start + 2 ^ (block.exponent - 1) + 16 ≤ state.maxPtr) :
    let after := Buddy.splitLoop platform rounds (nodeIndex block) (31 - block.exponent) state
    (∀ link ∈ splitLoopLinks platform rounds (nodeIndex block) (31 - block.exponent) state,
        link.Granted) ∧
      (∃ divided,
        Consistent platform after divided (insert (descend block rounds) rest) ∧
          Backed after (freeBlocks divided) rest) ∧
      after.maxPtr = state.maxPtr ∧
      after.basePtr = state.basePtr := by
  induction rounds generalizing state lists block with
  | zero =>
      rw [descend_zero]
      exact ⟨by simp [splitLoopLinks], ⟨lists, consistent, backed⟩, rfl, rfl⟩
  | succ rounds inductionHypothesis =>
      obtain ⟨cut, kept, leftOutside⟩ := consistent.split_hand inHand (by omega)
      have enough := half (Nat.succ_pos _)
      have small := (consistent.within_range (Or.inr (Set.mem_insert block rest))).1
      simp only [root] at small
      have bucket : 31 - block.exponent + 1 = 31 - block.left.exponent := by
        simp only [left]
        omega
      have rightStart : block.right.start = block.start + 2 ^ (block.exponent - 1) :=
        start_right (by omega)
      have leftStart : block.left.start = block.start := start_left (by omega)
      have address : ptrForNode state (nodeIndex block.left + 1) (31 - block.left.exponent) =
          state.basePtr + block.right.start := by
        rw [nodeIndex_right]
        exact @ptrForNode_nodeIndex state block.right (by simp only [right]; omega)
      have cutBacked : Backed
          (listPush (flipParentIsSplit state (nodeIndex block.left))
            (bucketHead platform (31 - block.left.exponent))
            (ptrForNode state (nodeIndex block.left + 1) (31 - block.left.exponent)))
          (freeBlocks (pushed lists block.right)) rest := by
        refine ⟨?_, backed.used⟩
        rw [freeBlocks_pushed]
        rintro other (rfl | inFree)
        · show state.basePtr + _ + 16 ≤ state.maxPtr
          omega
        · exact backed.free other inFree
      have quarter : 2 ^ (block.left.exponent - 1) ≤ 2 ^ (block.exponent - 1) :=
        Nat.pow_le_pow_right (by decide) (by simp only [left]; omega)
      obtain ⟨granted, divided, sameMax, sameBase⟩ :=
        inductionHypothesis cut leftOutside (by simp only [left]; omega) cutBacked (by
          intro _
          show state.basePtr + _ + _ + 16 ≤ state.maxPtr
          omega)
      simp only [Buddy.splitLoop, splitLoopLinks]
      rw [nodeIndex_left (by omega) small, bucket, descend_succ]
      refine ⟨?_, divided, sameMax, sameBase⟩
      intro link member
      rcases List.mem_cons.mp member with rfl | later
      · show ptrForNode state _ _ + 16 ≤ state.maxPtr
        rw [address]
        omega
      · exact granted link later

/-- What `bmalloc` achieves, with the memory for it. -/
def Secures (platform : Platform) (used : Set Block) (exponent : Nat) :
    Option Nat × State → Prop
  | (none, after) => Secured platform after used
  | (some ptr, after) =>
      ∃ block : Block,
        block.exponent = exponent ∧
          block ∉ used ∧
          ptr = platform.programBreak + block.start + 8 ∧
          Secured platform after (insert block used)

/-- What `bmalloc` does with the last block of a free list. -/
theorem Consistent.allocateFrom_links
    {front : List Nat}
    {originalBucket : Nat}
    (consistent : Consistent platform state lists used)
    (backed : Backed state (freeBlocks lists) used)
    (shape : lists block.exponent = front ++ [block.index])
    (large : 31 - block.exponent ≤ originalBucket)
    (smallest : originalBucket ≤ 27)
    (request : Nat) :
    (∀ link ∈
        allocateFromLinks platform brk (listRemove state (state.basePtr + block.start))
          originalBucket (31 - block.exponent) (state.basePtr + block.start),
        link.Granted) ∧
      Secures platform used (31 - originalBucket)
        (Buddy.allocateFrom platform brk (listRemove state (state.basePtr + block.start)) request
          originalBucket (31 - block.exponent) (state.basePtr + block.start)) := by
  have member := mem_freeBlocks_of_shape shape
  have small : block.exponent ≤ 31 := (consistent.within_range (Or.inl member)).1
  have atLeast := consistent.smallest block (Or.inl member)
  have halfSize : 2 ^ block.exponent / 2 = 2 ^ (block.exponent - 1) := by
    rw [← Nat.pow_div (show 1 ≤ block.exponent by omega) (by decide), Nat.pow_one]
  simp only [Buddy.allocateFrom, allocateFromLinks,
    Nat.sub_sub_self (show block.exponent ≤ 31 from small), halfSize]
  generalize needed : (if 31 - block.exponent < originalBucket then
    2 ^ (block.exponent - 1) + 16 else 2 ^ block.exponent) = bytes
  cases updated : updateMaxPtr brk (listRemove state (state.basePtr + block.start))
      (state.basePtr + block.start + bytes) with
  | none =>
      -- The memory is refused, and the block goes back.
      simp only
      rw [consistent.put_back shape]
      refine ⟨?_, lists, consistent, backed⟩
      simpa [Link.Granted, listRemove] using backed.free block member
  | some reserved =>
      obtain ⟨maxPtr, rfl, more, enough⟩ := updateMaxPtr_reserves updated
      simp only
      have number : nodeForPtr
          { listRemove state (state.basePtr + block.start) with maxPtr := maxPtr }
          (state.basePtr + block.start) (31 - block.exponent) = nodeIndex block :=
        nodeForPtr_start small
      rw [number]
      obtain ⟨taken, _⟩ := consistent.take_last shape maxPtr
      have fresh : block ∉ used := fun inUsed => consistent.heap.not_free_of_used inUsed member
      have bounds := consistent.exponent_bounds (Or.inl member)
      have fewer : freeBlocks (Function.update lists block.exponent front) ⊆ freeBlocks lists := by
        have removed := freeBlocks_removed shape (consistent.nodup bounds.1 bounds.2)
        rw [List.append_nil] at removed
        rw [removed]
        exact Set.sdiff_subset
      generalize flipped : (if nodeIndex block ≠ 0 then
          flipParentIsSplit
            { listRemove state (state.basePtr + block.start) with maxPtr := maxPtr }
            (nodeIndex block)
        else { listRemove state (state.basePtr + block.start) with maxPtr := maxPtr }) = hand
        at taken ⊢
      have fields : hand.maxPtr = maxPtr ∧ hand.basePtr = state.basePtr := by
        rw [← flipped]
        split <;> exact ⟨rfl, rfl⟩
      have handBacked :
          Backed hand (freeBlocks (Function.update lists block.exponent front)) used := by
        have before : Backed hand (freeBlocks lists) used :=
          backed.mono fields.2 (more.trans (Nat.le_of_eq fields.1.symm))
        exact ⟨fun other inFree => before.free other (fewer inFree), before.used⟩
      obtain ⟨granted, ⟨divided, split, splitBacked⟩, sameMax, sameBase⟩ :=
        taken.splitLoop_links fresh
          (show originalBucket - (31 - block.exponent) + 4 ≤ block.exponent by omega) handBacked
          (by
            intro deeper
            rw [if_pos (by omega)] at needed
            omega)
      have outside := (taken.splitLoop fresh
        (show originalBucket - (31 - block.exponent) + 4 ≤ block.exponent by omega)).2.2
      refine ⟨granted, descend block (originalBucket - (31 - block.exponent)), ?_, outside, ?_,
        divided, ?_, splitBacked.free, ?_⟩
      · simp only [descend]
        omega
      · rw [start_descend (by omega), ← consistent.base]
      · exact (split.setHeader outside
          (by rw [start_descend (by omega), sameBase, fields.2]) request).1
      · rintro other (rfl | inUse)
        · have part : 2 ^ (block.exponent - (originalBucket - (31 - block.exponent))) ≤ bytes := by
            rw [← needed]
            split
            · have smaller : 2 ^ (block.exponent - (originalBucket - (31 - block.exponent))) ≤
                  2 ^ (block.exponent - 1) := Nat.pow_le_pow_right (by decide) (by omega)
              omega
            · rw [show block.exponent - (originalBucket - (31 - block.exponent)) = block.exponent by
                omega]
          rw [start_descend (by omega)]
          simp only [descend, sameMax, sameBase]
          omega
        · exact splitBacked.used other inUse

/-! ## The search -/

/-- Growth of a tree in use by one level, and what is taken from its new half. -/
theorem Consistent.searchGrown_links
    {bucket originalBucket request : Nat}
    {grown : State}
    (consistent : Consistent platform state lists used)
    (backed : Backed state (freeBlocks lists) used)
    (atRoot : bucket = state.bucketLimit)
    (notLast : bucket ≠ 0)
    (empty : lists (31 - bucket) = [])
    (large : bucket ≤ originalBucket)
    (smallest : originalBucket ≤ 27)
    (lowered : Buddy.lowerBucketLimit platform brk state (bucket - 1) = (true, grown)) :
    let popped := listPop grown (bucketHead platform bucket)
    (∀ link ∈ allocateFromLinks platform brk popped.2 originalBucket bucket (popped.1.getD 0),
        link.Granted) ∧
      Secures platform used (31 - originalBucket)
        (Buddy.allocateFrom platform brk popped.2 request originalBucket bucket
          (popped.1.getD 0)) := by
  subst atRoot
  have limit := consistent.limit
  have inUse := consistent.inUse_of_empty empty
  have secured :=
    (@Consistent.lowerLoop_links _ brk _ _ _ (state.bucketLimit - 1) state.bucketLimit consistent
      backed).2
  have sameState : (Buddy.lowerLoop platform brk (state.bucketLimit - 1) state.bucketLimit
      state).2 = grown := congrArg Prod.snd lowered
  rw [sameState] at secured
  rw [consistent.lowerBucketLimit_pred (by omega), consistent.lowerOnce_used (by omega) inUse]
    at lowered
  cases updated :
      updateMaxPtr brk state (state.basePtr + 2 ^ (31 - state.bucketLimit) + 16) with
  | none => simp [updated] at lowered
  | some reserved =>
      obtain ⟨maxPtr, rfl⟩ := updateMaxPtr_some updated
      simp only [updated, Option.map_some, Prod.mk.injEq, true_and] at lowered
      obtain ⟨_, _, doubled, _⟩ := consistent.growUsed (by omega) inUse maxPtr
      rw [lowered] at doubled
      have shape : pushed lists ⟨31 - state.bucketLimit, 1⟩ (31 - state.bucketLimit) =
          [] ++ [1] := by
        simp [pushed, empty]
      have popped := @Consistent.pop_last _ _ _ ⟨31 - state.bucketLimit, 1⟩ _ _ doubled shape
      have taken := @Consistent.allocateFrom_links _ brk _ _ ⟨31 - state.bucketLimit, 1⟩ _ _
        originalBucket doubled (secured.backed doubled) shape (by simp only; omega) smallest
        request
      simp only [Nat.sub_sub_self (show state.bucketLimit ≤ 31 by omega)] at popped taken
      rw [popped]
      exact taken

/-- One round of the search, given what the rest of it achieves. -/
theorem Consistent.searchRound_links
    {bucket originalBucket request : Nat}
    {next : State → Option Nat × State}
    {nextLinks : State → List Link}
    (consistent : Consistent platform state lists used)
    (backed : Backed state (freeBlocks lists) used)
    (large : bucket ≤ originalBucket)
    (smallest : originalBucket ≤ 27)
    (goesOn :
      ∀ after,
        Secured platform after used →
        (∀ link ∈ nextLinks after, link.Granted) ∧
          Secures platform used (31 - originalBucket) (next after)) :
    (∀ link ∈ searchRoundLinks platform brk originalBucket bucket state nextLinks, link.Granted) ∧
      Secures platform used (31 - originalBucket)
        (searchRound platform brk request originalBucket bucket state next) := by
  obtain ⟨granted, secured⟩ :=
    @Consistent.lowerLoop_links _ brk _ _ _ bucket state.bucketLimit consistent backed
  obtain ⟨_, _, reached⟩ := @Consistent.lowerBucketLimit _ brk _ _ _ consistent bucket
  have loop : Buddy.lowerLoop platform brk bucket state.bucketLimit state =
      Buddy.lowerBucketLimit platform brk state bucket := rfl
  rw [loop] at secured
  rw [searchRoundLinks, searchRound]
  cases outcome : Buddy.lowerBucketLimit platform brk state bucket with
  | mk succeeded middle =>
      rw [outcome] at secured reached
      cases succeeded with
      | false =>
          simp only [List.append_nil]
          exact ⟨granted, secured⟩
      | true =>
          have inside : middle.bucketLimit ≤ bucket := by
            rw [reached rfl]
            exact Nat.min_le_right _ _
          obtain ⟨lowered, grown, grownBacked⟩ := secured
          refine granted_append granted ?_
          rcases List.eq_nil_or_concat' (lowered (31 - bucket)) with empty | ⟨front, index, shape⟩
          · have popped := grown.pop_empty (show 4 ≤ 31 - bucket by omega)
              (show 31 - bucket ≤ 31 - middle.bucketLimit by omega) empty
            rw [Nat.sub_sub_self (show bucket ≤ 31 by omega)] at popped
            simp only [popped]
            by_cases elsewhere : bucket ≠ middle.bucketLimit ∨ bucket = 0
            · rw [if_pos elsewhere, if_pos elsewhere]
              exact goesOn middle ⟨lowered, grown, grownBacked⟩
            · rw [if_neg elsewhere, if_neg elsewhere]
              obtain ⟨atRoot, notLast⟩ := not_or.mp elsewhere
              obtain ⟨grantedOn, securedOn⟩ :=
                @Consistent.lowerLoop_links _ brk _ _ _ (bucket - 1) middle.bucketLimit grown
                  grownBacked
              have loopOn : Buddy.lowerLoop platform brk (bucket - 1) middle.bucketLimit middle =
                  Buddy.lowerBucketLimit platform brk middle (bucket - 1) := rfl
              rw [loopOn] at securedOn
              cases again : Buddy.lowerBucketLimit platform brk middle (bucket - 1) with
              | mk succeeded final =>
                  rw [again] at securedOn
                  cases succeeded with
                  | false =>
                      simp only [List.append_nil]
                      exact ⟨grantedOn, securedOn⟩
                  | true =>
                      exact granted_append grantedOn (grown.searchGrown_links grownBacked
                        (not_not.mp atRoot) notLast empty large smallest again)
          · have popped := @Consistent.pop_last _ _ _ ⟨31 - bucket, index⟩ _ _ grown shape
            have taken := @Consistent.allocateFrom_links _ brk _ _ ⟨31 - bucket, index⟩ _ _
              originalBucket grown grownBacked shape (by simp only; omega) smallest request
            simp only [Nat.sub_sub_self (show bucket ≤ 31 by omega)] at popped taken
            simp only [popped]
            exact taken

/-- The search of `bmalloc`. -/
theorem Consistent.search_links
    {bucket originalBucket request : Nat}
    (consistent : Consistent platform state lists used)
    (backed : Backed state (freeBlocks lists) used)
    (large : bucket ≤ originalBucket)
    (smallest : originalBucket ≤ 27) :
    (∀ link ∈ searchLinks platform brk originalBucket bucket state, link.Granted) ∧
      Secures platform used (31 - originalBucket)
        (Buddy.search platform brk request originalBucket bucket state) := by
  induction bucket generalizing state lists with
  | zero =>
      rw [searchLinks, Buddy.search]
      exact consistent.searchRound_links backed large smallest fun after secured =>
        ⟨by simp, secured⟩
  | succ bucket inductionHypothesis =>
      rw [searchLinks, Buddy.search]
      refine consistent.searchRound_links backed large smallest ?_
      rintro after ⟨lowered, grown, grownBacked⟩
      exact inductionHypothesis grown grownBacked (by omega)

/-! ## Release -/

/-- The block that `bfree` pushes starts where a live or a free block did. -/
theorem Consistent.bfree_links
    {ptr request : Nat}
    (consistent : Consistent platform state lists (insert block rest))
    (backed : Backed state (freeBlocks lists) (insert block rest))
    (inHand : block ∉ rest)
    (address : ptr = state.basePtr + block.start + 8)
    (header : state.cells.prev (state.basePtr + block.start) = request)
    (size : block.exponent = 31 - requestBucket request) :
    (∀ link ∈ bfreeLinks state (some ptr), link.Granted) ∧
      Secured platform (Buddy.bfree platform state (some ptr)) rest := by
  obtain ⟨bucket, number⟩ := consistent.bfree_start address header size
  obtain ⟨before, merged, final, into, _, loop⟩ := consistent.mergeLoop inHand (Nat.le_refl _)
  obtain ⟨released, kept⟩ := into.consistent.release_hand into.inHand into.buddyUsed
  have small := (into.consistent.within_range (Or.inr (Set.mem_insert final rest))).1
  have flippedFields : (flippedUnlessRoot before final).basePtr = state.basePtr ∧
      (flippedUnlessRoot before final).maxPtr = state.maxPtr := by
    rw [flippedUnlessRoot]
    split
    · exact ⟨into.keeps.1, into.sameMax⟩
    · exact ⟨into.keeps.1, into.sameMax⟩
  have atStart : state.basePtr + final.start + 16 ≤ state.maxPtr := by
    rcases into.startsAt with own | ⟨other, inFree, same⟩
    · have whole := backed.used block (Set.mem_insert block rest)
      have atLeast := consistent.smallest block (Or.inr (Set.mem_insert block rest))
      have wide : 2 ^ 4 ≤ 2 ^ block.exponent := Nat.pow_le_pow_right (by decide) atLeast
      omega
    · have linked := backed.free other inFree
      omega
  simp only [bfreeLinks, Buddy.bfree, bucket, number, loop]
  constructor
  · intro link member
    obtain rfl := List.mem_singleton.mp member
    rw [Link.Granted, ptrForNode_nodeIndex small, flippedFields.1, flippedFields.2]
    exact atStart
  · refine ⟨_, released, ?_, ?_⟩
    · rw [freeBlocks_pushed]
      rintro other (rfl | inFree)
      · show (flippedUnlessRoot before other).basePtr + _ + 16 ≤
          (flippedUnlessRoot before other).maxPtr
        rw [flippedFields.1, flippedFields.2]
        exact atStart
      · show (flippedUnlessRoot before final).basePtr + _ + 16 ≤
          (flippedUnlessRoot before final).maxPtr
        rw [flippedFields.1, flippedFields.2]
        exact backed.free other (into.fewer inFree)
    · intro other inUse
      show (flippedUnlessRoot before final).basePtr + _ + _ ≤
        (flippedUnlessRoot before final).maxPtr
      rw [flippedFields.1, flippedFields.2]
      exact backed.used other (Or.inr inUse)

/-! ## Runs -/

/-- What the first call has of memory when `brk` grants it. -/
theorem secured_initialise
    {world : World}
    (untouched : Untouched world)
    (grants : brk (platform.programBreak + 16) = true) :
    (∀ link ∈ initialiseLinks platform brk world.state, link.Granted) ∧
      Secured platform (initialise platform brk world.state)
        (liveBlocks platform world.live) := by
  have reserved : ∀ state : State, state.maxPtr = platform.programBreak →
      updateMaxPtr brk state (platform.programBreak + 16) =
        some { state with maxPtr := platform.programBreak + 16 } := by
    intro state atBreak
    rw [updateMaxPtr, if_pos (by omega), if_pos grants]
  rw [liveBlocks_empty untouched.live]
  constructor
  · simp [initialiseLinks, reserved, Link.Granted]
  · refine ⟨_, consistent_initialise untouched.clear untouched.removals, ?_, by simp⟩
    rw [freeBlocks_rootLists]
    rintro _ rfl
    simp [initialise, reserved, listPush, listInit, start, root]

/-- A failed first `brk` leaves the first entry without memory. -/
theorem initialiseLinks_refused
    (refuses : brk (platform.programBreak + 16) = false) :
    initialiseLinks platform brk state = [⟨platform.programBreak, platform.programBreak⟩] := by
  simp [initialiseLinks, updateMaxPtr, refuses]

/-- What an action links, and the block it returns, lie below `max_ptr`. -/
structure StepGranted (platform : Platform) (before : World) (op : Op) (after : World) : Prop where
  links : ∀ link ∈ op.links platform before, link.Granted
  returned :
    ∀ request answers ptr,
      op = .bmalloc request answers →
      (bmalloc platform answers before.state request).1 = some ptr →
      ptr - 8 + 2 ^ (31 - requestBucket request) ≤ after.state.maxPtr

/-- The call that sets the allocator up is granted the first list entry. -/
def GrantsFirst (platform : Platform) (before : World) : Op → Prop
  | .bmalloc request answers =>
      before.state.basePtr = 0 →
      add request 8 ≤ 2 ^ 31 →
      answers.first (platform.programBreak + 16) = true
  | _ => True

/-- What holds of the memory in a run whose first call is granted it. -/
structure MemoryBacked (platform : Platform) (world : World) : Prop where
  invariant : Invariant platform world
  secured :
    world.state.basePtr ≠ 0 → Secured platform world.state (liveBlocks platform world.live)

/-- The block that `bmalloc` returns becomes a live block with memory behind it. -/
theorem secured_of_secures
    {world : World}
    {request : Nat}
    {result : Option Nat × State}
    (pointers : PointersMatch platform world)
    (secures :
      Secures platform (liveBlocks platform world.live) (31 - requestBucket request) result) :
    (∀ ptr, result.1 = some ptr → ptr - 8 + 2 ^ (31 - requestBucket request) ≤ result.2.maxPtr) ∧
      Secured platform (world.returned request result).state
        (liveBlocks platform (world.returned request result).live) := by
  obtain ⟨ptr, after⟩ := result
  cases ptr with
  | none => exact ⟨by simp, secures⟩
  | some ptr =>
      obtain ⟨block, size, fresh, address, lists, consistent, backed⟩ := secures
      have own : liveBlock platform ptr request = block := by
        rw [address]
        exact liveBlock_of_start size
      have base := consistent.base
      have notLive := pointers.notLive consistent fresh address
      constructor
      · rintro _ ⟨⟩
        have whole := backed.used block (Set.mem_insert _ _)
        rw [size] at whole
        simp only at base ⊢
        omega
      · simp only [World.returned]
        rw [liveBlocks_update_some notLive, own]
        exact ⟨lists, consistent, backed⟩

/-- `bmalloc` in a run whose first call is granted its memory. -/
theorem MemoryBacked.malloc
    {world : World}
    {request : Nat}
    {answers : Brk}
    (backed : MemoryBacked platform world)
    (grants : GrantsFirst platform world (.bmalloc request answers)) :
    StepGranted platform world (.bmalloc request answers)
        (world.afterMalloc platform answers request) ∧
      MemoryBacked platform (world.afterMalloc platform answers request) := by
  have invariant := @Invariant.afterMalloc _ answers _ backed.invariant request
  by_cases tooLarge : add request 8 > 2 ^ 31
  · have refused : bmalloc platform answers world.state request = (none, world.state) := by
      rw [bmalloc, if_pos tooLarge]
    have unchanged : world.afterMalloc platform answers request = world := by
      rw [World.afterMalloc, refused]
      rfl
    rw [unchanged]
    refine ⟨⟨?_, ?_⟩, backed⟩
    · rw [Op.links, bmallocLinks, if_pos tooLarge]
      simp
    · rintro _ _ ptr ⟨⟩ returned
      simp [refused] at returned
  have smallest : requestBucket request ≤ 27 := bucketForRequest_le _
  -- Before the first call and later the request is a search in a heap with memory.
  obtain ⟨prepared, earlier, isSearch, linksEq, granted, secured, pointers⟩ :
      ∃ prepared earlier,
        bmalloc platform answers world.state request =
            search platform answers.later request (requestBucket request) (requestBucket request)
              prepared ∧
          bmallocLinks platform answers world.state request =
            earlier ++
              searchLinks platform answers.later (requestBucket request) (requestBucket request)
                prepared ∧
          (∀ link ∈ earlier, link.Granted) ∧
          Secured platform prepared (liveBlocks platform world.live) ∧
          PointersMatch platform { world with state := prepared } := by
    rcases backed.invariant with untouched | ⟨⟨lists, consistent⟩, pointers⟩
    · obtain ⟨granted, secured⟩ :=
        secured_initialise untouched (grants untouched.base (by omega))
      refine ⟨_, _, ?_, ?_, granted, secured, ?_⟩
      · rw [bmalloc, if_neg tooLarge]
        simp only [untouched.base, if_true]
        rfl
      · rw [bmallocLinks, if_neg tooLarge]
        simp only [untouched.base, if_true]
        rfl
      · intro ptr asked isLive
        simp [untouched.live] at isLive
    · have setUp : world.state.basePtr ≠ 0 := by
        have base := consistent.base
        have behind := platform.behind
        omega
      refine ⟨world.state, [], ?_, ?_, by simp, backed.secured setUp, pointers⟩
      · rw [bmalloc, if_neg tooLarge]
        simp only [if_neg setUp]
        rfl
      · rw [bmallocLinks, if_neg tooLarge]
        simp only [if_neg setUp, List.nil_append]
        rfl
  obtain ⟨lists, consistent, memory⟩ := secured
  obtain ⟨grantedOn, secures⟩ := @Consistent.search_links _ answers.later _ _ _ _ _ request
    consistent memory (Nat.le_refl _) smallest
  rw [← isSearch] at secures
  obtain ⟨returned, securedAfter⟩ :=
    @secured_of_secures _ { world with state := prepared } _ _ pointers secures
  have after : ({ world with state := prepared } : World).returned request
      (bmalloc platform answers world.state request) =
        world.afterMalloc platform answers request := by
    rw [World.afterMalloc]
    generalize bmalloc platform answers world.state request = result
    obtain ⟨_ | _, _⟩ := result <;> rfl
  rw [after] at securedAfter
  refine ⟨⟨?_, ?_⟩, invariant, fun _ => securedAfter⟩
  · rw [Op.links, linksEq]
    exact (granted_append granted (And.intro grantedOn trivial)).1
  · rintro _ _ ptr ⟨⟩ isReturned
    have state : (world.afterMalloc platform answers request).state =
        (bmalloc platform answers world.state request).2 := by
      rw [World.afterMalloc]
      generalize bmalloc platform answers world.state request = result
      obtain ⟨_ | _, _⟩ := result <;> rfl
    rw [state]
    exact returned ptr isReturned

/-- Every step of a run whose first call is granted its memory. -/
theorem MemoryBacked.step
    {world after : World}
    {op : Op}
    (backed : MemoryBacked platform world)
    (step : Step platform world op after)
    (grants : GrantsFirst platform world op) :
    StepGranted platform world op after ∧ MemoryBacked platform after := by
  have invariant := backed.invariant.step step
  cases op with
  | bmalloc request answers =>
      obtain ⟨_, rfl⟩ := step
      exact backed.malloc grants
  | bfree ptr =>
      obtain ⟨allowed, rfl⟩ := step
      cases ptr with
      | none => exact ⟨⟨by simp [Op.links, bfreeLinks], by simp⟩, backed⟩
      | some ptr =>
          obtain ⟨request, isLive⟩ := Option.isSome_iff_exists.mp (allowed ptr rfl)
          rcases backed.invariant with untouched | ⟨⟨lists, consistent⟩, pointers⟩
          · rw [untouched.live] at isLive
            simp at isLive
          · have base := consistent.base
            have behind := platform.behind
            have memory := (backed.secured (by omega)).backed consistent
            obtain ⟨address, header⟩ := pointers ptr request isLive
            obtain ⟨shape, inHand⟩ := pointers.liveBlocks_update_none isLive
            have cell :
                world.state.basePtr + (liveBlock platform ptr request).start = ptr - 8 := by
              omega
            rw [shape] at consistent memory
            obtain ⟨granted, secured⟩ := consistent.bfree_links memory inHand
              (show ptr = world.state.basePtr + (liveBlock platform ptr request).start + 8 by
                omega)
              (by rw [cell]; exact header) rfl
            exact ⟨⟨granted, by simp⟩, invariant, fun _ => secured⟩
  | write ptr cells =>
      obtain ⟨writes, rfl⟩ := step
      refine ⟨⟨by simp [Op.links], by simp⟩, invariant, ?_⟩
      intro setUp
      obtain ⟨lists, consistent, memory⟩ := backed.secured setUp
      obtain ⟨newLists, newConsistent⟩ := (invariant.resolve_left fun untouched =>
        setUp untouched.base).heap
      refine ⟨newLists, newConsistent, ?_⟩
      rw [newConsistent.heap.free_unique consistent.heap]
      exact ⟨memory.free, memory.used⟩

/--
In a run every entry that is linked and every block that is returned lies below `max_ptr`
at that moment exactly when the call that sets the allocator up is granted its first 16
bytes.
-/
theorem links_below_max_ptr_iff
    (platform : Platform)
    (memory : Links Nat)
    (ops : List Op) :
    StepsSatisfy (Step platform) (World.initial memory) ops
        (fun before op after => StepGranted platform before op after) ↔
      StepsSatisfy (Step platform) (World.initial memory) ops
        (fun before op _ => GrantsFirst platform before op) := by
  constructor
  · intro granted earlier op later before after shape run step
    have here := granted earlier op later before after shape run step
    cases op with
    | bmalloc request answers =>
        intro notSetUp fits
        by_contra refuses
        have first : (⟨platform.programBreak, platform.programBreak⟩ : Link) ∈
            Op.links platform before (.bmalloc request answers) := by
          rw [Op.links, bmallocLinks, if_neg (by omega)]
          simp only [notSetUp, if_true]
          rw [initialiseLinks_refused (by simpa using refuses)]
          exact List.mem_append_left _ (List.mem_singleton.mpr rfl)
        have below := here.links _ first
        simp [Link.Granted] at below
    | bfree ptr => trivial
    | write ptr cells => trivial
  · intro grants
    have initially : MemoryBacked platform (World.initial memory) :=
      ⟨invariant_initial memory, fun setUp => absurd rfl setUp⟩
    exact grants.mono initially (fun backed step first => (backed.step step first).2)
      fun backed step first => (backed.step step first).1

/--
The first call is a request for 8 bytes and `brk` refuses everything: `base_ptr` is linked
while `max_ptr` is `base_ptr`.
-/
theorem refused_break_is_written_to :
    let start := World.initial ⟨fun _ => 0, fun _ => 0⟩
    let refuse := Brk.ofAddress fun _ => false
    Step samplePlatform start (.bmalloc 8 refuse) (start.afterMalloc samplePlatform refuse 8) ∧
      ∃ link ∈ Op.links samplePlatform start (.bmalloc 8 refuse),
        link.entry = 8192 ∧ link.maxPtr = 8192 ∧ ¬ link.Granted := by
  refine ⟨⟨by decide, rfl⟩, ⟨8192, 8192⟩, ?_, rfl, rfl, ?_⟩
  · rw [Op.links, bmallocLinks, if_neg (by decide)]
    simp only [World.initial, if_true]
    rw [initialiseLinks_refused rfl]
    exact List.mem_append_left _ (List.mem_singleton.mpr rfl)
  · simp [Link.Granted]

end Sysprog.Buddy
