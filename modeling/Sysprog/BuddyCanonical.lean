import Mathlib.Order.CompletePartialOrder
import Mathlib.Order.Interval.Set.Disjoint
import Sysprog.BuddyHistory

namespace Sysprog.Buddy

open CircularList DyadicBlocks Block Execution MachineWord

/-!
# Live blocks determine the rest

Since free buddies are always merged, the live blocks and the size of the tree determine
the free blocks and the bits, whatever the history.  For the same reason a request fails,
as long as memory is granted, only when no block of its size is left.
-/

variable
  {platform : Platform}
  {state : State}
  {world : World}
  {lists : Nat → List Nat}
  {used : Set Block}

/-! ## Free sets -/

/-- The entries of the free list of a bucket, once the allocator is set up. -/
def freeSet (platform : Platform) (state : State) (bucket : Nat) : Set Nat :=
  { entry |
    state.basePtr ≠ 0 ∧
      state.bucketLimit ≤ bucket ∧
      bucket ≤ 27 ∧
      ∃ freeList, Ring state.cells (bucketHead platform bucket) freeList ∧ entry ∈ freeList }

/-- The free blocks of all buckets and the bits of two states are the same. -/
structure SameFree (platform : Platform) (first second : State) : Prop where
  free : ∀ bucket, freeSet platform first bucket = freeSet platform second bucket
  bits : ∀ index, splitBitAt first index = splitBitAt second index

/-- The free list of a bucket has the free blocks of its size. -/
theorem Consistent.mem_freeSet
    {bucket address : Nat}
    (consistent : Consistent platform state lists used) :
    address ∈ freeSet platform state bucket ↔
      bucket ≤ 27 ∧
        ∃ block ∈ freeBlocks lists,
          block.exponent = 31 - bucket ∧ state.basePtr + block.start = address := by
  have setUp : state.basePtr ≠ 0 := by
    have base := consistent.base
    have behind := platform.behind
    omega
  constructor
  · rintro ⟨_, atLeast, atMost, freeList, ring, member⟩
    have own := consistent.rings (31 - bucket) (by omega) (by omega)
    rw [Nat.sub_sub_self (by omega)] at own
    rw [ring.unique own] at member
    obtain ⟨index, inFree, same⟩ := mem_entries.mp member
    exact ⟨atMost, _, inFree, rfl, same⟩
  · rintro ⟨atMost, ⟨exponent, index⟩, inFree, rfl, same⟩
    have bounds := consistent.exponent_bounds (Or.inl inFree)
    have limit := consistent.limit
    simp only at bounds
    have own := consistent.rings (31 - bucket) (by omega) (by omega)
    rw [Nat.sub_sub_self (by omega)] at own
    exact ⟨setUp, by omega, atMost, _, own, mem_entries.mpr ⟨index, inFree, same⟩⟩

/-- Two states with the same free blocks in a tree of the same size look the same. -/
theorem Consistent.sameFree
    {other : State}
    {otherLists : Nat → List Nat}
    {otherUsed : Set Block}
    (consistent : Consistent platform state lists used)
    (otherConsistent : Consistent platform other otherLists otherUsed)
    (sameLimit : state.bucketLimit = other.bucketLimit)
    (sameBlocks : freeBlocks lists = freeBlocks otherLists) :
    SameFree platform state other where
  free := by
    intro bucket
    ext address
    rw [consistent.mem_freeSet, otherConsistent.mem_freeSet, sameBlocks, consistent.base,
      otherConsistent.base]
  bits := by
    intro index
    by_cases inArray : index < 2 ^ 27 - 1
    · obtain ⟨node, inside, large, rfl⟩ := exists_nodeIndex inArray
      rw [Bool.eq_iff_iff, consistent.bits.nodes node inside large,
        otherConsistent.bits.nodes node inside large, sameLimit, sameBlocks]
    · rw [consistent.bits.rest index (by omega), otherConsistent.bits.rest index (by omega)]

/-- What is live and the size of the tree determine the free blocks and the bits. -/
theorem Invariant.sameFree
    {other : World}
    (invariant : Invariant platform world)
    (otherInvariant : Invariant platform other)
    (sameBase : world.state.basePtr = other.state.basePtr)
    (sameLimit : world.state.bucketLimit = other.state.bucketLimit)
    (sameLive : liveBlocks platform world.live = liveBlocks platform other.live) :
    SameFree platform world.state other.state := by
  have behind := platform.behind
  rcases invariant with untouched | ⟨⟨lists, consistent⟩, _⟩
  · rcases otherInvariant with otherUntouched | ⟨⟨otherLists, otherConsistent⟩, _⟩
    · refine ⟨?_, ?_⟩
      · intro bucket
        simp only [freeSet, untouched.base, otherUntouched.base, ne_eq, not_true, false_and]
      · intro index
        rw [untouched.clear, otherUntouched.clear]
    · have base := untouched.base
      have otherBase := otherConsistent.base
      omega
  · rcases otherInvariant with otherUntouched | ⟨⟨otherLists, otherConsistent⟩, _⟩
    · have base := consistent.base
      have otherBase := otherUntouched.base
      omega
    · have otherHeap := otherConsistent.heap
      rw [← sameLive, ← sameLimit] at otherHeap
      exact consistent.sameFree otherConsistent sameLimit (consistent.heap.free_unique otherHeap)

/-! ## Freeing several blocks -/

/-- The world after `bfree` of these pointers, one after the other. -/
def World.freeAll (platform : Platform) (world : World) (ptrs : List Nat) : World :=
  ptrs.foldl (fun world ptr => world.afterFree platform (some ptr)) world

/-- Merging blocks changes neither the place nor the size of the tree. -/
theorem mergeLoop_limit (rounds i bucket : Nat) :
    (mergeLoop rounds i bucket state).2.bucketLimit = state.bucketLimit ∧
      (mergeLoop rounds i bucket state).2.basePtr = state.basePtr := by
  induction rounds generalizing i bucket state with
  | zero =>
      exact ⟨rfl, rfl⟩
  | succ rounds inductionHypothesis =>
      simp only [mergeLoop]
      split
      · split
        · exact ⟨rfl, rfl⟩
        · exact inductionHypothesis _ _
      · exact ⟨rfl, rfl⟩

theorem bfree_limit (ptr : Option Nat) :
    (bfree platform state ptr).bucketLimit = state.bucketLimit ∧
      (bfree platform state ptr).basePtr = state.basePtr := by
  cases ptr with
  | none =>
      exact ⟨rfl, rfl⟩
  | some ptr =>
      simp only [bfree, listPush]
      exact mergeLoop_limit _ _ _

/-- What freeing several live pointers leaves. -/
theorem freeAll_spec
    {memory : Links Nat}
    {ptrs : List Nat}
    (reachable : Reachable (Step platform) (World.initial memory) world)
    (distinct : ptrs.Nodup)
    (isLive : ∀ ptr ∈ ptrs, (world.live ptr).isSome) :
    Reachable (Step platform) (World.initial memory) (world.freeAll platform ptrs) ∧
      (world.freeAll platform ptrs).state.bucketLimit = world.state.bucketLimit ∧
      (world.freeAll platform ptrs).state.basePtr = world.state.basePtr ∧
      ∀ ptr, (world.freeAll platform ptrs).live ptr =
        if ptr ∈ ptrs then none else world.live ptr := by
  induction ptrs generalizing world with
  | nil =>
      exact ⟨reachable, rfl, rfl, by simp [World.freeAll]⟩
  | cons first rest inductionHypothesis =>
      rw [List.nodup_cons] at distinct
      have step : Step platform world (.bfree (some first))
          (world.afterFree platform (some first)) := by
        refine ⟨?_, rfl⟩
        rintro address same
        obtain rfl := Option.some.inj same
        exact isLive first List.mem_cons_self
      have restLive : ∀ ptr ∈ rest,
          ((world.afterFree platform (some first)).live ptr).isSome := by
        intro ptr member
        have different : ptr ≠ first := by
          rintro rfl
          exact distinct.1 member
        simp only [World.afterFree, Function.update_of_ne different]
        exact isLive ptr (List.mem_cons_of_mem _ member)
      obtain ⟨reached, sameLimit, sameBase, left⟩ :=
        inductionHypothesis (reachable.next step) distinct.2 restLive
      have kept := @bfree_limit platform world.state (some first)
      refine ⟨reached, sameLimit.trans kept.1, sameBase.trans kept.2, ?_⟩
      intro ptr
      refine (left ptr).trans ?_
      by_cases same : ptr = first
      · subst same
        simp [World.afterFree, distinct.1]
      · simp [World.afterFree, same]

/--
Two reachable states with the same heap and the same live blocks have the same free
blocks in every bucket and the same bits.  Hence the order in which live blocks are freed
does not matter, and freeing all of them leaves the root and no bit.
-/
theorem free_blocks_canonical (platform : Platform) :
    (∀ memory otherMemory first second,
      Reachable (Step platform) (World.initial memory) first →
      Reachable (Step platform) (World.initial otherMemory) second →
      first.state.basePtr = second.state.basePtr →
      first.state.bucketLimit = second.state.bucketLimit →
      liveBlocks platform first.live = liveBlocks platform second.live →
      SameFree platform first.state second.state) ∧
      (∀ memory world (one other : List Nat),
        Reachable (Step platform) (World.initial memory) world →
        one.Nodup →
        other.Nodup →
        (∀ ptr, ptr ∈ one ↔ ptr ∈ other) →
        (∀ ptr ∈ one, (world.live ptr).isSome) →
        SameFree platform (world.freeAll platform one).state
          (world.freeAll platform other).state) ∧
      ∀ memory world (ptrs : List Nat),
        Reachable (Step platform) (World.initial memory) world →
        world.state.basePtr ≠ 0 →
        ptrs.Nodup →
        (∀ ptr, ptr ∈ ptrs ↔ (world.live ptr).isSome) →
        (∀ bucket,
          freeSet platform (world.freeAll platform ptrs).state bucket =
            if bucket = world.state.bucketLimit then {world.state.basePtr} else ∅) ∧
          ∀ index, splitBitAt (world.freeAll platform ptrs).state index = false := by
  refine ⟨?_, ?_, ?_⟩
  · intro memory otherMemory first second firstReachable secondReachable sameBase sameLimit sameLive
    exact (invariant_reachable firstReachable).sameFree (invariant_reachable secondReachable)
      sameBase sameLimit sameLive
  · intro memory world one other reachable distinct otherDistinct sameSet isLive
    obtain ⟨reached, limit, base, left⟩ := freeAll_spec reachable distinct isLive
    obtain ⟨otherReached, otherLimit, otherBase, otherLeft⟩ :=
      freeAll_spec reachable otherDistinct fun ptr member => isLive ptr ((sameSet ptr).mpr member)
    have sameLive : (world.freeAll platform one).live = (world.freeAll platform other).live := by
      funext ptr
      rw [left, otherLeft]
      simp only [sameSet]
    exact (invariant_reachable reached).sameFree (invariant_reachable otherReached)
      (base.trans otherBase.symm) (limit.trans otherLimit.symm) (by rw [sameLive])
  · intro memory world ptrs reachable setUp distinct allLive
    obtain ⟨reached, sameLimit, sameBase, left⟩ :=
      freeAll_spec reachable distinct fun ptr member => (allLive ptr).mp member
    have nothing : ∀ ptr, (world.freeAll platform ptrs).live ptr = none := by
      intro ptr
      rw [left]
      by_cases member : ptr ∈ ptrs
      · rw [if_pos member]
      · rw [if_neg member]
        simpa [allLive] using member
    obtain ⟨lists, consistent⟩ := (represented_of_reachable reached (by rwa [sameBase])).heap
    rw [liveBlocks_empty nothing] at consistent
    generalize world.freeAll platform ptrs = final at *
    have isRoot : freeBlocks lists = {root (31 - world.state.bucketLimit)} := by
      rw [← sameLimit]
      exact consistent.heap.free_unique (.single _)
    have limit := consistent.limit
    refine ⟨?_, ?_⟩
    · intro bucket
      ext address
      rw [consistent.mem_freeSet, isRoot, sameBase]
      by_cases same : bucket = world.state.bucketLimit
      · subst same
        simp only [Set.mem_singleton_iff, exists_eq_left, root, start, if_pos, Nat.zero_mul,
          Nat.add_zero, true_and]
        exact ⟨fun found => found.2.symm, fun same => ⟨by omega, same.symm⟩⟩
      · simp only [Set.mem_singleton_iff, exists_eq_left, root, if_neg same,
          Set.mem_empty_iff_false, iff_false]
        omega
    · intro index
      by_cases inArray : index < 2 ^ 27 - 1
      · obtain ⟨node, inside, large, rfl⟩ := exists_nodeIndex inArray
        rw [← Bool.not_eq_true, consistent.bits.nodes node inside large, isRoot, sameLimit]
        exact Heap.splitBit_single (by omega)
      · exact consistent.bits.rest index (by omega)

/-- The only live block of the sample world. -/
theorem sampleWorld_live : sampleWorld.live = Function.update (fun _ => none) 8200 (some 24) := by
  have returned : (bmalloc samplePlatform (.ofAddress fun _ => true)
      (World.initial ⟨fun _ => 0, fun _ => 0⟩).state 24).1 = some 8200 := by
    decide +kernel
  rw [sampleWorld, World.afterMalloc]
  generalize bmalloc samplePlatform (.ofAddress fun _ => true) _ 24 = result at returned ⊢
  obtain ⟨ptr, after⟩ := result
  obtain rfl : ptr = some 8200 := returned
  rfl

theorem free_blocks_canonical_sampleWorld :
    ∀ index, splitBitAt (sampleWorld.freeAll samplePlatform [8200]).state index = false := by
  refine ((free_blocks_canonical samplePlatform).2.2 ⟨fun _ => 0, fun _ => 0⟩ sampleWorld [8200]
    sampleWorld_reachable (by decide) (by simp) ?_).2
  intro ptr
  rw [sampleWorld_live, List.mem_singleton]
  by_cases same : ptr = 8200
  · simp [same]
  · simp [same]

/-! ## Requests that fail -/

/-- `brk` never fails. -/
def always : Nat → Bool :=
  fun _ => true

theorem updateMaxPtr_always (newValue : Nat) :
    ∃ maxPtr, updateMaxPtr always state newValue = some { state with maxPtr := maxPtr } := by
  rw [updateMaxPtr]
  split
  · exact ⟨newValue, rfl⟩
  · exact ⟨state.maxPtr, rfl⟩

theorem lowerLoop_always (bucket rounds : Nat) :
    (lowerLoop platform always bucket rounds state).1 = true := by
  induction rounds generalizing state with
  | zero =>
      rfl
  | succ rounds inductionHypothesis =>
      rw [lowerLoop]
      split
      · cases round : lowerOnce platform always state with
        | none =>
            simp only [lowerOnce] at round
            split at round
            · simp at round
            · obtain ⟨maxPtr, reserved⟩ :=
                @updateMaxPtr_always state (ptrForNode state
                  (nodeForPtr state state.basePtr state.bucketLimit + 1) state.bucketLimit + 16)
              simp [reserved] at round
        | some after => exact inductionHypothesis
      · rfl

/-- A block that is found is used. -/
theorem allocateFrom_always (request originalBucket bucket ptr : Nat) :
    (allocateFrom platform always state request originalBucket bucket ptr).1 = some (ptr + 8) := by
  obtain ⟨maxPtr, reserved⟩ := @updateMaxPtr_always state
    (ptr + if bucket < originalBucket then 2 ^ (31 - bucket) / 2 + 16 else 2 ^ (31 - bucket))
  simp only [allocateFrom, reserved]

/-- A search fails only in the tree of the whole range, without a block that is large enough. -/
theorem Consistent.search_none
    {request originalBucket bucket : Nat}
    (consistent : Consistent platform state lists used)
    (inside : state.bucketLimit ≤ bucket)
    (smallest : bucket ≤ 27)
    (failed : (Buddy.search platform always request originalBucket bucket state).1 = none) :
    state.bucketLimit = 0 ∧ ∀ between, between ≤ bucket → lists (31 - between) = [] := by
  obtain ⟨level, atLeast, atMost, skipped, stops⟩ := exists_stop lists inside
  rw [consistent.search_skips atLeast atMost smallest skipped] at failed
  rcases List.eq_nil_or_concat' (lists (31 - level)) with empty | ⟨front, index, shape⟩
  · obtain rfl : level = state.bucketLimit := stops.resolve_right (not_not_intro empty)
    rcases Nat.eq_zero_or_pos state.bucketLimit with last | notLast
    · refine ⟨last, ?_⟩
      intro between most
      rcases Nat.eq_zero_or_pos between with rfl | above
      · rwa [last] at empty
      · exact skipped between (by omega) most
    · rw [consistent.search_root notLast empty] at failed
      obtain ⟨maxPtr, reserved⟩ := @updateMaxPtr_always state
        (state.basePtr + 2 ^ (31 - state.bucketLimit) + 16)
      simp only [reserved, allocateFrom_always, reduceCtorEq] at failed
  · rw [consistent.search_found atLeast (by omega) shape, allocateFrom_always] at failed
    simp at failed

/-- The block shares no offset with the blocks in use. -/
def Unused (used : Set Block) (block : Block) : Prop :=
  ∀ other ∈ used, ∀ offset, block.Holds offset → ¬ other.Holds offset

/-- `bmalloc` fails exactly when every block of the size is in use. -/
theorem Consistent.search_none_iff
    {request bucket : Nat}
    (consistent : Consistent platform state lists used)
    (smallest : bucket ≤ 27) :
    (Buddy.search platform always request bucket bucket state).1 = none ↔
      ¬ ∃ block : Block,
        block.exponent = 31 - bucket ∧ Within block (root 31) ∧ Unused used block := by
  constructor
  · rintro failed ⟨block, size, inRange, unused⟩
    obtain ⟨⟨lowered, grown⟩, _, reached⟩ :=
      @Consistent.lowerBucketLimit _ always _ _ _ consistent bucket
    have granted : (Buddy.lowerBucketLimit platform always state bucket).1 = true :=
      lowerLoop_always _ _
    cases outcome : Buddy.lowerBucketLimit platform always state bucket with
    | mk succeeded after =>
        simp only [outcome] at grown reached granted
        subst granted
        have inside : after.bucketLimit ≤ bucket := by
          rw [reached rfl]
          exact Nat.min_le_right _ _
        rw [search_lower outcome inside] at failed
        obtain ⟨last, empty⟩ := grown.search_none inside smallest failed
        have heap := grown.heap
        rw [last] at heap
        obtain ⟨owner, member, within⟩ :=
          heap.entirelyFree_iff.mp (heap.entirelyFree_of_apart inRange unused)
        have bounds := heap.tiles.within owner (Or.inl member)
        have larger := within.1
        have smaller := bounds.1
        simp only [root] at smaller
        have noOwner := empty (31 - owner.exponent) (by omega)
        rw [Nat.sub_sub_self (by omega)] at noOwner
        rw [mem_freeBlocks, noOwner] at member
        simp at member
  · intro noBlock
    have allocates := @Consistent.search _ always _ _ _ request _ consistent smallest
    cases outcome : Buddy.search platform always request bucket bucket state with
    | mk ptr after =>
        cases ptr with
        | none => rfl
        | some ptr =>
            rw [outcome] at allocates
            obtain ⟨block, size, fresh, _, _, ⟨filled, final⟩, _⟩ := allocates
            have member : block ∈ freeBlocks filled ∪ insert block used := Or.inr (Or.inl rfl)
            refine absurd ⟨block, size, final.within_range member, ?_⟩ noBlock
            intro other inUse offset holds otherHolds
            obtain rfl := final.heap.tiles.unique offset block member other
              (Or.inr (Or.inr inUse)) holds otherHolds
            exact fresh inUse

/-- `base_ptr`, which the first call sets to the program break. -/
def heapStart (platform : Platform) (world : World) : Nat :=
  if world.state.basePtr = 0 then platform.programBreak else world.state.basePtr

/-- The bytes of the block behind a live pointer. -/
def liveRange (ptr request : Nat) : Set Nat :=
  Set.Ico (ptr - 8) (ptr - 8 + 2 ^ (31 - requestBucket request))

/-- A range of the heap, aligned to its size, that no live block meets. -/
structure Available (platform : Platform) (world : World) (size start : Nat) : Prop where
  above : heapStart platform world ≤ start
  aligned : size ∣ start - heapStart platform world
  below : start + size ≤ heapStart platform world + 2 ^ 31
  unused :
    ∀ ptr request,
      world.live ptr = some request → Disjoint (Set.Ico start (start + size)) (liveRange ptr request)

/-- In every reachable state `base_ptr` is unset or the program break. -/
theorem Invariant.heapStart_eq
    (invariant : Invariant platform world) :
    heapStart platform world = platform.programBreak := by
  rcases invariant with untouched | ⟨⟨lists, consistent⟩, _⟩
  · rw [heapStart, if_pos untouched.base]
  · rw [heapStart, consistent.base]
    split <;> rfl

/-- A byte is in the range of a live block when its offset is in the block. -/
theorem Invariant.mem_liveRange
    {ptr request byte : Nat}
    (invariant : Invariant platform world)
    (isLive : world.live ptr = some request) :
    byte ∈ liveRange ptr request ↔
      platform.programBreak ≤ byte ∧
        (liveBlock platform ptr request).Holds (byte - platform.programBreak) := by
  rcases invariant with untouched | ⟨_, pointers⟩
  · rw [untouched.live] at isLive
    simp at isLive
  · obtain ⟨address, _⟩ := pointers ptr request isLive
    rw [liveRange, Set.mem_Ico, holds_iff_range]
    simp only [liveBlock] at address ⊢
    omega

/-- The available ranges are the blocks that no live block meets. -/
theorem Invariant.available_iff
    {bucket : Nat}
    (invariant : Invariant platform world)
    (smallest : bucket ≤ 27) :
    (∃ start, Available platform world (2 ^ (31 - bucket)) start) ↔
      ∃ block : Block,
        block.exponent = 31 - bucket ∧
          Within block (root 31) ∧
          Unused (liveBlocks platform world.live) block := by
  have base := invariant.heapStart_eq
  have positive := Nat.two_pow_pos (31 - bucket)
  have range : 2 ^ bucket * 2 ^ (31 - bucket) = 2 ^ 31 := by
    rw [← Nat.pow_add, show bucket + (31 - bucket) = 31 by omega]
  constructor
  · rintro ⟨start, above, ⟨index, aligned⟩, below, unused⟩
    rw [base] at above aligned below
    refine ⟨⟨31 - bucket, index⟩, rfl, ?_, ?_⟩
    · rw [within_root]
      simp only [Nat.sub_sub_self (show bucket ≤ 31 by omega)]
      refine ⟨by omega, Nat.lt_of_mul_lt_mul_left (a := 2 ^ (31 - bucket)) ?_⟩
      rw [Nat.mul_comm _ (2 ^ bucket), range, ← aligned]
      omega
    · rintro other ⟨ptr, request, isLive, rfl⟩ offset holds otherHolds
      have inRange : platform.programBreak + offset ∈ Set.Ico start (start + 2 ^ (31 - bucket)) := by
        rw [holds_iff_range] at holds
        simp only [Block.start, Nat.mul_comm index] at holds
        rw [Set.mem_Ico]
        omega
      have inLive : platform.programBreak + offset ∈ liveRange ptr request := by
        rw [invariant.mem_liveRange isLive, Nat.add_sub_cancel_left]
        exact ⟨Nat.le_add_right _ _, otherHolds⟩
      exact Set.disjoint_left.mp (unused ptr request isLive) inRange inLive
  · rintro ⟨⟨exponent, index⟩, rfl, inside, unused⟩
    rw [within_root] at inside
    simp only [Nat.sub_sub_self (show bucket ≤ 31 by omega)] at inside
    have fits : (index + 1) * 2 ^ (31 - bucket) ≤ 2 ^ 31 := by
      rw [← range]
      exact Nat.mul_le_mul_right _ inside.2
    refine ⟨platform.programBreak + index * 2 ^ (31 - bucket), ?_, ?_, ?_, ?_⟩
    · rw [base]
      omega
    · rw [base, Nat.add_sub_cancel_left]
      exact Dvd.intro_left index rfl
    · rw [base]
      rw [Nat.add_mul] at fits
      omega
    · intro ptr request isLive
      rw [Set.disjoint_left]
      intro byte inRange inLive
      rw [Set.mem_Ico] at inRange
      rw [invariant.mem_liveRange isLive] at inLive
      refine unused _ ⟨ptr, request, isLive, rfl⟩ (byte - platform.programBreak) ?_ inLive.2
      rw [holds_iff_range]
      simp only [Block.start]
      omega

/-- With a `brk` that does not fail, `bmalloc` fails for want of a range only. -/
theorem Invariant.bmalloc_none_iff
    {request : Nat}
    (invariant : Invariant platform world)
    (fits : add request 8 ≤ 2 ^ 31) :
    (bmalloc platform (.ofAddress always) world.state request).1 = none ↔
      ¬ ∃ start, Available platform world (2 ^ (31 - requestBucket request)) start := by
  have smallest : requestBucket request ≤ 27 := bucketForRequest_le _
  rw [invariant.available_iff smallest, bmalloc, if_neg (by omega)]
  rcases invariant with untouched | ⟨⟨lists, consistent⟩, _⟩
  · simp only [untouched.base, if_true]
    have consistent : Consistent platform (initialise platform always world.state) (rootLists 4)
        (liveBlocks platform world.live) := by
      rw [liveBlocks_empty untouched.live]
      exact consistent_initialise untouched.clear untouched.removals
    exact consistent.search_none_iff smallest
  · have setUp : world.state.basePtr ≠ 0 := by
      have base := consistent.base
      have behind := platform.behind
      omega
    simp only [if_neg setUp]
    exact consistent.search_none_iff smallest

/--
As long as `brk` does not fail, a request that is not too large fails exactly when every
aligned range of its size meets a live block.
-/
theorem bmalloc_null_iff_no_range
    {memory : Links Nat}
    (reachable : Reachable (Step platform) (World.initial memory) world)
    (request : Nat)
    (fits : request + 8 ≤ 2 ^ 31) :
    (bmalloc platform (.ofAddress always) world.state request).1 = none ↔
      ¬ ∃ start,
        Available platform world (2 ^ (31 - bucketForRequest (request + 8))) start := by
  have noWrap : add request 8 = request + 8 := add_of_lt (by unfold words; omega)
  have bucketEq : bucketForRequest (request + 8) = requestBucket request := by
    rw [requestBucket, noWrap]
  rw [bucketEq]
  exact (invariant_reachable reachable).bmalloc_none_iff (by omega)

/-- A second request for half of the sample heap's range succeeds. -/
theorem bmalloc_null_iff_no_range_sampleWorld :
    (bmalloc samplePlatform (.ofAddress always) sampleWorld.state (2 ^ 30 - 8)).1 ≠ none := by
  rw [ne_eq, bmalloc_null_iff_no_range sampleWorld_reachable (2 ^ 30 - 8) (by decide), not_not]
  refine ⟨8192 + 2 ^ 30, ?_, ?_, ?_, ?_⟩
  · decide
  · decide
  · decide
  · intro ptr request isLive
    rw [sampleWorld_live] at isLive
    by_cases same : ptr = 8200
    · obtain rfl := same
      obtain rfl : 24 = request := by simpa using isLive
      rw [Set.disjoint_left]
      intro byte inRange inLive
      rw [Set.mem_Ico] at inRange
      rw [liveRange, Set.mem_Ico] at inLive
      have size : 2 ^ (31 - requestBucket 24) = 32 := by decide
      omega
    · simp [same] at isLive

end Sysprog.Buddy
