import Sysprog.BuddyGrowth

namespace Sysprog.Buddy

open CircularList DyadicBlocks Block MachineWord

/-!
# Allocation and release

`bmalloc` adds one used block of the right size to the heap or leaves the used blocks as
they are, and `bfree` removes one.  Neither touches the header of another block.
-/

variable
  {platform : Platform}
  {brk : Nat → Bool}
  {state : State}
  {lists : Nat → List Nat}
  {block : Block}
  {used rest : Set Block}

/-! ## Splitting -/

/-- The leftmost part of a block, some levels down. -/
def descend (block : Block) (levels : Nat) : Block :=
  { exponent := block.exponent - levels, index := block.index * 2 ^ levels }

theorem descend_zero : descend block 0 = block := by
  simp [descend]

theorem descend_succ (levels : Nat) : descend block (levels + 1) = descend block.left levels := by
  simp only [descend, left, Block.mk.injEq]
  refine ⟨by omega, ?_⟩
  rw [Nat.pow_succ]
  ring

theorem start_descend {levels : Nat} (inside : levels ≤ block.exponent) :
    (descend block levels).start = block.start := by
  rw [start, start, descend]
  simp only
  rw [Nat.mul_assoc, ← Nat.pow_add, Nat.add_sub_cancel' inside]

/-- The splitting loop of `bmalloc` keeps the leftmost part in hand. -/
theorem Consistent.splitLoop
    {rounds : Nat}
    (consistent : Consistent platform state lists (insert block rest))
    (inHand : block ∉ rest)
    (deep : rounds + 4 ≤ block.exponent) :
    let after := splitLoop platform rounds (nodeIndex block) (31 - block.exponent) state
    (∃ divided,
        Consistent platform after divided (insert (descend block rounds) rest) ∧
          ∀ exponent,
            exponent < block.exponent - rounds ∨ block.exponent ≤ exponent →
              divided exponent = lists exponent) ∧
      Keeps rest state after ∧
      descend block rounds ∉ rest := by
  induction rounds generalizing state lists block with
  | zero =>
      rw [descend_zero]
      exact ⟨⟨lists, consistent, fun _ _ => rfl⟩, .refl _ _, inHand⟩
  | succ rounds inductionHypothesis =>
      obtain ⟨cut, kept, leftOutside⟩ := consistent.split_hand inHand (by omega)
      obtain ⟨⟨divided, split, sameLists⟩, keptOn, outside⟩ :=
        inductionHypothesis cut leftOutside (by simp only [left]; omega)
      have small := (consistent.within_range (Or.inr (Set.mem_insert block rest))).1
      simp only [root] at small
      have bucket : 31 - block.exponent + 1 = 31 - block.left.exponent := by
        simp only [left]
        omega
      simp only [Buddy.splitLoop]
      rw [nodeIndex_left (by omega) small, bucket, descend_succ]
      refine ⟨⟨divided, split, fun exponent apart => ?_⟩, kept.trans keptOn, outside⟩
      have elsewhere : exponent ≠ block.right.exponent := by
        simp only [right]
        omega
      rw [sameLists exponent (by simp only [left]; omega), pushed, Function.update_of_ne elsewhere]

/-! ## Taking a block -/

/-- What `bmalloc` achieves, from a state with these used blocks. -/
def Allocates
    (platform : Platform)
    (state : State)
    (used : Set Block)
    (request exponent : Nat) : Option Nat × State → Prop
  | (none, after) =>
      (∃ lists, Consistent platform after lists used) ∧ Keeps used state after
  | (some ptr, after) =>
      ∃ block : Block,
        block.exponent = exponent ∧
          block ∉ used ∧
          ptr = state.basePtr + block.start + 8 ∧
          after.cells.prev (state.basePtr + block.start) = request ∧
          (∃ lists, Consistent platform after lists (insert block used)) ∧
          Keeps used state after

/-- Earlier changes that keep the headers do not matter. -/
theorem Allocates.after
    {earlier : State}
    {request exponent : Nat}
    {result : Option Nat × State}
    (allocates : Allocates platform state used request exponent result)
    (kept : Keeps used earlier state) :
    Allocates platform earlier used request exponent result := by
  obtain ⟨ptr, after⟩ := result
  cases ptr with
  | none =>
      obtain ⟨consistent, keptOn⟩ := allocates
      exact ⟨consistent, kept.trans keptOn⟩
  | some ptr =>
      obtain ⟨block, size, fresh, address, header, consistent, keptOn⟩ := allocates
      rw [kept.1] at address header
      exact ⟨block, size, fresh, address, header, consistent, kept.trans keptOn⟩

/-- Writing the header of a used block. -/
theorem Consistent.setHeader
    {ptr : Nat}
    (consistent : Consistent platform state lists (insert block rest))
    (inHand : block ∉ rest)
    (address : ptr = state.basePtr + block.start)
    (request : Nat) :
    let after := { state with cells := state.cells.setPrev ptr request }
    Consistent platform after lists (insert block rest) ∧ Keeps rest state after := by
  subst address
  intro after
  have member : block ∈ insert block rest := Set.mem_insert block rest
  refine ⟨⟨consistent.base, consistent.limit, consistent.heap, consistent.smallest, ?_,
    consistent.bits.congr rfl, consistent.removals⟩, rfl, ?_⟩
  · intro exponent atLeast atMost
    refine (consistent.rings exponent atLeast atMost).congr ?_ fun _ _ => rfl
    intro cell inRing
    apply Function.update_of_ne
    rintro rfl
    exact address_outside consistent.base atLeast (consistent.used_noStart member) inRing
  · intro other inRest
    apply Function.update_of_ne
    intro same
    have equal := consistent.startsApart other (Or.inr (Or.inr inRest)) block (Or.inr member)
      (by omega)
    exact inHand (equal ▸ inRest)

/-- A block that cannot be used goes back, and nothing has changed. -/
theorem Consistent.allocateFrom_none
    {front : List Nat}
    {request originalBucket : Nat}
    {after : State}
    (consistent : Consistent platform state lists used)
    (shape : lists block.exponent = front ++ [block.index])
    (failed :
      Buddy.allocateFrom platform brk (listRemove state (state.basePtr + block.start)) request
          originalBucket (31 - block.exponent) (state.basePtr + block.start) =
        (none, after)) :
    after = state := by
  simp only [Buddy.allocateFrom] at failed
  split at failed
  · rw [consistent.put_back shape, Prod.mk.injEq] at failed
    exact failed.2.symm
  · simp at failed

/-- What has changed when `bmalloc` cut its block out of the last block of a free list. -/
structure Takes
    (platform : Platform)
    (state : State)
    (lists : Nat → List Nat)
    (used : Set Block)
    (request : Nat)
    (block : Block)
    (levels : Nat)
    (ptr : Nat)
    (after : State)
    (divided : Nat → List Nat) : Prop where
  address : ptr = state.basePtr + block.start + 8
  header : after.cells.prev (state.basePtr + block.start) = request
  consistent : Consistent platform after divided (insert (descend block levels) used)
  fresh : descend block levels ∉ used
  keeps : Keeps used state after
  shape : lists block.exponent = divided block.exponent ++ [block.index]
  sameLists :
    ∀ exponent,
      exponent < block.exponent - levels ∨ block.exponent < exponent →
        divided exponent = lists exponent

/-- What `bmalloc` does with the last block of a free list, once the memory is reserved. -/
theorem Consistent.allocateFrom_takes
    {front : List Nat}
    {request originalBucket ptr : Nat}
    {after : State}
    (consistent : Consistent platform state lists used)
    (shape : lists block.exponent = front ++ [block.index])
    (large : 31 - block.exponent ≤ originalBucket)
    (smallest : originalBucket ≤ 27)
    (allocated :
      Buddy.allocateFrom platform brk (listRemove state (state.basePtr + block.start)) request
          originalBucket (31 - block.exponent) (state.basePtr + block.start) =
        (some ptr, after)) :
    ∃ divided,
      Takes platform state lists used request block (originalBucket - (31 - block.exponent)) ptr
        after divided := by
  have member := mem_freeBlocks_of_shape shape
  have inside := consistent.within_range (Or.inl member)
  have small : block.exponent ≤ 31 := inside.1
  simp only [Buddy.allocateFrom] at allocated
  split at allocated
  · simp at allocated
  · rename_i reserved updated
    obtain ⟨maxPtr, rfl⟩ := updateMaxPtr_some updated
    have number : nodeForPtr
        { listRemove state (state.basePtr + block.start) with maxPtr := maxPtr }
        (state.basePtr + block.start) (31 - block.exponent) = nodeIndex block :=
      nodeForPtr_start small
    rw [number] at allocated
    obtain ⟨taken, keptTaken⟩ := consistent.take_last shape maxPtr
    have fresh : block ∉ used := fun inUsed => consistent.heap.not_free_of_used inUsed member
    have deep : originalBucket - (31 - block.exponent) + 4 ≤ block.exponent := by
      have atLeast := consistent.smallest block (Or.inl member)
      omega
    obtain ⟨⟨divided, split, sameLists⟩, keptSplit, outside⟩ := taken.splitLoop fresh deep
    have kept := keptTaken.trans keptSplit
    have start := @start_descend block (originalBucket - (31 - block.exponent)) (by omega)
    generalize Buddy.splitLoop platform (originalBucket - (31 - block.exponent)) (nodeIndex block)
      (31 - block.exponent) _ = splitState at split kept allocated
    obtain ⟨written, keptHeader⟩ :=
      split.setHeader outside (show state.basePtr + block.start = _ by rw [start, kept.1]) request
    rw [Prod.mk.injEq, Option.some.injEq] at allocated
    obtain ⟨rfl, rfl⟩ := allocated
    refine ⟨divided, rfl, Function.update_self _ _ _, written, outside, kept.trans keptHeader, ?_,
      ?_⟩
    · rw [sameLists _ (Or.inr (Nat.le_refl _)), Function.update_self]
      exact shape
    · intro exponent apart
      rw [sameLists exponent (by omega), Function.update_of_ne (by omega)]

/-- What `bmalloc` does with the last block of a free list. -/
theorem Consistent.allocateFrom
    {front : List Nat}
    {originalBucket : Nat}
    (consistent : Consistent platform state lists used)
    (shape : lists block.exponent = front ++ [block.index])
    (large : 31 - block.exponent ≤ originalBucket)
    (smallest : originalBucket ≤ 27)
    (request : Nat) :
    Allocates platform state used request (31 - originalBucket)
      (allocateFrom platform brk (listRemove state (state.basePtr + block.start)) request
        originalBucket (31 - block.exponent) (state.basePtr + block.start)) := by
  have bounds := consistent.exponent_bounds (Or.inl (mem_freeBlocks_of_shape shape))
  cases outcome :
      Buddy.allocateFrom platform brk (listRemove state (state.basePtr + block.start)) request
        originalBucket (31 - block.exponent) (state.basePtr + block.start) with
  | mk result after =>
      cases result with
      | none =>
          obtain rfl := consistent.allocateFrom_none shape outcome
          exact ⟨⟨lists, consistent⟩, .refl _ _⟩
      | some ptr =>
          obtain ⟨divided, takes⟩ := consistent.allocateFrom_takes shape large smallest outcome
          have start := @start_descend block (originalBucket - (31 - block.exponent)) (by omega)
          refine ⟨descend block (originalBucket - (31 - block.exponent)), ?_, takes.fresh, ?_, ?_,
            ⟨divided, takes.consistent⟩, takes.keeps⟩
          · simp only [descend]
            omega
          · rw [start]
            exact takes.address
          · rw [start]
            exact takes.header

/-! ## The search -/

/-- An empty list at the root means that the heap is in use. -/
theorem Consistent.inUse_of_empty
    (consistent : Consistent platform state lists used)
    (empty : lists (31 - state.bucketLimit) = []) :
    ¬ EntirelyFree (freeBlocks lists) (root (31 - state.bucketLimit)) := by
  intro entirely
  rw [(consistent.lists_eq_rootLists entirely).1, rootLists, if_pos rfl] at empty
  simp at empty

/-- The search at a bucket is one round and what may follow. -/
theorem search_eq_searchRound
    (platform : Platform)
    (brk : Nat → Bool)
    (request originalBucket bucket : Nat) :
    ∃ next, ∀ state,
      search platform brk request originalBucket bucket state =
        searchRound platform brk request originalBucket bucket state next := by
  cases bucket with
  | zero =>
      exact ⟨_, fun _ => rfl⟩
  | succ bucket =>
      exact ⟨_, fun _ => rfl⟩

/-- The search fails when the tree cannot grow to the bucket. -/
theorem search_refused
    {request originalBucket bucket : Nat}
    {after : State}
    (refused : lowerBucketLimit platform brk state bucket = (false, after)) :
    search platform brk request originalBucket bucket state = (none, after) := by
  obtain ⟨next, round⟩ := search_eq_searchRound platform brk request originalBucket bucket
  rw [round, searchRound, refused]

/-- The search starts with growth of the tree to the bucket. -/
theorem search_lower
    {request originalBucket bucket : Nat}
    {after : State}
    (grown : lowerBucketLimit platform brk state bucket = (true, after))
    (inside : after.bucketLimit ≤ bucket) :
    search platform brk request originalBucket bucket state =
      search platform brk request originalBucket bucket after := by
  obtain ⟨next, round⟩ := search_eq_searchRound platform brk request originalBucket bucket
  rw [round, round, searchRound, searchRound, grown, lowerBucketLimit_of_le inside]

section Search

variable
  {request originalBucket bucket : Nat}
  (consistent : Consistent platform state lists used)
  (inside : state.bucketLimit ≤ bucket)
  (smallest : bucket ≤ 27)

include consistent inside smallest

/-- The search takes the last block of a list that is not empty. -/
theorem Consistent.search_found
    {front : List Nat}
    {index : Nat}
    (shape : lists (31 - bucket) = front ++ [index]) :
    search platform brk request originalBucket bucket state =
      Buddy.allocateFrom platform brk
        (listRemove state (state.basePtr + index * 2 ^ (31 - bucket))) request originalBucket
        bucket (state.basePtr + index * 2 ^ (31 - bucket)) := by
  have popped := @Consistent.pop_last _ _ _ ⟨31 - bucket, index⟩ _ _ consistent shape
  simp only [start, Nat.sub_sub_self (show bucket ≤ 31 by omega)] at popped
  obtain ⟨next, round⟩ := search_eq_searchRound platform brk request originalBucket bucket
  rw [round, searchRound, lowerBucketLimit_of_le inside]
  simp only [popped]

/-- The search goes on to the next bucket when a list below the root is empty. -/
theorem Consistent.search_next
    (empty : lists (31 - bucket) = [])
    (below : state.bucketLimit < bucket) :
    search platform brk request originalBucket bucket state =
      search platform brk request originalBucket (bucket - 1) state := by
  have popped := consistent.pop_empty (show 4 ≤ 31 - bucket by omega) (by omega) empty
  rw [Nat.sub_sub_self (show bucket ≤ 31 by omega)] at popped
  cases bucket with
  | zero =>
      omega
  | succ bucket =>
      simp only [search, searchRound, lowerBucketLimit_of_le inside, popped]
      rw [if_pos (Or.inl (by omega))]
      simp

end Search

/-- The search passes over empty lists below the root. -/
theorem Consistent.search_skips
    {request originalBucket level bucket : Nat}
    (consistent : Consistent platform state lists used)
    (inside : state.bucketLimit ≤ level)
    (within : level ≤ bucket)
    (smallest : bucket ≤ 27)
    (empty : ∀ between, level < between → between ≤ bucket → lists (31 - between) = []) :
    search platform brk request originalBucket bucket state =
      search platform brk request originalBucket level state := by
  induction bucket with
  | zero =>
      rw [Nat.le_zero.mp within]
  | succ bucket inductionHypothesis =>
      rcases Nat.lt_or_eq_of_le within with below | same
      · rw [consistent.search_next (by omega) smallest (empty _ below (Nat.le_refl _)) (by omega)]
        apply inductionHypothesis (by omega) (by omega)
        intro between above most
        exact empty between above (by omega)
      · rw [same]

/-- The bucket where the search stops: one with a free block, or the root. -/
theorem exists_stop
    (lists : Nat → List Nat)
    {root bucket : Nat}
    (inside : root ≤ bucket) :
    ∃ level,
      root ≤ level ∧
        level ≤ bucket ∧
        (∀ between, level < between → between ≤ bucket → lists (31 - between) = []) ∧
        (level = root ∨ lists (31 - level) ≠ []) := by
  induction bucket with
  | zero =>
      exact ⟨0, inside, Nat.le_refl _, by omega, Or.inl (by omega)⟩
  | succ bucket inductionHypothesis =>
      by_cases stops : bucket + 1 = root ∨ lists (31 - (bucket + 1)) ≠ []
      · exact ⟨bucket + 1, inside, Nat.le_refl _, by omega, stops⟩
      · obtain ⟨below, empty⟩ := not_or.mp stops
        obtain ⟨level, atLeast, atMost, skipped, reason⟩ := inductionHypothesis (by omega)
        refine ⟨level, atLeast, by omega, ?_, reason⟩
        intro between above most
        rcases Nat.lt_or_eq_of_le most with earlier | last
        · exact skipped between above (by omega)
        · rw [last]
          exact not_not.mp empty

/-- Nothing is left when the root of the whole range is in use. -/
theorem Consistent.search_exhausted
    {request originalBucket : Nat}
    (consistent : Consistent platform state lists used)
    (last : state.bucketLimit = 0)
    (empty : lists 31 = []) :
    search platform brk request originalBucket 0 state = (none, state) := by
  have popped := consistent.pop_empty (show 4 ≤ 31 by omega) (by omega) empty
  simp only [Nat.sub_self] at popped
  simp [search, searchRound, lowerBucketLimit_of_le (Nat.le_of_eq last), popped]

/-- The tree grows when its root is in use and has no free part of the wanted size. -/
theorem Consistent.search_root
    {request originalBucket : Nat}
    (consistent : Consistent platform state lists used)
    (notLast : 0 < state.bucketLimit)
    (empty : lists (31 - state.bucketLimit) = []) :
    search platform brk request originalBucket state.bucketLimit state =
      match updateMaxPtr brk state (state.basePtr + 2 ^ (31 - state.bucketLimit) + 16) with
      | none => (none, state)
      | some reserved =>
          let grown :=
            Buddy.growUsed platform reserved (nodeIndex (root (31 - state.bucketLimit)))
              (state.basePtr + 2 ^ (31 - state.bucketLimit))
          let ptr := state.basePtr + 2 ^ (31 - state.bucketLimit)
          Buddy.allocateFrom platform brk (listRemove grown ptr) request originalBucket
            state.bucketLimit ptr := by
  have limit := consistent.limit
  have inUse := consistent.inUse_of_empty empty
  have popped := consistent.pop_empty (show 4 ≤ 31 - state.bucketLimit by omega) (Nat.le_refl _)
    empty
  rw [Nat.sub_sub_self (show state.bucketLimit ≤ 31 by omega)] at popped
  obtain ⟨next, round⟩ :=
    search_eq_searchRound platform brk request originalBucket state.bucketLimit
  rw [round, searchRound, lowerBucketLimit_of_le (Nat.le_refl _)]
  simp only [popped]
  rw [if_neg (by omega), consistent.lowerBucketLimit_pred notLast,
    consistent.lowerOnce_used notLast inUse]
  cases updated :
      updateMaxPtr brk state (state.basePtr + 2 ^ (31 - state.bucketLimit) + 16) with
  | none =>
      rfl
  | some reserved =>
      obtain ⟨maxPtr, rfl⟩ := updateMaxPtr_some updated
      obtain ⟨_, _, grown, kept⟩ := consistent.growUsed notLast inUse maxPtr
      have shape : pushed lists ⟨31 - state.bucketLimit, 1⟩ (31 - state.bucketLimit) = [] ++ [1] := by
        simp [pushed, empty]
      have upper := @Consistent.pop_last _ _ _ ⟨31 - state.bucketLimit, 1⟩ _ _ grown shape
      simp only [Nat.sub_sub_self (show state.bucketLimit ≤ 31 by omega), start, Nat.one_mul,
        kept.1] at upper
      simp only [Option.map_some, upper, Option.getD_some]

/-- The search at the root when all of it is in use. -/
theorem Consistent.allocates_root
    {request originalBucket : Nat}
    (consistent : Consistent platform state lists used)
    (empty : lists (31 - state.bucketLimit) = [])
    (large : state.bucketLimit ≤ originalBucket)
    (smallest : originalBucket ≤ 27) :
    Allocates platform state used request (31 - originalBucket)
      (search platform brk request originalBucket state.bucketLimit state) := by
  have limit := consistent.limit
  have inUse := consistent.inUse_of_empty empty
  rcases Nat.eq_zero_or_pos state.bucketLimit with last | notLast
  · rw [last] at empty ⊢
    rw [consistent.search_exhausted last empty]
    exact ⟨⟨lists, consistent⟩, .refl _ _⟩
  rw [consistent.search_root notLast empty]
  cases updated :
      updateMaxPtr brk state (state.basePtr + 2 ^ (31 - state.bucketLimit) + 16) with
  | none =>
      exact ⟨⟨lists, consistent⟩, .refl _ _⟩
  | some reserved =>
      obtain ⟨maxPtr, rfl⟩ := updateMaxPtr_some updated
      obtain ⟨_, _, grown, kept⟩ := consistent.growUsed notLast inUse maxPtr
      have shape : pushed lists ⟨31 - state.bucketLimit, 1⟩ (31 - state.bucketLimit) = [] ++ [1] := by
        simp [pushed, empty]
      have taken := @Consistent.allocateFrom _ brk _ _ ⟨31 - state.bucketLimit, 1⟩ _ _
        originalBucket grown shape (by simp only; omega) smallest request
      simp only [Nat.sub_sub_self (show state.bucketLimit ≤ 31 by omega), start, Nat.one_mul,
        kept.1] at taken
      exact taken.after kept

/-- What the search achieves once the tree reaches to its bucket. -/
theorem Consistent.search_inside
    {request originalBucket bucket : Nat}
    (consistent : Consistent platform state lists used)
    (inside : state.bucketLimit ≤ bucket)
    (large : bucket ≤ originalBucket)
    (smallest : originalBucket ≤ 27) :
    Allocates platform state used request (31 - originalBucket)
      (search platform brk request originalBucket bucket state) := by
  obtain ⟨level, atLeast, atMost, skipped, stops⟩ := exists_stop lists inside
  rw [consistent.search_skips atLeast atMost (by omega) skipped]
  rcases List.eq_nil_or_concat' (lists (31 - level)) with empty | ⟨front, index, shape⟩
  · have atRoot : level = state.bucketLimit := stops.resolve_right (not_not_intro empty)
    rw [atRoot] at empty ⊢
    exact consistent.allocates_root empty (by omega) smallest
  · rw [consistent.search_found atLeast (by omega) shape]
    have taken := @Consistent.allocateFrom _ brk _ _ ⟨31 - level, index⟩ _ _ originalBucket
      consistent shape (by simp only; omega) smallest request
    simpa only [Nat.sub_sub_self (show level ≤ 31 by omega), start] using taken

/-- What the search of `bmalloc` achieves. -/
theorem Consistent.search
    {request bucket : Nat}
    (consistent : Consistent platform state lists used)
    (smallest : bucket ≤ 27) :
    Allocates platform state used request (31 - bucket)
      (Buddy.search platform brk request bucket bucket state) := by
  obtain ⟨⟨lowered, grown⟩, kept, reached⟩ :=
    @Consistent.lowerBucketLimit _ brk _ _ _ consistent bucket
  cases outcome : Buddy.lowerBucketLimit platform brk state bucket with
  | mk succeeded after =>
      simp only [outcome] at grown kept reached
      cases succeeded with
      | false =>
          rw [search_refused outcome]
          exact ⟨⟨lowered, grown⟩, kept⟩
      | true =>
          have inside : after.bucketLimit ≤ bucket := by
            rw [reached rfl]
            exact Nat.min_le_right _ _
          rw [search_lower outcome inside]
          exact (grown.search_inside inside (Nat.le_refl _) smallest).after kept

/-! ## Requests -/

/-- The loop of `bucket_for_request` stays among the buckets. -/
private theorem bucketLoop_le (request bucket size : Nat) :
    bucketLoop request bucket size ≤ bucket := by
  induction bucket generalizing size with
  | zero =>
      rfl
  | succ bucket inductionHypothesis =>
      rw [bucketLoop]
      split
      · exact Nat.le_succ_of_le (inductionHypothesis (size * 2))
      · exact Nat.le_refl _

theorem bucketForRequest_le (request : Nat) : bucketForRequest request ≤ 27 :=
  bucketLoop_le request 27 16

/-- What `bmalloc` achieves on a heap that is set up. -/
theorem Consistent.bmalloc
    {answers : Brk}
    (consistent : Consistent platform state lists used)
    (request : Nat) :
    Allocates platform state used request (31 - requestBucket request)
      (Buddy.bmalloc platform answers state request) := by
  have setUp : state.basePtr ≠ 0 := by
    have base := consistent.base
    have behind := platform.behind
    omega
  rw [Buddy.bmalloc]
  split
  · exact ⟨⟨lists, consistent⟩, .refl _ _⟩
  · exact consistent.search (bucketForRequest_le _)

/-! ## Release -/

/-- The buddy of the root is outside of the heap. -/
theorem Consistent.buddy_root
    (consistent : Consistent platform state lists (insert block rest))
    (atRoot : block.exponent = 31 - state.bucketLimit) :
    block.buddy ∉ freeBlocks lists := by
  intro buddyFree
  have isRoot := (consistent.heap.tiles.within block (Or.inr (Set.mem_insert block rest))).eq_of_le
    (Nat.le_of_eq atRoot.symm)
  have outside := (within_root.mp (consistent.heap.tiles.within _ (Or.inl buddyFree))).2
  rw [isRoot] at outside
  simp [buddy, root] at outside

/-- The whole address range has no buddy. -/
theorem Consistent.buddy_top
    (consistent : Consistent platform state lists (insert block rest))
    (number : nodeIndex block = 0) :
    block.buddy ∉ freeBlocks lists := by
  have bounds := consistent.exponent_bounds (Or.inr (Set.mem_insert block rest))
  have isRoot := (nodeIndex_eq_zero (by omega)).mp number
  apply consistent.buddy_root
  rw [isRoot] at bounds ⊢
  simp only [root] at bounds ⊢
  omega

/-- The test of `bfree` after its flip tells whether the buddy stays. -/
theorem Consistent.parentIsSplit_flipped
    (consistent : Consistent platform state lists (insert block rest))
    (smaller : block.exponent < 31 - state.bucketLimit) :
    parentIsSplit (flipParentIsSplit state (nodeIndex block)) (nodeIndex block) = true ↔
      block.buddy ∉ freeBlocks lists := by
  have member : block ∈ insert block rest := Set.mem_insert block rest
  have atLeast := consistent.smallest block (Or.inr member)
  have inside := consistent.within_range (Or.inr member)
  have below : block.exponent < 31 := by omega
  have bit := consistent.bits.nodes block.parent (inside.parent_of_lt below)
    (by simp only [parent]; omega)
  rw [consistent.heap.splitBit_parent member smaller] at bit
  rw [parentIsSplit, splitBitAt_flip, if_pos rfl, nodeIndex_parent below, ← bit]
  simp

/-- What the loop of `bfree` has in hand when it stops, before its last flip. -/
structure MergesInto
    (platform : Platform)
    (state : State)
    (lists : Nat → List Nat)
    (rest : Set Block)
    (block : Block)
    (before : State)
    (merged : Nat → List Nat)
    (final : Block) : Prop where
  consistent : Consistent platform before merged (insert final rest)
  inHand : final ∉ rest
  buddyUsed : final.buddy ∉ freeBlocks merged
  keeps : Keeps rest state before
  sameMax : before.maxPtr = state.maxPtr
  fewer : freeBlocks merged ⊆ freeBlocks lists
  startsAt : final.start = block.start ∨ ∃ other ∈ freeBlocks lists, other.start = final.start

/-- The state after a flip, which the root of the whole range is spared. -/
def flippedUnlessRoot (state : State) (block : Block) : State :=
  if nodeIndex block ≠ 0 then flipParentIsSplit state (nodeIndex block) else state

/-- A block whose buddy is in use, or that has none, stays in hand. -/
theorem Consistent.mergesInto_self
    (consistent : Consistent platform state lists (insert block rest))
    (inHand : block ∉ rest)
    (buddyUsed : block.buddy ∉ freeBlocks lists) :
    MergesInto platform state lists rest block state lists block :=
  ⟨consistent, inHand, buddyUsed, .refl _ _, rfl, Set.Subset.refl _, Or.inl rfl⟩

/-- The loop of `bfree` merges free buddies and stops with a flip. -/
theorem Consistent.mergeLoop
    {rounds : Nat}
    (consistent : Consistent platform state lists (insert block rest))
    (inHand : block ∉ rest)
    (enough : nodeIndex block ≤ rounds) :
    ∃ before merged final,
      MergesInto platform state lists rest block before merged final ∧
        (∀ exponent, (merged exponent).Sublist (lists exponent)) ∧
        mergeLoop rounds (nodeIndex block) (31 - block.exponent) state =
          ((nodeIndex final, 31 - final.exponent), flippedUnlessRoot before final) := by
  induction rounds generalizing block state lists with
  | zero =>
      have number := Nat.le_zero.mp enough
      refine ⟨state, lists, block, consistent.mergesInto_self inHand
        (consistent.buddy_top number), fun _ => .refl _, ?_⟩
      rw [Buddy.mergeLoop, flippedUnlessRoot, number]
      simp
  | succ rounds inductionHypothesis =>
      have limit := consistent.limit
      have bounds := consistent.exponent_bounds (Or.inr (Set.mem_insert block rest))
      by_cases number : nodeIndex block = 0
      · refine ⟨state, lists, block, consistent.mergesInto_self inHand
          (consistent.buddy_top number), fun _ => .refl _, ?_⟩
        simp [Buddy.mergeLoop, flippedUnlessRoot, number]
      simp only [Buddy.mergeLoop, if_pos number]
      have limitKept : (flipParentIsSplit state (nodeIndex block)).bucketLimit =
          state.bucketLimit := rfl
      by_cases merges :
          block.exponent < 31 - state.bucketLimit ∧ block.buddy ∈ freeBlocks lists
      · -- The buddy is free: take it out of its list and go on with the parent.
        obtain ⟨smaller, buddyFree⟩ := merges
        have goesOn : ¬ (parentIsSplit (flipParentIsSplit state (nodeIndex block))
            (nodeIndex block) = true ∨
            31 - block.exponent = (flipParentIsSplit state (nodeIndex block)).bucketLimit) := by
          rw [consistent.parentIsSplit_flipped smaller]
          rintro (stays | same)
          · exact stays buddyFree
          · omega
        rw [if_neg goesOn]
        obtain ⟨joined, next, kept, outside, sublists⟩ :=
          consistent.merge_hand inHand smaller buddyFree
        have fewer : freeBlocks joined ⊆ freeBlocks lists :=
          fun other inFree => (sublists other.exponent).subset inFree
        have up := nodeIndex_parent (show block.exponent < 31 by omega)
        obtain ⟨before, merged, final, into, sublistsOn, loop⟩ :=
          inductionHypothesis next outside (by omega)
        refine ⟨before, merged, final, ⟨into.consistent, into.inHand, into.buddyUsed,
          kept.trans into.keeps, into.sameMax, into.fewer.trans fewer, ?_⟩,
          fun exponent => (sublistsOn exponent).trans (sublists exponent), ?_⟩
        · rcases into.startsAt with atParent | ⟨other, member, same⟩
          · rcases block.start_parent with own | buddys
            · exact Or.inl (atParent.trans own)
            · exact Or.inr ⟨_, buddyFree, (atParent.trans buddys).symm⟩
          · exact Or.inr ⟨other, fewer member, same⟩
        · rw [up, show 31 - block.exponent - 1 = 31 - block.parent.exponent by
            simp only [parent]; omega]
          exact loop
      · -- The buddy is in use, or there is none at the root.
        have buddyUsed : block.buddy ∉ freeBlocks lists := by
          intro buddyFree
          rcases Nat.lt_or_eq_of_le bounds.2 with smaller | atRoot
          · exact merges ⟨smaller, buddyFree⟩
          · exact consistent.buddy_root atRoot buddyFree
        have stops : parentIsSplit (flipParentIsSplit state (nodeIndex block))
            (nodeIndex block) = true ∨
            31 - block.exponent = (flipParentIsSplit state (nodeIndex block)).bucketLimit := by
          rcases Nat.lt_or_eq_of_le bounds.2 with smaller | atRoot
          · exact Or.inl ((consistent.parentIsSplit_flipped smaller).mpr buddyUsed)
          · exact Or.inr (by omega)
        rw [if_pos stops]
        refine ⟨state, lists, block, consistent.mergesInto_self inHand buddyUsed,
          fun _ => .refl _, ?_⟩
        rw [flippedUnlessRoot, if_pos number]

/-- `bfree` finds the bucket and the number of the block it is given. -/
theorem Consistent.bfree_start
    {ptr request : Nat}
    (consistent : Consistent platform state lists (insert block rest))
    (address : ptr = state.basePtr + block.start + 8)
    (header : state.cells.prev (state.basePtr + block.start) = request)
    (size : block.exponent = 31 - requestBucket request) :
    bucketForRequest (add (state.cells.prev (ptr - 8)) 8) = 31 - block.exponent ∧
      nodeForPtr state (ptr - 8) (31 - block.exponent) = nodeIndex block := by
  have small := (consistent.within_range (Or.inr (Set.mem_insert block rest))).1
  have bucketMost : requestBucket request ≤ 27 := bucketForRequest_le _
  have cell : ptr - 8 = state.basePtr + block.start := by omega
  rw [cell]
  constructor
  · rw [header, size, Nat.sub_sub_self (by omega)]
    rfl
  · exact nodeForPtr_start small

/-- What `bfree` achieves on the block of a live pointer. -/
theorem Consistent.bfree
    {ptr request : Nat}
    (consistent : Consistent platform state lists (insert block rest))
    (inHand : block ∉ rest)
    (address : ptr = state.basePtr + block.start + 8)
    (header : state.cells.prev (state.basePtr + block.start) = request)
    (size : block.exponent = 31 - requestBucket request) :
    (∃ lists, Consistent platform (Buddy.bfree platform state (some ptr)) lists rest) ∧
      Keeps rest state (Buddy.bfree platform state (some ptr)) := by
  obtain ⟨bucket, number⟩ := consistent.bfree_start address header size
  obtain ⟨before, merged, final, into, _, loop⟩ := consistent.mergeLoop inHand (Nat.le_refl _)
  obtain ⟨released, kept⟩ := into.consistent.release_hand into.inHand into.buddyUsed
  simp only [Buddy.bfree, bucket, number, loop]
  exact ⟨⟨_, released⟩, into.keeps.trans kept⟩

end Sysprog.Buddy
