import Mathlib.Data.Set.Insert
import Mathlib.Tactic.Ring

namespace Sysprog.DyadicBlocks

/-!
# Dyadic blocks and buddy heaps

A dyadic block is a range of `2 ^ exponent` offsets that starts at a multiple of its
length, so two blocks are nested or apart.  A buddy heap tiles the range below `2 ^ top`
with free and used blocks, no two buddies both being free.  One bit for each node of the
tree of blocks tells whether exactly one half of it is free; the lemmas say which single
bit each elementary step of a buddy allocator changes.
-/

/-- The offsets `x` with `x / 2 ^ exponent = index`. -/
structure Block where
  exponent : Nat
  index : Nat
deriving DecidableEq

namespace Block

/-- The offset lies in the block. -/
def Holds (block : Block) (offset : Nat) : Prop :=
  offset / 2 ^ block.exponent = block.index

/-- The first offset of the block. -/
def start (block : Block) : Nat :=
  block.index * 2 ^ block.exponent

/-- The block of which this one is a half. -/
def parent (block : Block) : Block :=
  { exponent := block.exponent + 1, index := block.index / 2 }

/-- The lower half. -/
def left (block : Block) : Block :=
  { exponent := block.exponent - 1, index := 2 * block.index }

/-- The upper half. -/
def right (block : Block) : Block :=
  { exponent := block.exponent - 1, index := 2 * block.index + 1 }

/-- The other half of the parent. -/
def buddy (block : Block) : Block :=
  { exponent := block.exponent
    index := if block.index % 2 = 0 then block.index + 1 else block.index - 1 }

/-- The block of all offsets below `2 ^ top`. -/
def root (top : Nat) : Block :=
  { exponent := top, index := 0 }

/-- One block lies inside another. -/
def Within (inner outer : Block) : Prop :=
  inner.exponent ≤ outer.exponent ∧
    inner.index / 2 ^ (outer.exponent - inner.exponent) = outer.index

variable {block inner outer other : Block} {offset top : Nat}

theorem holds_iff : block.Holds offset ↔ offset / 2 ^ block.exponent = block.index :=
  Iff.rfl

/-- The offsets of a block as an interval. -/
theorem holds_iff_range :
    block.Holds offset ↔
      block.start ≤ offset ∧ offset < block.start + 2 ^ block.exponent := by
  have positive : 0 < 2 ^ block.exponent := Nat.two_pow_pos _
  rw [Holds, start, Nat.div_eq_iff positive, Nat.mul_comm]
  omega

theorem holds_start (block : Block) : block.Holds block.start := by
  rw [Holds, start, Nat.mul_div_cancel _ (Nat.two_pow_pos _)]

theorem holds_root : (root top).Holds offset ↔ offset < 2 ^ top := by
  rw [Holds, root, Nat.div_eq_zero_iff_lt (Nat.two_pow_pos _)]

/-- Dividing in two steps. -/
private theorem div_pow_div_pow (offset first second : Nat) :
    offset / 2 ^ (first + second) = offset / 2 ^ first / 2 ^ second := by
  rw [Nat.div_div_eq_div_mul, Nat.pow_add]

/-- An outer block holds what an inner one holds. -/
theorem Within.holds
    (within : Within inner outer)
    (holds : inner.Holds offset) :
    outer.Holds offset := by
  obtain ⟨smaller, index⟩ := within
  have total : outer.exponent = inner.exponent + (outer.exponent - inner.exponent) := by
    omega
  rw [Holds, total, div_pow_div_pow, holds_iff.mp holds, index]

/-- Two blocks with an offset in common are nested. -/
theorem within_of_holds
    (smaller : inner.exponent ≤ outer.exponent)
    (first : inner.Holds offset)
    (second : outer.Holds offset) :
    Within inner outer := by
  refine ⟨smaller, ?_⟩
  have total : outer.exponent = inner.exponent + (outer.exponent - inner.exponent) := by
    omega
  rw [← holds_iff.mp first, ← div_pow_div_pow, ← total]
  exact second

theorem Within.refl (block : Block) : Within block block := by
  simp [Within]

theorem Within.trans
    {third : Block}
    (first : Within inner outer)
    (second : Within outer third) :
    Within inner third :=
  within_of_holds (Nat.le_trans first.1 second.1) inner.holds_start
    (second.holds (first.holds inner.holds_start))

/-- A block inside one of its own size is that block. -/
theorem Within.eq_of_le
    (within : Within inner outer)
    (larger : outer.exponent ≤ inner.exponent) :
    inner = outer := by
  obtain ⟨smaller, index⟩ := within
  have same : inner.exponent = outer.exponent := Nat.le_antisymm smaller larger
  cases inner
  cases outer
  simp_all

/-- A block inside another one is it or lies in one of its halves. -/
theorem Within.parent_of_lt
    (within : Within inner outer)
    (smaller : inner.exponent < outer.exponent) :
    Within inner.parent outer := by
  refine ⟨smaller, ?_⟩
  have total : outer.exponent - inner.exponent = 1 + (outer.exponent - (inner.exponent + 1)) := by
    omega
  have index := within.2
  rw [total, div_pow_div_pow, Nat.pow_one] at index
  exact index

theorem within_parent (block : Block) : Within block block.parent := by
  simp [Within, parent]

/-- What lies inside a block and is no larger than the block is told by the parent. -/
theorem within_iff_parent :
    Within inner outer ↔ inner = outer ∨ Within inner.parent outer := by
  constructor
  · intro within
    by_cases smaller : inner.exponent < outer.exponent
    · exact Or.inr (within.parent_of_lt smaller)
    · exact Or.inl (within.eq_of_le (by omega))
  · rintro (rfl | within)
    · exact .refl _
    · exact inner.within_parent.trans within

theorem within_root : Within block (root top) ↔
    block.exponent ≤ top ∧ block.index < 2 ^ (top - block.exponent) := by
  rw [Within, root]
  simp only [Nat.div_eq_zero_iff_lt (Nat.two_pow_pos _)]

@[simp] theorem parent_root (top : Nat) : (root top).parent = root (top + 1) := by
  simp [root, parent]

@[simp] theorem parent_left (splits : 0 < block.exponent) : block.left.parent = block := by
  cases block
  simp_all [left, parent]
  omega

@[simp] theorem parent_right (splits : 0 < block.exponent) : block.right.parent = block := by
  cases block
  simp_all [right, parent]
  omega

theorem left_within (splits : 0 < block.exponent) : Within block.left block := by
  have up := within_parent block.left
  rwa [parent_left splits] at up

theorem right_within (splits : 0 < block.exponent) : Within block.right block := by
  have up := within_parent block.right
  rwa [parent_right splits] at up

theorem left_ne_right : block.left ≠ block.right := by
  simp [left, right]

theorem buddy_left : block.left.buddy = block.right := by
  simp [left, right, buddy]

theorem buddy_right : block.right.buddy = block.left := by
  simp [left, right, buddy]

theorem buddy_buddy : block.buddy.buddy = block := by
  cases block
  simp only [buddy, Block.mk.injEq, true_and]
  split <;> split <;> omega

theorem parent_buddy : block.buddy.parent = block.parent := by
  cases block
  simp only [buddy, parent, Block.mk.injEq, true_and]
  split <;> omega

theorem buddy_ne : block.buddy ≠ block := by
  cases block
  simp only [buddy, ne_eq, Block.mk.injEq, true_and]
  split <;> omega

/-- The lower half starts where the block does. -/
theorem start_left (splits : 0 < block.exponent) : block.left.start = block.start := by
  obtain ⟨exponent, size⟩ := Nat.exists_eq_succ_of_ne_zero (Nat.ne_of_gt splits)
  simp only [start, left, size, Nat.succ_sub_one, Nat.pow_succ]
  ring

/-- The upper half starts in the middle of the block. -/
theorem start_right (splits : 0 < block.exponent) :
    block.right.start = block.start + 2 ^ (block.exponent - 1) := by
  obtain ⟨exponent, size⟩ := Nat.exists_eq_succ_of_ne_zero (Nat.ne_of_gt splits)
  simp only [start, right, size, Nat.succ_sub_one, Nat.pow_succ]
  ring

/-- A parent starts where one of its halves does. -/
theorem start_parent (block : Block) :
    block.parent.start = block.start ∨ block.parent.start = block.buddy.start := by
  simp only [start, parent, buddy, Nat.pow_succ]
  by_cases even : block.index % 2 = 0
  · left
    rw [Nat.mul_comm _ 2, ← Nat.mul_assoc, Nat.div_mul_cancel (Nat.dvd_of_mod_eq_zero even)]
  · right
    rw [if_neg even, Nat.mul_comm _ 2, ← Nat.mul_assoc]
    congr 1
    omega

/-- A block is one of the two halves of its parent. -/
theorem eq_left_or_right (block : Block) :
    (block = block.parent.left ∧ block.buddy = block.parent.right) ∨
      (block = block.parent.right ∧ block.buddy = block.parent.left) := by
  cases block
  simp only [buddy, parent, left, right, Block.mk.injEq, Nat.add_sub_cancel, true_and]
  split <;> omega

/-- The halves of a block with an offset hold it between them. -/
theorem holds_halves (splits : 0 < block.exponent) :
    block.Holds offset ↔ block.left.Holds offset ∨ block.right.Holds offset := by
  have total : block.exponent = (block.exponent - 1) + 1 := by omega
  rw [Holds, Holds, Holds, total, div_pow_div_pow]
  simp only [left, right, Nat.pow_one]
  omega

/-- Not both halves hold an offset. -/
theorem not_holds_both : ¬ (block.left.Holds offset ∧ block.right.Holds offset) := by
  rintro ⟨first, second⟩
  rw [Holds] at first second
  simp only [left, right] at first second
  omega

end Block

open Block

/-! ## Tilings -/

/-- Every offset below `2 ^ top` lies in exactly one of the blocks. -/
structure Tiles (blocks : Set Block) (top : Nat) : Prop where
  within : ∀ block ∈ blocks, Within block (root top)
  covers : ∀ offset, offset < 2 ^ top → ∃ block ∈ blocks, block.Holds offset
  unique :
    ∀ offset, ∀ first ∈ blocks, ∀ second ∈ blocks,
      first.Holds offset → second.Holds offset → first = second

namespace Tiles

variable {blocks removed added : Set Block} {top : Nat} {block : Block}

/-- Exchanging blocks for others that cover the same offsets keeps a tiling. -/
theorem exchange
    (tiles : Tiles blocks top)
    (members : removed ⊆ blocks)
    (within : ∀ block ∈ added, Within block (root top))
    (same :
      ∀ offset,
        (∃ block ∈ removed, block.Holds offset) ↔ ∃ block ∈ added, block.Holds offset)
    (apart :
      ∀ offset, ∀ first ∈ added, ∀ second ∈ added,
        first.Holds offset → second.Holds offset → first = second) :
    Tiles (blocks \ removed ∪ added) top := by
  -- A block that stays has no offset in common with an added one.
  have separate : ∀ offset, ∀ kept ∈ blocks \ removed, ∀ fresh ∈ added,
      kept.Holds offset → ¬ fresh.Holds offset := by
    intro offset kept keptMember fresh freshMember keptHolds freshHolds
    obtain ⟨old, oldMember, oldHolds⟩ := (same offset).mpr ⟨fresh, freshMember, freshHolds⟩
    have equal :=
      tiles.unique offset kept keptMember.1 old (members oldMember) keptHolds oldHolds
    exact keptMember.2 (equal ▸ oldMember)
  refine ⟨?_, ?_, ?_⟩
  · rintro block (kept | fresh)
    · exact tiles.within block kept.1
    · exact within block fresh
  · intro offset below
    obtain ⟨block, member, holds⟩ := tiles.covers offset below
    by_cases gone : block ∈ removed
    · obtain ⟨fresh, freshMember, freshHolds⟩ := (same offset).mp ⟨block, gone, holds⟩
      exact ⟨fresh, Or.inr freshMember, freshHolds⟩
    · exact ⟨block, Or.inl ⟨member, gone⟩, holds⟩
  · rintro offset first (keptFirst | freshFirst) second (keptSecond | freshSecond)
      firstHolds secondHolds
    · exact tiles.unique offset first keptFirst.1 second keptSecond.1 firstHolds secondHolds
    · exact absurd secondHolds
        (separate offset first keptFirst second freshSecond firstHolds)
    · exact absurd firstHolds
        (separate offset second keptSecond first freshFirst secondHolds)
    · exact apart offset first freshFirst second freshSecond firstHolds secondHolds

/-- The two halves of a block, as a set. -/
private theorem halves_apart
    (offset : Nat) :
    ∀ first ∈ ({block.left, block.right} : Set Block),
      ∀ second ∈ ({block.left, block.right} : Set Block),
        first.Holds offset → second.Holds offset → first = second := by
  rintro first (rfl | rfl) second (rfl | rfl) firstHolds secondHolds
  · rfl
  · exact absurd ⟨firstHolds, secondHolds⟩ not_holds_both
  · exact absurd ⟨secondHolds, firstHolds⟩ not_holds_both
  · rfl

/-- A block may be cut into its halves. -/
theorem split
    (tiles : Tiles blocks top)
    (member : block ∈ blocks)
    (splits : 0 < block.exponent) :
    Tiles (blocks \ {block} ∪ {block.left, block.right}) top := by
  have inside := tiles.within block member
  refine tiles.exchange (by simpa using member) ?_ ?_ halves_apart
  · rintro half (rfl | rfl)
    · exact (left_within splits).trans inside
    · exact (right_within splits).trans inside
  · intro offset
    simpa using holds_halves splits

/-- The halves of a block may be joined. -/
theorem join
    (tiles : Tiles blocks top)
    (leftMember : block.left ∈ blocks)
    (rightMember : block.right ∈ blocks)
    (splits : 0 < block.exponent)
    (inside : Within block (root top)) :
    Tiles (blocks \ {block.left, block.right} ∪ {block}) top := by
  refine tiles.exchange ?_ ?_ ?_ ?_
  · rintro half (rfl | rfl)
    · exact leftMember
    · exact rightMember
  · rintro _ rfl
    exact inside
  · intro offset
    simpa using (holds_halves splits).symm
  · rintro offset first rfl second rfl _ _
    rfl

/-- The range may be doubled with one block for its new half. -/
theorem double (tiles : Tiles blocks top) :
    Tiles (insert ⟨top, 1⟩ blocks) (top + 1) := by
  have total : 2 ^ (top + 1) = 2 ^ top + 2 ^ top := by ring
  have upper : ∀ offset, (⟨top, 1⟩ : Block).Holds offset ↔
      2 ^ top ≤ offset ∧ offset < 2 ^ top + 2 ^ top := by
    intro offset
    simp [holds_iff_range, start]
  have lower : ∀ block ∈ blocks, ∀ offset, block.Holds offset → offset < 2 ^ top := by
    intro block member offset holds
    exact holds_root.mp ((tiles.within block member).holds holds)
  refine ⟨?_, ?_, ?_⟩
  · rintro block (rfl | member)
    · simp [within_root]
    · have smaller := tiles.within block member
      exact smaller.trans (parent_root top ▸ within_parent (root top))
  · intro offset below
    by_cases small : offset < 2 ^ top
    · obtain ⟨block, member, holds⟩ := tiles.covers offset small
      exact ⟨block, Or.inr member, holds⟩
    · exact ⟨⟨top, 1⟩, Or.inl rfl, (upper offset).mpr (by omega)⟩
  · rintro offset first (rfl | firstMember) second (rfl | secondMember) firstHolds secondHolds
    · rfl
    · have below := lower second secondMember offset secondHolds
      have above := (upper offset).mp firstHolds
      omega
    · have below := lower first firstMember offset firstHolds
      have above := (upper offset).mp secondHolds
      omega
    · exact tiles.unique offset first firstMember second secondMember firstHolds secondHolds

/-- The root alone is a tiling. -/
theorem single (top : Nat) : Tiles {root top} top where
  within := by
    rintro _ rfl
    exact .refl _
  covers := fun _ below => ⟨root top, rfl, holds_root.mpr below⟩
  unique := by
    rintro _ _ rfl _ rfl _ _
    rfl

/-- Of two nested blocks of a tiling, both are the same. -/
theorem eq_of_within
    {inner outer : Block}
    (tiles : Tiles blocks top)
    (innerMember : inner ∈ blocks)
    (outerMember : outer ∈ blocks)
    (within : Within inner outer) :
    inner = outer :=
  tiles.unique inner.start inner innerMember outer outerMember inner.holds_start
    (within.holds inner.holds_start)

end Tiles

/-! ## Buddy heaps -/

/-- Every offset of the block lies in a free block. -/
def EntirelyFree (free : Set Block) (block : Block) : Prop :=
  ∀ offset, block.Holds offset → ∃ owner ∈ free, owner.Holds offset

/-- Free and used blocks tile the range, and free buddies are merged. -/
structure Heap (top : Nat) (free used : Set Block) : Prop where
  tiles : Tiles (free ∪ used) top
  apart : ∀ block ∈ free, block ∉ used
  merged : ∀ block ∈ free, block.buddy ∉ free

variable {top : Nat} {free used : Set Block} {block node : Block}

namespace Heap

theorem not_free_of_used
    (heap : Heap top free used)
    (member : block ∈ used) :
    block ∉ free :=
  fun inFree => heap.apart block inFree member

/-- In a heap, what is entirely free lies in one free block. -/
theorem entirelyFree_iff
    (heap : Heap top free used) :
    EntirelyFree free block ↔ ∃ owner ∈ free, Within block owner := by
  constructor
  · intro entirely
    obtain ⟨exponent, index⟩ := block
    induction exponent generalizing index with
    | zero =>
        obtain ⟨owner, member, holds⟩ := entirely _ (holds_start _)
        exact ⟨owner, member, within_of_holds (Nat.zero_le _) (holds_start _) holds⟩
    | succ exponent inductionHypothesis =>
        -- Otherwise both halves would be free blocks, and buddies.
        by_contra none
        have half : ∀ inner : Block, inner.exponent = exponent →
            inner.parent = ⟨exponent + 1, index⟩ → inner ∈ free := by
          intro inner size up
          have covered : EntirelyFree free inner := by
            intro offset holds
            exact entirely offset (up ▸ inner.within_parent.holds holds)
          obtain ⟨owner, member, within⟩ := by
            subst size
            exact inductionHypothesis inner.index covered
          rcases within_iff_parent.mp within with same | outside
          · obtain rfl : inner = owner := same
            exact member
          · exact absurd ⟨owner, member, up ▸ outside⟩ none
        have lower := half (Block.left ⟨exponent + 1, index⟩) rfl (parent_left (by simp))
        have upper := half (Block.right ⟨exponent + 1, index⟩) rfl (parent_right (by simp))
        exact heap.merged _ lower (buddy_left ▸ upper)
  · rintro ⟨owner, member, within⟩ offset holds
    exact ⟨owner, member, within.holds holds⟩

/-- No part of a used block is entirely free. -/
theorem not_entirelyFree
    (heap : Heap top free used)
    (member : block ∈ used)
    (within : Within node block ∨ Within block node) :
    ¬ EntirelyFree free node := by
  intro entirely
  obtain ⟨offset, inNode, inBlock⟩ : ∃ offset, node.Holds offset ∧ block.Holds offset := by
    rcases within with inside | outside
    · exact ⟨node.start, node.holds_start, inside.holds node.holds_start⟩
    · exact ⟨block.start, outside.holds block.holds_start, block.holds_start⟩
  obtain ⟨owner, ownerFree, holds⟩ := entirely offset inNode
  have same := heap.tiles.unique offset owner (Or.inl ownerFree) block (Or.inr member)
    holds inBlock
  exact heap.not_free_of_used member (same ▸ ownerFree)

/-- What no used block meets is entirely free. -/
theorem entirelyFree_of_apart
    (heap : Heap top free used)
    (inside : Within block (root top))
    (apart : ∀ other ∈ used, ∀ offset, block.Holds offset → ¬ other.Holds offset) :
    EntirelyFree free block := by
  intro offset holds
  obtain ⟨owner, member, ownerHolds⟩ :=
    heap.tiles.covers offset (holds_root.mp (inside.holds holds))
  rcases member with inFree | inUsed
  · exact ⟨owner, inFree, ownerHolds⟩
  · exact absurd ownerHolds (apart owner inUsed offset holds)

/-- The free blocks of one heap are entirely free in every heap with the same used blocks. -/
theorem entirelyFree_of_same_used
    {otherFree : Set Block}
    (heap : Heap top free used)
    (other : Heap top otherFree used)
    (member : block ∈ free) :
    EntirelyFree otherFree block := by
  refine other.entirelyFree_of_apart (heap.tiles.within block (Or.inl member)) ?_
  intro inUse isUsed offset holds inUseHolds
  have same := heap.tiles.unique offset block (Or.inl member) inUse (Or.inr isUsed) holds inUseHolds
  exact heap.apart block member (same ▸ isUsed)

/-- The used blocks determine the free ones. -/
theorem free_unique
    {otherFree : Set Block}
    (heap : Heap top free used)
    (other : Heap top otherFree used) :
    free = otherFree := by
  have included : ∀ {first second : Set Block}, Heap top first used → Heap top second used →
      first ⊆ second := by
    intro first second firstHeap secondHeap block member
    obtain ⟨owner, ownerMember, within⟩ :=
      secondHeap.entirelyFree_iff.mp (firstHeap.entirelyFree_of_same_used secondHeap member)
    obtain ⟨back, backMember, outside⟩ :=
      firstHeap.entirelyFree_iff.mp (secondHeap.entirelyFree_of_same_used firstHeap ownerMember)
    obtain rfl := firstHeap.tiles.eq_of_within (Or.inl member) (Or.inl backMember)
      (within.trans outside)
    obtain rfl := within.eq_of_le outside.1
    exact ownerMember
  exact Set.Subset.antisymm (included heap other) (included other heap)

/-! ## Steps of an allocator -/

/-- A free block may be taken. -/
theorem take
    (heap : Heap top free used)
    (member : block ∈ free) :
    Heap top (free \ {block}) (insert block used) where
  tiles := by
    have same : free \ {block} ∪ insert block used = free ∪ used := by
      ext other
      by_cases equal : other = block
      · simp [equal, member]
      · simp [equal]
    rw [same]
    exact heap.tiles
  apart := by
    rintro other ⟨inFree, different⟩ (equal | inUsed)
    · exact different equal
    · exact heap.not_free_of_used inUsed inFree
  merged := fun other inFree buddyFree => heap.merged other inFree.1 buddyFree.1

/-- A used block may be given back when its buddy is not free. -/
theorem release
    (heap : Heap top free used)
    (member : block ∈ used)
    (buddyUsed : block.buddy ∉ free) :
    Heap top (insert block free) (used \ {block}) where
  tiles := by
    have same : insert block free ∪ used \ {block} = free ∪ used := by
      ext other
      by_cases equal : other = block
      · simp [equal, member]
      · simp [equal]
    rw [same]
    exact heap.tiles
  apart := by
    rintro other (equal | inFree) ⟨inUsed, different⟩
    · exact different equal
    · exact heap.not_free_of_used inUsed inFree
  merged := by
    rintro other (rfl | inFree) (same | buddyFree)
    · exact buddy_ne same
    · exact buddyUsed buddyFree
    · rw [← same, buddy_buddy] at buddyUsed
      exact buddyUsed inFree
    · exact heap.merged other inFree buddyFree

/-- A used block may be cut into its halves. -/
theorem split
    (heap : Heap top free used)
    (member : block ∈ used)
    (splits : 0 < block.exponent) :
    Heap top free (used \ {block} ∪ {block.left, block.right}) := by
  have notFree := heap.not_free_of_used member
  have parts := heap.tiles.split (Or.inr member) splits
  have same : (free ∪ used) \ {block} ∪ {block.left, block.right} =
      free ∪ (used \ {block} ∪ {block.left, block.right}) := by
    rw [Set.union_sdiff_distrib, Set.sdiff_singleton_eq_self notFree, Set.union_assoc]
  refine ⟨same ▸ parts, ?_, heap.merged⟩
  rintro other inFree (⟨inUsed, _⟩ | half)
  · exact heap.not_free_of_used inUsed inFree
  · -- A free half would overlap the used block.
    have inside : Within other block := by
      rcases half with rfl | rfl
      · exact left_within splits
      · exact right_within splits
    have equal := heap.tiles.eq_of_within (Or.inl inFree) (Or.inr member) inside
    exact notFree (equal ▸ inFree)

/-- Two used buddies may be joined. -/
theorem join
    (heap : Heap top free used)
    (member : block ∈ used)
    (buddyMember : block.buddy ∈ used)
    (smaller : block.exponent < top) :
    Heap top free (insert block.parent (used \ {block, block.buddy})) := by
  have inside : Within block.parent (root top) :=
    (heap.tiles.within block (Or.inr member)).parent_of_lt smaller
  have pair : ({block.parent.left, block.parent.right} : Set Block) = {block, block.buddy} := by
    rcases block.eq_left_or_right with ⟨first, second⟩ | ⟨first, second⟩
    · rw [← first, ← second]
    · rw [← first, ← second, Set.pair_comm]
  have halves : block.parent.left ∈ used ∧ block.parent.right ∈ used := by
    rcases block.eq_left_or_right with ⟨first, second⟩ | ⟨first, second⟩
    · exact ⟨first ▸ member, second ▸ buddyMember⟩
    · exact ⟨second ▸ buddyMember, first ▸ member⟩
  have joined := heap.tiles.join (Or.inr halves.1) (Or.inr halves.2) (Nat.succ_pos _) inside
  rw [pair] at joined
  have same : (free ∪ used) \ {block, block.buddy} ∪ {block.parent} =
      free ∪ insert block.parent (used \ {block, block.buddy}) := by
    have untouched : free \ {block, block.buddy} = free := by
      rw [sdiff_eq_left, Set.disjoint_left]
      rintro other inFree (rfl | rfl)
      · exact heap.not_free_of_used member inFree
      · exact heap.not_free_of_used buddyMember inFree
    rw [Set.union_sdiff_distrib, untouched, Set.union_assoc, Set.union_singleton]
  refine ⟨same ▸ joined, ?_, heap.merged⟩
  rintro other inFree (rfl | ⟨inUsed, _⟩)
  · have equal := heap.tiles.eq_of_within (Or.inr member) (Or.inl inFree) block.within_parent
    exact heap.not_free_of_used member (equal ▸ inFree)
  · exact heap.not_free_of_used inUsed inFree

/-- A heap whose root is entirely free consists of the root. -/
theorem eq_single
    (heap : Heap top free used)
    (entirely : EntirelyFree free (root top)) :
    free = {root top} ∧ used = ∅ := by
  obtain ⟨owner, member, within⟩ := heap.entirelyFree_iff.mp entirely
  have inside := heap.tiles.within owner (Or.inl member)
  obtain rfl := within.eq_of_le inside.1
  refine ⟨?_, ?_⟩
  · ext other
    constructor
    · intro inFree
      exact heap.tiles.eq_of_within (Or.inl inFree) (Or.inl member)
        (heap.tiles.within other (Or.inl inFree))
    · rintro rfl
      exact member
  · rw [Set.eq_empty_iff_forall_notMem]
    intro other inUsed
    have equal := heap.tiles.eq_of_within (Or.inr inUsed) (Or.inl member)
      (heap.tiles.within other (Or.inr inUsed))
    exact heap.not_free_of_used inUsed (equal ▸ member)

/-- One free block makes a heap. -/
theorem single (top : Nat) : Heap top {root top} ∅ where
  tiles := by
    rw [Set.union_empty]
    exact .single top
  apart := fun _ _ => Set.notMem_empty _
  merged := by
    rintro _ rfl same
    exact buddy_ne same

/-- A heap in use may be doubled; its new half is free. -/
theorem double
    (heap : Heap top free used)
    (inUse : ¬ EntirelyFree free (root top)) :
    Heap (top + 1) (insert ⟨top, 1⟩ free) used := by
  have outside : ∀ other ∈ free ∪ used, other ≠ ⟨top, 1⟩ := by
    rintro other member rfl
    have within := (within_root.mp (heap.tiles.within _ member)).2
    simp at within
  refine ⟨?_, ?_, ?_⟩
  · rw [Set.insert_union]
    exact heap.tiles.double
  · rintro other (rfl | inFree) inUsed
    · exact outside _ (Or.inr inUsed) rfl
    · exact heap.not_free_of_used inUsed inFree
  · rintro other (rfl | inFree) (same | buddyFree)
    · exact buddy_ne same
    · apply inUse
      exact heap.entirelyFree_iff.mpr ⟨_, buddyFree, .refl _⟩
    · apply inUse
      have isRoot : other = root top := by
        rw [← @buddy_buddy other, same]
        rfl
      exact heap.entirelyFree_iff.mpr ⟨other, inFree, isRoot ▸ .refl _⟩
    · exact heap.merged other inFree buddyFree

end Heap

/-! ## The bits of the tree -/

/--
The bit of a node: for a node of the range, that exactly one half is entirely free, and
for the parent of the root, that the root is not.
-/
def SplitBit (top : Nat) (free : Set Block) (node : Block) : Prop :=
  (Within node (root top) ∧
      Xor (EntirelyFree free node.left) (EntirelyFree free node.right)) ∨
    (node = root (top + 1) ∧ ¬ EntirelyFree free (root top))

/-- The parent of the root is no node of the range. -/
theorem not_within_root_succ : ¬ Within (root (top + 1)) (root top) := by
  rw [within_root]
  simp [root]

theorem splitBit_within (inside : Within node (root top)) :
    SplitBit top free node ↔
      Xor (EntirelyFree free node.left) (EntirelyFree free node.right) := by
  constructor
  · rintro (⟨_, exactlyOne⟩ | ⟨rfl, _⟩)
    · exact exactlyOne
    · exact absurd inside not_within_root_succ
  · exact fun exactlyOne => Or.inl ⟨inside, exactlyOne⟩

theorem splitBit_above : SplitBit top free (root (top + 1)) ↔ ¬ EntirelyFree free (root top) := by
  constructor
  · rintro (⟨inside, _⟩ | ⟨_, inUse⟩)
    · exact absurd inside not_within_root_succ
    · exact inUse
  · exact fun inUse => Or.inr ⟨rfl, inUse⟩

theorem splitBit_outside
    (outside : ¬ Within node (root top))
    (notAbove : node ≠ root (top + 1)) :
    ¬ SplitBit top free node := by
  rintro (⟨inside, _⟩ | ⟨above, _⟩)
  · exact outside inside
  · exact notAbove above

/-- Two bit patterns differ at one node only. -/
def FlippedAt (node : Block) (before after : Block → Prop) : Prop :=
  ∀ other : Block, 0 < other.exponent → (after other ↔ Xor (before other) (other = node))

theorem FlippedAt.symm
    {before after : Block → Prop}
    (flipped : FlippedAt node before after) :
    FlippedAt node after before := by
  intro other splits
  have bit := flipped other splits
  by_cases here : other = node
  · simp only [here, Xor, not_true_eq_false, and_false, true_and, false_or] at bit ⊢
    tauto
  · simp only [here, Xor, not_false_eq_true, and_true, false_and, or_false] at bit ⊢
    exact bit.symm

namespace Heap

/-- Taking a block from the free ones leaves the nodes outside of it as they are. -/
theorem entirelyFree_take
    (heap : Heap top free used)
    (member : block ∈ free) :
    EntirelyFree (free \ {block}) node ↔ EntirelyFree free node ∧ ¬ Within node block := by
  rw [(heap.take member).entirelyFree_iff, heap.entirelyFree_iff]
  constructor
  · rintro ⟨owner, ⟨inFree, different⟩, within⟩
    refine ⟨⟨owner, inFree, within⟩, ?_⟩
    intro inBlock
    apply different
    exact heap.tiles.unique node.start owner (Or.inl inFree) block (Or.inl member)
      (within.holds node.holds_start) (inBlock.holds node.holds_start)
  · rintro ⟨⟨owner, inFree, within⟩, notInBlock⟩
    refine ⟨owner, ⟨inFree, ?_⟩, within⟩
    rintro rfl
    exact notInBlock within

/-- Taking a free block flips the bit of its parent only. -/
theorem splitBit_take
    (heap : Heap top free used)
    (member : block ∈ free) :
    FlippedAt block.parent (SplitBit top free) (SplitBit top (free \ {block})) := by
  intro node splits
  have inside := heap.tiles.within block (Or.inl member)
  have entirely : ∀ {other}, Within other block → EntirelyFree free other := by
    intro other within
    exact heap.entirelyFree_iff.mpr ⟨block, member, within⟩
  have leftIff : Within node.left block ↔ node.left = block ∨ Within node block := by
    rw [within_iff_parent, parent_left splits]
  have rightIff : Within node.right block ↔ node.right = block ∨ Within node block := by
    rw [within_iff_parent, parent_right splits]
  have parentIff : node = block.parent ↔ node.left = block ∨ node.right = block := by
    constructor
    · rintro rfl
      rcases block.eq_left_or_right with ⟨same, _⟩ | ⟨same, _⟩
      · exact Or.inl same.symm
      · exact Or.inr same.symm
    · rintro (rfl | rfl)
      · exact (parent_left splits).symm
      · exact (parent_right splits).symm
  have distinct := @left_ne_right node
  by_cases range : Within node (root top)
  · rw [splitBit_within range, splitBit_within range, heap.entirelyFree_take member,
      heap.entirelyFree_take member, parentIff, leftIff, rightIff]
    by_cases nodeInside : Within node block
    · have notParent : ¬ (node.left = block ∨ node.right = block) := by
        rw [← parentIff]
        rintro rfl
        have tooLarge := nodeInside.1
        simp [parent] at tooLarge
      have first := entirely (leftIff.mpr (Or.inr nodeInside))
      have second := entirely (rightIff.mpr (Or.inr nodeInside))
      simp [Xor, nodeInside, first, second, notParent]
    · by_cases isLeft : node.left = block
      · have first := entirely (leftIff.mpr (Or.inl isLeft))
        have notRight : node.right ≠ block := fun same => distinct (isLeft.trans same.symm)
        simp [Xor, nodeInside, isLeft, notRight, isLeft ▸ first]
      · by_cases isRight : node.right = block
        · have second := entirely (rightIff.mpr (Or.inl isRight))
          simp [Xor, nodeInside, isLeft, isRight, isRight ▸ second]
        · simp [Xor, nodeInside, isLeft, isRight]
  · by_cases above : node = root (top + 1)
    · subst above
      rw [splitBit_above, splitBit_above, heap.entirelyFree_take member]
      by_cases isRoot : block = root top
      · subst isRoot
        simp [Xor, Within.refl, entirely (Within.refl _)]
      · have notParent : root (top + 1) ≠ block.parent := by
          intro same
          apply isRoot
          apply inside.eq_of_le
          have exponents := congrArg Block.exponent same
          simp [root, parent] at exponents ⊢
          omega
        have notInside : ¬ Within (root top) block := by
          intro within
          exact isRoot (inside.eq_of_le within.1)
        simp [Xor, notParent, notInside]
    · have notParent : node ≠ block.parent := by
        rintro rfl
        rcases within_iff_parent.mp inside with rfl | within
        · exact above (parent_root top)
        · exact range within
      simp [Xor, splitBit_outside range above, notParent]

/-- Giving a used block back flips the bit of its parent only. -/
theorem splitBit_release
    (heap : Heap top free used)
    (member : block ∈ used)
    (buddyUsed : block.buddy ∉ free) :
    FlippedAt block.parent (SplitBit top free) (SplitBit top (insert block free)) := by
  have notFree := heap.not_free_of_used member
  have taken := (heap.release member buddyUsed).splitBit_take (Set.mem_insert block free)
  rw [Set.insert_sdiff_self_of_notMem notFree] at taken
  exact taken.symm

/-- The parent bit of a used block tells whether its buddy is free. -/
theorem splitBit_parent
    (heap : Heap top free used)
    (member : block ∈ used)
    (smaller : block.exponent < top) :
    SplitBit top free block.parent ↔ block.buddy ∈ free := by
  have inside : Within block.parent (root top) :=
    (heap.tiles.within block (Or.inr member)).parent_of_lt smaller
  have notFree : ¬ EntirelyFree free block :=
    heap.not_entirelyFree member (Or.inl (.refl _))
  have buddyFree : EntirelyFree free block.buddy ↔ block.buddy ∈ free := by
    rw [heap.entirelyFree_iff]
    constructor
    · rintro ⟨owner, ownerFree, within⟩
      rcases within_iff_parent.mp within with same | above
      · exact same ▸ ownerFree
      · rw [parent_buddy] at above
        exact absurd (heap.entirelyFree_iff.mpr ⟨owner, ownerFree, block.within_parent.trans above⟩)
          notFree
    · exact fun ownerFree => ⟨_, ownerFree, .refl _⟩
  rw [splitBit_within inside]
  rcases block.eq_left_or_right with ⟨first, second⟩ | ⟨first, second⟩
  · rw [← first, ← second, buddyFree]
    simp [Xor, notFree]
  · rw [← first, ← second, buddyFree]
    simp [Xor, notFree]

/-- With one free block no bit is set. -/
theorem splitBit_single (splits : 0 < node.exponent) : ¬ SplitBit top {root top} node := by
  have whole : ∀ {other}, Within other (root top) → EntirelyFree {root top} other := by
    intro other within
    exact (Heap.single top).entirelyFree_iff.mpr ⟨root top, rfl, within⟩
  by_cases range : Within node (root top)
  · rw [splitBit_within range]
    have first := whole ((left_within splits).trans range)
    have second := whole ((right_within splits).trans range)
    simp [Xor, first, second]
  · by_cases above : node = root (top + 1)
    · rw [above, splitBit_above]
      exact not_not_intro (whole (.refl _))
    · exact splitBit_outside range above

/-- Doubling a heap in use leaves the nodes of the old range as they are. -/
theorem entirelyFree_double
    (inside : Within node (root top)) :
    EntirelyFree (insert ⟨top, 1⟩ free) node ↔ EntirelyFree free node := by
  constructor
  · intro entirely offset holds
    obtain ⟨owner, rfl | inFree, owns⟩ := entirely offset holds
    · have below := holds_root.mp (inside.holds holds)
      have above := (holds_iff_range.mp owns).1
      simp only [start, Nat.one_mul] at above
      omega
    · exact ⟨owner, inFree, owns⟩
  · intro entirely offset holds
    obtain ⟨owner, inFree, owns⟩ := entirely offset holds
    exact ⟨owner, Or.inr inFree, owns⟩

/-- Doubling a heap in use sets the bit above the new root only. -/
theorem splitBit_double
    (heap : Heap top free used)
    (inUse : ¬ EntirelyFree free (root top)) :
    FlippedAt (root (top + 2)) (SplitBit top free)
      (SplitBit (top + 1) (insert ⟨top, 1⟩ free)) := by
  intro node splits
  have larger := heap.double inUse
  have newFree : ∀ {other}, Within other ⟨top, 1⟩ → EntirelyFree (insert ⟨top, 1⟩ free) other := by
    intro other within
    exact larger.entirelyFree_iff.mpr ⟨_, Or.inl rfl, within⟩
  have rootLeft : (root (top + 1)).left = root top := by
    simp [root, left]
  have rootRight : (root (top + 1)).right = ⟨top, 1⟩ := by
    simp [root, right]
  have oldInUse : ¬ EntirelyFree (insert ⟨top, 1⟩ free) (root top) := by
    rw [entirelyFree_double (.refl _)]
    exact inUse
  have newInUse : ¬ EntirelyFree (insert ⟨top, 1⟩ free) (root (top + 1)) := by
    intro entirely
    apply oldInUse
    intro offset holds
    exact entirely offset ((parent_root top ▸ within_parent (root top)).holds holds)
  have bigger : ∀ exponent, root exponent ≠ root (exponent + 1) := by
    intro exponent same
    have exponents := congrArg Block.exponent same
    simp [root] at exponents
  by_cases old : Within node (root top)
  · -- A node of the old range.
    have now : Within node (root (top + 1)) :=
      old.trans (parent_root top ▸ within_parent (root top))
    have notNew : node ≠ root (top + 2) := by
      rintro rfl
      have tooLarge := now.1
      simp [root] at tooLarge
    have leftOld : Within node.left (root top) := (left_within splits).trans old
    have rightOld : Within node.right (root top) := (right_within splits).trans old
    rw [splitBit_within now, splitBit_within old, entirelyFree_double leftOld,
      entirelyFree_double rightOld]
    simp [Xor, notNew]
  · by_cases above : node = root (top + 1)
    · subst above
      rw [splitBit_within (.refl _), splitBit_above, rootLeft, rootRight]
      simp [Xor, inUse, oldInUse, newFree (.refl _), bigger]
    · by_cases now : Within node (root (top + 1))
      · -- A node of the new half.
        have upper : Within node ⟨top, 1⟩ := by
          have smaller : node.exponent < top + 1 := by
            rcases Nat.lt_or_ge node.exponent (top + 1) with less | atLeast
            · exact less
            · exact absurd (now.eq_of_le atLeast) above
          have held := now.holds node.holds_start
          rw [holds_halves (Nat.succ_pos _), rootLeft, rootRight] at held
          rcases held with inOld | inNew
          · exact absurd (within_of_holds (by simp [root]; omega) node.holds_start inOld) old
          · exact within_of_holds (by simp; omega) node.holds_start inNew
        have notNew : node ≠ root (top + 2) := by
          rintro rfl
          have tooLarge := now.1
          simp [root] at tooLarge
        have first := newFree (within_iff_parent.mpr (Or.inr (by rwa [parent_left splits])))
        have second := newFree (within_iff_parent.mpr (Or.inr (by rwa [parent_right splits])))
        rw [splitBit_within now]
        simp [Xor, first, second, splitBit_outside old above, notNew]
      · by_cases top' : node = root (top + 2)
        · subst top'
          rw [splitBit_above]
          simp [Xor, newInUse, splitBit_outside old above]
        · simp [Xor, splitBit_outside now top', splitBit_outside old above, top']

end Heap

end Sysprog.DyadicBlocks
