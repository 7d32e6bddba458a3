import Mathlib.Data.Nat.Bitwise
import Sysprog.BuddyModel
import Sysprog.DyadicBlocks

namespace Sysprog.Buddy

open CircularList DyadicBlocks Block MachineWord

/-!
# Nodes of the tree

The node numbers of the source are the dyadic blocks of the address range in breadth-first
order, and its array of bits is the bit pattern of a buddy heap.
-/

variable {state : State} {block node : Block} {top newTop : Nat} {free newFree : Set Block}

/-- The number of the node for a block. -/
def nodeIndex (block : Block) : Nat :=
  2 ^ (31 - block.exponent) - 1 + block.index

/-- The number of nodes at a level doubles with each level. -/
private theorem level_succ {exponent : Nat} (below : exponent < 31) :
    2 ^ (31 - exponent) = 2 * 2 ^ (31 - (exponent + 1)) := by
  rw [← Nat.pow_succ']
  congr 1
  omega

theorem nodeIndex_parent (below : block.exponent < 31) :
    (nodeIndex block - 1) / 2 = nodeIndex block.parent := by
  have positive := Nat.two_pow_pos (31 - (block.exponent + 1))
  have levels := level_succ below
  simp only [nodeIndex, parent]
  omega

theorem nodeIndex_left (splits : 0 < block.exponent) (inside : block.exponent ≤ 31) :
    nodeIndex block * 2 + 1 = nodeIndex block.left := by
  have positive := Nat.two_pow_pos (31 - block.exponent)
  have levels := level_succ (show block.exponent - 1 < 31 by omega)
  rw [Nat.sub_add_cancel splits] at levels
  simp only [nodeIndex, left]
  omega

theorem nodeIndex_right : nodeIndex block.left + 1 = nodeIndex block.right := by
  simp only [nodeIndex, left, right]
  omega

/-- The source finds the buddy with an exclusive or. -/
theorem nodeIndex_buddy (below : block.exponent < 31) :
    ((nodeIndex block - 1) ^^^ 1) + 1 = nodeIndex block.buddy := by
  have positive := Nat.two_pow_pos (31 - (block.exponent + 1))
  have levels := level_succ below
  have even : nodeIndex block - 1 = 2 * (2 ^ (31 - (block.exponent + 1)) - 1) + block.index := by
    simp only [nodeIndex]
    omega
  rw [even]
  rcases Nat.even_or_odd block.index with evenIndex | oddIndex
  · have both : Even (2 * (2 ^ (31 - (block.exponent + 1)) - 1) + block.index) :=
      (even_two_mul _).add evenIndex
    rw [Nat.xor_one_of_even both]
    simp only [nodeIndex, buddy, if_pos (Nat.even_iff.mp evenIndex)]
    omega
  · have both : Odd (2 * (2 ^ (31 - (block.exponent + 1)) - 1) + block.index) :=
      (even_two_mul _).add_odd oddIndex
    have isOdd := Nat.odd_iff.mp oddIndex
    rw [Nat.xor_one_of_odd both]
    simp only [nodeIndex, buddy, isOdd, Nat.one_ne_zero, if_false]
    omega

theorem nodeIndex_eq_zero (inside : block.exponent ≤ 31) :
    nodeIndex block = 0 ↔ block = root 31 := by
  constructor
  · intro zero
    have positive := Nat.two_pow_pos (31 - block.exponent)
    simp only [nodeIndex] at zero
    have single : 2 ^ (31 - block.exponent) = 1 := by omega
    have exponent : 31 - block.exponent = 0 := by
      by_contra more
      have large := Nat.one_lt_two_pow more
      omega
    obtain ⟨size, index⟩ := block
    simp only [root, Block.mk.injEq] at *
    omega
  · rintro rfl
    rfl

/-- Different blocks of the range have different numbers. -/
theorem nodeIndex_injective
    {other : Block}
    (inside : Within block (root 31))
    (otherInside : Within other (root 31))
    (same : nodeIndex block = nodeIndex other) :
    block = other := by
  rw [within_root] at inside otherInside
  have level : ∀ {first second : Block}, first.exponent ≤ 31 →
      first.index < 2 ^ (31 - first.exponent) → nodeIndex first = nodeIndex second →
      ¬ first.exponent > second.exponent := by
    intro first second _ small equal deeper
    have positive := Nat.two_pow_pos (31 - first.exponent)
    have doubled : 2 ^ (31 - first.exponent + 1) ≤ 2 ^ (31 - second.exponent) := by
      apply Nat.pow_le_pow_right (by decide)
      omega
    rw [Nat.pow_succ] at doubled
    simp only [nodeIndex] at equal
    omega
  have exponents : block.exponent = other.exponent := by
    have first := level inside.1 inside.2 same
    have second := level otherInside.1 otherInside.2 same.symm
    omega
  obtain ⟨size, index⟩ := block
  obtain ⟨otherSize, otherIndex⟩ := other
  simp only [nodeIndex] at same exponents
  subst exponents
  simp only [Block.mk.injEq, true_and]
  omega

/-- Every number in the array is the number of a block. -/
theorem exists_nodeIndex
    {index : Nat}
    (inside : index < 2 ^ 27 - 1) :
    ∃ block : Block, Within block (root 31) ∧ 5 ≤ block.exponent ∧ nodeIndex block = index := by
  have lower := Nat.log2_self_le (show index + 1 ≠ 0 by omega)
  have upper := @Nat.lt_log2_self (index + 1)
  have level : (index + 1).log2 ≤ 26 := by
    by_contra deep
    have large := Nat.pow_le_pow_right (show 0 < 2 by decide) (show 27 ≤ (index + 1).log2 by omega)
    omega
  generalize (index + 1).log2 = depth at lower upper level
  rw [Nat.pow_succ] at upper
  refine ⟨⟨31 - depth, index + 1 - 2 ^ depth⟩, ?_, by simp only; omega, ?_⟩
  · rw [within_root]
    simp only [Nat.sub_sub_self (show depth ≤ 31 by omega)]
    omega
  · simp only [nodeIndex, Nat.sub_sub_self (show depth ≤ 31 by omega)]
    have positive := Nat.two_pow_pos depth
    omega

theorem ptrForNode_nodeIndex (inside : block.exponent ≤ 31) :
    ptrForNode state (nodeIndex block) (31 - block.exponent) = state.basePtr + block.start := by
  have positive := Nat.two_pow_pos (31 - block.exponent)
  rw [ptrForNode, nodeIndex, start, Nat.sub_sub_self inside]
  congr 2
  omega

theorem nodeForPtr_start (inside : block.exponent ≤ 31) :
    nodeForPtr state (state.basePtr + block.start) (31 - block.exponent) = nodeIndex block := by
  have positive := Nat.two_pow_pos (31 - block.exponent)
  rw [nodeForPtr, nodeIndex, start, Nat.sub_sub_self inside, Nat.add_sub_cancel_left,
    Nat.mul_div_cancel _ (Nat.two_pow_pos _)]
  omega

/-! ## Bits -/

/-- Flipping changes one bit of the array. -/
theorem splitBitAt_flip (index number : Nat) :
    splitBitAt (flipParentIsSplit state number) index =
      if index = (number - 1) / 2 then !splitBitAt state index else splitBitAt state index := by
  have bit : ∀ (some : State) (position : Nat),
      splitBitAt some position = (some.nodeIsSplit (position / 8)).testBit (position % 8) := by
    intro some position
    simp [splitBitAt, Nat.testBit, Nat.and_comm]
  rw [bit, bit, flipParentIsSplit]
  by_cases sameByte : index / 8 = (number - 1) / 2 / 8
  · simp only [sameByte, Function.update_self, Nat.testBit_xor, Nat.one_shiftLeft,
      Nat.testBit_two_pow]
    by_cases sameBit : (number - 1) / 2 % 8 = index % 8
    · rw [if_pos (by omega)]
      simp [sameBit]
    · rw [if_neg (by omega)]
      simp [sameBit]
  · rw [if_neg (by omega)]
    simp only [Function.update_of_ne sameByte]

/-- The array holds the bit pattern of a heap. -/
structure BitsMatch (state : State) (top : Nat) (free : Set Block) : Prop where
  nodes :
    ∀ node : Block,
      Within node (root 31) →
      5 ≤ node.exponent →
      (splitBitAt state (nodeIndex node) = true ↔ SplitBit top free node)
  rest : ∀ index, 2 ^ 27 - 1 ≤ index → splitBitAt state index = false

/-- The bits depend on the array only. -/
theorem BitsMatch.congr
    {other : State}
    (bits : BitsMatch state top free)
    (same : other.nodeIsSplit = state.nodeIsSplit) :
    BitsMatch other top free where
  nodes := by
    intro node inside large
    simp only [splitBitAt, same]
    exact bits.nodes node inside large
  rest := by
    intro index above
    simp only [splitBitAt, same]
    exact bits.rest index above

/-- A flip at a parent in the array is a flip in the pattern. -/
theorem BitsMatch.flip
    (bits : BitsMatch state top free)
    (inside : Within block (root 31))
    (atLeast : 4 ≤ block.exponent)
    (below : block.exponent < 31)
    (flipped : FlippedAt block.parent (SplitBit top free) (SplitBit newTop newFree)) :
    BitsMatch (flipParentIsSplit state (nodeIndex block)) newTop newFree where
  nodes := by
    intro node nodeInside large
    have parentInside := inside.parent_of_lt below
    rw [splitBitAt_flip, nodeIndex_parent below, flipped node (by omega)]
    have before := bits.nodes node nodeInside large
    by_cases here : node = block.parent
    · rw [if_pos (by rw [here]), ← before]
      simp [Xor, here]
    · rw [if_neg fun same => here (nodeIndex_injective nodeInside parentInside same), ← before]
      simp [Xor, here]
  rest := by
    intro index above
    have parentInside := within_root.mp (inside.parent_of_lt below)
    have shallow : 2 ^ (31 - block.parent.exponent) ≤ 2 ^ 26 := by
      apply Nat.pow_le_pow_right (by decide)
      simp only [parent]
      omega
    rw [splitBitAt_flip, nodeIndex_parent below, if_neg, bits.rest index above]
    simp only [nodeIndex]
    omega

/-- A flip in the pattern outside of the address range needs none in the array. -/
theorem BitsMatch.skip
    (bits : BitsMatch state top free)
    (outside : 31 < node.exponent)
    (flipped : FlippedAt node (SplitBit top free) (SplitBit newTop newFree)) :
    BitsMatch state newTop newFree where
  nodes := by
    intro other inside large
    have elsewhere : other ≠ node := by
      rintro rfl
      have small := inside.1
      simp only [root] at small
      omega
    rw [bits.nodes other inside large, flipped other (by omega)]
    simp [Xor, elsewhere]
  rest := bits.rest

/-- `bmalloc` and `lower_bucket_limit` flip the parent of every node but the last root. -/
theorem BitsMatch.flip_unless_root
    (bits : BitsMatch state top free)
    (inside : Within block (root 31))
    (atLeast : 4 ≤ block.exponent)
    (flipped : FlippedAt block.parent (SplitBit top free) (SplitBit newTop newFree)) :
    BitsMatch
      (if nodeIndex block ≠ 0 then flipParentIsSplit state (nodeIndex block) else state)
      newTop newFree := by
  have limit := inside.1
  by_cases isRoot : block = root 31
  · rw [if_neg (not_not_intro ((nodeIndex_eq_zero limit).mpr isRoot))]
    exact bits.skip (by simp [isRoot, parent, root]) flipped
  · rw [if_pos (mt (nodeIndex_eq_zero limit).mp isRoot)]
    have below : block.exponent < 31 := by
      rcases Nat.lt_or_ge block.exponent 31 with less | atTop
      · exact less
      · exact absurd (inside.eq_of_le atTop) isRoot
    exact bits.flip inside atLeast below flipped

end Sysprog.Buddy
