import Sysprog.XorListAccesses

namespace Sysprog.XorList

open FuelLoop XorChain

/-!
# Sorting a list built by `insert_node`

Every list that `insert_node` builds is well formed, and walking a well-formed list
meets its nodes in order, from either end.  The two functions that `__merge_sort` calls
keep their promises on every well-formed list.
-/

/-- Pushing a fresh node in front of a well-formed list. -/
theorem IsList.insertNode
    {heap : Heap}
    {head : Addr}
    {nodes : List Addr}
    (list : IsList heap head nodes)
    (d : Int)
    {tmp : Addr}
    (nonnull : tmp ≠ 0)
    (fresh : tmp ∉ nodes) :
    IsList (insertNode heap head d tmp).1 (insertNode heap head d tmp).2 (tmp :: nodes) := by
  obtain ⟨chain, distinct, oldNonnull, rfl⟩ := list
  have allNonnull : (0 : Addr) ∉ tmp :: nodes := by
    rw [List.mem_cons, not_or]
    exact ⟨nonnull.symm, oldNonnull⟩
  have allDistinct := List.nodup_cons.mpr ⟨fresh, distinct⟩
  cases nodes with
  | nil =>
      refine ⟨?_, allDistinct, allNonnull, ?_⟩
      · simp [XorList.insertNode, chain_singleton]
      · simp [XorList.insertNode]
  | cons first more =>
      have occupied : (first :: more).headD 0 ≠ 0 := by
        intro null
        exact oldNonnull (null ▸ List.mem_cons_self)
      simp only [XorList.insertNode, if_neg occupied]
      refine ⟨⟨?_, ?_⟩, allDistinct, allNonnull, rfl⟩
      · simp
      · have stored := chain.store_first (List.nodup_cons.mp distinct).1 tmp
        rw [xor_null, BitVec.xor_comm] at stored
        exact stored.store_other fresh _

/-- Lists built by `insert_node` are well formed. -/
theorem Built.isList
    {heap : Heap}
    {head : Addr}
    {nodes : List Addr}
    (built : Built heap head nodes) :
    IsList heap head nodes := by
  induction built with
  | empty heap =>
      exact ⟨trivial, List.nodup_nil, List.not_mem_nil, rfl⟩
  | insert built d tmp nonnull fresh inductionHypothesis =>
      exact inductionHypothesis.insertNode d nonnull fresh

/-- Following the links of a chain meets its nodes and ends at `NULL`. -/
theorem walk_chain
    {heap : Heap}
    {previous : Addr}
    {nodes : List Addr}
    {fuel : Nat}
    (chain : Chain heap.addr previous nodes 0)
    (nonnull : (0 : Addr) ∉ nodes)
    (enough : nodes.length < fuel) :
    walk heap fuel previous (nodes.headD 0) = some nodes := by
  induction nodes generalizing previous fuel with
  | nil =>
      obtain ⟨fuel, rfl⟩ := Nat.exists_eq_add_of_lt enough
      simp [walk]
  | cons node rest inductionHypothesis =>
      simp only [List.length_cons] at enough
      obtain ⟨fuel, rfl⟩ : ∃ less, fuel = less + 1 := ⟨fuel - 1, by omega⟩
      rw [List.mem_cons, not_or] at nonnull
      have onward := inductionHypothesis chain.2 nonnull.2 (show rest.length < fuel by omega)
      rw [← chain.forward] at onward
      rw [List.headD_cons, walk, if_neg (Ne.symm nonnull.1), XOR, onward, Option.map_some]

/-- A well-formed list reads the same from both ends. -/
theorem IsList.walks
    {heap : Heap}
    {head : Addr}
    {nodes : List Addr}
    {fuel : Nat}
    (list : IsList heap head nodes)
    (enough : nodes.length < fuel) :
    walk heap fuel 0 head = some nodes ∧
      walk heap fuel 0 (nodes.getLastD 0) = some nodes.reverse := by
  constructor
  · rw [list.starts]
    exact walk_chain list.chain list.nonnull enough
  · have last : nodes.getLastD 0 = nodes.reverse.headD 0 := by
      rw [List.getLastD_eq_getLast?, List.headD_eq_head?_getD, List.head?_reverse]
    rw [last]
    exact walk_chain (chain_reverse.mpr list.chain) (by simpa using list.nonnull)
      (by simpa using enough)

/--
`__merge_sort` returns with every budget that is large enough.  Its result holds the same
nodes, walking it from the head gives their data in non-decreasing order, and walking it
from the last node gives the reverse.
-/
def MergeSorts (heap : Heap) (head : Addr) (nodes : List Addr) (minSplitSize : Int) : Prop :=
  ∀ fuel,
    nodes.length + 2 ≤ fuel →
    ∃ result newHead order,
      mergeSort fuel heap head minSplitSize = some (result, newHead) ∧
        IsList result newHead order ∧
        order.Perm nodes ∧
        result.data = heap.data ∧
        (order.map result.data).Pairwise (· ≤ ·) ∧
        walk result fuel 0 newHead = some order ∧
        walk result fuel 0 (order.getLastD 0) = some order.reverse

/-- Without overflow a well-formed list is sorted. -/
theorem IsList.mergeSorts
    {heap : Heap}
    {head : Addr}
    {nodes : List Addr}
    (list : IsList heap head nodes)
    {minSplitSize : Int}
    (counts : nodes.length < 2 ^ 32 ∨ minSplitSize = 0) :
    MergeSorts heap head nodes minSplitSize := by
  intro fuel enough
  obtain ⟨⟨result, newHead⟩, order, returned, sorted⟩ :=
    mergeSort_sorts list enough counts
  have sameData : result.data = heap.data := sorted.rearranged.data
  have sameLength := sorted.rearranged.perm.length_eq
  obtain ⟨forwards, backwards⟩ := sorted.list.walks (show order.length < fuel by omega)
  refine ⟨result, newHead, order, returned, sorted.list, sorted.rearranged.perm, sameData,
    ?_, forwards, backwards⟩
  rw [List.pairwise_map, sameData]
  exact sorted.ordered

/-- A longer list is not sorted, unless `min_split_size` is zero. -/
theorem IsList.not_mergeSorts
    {heap : Heap}
    {head : Addr}
    {nodes : List Addr}
    (list : IsList heap head nodes)
    (long : 2 ^ 32 ≤ nodes.length)
    {minSplitSize : Int}
    (splits : minSplitSize ≠ 0) :
    ¬ MergeSorts heap head nodes minSplitSize := by
  intro sorts
  obtain ⟨_, _, _, returned, _⟩ := sorts (nodes.length + 2) (Nat.le_refl _)
  rw [mergeSort_overflows list long splits] at returned
  simp at returned

/--
`__merge_sort` sorts a list built by `insert_node` exactly when an `int` can count half of
it or `min_split_size` is zero.
-/
theorem mergeSorts_iff
    {heap : Heap}
    {head : Addr}
    {nodes : List Addr}
    (built : Built heap head nodes)
    (minSplitSize : Int) :
    MergeSorts heap head nodes minSplitSize ↔ nodes.length < 2 ^ 32 ∨ minSplitSize = 0 := by
  constructor
  · intro sorts
    by_contra neither
    rw [not_or, Nat.not_lt] at neither
    exact built.isList.not_mergeSorts neither.1 neither.2 sorts
  · exact built.isList.mergeSorts

/-- Three nodes, pushed with the data 1, 3 and 2. -/
def threeNodes : Heap × Addr :=
  let nowhere : Heap := { data := fun _ => 0, addr := fun _ => 0 }
  let one := insertNode nowhere 0 1 0x1000
  let two := insertNode one.1 one.2 3 0x1020
  insertNode two.1 two.2 2 0x1040

/-- The three nodes are a built list. -/
theorem threeNodes_built : Built threeNodes.1 threeNodes.2 [0x1040, 0x1020, 0x1000] :=
  (((Built.empty _).insert 1 0x1000 (by decide) (by decide)).insert 3 0x1020 (by decide)
    (by decide)).insert 2 0x1040 (by decide) (by decide)

/-- Sorting the three nodes by merging single nodes. -/
theorem mergeSorts_iff_threeNodes :
    MergeSorts threeNodes.1 threeNodes.2 [0x1040, 0x1020, 0x1000] (-1) ↔
      [0x1040, 0x1020, 0x1000].length < 2 ^ 32 ∨ (-1 : Int) = 0 :=
  mergeSorts_iff threeNodes_built (-1)

/-- The address of node number `k` of a long list. -/
def nodeAddr (k : Nat) : Addr :=
  BitVec.ofNat 64 (32 * (k + 1))

/-- So many nodes, pushed with the data 0. -/
def zeros : Nat → Heap × Addr
  | 0 => ({ data := fun _ => 0, addr := fun _ => 0 }, 0)
  | n + 1 => insertNode (zeros n).1 (zeros n).2 0 (nodeAddr n)

/-- Their addresses in list order. -/
def zeroNodes : Nat → List Addr
  | 0 => []
  | n + 1 => nodeAddr n :: zeroNodes n

@[simp] theorem zeroNodes_length (n : Nat) : (zeroNodes n).length = n := by
  induction n with
  | zero =>
      rfl
  | succ n inductionHypothesis =>
      rw [zeroNodes, List.length_cons, inductionHypothesis]

/-- Each of these addresses belongs to an earlier node. -/
theorem mem_zeroNodes {n : Nat} {p : Addr} (member : p ∈ zeroNodes n) :
    ∃ k, k < n ∧ p = nodeAddr k := by
  induction n with
  | zero =>
      simp [zeroNodes] at member
  | succ n inductionHypothesis =>
      rcases List.mem_cons.mp member with rfl | earlier
      · exact ⟨n, Nat.lt_succ_self n, rfl⟩
      · obtain ⟨k, below, same⟩ := inductionHypothesis earlier
        exact ⟨k, Nat.lt_succ_of_lt below, same⟩

/-- As long as the addresses fit a word, the nodes are a built list. -/
theorem zeros_built {n : Nat} (fits : n < 2 ^ 58) :
    Built (zeros n).1 (zeros n).2 (zeroNodes n) := by
  induction n with
  | zero =>
      exact Built.empty _
  | succ n inductionHypothesis =>
      refine (inductionHypothesis (by omega)).insert 0 (nodeAddr n) ?_ ?_
      · intro null
        have word := congrArg BitVec.toNat null
        simp only [nodeAddr, BitVec.toNat_ofNat, BitVec.ofNat_eq_ofNat, Nat.zero_mod] at word
        omega
      · intro member
        obtain ⟨k, below, same⟩ := mem_zeroNodes member
        have word := congrArg BitVec.toNat same
        simp only [nodeAddr, BitVec.toNat_ofNat] at word
        omega

/-- A list of 4294967296 nodes makes the counter overflow. -/
theorem mergeSort_overflows_zeros :
    Built (zeros (2 ^ 32)).1 (zeros (2 ^ 32)).2 (zeroNodes (2 ^ 32)) ∧
      ¬ MergeSorts (zeros (2 ^ 32)).1 (zeros (2 ^ 32)).2 (zeroNodes (2 ^ 32)) 1 := by
  have built := @zeros_built (2 ^ 32) (by decide)
  refine ⟨built, built.isList.not_mergeSorts ?_ (by decide)⟩
  exact Nat.le_of_eq (zeroNodes_length (2 ^ 32)).symm

/-! ## The functions it calls -/

/--
`insertion_sort` of a well-formed list returns.  Its result is a well-formed list of the
same nodes, with their data in non-decreasing order and nodes of equal data in the order
they had.  It accesses these nodes only.
-/
theorem insertionSort_stable
    {heap : Heap}
    {head : Addr}
    {nodes : List Addr}
    (list : IsList heap head nodes)
    {fuel : Nat}
    (enough : nodes.length < fuel) :
    ∃ result newHead order,
      insertionSort fuel heap head = some (result, newHead) ∧
        IsList result newHead order ∧
        order.Perm nodes ∧
        result.data = heap.data ∧
        (order.map result.data).Pairwise (· ≤ ·) ∧
        SameTies result.data order nodes ∧
        (∀ p, p ∉ nodes → result.addr p = heap.addr p) ∧
        ∀ p ∈ insertionSortAccesses fuel heap head, p ∈ nodes := by
  obtain ⟨result, newHead, order, returned, split⟩ := insertionSort_correct list enough
  have sameData : result.data = heap.data := split.rearranged.data
  refine ⟨result, newHead, order, returned, by simpa using split.list,
    by simpa using split.rearranged.perm, sameData, ?_, ?_, split.rearranged.frame,
    insertionSortAccesses_mem list enough⟩
  · rw [List.pairwise_map, sameData]
    exact split.ordered
  · rw [sameData]
    simpa using split.ties

/-- Three nodes, pushed with the data 2, 1 and 2. -/
def tiedNodes : Heap × Addr :=
  let nowhere : Heap := { data := fun _ => 0, addr := fun _ => 0 }
  let one := insertNode nowhere 0 2 0x1000
  let two := insertNode one.1 one.2 1 0x1020
  insertNode two.1 two.2 2 0x1040

/-- They form a list, the last one pushed in front. -/
theorem tiedNodes_list : IsList tiedNodes.1 tiedNodes.2 [0x1040, 0x1020, 0x1000] :=
  ((((Built.empty _).insert 2 0x1000 (by decide) (by decide)).insert 1 0x1020 (by decide)
    (by decide)).insert 2 0x1040 (by decide) (by decide)).isList

/-- Sorting them moves the second node to the front. -/
theorem insertionSort_stable_tiedNodes :
    ∃ result newHead order,
      insertionSort 4 tiedNodes.1 tiedNodes.2 = some (result, newHead) ∧
        IsList result newHead order ∧
        order.Perm [0x1040, 0x1020, 0x1000] ∧
        result.data = tiedNodes.1.data ∧
        (order.map result.data).Pairwise (· ≤ ·) ∧
        SameTies result.data order [0x1040, 0x1020, 0x1000] ∧
        (∀ p, p ∉ [0x1040, 0x1020, 0x1000] → result.addr p = tiedNodes.1.addr p) ∧
        ∀ p ∈ insertionSortAccesses 4 tiedNodes.1 tiedNodes.2,
          p ∈ [0x1040, 0x1020, 0x1000] :=
  insertionSort_stable tiedNodes_list (by decide)

/--
`to_half` cuts a well-formed list of two nodes or more, if an `int` can count half of them,
in two well-formed lists: the first half, rounded down, at the old head, and the rest at
the node it returns.  `*size` is the length of the first half.  It accesses nodes of the
list only.
-/
theorem toHalf_halves
    {heap : Heap}
    {head : Addr}
    {nodes : List Addr}
    (list : IsList heap head nodes)
    (several : 2 ≤ nodes.length)
    (narrow : nodes.length < 2 ^ 32)
    {fuel : Nat}
    (enough : nodes.length < fuel)
    (size : Int) :
    ∃ result middle,
      toHalf fuel heap head size =
          some (result, middle, ((nodes.length / 2 : Nat) : Int)) ∧
        IsList result head (nodes.take (nodes.length / 2)) ∧
        IsList result middle (nodes.drop (nodes.length / 2)) ∧
        result.data = heap.data ∧
        (∀ p, p ∉ nodes → result.addr p = heap.addr p) ∧
        ∀ p ∈ toHalfAccesses fuel heap head, p ∈ nodes := by
  obtain ⟨⟨result, middle, counted⟩, returned, cut, sizeEq⟩ :=
    toHalf_correct list several narrow enough size
  obtain rfl : counted = ((nodes.length / 2 : Nat) : Int) := sizeEq
  refine ⟨result, middle, returned, cut.first, cut.second, cut.data, ?_,
    toHalfAccesses_mem list several narrow enough⟩
  intro p outside
  apply cut.frame
  rw [List.take_append_drop]
  exact outside

/-- Cutting the three nodes behind the first one. -/
theorem toHalf_halves_threeNodes :
    ∃ result middle,
      toHalf 4 threeNodes.1 threeNodes.2 0 = some (result, middle, 1) ∧
        IsList result threeNodes.2 [0x1040] ∧
        IsList result middle [0x1020, 0x1000] ∧
        result.data = threeNodes.1.data ∧
        (∀ p, p ∉ [0x1040, 0x1020, 0x1000] → result.addr p = threeNodes.1.addr p) ∧
        ∀ p ∈ toHalfAccesses 4 threeNodes.1 threeNodes.2, p ∈ [0x1040, 0x1020, 0x1000] :=
  toHalf_halves threeNodes_built.isList (by decide) (by decide) (by decide) 0

end Sysprog.XorList
