import Sysprog.SwapPairsModel

namespace Sysprog.SwapPairs

open FuelLoop LinkedHeap

/-!
# Swapping pairs and reversing

Both functions rewrite a list in place.  `swap_pair` goes over the links with everything
before its link rewritten and everything behind it as it was; `rev_recursive` patches, on
the way back, one node behind the part that is already reversed.
-/

variable {Node : Type}

/-- The list with the first and second, third and fourth, ... nodes exchanged. -/
def pairsSwapped : List Node → List Node
  | first :: second :: rest => second :: first :: pairsSwapped rest
  | nodes => nodes

/-- The nodes are the same ones. -/
theorem pairsSwapped_perm (nodes : List Node) : (pairsSwapped nodes).Perm nodes := by
  induction nodes using pairsSwapped.induct with
  | case1 first second rest inductionHypothesis =>
      exact (List.Perm.swap first second _).trans
        ((inductionHypothesis.cons second).cons first)
  | case2 nodes noPair =>
      rw [pairsSwapped]
      exact noPair

/-- Exchanged twice, the pairs are as they were. -/
theorem pairsSwapped_twice (nodes : List Node) : pairsSwapped (pairsSwapped nodes) = nodes := by
  induction nodes using pairsSwapped.induct with
  | case1 first second rest inductionHypothesis =>
      rw [pairsSwapped, pairsSwapped, inductionHypothesis]
  | case2 nodes noPair =>
      have same : pairsSwapped nodes = nodes := by
        rw [pairsSwapped]
        exact noPair
      rw [same, same]

variable [DecidableEq Node] {heap : Heap Node} {link : Link Node} {nodes : List Node}

/-! ## One pair -/

/-- What the body of the loop does to a pair. -/
theorem swapStep_eq
    {first second : Node}
    (here : heap link = some first)
    (next : heap (.next first) = some second)
    (apartFirst : link ≠ .next first)
    (apartSecond : link ≠ .next second)
    (distinct : first ≠ second) :
    swapStep heap link =
      some
        (((heap.store link (some second)).store (.next first) (heap (.next second))).store
            (.next second) (some first),
          .next first) := by
  have apart : Link.next second ≠ .next first := next_ne distinct.symm
  simp [swapStep, here, next, store_other apartFirst, store_other apartSecond,
    store_other apartSecond.symm]

/-- The pair is exchanged, and what follows is still in place behind its new second node. -/
theorem swapStep_listed
    {first second : Node}
    {rest : List Node}
    (listed : Listed heap link (first :: second :: rest)) :
    ∃ after,
      swapStep heap link = some (after, .next first) ∧
        after link = some second ∧
        after (.next second) = some first ∧
        Listed after (.next first) rest ∧
        Unchanged heap after link (first :: second :: rest) := by
  obtain ⟨⟨here, next, path⟩, distinct, outside⟩ := listed
  obtain ⟨firstApart, distinct⟩ := List.nodup_cons.mp distinct
  obtain ⟨secondApart, distinct⟩ := List.nodup_cons.mp distinct
  have pair : first ≠ second := fun same => firstApart (same ▸ List.mem_cons_self)
  have outsideFirst : link ≠ .next first := outside first (by simp)
  have outsideSecond : link ≠ .next second := outside second (by simp)
  have outsideRest : ∀ node ∈ rest, link ≠ .next node := fun node member =>
    outside node (by simp [member])
  have restFirst : ∀ node ∈ rest, Link.next first ≠ .next node :=
    next_outside fun member => firstApart (List.mem_cons_of_mem _ member)
  have restSecond : ∀ node ∈ rest, Link.next second ≠ .next node := next_outside secondApart
  have apart : Link.next second ≠ .next first := next_ne pair.symm
  refine ⟨_, swapStep_eq here next outsideFirst outsideSecond pair, ?_, ?_, ?_, ?_⟩
  · rw [store_other outsideSecond, store_other outsideFirst, store_same]
  · rw [store_same]
  · refine ⟨?_, distinct, restFirst⟩
    rw [store_other apart.symm, store_same]
    exact ((path.store outsideRest).store restFirst).store restSecond
  · intro other apartLink missed
    rw [store_other (missed second (by simp)), store_other (missed first (by simp)),
      store_other apartLink]

/-! ## The loop -/

/-- `swap_pair` from a link on, with rounds for every pair. -/
theorem swapPair_listed
    (listed : Listed heap link nodes)
    {fuel : Nat}
    (enough : nodes.length < fuel) :
    ∃ after,
      swapPair fuel heap link = some after ∧
        Listed after link (pairsSwapped nodes) ∧
        Unchanged heap after link nodes := by
  induction nodes using pairsSwapped.induct generalizing heap link fuel with
  | case1 first second rest inductionHypothesis =>
      obtain ⟨fuel, rfl⟩ := exists_round enough
      obtain ⟨swapped, step, atLink, atSecond, remaining, changedPair⟩ := swapStep_listed listed
      obtain ⟨after, returned, listedRest, changedRest⟩ :=
        @inductionHypothesis swapped (.next first) remaining fuel
          (by simp only [List.length_cons] at enough; omega)
      have distinct := List.nodup_cons.mp listed.distinct
      have later := List.nodup_cons.mp distinct.2
      have outside := listed.outside
      -- The rounds that follow do not come back to the links that lead to the pair.
      have keptLink : after link = swapped link := by
        apply changedRest
        · exact outside first (by simp)
        · exact fun node member => outside node (by simp [member])
      have keptSecond : after (.next second) = swapped (.next second) := by
        apply changedRest
        · exact next_ne fun same => distinct.1 (same ▸ List.mem_cons_self)
        · exact next_outside later.1
      refine ⟨after, ?_, ⟨?_, ?_, ?_⟩, ?_⟩
      · have ahead : pairAhead heap link = true := by
          simp [pairAhead, listed.path.1, listed.path.2.1]
        rw [← returned, swapPair, swapPair, loop]
        simp only [swapRound, ahead, if_true, step]
      · rw [pairsSwapped, path_cons, path_cons, keptLink, keptSecond]
        exact ⟨atLink, atSecond, listedRest.path⟩
      · exact (pairsSwapped_perm _).nodup_iff.mpr listed.distinct
      · exact fun node member => outside node ((pairsSwapped_perm _).mem_iff.mp member)
      · intro other apart missed
        rw [changedRest other (missed first (by simp))
          fun node member => missed node (by simp [member])]
        exact changedPair other apart missed
  | case2 nodes noPair =>
      obtain ⟨fuel, rfl⟩ := exists_round enough
      have same : pairsSwapped nodes = nodes := by
        rw [pairsSwapped]
        exact noPair
      have none : pairAhead heap link = false := by
        rcases nodes with _ | ⟨first, _ | ⟨second, rest⟩⟩
        · simp [pairAhead, show heap link = none from listed.path]
        · simp [pairAhead, listed.path.1, show heap (.next first) = none from listed.path.2]
        · exact absurd rfl (noPair first second rest)
      refine ⟨heap, ?_, same.symm ▸ listed, fun other _ _ => rfl⟩
      rw [swapPair, loop]
      simp [swapRound, none]

/-! ## The recursion -/

/-- `rev_recursive` from a pointer on, with calls for every node. -/
theorem revRecursive_path
    {pointer : Option Node}
    (path : Path heap pointer nodes none)
    (distinct : nodes.Nodup)
    {fuel : Nat}
    (enough : nodes.length < fuel) :
    ∃ after top,
      revRecursive fuel heap pointer = some (after, top) ∧
        Path after top nodes.reverse none ∧
        ∀ other, (∀ node ∈ nodes, other ≠ .next node) → after other = heap other := by
  induction nodes generalizing pointer fuel with
  | nil =>
      obtain ⟨fuel, rfl⟩ := exists_round enough
      obtain rfl : pointer = none := path
      exact ⟨heap, none, rfl, rfl, fun other _ => rfl⟩
  | cons node rest inductionHypothesis =>
      obtain ⟨fuel, rfl⟩ := exists_round enough
      obtain ⟨rfl, behind⟩ := path
      obtain ⟨apart, distinctRest⟩ := List.nodup_cons.mp distinct
      cases rest with
      | nil =>
          have last : heap (.next node) = none := behind
          refine ⟨heap, some node, ?_, ⟨rfl, last⟩, fun other _ => rfl⟩
          rw [revRecursive, if_pos last]
      | cons second rest =>
          have next : heap (.next node) = some second := behind.1
          obtain ⟨turned, top, returned, path, kept⟩ :=
            @inductionHypothesis (heap (.next node)) behind distinctRest fuel
              (by simp only [List.length_cons] at enough ⊢; omega)
          -- The call has not touched this node: its `next` is still the old successor.
          have still : turned (.next node) = some second := by
            rw [← next]
            exact kept _ (next_outside apart)
          refine
            ⟨(turned.store (.next second) (some node)).store (.next node) none, top, ?_, ?_, ?_⟩
          · rw [revRecursive, if_neg (by rw [next]; simp), returned]
            simp [still]
          · rw [List.reverse_cons, path_snoc, store_same, List.reverse_cons, path_snoc]
            rw [List.reverse_cons, path_snoc] at path
            have pair : second ≠ node := fun same => apart (same ▸ List.mem_cons_self)
            refine ⟨⟨(path.1.store (next_outside ?_)).store (next_outside ?_), ?_⟩, rfl⟩
            · intro member
              exact (List.nodup_cons.mp distinctRest).1 (List.mem_reverse.mp member)
            · intro member
              exact apart (List.mem_cons_of_mem _ (List.mem_reverse.mp member))
            · rw [store_other (next_ne pair), store_same]
          · intro other missed
            rw [store_other (missed node (by simp)), store_other (missed second (by simp))]
            exact kept other fun inner member => missed inner (List.mem_cons_of_mem _ member)

/-- `reverse` of the list at a link. -/
theorem reverse_listed
    (listed : Listed heap link nodes)
    {fuel : Nat}
    (enough : nodes.length < fuel) :
    ∃ after,
      reverse fuel heap link = some after ∧
        Listed after link nodes.reverse ∧
        Unchanged heap after link nodes := by
  obtain ⟨turned, top, returned, path, kept⟩ :=
    revRecursive_path listed.path listed.distinct enough
  have outside : ∀ node ∈ nodes.reverse, link ≠ .next node := fun node member =>
    listed.outside node (List.mem_reverse.mp member)
  refine ⟨turned.store link top, ?_, ⟨?_, List.nodup_reverse.mpr listed.distinct, outside⟩, ?_⟩
  · rw [reverse, returned]
    rfl
  · rw [store_same]
    exact path.store outside
  · intro other apart missed
    rw [store_other apart]
    exact kept other missed

/-! ## Twice -/

omit [DecidableEq Node] in
/-- A rewriting that is its own inverse on lists restores the heap. -/
theorem restores
    {fuel : Nat}
    {rewrite : Heap Node → Link Node → Option (Heap Node)}
    {result : List Node → List Node}
    (rewritten :
      ∀ {heap : Heap Node} {nodes : List Node},
        Listed heap link nodes →
        nodes.length < fuel →
        ∃ after,
          rewrite heap link = some after ∧
            Listed after link (result nodes) ∧
            Unchanged heap after link nodes)
    (permutes : ∀ nodes, (result nodes).Perm nodes)
    (twice : ∀ nodes, result (result nodes) = nodes)
    (listed : Listed heap link nodes)
    (enough : nodes.length < fuel) :
    ∃ after,
      rewrite heap link = some after ∧
        Listed after link (result nodes) ∧
        Unchanged heap after link nodes ∧
        rewrite after link = some heap := by
  obtain ⟨after, returned, rewrote, changed⟩ := rewritten listed enough
  obtain ⟨final, again, restored, changedAgain⟩ :=
    rewritten rewrote (by rwa [(permutes nodes).length_eq])
  rw [twice] at restored
  have same : final = heap :=
    heap_eq listed restored
      (changed.trans changedAgain fun node member => (permutes nodes).mem_iff.mp member)
  exact ⟨after, returned, rewrote, changed, same ▸ again⟩

/--
On a list that ends with a null pointer both functions return, and leave the same nodes
linked in their order with everything else unchanged; applied to the result, each gives the
heap as it was.
-/
theorem rewrites_listed
    (listed : Listed heap link nodes) :
    ∀ fuel,
      nodes.length < fuel →
      (∃ after,
          swapPair fuel heap link = some after ∧
            Listed after link (pairsSwapped nodes) ∧
            Unchanged heap after link nodes ∧
            swapPair fuel after link = some heap) ∧
        ∃ after,
          reverse fuel heap link = some after ∧
            Listed after link nodes.reverse ∧
            Unchanged heap after link nodes ∧
            reverse fuel after link = some heap := by
  intro fuel enough
  constructor
  · exact
      restores (fun listed enough => swapPair_listed listed enough)
        pairsSwapped_perm pairsSwapped_twice listed enough
  · exact
      restores (fun listed enough => reverse_listed listed enough)
        List.reverse_perm List.reverse_reverse listed enough

theorem rewrites_listed_three :
    (∃ after,
        swapPair 4 (counted 3) .root = some after ∧
          Listed after .root [1, 0, 2] ∧
          Unchanged (counted 3) after .root [0, 1, 2] ∧
          swapPair 4 after .root = some (counted 3)) ∧
      ∃ after,
        reverse 4 (counted 3) .root = some after ∧
          Listed after .root [2, 1, 0] ∧
          Unchanged (counted 3) after .root [0, 1, 2] ∧
          reverse 4 after .root = some (counted 3) :=
  rewrites_listed (counted_listed 3) 4 (by decide)

end Sysprog.SwapPairs
