import Sysprog.SelectionShuffle
import Sysprog.SwapPairsModel

namespace Sysprog.SwapPairs

open FuelLoop LinkedHeap SelectionShuffle

/-!
# `fisher_yates_shuffle`

A round walks to the link that holds the chosen node, and exchanges that node with the one
at the current link by four stores.  Where the chosen node is the next one, the link that
holds it belongs to the node it is exchanged with.  The nodes are counted in an `int`.
-/

variable {Node : Type} {heap : Heap Node} {link : Link Node} {nodes : List Node}

/-- The link after these nodes. -/
def lastLink (link : Link Node) : List Node → Link Node
  | [] => link
  | node :: rest => lastLink (.next node) rest

theorem lastLink_snoc (node : Node) : lastLink link (nodes ++ [node]) = .next node := by
  induction nodes generalizing link with
  | nil => rfl
  | cons first rest inductionHypothesis => exact inductionHypothesis

/-- Walking over as many nodes as there are leads to the link after them. -/
theorem walk_eq {stop : Option Node} (path : Path heap (heap link) nodes stop) :
    walk heap nodes.length link = some (lastLink link nodes) := by
  induction nodes generalizing link with
  | nil => rfl
  | cons node rest inductionHypothesis =>
      have here : heap link = some node := path.1
      rw [List.length_cons, walk, here]
      exact inductionHypothesis path.2

/-! ## Counting -/

/-- The nodes of a list that an `int` can count are counted. -/
theorem length_short
    {pointer : Option Node}
    (path : Path heap pointer nodes none)
    {len : Nat}
    (short : len + nodes.length < ints)
    {fuel : Nat}
    (enough : nodes.length < fuel) :
    loop (lengthRound heap) fuel (len, pointer) = some (some (len + nodes.length)) := by
  induction nodes generalizing pointer len fuel with
  | nil =>
      obtain ⟨fuel, rfl⟩ := exists_round enough
      obtain rfl : pointer = none := path
      rfl
  | cons node rest inductionHypothesis =>
      obtain ⟨fuel, rfl⟩ := exists_round enough
      obtain ⟨rfl, behind⟩ := path
      rw [List.length_cons] at short enough ⊢
      have later :=
        @inductionHypothesis (heap (.next node)) behind (len + 1) (by omega) fuel (by omega)
      rw [loop, lengthRound, if_pos (by omega)]
      simp only [later]
      congr 2
      omega

/-- A longer list makes the `int` overflow, however many rounds there may be. -/
theorem length_long
    {pointer : Option Node}
    (path : Path heap pointer nodes none)
    {len : Nat}
    (narrow : len < ints)
    (long : ints ≤ len + nodes.length)
    (fuel : Nat) :
    (loop (lengthRound heap) fuel (len, pointer)).join = none := by
  induction nodes generalizing pointer len fuel with
  | nil =>
      rw [List.length_nil] at long
      omega
  | cons node rest inductionHypothesis =>
      cases fuel with
      | zero => rfl
      | succ fuel =>
          obtain ⟨rfl, behind⟩ := path
          rw [List.length_cons] at long
          rw [loop, lengthRound]
          by_cases room : len + 1 < ints
          · rw [if_pos room]
            exact @inductionHypothesis (heap (.next node)) behind (len + 1) room (by omega) fuel
          · rw [if_neg room]
            rfl

/-! ## Choosing -/

/-- The choice that is made of what `rand()` returns in the round of `i`. -/
def chosenIndex (rand : Nat → Nat) (i : Nat) : Nat :=
  rand i % (i + 1)

theorem chosenIndex_le (rand : Nat → Nat) (i : Nat) : chosenIndex rand i ≤ i :=
  Nat.le_of_lt_succ (Nat.mod_lt _ (Nat.succ_pos i))

/-- The choices made of what `rand()` returns, for a list of `n` nodes. -/
def drawn (rand : Nat → Nat) (n : Nat) : Choices n where
  index i := if i < n then chosenIndex rand i else 0
  bounded i := by
    split
    · exact chosenIndex_le rand i
    · exact Nat.zero_le i
  beyond i above := if_neg (Nat.not_lt.mpr above)

/-- Every sequence of choices is drawn from itself. -/
theorem drawn_index {n : Nat} (choices : Choices n) : drawn choices.index n = choices := by
  apply Choices.ext
  funext i
  change (if i < n then choices.index i % (i + 1) else 0) = choices.index i
  by_cases inside : i < n
  · rw [if_pos inside, Nat.mod_eq_of_lt (Nat.lt_succ_of_le (choices.bounded i))]
  · rw [if_neg inside, choices.beyond i (Nat.not_lt.mp inside)]

/-- The order that the rounds give is that of the choices drawn. -/
theorem order_drawn (rand : Nat → Nat) :
    (order nodes (drawn rand nodes.length)).val =
      shuffled (chosenIndex rand) (nodes.length - 1) nodes := by
  apply shuffled_congr
  intro k lower upper
  exact if_pos (by omega)

variable [DecidableEq Node]

theorem store_self : heap.store link (heap link) = heap :=
  Function.update_eq_self link heap

/-! ## One exchange -/

/-- A node exchanged with itself stays where it is. -/
theorem exchange_self {node : Node} (here : heap link = some node) :
    exchange heap link link = some (heap, .next node) := by
  have same : heap.store link (some node) = heap := by
    rw [← here, store_self]
  simp [exchange, here, same, store_self]

/-- The heap after the stores of an exchange of two nodes. -/
def exchanged (heap : Heap Node) (link target : Link Node) (first chosen : Node) : Heap Node :=
  (((heap.store target (some first)).store link (some chosen)).store
      (.next first) (heap (.next chosen))).store
    (.next chosen) (heap.store target (some first) (.next first))

variable {target : Link Node} {first chosen : Node}

/-- An exchange of two nodes. -/
theorem exchange_eq
    (here : heap link = some first)
    (there : heap target = some chosen)
    (apart : target ≠ link)
    (targetChosen : target ≠ .next chosen)
    (linkFirst : link ≠ .next first)
    (linkChosen : link ≠ .next chosen)
    (distinct : first ≠ chosen) :
    exchange heap link target =
      some (exchanged heap link target first chosen, .next chosen) := by
  have others : Link.next chosen ≠ .next first := next_ne distinct.symm
  simp [exchange, exchanged, here, there, store_other apart, store_other linkFirst,
    store_other linkChosen, store_other linkFirst.symm, store_other linkChosen.symm,
    store_other targetChosen.symm]

/-- The current link holds the chosen node afterwards. -/
theorem exchanged_link (linkFirst : link ≠ .next first) (linkChosen : link ≠ .next chosen) :
    exchanged heap link target first chosen link = some chosen := by
  rw [exchanged, store_other linkChosen, store_other linkFirst, store_same]

/-- The first node leads to where the chosen one did. -/
theorem exchanged_first (distinct : first ≠ chosen) :
    exchanged heap link target first chosen (.next first) = heap (.next chosen) := by
  rw [exchanged, store_other (next_ne distinct), store_same]

/-- The chosen node leads to where the first one did once the target holds that one. -/
theorem exchanged_chosen :
    exchanged heap link target first chosen (.next chosen) =
      heap.store target (some first) (.next first) := by
  rw [exchanged, store_same]

/-- A target that belongs to neither node holds the first one. -/
theorem exchanged_target
    (apart : target ≠ link)
    (targetFirst : target ≠ .next first)
    (targetChosen : target ≠ .next chosen) :
    exchanged heap link target first chosen target = some first := by
  rw [exchanged, store_other targetChosen, store_other targetFirst, store_other apart,
    store_same]

/-- Every other link holds what it held. -/
theorem exchanged_other
    {place : Link Node}
    (apartTarget : place ≠ target)
    (apartLink : place ≠ link)
    (apartFirst : place ≠ .next first)
    (apartChosen : place ≠ .next chosen) :
    exchanged heap link target first chosen place = heap place := by
  rw [exchanged, store_other apartChosen, store_other apartFirst, store_other apartLink,
    store_other apartTarget]

/-- The exchange with the next node, whose link is that of the first one. -/
theorem exchange_adjacent
    {rest : List Node}
    (listed : Listed heap link (first :: chosen :: rest)) :
    ∃ after,
      exchange heap link (.next first) = some (after, .next chosen) ∧
        after link = some chosen ∧
        Path after (after (.next chosen)) (first :: rest) none ∧
        Unchanged heap after link (first :: chosen :: rest) := by
  obtain ⟨⟨here, there, path⟩, distinct, outside⟩ := listed
  obtain ⟨firstApart, distinct⟩ := List.nodup_cons.mp distinct
  obtain ⟨chosenApart, distinct⟩ := List.nodup_cons.mp distinct
  have pair : first ≠ chosen := fun same => firstApart (same ▸ List.mem_cons_self)
  have linkFirst : link ≠ .next first := outside first (by simp)
  have linkChosen : link ≠ .next chosen := outside chosen (by simp)
  refine
    ⟨_, exchange_eq here there linkFirst.symm (next_ne pair) linkFirst linkChosen pair,
      exchanged_link linkFirst linkChosen, ⟨?_, ?_⟩, ?_⟩
  · rw [exchanged_chosen, store_same]
  · rw [exchanged_first pair]
    refine path.congr fun node member => ?_
    have apartFirst : node ≠ first := fun same =>
      firstApart (same ▸ List.mem_cons_of_mem _ member)
    have apartChosen : node ≠ chosen := fun same => chosenApart (same ▸ member)
    exact exchanged_other (next_ne apartFirst) (outside node (by simp [member])).symm
      (next_ne apartFirst) (next_ne apartChosen)
  · intro other apart missed
    exact exchanged_other (missed first (by simp)) apart (missed first (by simp))
      (missed chosen (by simp))

/-- The exchange with a node further on, whose link is that of the node before it. -/
theorem exchange_apart
    {before : Node}
    {between rest : List Node}
    (listed : Listed heap link (first :: (between ++ [before] ++ chosen :: rest))) :
    ∃ after,
      exchange heap link (.next before) = some (after, .next chosen) ∧
        after link = some chosen ∧
        Path after (after (.next chosen)) (between ++ [before] ++ first :: rest) none ∧
        Unchanged heap after link (first :: (between ++ [before] ++ chosen :: rest)) := by
  obtain ⟨⟨here, path⟩, distinct, outside⟩ := listed
  obtain ⟨middle, front, rfl, path⟩ := path_append.mp path
  obtain ⟨front, there⟩ := path_snoc.mp front
  simp only [List.nodup_cons, List.nodup_append, List.mem_append, List.mem_cons,
    List.not_mem_nil, or_false, not_or, not_false_eq_true, List.nodup_nil, and_true,
    forall_eq] at distinct
  obtain ⟨⟨⟨firstBetween, firstBefore⟩, firstChosen, firstRest⟩,
    ⟨_, _, beforeBetween⟩, ⟨chosenRest, _⟩, apart⟩ := distinct
  have beforeChosen : before ≠ chosen := apart before (.inr rfl) chosen (.inl rfl)
  have linkFirst : link ≠ .next first := outside first (by simp)
  have linkBefore : link ≠ .next before := outside before (by simp)
  have linkChosen : link ≠ .next chosen := outside chosen (by simp)
  refine
    ⟨_, exchange_eq here there linkBefore.symm (next_ne beforeChosen) linkFirst linkChosen
        firstChosen,
      exchanged_link linkFirst linkChosen, ?_, ?_⟩
  · rw [exchanged_chosen, store_other (next_ne firstBefore), path_append]
    refine ⟨some first, path_snoc.mpr ⟨front.congr fun node member => ?_, ?_⟩, rfl, ?_⟩
    · have apartFirst : node ≠ first := fun same => firstBetween (same ▸ member)
      have apartChosen : node ≠ chosen := apart node (.inl member) chosen (.inl rfl)
      exact exchanged_other (next_ne (beforeBetween node member))
        (outside node (by simp [member])).symm (next_ne apartFirst) (next_ne apartChosen)
    · exact exchanged_target linkBefore.symm (next_ne (Ne.symm firstBefore))
        (next_ne beforeChosen)
    · rw [exchanged_first firstChosen]
      refine path.congr fun node member => ?_
      have apartFirst : node ≠ first := fun same => firstRest (same ▸ member)
      have apartChosen : node ≠ chosen := fun same => chosenRest (same ▸ member)
      have apartBefore : node ≠ before := (apart before (.inr rfl) node (.inr member)).symm
      exact exchanged_other (next_ne apartBefore) (outside node (by simp [member])).symm
        (next_ne apartFirst) (next_ne apartChosen)
  · intro other apartLink missed
    exact exchanged_other (missed before (by simp)) apartLink (missed first (by simp))
      (missed chosen (by simp))

/-! ## A round -/

/--
A round brings the chosen node to the current link, keeps the others in a list behind it,
and goes on from there.
-/
theorem round_listed
    {index : Nat}
    (listed : Listed heap link nodes)
    (found : nodes[index]? = some chosen) :
    ∃ target after rest,
      walk heap index link = some target ∧
        exchange heap link target = some (after, .next chosen) ∧
        swapFirst index nodes = chosen :: rest ∧
        after link = some chosen ∧
        Path after (after (.next chosen)) rest none ∧
        Unchanged heap after link nodes := by
  rcases split_at found with ⟨rest, rfl, rfl⟩ | ⟨first, between, rest, rfl, rfl⟩
  · have here : heap link = some chosen := listed.path.1
    exact ⟨link, heap, rest, rfl, exchange_self here, rfl, here, listed.path.2,
      fun other _ _ => rfl⟩
  · have swapped := swapFirst_middle first chosen between rest
    obtain ⟨middle, front, _⟩ := path_append.mp (show Path heap (heap link)
      ((first :: between) ++ chosen :: rest) none from listed.path)
    have walked := walk_eq front
    rw [List.length_cons] at walked
    rcases List.eq_nil_or_concat between with rfl | ⟨start, before, rfl⟩
    · obtain ⟨after, done, atLink, behind, unchanged⟩ := exchange_adjacent listed
      exact ⟨_, after, _, walked, done, swapped, atLink, behind, unchanged⟩
    · rw [List.concat_eq_append] at *
      obtain ⟨after, done, atLink, behind, unchanged⟩ := exchange_apart listed
      refine ⟨_, after, _, walked, ?_, swapped, atLink, behind, unchanged⟩
      rwa [lastLink, lastLink_snoc]

/-! ## All rounds -/

/-- The rounds relink the nodes in the order that the choices give. -/
theorem shuffleRounds_listed
    {rand : Nat → Nat}
    {i : Nat}
    (listed : Listed heap link nodes)
    (rounds : nodes.length - 1 = i) :
    ∃ after,
      shuffleRounds rand i heap link = some after ∧
        Listed after link (shuffled (chosenIndex rand) i nodes) ∧
        Unchanged heap after link nodes := by
  induction i generalizing heap link nodes with
  | zero => exact ⟨heap, rfl, listed, fun other _ _ => rfl⟩
  | succ i inductionHypothesis =>
      have inside : chosenIndex rand (i + 1) < nodes.length := by
        have := chosenIndex_le rand (i + 1)
        omega
      have found := List.getElem?_eq_getElem inside
      obtain ⟨target, swapped, rest, walked, done, firsts, atLink, behind, changedRound⟩ :=
        round_listed listed found
      obtain ⟨others, firsts', perm⟩ := swapFirst_eq found
      obtain rfl : rest = others := by
        simpa using firsts.symm.trans firsts'
      have distinct := List.nodup_cons.mp (perm.nodup_iff.mpr listed.distinct)
      have length := perm.length_eq
      rw [List.length_cons] at length
      have remaining : Listed swapped (.next nodes[chosenIndex rand (i + 1)]) rest := by
        exact ⟨behind, distinct.2, next_outside distinct.1⟩
      obtain ⟨after, returned, listedRest, changedRest⟩ :=
        @inductionHypothesis swapped _ rest remaining (by omega)
      have outside : ∀ node ∈ nodes[chosenIndex rand (i + 1)] :: rest, link ≠ .next node :=
        fun node member => listed.outside node (perm.mem_iff.mp member)
      have orders : shuffled (chosenIndex rand) (i + 1) nodes =
          nodes[chosenIndex rand (i + 1)] :: shuffled (chosenIndex rand) i rest := by
        rw [shuffled, firsts]
      have same : (shuffled (chosenIndex rand) (i + 1) nodes).Perm nodes :=
        shuffled_perm (chosenIndex_le rand) (by omega)
      have kept : after link = some nodes[chosenIndex rand (i + 1)] := by
        rw [← atLink]
        exact changedRest link (outside _ List.mem_cons_self)
          fun node member => outside node (List.mem_cons_of_mem _ member)
      refine ⟨after, ?_, ⟨?_, same.nodup_iff.mpr listed.distinct, ?_⟩, ?_⟩
      · change
          ((walk heap (chosenIndex rand (i + 1)) link).bind fun target =>
            (exchange heap link target).bind fun state =>
              shuffleRounds rand i state.1 state.2) = some after
        rw [walked, Option.bind_some, done, Option.bind_some]
        exact returned
      · rw [orders, path_cons]
        exact ⟨kept, listedRest.path⟩
      · exact fun node member => listed.outside node (same.mem_iff.mp member)
      · intro other apart missed
        have apartRest : ∀ node ∈ nodes[chosenIndex rand (i + 1)] :: rest,
            other ≠ .next node := fun node member => missed node (perm.mem_iff.mp member)
        rw [changedRest other (apartRest _ List.mem_cons_self)
          fun node member => apartRest node (List.mem_cons_of_mem _ member)]
        exact changedRound other apart missed

/-! ## The shuffle -/

/--
The shuffle is a correct and unbiased one: whatever `rand()` returns it relinks the same
nodes into a list and leaves everything else alone, every sequence of choices can be drawn,
and the sequences correspond one to one to the orders of the nodes.
-/
def Shuffles (heap : Heap Node) (head : Link Node) (nodes : List Node) : Prop :=
  ∃ order : Choices nodes.length → { order : List Node // order.Perm nodes },
    Function.Bijective order ∧
      (∀ choices, ∃ rand, drawn rand nodes.length = choices) ∧
      ∀ rand fuel,
        nodes.length < fuel →
        ∃ after,
          fisherYatesShuffle fuel rand heap head = some after ∧
            Listed after head (order (drawn rand nodes.length)) ∧
            Unchanged heap after head nodes

/-- Lists that an `int` can count are shuffled. -/
theorem shuffles_short (listed : Listed heap link nodes) (short : nodes.length < ints) :
    Shuffles heap link nodes := by
  refine ⟨order nodes, order_bijective listed.distinct,
    fun choices => ⟨choices.index, drawn_index choices⟩, fun rand fuel enough => ?_⟩
  obtain ⟨after, returned, shuffledList, unchanged⟩ :=
    @shuffleRounds_listed Node heap link nodes _ rand _ listed rfl
  refine ⟨after, ?_, ?_, unchanged⟩
  · have counted :=
      @length_short Node heap nodes _ listed.path 0 (by omega) fuel enough
    rw [Nat.zero_add] at counted
    rw [fisherYatesShuffle, counted]
    exact returned
  · rw [order_drawn]
    exact shuffledList

/-- Longer lists are not shuffled. -/
theorem not_shuffles_long (listed : Listed heap link nodes) (long : ints ≤ nodes.length) :
    ¬ Shuffles heap link nodes := by
  rintro ⟨_, _, _, runs⟩
  obtain ⟨after, returned, _⟩ := runs (fun _ => 0) (nodes.length + 1) (by omega)
  have overflow :=
    @length_long Node heap nodes _ listed.path 0 (by decide) (by omega) (nodes.length + 1)
  rw [fisherYatesShuffle, overflow] at returned
  simp at returned

/-- The shuffle is correct exactly for the lists whose length an `int` can hold. -/
theorem shuffles_iff (listed : Listed heap link nodes) :
    Shuffles heap link nodes ↔ nodes.length < 2 ^ 31 := by
  constructor
  · intro shuffles
    by_contra long
    exact not_shuffles_long listed (Nat.not_lt.mp long) shuffles
  · exact shuffles_short listed

theorem shuffles_iff_four :
    Shuffles (counted 4) .root [0, 1, 2, 3] ↔ [0, 1, 2, 3].length < 2 ^ 31 :=
  shuffles_iff (counted_listed 4)

/--
A list of 2147483649 nodes makes the counter overflow.  If it wrapped instead, it would be
negative and the list would stay as it is.
-/
theorem shuffle_overflows :
    Listed (counted (2 ^ 31 + 1)) .root (List.range (2 ^ 31 + 1)) ∧
      ¬ Shuffles (counted (2 ^ 31 + 1)) .root (List.range (2 ^ 31 + 1)) := by
  have listed := counted_listed (2 ^ 31 + 1)
  refine ⟨listed, not_shuffles_long listed ?_⟩
  rw [List.length_range]
  exact Nat.le_succ _

end Sysprog.SwapPairs
