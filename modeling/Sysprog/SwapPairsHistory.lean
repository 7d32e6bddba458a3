import Sysprog.Execution
import Sysprog.SwapPairsCalls

namespace Sysprog.SwapPairs

open Execution FuelLoop LinkedHeap SelectionShuffle

/-!
# The list follows its calls

After every run of calls the memory holds exactly the list that the calls describe, whatever
was written to freed nodes in between.  A call faults where the list does not admit it, and
there only.
-/

/-! ## Lists of nodes with values -/

section Items

variable {First Second : Type} {items : List First} {change : First → Second}

/-- The pairs of a list are swapped whatever its elements are. -/
theorem map_pairsSwapped : (pairsSwapped items).map change = pairsSwapped (items.map change) := by
  induction items using pairsSwapped.induct with
  | case1 first second rest inductionHypothesis =>
      simp [pairsSwapped, inductionHypothesis]
  | case2 items noPair =>
      have same : pairsSwapped items = items := by
        rw [pairsSwapped]
        exact noPair
      rw [same]
      rcases items with _ | ⟨first, _ | ⟨second, rest⟩⟩
      · rfl
      · rfl
      · exact absurd rfl (noPair first second rest)

/-- So is the first element exchanged. -/
theorem map_swapFirst (index : Nat) :
    (swapFirst index items).map change = swapFirst index (items.map change) := by
  cases items with
  | nil =>
      rfl
  | cons first rest =>
      cases index with
      | zero =>
          rfl
      | succ index =>
          simp only [swapFirst, List.map_cons, List.getElem?_map]
          cases rest[index]? with
          | none => rfl
          | some chosen => simp [List.map_set]

/-- And the list shuffled. -/
theorem map_shuffled (choice : Nat → Nat) (rounds : Nat) :
    (shuffled choice rounds items).map change = shuffled choice rounds (items.map change) := by
  induction rounds generalizing items with
  | zero =>
      rfl
  | succ rounds inductionHypothesis =>
      rw [shuffled, shuffled, ← map_swapFirst]
      cases swapFirst (choice (rounds + 1)) items with
      | nil => rfl
      | cons first rest => simp [inductionHypothesis]

end Items

variable {Node : Type} [DecidableEq Node] {store after : Store Node} {items : List (Item Node)}

/-! ## Relinking -/

omit [DecidableEq Node] in
/-- A budget that is large enough makes no difference to how a list is relinked. -/
theorem relinks_once
    {heap : Heap Node}
    {link : Link Node}
    {nodes result : List Node}
    {relink : Nat → Option (Heap Node)}
    (same : result.Perm nodes)
    (each :
      ∀ fuel,
        nodes.length < fuel →
        ∃ after,
          relink fuel = some after ∧ Listed after link result ∧ Unchanged heap after link nodes) :
    ∃ after,
      (∀ fuel, nodes.length < fuel → relink fuel = some after) ∧
        Listed after link result ∧
        Unchanged heap after link nodes := by
  obtain ⟨after, _, listed, unchanged⟩ := each (nodes.length + 1) (Nat.lt_succ_self _)
  refine ⟨after, ?_, listed, unchanged⟩
  intro fuel enough
  obtain ⟨other, returned, otherListed, otherUnchanged⟩ := each fuel enough
  have equal : other = after := by
    apply heap_eq listed otherListed
    intro place apart missed
    have outside : ∀ node ∈ nodes, place ≠ .next node := fun node member =>
      missed node (same.mem_iff.mpr member)
    rw [otherUnchanged place apart outside, unchanged place apart outside]
  rw [returned, equal]

/-- A call does not touch the nodes that are free before it, but for the one `malloc` returns. -/
def LeavesFreed (before after : Store Node) (call : Call Node) : Prop :=
  ∀ node,
    before.live node = false →
    (∀ value, call ≠ .addEntry (some node) value) →
    after.links (.next node) = before.links (.next node) ∧ after.values node = before.values node

/-- The call does to the store what it does to the list. -/
def Refines
    (store : Store Node)
    (items : List (Item Node))
    (call : Call Node) : Option (Answer Node × List (Item Node)) → Prop
  | some (answer, result) =>
      ∃ after,
        (∀ fuel, items.length < fuel → store.perform fuel call = some (answer, after)) ∧
          Represents after result ∧
          LeavesFreed store after call
  | none => ∀ fuel, store.perform fuel call = none

/-- The store with a new node behind a link. -/
def Store.added (store : Store Node) (indirect : Link Node) (node : Node) (value : Int) :
    Store Node where
  links := (store.links.store (.next node) none).store indirect (some node)
  values := Function.update store.values node value
  live := Function.update store.live node true

@[simp] theorem added_links {indirect : Link Node} {node : Node} {value : Int} :
    (store.added indirect node value).links =
      (store.links.store (.next node) none).store indirect (some node) :=
  rfl

@[simp] theorem added_values {indirect : Link Node} {node : Node} {value : Int} :
    (store.added indirect node value).values = Function.update store.values node value :=
  rfl

@[simp] theorem added_live {indirect : Link Node} {node : Node} {value : Int} :
    (store.added indirect node value).live = Function.update store.live node true :=
  rfl

/-- The store without the node that a link leads to. -/
def Store.removed (store : Store Node) (indirect : Link Node) (node : Node) : Store Node where
  links := store.links.store indirect (store.links (.next node))
  values := store.values
  live := Function.update store.live node false

@[simp] theorem removed_links {indirect : Link Node} {node : Node} :
    (store.removed indirect node).links =
      store.links.store indirect (store.links (.next node)) :=
  rfl

@[simp] theorem removed_values {indirect : Link Node} {node : Node} :
    (store.removed indirect node).values = store.values :=
  rfl

@[simp] theorem removed_live {indirect : Link Node} {node : Node} :
    (store.removed indirect node).live = Function.update store.live node false :=
  rfl

namespace Represents

omit [DecidableEq Node] in
/-- A node that is free is not in the list. -/
theorem not_mem
    {node : Node}
    (represents : Represents store items)
    (free : store.live node = false) :
    node ∉ items.map Prod.fst := by
  intro member
  rw [(represents.live node).mpr member] at free
  simp at free

omit [DecidableEq Node] in
/-- The nodes of the list are linked in another order. -/
theorem relinked
    {links : Heap Node}
    {result : List (Item Node)}
    (represents : Represents store items)
    (same : result.Perm items)
    (listed : Listed links .root (result.map Prod.fst)) :
    Represents { store with links := links } result where
  listed := listed
  values := fun item member => represents.values item (same.mem_iff.mp member)
  live := fun node => (represents.live node).trans ((same.map Prod.fst).mem_iff).symm

omit [DecidableEq Node] in
/-- A call that relinks the list leaves free nodes alone. -/
theorem leavesFreed
    {links : Heap Node}
    {call : Call Node}
    (represents : Represents store items)
    (unchanged : Unchanged store.links links .root (items.map Prod.fst)) :
    LeavesFreed store { store with links := links } call := by
  intro node free _
  exact ⟨unchanged _ (by simp) (next_outside (represents.not_mem free)), rfl⟩

/-- `add_entry`. -/
theorem addEntry
    {node : Node}
    {value : Int}
    (represents : Represents store items)
    (free : store.live node = false) :
    Refines store items (.addEntry (some node) value)
      (some (.nothing, items ++ [(node, value)])) := by
  have missing := represents.not_mem free
  obtain ⟨path, distinct, outside⟩ := represents.listed
  have cleared :
      Path (store.links.store (.next node) none)
        ((store.links.store (.next node) none) .root) (items.map Prod.fst) none := by
    rw [store_other (by simp)]
    exact path.store (next_outside missing)
  have nodeOutside : lastLink .root (items.map Prod.fst) ≠ .next node := by
    rcases @lastLink_cases _ .root (items.map Prod.fst) with first | ⟨other, member, last⟩
    · rw [first]
      simp
    · rw [last]
      exact next_ne fun same => missing (same ▸ member)
  refine ⟨store.added (lastLink .root (items.map Prod.fst)) node value, ?_, ⟨?_, ?_, ?_⟩, ?_⟩
  · intro fuel enough
    have found := @end_found _ _ _ _ fuel cleared (by rwa [List.length_map])
    simp only [Store.perform, SwapPairs.addEntry, Option.bind_eq_bind, Option.bind_some, found]
    rfl
  · rw [List.map_append]
    refine ⟨path_snoc.mpr ⟨path_redirected cleared distinct outside, ?_⟩, ?_, ?_⟩
    · rw [added_links, store_other nodeOutside.symm, store_same]
    · exact distinct.append (List.nodup_singleton node) (by simpa using missing)
    · intro other _
      simp
  · intro item member
    rcases List.mem_append.mp member with earlier | last
    · have different : item.1 ≠ node := by
        rintro rfl
        exact missing (List.mem_map_of_mem earlier)
      rw [added_values, Function.update_of_ne different]
      exact represents.values item earlier
    · obtain rfl : item = (node, value) := by simpa using last
      simp
  · intro other
    by_cases same : other = node
    · subst same
      simp
    · simp only [added_live, Function.update_of_ne same, represents.live, List.map_append, List.mem_append,
        List.map_cons, List.map_nil, List.mem_singleton, same, or_false]
  · intro other otherFree notNew
    have different : other ≠ node := by
      rintro rfl
      exact notNew value rfl
    refine ⟨?_, Function.update_of_ne different _ _⟩
    have otherOutside : lastLink .root (items.map Prod.fst) ≠ .next other := by
      rcases @lastLink_cases _ .root (items.map Prod.fst) with first | ⟨inner, member, last⟩
      · rw [first]
        simp
      · rw [last]
        exact next_ne fun same => represents.not_mem otherFree (same ▸ member)
    rw [added_links, store_other otherOutside.symm, store_other (next_ne different)]

omit [DecidableEq Node] in
/-- The loop of `find_entry`. -/
theorem found
    {pointer : Option Node}
    {rest : List (Item Node)}
    {value : Int}
    {fuel : Nat}
    (path : Path store.links pointer (rest.map Prod.fst) none)
    (values : ∀ item ∈ rest, store.values item.1 = item.2)
    (enough : rest.length < fuel) :
    loop (findRound store value) fuel pointer =
      some ((rest.find? fun item => item.2 = value).map Prod.fst) := by
  induction rest generalizing pointer fuel with
  | nil =>
      obtain ⟨fuel, rfl⟩ := exists_round enough
      obtain rfl : pointer = none := path
      rfl
  | cons item rest inductionHypothesis =>
      obtain ⟨fuel, rfl⟩ := exists_round enough
      obtain ⟨rfl, behind⟩ := path
      have own := values item List.mem_cons_self
      have within : rest.length < fuel := by
        rw [List.length_cons] at enough
        omega
      by_cases equal : item.2 = value
      · simp [loop, findRound, own, equal]
      · simp only [loop, findRound, own, ne_eq, equal, not_false_eq_true, if_true]
        rw [List.find?_cons_of_neg (by simpa using equal)]
        exact inductionHypothesis behind
          (fun other member => values other (List.mem_cons_of_mem _ member)) within

omit [DecidableEq Node] in
/-- The loop of `print_list`. -/
theorem printed
    {pointer : Option Node}
    {rest : List (Item Node)}
    {before : List Int}
    {fuel : Nat}
    (path : Path store.links pointer (rest.map Prod.fst) none)
    (values : ∀ item ∈ rest, store.values item.1 = item.2)
    (enough : rest.length < fuel) :
    loop (printRound store) fuel (before, pointer) = some (before ++ rest.map Prod.snd) := by
  induction rest generalizing pointer before fuel with
  | nil =>
      obtain ⟨fuel, rfl⟩ := exists_round enough
      obtain rfl : pointer = none := path
      simp [loop, printRound]
  | cons item rest inductionHypothesis =>
      obtain ⟨fuel, rfl⟩ := exists_round enough
      obtain ⟨rfl, behind⟩ := path
      have own := values item List.mem_cons_self
      have within : rest.length < fuel := by
        rw [List.length_cons] at enough
        omega
      simp only [loop, printRound, own, List.map_cons]
      rw [@inductionHypothesis _ (before ++ [item.2]) _ behind
        (fun other member => values other (List.mem_cons_of_mem _ member)) within,
        List.append_assoc, List.singleton_append]

omit [DecidableEq Node] in
/-- A node of the list stands between the nodes before it and those behind it. -/
theorem split
    {entry : Node}
    (represents : Represents store items)
    (member : entry ∈ items.map Prod.fst) :
    ∃ before value behind,
      items = before ++ (entry, value) :: behind ∧
        entry ∉ before.map Prod.fst ∧
        entry ∉ behind.map Prod.fst ∧
        (before.map Prod.fst ++ behind.map Prod.fst).Nodup := by
  obtain ⟨⟨node, value⟩, inside, rfl⟩ := List.mem_map.mp member
  obtain ⟨before, behind, rfl⟩ := List.append_of_mem inside
  have distinct := represents.listed.distinct
  rw [List.map_append, List.map_cons, List.nodup_middle, List.nodup_cons] at distinct
  obtain ⟨apart, others⟩ := distinct
  rw [List.mem_append, not_or] at apart
  exact ⟨before, value, behind, rfl, apart.1, apart.2, others⟩

/-- The nodes that are not removed. -/
theorem kept_eq
    {entry : Node}
    {value : Int}
    {before behind : List (Item Node)}
    (notBefore : entry ∉ before.map Prod.fst)
    (notBehind : entry ∉ behind.map Prod.fst) :
    (before ++ (entry, value) :: behind).filter (fun item => some item.1 ≠ some entry) =
      before ++ behind := by
  have all : ∀ {rest : List (Item Node)}, entry ∉ rest.map Prod.fst →
      rest.filter (fun item => some item.1 ≠ some entry) = rest := by
    intro rest missing
    apply List.filter_eq_self.mpr
    intro item member
    have different : item.1 ≠ entry := by
      rintro rfl
      exact missing (List.mem_map_of_mem member)
    simpa using different
  rw [List.filter_append, List.filter_cons_of_neg (by simp), all notBefore, all notBehind]

/-- `remove_entry` of a node of the list. -/
theorem removeEntry
    {entry : Node}
    (represents : Represents store items)
    (member : entry ∈ items.map Prod.fst) :
    Refines store items (.removeEntry (some entry))
      (some (.nothing, items.filter fun item => some item.1 ≠ some entry)) := by
  obtain ⟨before, value, behind, rfl, notBefore, notBehind, distinct⟩ :=
    represents.split member
  rw [kept_eq notBefore notBehind]
  obtain ⟨path, _, outside⟩ := represents.listed
  rw [List.map_append, List.map_cons, path_append] at path
  obtain ⟨_, pathBefore, rfl, pathBehind⟩ := path
  obtain ⟨distinctBefore, _, apart⟩ := List.nodup_append.mp distinct
  have rootOutside : ∀ {nodes : List Node}, ∀ node ∈ nodes, Link.root ≠ Link.next node := by
    simp
  refine ⟨store.removed (lastLink .root (before.map Prod.fst)) entry, ?_, ⟨?_, ?_, ?_⟩, ?_⟩
  · intro fuel enough
    have within : (before.map Prod.fst).length < fuel := by
      rw [List.length_append] at enough
      rw [List.length_map]
      omega
    have found := entry_found pathBefore notBefore within
    simp only [Store.perform, SwapPairs.removeEntry, Option.bind_eq_bind, found, Option.join_some,
      Option.bind_some]
    rfl
  · rw [List.map_append]
    refine ⟨path_append.mpr ⟨_, path_redirected pathBefore distinctBefore rootOutside, ?_⟩,
      distinct, rootOutside⟩
    apply pathBehind.store
    intro node isBehind
    rcases @lastLink_cases _ .root (before.map Prod.fst) with first | ⟨other, isBefore, last⟩
    · rw [first]
      simp
    · rw [last]
      exact next_ne (apart other isBefore node isBehind)
  · intro item kept
    apply represents.values
    rw [List.mem_append] at kept ⊢
    exact kept.imp_right (List.mem_cons_of_mem _)
  · intro other
    by_cases same : other = entry
    · subst same
      simp only [removed_live, Function.update_self, List.map_append, List.mem_append,
        notBefore, notBehind, or_self, iff_self, reduceCtorEq]
    · rw [removed_live, Function.update_of_ne same, represents.live]
      simp [same]
  · intro other free _
    have notListed := represents.not_mem free
    refine ⟨?_, rfl⟩
    apply store_other
    rcases @lastLink_cases _ .root (before.map Prod.fst) with first | ⟨inner, isBefore, last⟩
    · rw [first]
      simp
    · rw [last]
      refine next_ne fun same => notListed ?_
      rw [List.map_append, List.mem_append]
      exact Or.inl (same ▸ isBefore)

/-- `remove_entry` of anything else. -/
theorem removeEntry_faults
    {entry : Option Node}
    (represents : Represents store items)
    (missing : ∀ node, entry = some node → node ∉ items.map Prod.fst) :
    Refines store items (.removeEntry entry) none := by
  intro fuel
  cases entry with
  | none =>
      simp [Store.perform, SwapPairs.removeEntry]
  | some node =>
      have ran := entry_missing represents.listed.path (missing node rfl) fuel
      simp [Store.perform, SwapPairs.removeEntry, ran]

/-- A node is found in the list exactly if it is there. -/
theorem find_entry_iff {entry : Node} :
    (items.find? fun item => some item.1 = some entry) = none ↔
      entry ∉ items.map Prod.fst := by
  rw [List.find?_eq_none]
  constructor
  · intro none_is member
    obtain ⟨item, inside, rfl⟩ := List.mem_map.mp member
    exact none_is item inside (by simp)
  · intro missing item inside
    have different : item.1 ≠ entry := by
      rintro rfl
      exact missing (List.mem_map_of_mem inside)
    simpa using different

/-- Every call does to the store what it does to the list. -/
theorem refines
    (represents : Represents store items)
    {call : Call Node}
    (callable : Callable store call) :
    Refines store items call (expected items call) := by
  have listed := represents.listed
  have same : LeavesFreed store store call := fun _ _ _ => ⟨rfl, rfl⟩
  cases call with
  | addEntry newNode newValue =>
      cases newNode with
      | none =>
          intro fuel
          simp [Store.perform, SwapPairs.addEntry]
      | some node =>
          exact represents.addEntry callable
  | findEntry value =>
      refine ⟨store, ?_, represents, same⟩
      intro fuel enough
      simp only [Store.perform, SwapPairs.findEntry,
        found listed.path represents.values enough, Option.map_some]
  | removeEntry entry =>
      rw [expected]
      cases entry with
      | none =>
          have absent : (items.find? fun item => some item.1 = none) = none := by
            simp
          rw [absent]
          exact represents.removeEntry_faults (by simp)
      | some node =>
          by_cases member : node ∈ items.map Prod.fst
          · cases position : items.find? fun item => some item.1 = some node with
            | none => exact (find_entry_iff.mp position member).elim
            | some item => exact represents.removeEntry member
          · rw [find_entry_iff.mpr member]
            apply represents.removeEntry_faults
            rintro other isNode
            obtain rfl := Option.some.inj isNode
            exact member
  | swapPair =>
      obtain ⟨links, returns, swapped, unchanged⟩ :=
        relinks_once (pairsSwapped_perm _) fun fuel enough =>
          @swapPair_listed _ _ store.links .root _ listed fuel enough
      rw [← map_pairsSwapped] at swapped
      refine ⟨_, ?_, represents.relinked (pairsSwapped_perm items) swapped,
        represents.leavesFreed unchanged⟩
      intro fuel enough
      simp only [Store.perform, returns fuel (by rwa [List.length_map]), Option.map_some]
  | reverse =>
      obtain ⟨links, returns, reversed, unchanged⟩ :=
        relinks_once (List.reverse_perm _) fun fuel enough =>
          @reverse_listed _ _ store.links .root _ listed fuel enough
      rw [← List.map_reverse] at reversed
      refine ⟨_, ?_, represents.relinked (List.reverse_perm items) reversed,
        represents.leavesFreed unchanged⟩
      intro fuel enough
      simp only [Store.perform, returns fuel (by rwa [List.length_map]), Option.map_some]
  | shuffle rand =>
      rw [expected]
      by_cases short : items.length < ints
      · rw [if_pos short]
        obtain ⟨links, returned, ordered, unchanged⟩ :=
          @shuffleRounds_listed _ store.links .root _ _ rand _ listed rfl
        rw [List.length_map, ← map_shuffled] at ordered
        have permutes :
            (shuffled (chosenIndex rand) (items.length - 1) items).Perm items := by
          cases items with
          | nil => exact List.Perm.refl _
          | cons first rest => exact shuffled_perm (chosenIndex_le rand) (by simp)
        refine ⟨_, ?_, represents.relinked permutes ordered,
          represents.leavesFreed unchanged⟩
        intro fuel enough
        have counted := @length_short _ store.links (items.map Prod.fst) _ listed.path 0
          (by rwa [Nat.zero_add, List.length_map]) fuel (by rwa [List.length_map])
        rw [Nat.zero_add] at counted
        simp only [Store.perform, fisherYatesShuffle, counted, Option.join_some,
          Option.bind_eq_bind, Option.bind_some, returned, Option.map_some]
      · rw [if_neg short]
        intro fuel
        have overflow := @length_long _ store.links (items.map Prod.fst) _ listed.path 0
          (by decide) (by rw [Nat.zero_add, List.length_map]; exact Nat.le_of_not_lt short) fuel
        simp [Store.perform, fisherYatesShuffle, overflow]
  | printList =>
      refine ⟨store, ?_, represents, same⟩
      intro fuel enough
      simp only [Store.perform, SwapPairs.printList,
        printed listed.path represents.values enough, List.nil_append, Option.map_some]

end Represents

/-! ## Runs -/

/-- The list after a step. -/
def advance (items : List (Item Node)) : Label Node → Option (List (Item Node))
  | .scribble => some items
  | .call call answer =>
      match expected items call with
      | some (expectedAnswer, result) => if expectedAnswer = answer then some result else none
      | none => none

/-- A call that returns gives the expected answer and leaves the expected list. -/
theorem Represents.returned
    {call : Call Node}
    {answer : Answer Node}
    {bound : Nat}
    (represents : Represents store items)
    (callable : Callable store call)
    (returns : ∀ fuel, bound < fuel → store.perform fuel call = some (answer, after)) :
    ∃ result,
      expected items call = some (answer, result) ∧
        Represents after result ∧
        LeavesFreed store after call := by
  have refined := represents.refines callable
  cases described : expected items call with
  | none =>
      rw [described] at refined
      have faulted := refined (bound + 1)
      rw [returns (bound + 1) (Nat.lt_succ_self bound)] at faulted
      simp at faulted
  | some outcome =>
      obtain ⟨expectedAnswer, result⟩ := outcome
      rw [described] at refined
      obtain ⟨reached, performs, kept, leaves⟩ := refined
      have enough := Nat.lt_succ_self (max bound items.length)
      have one := returns _ (Nat.lt_of_le_of_lt (Nat.le_max_left _ _) enough)
      have other := performs _ (Nat.lt_of_le_of_lt (Nat.le_max_right _ _) enough)
      rw [one, Option.some.injEq, Prod.mk.injEq] at other
      obtain ⟨rfl, rfl⟩ := other
      exact ⟨result, rfl, kept, leaves⟩

omit [DecidableEq Node] in
/-- Writing to memory that is free leaves the list as it is. -/
theorem Represents.scribble
    {links : Heap Node}
    {values : Node → Int}
    (represents : Represents store items)
    (root : links .root = store.links .root)
    (allocated :
      ∀ node,
        store.live node = true →
        links (.next node) = store.links (.next node) ∧ values node = store.values node) :
    Represents { store with links := links, values := values } items := by
  obtain ⟨path, distinct, outside⟩ := represents.listed
  refine ⟨⟨?_, distinct, outside⟩, ?_, represents.live⟩
  · change Path links (links .root) _ none
    rw [root]
    exact path.congr fun node member =>
      (allocated node ((represents.live node).mpr member)).1
  · intro item member
    have inside := List.mem_map_of_mem (f := Prod.fst) member
    change values item.1 = item.2
    rw [(allocated item.1 ((represents.live item.1).mpr inside)).2]
    exact represents.values item member

/-- Every step advances the list. -/
theorem Represents.step
    {label : Label Node}
    (represents : Represents store items)
    (step : Step store label after) :
    ∃ result, advance items label = some result ∧ Represents after result := by
  cases step with
  | call callable returns =>
      obtain ⟨result, described, kept, _⟩ := represents.returned callable returns
      refine ⟨result, ?_, kept⟩
      simp only [advance, described, if_true]
  | scribble root allocated =>
      exact ⟨items, rfl, represents.scribble root allocated⟩

omit [DecidableEq Node] in
/-- The list is empty at first. -/
theorem represents_empty (empty : store.Empty) : Represents store [] where
  listed := ⟨empty.1, List.nodup_nil, by simp⟩
  values := by simp
  live := by
    intro node
    simp [empty.2 node]

/--
After every run the memory holds the list that the calls describe, with its values, and
exactly its nodes are allocated.  The next call returns exactly where the list admits it,
with the answer and the list that follow, and touches no node that is free.
-/
theorem calls_follow_list
    {start : Store Node}
    {labels : List (Label Node)}
    (empty : start.Empty)
    (run : Run Step start labels store) :
    ∃ items,
      labels.foldlM advance [] = some items ∧
        Represents store items ∧
        ∀ call,
          Callable store call →
          (expected items call = none → ∀ fuel, store.perform fuel call = none) ∧
            ∀ answer result,
              expected items call = some (answer, result) →
              ∃ after,
                Step store (.call call answer) after ∧
                  Represents after result ∧
                  LeavesFreed store after call := by
  have followed : ∃ items, labels.foldlM advance [] = some items ∧ Represents store items := by
    induction run with
    | stop =>
        exact ⟨[], rfl, represents_empty empty⟩
    | @extend labels before after label earlier last inductionHypothesis =>
        obtain ⟨items, built, represents⟩ := inductionHypothesis
        obtain ⟨result, advanced, kept⟩ := represents.step last
        refine ⟨result, ?_, kept⟩
        rw [List.foldlM_append, built]
        simp [advanced]
  obtain ⟨items, built, represents⟩ := followed
  refine ⟨items, built, represents, fun call callable => ?_⟩
  have refined := represents.refines callable
  constructor
  · intro described
    rw [described] at refined
    exact refined
  · intro answer result described
    rw [described] at refined
    obtain ⟨after, performs, kept, leaves⟩ := refined
    exact ⟨after, .call callable performs, kept, leaves⟩

/-- An empty list in memory that is all zero. -/
def emptyStore : Store Nat where
  links := fun _ => none
  values := fun _ => 0
  live := fun _ => false

/-- A run goes on with a call that the list admits. -/
private theorem Represents.extend
    {start : Store Node}
    {labels : List (Label Node)}
    {answer : Answer Node}
    {result : List (Item Node)}
    (represents : Represents store items)
    (run : Run Step start labels store)
    (call : Call Node)
    (callable : Callable store call)
    (described : expected items call = some (answer, result)) :
    ∃ after, Run Step start (labels ++ [.call call answer]) after ∧ Represents after result := by
  have refined := represents.refines callable
  rw [described] at refined
  obtain ⟨after, performs, kept, _⟩ := refined
  exact ⟨after, run.extend (.call callable performs), kept⟩

omit [DecidableEq Node] in
/-- A node that is not in the list may be what `malloc` returns. -/
private theorem Represents.callable
    {node : Node}
    (represents : Represents store items)
    (value : Int)
    (absent : node ∉ items.map Prod.fst) :
    Callable store (.addEntry (some node) value) :=
  Bool.eq_false_iff.mpr fun live => absent ((represents.live node).mp live)

/-- Three numbers are added, their nodes swapped and reversed, and one of them is removed. -/
def threeNumbers : List (Label Nat) :=
  [.call (.addEntry (some 8) 72) .nothing] ++ [.call (.addEntry (some 5) 30) .nothing] ++
    [.call (.addEntry (some 9) 41) .nothing] ++ [.call .swapPair .nothing] ++
    [.call .reverse .nothing] ++ [.call (.removeEntry (some 8)) .nothing]

/-- The other two are left in reverse order, and the third cannot be removed again. -/
theorem calls_follow_list_threeNumbers :
    ∃ store,
      Run Step emptyStore threeNumbers store ∧
        Represents store [(9, 41), (5, 30)] ∧
        (∀ fuel, store.perform fuel (.removeEntry (some 8)) = none) ∧
        ∃ after, Step store (.call .printList (.printed [41, 30])) after := by
  have empty : emptyStore.Empty := ⟨rfl, fun _ => rfl⟩
  have nothing := represents_empty empty
  obtain ⟨_, run₁, one⟩ :=
    nothing.extend .stop (.addEntry (some 8) 72) (nothing.callable 72 (by decide)) rfl
  obtain ⟨_, run₂, two⟩ :=
    one.extend run₁ (.addEntry (some 5) 30) (one.callable 30 (by decide)) rfl
  obtain ⟨_, run₃, three⟩ :=
    two.extend run₂ (.addEntry (some 9) 41) (two.callable 41 (by decide)) rfl
  obtain ⟨_, run₄, swapped⟩ := three.extend run₃ .swapPair trivial rfl
  obtain ⟨_, run₅, reversed⟩ := swapped.extend run₄ .reverse trivial rfl
  obtain ⟨store, run, left⟩ := reversed.extend run₅ (.removeEntry (some 8)) trivial rfl
  obtain ⟨items, built, represents, next⟩ := calls_follow_list empty run
  obtain rfl : [(9, 41), (5, 30)] = items := Option.some.inj built
  obtain ⟨after, printed, _⟩ := (next .printList trivial).2 _ _ rfl
  exact ⟨store, run, represents, (next (.removeEntry (some 8)) trivial).1 rfl, after, printed⟩

end Sysprog.SwapPairs
