import Sysprog.SwapPairsRewrite
import Sysprog.SwapPairsShuffle

namespace Sysprog.SwapPairs

open FuelLoop LinkedHeap SelectionShuffle

/-!
# The calls of `swap-pairs/link-list.c`

`add_entry` allocates a node and `remove_entry` frees one; the other functions relink or
look at the nodes there are.  The nodes that were freed may be written to by anybody at any
time, so a function that used one would go astray.
-/

variable {Node : Type} [DecidableEq Node]

/-! ## The functions -/

/-- The list's memory: the links, the values and the nodes that are allocated. -/
structure Store (Node : Type) where
  links : Heap Node
  values : Node → Int
  live : Node → Bool

/-- One round of the loop of `add_entry`. -/
def endRound (links : Heap Node) (indirect : Link Node) : Round (Link Node) (Link Node) :=
  match links indirect with
  | none => .leave indirect
  | some node => .again (.next node)

/-- `add_entry`; `newNode` is what `malloc` returns, and a null pointer fails the assertion. -/
def addEntry
    (fuel : Nat)
    (store : Store Node)
    (head : Link Node)
    (newNode : Option Node)
    (newValue : Int) : Option (Store Node) := do
  let node ← newNode
  let links := store.links.store (.next node) none
  let indirect ← loop (endRound links) fuel head
  return {
    links := links.store indirect newNode
    values := Function.update store.values node newValue
    live := Function.update store.live node true }

/-- One round of the loop of `find_entry`. -/
def findRound (store : Store Node) (value : Int) :
    Option Node → Round (Option Node) (Option Node)
  | none => .leave none
  | some current =>
      if store.values current ≠ value then
        .again (store.links (.next current))
      else
        .leave (some current)

/-- `find_entry`. -/
def findEntry (fuel : Nat) (store : Store Node) (head : Link Node) (value : Int) :
    Option (Option Node) :=
  loop (findRound store value) fuel (store.links head)

/-- One round of the loop of `remove_entry`. -/
def entryRound (links : Heap Node) (entry : Option Node) (indirect : Link Node) :
    Round (Link Node) (Option (Link Node)) :=
  if links indirect ≠ entry then
    match field (links indirect) with
    | none => .leave none
    | some next => .again next
  else
    .leave (some indirect)

/-- `remove_entry`. -/
def removeEntry (fuel : Nat) (store : Store Node) (head : Link Node) (entry : Option Node) :
    Option (Store Node) := do
  let indirect ← (loop (entryRound store.links entry) fuel head).join
  let node ← entry
  return {
    links := store.links.store indirect (store.links (.next node))
    values := store.values
    live := Function.update store.live node false }

/-- One round of the loop of `print_list`. -/
def printRound (store : Store Node) :
    List Int × Option Node → Round (List Int × Option Node) (List Int)
  | (printed, none) => .leave printed
  | (printed, some current) =>
      .again (printed ++ [store.values current], store.links (.next current))

/-- `print_list`: the numbers printed. -/
def printList (fuel : Nat) (store : Store Node) (head : Link Node) : Option (List Int) :=
  loop (printRound store) fuel ([], store.links head)

/-! ## Calls -/

/-- A call for the list at the root, with what `malloc` and `rand` return in it. -/
inductive Call (Node : Type) where
  | addEntry (newNode : Option Node) (newValue : Int)
  | findEntry (value : Int)
  | removeEntry (entry : Option Node)
  | swapPair
  | reverse
  | shuffle (rand : Nat → Nat)
  | printList

/-- What a call returns or prints. -/
inductive Answer (Node : Type) where
  | nothing
  | pointer (entry : Option Node)
  | printed (values : List Int)
  deriving DecidableEq

/-- Run a call. -/
def Store.perform (fuel : Nat) (store : Store Node) :
    Call Node → Option (Answer Node × Store Node)
  | .addEntry newNode newValue =>
      (addEntry fuel store .root newNode newValue).map fun after => (.nothing, after)
  | .findEntry value =>
      (findEntry fuel store .root value).map fun entry => (.pointer entry, store)
  | .removeEntry entry =>
      (removeEntry fuel store .root entry).map fun after => (.nothing, after)
  | .swapPair =>
      (swapPair fuel store.links .root).map fun links => (.nothing, { store with links := links })
  | .reverse =>
      (reverse fuel store.links .root).map fun links => (.nothing, { store with links := links })
  | .shuffle rand =>
      (fisherYatesShuffle fuel rand store.links .root).map fun links =>
        (.nothing, { store with links := links })
  | .printList =>
      (printList fuel store .root).map fun values => (.printed values, store)

/-- `malloc` does not return a node that is allocated. -/
def Callable (store : Store Node) : Call Node → Prop
  | .addEntry (some node) _ => store.live node = false
  | _ => True

/-- What happens to the list: a call, or somebody writes to memory that is free. -/
inductive Label (Node : Type) where
  | call (call : Call Node) (answer : Answer Node)
  | scribble

/-- One step; a call returns if it does so with any budget that is large enough. -/
inductive Step : Store Node → Label Node → Store Node → Prop where
  | call
      {store after : Store Node}
      {call : Call Node}
      {answer : Answer Node}
      {bound : Nat}
      (callable : Callable store call)
      (returns : ∀ fuel, bound < fuel → store.perform fuel call = some (answer, after)) :
      Step store (.call call answer) after
  | scribble
      {store : Store Node}
      {links : Heap Node}
      {values : Node → Int}
      (root : links .root = store.links .root)
      (allocated :
        ∀ node,
          store.live node = true →
          links (.next node) = store.links (.next node) ∧ values node = store.values node) :
      Step store .scribble { store with links := links, values := values }

/-- No node is allocated and the list is empty. -/
def Store.Empty (store : Store Node) : Prop :=
  store.links .root = none ∧ ∀ node, store.live node = false

/-! ## The list a run builds -/

/-- A node with its value. -/
abbrev Item (Node : Type) := Node × Int

/-- What a call does to the list of nodes with their values; `none` where it faults. -/
def expected (items : List (Item Node)) : Call Node → Option (Answer Node × List (Item Node))
  | .addEntry newNode newValue =>
      newNode.map fun node => (.nothing, items ++ [(node, newValue)])
  | .findEntry value =>
      some (.pointer ((items.find? fun item => item.2 = value).map Prod.fst), items)
  | .removeEntry entry =>
      match items.find? fun item => some item.1 = entry with
      | none => none
      | some _ => some (.nothing, items.filter fun item => some item.1 ≠ entry)
  | .swapPair => some (.nothing, pairsSwapped items)
  | .reverse => some (.nothing, items.reverse)
  | .shuffle rand =>
      if items.length < ints then
        some (.nothing, shuffled (chosenIndex rand) (items.length - 1) items)
      else
        none
  | .printList => some (.printed (items.map Prod.snd), items)

/-- The store holds these nodes in this order, and no other node is allocated. -/
structure Represents (store : Store Node) (items : List (Item Node)) : Prop where
  listed : Listed store.links .root (items.map Prod.fst)
  values : ∀ item ∈ items, store.values item.1 = item.2
  live : ∀ node, store.live node = true ↔ node ∈ items.map Prod.fst

/-! ## Walking to the end and to a node -/

section Walks

variable {heap : Heap Node} {link : Link Node} {nodes : List Node} {stop pointer : Option Node}

omit [DecidableEq Node] in
/-- The last link of a list is the first one or that of one of its nodes. -/
theorem lastLink_cases :
    lastLink link nodes = link ∨ ∃ node ∈ nodes, lastLink link nodes = .next node := by
  induction nodes generalizing link with
  | nil =>
      exact Or.inl rfl
  | cons node rest inductionHypothesis =>
      right
      rcases @inductionHypothesis (.next node) with first | ⟨later, member, last⟩
      · exact ⟨node, List.mem_cons_self, first⟩
      · exact ⟨later, List.mem_cons_of_mem _ member, last⟩

/-- Storing to the last link of a path makes it end elsewhere. -/
theorem path_redirected
    (path : Path heap (heap link) nodes stop)
    (distinct : nodes.Nodup)
    (outside : ∀ node ∈ nodes, link ≠ .next node) :
    Path (heap.store (lastLink link nodes) pointer)
      ((heap.store (lastLink link nodes) pointer) link) nodes pointer := by
  induction nodes generalizing link with
  | nil =>
      exact store_same
  | cons node rest inductionHypothesis =>
      obtain ⟨here, behind⟩ := path
      obtain ⟨apart, distinctRest⟩ := List.nodup_cons.mp distinct
      have kept : lastLink (.next node) rest ≠ link := by
        rcases @lastLink_cases _ (.next node) rest with first | ⟨later, member, last⟩
        · rw [first]
          exact (outside node List.mem_cons_self).symm
        · rw [last]
          exact (outside later (List.mem_cons_of_mem _ member)).symm
      refine ⟨?_, inductionHypothesis behind distinctRest (next_outside apart)⟩
      rw [lastLink, store_other kept.symm, here]

omit [DecidableEq Node] in
/-- The loop of `add_entry` finds the last link. -/
theorem end_found
    {fuel : Nat}
    (path : Path heap (heap link) nodes none)
    (enough : nodes.length < fuel) :
    loop (endRound heap) fuel link = some (lastLink link nodes) := by
  induction nodes generalizing link fuel with
  | nil =>
      obtain ⟨fuel, rfl⟩ := exists_round enough
      have last : heap link = none := path
      simp [loop, endRound, last, lastLink]
  | cons node rest inductionHypothesis =>
      obtain ⟨fuel, rfl⟩ := exists_round enough
      have here : heap link = some node := path.1
      have within : rest.length < fuel := by
        rw [List.length_cons] at enough
        omega
      simp only [loop, endRound, here, lastLink]
      exact inductionHypothesis path.2 within

/-- The loop of `remove_entry` finds the link that holds the node. -/
theorem entry_found
    {fuel : Nat}
    {entry : Node}
    (path : Path heap (heap link) nodes (some entry))
    (missing : entry ∉ nodes)
    (enough : nodes.length < fuel) :
    loop (entryRound heap (some entry)) fuel link = some (some (lastLink link nodes)) := by
  induction nodes generalizing link fuel with
  | nil =>
      obtain ⟨fuel, rfl⟩ := exists_round enough
      have here : heap link = some entry := path
      simp [loop, entryRound, here, lastLink]
  | cons node rest inductionHypothesis =>
      obtain ⟨fuel, rfl⟩ := exists_round enough
      have here : heap link = some node := path.1
      have different : node ≠ entry := fun same => missing (same ▸ List.mem_cons_self)
      have within : rest.length < fuel := by
        rw [List.length_cons] at enough
        omega
      simp only [loop, entryRound, here, ne_eq, Option.some.injEq, different, not_false_eq_true,
        if_true, field_some, lastLink]
      exact inductionHypothesis path.2
        (fun member => missing (List.mem_cons_of_mem _ member)) within

/-- Without that node in the list the loop runs into the null pointer at its end. -/
theorem entry_missing
    {entry : Node}
    (path : Path heap (heap link) nodes none)
    (missing : entry ∉ nodes)
    (fuel : Nat) :
    (loop (entryRound heap (some entry)) fuel link).join = none := by
  induction nodes generalizing link fuel with
  | nil =>
      have last : heap link = none := path
      cases fuel with
      | zero => rfl
      | succ fuel => simp [loop, entryRound, last, field]
  | cons node rest inductionHypothesis =>
      cases fuel with
      | zero => rfl
      | succ fuel =>
          have here : heap link = some node := path.1
          have different : node ≠ entry := fun same => missing (same ▸ List.mem_cons_self)
          simp only [loop, entryRound, here, ne_eq, Option.some.injEq, different,
            not_false_eq_true, if_true, field_some]
          exact inductionHypothesis path.2
            (fun member => missing (List.mem_cons_of_mem _ member)) fuel

end Walks

end Sysprog.SwapPairs
