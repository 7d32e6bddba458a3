import Sysprog.ListHeadCalls

namespace Sysprog.ListHead

open CircularList Execution FuelLoop RingFamilies

/-!
# Programs over the lists of `list.h`

A program makes calls and runs through its lists.  The body of `list_for_each_safe` may make
any calls that leave the nodes in place that are still to come.  In every run the rings in
memory are the lists that the calls describe; loops visit the entries in order.
-/

variable {Cell : Type} [DecidableEq Cell] {poisoning : Poisoning Cell}
  {links changed : Links Cell} {lists : RingLists Cell} {head : Cell}

/-! ## Statements described -/

/-- The lists after several calls. -/
def describedAll (lists : RingLists Cell) (calls : List (Call Cell)) : RingLists Cell :=
  calls.foldl described lists

/-- Each of several calls may be made when its turn comes. -/
def AllCallable : RingLists Cell → List (Call Cell) → Prop
  | _, [] => True
  | lists, call :: rest => Callable lists call ∧ AllCallable (described lists call) rest

/-- The lists after the rounds of `list_for_each_safe` at some nodes. -/
def describedRounds (body : Cell → List (Call Cell)) : List Cell → RingLists Cell → RingLists Cell
  | [], lists => lists
  | node :: rest, lists => describedRounds body rest (describedAll lists (body node))

/-- The body leaves the nodes in place that are still to come. -/
def Permits (head : Cell) (body : Cell → List (Call Cell)) : List Cell → RingLists Cell → Prop
  | [], _ => True
  | node :: rest, lists =>
      AllCallable lists (body node) ∧
        (∃ front, describedAll lists (body node) head = some (front ++ rest)) ∧
          Permits head body rest (describedAll lists (body node))

namespace Statement

/-- The lists after a statement. -/
def described (lists : RingLists Cell) : Statement Cell → RingLists Cell
  | .single call => ListHead.described lists call
  | .forEach _ => lists
  | .forEachSafe head body => describedRounds body (entriesOf lists head) lists

/-- What a statement tells. -/
def expected (lists : RingLists Cell) : Statement Cell → Answer Cell
  | .single call => ListHead.expected lists call
  | .forEach head | .forEachSafe head _ => .nodes (entriesOf lists head)

/-- A statement may be run. -/
def Callable (lists : RingLists Cell) : Statement Cell → Prop
  | .single call => ListHead.Callable lists call
  | .forEach head => IsHead lists head
  | .forEachSafe head body => IsHead lists head ∧ Permits head body (entriesOf lists head) lists

/-- The cells that a statement is about. -/
def names (lists : RingLists Cell) : Statement Cell → List Cell
  | .single call => call.names
  | .forEach head => [head]
  | .forEachSafe head body =>
      head :: (entriesOf lists head).flatMap fun node => (body node).flatMap Call.names

end Statement

/-! ## Loops -/

/-- Several calls have the effects of each of them. -/
theorem effect_performAll
    {calls : List (Call Cell)}
    (family : Family links lists)
    (callable : AllCallable lists calls) :
    Effect links (performAll poisoning links calls) lists (describedAll lists calls)
      (calls.flatMap Call.names) := by
  induction calls generalizing links lists with
  | nil =>
      exact .refl family
  | cons call rest inductionHypothesis =>
      obtain ⟨first, others⟩ := callable
      have one : Effect links (call.perform poisoning links) lists (described lists call)
          call.names :=
        effect_call family first
      exact one.trans (inductionHypothesis one.family others)

/-- `list_for_each` is about to look at the first of the nodes that are still to come. -/
def AtNode (head : Cell) (entries : List Cell) (bound : Nat) (walk : Walk Cell) : Prop :=
  ∃ back,
    entries = walk.visited ++ back ∧ walk.node = back.headD head ∧ bound = back.length

/-- `list_for_each` visits the entries in order. -/
theorem listForEach_eq
    {entries : List Cell}
    (ring : Ring links head entries)
    {fuel : Nat}
    (enough : entries.length < fuel) :
    listForEach fuel links head = some entries := by
  have initially :
      AtNode head entries entries.length { node := links.next head, visited := [] } :=
    ⟨entries, rfl, ring.path.next_eq, rfl⟩
  have round :
      ∀ bound walk,
        AtNode head entries bound walk →
        RoundOk (AtNode head entries) (fun visited => visited = entries) bound
          (forEachRound links head walk) := by
    rintro bound walk ⟨back, shape, atNode, rfl⟩
    rw [forEachRound]
    cases back with
    | nil =>
        have isHead : walk.node = head := atNode
        rw [if_pos isHead]
        exact (shape.trans (List.append_nil walk.visited)).symm
    | cons first rest =>
        have isFirst : walk.node = first := atNode
        have notHead : walk.node ≠ head := by
          rw [isFirst]
          exact ring.ne_head (shape ▸ by simp)
        have whole : head :: entries = (head :: walk.visited) ++ walk.node :: rest := by
          rw [shape, isFirst, List.cons_append]
        rw [if_neg notHead]
        refine ⟨rest.length, by simp, rest, ?_, ring.next_eq whole, rfl⟩
        rw [shape, isFirst, List.append_assoc, List.singleton_append]
  obtain ⟨visited, returned, rfl⟩ :=
    loop_correct (AtNode head entries) (fun visited => visited = entries) round initially enough
  exact returned

/-- `list_for_each_safe` has run its body at some entries and goes on with the others. -/
structure AtSafeNode
    (links : Links Cell)
    (lists : RingLists Cell)
    (head : Cell)
    (body : Cell → List (Call Cell))
    (entries : List Cell)
    (back : List Cell)
    (now : RingLists Cell)
    (walk : SafeWalk Cell) : Prop where
  shape : entries = walk.visited ++ back
  listed : ∃ front, now head = some (front ++ back)
  node : walk.node = back.headD head
  safe : ∀ {first rest}, back = first :: rest → walk.safe = rest.headD head
  permits : Permits head body back now
  rounds : describedRounds body back now = describedRounds body entries lists
  effect :
    Effect links walk.links lists now
      (walk.visited.flatMap fun node => (body node).flatMap Call.names)

omit [DecidableEq Cell] in
/-- The link forward from an entry leads to those behind it. -/
theorem next_entry
    {front back : List Cell}
    {node : Cell}
    (family : Family links lists)
    (listed : lists head = some (front ++ node :: back)) :
    links.next node = back.headD head :=
  (family.ring listed).next_eq (List.cons_append (a := head)).symm

/-- One round of `list_for_each_safe` at an entry. -/
theorem AtSafeNode.round
    {body : Cell → List (Call Cell)}
    {entries rest : List Cell}
    {first : Cell}
    {now : RingLists Cell}
    {walk : SafeWalk Cell}
    (atNode : AtSafeNode links lists head body entries (first :: rest) now walk) :
    ∃ next,
      forEachSafeRound poisoning head body walk = .again next ∧
        AtSafeNode links lists head body entries rest (describedAll now (body first)) next := by
  obtain ⟨callable, ⟨front, listed⟩, permits⟩ := atNode.permits
  have isFirst : walk.node = first := atNode.node
  obtain ⟨before, listedNow⟩ := atNode.listed
  have notHead : walk.node ≠ head := by
    rw [isFirst]
    exact (atNode.effect.family.ring listedNow).ne_head (by simp)
  have ran :
      Effect walk.links (performAll poisoning walk.links (body first)) now
        (describedAll now (body first)) ((body first).flatMap Call.names) :=
    effect_performAll atNode.effect.family callable
  rw [forEachSafeRound, if_neg notHead, isFirst]
  refine ⟨_, rfl, ?_, ⟨front, listed⟩, atNode.safe rfl, ?_, permits, atNode.rounds, ?_⟩
  · rw [atNode.shape, List.append_assoc, List.singleton_append]
  · rintro second others rfl
    show (performAll poisoning walk.links (body first)).next walk.safe = _
    rw [atNode.safe rfl]
    exact next_entry ran.family listed
  · rw [List.flatMap_append, List.flatMap_singleton]
    exact atNode.effect.trans ran

/-- `list_for_each_safe` runs its body at the entries in order. -/
theorem listForEachSafe_runs
    (poisoning : Poisoning Cell)
    {body : Cell → List (Call Cell)}
    {entries : List Cell}
    (family : Family links lists)
    (listed : lists head = some entries)
    (permits : Permits head body entries lists) :
    ∃ changed,
      (∀ fuel,
        entries.length < fuel →
        listForEachSafe poisoning fuel links head body = some (entries, changed)) ∧
        Effect links changed lists (describedRounds body entries lists)
          (entries.flatMap fun node => (body node).flatMap Call.names) := by
  have ring := family.ring listed
  have initially :
      AtSafeNode links lists head body entries entries lists
        { links := links
          node := links.next head
          safe := links.next (links.next head)
          visited := [] } := by
    refine ⟨rfl, ⟨[], listed⟩, ring.path.next_eq, ?_, permits, rfl, .refl family⟩
    rintro first rest rfl
    have isFirst : links.next head = first := ring.path.next_eq
    have alone : lists head = some ([] ++ first :: rest) := listed
    show links.next (links.next head) = _
    rw [isFirst]
    exact next_entry family alone
  let invariant : Nat → SafeWalk Cell → Prop := fun bound walk =>
    ∃ back now, AtSafeNode links lists head body entries back now walk ∧ bound = back.length
  let post : List Cell × Links Cell → Prop := fun result =>
    result.1 = entries ∧
      Effect links result.2 lists (describedRounds body entries lists)
        (entries.flatMap fun node => (body node).flatMap Call.names)
  have round :
      ∀ bound walk,
        invariant bound walk →
        RoundOk invariant post bound (forEachSafeRound poisoning head body walk) := by
    rintro bound walk ⟨back, now, atNode, rfl⟩
    cases back with
    | nil =>
        have visited : walk.visited = entries := by
          rw [atNode.shape, List.append_nil]
        have isHead : walk.node = head := atNode.node
        rw [forEachSafeRound, if_pos isHead]
        refine ⟨visited, ?_⟩
        rw [← atNode.rounds, ← visited]
        exact atNode.effect
    | cons first rest =>
        obtain ⟨next, again, later⟩ := atNode.round
        rw [again]
        exact ⟨rest.length, by simp, rest, _, later, rfl⟩
  obtain ⟨⟨visited, changed⟩, returned, rfl, effect⟩ :=
    loop_correct invariant post round ⟨entries, lists, initially, rfl⟩
      (Nat.lt_succ_self entries.length)
  exact ⟨changed, fun fuel enough => loop_more returned enough, effect⟩

/-! ## Runs -/

/-- The links in memory and the lists that the statements so far describe. -/
structure World (Cell : Type) where
  links : Links Cell
  lists : RingLists Cell

/-- A program runs a statement where it may be run. -/
inductive Step (poisoning : Poisoning Cell) :
    World Cell → Statement Cell × Answer Cell → World Cell → Prop where
  | executed
      {world : World Cell}
      {statement : Statement Cell}
      {answer : Answer Cell}
      {fuel : Nat}
      {after : Links Cell}
      (callable : statement.Callable world.lists)
      (returned : statement.execute poisoning fuel world.links = some (answer, after)) :
      Step poisoning world (statement, answer)
        { links := after, lists := statement.described world.lists }

/-- Every statement that may be run returns what is expected, with the effect described. -/
theorem statement_runs
    {statement : Statement Cell}
    (family : Family links lists)
    (callable : statement.Callable lists) :
    ∃ bound changed,
      (∀ fuel,
        bound < fuel →
        statement.execute poisoning fuel links = some (statement.expected lists, changed)) ∧
        Effect links changed lists (statement.described lists) (statement.names lists) := by
  cases statement with
  | single call =>
      refine ⟨0, call.perform poisoning links, fun fuel _ => ?_, effect_call family callable⟩
      rw [Statement.execute, answer_call family callable]
      rfl
  | forEach head =>
      obtain ⟨entries, listed⟩ := Option.isSome_iff_exists.mp callable
      refine ⟨entries.length, links, fun fuel enough => ?_, .refl family⟩
      rw [Statement.execute, listForEach_eq (family.ring listed) enough, Statement.expected,
        entriesOf_eq listed]
      rfl
  | forEachSafe head body =>
      obtain ⟨isHead, permits⟩ := callable
      obtain ⟨entries, listed⟩ := Option.isSome_iff_exists.mp isHead
      rw [entriesOf_eq listed] at permits
      obtain ⟨changed, returns, effect⟩ :=
        listForEachSafe_runs poisoning family listed permits
      refine ⟨entries.length, changed, fun fuel enough => ?_, ?_⟩
      · rw [Statement.execute, returns fuel enough, Statement.expected, entriesOf_eq listed]
        rfl
      · rw [Statement.described, Statement.names, entriesOf_eq listed]
        exact effect.mono (List.subset_cons_self _ _)

/-- A larger budget does not change what a statement does. -/
theorem execute_more
    {statement : Statement Cell}
    {fuel larger : Nat}
    {result : Answer Cell × Links Cell}
    (returned : statement.execute poisoning fuel links = some result)
    (within : fuel ≤ larger) :
    statement.execute poisoning larger links = some result := by
  cases statement with
  | single call =>
      exact returned
  | forEach head =>
      obtain ⟨visited, walked, rfl⟩ := Option.map_eq_some_iff.mp returned
      have more : listForEach larger links head = some visited := loop_more walked within
      rw [Statement.execute, more, Option.map_some]
  | forEachSafe head body =>
      obtain ⟨pair, walked, rfl⟩ := Option.map_eq_some_iff.mp returned
      have more : listForEachSafe poisoning larger links head body = some pair :=
        loop_more walked within
      rw [Statement.execute, more, Option.map_some]

/-- Every step keeps the rings those of the lists. -/
theorem Step.family
    {world after : World Cell}
    {label : Statement Cell × Answer Cell}
    (family : Family world.links world.lists)
    (step : Step poisoning world label after) :
    Family after.links after.lists := by
  cases step with
  | @executed statement answer fuel links callable returned =>
      obtain ⟨bound, changed, returns, effect⟩ := statement_runs family callable
      have first := execute_more returned (Nat.le_max_left fuel (bound + 1))
      have second := returns (max fuel (bound + 1)) (Nat.le_max_right fuel (bound + 1))
      have same := Option.some.inj (first.symm.trans second)
      rw [(Prod.mk.inj same).2]
      exact effect.family

/--
In every run the rings in memory are the lists that the statements describe, and no two of
them meet.  The next statement returns what the lists admit, leaves the rings of the lists
that follow, and writes to no cell that belongs to no list, apart from those it names.
-/
theorem lists_follow_statements
    {start : Links Cell}
    {world : World Cell}
    (reachable :
      Reachable (Step poisoning) { links := start, lists := fun _ => none } world) :
    Family world.links world.lists ∧
      ∀ statement : Statement Cell,
        statement.Callable world.lists →
        ∃ bound changed,
          (∀ fuel,
            bound < fuel →
            statement.execute poisoning fuel world.links =
              some (statement.expected world.lists, changed)) ∧
            Family changed (statement.described world.lists) ∧
              ∀ cell,
                world.lists.Unused cell →
                cell ∉ statement.names world.lists →
                SameAt world.links changed cell := by
  have initially : Family start (fun _ => none : RingLists Cell) :=
    ⟨fun listed => (Option.some_ne_none _ listed.symm).elim,
      fun listed => (Option.some_ne_none _ listed.symm).elim⟩
  have family : Family world.links world.lists :=
    @Reachable.invariant _ _ _ _ _ (fun world => Family world.links world.lists) reachable
      initially fun held step => step.family held
  refine ⟨family, fun statement callable => ?_⟩
  obtain ⟨bound, changed, returns, effect⟩ := statement_runs family callable
  exact ⟨bound, changed, returns, effect.family,
    fun cell unused apart => (effect.frame cell unused apart).1⟩

omit [DecidableEq Cell] in
/-- What is in no list is no entry. -/
theorem not_isEntry_of_forall
    {cell : Cell}
    {lists : RingLists Cell}
    (absent : ∀ head, cell ∉ entriesOf lists head) :
    ¬ lists.IsEntry cell := by
  rintro ⟨head, entries, listed, member⟩
  refine absent head ?_
  rw [entriesOf, listed]
  exact member

/-- Calls that may be made one after the other are a run. -/
theorem reachable_calls
    {world : World Cell}
    {calls : List (Call Cell)}
    (callable : AllCallable world.lists calls) :
    Reachable (Step poisoning) world
      { links := performAll poisoning world.links calls
        lists := describedAll world.lists calls } := by
  induction calls generalizing world with
  | nil =>
      exact .refl
  | cons call rest inductionHypothesis =>
      have first : Step poisoning world (.single call, call.answer world.links)
          { links := call.perform poisoning world.links, lists := described world.lists call } :=
        @Step.executed _ _ _ _ _ _ 0 _ callable.1 rfl
      exact (Reachable.refl.next first).trans (inductionHypothesis callable.2)

/-- Five cells that point to cell 0, and no list. -/
def noLists : World (Fin 5) where
  links := { prev := fun _ => 0, next := fun _ => 0 }
  lists := fun _ => none

/-- Two lists, and three nodes in the first of them. -/
def twoLists : List (Call (Fin 5)) :=
  [.initListHead 0, .initListHead 1, .listAddTail 2 0, .listAddTail 3 0, .listAdd 4 0]

/-- The loop that moves all nodes to the second list. -/
def moveAll : Statement (Fin 5) :=
  .forEachSafe 0 fun node => [.listMoveTail node 1]

theorem lists_follow_statements_moveAll :
    ∃ bound changed lists,
      (∀ fuel,
        bound < fuel →
        moveAll.execute none fuel (performAll none noLists.links twoLists) =
          some (.nodes [4, 2, 3], changed)) ∧
        Family changed lists ∧ lists 0 = some [] ∧ lists 1 = some [4, 2, 3] := by
  have callable : AllCallable noLists.lists twoLists :=
    ⟨not_isEntry_of_forall (by decide), not_isEntry_of_forall (by decide),
      ⟨not_isEntry_of_forall (by decide), by decide, rfl⟩,
      ⟨not_isEntry_of_forall (by decide), by decide, rfl⟩,
      ⟨not_isEntry_of_forall (by decide), by decide, rfl⟩, trivial⟩
  obtain ⟨_, runs⟩ := lists_follow_statements (@reachable_calls _ _ none noLists _ callable)
  have permitted : moveAll.Callable (describedAll noLists.lists twoLists) := by
    refine ⟨rfl, ?_, ⟨[], rfl⟩, ?_, ⟨[], rfl⟩, ?_, ⟨[], rfl⟩, trivial⟩
    · exact ⟨⟨Or.inl ⟨0, _, rfl, by decide⟩, by decide, rfl⟩, trivial⟩
    · exact ⟨⟨Or.inl ⟨0, _, rfl, by decide⟩, by decide, rfl⟩, trivial⟩
    · exact ⟨⟨Or.inl ⟨0, _, rfl, by decide⟩, by decide, rfl⟩, trivial⟩
  obtain ⟨bound, changed, returns, family, _⟩ := runs moveAll permitted
  exact ⟨bound, changed, _, returns, family, rfl, rfl⟩

end Sysprog.ListHead
