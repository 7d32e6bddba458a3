import Sysprog.ListHeadModel

namespace Sysprog.ListHead

open CircularList Execution FuelLoop RingFamilies

/-!
# What the calls of `list.h` do to the lists

A call is described by the lists before and after it.  It may be made where its heads are
heads and its nodes are entries, or free, as the comments of `list.h` ask.  Every such call
turns the rings in memory into those of the lists it is described by, and writes nowhere
else.
-/

variable {Cell : Type} [DecidableEq Cell]

/-! ## The calls described -/

/-- Take a cell out of all lists, and its own list with it. -/
def forget (lists : RingLists Cell) (cell : Cell) : RingLists Cell :=
  fun head => if head = cell then none else (lists head).map fun entries => entries.erase cell

/-- Change the entries of one list. -/
def edit (lists : RingLists Cell) (head : Cell) (change : List Cell → List Cell) : RingLists Cell :=
  Function.update lists head ((lists head).map change)

/-- The entries of a list, none if there is no such list. -/
def entriesOf (lists : RingLists Cell) (head : Cell) : List Cell :=
  (lists head).getD []

/-- Join the entries of a list to those of another one; its head is no longer one then. -/
def joined
    (lists : RingLists Cell)
    (list head : Cell)
    (join : List Cell → List Cell → List Cell) : RingLists Cell :=
  if entriesOf lists list = [] then
    lists
  else
    edit (Function.update lists list none) head (join (entriesOf lists list))

/-- The lists after a list is cut behind a node. -/
def divided (lists : RingLists Cell) (headTo headFrom node : Cell) : RingLists Cell :=
  let entries := entriesOf lists headFrom
  if entries = [] then
    lists
  else if headFrom = node then
    Function.update lists headTo (some [])
  else
    Function.update
      (Function.update lists headFrom (some (entries.drop (entries.idxOf node + 1))))
      headTo (some (entries.take (entries.idxOf node + 1)))

/-- The lists after a call. -/
def described (lists : RingLists Cell) : Call Cell → RingLists Cell
  | .initListHead head => Function.update lists head (some [])
  | .listAdd node head | .listMove node head => edit (forget lists node) head ([node] ++ ·)
  | .listAddTail node head | .listMoveTail node head =>
      edit (forget lists node) head (· ++ [node])
  | .listDel node => forget lists node
  | .listDelInit node => Function.update (forget lists node) node (some [])
  | .listSplice list head => joined lists list head fun cells entries => cells ++ entries
  | .listSpliceTail list head => joined lists list head fun cells entries => entries ++ cells
  | .listSpliceInit list head =>
      Function.update (joined lists list head fun cells entries => cells ++ entries) list
        (some [])
  | .listSpliceTailInit list head =>
      Function.update (joined lists list head fun cells entries => entries ++ cells) list
        (some [])
  | .listCutPosition headTo headFrom node => divided lists headTo headFrom node
  | .listEmpty _ | .listIsSingular _ | .listFirstEntry _ | .listLastEntry _ | .write _ _ _ =>
      lists

/-- What a call returns. -/
def expected (lists : RingLists Cell) : Call Cell → Answer Cell
  | .listEmpty head => .truth (entriesOf lists head = [])
  | .listIsSingular head => .truth ((entriesOf lists head).length = 1)
  | .listFirstEntry head => .node ((entriesOf lists head).headD head)
  | .listLastEntry head => .node ((entriesOf lists head).getLastD head)
  | _ => .nothing

/-- A node is linked, or initialised as one that is not. -/
def Linkable (lists : RingLists Cell) (node : Cell) : Prop :=
  lists.IsEntry node ∨ lists node = some []

/-- A cell is the head of a list. -/
def IsHead (lists : RingLists Cell) (head : Cell) : Prop :=
  (lists head).isSome

/-- A call may be made. -/
def Callable (lists : RingLists Cell) : Call Cell → Prop
  | .initListHead head => ¬ lists.IsEntry head
  | .listAdd node head | .listAddTail node head =>
      ¬ lists.IsEntry node ∧ node ≠ head ∧ IsHead lists head
  | .listDel node | .listDelInit node => Linkable lists node
  | .listMove node head | .listMoveTail node head =>
      Linkable lists node ∧ node ≠ head ∧ IsHead lists head
  | .listSplice list head | .listSpliceTail list head
  | .listSpliceInit list head | .listSpliceTailInit list head =>
      list ≠ head ∧ IsHead lists list ∧ IsHead lists head
  | .listCutPosition headTo headFrom node =>
      headTo ≠ headFrom ∧ ¬ lists.IsEntry headTo ∧ IsHead lists headFrom ∧
        (entriesOf lists headFrom = [] ∨ node ∈ headFrom :: entriesOf lists headFrom)
  | .listEmpty head | .listIsSingular head | .listFirstEntry head | .listLastEntry head =>
      IsHead lists head
  | .write cell _ _ => lists.Unused cell

/-- The cells that a call is about. -/
def Call.names : Call Cell → List Cell
  | .initListHead cell | .listDel cell | .listDelInit cell | .listEmpty cell
  | .listIsSingular cell | .listFirstEntry cell | .listLastEntry cell | .write cell _ _ =>
      [cell]
  | .listAdd first second | .listAddTail first second | .listMove first second
  | .listMoveTail first second | .listSplice first second | .listSpliceTail first second
  | .listSpliceInit first second | .listSpliceTailInit first second =>
      [first, second]
  | .listCutPosition headTo headFrom node => [headTo, headFrom, node]

/-! ## Effects -/

variable {links changed final : Links Cell} {lists later last : RingLists Cell}
  {named others : List Cell} {node head cell : Cell} {poisoning : Poisoning Cell}

/--
The lists go on as others, and cells that belong to no list and are not named keep their
links.
-/
structure Effect
    (links changed : Links Cell)
    (lists later : RingLists Cell)
    (named : List Cell) : Prop where
  family : Family changed later
  frame :
    ∀ cell, lists.Unused cell → cell ∉ named → SameAt links changed cell ∧ later.Unused cell

omit [DecidableEq Cell] in
/-- One effect after the other. -/
theorem Effect.trans
    (first : Effect links changed lists later named)
    (second : Effect changed final later last others) :
    Effect links final lists last (named ++ others) where
  family := second.family
  frame := by
    intro cell unused apart
    simp only [List.mem_append, not_or] at apart
    obtain ⟨⟨samePrev, sameNext⟩, stillUnused⟩ := first.frame cell unused apart.1
    obtain ⟨⟨thenPrev, thenNext⟩, lastUnused⟩ := second.frame cell stillUnused apart.2
    exact ⟨⟨thenPrev.trans samePrev, thenNext.trans sameNext⟩, lastUnused⟩

omit [DecidableEq Cell] in
/-- More cells may be named. -/
theorem Effect.mono
    (effect : Effect links changed lists later named)
    (within : named ⊆ others) :
    Effect links changed lists later others where
  family := effect.family
  frame := fun cell unused apart =>
    effect.frame cell unused fun member => apart (within member)

omit [DecidableEq Cell] in
/-- Nothing happens. -/
theorem Effect.refl (family : Family links lists) : Effect links links lists lists named where
  family := family
  frame := fun _ unused _ => ⟨⟨rfl, rfl⟩, unused⟩

omit [DecidableEq Cell] in
/-- An effect in the other direction. -/
theorem Effect.flip (effect : Effect links changed lists later named) :
    Effect links.flip changed.flip lists.reversed later.reversed named where
  family := effect.family.flip
  frame := by
    intro cell unused apart
    obtain ⟨⟨samePrev, sameNext⟩, stillUnused⟩ :=
      effect.frame cell (unused_reversed.mp unused) apart
    exact ⟨⟨sameNext, samePrev⟩, unused_reversed.mpr stillUnused⟩

/-- A cell of no list stays one when the entries of a list change without it. -/
theorem unused_update
    {value : Option (List Cell)}
    (unused : lists.Unused cell)
    (notHead : cell ≠ head)
    (without : ∀ entries, value = some entries → cell ∉ entries) :
    RingLists.Unused (Function.update lists head value) cell := by
  refine ⟨(Function.update_of_ne notHead _ _).trans unused.1, ?_⟩
  rintro ⟨other, entries, listed, member⟩
  by_cases isHead : other = head
  · subst isHead
    rw [Function.update_self] at listed
    exact without entries listed member
  · rw [Function.update_of_ne isHead] at listed
    exact unused.2 ⟨other, entries, listed, member⟩

/-- Where a cell is no entry, only its own list is forgotten. -/
theorem forget_of_outside (outside : ¬ lists.IsEntry node) :
    forget lists node = Function.update lists node none := by
  funext other
  by_cases isNode : other = node
  · rw [forget, if_pos isNode, isNode, Function.update_self]
  · rw [forget, if_neg isNode, Function.update_of_ne isNode]
    cases listed : lists other with
    | none => rfl
    | some entries =>
        rw [Option.map_some, List.erase_of_not_mem]
        exact fun member => outside ⟨other, entries, listed, member⟩

/-- What is left of a list without a cell. -/
theorem forget_some
    {other : Cell}
    {entries : List Cell}
    (listed : forget lists node other = some entries) :
    other ≠ node ∧ ∃ before, lists other = some before ∧ entries = before.erase node := by
  rw [forget] at listed
  by_cases isNode : other = node
  · rw [if_pos isNode] at listed
    cases listed
  · rw [if_neg isNode] at listed
    obtain ⟨before, was, rfl⟩ := Option.map_eq_some_iff.mp listed
    exact ⟨isNode, before, was, rfl⟩

/-- A forgotten cell is no entry. -/
theorem not_isEntry_forget (family : Family links lists) : ¬ (forget lists node).IsEntry node := by
  rintro ⟨other, entries, listed, member⟩
  obtain ⟨_, before, was, rfl⟩ := forget_some listed
  have distinct := (List.nodup_cons.mp (family.ring was).nodup).2
  exact distinct.not_mem_erase member

/-- Cells of no list stay so when another one is forgotten. -/
theorem unused_forget (unused : lists.Unused cell) : (forget lists node).Unused cell := by
  refine ⟨?_, ?_⟩
  · simp [forget, unused.1]
  · rintro ⟨other, entries, listed, member⟩
    obtain ⟨_, before, was, rfl⟩ := forget_some listed
    exact unused.2 ⟨other, before, was, List.mem_of_mem_erase member⟩

/-! ## One function after the other -/

/-- `INIT_LIST_HEAD` makes an empty list. -/
theorem effect_initListHead
    (family : Family links lists)
    (outside : ¬ lists.IsEntry head) :
    Effect links (initListHead links head) lists (Function.update lists head (some [])) [head] := by
  have same : ∀ {cell}, cell ≠ head → SameAt links (initListHead links head) cell :=
    fun notHead => ⟨Function.update_of_ne notHead _ _, Function.update_of_ne notHead _ _⟩
  refine ⟨family.change head ?_ ?_, ?_⟩
  · intro entries listed
    rw [Function.update_self] at listed
    obtain rfl := Option.some.inj listed
    exact (ring_init : Ring (links.init head) head [])
  · intro other entries notHead listed
    rw [Function.update_of_ne notHead] at listed
    refine ⟨listed, fun cell member => same (ne_of_outside outside notHead listed member), ?_⟩
    intro own ownListed cell member
    rw [Function.update_self] at ownListed
    obtain rfl := Option.some.inj ownListed
    exact fun isHead =>
      ne_of_outside outside notHead listed member (List.mem_singleton.mp isHead)
  · intro cell unused apart
    have notHead : cell ≠ head := by simpa using apart
    exact ⟨same notHead, unused_update unused notHead (by simp)⟩

/-- `list_add` inserts a free node at the start. -/
theorem effect_listAdd
    {entries : List Cell}
    (family : Family links lists)
    (outside : ¬ lists.IsEntry node)
    (notHead : node ≠ head)
    (listed : lists head = some entries) :
    Effect links (listAdd links node head) lists (edit (forget lists node) head ([node] ++ ·))
      [node, head] := by
  have ring := family.ring listed
  have first := (ring.closed List.mem_cons_self).2
  have same :
      ∀ {cell}, cell ≠ node → cell ∉ head :: entries →
        SameAt links (listAdd links node head) cell := by
    intro cell notNode apart
    have notHead : cell ≠ head := fun isHead => apart (isHead ▸ List.mem_cons_self)
    have notFirst : cell ≠ links.next head := fun isFirst => apart (isFirst ▸ first)
    simp [SameAt, listAdd, Links.setNext, Links.setPrev, notNode, notHead, notFirst]
  have fresh : node ∉ head :: entries := by
    rw [List.mem_cons, not_or]
    exact ⟨notHead, fun member => outside ⟨head, entries, listed, member⟩⟩
  have here : edit (forget lists node) head ([node] ++ ·) head = some (node :: entries) := by
    rw [edit, Function.update_self, forget_of_outside outside,
      Function.update_of_ne notHead.symm, listed]
    rfl
  refine ⟨family.change head ?_ ?_, ?_⟩
  · intro own ownListed
    obtain rfl := Option.some.inj (here.symm.trans ownListed)
    exact (ring.pushFront fresh : Ring (links.pushFront head node) head (node :: entries))
  · intro other behind isOther otherListed
    rw [edit, Function.update_of_ne isOther] at otherListed
    obtain ⟨notNode, before, was, rfl⟩ := forget_some otherListed
    rw [List.erase_of_not_mem fun member => outside ⟨other, before, was, member⟩]
    have apart : ∀ cell ∈ other :: before, cell ∉ head :: entries :=
      fun cell member => family.disjoint isOther listed was member
    have notNodes : ∀ cell ∈ other :: before, cell ≠ node :=
      fun cell member => ne_of_outside outside notNode was member
    refine ⟨was, fun cell member => same (notNodes cell member) (apart cell member), ?_⟩
    intro own ownListed cell member
    obtain rfl := Option.some.inj (here.symm.trans ownListed)
    have away := apart cell member
    simp only [List.mem_cons, not_or] at away ⊢
    exact ⟨away.1, notNodes cell member, away.2⟩
  · intro cell unused apart
    simp only [List.mem_cons, List.not_mem_nil, or_false, not_or] at apart
    refine ⟨same apart.1 (not_mem_of_unused unused listed), ?_⟩
    refine unused_update (unused_forget unused) apart.2 ?_
    intro own ownListed
    rw [forget_of_outside outside, Function.update_of_ne notHead.symm, listed] at ownListed
    obtain rfl := Option.some.inj ownListed
    have away := not_mem_of_unused unused listed
    simp only [List.mem_cons, not_or] at away
    simp [apart.1, away.2]

/-- Forgetting a free cell, in the other direction. -/
theorem reversed_forget (outside : ¬ lists.IsEntry node) :
    (forget lists.reversed node).reversed = forget lists node := by
  rw [forget_of_outside outside, forget_of_outside (isEntry_reversed.not.mpr outside)]
  funext other
  by_cases isNode : other = node
  · rw [RingLists.reversed, isNode, Function.update_self, Function.update_self, Option.map_none]
  · rw [RingLists.reversed, Function.update_of_ne isNode, Function.update_of_ne isNode]
    exact congrFun reversed_reversed other

/-- Changing one list, in the other direction. -/
theorem reversed_edit {change : List Cell → List Cell} :
    (edit lists head change).reversed =
      edit lists.reversed head fun entries => (change entries.reverse).reverse := by
  funext other
  by_cases isHead : other = head
  · subst isHead
    cases listed : lists other <;> simp [RingLists.reversed, edit, listed]
  · simp [RingLists.reversed, edit, isHead]

/-- `list_add_tail` inserts a free node at the end. -/
theorem effect_listAddTail
    {entries : List Cell}
    (family : Family links lists)
    (outside : ¬ lists.IsEntry node)
    (notHead : node ≠ head)
    (listed : lists head = some entries) :
    Effect links (listAddTail links node head) lists
      (edit (forget lists node) head (· ++ [node])) [node, head] := by
  have backwards : lists.reversed head = some entries.reverse := by
    rw [RingLists.reversed, listed, Option.map_some]
  have added :
      Effect links (listAddTail links node head) lists.reversed.reversed
        (edit (forget lists.reversed node) head ([node] ++ ·)).reversed [node, head] :=
    (effect_listAdd family.flip (isEntry_reversed.not.mpr outside) notHead backwards).flip
  rw [reversed_reversed, reversed_edit, reversed_forget outside] at added
  simpa using added

/-- `list_del` takes a node out of its list. -/
theorem effect_listDel
    (family : Family links lists)
    (linkable : Linkable lists node) :
    Effect links (listDel poisoning links node) lists (forget lists node) [node] := by
  have same :
      ∀ {cell}, cell ≠ node → cell ≠ links.next node → cell ≠ links.prev node →
        SameAt links (listDel poisoning links node) cell := by
    intro cell notNode notNext notPrev
    cases poisoning <;>
      simp [SameAt, listDel, Links.setNext, Links.setPrev, notNode, notNext, notPrev]
  rcases linkable with ⟨head, entries, listed, member⟩ | unlinked
  · have ring := family.ring listed
    obtain ⟨prev, next⟩ := ring.neighbours member
    have away : ∀ {cell}, cell ∉ head :: entries →
        SameAt links (listDel poisoning links node) cell := by
      intro cell apart
      refine same ?_ ?_ ?_
      · exact fun isNode => apart (isNode ▸ List.mem_cons_of_mem head member)
      · exact fun isNext => apart (isNext ▸ next)
      · exact fun isPrev => apart (isPrev ▸ prev)
    refine ⟨family.change head ?_ ?_, ?_⟩
    · intro own ownListed
      obtain ⟨_, before, was, rfl⟩ := forget_some ownListed
      obtain rfl := Option.some.inj (listed.symm.trans was)
      have distinct := (List.nodup_cons.mp ring.nodup).2
      have notIn : node ∉ head :: entries.erase node := by
        rw [List.mem_cons, not_or]
        exact ⟨ring.ne_head member, distinct.not_mem_erase⟩
      obtain ⟨front, back, rfl⟩ := List.append_of_mem member
      have notFront : node ∉ front := fun before =>
        (List.nodup_append.mp distinct).2.2 node before node (by simp) rfl
      rw [List.erase_append_right _ notFront, List.erase_cons_head] at notIn ⊢
      refine ring_same ring.remove ?_
      intro cell inside
      have notNode : cell ≠ node := fun isNode => notIn (isNode ▸ inside)
      cases poisoning with
      | none => exact ⟨rfl, rfl⟩
      | some poison =>
          exact ⟨Function.update_of_ne notNode _ _, Function.update_of_ne notNode _ _⟩
    · intro other behind isOther otherListed
      obtain ⟨_, before, was, rfl⟩ := forget_some otherListed
      have apart : ∀ cell ∈ other :: before, cell ∉ head :: entries :=
        fun cell inside => family.disjoint isOther listed was inside
      rw [List.erase_of_not_mem fun inside =>
        apart node (List.mem_cons_of_mem _ inside) (List.mem_cons_of_mem _ member)]
      refine ⟨was, fun cell inside => away (apart cell inside), ?_⟩
      intro own ownListed cell inside ownMember
      obtain ⟨_, first, wasOwn, rfl⟩ := forget_some ownListed
      obtain rfl := Option.some.inj (listed.symm.trans wasOwn)
      exact apart cell inside
        ((List.cons_sublist_cons.mpr List.erase_sublist).subset ownMember)
    · exact fun cell unused _ => ⟨away (not_mem_of_unused unused listed), unused_forget unused⟩
  · have ring := family.ring unlinked
    have away : ∀ {cell}, cell ≠ node → SameAt links (listDel poisoning links node) cell := by
      intro cell notNode
      have next : links.next node = node := ring.path.1
      have prev : links.prev node = node := ring.prev_nil
      exact same notNode (by rwa [next]) (by rwa [prev])
    refine ⟨family.change node ?_ ?_, ?_⟩
    · intro own ownListed
      exact absurd rfl (forget_some ownListed).1
    · intro other behind isOther otherListed
      obtain ⟨_, before, was, rfl⟩ := forget_some otherListed
      have apart : ∀ cell ∈ other :: before, cell ≠ node := fun cell inside isNode =>
        family.disjoint isOther unlinked was inside (isNode ▸ List.mem_cons_self)
      rw [List.erase_of_not_mem fun inside =>
        apart node (List.mem_cons_of_mem _ inside) rfl]
      refine ⟨was, fun cell inside => away (apart cell inside), ?_⟩
      intro own ownListed
      exact absurd rfl (forget_some ownListed).1
    · intro cell unused apart
      exact ⟨away (by simpa using apart), unused_forget unused⟩

/-- `list_del_init` makes the node an empty list besides. -/
theorem effect_listDelInit
    (family : Family links lists)
    (linkable : Linkable lists node) :
    Effect links (listDelInit poisoning links node) lists
      (Function.update (forget lists node) node (some [])) [node] := by
  have deleted : Effect links (listDel poisoning links node) lists (forget lists node) [node] :=
    effect_listDel family linkable
  exact (deleted.trans
    (effect_initListHead deleted.family (not_isEntry_forget family))).mono (by simp)

omit [DecidableEq Cell] in
/-- A list is there that a cell is the head of. -/
theorem entriesOf_eq {entries : List Cell} (listed : lists head = some entries) :
    entriesOf lists head = entries := by
  rw [entriesOf, listed, Option.getD_some]

/-- A list is empty when its head points to itself. -/
theorem listEmpty_iff
    {entries : List Cell}
    (ring : Ring links head entries) :
    listEmpty links head = true ↔ entries = [] := by
  rw [listEmpty, decide_eq_true_iff, ring.path.next_eq]
  cases entries with
  | nil => simp
  | cons first rest => simpa using ring.ne_head List.mem_cons_self

/-- `list_splice` puts the entries of a list before those of another one. -/
theorem effect_listSplice
    {list : Cell}
    {entries cells : List Cell}
    (family : Family links lists)
    (notHead : list ≠ head)
    (source : lists list = some cells)
    (listed : lists head = some entries) :
    Effect links (listSplice links list head) lists
      (joined lists list head fun cells entries => cells ++ entries) [list, head] := by
  have ring := family.ring listed
  have other := family.ring source
  have test := listEmpty_iff other
  rw [joined, entriesOf_eq source]
  by_cases empty : cells = []
  · rw [if_pos empty, listSplice, if_pos (test.mpr empty)]
    exact .refl family
  rw [if_neg empty, listSplice, if_neg (test.not.mpr empty)]
  have apart : ∀ cell ∈ list :: cells, cell ∉ head :: entries :=
    fun cell member => family.disjoint notHead listed source member
  have away :
      ∀ {cell}, cell ∉ head :: entries → cell ∉ list :: cells →
        SameAt links (splice links list head) cell := by
    intro cell notOwn notOther
    have ownHead : cell ≠ head := fun same => notOwn (same ▸ List.mem_cons_self)
    have ownFirst : cell ≠ links.next head :=
      fun same => notOwn (same ▸ (ring.closed List.mem_cons_self).2)
    have first : cell ≠ links.next list :=
      fun same => notOther (same ▸ (other.closed List.mem_cons_self).2)
    have last : cell ≠ links.prev list :=
      fun same => notOther (same ▸ (other.closed List.mem_cons_self).1)
    simp [SameAt, splice, connect, Links.setNext, Links.setPrev, ownHead, ownFirst, first, last]
  have here :
      edit (Function.update lists list none) head (cells ++ ·) head = some (cells ++ entries) := by
    rw [edit, Function.update_self, Function.update_of_ne notHead.symm, listed, Option.map_some]
  refine ⟨family.change head ?_ ?_, ?_⟩
  · intro own ownListed
    obtain rfl := Option.some.inj (here.symm.trans ownListed)
    exact ring_splice ring other empty apart
  · intro another behind isOther otherListed
    rw [edit, Function.update_of_ne isOther] at otherListed
    by_cases isList : another = list
    · rw [isList, Function.update_self] at otherListed
      cases otherListed
    rw [Function.update_of_ne isList] at otherListed
    have notOwn : ∀ cell ∈ another :: behind, cell ∉ head :: entries :=
      fun cell member => family.disjoint isOther listed otherListed member
    have notOther : ∀ cell ∈ another :: behind, cell ∉ list :: cells :=
      fun cell member => family.disjoint isList source otherListed member
    refine ⟨otherListed, fun cell member => away (notOwn cell member) (notOther cell member), ?_⟩
    intro own ownListed cell member
    obtain rfl := Option.some.inj (here.symm.trans ownListed)
    have first := notOwn cell member
    have second := notOther cell member
    simp only [List.mem_cons, List.mem_append, not_or] at first second ⊢
    exact ⟨first.1, second.2, first.2⟩
  · intro cell unused named
    have notOwn := not_mem_of_unused unused listed
    have notOther := not_mem_of_unused unused source
    simp only [List.mem_cons, List.not_mem_nil, or_false, not_or] at named
    refine ⟨away notOwn notOther, ?_⟩
    refine unused_update (unused_update unused named.1 (by simp)) named.2 ?_
    intro own ownListed
    rw [Function.update_of_ne notHead.symm, listed] at ownListed
    obtain rfl := Option.some.inj ownListed
    simp only [List.mem_cons, not_or] at notOwn notOther
    simp [notOwn.2, notOther.2]

omit [DecidableEq Cell] in
/-- The entries of a list, in the other direction. -/
theorem entriesOf_reversed : entriesOf lists.reversed head = (entriesOf lists head).reverse := by
  cases listed : lists head <;> simp [entriesOf, RingLists.reversed, listed]

/-- Joining two lists, in the other direction. -/
theorem reversed_joined {list : Cell} :
    (joined lists.reversed list head fun cells entries => cells ++ entries).reversed =
      joined lists list head fun cells entries => entries ++ cells := by
  rw [joined, joined, entriesOf_reversed]
  by_cases empty : entriesOf lists list = []
  · rw [if_pos empty, if_pos (by rw [empty]; rfl)]
    exact reversed_reversed
  · rw [if_neg empty, if_neg (by simpa using empty), reversed_edit]
    have dropped :
        RingLists.reversed (Function.update lists.reversed list none) =
          Function.update lists list none := by
      funext other
      by_cases isList : other = list
      · simp [RingLists.reversed, isList]
      · have back := congrFun (reversed_reversed : lists.reversed.reversed = lists) other
        rw [RingLists.reversed, Function.update_of_ne isList, Function.update_of_ne isList]
        exact back
    rw [dropped]
    simp

/-- `list_splice_tail` puts them behind the entries of the other one. -/
theorem effect_listSpliceTail
    {list : Cell}
    {entries cells : List Cell}
    (family : Family links lists)
    (notHead : list ≠ head)
    (source : lists list = some cells)
    (listed : lists head = some entries) :
    Effect links (listSpliceTail links list head) lists
      (joined lists list head fun cells entries => entries ++ cells) [list, head] := by
  have backwards : ∀ {cell some'}, lists cell = some some' →
      lists.reversed cell = some some'.reverse := by
    intro cell own isOwn
    rw [RingLists.reversed, isOwn, Option.map_some]
  have flipped : listSpliceTail links list head = (listSplice links.flip list head).flip := by
    have same : listEmpty links.flip list = listEmpty links list := by
      rw [Bool.eq_iff_iff, listEmpty_iff (family.ring source),
        listEmpty_iff (family.ring source).flip, List.reverse_eq_nil_iff]
    rw [listSpliceTail, listSplice, same]
    split <;> rfl
  rw [flipped]
  have spliced :=
    (effect_listSplice family.flip notHead (backwards source) (backwards listed)).flip
  rw [reversed_reversed, reversed_joined] at spliced
  exact spliced

omit [DecidableEq Cell] in
/-- The head of a list is an entry of none. -/
theorem not_isEntry_head
    {entries : List Cell}
    (family : Family links lists)
    (listed : lists head = some entries) :
    ¬ lists.IsEntry head := by
  rintro ⟨other, behind, alsoListed, member⟩
  obtain rfl := family.apart listed alsoListed List.mem_cons_self
    (List.mem_cons_of_mem other member)
  exact (List.nodup_cons.mp (family.ring alsoListed).nodup).1 member

/-- Joining two lists makes no cell an entry. -/
theorem isEntry_joined
    {list : Cell}
    {join : List Cell → List Cell → List Cell}
    (joins : ∀ {cells entries}, cell ∈ join cells entries → cell ∈ cells ∨ cell ∈ entries)
    (isEntry : (joined lists list head join).IsEntry cell) :
    lists.IsEntry cell := by
  obtain ⟨other, entries, listed, member⟩ := isEntry
  rw [joined] at listed
  by_cases empty : entriesOf lists list = []
  · rw [if_pos empty] at listed
    exact ⟨other, entries, listed, member⟩
  rw [if_neg empty, edit] at listed
  have ofUpdated :
      ∀ {another behind}, Function.update lists list none another = some behind →
        lists another = some behind := by
    intro another behind was
    by_cases isList : another = list
    · rw [isList, Function.update_self] at was
      cases was
    · rwa [Function.update_of_ne isList] at was
  by_cases isHead : other = head
  · rw [isHead, Function.update_self] at listed
    obtain ⟨own, was, rfl⟩ := Option.map_eq_some_iff.mp listed
    rcases joins member with moved | kept
    · cases source : lists list with
      | none => simp [entriesOf, source] at moved
      | some cells =>
          rw [entriesOf_eq source] at moved
          exact ⟨list, cells, source, moved⟩
    · exact ⟨head, own, ofUpdated was, kept⟩
  · rw [Function.update_of_ne isHead] at listed
    exact ⟨other, entries, ofUpdated listed, member⟩

/-- `list_splice_init` and `list_splice_tail_init` leave an empty list behind. -/
theorem effect_spliceInit
    {list : Cell}
    {cells : List Cell}
    {join : List Cell → List Cell → List Cell}
    (joins : ∀ {cell cells entries}, cell ∈ join cells entries → cell ∈ cells ∨ cell ∈ entries)
    (family : Family links lists)
    (source : lists list = some cells)
    (spliced : Effect links changed lists (joined lists list head join) [list, head]) :
    Effect links (initListHead changed list) lists
      (Function.update (joined lists list head join) list (some [])) [list, head] := by
  have outside : ¬ (joined lists list head join).IsEntry list :=
    fun isEntry => not_isEntry_head family source (isEntry_joined joins isEntry)
  exact (spliced.trans (effect_initListHead spliced.family outside)).mono (by simp)

/-- `list_cut_position` where the node is an entry. -/
theorem listCutPosition_eq
    {headTo headFrom : Cell}
    (filled : ¬ listEmpty links headFrom = true)
    (isEntry : headFrom ≠ node) :
    listCutPosition links headTo headFrom node = cut links headTo headFrom node := by
  simp only [listCutPosition, if_neg filled, if_neg isEntry]
  simp [cut, connect, Links.setNext, Links.setPrev]

/-- The position of an entry divides the entries in front of it from those behind it. -/
theorem divide_at
    {front : List Cell}
    (notFront : node ∉ front)
    (back : List Cell) :
    (front ++ node :: back).take ((front ++ node :: back).idxOf node + 1) = front ++ [node] ∧
      (front ++ node :: back).drop ((front ++ node :: back).idxOf node + 1) = back := by
  rw [List.idxOf_append_of_notMem notFront, List.idxOf_cons_self, Nat.add_zero]
  have whole : front ++ node :: back = (front ++ [node]) ++ back := by simp
  have size : front.length + 1 = (front ++ [node]).length := by simp
  rw [whole, size]
  exact ⟨List.take_left, List.drop_left⟩

/-- A cut writes to the two heads, to the node and to its neighbours. -/
theorem sameAt_cut
    {headTo headFrom : Cell}
    {entries : List Cell}
    (ring : Ring links headFrom entries)
    (member : node ∈ entries)
    (notTo : cell ≠ headTo)
    (notOwn : cell ∉ headFrom :: entries) :
    SameAt links (cut links headTo headFrom node) cell := by
  have notFrom : cell ≠ headFrom := fun same => notOwn (same ▸ List.mem_cons_self)
  have notNode : cell ≠ node := fun same => notOwn (same ▸ List.mem_cons_of_mem _ member)
  have notFirst : cell ≠ links.next headFrom :=
    fun same => notOwn (same ▸ (ring.closed List.mem_cons_self).2)
  have notNext : cell ≠ links.next node :=
    fun same => notOwn (same ▸ (ring.neighbours member).2)
  simp [SameAt, cut, connect, Links.setNext, Links.setPrev, notTo, notFrom, notNode, notFirst,
    notNext]

omit [DecidableEq Cell] in
/-- A free head is none of the cells of a list with another head. -/
theorem not_mem_of_outside
    {headTo headFrom : Cell}
    {entries : List Cell}
    (headsDiffer : headTo ≠ headFrom)
    (outside : ¬ lists.IsEntry headTo)
    (listed : lists headFrom = some entries) :
    headTo ∉ headFrom :: entries := by
  rw [List.mem_cons, not_or]
  exact ⟨headsDiffer, fun inside => outside ⟨headFrom, entries, listed, inside⟩⟩

omit [DecidableEq Cell] in
/-- The part behind a node has none of the cells up to it. -/
theorem behind_apart
    {head : Cell}
    {front back : List Cell}
    (distinct : (head :: (front ++ node :: back)).Nodup)
    (inside : cell ∈ head :: back) :
    cell ∉ front ++ [node] := by
  simp only [List.nodup_cons, List.nodup_append, List.mem_append, List.mem_cons, not_or]
    at distinct
  rw [List.mem_append, List.mem_singleton, not_or]
  rcases List.mem_cons.mp inside with rfl | inBack
  · exact ⟨distinct.1.1, distinct.1.2.1⟩
  · refine ⟨fun inFront => distinct.2.2.2 cell inFront cell (Or.inr inBack) rfl, ?_⟩
    rintro rfl
    exact distinct.2.2.1.1 inBack

/-- The list that is cut keeps its back part, and the other head has lost its entries. -/
theorem family_shortened
    {headTo headFrom : Cell}
    {front back : List Cell}
    (family : Family links lists)
    (headsDiffer : headTo ≠ headFrom)
    (outside : ¬ lists.IsEntry headTo)
    (listed : lists headFrom = some (front ++ node :: back)) :
    Family (cut links headTo headFrom node)
      (Function.update (Function.update lists headTo none) headFrom (some back)) := by
  have ring := family.ring listed
  have toOutside := not_mem_of_outside headsDiffer outside listed
  refine family.change headFrom ?_ ?_
  · intro own ownListed
    rw [Function.update_self] at ownListed
    obtain rfl := Option.some.inj ownListed
    exact (ring_cut ring toOutside).2
  · intro other others isOther otherListed
    rw [Function.update_of_ne isOther] at otherListed
    by_cases isTo : other = headTo
    · rw [isTo, Function.update_self] at otherListed
      cases otherListed
    rw [Function.update_of_ne isTo] at otherListed
    have apart : ∀ cell ∈ other :: others, cell ∉ headFrom :: (front ++ node :: back) :=
      fun cell inside => family.disjoint isOther listed otherListed inside
    refine ⟨otherListed, fun cell inside =>
      sameAt_cut ring (by simp) (ne_of_outside outside isTo otherListed inside)
        (apart cell inside), ?_⟩
    intro own ownListed cell inside
    rw [Function.update_self] at ownListed
    obtain rfl := Option.some.inj ownListed
    have notOwn := apart cell inside
    simp only [List.mem_cons, List.mem_append, not_or] at notOwn ⊢
    exact ⟨notOwn.1, notOwn.2.2.2⟩

/-- No other list has cells of the part up to the node, or the head that it gets. -/
theorem moved_apart
    {headTo headFrom other : Cell}
    {front back entries : List Cell}
    (family : Family links lists)
    (headsDiffer : headTo ≠ headFrom)
    (outside : ¬ lists.IsEntry headTo)
    (listed : lists headFrom = some (front ++ node :: back))
    (isOther : other ≠ headTo)
    (otherListed : Function.update lists headFrom (some back) other = some entries)
    (inside : cell ∈ other :: entries) :
    cell ∉ headTo :: (front ++ [node]) := by
  rw [List.mem_cons, not_or]
  by_cases isOwn : other = headFrom
  · rw [isOwn, Function.update_self] at otherListed
    obtain rfl := Option.some.inj otherListed
    rw [isOwn] at inside
    refine ⟨?_, behind_apart (family.ring listed).nodup inside⟩
    rintro rfl
    have toOutside := not_mem_of_outside headsDiffer outside listed
    simp only [List.mem_cons, List.mem_append, not_or] at toOutside inside
    rcases inside with same | inBack
    · exact toOutside.1 same
    · exact toOutside.2.2.2 inBack
  · rw [Function.update_of_ne isOwn] at otherListed
    have notOwn := family.disjoint isOwn listed otherListed inside
    simp only [List.mem_cons, List.mem_append, not_or] at notOwn
    exact ⟨ne_of_outside outside isOther otherListed inside,
      by simp [notOwn.2.1, notOwn.2.2.1]⟩

/-- A cut divides a list in two, and the first part belongs to the other head. -/
theorem family_cut
    {headTo headFrom : Cell}
    {front back : List Cell}
    (family : Family links lists)
    (headsDiffer : headTo ≠ headFrom)
    (outside : ¬ lists.IsEntry headTo)
    (listed : lists headFrom = some (front ++ node :: back)) :
    Family (cut links headTo headFrom node)
      (Function.update (Function.update lists headFrom (some back)) headTo
        (some (front ++ [node]))) := by
  have toOutside := not_mem_of_outside headsDiffer outside listed
  refine (family_shortened family headsDiffer outside listed).change headTo ?_ ?_
  · intro own ownListed
    rw [Function.update_self] at ownListed
    obtain rfl := Option.some.inj ownListed
    exact (ring_cut (family.ring listed) toOutside).1
  · intro other others isOther otherListed
    rw [Function.update_of_ne isOther] at otherListed
    refine ⟨?_, fun _ _ => ⟨rfl, rfl⟩, ?_⟩
    · by_cases isOwn : other = headFrom
      · rw [isOwn, Function.update_self] at otherListed ⊢
        exact otherListed
      · rw [Function.update_of_ne isOwn] at otherListed ⊢
        rwa [Function.update_of_ne isOther]
    · intro own ownListed cell inside
      rw [Function.update_self] at ownListed
      obtain rfl := Option.some.inj ownListed
      exact moved_apart family headsDiffer outside listed isOther otherListed inside

/-- What a cut does to the lists. -/
theorem effect_cut
    {headTo headFrom : Cell}
    {front back : List Cell}
    (family : Family links lists)
    (headsDiffer : headTo ≠ headFrom)
    (outside : ¬ lists.IsEntry headTo)
    (listed : lists headFrom = some (front ++ node :: back)) :
    Effect links (cut links headTo headFrom node) lists
      (Function.update (Function.update lists headFrom (some back)) headTo
        (some (front ++ [node])))
      [headTo, headFrom, node] where
  family := family_cut family headsDiffer outside listed
  frame := by
    intro cell unused named
    have notOwn := not_mem_of_unused unused listed
    simp only [List.mem_cons, List.not_mem_nil, or_false, not_or] at named
    refine ⟨sameAt_cut (family.ring listed) (by simp) named.1 notOwn, ?_⟩
    simp only [List.mem_cons, List.mem_append, not_or] at notOwn
    refine unused_update (unused_update unused named.2.1 ?_) named.1 ?_
    · rintro entries same
      obtain rfl := Option.some.inj same
      exact notOwn.2.2.2
    · rintro entries same
      obtain rfl := Option.some.inj same
      simp [notOwn.2.1, named.2.2]

/-- `list_cut_position` moves the entries up to a node to another head. -/
theorem effect_listCutPosition
    {headTo headFrom : Cell}
    {entries : List Cell}
    (family : Family links lists)
    (headsDiffer : headTo ≠ headFrom)
    (outside : ¬ lists.IsEntry headTo)
    (listed : lists headFrom = some entries)
    (isCell : entries = [] ∨ node ∈ headFrom :: entries) :
    Effect links (listCutPosition links headTo headFrom node) lists
      (divided lists headTo headFrom node) [headTo, headFrom, node] := by
  have ring := family.ring listed
  have test := listEmpty_iff ring
  rw [divided, entriesOf_eq listed]
  by_cases empty : entries = []
  · simp only [if_pos empty, listCutPosition, if_pos (test.mpr empty)]
    exact .refl family
  by_cases isFrom : headFrom = node
  · simp only [if_neg empty, listCutPosition, if_neg (test.not.mpr empty), if_pos isFrom]
    exact (effect_initListHead family outside).mono (by simp)
  simp only [if_neg empty, if_neg isFrom, listCutPosition_eq (test.not.mpr empty) isFrom]
  have member : node ∈ entries :=
    List.mem_of_ne_of_mem (Ne.symm isFrom) (isCell.resolve_left empty)
  have distinct := (List.nodup_cons.mp ring.nodup).2
  obtain ⟨front, back, rfl⟩ := List.append_of_mem member
  have notFront : node ∉ front := fun before =>
    (List.nodup_append.mp distinct).2.2 node before node (by simp) rfl
  obtain ⟨upTo, behind⟩ := divide_at notFront back
  rw [upTo, behind]
  exact effect_cut family headsDiffer outside listed

/-- Forgetting a node and adding it to a list is moving it. -/
theorem effect_listMove
    {entries : List Cell}
    (family : Family links lists)
    (linkable : Linkable lists node)
    (notHead : node ≠ head)
    (listed : lists head = some entries) :
    Effect links (listMove poisoning links node head) lists
        (edit (forget lists node) head ([node] ++ ·)) [node, head] ∧
      Effect links (listMoveTail poisoning links node head) lists
        (edit (forget lists node) head (· ++ [node])) [node, head] := by
  have deleted : Effect links (listDel poisoning links node) lists (forget lists node) [node] :=
    effect_listDel family linkable
  have outside : ¬ (forget lists node).IsEntry node := not_isEntry_forget family
  have again : forget (forget lists node) node = forget lists node := by
    rw [forget_of_outside outside, Function.update_eq_self_iff, forget, if_pos rfl]
  have stillListed : forget lists node head = some (entries.erase node) := by
    rw [forget, if_neg notHead.symm, listed, Option.map_some]
  have added := effect_listAdd deleted.family outside notHead stillListed
  have addedTail := effect_listAddTail deleted.family outside notHead stillListed
  rw [again] at added addedTail
  exact ⟨(deleted.trans added).mono (by simp), (deleted.trans addedTail).mono (by simp)⟩

/-- Writing to a cell of no list changes nothing else. -/
theorem effect_write
    {prev next : Cell}
    (family : Family links lists)
    (free : lists.Unused cell) :
    Effect links ((links.setPrev cell prev).setNext cell next) lists lists [cell] := by
  have same :
      ∀ {other}, other ≠ cell →
        SameAt links ((links.setPrev cell prev).setNext cell next) other :=
    fun notCell => ⟨Function.update_of_ne notCell _ _, Function.update_of_ne notCell _ _⟩
  refine ⟨family.change cell ?_ ?_, ?_⟩
  · intro entries listed
    exact absurd List.mem_cons_self (not_mem_of_unused free listed)
  · intro other entries notCell listed
    refine ⟨listed, fun cell member => same ?_, ?_⟩
    · rintro rfl
      exact not_mem_of_unused free listed member
    · intro own ownListed
      exact absurd List.mem_cons_self (not_mem_of_unused free ownListed)
  · intro other unused apart
    exact ⟨same (by simpa using apart), unused⟩

/-! ## Every call -/

variable {call : Call Cell}

/-- Every call that may be made has the effect it is described by. -/
theorem effect_call
    (family : Family links lists)
    (callable : Callable lists call) :
    Effect links (call.perform poisoning links) lists (described lists call) call.names := by
  cases call with
  | initListHead head => exact effect_initListHead family callable
  | listAdd node head =>
      obtain ⟨outside, notHead, isHead⟩ := callable
      obtain ⟨entries, listed⟩ := Option.isSome_iff_exists.mp isHead
      exact effect_listAdd family outside notHead listed
  | listAddTail node head =>
      obtain ⟨outside, notHead, isHead⟩ := callable
      obtain ⟨entries, listed⟩ := Option.isSome_iff_exists.mp isHead
      exact effect_listAddTail family outside notHead listed
  | listDel node => exact effect_listDel family callable
  | listDelInit node => exact effect_listDelInit family callable
  | listEmpty _ | listIsSingular _ | listFirstEntry _ | listLastEntry _ => exact .refl family
  | listSplice list head =>
      obtain ⟨notHead, isList, isHead⟩ := callable
      obtain ⟨cells, source⟩ := Option.isSome_iff_exists.mp isList
      obtain ⟨entries, listed⟩ := Option.isSome_iff_exists.mp isHead
      exact effect_listSplice family notHead source listed
  | listSpliceTail list head =>
      obtain ⟨notHead, isList, isHead⟩ := callable
      obtain ⟨cells, source⟩ := Option.isSome_iff_exists.mp isList
      obtain ⟨entries, listed⟩ := Option.isSome_iff_exists.mp isHead
      exact effect_listSpliceTail family notHead source listed
  | listSpliceInit list head =>
      obtain ⟨notHead, isList, isHead⟩ := callable
      obtain ⟨cells, source⟩ := Option.isSome_iff_exists.mp isList
      obtain ⟨entries, listed⟩ := Option.isSome_iff_exists.mp isHead
      exact effect_spliceInit List.mem_append.mp family source
        (effect_listSplice family notHead source listed)
  | listSpliceTailInit list head =>
      obtain ⟨notHead, isList, isHead⟩ := callable
      obtain ⟨cells, source⟩ := Option.isSome_iff_exists.mp isList
      obtain ⟨entries, listed⟩ := Option.isSome_iff_exists.mp isHead
      exact effect_spliceInit (fun member => (List.mem_append.mp member).symm) family source
        (effect_listSpliceTail family notHead source listed)
  | listCutPosition headTo headFrom node =>
      obtain ⟨headsDiffer, outside, isHead, isCell⟩ := callable
      obtain ⟨entries, listed⟩ := Option.isSome_iff_exists.mp isHead
      rw [entriesOf_eq listed] at isCell
      exact effect_listCutPosition family headsDiffer outside listed isCell
  | listMove node head =>
      obtain ⟨linkable, notHead, isHead⟩ := callable
      obtain ⟨entries, listed⟩ := Option.isSome_iff_exists.mp isHead
      exact (effect_listMove family linkable notHead listed).1
  | listMoveTail node head =>
      obtain ⟨linkable, notHead, isHead⟩ := callable
      obtain ⟨entries, listed⟩ := Option.isSome_iff_exists.mp isHead
      exact (effect_listMove family linkable notHead listed).2
  | write cell prev next => exact effect_write family callable

omit [DecidableEq Cell] in
/-- The link back from the head leads to the last entry. -/
theorem prev_head
    {entries : List Cell}
    (ring : Ring links head entries) :
    links.prev head = entries.getLastD head := by
  have flipped := ring.flip.path.next_eq
  have last : entries.reverse.headD head = entries.getLastD head := by
    rw [List.headD_eq_head?_getD, List.head?_reverse, List.getLastD_eq_getLast?]
  exact flipped.trans last

/-- A list has one entry when its head has one neighbour that is not itself. -/
theorem listIsSingular_eq
    {entries : List Cell}
    (ring : Ring links head entries) :
    listIsSingular links head = decide (entries.length = 1) := by
  have empty := listEmpty_iff ring
  rw [Bool.eq_iff_iff, decide_eq_true_iff, listIsSingular, Bool.and_eq_true, Bool.not_eq_true',
    ← Bool.not_eq_true, empty, decide_eq_true_iff, prev_head ring, ring.path.next_eq]
  have distinct := (List.nodup_cons.mp ring.nodup).2
  match entries with
  | [] => simp
  | [only] => simp
  | first :: second :: rest =>
      have different : (first :: second :: rest).getLastD head ≠ first := by
        intro same
        refine (List.nodup_cons.mp distinct).1 (same ▸ ?_)
        rw [List.getLastD_cons, List.getLastD_cons]
        exact List.getLastD_mem_cons
      simpa using different

/-- Every call that may be made returns what is expected. -/
theorem answer_call
    (family : Family links lists)
    (callable : Callable lists call) :
    call.answer links = expected lists call := by
  have listedOf : ∀ {head}, IsHead lists head → Ring links head (entriesOf lists head) := by
    intro head isHead
    obtain ⟨entries, listed⟩ := Option.isSome_iff_exists.mp isHead
    rw [entriesOf_eq listed]
    exact family.ring listed
  cases call with
  | listEmpty head =>
      have ring := listedOf callable
      simp only [Call.answer, expected, Answer.truth.injEq]
      rw [Bool.eq_iff_iff, decide_eq_true_iff]
      exact listEmpty_iff ring
  | listIsSingular head =>
      exact congrArg Answer.truth (listIsSingular_eq (listedOf callable))
  | listFirstEntry head => exact congrArg Answer.node (listedOf callable).path.next_eq
  | listLastEntry head => exact congrArg Answer.node (prev_head (listedOf callable))
  | _ => rfl

end Sysprog.ListHead
