import Sysprog.Execution
import Sysprog.FuelLoop
import Sysprog.RingFamilies

namespace Sysprog.ListHead

open CircularList Execution FuelLoop RingFamilies

/-!
# The lists of `proxy/list.h` and `user-level-thread/list.h`

The two files are the same.  A `struct list_head` is a cell with two links; `links` is what
all cells hold.  The entry around a node is found by subtracting an offset, so the macros
that speak about entries are those that speak about nodes.

Beside the calls, a program may write to the memory of a cell that belongs to no list, as it
does when an entry has been freed or is about to be allocated.
-/

variable {Cell : Type} [DecidableEq Cell]

/-! ## The functions -/

/-- `INIT_LIST_HEAD`. -/
def initListHead (links : Links Cell) (head : Cell) : Links Cell :=
  (links.setNext head head).setPrev head head

/-- `list_add`. -/
def listAdd (links : Links Cell) (node head : Cell) : Links Cell :=
  let next := links.next head
  let links := links.setPrev next node
  let links := links.setNext node next
  let links := links.setPrev node head
  links.setNext head node

/-- `list_add_tail`. -/
def listAddTail (links : Links Cell) (node head : Cell) : Links Cell :=
  let prev := links.prev head
  let links := links.setNext prev node
  let links := links.setNext node head
  let links := links.setPrev node prev
  links.setPrev head node

/-- The links that `list_del` leaves in a node when `LIST_POISONING` is defined. -/
abbrev Poisoning (Cell : Type) : Type :=
  Option (Cell × Cell)

/-- `list_del`. -/
def listDel (poisoning : Poisoning Cell) (links : Links Cell) (node : Cell) : Links Cell :=
  let next := links.next node
  let prev := links.prev node
  let links := links.setPrev next prev
  let links := links.setNext prev next
  match poisoning with
  | none => links
  | some (prev, next) => (links.setPrev node prev).setNext node next

/-- `list_del_init`. -/
def listDelInit (poisoning : Poisoning Cell) (links : Links Cell) (node : Cell) : Links Cell :=
  initListHead (listDel poisoning links node) node

/-- `list_empty`. -/
def listEmpty (links : Links Cell) (head : Cell) : Bool :=
  links.next head = head

/-- `list_is_singular`. -/
def listIsSingular (links : Links Cell) (head : Cell) : Bool :=
  !listEmpty links head && links.prev head = links.next head

/-- `list_splice`. -/
def listSplice (links : Links Cell) (list head : Cell) : Links Cell :=
  let headFirst := links.next head
  let listFirst := links.next list
  let listLast := links.prev list
  if listEmpty links list then
    links
  else
    let links := links.setNext head listFirst
    let links := links.setPrev listFirst head
    let links := links.setNext listLast headFirst
    links.setPrev headFirst listLast

/-- `list_splice_tail`. -/
def listSpliceTail (links : Links Cell) (list head : Cell) : Links Cell :=
  let headLast := links.prev head
  let listFirst := links.next list
  let listLast := links.prev list
  if listEmpty links list then
    links
  else
    let links := links.setPrev head listLast
    let links := links.setNext listLast head
    let links := links.setPrev listFirst headLast
    links.setNext headLast listFirst

/-- `list_splice_init`. -/
def listSpliceInit (links : Links Cell) (list head : Cell) : Links Cell :=
  initListHead (listSplice links list head) list

/-- `list_splice_tail_init`. -/
def listSpliceTailInit (links : Links Cell) (list head : Cell) : Links Cell :=
  initListHead (listSpliceTail links list head) list

/-- `list_cut_position`. -/
def listCutPosition (links : Links Cell) (headTo headFrom node : Cell) : Links Cell :=
  let headFromFirst := links.next headFrom
  if listEmpty links headFrom then
    links
  else if headFrom = node then
    initListHead links headTo
  else
    let links := links.setNext headFrom (links.next node)
    let links := links.setPrev (links.next headFrom) headFrom
    let links := links.setPrev headTo node
    let links := links.setNext node headTo
    let links := links.setNext headTo headFromFirst
    links.setPrev (links.next headTo) headTo

/-- `list_move`. -/
def listMove (poisoning : Poisoning Cell) (links : Links Cell) (node head : Cell) : Links Cell :=
  listAdd (listDel poisoning links node) node head

/-- `list_move_tail`. -/
def listMoveTail (poisoning : Poisoning Cell) (links : Links Cell) (node head : Cell) :
    Links Cell :=
  listAddTail (listDel poisoning links node) node head

/-- `list_first_entry`. -/
def listFirstEntry (links : Links Cell) (head : Cell) : Cell :=
  links.next head

/-- `list_last_entry`. -/
def listLastEntry (links : Links Cell) (head : Cell) : Cell :=
  links.prev head

/-! ## The loops -/

/-- The iterator of `list_for_each` and the nodes it has been at. -/
structure Walk (Cell : Type) where
  node : Cell
  visited : List Cell

/-- One round of `list_for_each`, with a body that only looks at the node. -/
def forEachRound (links : Links Cell) (head : Cell) (walk : Walk Cell) :
    Round (Walk Cell) (List Cell) :=
  if walk.node = head then
    .leave walk.visited
  else
    .again { node := links.next walk.node, visited := walk.visited ++ [walk.node] }

/-- `list_for_each` and `list_for_each_entry`: the nodes that the body is run at. -/
def listForEach (fuel : Nat) (links : Links Cell) (head : Cell) : Option (List Cell) :=
  loop (forEachRound links head) fuel { node := links.next head, visited := [] }

/-! ## Calls -/

/-- A call outside the loops, or a write to the memory of a cell. -/
inductive Call (Cell : Type) where
  | initListHead (head : Cell)
  | listAdd (node head : Cell)
  | listAddTail (node head : Cell)
  | listDel (node : Cell)
  | listDelInit (node : Cell)
  | listEmpty (head : Cell)
  | listIsSingular (head : Cell)
  | listSplice (list head : Cell)
  | listSpliceTail (list head : Cell)
  | listSpliceInit (list head : Cell)
  | listSpliceTailInit (list head : Cell)
  | listCutPosition (headTo headFrom node : Cell)
  | listMove (node head : Cell)
  | listMoveTail (node head : Cell)
  | listFirstEntry (head : Cell)
  | listLastEntry (head : Cell)
  | write (cell prev next : Cell)

/-- What a call or a loop tells. -/
inductive Answer (Cell : Type) where
  | nothing
  | truth (value : Bool)
  | node (cell : Cell)
  | nodes (visited : List Cell)

/-- The links after a call. -/
def Call.perform (poisoning : Poisoning Cell) (links : Links Cell) : Call Cell → Links Cell
  | .initListHead head => ListHead.initListHead links head
  | .listAdd node head => ListHead.listAdd links node head
  | .listAddTail node head => ListHead.listAddTail links node head
  | .listDel node => ListHead.listDel poisoning links node
  | .listDelInit node => ListHead.listDelInit poisoning links node
  | .listSplice list head => ListHead.listSplice links list head
  | .listSpliceTail list head => ListHead.listSpliceTail links list head
  | .listSpliceInit list head => ListHead.listSpliceInit links list head
  | .listSpliceTailInit list head => ListHead.listSpliceTailInit links list head
  | .listCutPosition headTo headFrom node =>
      ListHead.listCutPosition links headTo headFrom node
  | .listMove node head => ListHead.listMove poisoning links node head
  | .listMoveTail node head => ListHead.listMoveTail poisoning links node head
  | .write cell prev next => (links.setPrev cell prev).setNext cell next
  | .listEmpty _ | .listIsSingular _ | .listFirstEntry _ | .listLastEntry _ => links

/-- The value that a call returns. -/
def Call.answer (links : Links Cell) : Call Cell → Answer Cell
  | .listEmpty head => .truth (ListHead.listEmpty links head)
  | .listIsSingular head => .truth (ListHead.listIsSingular links head)
  | .listFirstEntry head => .node (ListHead.listFirstEntry links head)
  | .listLastEntry head => .node (ListHead.listLastEntry links head)
  | _ => .nothing

/-- Several calls one after the other. -/
def performAll (poisoning : Poisoning Cell) (links : Links Cell) (calls : List (Call Cell)) :
    Links Cell :=
  calls.foldl (Call.perform poisoning) links

/-- The variables of `list_for_each_safe`, and the nodes it has been at. -/
structure SafeWalk (Cell : Type) where
  links : Links Cell
  node : Cell
  safe : Cell
  visited : List Cell

/-- One round of `list_for_each_safe`; the body makes calls that depend on the node. -/
def forEachSafeRound
    (poisoning : Poisoning Cell)
    (head : Cell)
    (body : Cell → List (Call Cell))
    (walk : SafeWalk Cell) : Round (SafeWalk Cell) (List Cell × Links Cell) :=
  if walk.node = head then
    .leave (walk.visited, walk.links)
  else
    let links := performAll poisoning walk.links (body walk.node)
    .again
      { links := links
        node := walk.safe
        safe := links.next walk.safe
        visited := walk.visited ++ [walk.node] }

/-- `list_for_each_safe` and `list_for_each_entry_safe`. -/
def listForEachSafe
    (poisoning : Poisoning Cell)
    (fuel : Nat)
    (links : Links Cell)
    (head : Cell)
    (body : Cell → List (Call Cell)) : Option (List Cell × Links Cell) :=
  let node := links.next head
  loop (forEachSafeRound poisoning head body) fuel
    { links := links, node := node, safe := links.next node, visited := [] }

/-- What a program does with its lists: a call, or a loop. -/
inductive Statement (Cell : Type) where
  | single (call : Call Cell)
  | forEach (head : Cell)
  | forEachSafe (head : Cell) (body : Cell → List (Call Cell))

/-- The answer of a statement and the links after it. -/
def Statement.execute
    (poisoning : Poisoning Cell)
    (fuel : Nat)
    (links : Links Cell) : Statement Cell → Option (Answer Cell × Links Cell)
  | .single call => some (call.answer links, call.perform poisoning links)
  | .forEach head => (listForEach fuel links head).map fun visited => (.nodes visited, links)
  | .forEachSafe head body =>
      (listForEachSafe poisoning fuel links head body).map fun result =>
        (.nodes result.1, result.2)

end Sysprog.ListHead
