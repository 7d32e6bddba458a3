import Sysprog.CircularList
import Sysprog.ProxyInvariant

namespace Sysprog.Proxy.Connections

open CircularList Execution

/-!
# Connections of the forwarder in memory

Below the model of the main loop: `expire_list` with its pointers, the counter
`num_events` beside the descriptors that epoll really watches, and `newconn` with what
`malloc` leaves in a new `struct conn` and with both of its failures.  The calls the main
loop makes are shown to carry out what the model above says, and the two models of
`newconn` to agree where the memory is zero.
-/

/-- Where a pointer to a `struct list_head` may lead. -/
inductive Cell where
  | head
  | node (conn : Nat)
  /-- A null pointer, or memory in which there is no list. -/
  | elsewhere
deriving DecidableEq

/-- What the number of a descriptor may stand for. -/
inductive Descriptor where
  | epoll
  | listening
  | socket (conn : Nat)
  /-- An end of a pipe, or anything else that epoll does not watch. -/
  | other
deriving DecidableEq

/-- What `malloc` left in `expire_node` and `buf.pipe`. -/
structure Leftover where
  prev : Cell
  next : Cell
  pipe : Descriptor × Descriptor

/-- Memory that is zero: both pointers are null. -/
def Leftover.zero : Leftover where
  prev := .elsewhere
  next := .elsewhere
  pipe := (.other, .other)

/--
What the functions below work on.  Every connection has a number of its own, also where
its memory is used again; `registered` is a record of what `epoll_ctl` and `close` do.
-/
structure Forwarder where
  links : Links Cell
  live : Nat → Bool
  pipe : Nat → Descriptor × Descriptor
  numEvents : Int
  maxEvents : Int
  registered : List Descriptor
  allocated : Nat

/-- `MIN_EVENTS`. -/
def minEvents : Int := 32

namespace Forwarder

/-- Behind `listen_socket`. -/
def initial : Forwarder where
  links := Links.init ⟨fun _ => .elsewhere, fun _ => .elsewhere⟩ .head
  live := fun _ => false
  pipe := fun _ => (.other, .other)
  numEvents := 1
  maxEvents := minEvents
  registered := [.listening]
  allocated := 0

/-- The pointer can be followed. -/
def inMemory (forwarder : Forwarder) : Cell → Bool
  | .head => true
  | .node id => forwarder.live id
  | .elsewhere => false

/-- `NEW(conn)`. -/
def malloc (forwarder : Forwarder) (left : Leftover) : Forwarder :=
  let id := forwarder.allocated
  { forwarder with
    links := (forwarder.links.setPrev (.node id) left.prev).setNext (.node id) left.next
    live := Function.update forwarder.live id true
    pipe := Function.update forwarder.pipe id left.pipe
    allocated := id + 1 }

/-- `close`, which ends what epoll watches of the descriptor. -/
def close (forwarder : Forwarder) (fd : Descriptor) : Forwarder :=
  { forwarder with
    registered := if fd = .epoll then [] else forwarder.registered.erase fd }

end Forwarder

/-- `epoll_add`: whether `epoll_ctl` succeeds, and what it leaves. -/
def epollAdd (forwarder : Forwarder) (fd : Descriptor) (answer : Bool) : Bool × Forwarder :=
  let numEvents := forwarder.numEvents + 1
  let maxEvents :=
    if numEvents ≥ forwarder.maxEvents then
      max (forwarder.maxEvents * 2) minEvents
    else
      forwarder.maxEvents
  let registered := if answer then fd :: forwarder.registered else forwarder.registered
  (answer,
    { forwarder with numEvents := numEvents, maxEvents := maxEvents, registered := registered })

/-- `epoll_del`, with its assertion; nobody looks at what `epoll_ctl` answers. -/
def epollDel (forwarder : Forwarder) (fd : Descriptor) : Option Forwarder :=
  let numEvents := forwarder.numEvents - 1
  if numEvents ≥ 0 then
    some { forwarder with numEvents := numEvents, registered := forwarder.registered.erase fd }
  else
    none

/-- `newbuffer`: whether `pipe2` succeeds, and what it leaves. -/
def newbuffer (forwarder : Forwarder) (id : Nat) (answer : Bool) : Bool × Forwarder :=
  if answer then
    (true, { forwarder with pipe := Function.update forwarder.pipe id (.other, .other) })
  else
    (false, forwarder)

/-- `delbuffer`. -/
def delbuffer (forwarder : Forwarder) (id : Nat) : Forwarder :=
  (forwarder.close (forwarder.pipe id).1).close (forwarder.pipe id).2

/-- `list_del`. -/
def listDel (forwarder : Forwarder) (node : Cell) : Option Forwarder :=
  if forwarder.inMemory (forwarder.links.next node) ∧
      forwarder.inMemory (forwarder.links.prev node) then
    some { forwarder with links := forwarder.links.remove node }
  else
    none

/-- `list_add_tail` to `expire_list`. -/
def listAddTail (forwarder : Forwarder) (node : Cell) : Option Forwarder :=
  let prev := forwarder.links.prev .head
  if forwarder.inMemory prev then
    let links := forwarder.links.setNext prev node
    let links := links.setNext node .head
    let links := links.setPrev node prev
    some { forwarder with links := links.setPrev .head node }
  else
    none

/-- `delconn`. -/
def delconn (forwarder : Forwarder) (id : Nat) : Option Forwarder :=
  if forwarder.live id then do
    let forwarder ← listDel forwarder (.node id)
    let forwarder := delbuffer forwarder id
    let forwarder ← epollDel forwarder (.socket id)
    let forwarder := forwarder.close (.socket id)
    return { forwarder with live := Function.update forwarder.live id false }
  else
    none

/-- `newconn`; the result is null if `pipe2` or `epoll_ctl` fails. -/
def newconn (forwarder : Forwarder) (left : Leftover) (setup : Setup) :
    Option (Option Nat × Forwarder) := do
  let conn := forwarder.allocated
  let (piped, forwarder) := newbuffer (forwarder.malloc left) conn setup.piped
  if piped then
    let (added, forwarder) := epollAdd forwarder (.socket conn) setup.registered
    if added then
      let forwarder ← listAddTail forwarder (.node conn)
      return (some conn, forwarder)
    else
      let forwarder ← delconn forwarder conn
      return (none, forwarder)
  else
    let forwarder ← delconn forwarder conn
    return (none, forwarder)

/-- `touch_conn`, apart from the time. -/
def touchConn (forwarder : Forwarder) (id : Nat) : Option Forwarder :=
  if forwarder.live id then do
    let forwarder ← listDel forwarder (.node id)
    listAddTail forwarder (.node id)
  else
    none

/-! ## Runs of calls -/

/-- A call from the main loop. -/
inductive Call where
  | newconn (left : Leftover) (setup : Setup)
  | delconn (id : Nat)
  | touchConn (id : Nat)

/-- Carry out a call. -/
def perform (forwarder : Forwarder) : Call → Option Forwarder
  | .newconn left setup => (newconn forwarder left setup).map Prod.snd
  | .delconn id => delconn forwarder id
  | .touchConn id => touchConn forwarder id

/-- One call of a run. -/
def Step (before : Forwarder) (call : Call) (after : Forwarder) : Prop :=
  perform before call = some after

/-! ## The list and the descriptors -/

/-- The connections in memory are those of `expire_list`. -/
structure Listed (forwarder : Forwarder) (ids : List Nat) : Prop where
  ring : Ring forwarder.links .head (ids.map .node)
  live : ∀ id, forwarder.live id = true ↔ id ∈ ids
  older : ∀ id ∈ ids, id < forwarder.allocated
  counted : 0 ≤ forwarder.numEvents

/-- Epoll watches the listening socket and every connection, and each one is counted. -/
structure Watched (forwarder : Forwarder) (ids : List Nat) : Prop extends
    Listed forwarder ids where
  registered : forwarder.registered.Perm (.listening :: ids.map .socket)
  count : forwarder.numEvents = forwarder.registered.length
  pipes : ∀ id ∈ ids, forwarder.pipe id = (.other, .other)

section Calls

variable {forwarder after : Forwarder} {ids : List Nat} {left : Leftover} {setup : Setup}

/-- At first epoll watches the listening socket alone. -/
theorem watched_initial : Watched .initial [] where
  ring := ring_init
  live := by simp [Forwarder.initial]
  older := by simp
  counted := by decide
  registered := List.Perm.refl _
  count := rfl
  pipes := by simp

/-- A pointer can be followed if it leads into the list. -/
theorem Listed.inMemory_iff
    {cell : Cell}
    (listed : Listed forwarder ids) :
    forwarder.inMemory cell = true ↔ cell ∈ Cell.head :: ids.map Cell.node := by
  cases cell with
  | head => simp [Forwarder.inMemory]
  | node id => simp [Forwarder.inMemory, listed.live]
  | elsewhere => simp [Forwarder.inMemory]

/-- The next number stands for no connection of the list. -/
theorem Listed.fresh (listed : Listed forwarder ids) :
    Cell.node forwarder.allocated ∉ Cell.head :: ids.map Cell.node := by
  intro member
  have inside : forwarder.allocated ∈ ids := by simpa using member
  exact Nat.lt_irrefl _ (listed.older _ inside)

/-- No connection is in the list twice. -/
theorem Listed.nodup (listed : Listed forwarder ids) : ids.Nodup :=
  (List.nodup_cons.mp listed.ring.nodup).2.of_map _

/-- What epoll watches is watched once. -/
theorem Watched.nodup (watched : Watched forwarder ids) : forwarder.registered.Nodup := by
  rw [watched.registered.nodup_iff, List.nodup_cons]
  refine ⟨by simp, watched.toListed.nodup.map ?_⟩
  intro first second same
  simpa using same

/-- Closing a descriptor that epoll does not watch changes nothing. -/
theorem close_unwatched
    {fd : Descriptor}
    (notEpoll : fd ≠ .epoll)
    (unwatched : fd ∉ forwarder.registered) :
    forwarder.close fd = forwarder := by
  simp only [Forwarder.close, notEpoll, if_false, List.erase_of_not_mem unwatched]

/-- Closing a pipe changes nothing that epoll watches. -/
theorem delbuffer_pipe
    {id : Nat}
    (pipe : forwarder.pipe id = (.other, .other))
    (unwatched : Descriptor.other ∉ forwarder.registered) :
    delbuffer forwarder id = forwarder := by
  have closed : forwarder.close .other = forwarder := close_unwatched (by simp) unwatched
  rw [delbuffer, pipe, closed, closed]

/-- Epoll watches no pipe. -/
theorem Watched.other_notMem (watched : Watched forwarder ids) :
    Descriptor.other ∉ forwarder.registered := by
  rw [watched.registered.mem_iff]
  simp

/-- What is left of a list was in it. -/
theorem mem_of_left
    {front back : List Nat}
    {id other : Nat}
    (member : other ∈ front ++ back) :
    other ∈ front ++ id :: back :=
  ((List.sublist_cons_self id back).append_left front).subset member

/-- `list_del` of a connection of the list. -/
theorem Listed.listDel
    {front back : List Nat}
    {id : Nat}
    (listed : Listed forwarder (front ++ id :: back)) :
    listDel forwarder (.node id) =
        some { forwarder with links := forwarder.links.remove (.node id) } ∧
      Ring (forwarder.links.remove (.node id)) .head ((front ++ back).map .node) := by
  have member : Cell.node id ∈ Cell.head :: (front ++ id :: back).map Cell.node := by simp
  obtain ⟨prev, next⟩ := listed.ring.closed member
  have ring := listed.ring
  rw [List.map_append, List.map_cons] at ring
  constructor
  · exact if_pos ⟨listed.inMemory_iff.mpr next, listed.inMemory_iff.mpr prev⟩
  · rw [List.map_append]
    exact ring.remove

/-- `list_add_tail` of a node that is not in the list. -/
theorem listAddTail_spec
    {node : Cell}
    (ring : Ring forwarder.links .head (ids.map .node))
    (live : ∀ id ∈ ids, forwarder.live id = true)
    (outside : node ∉ Cell.head :: ids.map Cell.node) :
    listAddTail forwarder node =
      some { forwarder with links := forwarder.links.pushBack .head node } := by
  have member := (ring.closed List.mem_cons_self).1
  have reachable : forwarder.inMemory (forwarder.links.prev .head) = true := by
    rcases List.mem_cons.mp member with same | inside
    · rw [same]
      rfl
    · obtain ⟨id, inList, same⟩ := List.mem_map.mp inside
      rw [← same]
      exact live id inList
  have different : forwarder.links.prev .head ≠ node := by
    rintro rfl
    exact outside member
  simp only [listAddTail, reachable, if_true, Links.pushBack, Links.setNext, Links.setPrev]
  rw [Function.update_comm different]

/-- What `delconn` leaves if it comes to its end. -/
def Forwarder.freed (forwarder : Forwarder) (id : Nat) : Forwarder :=
  let closed := delbuffer forwarder id
  { forwarder with
    links := forwarder.links.remove (.node id)
    live := Function.update forwarder.live id false
    numEvents := forwarder.numEvents - 1
    registered := (closed.registered.erase (.socket id)).erase (.socket id) }

/-- `delconn` comes to its end if the pointers can be followed and the assertion holds. -/
theorem delconn_eq
    {id : Nat}
    (live : forwarder.live id = true) :
    delconn forwarder id =
      if forwarder.inMemory (forwarder.links.next (.node id)) = true ∧
          forwarder.inMemory (forwarder.links.prev (.node id)) = true ∧
          forwarder.numEvents - 1 ≥ 0 then
        some (forwarder.freed id)
      else
        none := by
  simp only [delconn, live, if_true, listDel, Option.bind_eq_bind]
  by_cases reachable :
      forwarder.inMemory (forwarder.links.next (.node id)) = true ∧
        forwarder.inMemory (forwarder.links.prev (.node id)) = true
  · rw [if_pos reachable, Option.bind_some]
    by_cases enough : forwarder.numEvents - 1 ≥ 0
    · rw [if_pos ⟨reachable.1, reachable.2, enough⟩]
      simp only [epollDel, delbuffer, Forwarder.close, enough, if_true, Option.bind_some,
        reduceCtorEq, if_false]
      rfl
    · rw [if_neg fun all => enough all.2.2]
      simp only [epollDel, delbuffer, Forwarder.close, enough, if_false, Option.bind_none]
  · rw [if_neg reachable, if_neg fun all => reachable ⟨all.1, all.2.1⟩]
    rfl

/-- `delconn` of a connection of the list. -/
theorem Watched.delconn
    {front back : List Nat}
    {id : Nat}
    (watched : Watched forwarder (front ++ id :: back)) :
    delconn forwarder id = some (forwarder.freed id) ∧
      Watched (forwarder.freed id) (front ++ back) := by
  obtain ⟨_, ring⟩ := watched.toListed.listDel
  have member : Cell.node id ∈ Cell.head :: (front ++ id :: back).map Cell.node := by simp
  obtain ⟨prev, next⟩ := watched.ring.closed member
  have distinct := watched.toListed.nodup
  rw [List.nodup_middle, List.nodup_cons] at distinct
  have size : forwarder.numEvents = (front ++ back).length + 2 := by
    rw [watched.count, watched.registered.length_eq]
    simp only [List.length_append, List.length_cons, List.length_map]
    omega
  have enough : forwarder.numEvents - 1 ≥ 0 := by omega
  have closed : delbuffer forwarder id = forwarder :=
    delbuffer_pipe (watched.pipes id (by simp)) watched.other_notMem
  have erased :
      (forwarder.freed id).registered.Perm (.listening :: (front ++ back).map .socket) := by
    have gone : Descriptor.socket id ∉ forwarder.registered.erase (.socket id) := by
      rw [watched.nodup.mem_erase_iff]
      simp
    have notInFront : Descriptor.socket id ∉ Descriptor.listening :: front.map Descriptor.socket := by
      simpa using fun inFront => distinct.1 (List.mem_append_left _ inFront)
    dsimp only [Forwarder.freed]
    rw [closed, List.erase_of_not_mem gone]
    refine (watched.registered.erase (.socket id)).trans ?_
    rw [List.map_append, List.map_cons, ← List.cons_append,
      List.erase_append_right _ notInFront, List.erase_cons_head, List.map_append,
      List.cons_append]
  constructor
  · rw [delconn_eq ((watched.live id).mpr (by simp)), if_pos]
    exact ⟨watched.toListed.inMemory_iff.mpr next, watched.toListed.inMemory_iff.mpr prev, enough⟩
  · refine
      { ring := ring
        live := ?_
        older := ?_
        counted := enough
        registered := erased
        count := ?_
        pipes := ?_ }
    · intro other
      by_cases same : other = id
      · subst same
        simpa [Forwarder.freed] using distinct.1
      · simp [Forwarder.freed, same, watched.live]
    · exact fun other member => watched.older other (mem_of_left member)
    · rw [erased.length_eq, show (forwarder.freed id).numEvents = forwarder.numEvents - 1 from rfl,
        size]
      simp only [List.length_append, List.length_cons, List.length_map]
      omega
    · exact fun other member => watched.pipes other (mem_of_left member)

/-- `touch_conn` of a connection of the list. -/
theorem Watched.touchConn
    {front back : List Nat}
    {id : Nat}
    (watched : Watched forwarder (front ++ id :: back)) :
    ∃ links,
      touchConn forwarder id = some { forwarder with links := links } ∧
        Watched { forwarder with links := links } (front ++ back ++ [id]) := by
  obtain ⟨unlinked, ring⟩ := watched.toListed.listDel
  have isLive : forwarder.live id = true := (watched.live id).mpr (by simp)
  have distinct := watched.toListed.nodup
  rw [List.nodup_middle, List.nodup_cons] at distinct
  have outside : Cell.node id ∉ Cell.head :: (front ++ back).map Cell.node := by
    simpa using distinct.1
  have appended := @listAddTail_spec
    { forwarder with links := forwarder.links.remove (.node id) } _ _ ring
    (fun other member => (watched.live other).mpr (mem_of_left member)) outside
  have shifted : (front ++ back ++ [id]).Perm (front ++ id :: back) := by
    rw [List.append_assoc]
    exact (List.perm_append_singleton id back).append_left front
  refine ⟨(forwarder.links.remove (.node id)).pushBack .head (.node id), ?_, ?_⟩
  · simp only [Connections.touchConn, isLive, if_true, unlinked, Option.bind_eq_bind,
      Option.bind_some]
    exact appended
  · refine
      { ring := ?_
        live := ?_
        older := ?_
        counted := watched.counted
        registered := watched.registered.trans ((shifted.map _).cons _).symm
        count := watched.count
        pipes := ?_ }
    · rw [List.map_append]
      exact ring.pushBack outside
    · intro other
      rw [watched.live, shifted.mem_iff]
    · intro other member
      exact watched.older other (shifted.mem_iff.mp member)
    · intro other member
      exact watched.pipes other (shifted.mem_iff.mp member)

/-- `malloc` leaves the list alone. -/
theorem Listed.malloc (listed : Listed forwarder ids) :
    Ring (forwarder.malloc left).links .head (ids.map .node) := by
  refine listed.ring.congr ?_ ?_
  · intro cell member
    refine Function.update_of_ne ?_ _ _
    rintro rfl
    exact listed.fresh member
  · intro cell member
    refine Function.update_of_ne ?_ _ _
    rintro rfl
    exact listed.fresh member

/-- A new connection with a pipe, which is counted, and watched if `epoll_ctl` says so. -/
def Forwarder.constructed (forwarder : Forwarder) (left : Leftover) (answer : Bool) : Forwarder :=
  (epollAdd (newbuffer (forwarder.malloc left) forwarder.allocated true).2
    (.socket forwarder.allocated) answer).2

@[simp] theorem constructed_links {answer : Bool} :
    (forwarder.constructed left answer).links = (forwarder.malloc left).links :=
  rfl

@[simp] theorem constructed_live {answer : Bool} :
    (forwarder.constructed left answer).live =
      Function.update forwarder.live forwarder.allocated true :=
  rfl

@[simp] theorem constructed_pipe {answer : Bool} :
    (forwarder.constructed left answer).pipe =
      Function.update (Function.update forwarder.pipe forwarder.allocated left.pipe)
        forwarder.allocated (.other, .other) :=
  rfl

@[simp] theorem constructed_numEvents {answer : Bool} :
    (forwarder.constructed left answer).numEvents = forwarder.numEvents + 1 :=
  rfl

@[simp] theorem constructed_registered {answer : Bool} :
    (forwarder.constructed left answer).registered =
      if answer then .socket forwarder.allocated :: forwarder.registered
      else forwarder.registered :=
  rfl

/-- The pointers of the new node are what `malloc` left. -/
theorem malloc_links :
    (forwarder.malloc left).links.prev (.node forwarder.allocated) = left.prev ∧
      (forwarder.malloc left).links.next (.node forwarder.allocated) = left.next :=
  ⟨Function.update_self _ _ _, Function.update_self _ _ _⟩

/-- `newconn` behind a call of `pipe2` and one of `epoll_ctl`. -/
theorem newconn_of_piped (piped : setup.piped = true) :
    newconn forwarder left setup =
      if setup.registered then
        (listAddTail (forwarder.constructed left true) (.node forwarder.allocated)).map
          fun after => (some forwarder.allocated, after)
      else
        (delconn (forwarder.constructed left false) forwarder.allocated).map
          fun after => (none, after) := by
  simp only [newconn, newbuffer, piped, if_true, Option.bind_eq_bind]
  rw [Option.map_eq_bind, Option.map_eq_bind]
  cases setup.registered with
  | true => rfl
  | false => rfl

/-- `newconn` behind a call of `pipe2` that failed. -/
theorem newconn_of_not_piped (piped : setup.piped = false) :
    newconn forwarder left setup =
      (delconn (forwarder.malloc left) forwarder.allocated).map fun after => (none, after) := by
  simp only [newconn, newbuffer, piped, Bool.false_eq_true, if_false, Option.bind_eq_bind]
  rw [Option.map_eq_bind]
  rfl

/-- In memory that is zero, both failures follow a null pointer. -/
theorem newconn_zero (fails : ¬ (setup.piped = true ∧ setup.registered = true)) :
    newconn forwarder .zero setup = none := by
  have unlinked :
      (forwarder.malloc .zero).links.next (.node forwarder.allocated) = .elsewhere :=
    malloc_links.2
  cases piped : setup.piped with
  | false =>
      rw [newconn_of_not_piped piped, delconn_eq (Function.update_self _ _ _), unlinked]
      rfl
  | true =>
      have registered : setup.registered = false := by simpa [piped] using fails
      rw [newconn_of_piped piped, registered, if_neg (by simp), delconn_eq (by simp),
        constructed_links, unlinked]
      rfl

/-- `newconn` that succeeds. -/
theorem Watched.newconn
    (watched : Watched forwarder ids)
    (piped : setup.piped = true)
    (registered : setup.registered = true) :
    ∃ after,
      newconn forwarder left setup = some (some forwarder.allocated, after) ∧
        Watched after (ids ++ [forwarder.allocated]) ∧
        after.numEvents = forwarder.numEvents + 1 ∧
        after.allocated = forwarder.allocated + 1 ∧
        after.live = Function.update forwarder.live forwarder.allocated true := by
  have outside := watched.toListed.fresh
  have new : forwarder.allocated ∉ ids := by simpa using outside
  have ring : Ring (forwarder.malloc left).links .head (ids.map .node) := watched.toListed.malloc
  have appended := @listAddTail_spec (forwarder.constructed left true) ids _ ring
    (fun id member => by
      refine (Function.update_of_ne ?_ _ _).trans ((watched.live id).mpr member)
      rintro rfl
      exact new member) outside
  rw [newconn_of_piped piped, if_pos registered, appended, Option.map_some]
  refine ⟨_, rfl, ?_, rfl, rfl, rfl⟩
  refine
    { ring := ?_
      live := ?_
      older := ?_
      counted := ?_
      registered := ?_
      count := ?_
      pipes := ?_ }
  · rw [List.map_append]
    exact ring.pushBack outside
  · intro id
    by_cases same : id = forwarder.allocated
    · simp [same]
    · simp [same, watched.live]
  · intro id member
    rcases List.mem_append.mp member with inside | isNew
    · exact Nat.lt_succ_of_lt (watched.older id inside)
    · rw [List.mem_singleton.mp isNew]
      exact Nat.lt_succ_self _
  · exact Int.le_trans watched.counted (Int.le_add_one (Int.le_refl _))
  · rw [List.map_append, List.map_singleton]
    refine (watched.registered.cons _).trans ?_
    refine (List.Perm.swap _ _ _).trans (List.Perm.cons _ ?_)
    exact (List.perm_append_singleton _ _).symm
  · simp [watched.count]
  · intro id member
    by_cases same : id = forwarder.allocated
    · simp [same]
    · have inside : id ∈ ids := by simpa [same] using member
      simp [same, watched.pipes id inside]

end Calls

/-! ## The calls of the main loop -/

/-- What the model of the main loop says of the connections, the list and the counter. -/
structure Shows (forwarder : Forwarder) (state : State) : Prop where
  watched : Watched forwarder state.expireList
  numEvents : forwarder.numEvents = state.numEvents
  allocated : forwarder.allocated = state.allocated
  live : ∀ id, forwarder.live id = (state.conns id).isSome

/-- The call is one of `newconn` that fails. -/
def Call.Fails : Call → Prop
  | .newconn _ setup => ¬ (setup.piped = true ∧ setup.registered = true)
  | _ => False

/-- Calls without a failing `newconn` lead to what the state says. -/
def Reaches (start : Forwarder) (state : State) : Prop :=
  ∃ calls forwarder,
    Run Step start calls forwarder ∧
      (∀ call ∈ calls, ¬ call.Fails) ∧
      Shows forwarder state

section MainLoop

variable {memory : Nat → Conn} {forwarder start : Forwarder} {before after : State} {id : Nat}

/-- At first only the listening socket is there. -/
theorem shows_initial : Shows .initial State.initial where
  watched := watched_initial
  numEvents := rfl
  allocated := rfl
  live := by simp [Forwarder.initial, State.initial]

/-- Nothing is said of the contents of a connection. -/
theorem Shows.setConn
    {former : Conn}
    (shown : Shows forwarder before)
    (present : before.conns id = some former)
    (conn : Conn) :
    Shows forwarder (before.setConn id conn) where
  watched := shown.watched
  numEvents := shown.numEvents
  allocated := shown.allocated
  live := by
    intro cell
    rw [shown.live]
    by_cases same : cell = id
    · simp [State.setConn, same, present]
    · simp [State.setConn, same]

/-- A connection in memory is in the list. -/
theorem Shows.split
    {conn : Conn}
    (shown : Shows forwarder before)
    (present : before.conns id = some conn) :
    ∃ front back, before.expireList = front ++ id :: back ∧
      before.expireList.erase id = front ++ back := by
  have inList : id ∈ before.expireList := by
    rw [← shown.watched.live, shown.live, present]
    rfl
  have distinct := shown.watched.toListed.nodup
  obtain ⟨front, back, shape⟩ := List.append_of_mem inList
  rw [shape] at distinct ⊢
  have notInFront : id ∉ front := by
    rw [List.nodup_middle, List.nodup_cons] at distinct
    exact fun inFront => distinct.1 (List.mem_append_left _ inFront)
  exact ⟨front, back, rfl, by
    rw [List.erase_append_right _ notInFront, List.erase_cons_head]⟩

/-- One more call that does not fail. -/
theorem Reaches.call
    {call : Call}
    {made : Forwarder}
    {calls : List Call}
    (run : Run Step start calls forwarder)
    (succeed : ∀ call ∈ calls, ¬ call.Fails)
    (step : Step forwarder call made)
    (succeeds : ¬ call.Fails)
    (shown : Shows made after) :
    Reaches start after := by
  refine ⟨calls ++ [call], made, run.extend step, ?_, shown⟩
  intro other member
  rcases List.mem_append.mp member with earlier | last
  · exact succeed other earlier
  · exact List.mem_singleton.mp last ▸ succeeds

/-- `touch_conn` as the main loop sees it. -/
theorem Reaches.touchConn
    {now : Int}
    (reaches : Reaches start before)
    (called : Proxy.touchConn before id now = some after) :
    Reaches start after := by
  obtain ⟨calls, forwarder, run, succeed, shown⟩ := reaches
  simp only [Proxy.touchConn, Option.bind_eq_bind, Option.bind_eq_some_iff] at called
  obtain ⟨conn, present, same⟩ := called
  obtain rfl := Option.some.inj same
  obtain ⟨front, back, shape, erased⟩ := shown.split present
  have watched := shown.watched
  rw [shape] at watched
  obtain ⟨links, touched, still⟩ := watched.touchConn
  have kept := shown.setConn present { conn with expire := now + connectionTimeout }
  have step : Step forwarder (.touchConn id) _ := touched
  refine Reaches.call run succeed step (by simp [Call.Fails]) ?_
  exact {
    watched := by
      dsimp only
      rw [erased]
      exact still
    numEvents := kept.numEvents
    allocated := kept.allocated
    live := kept.live }

/-- `delconn` as the main loop sees it. -/
theorem Reaches.delconn
    (reaches : Reaches start before)
    (called : Proxy.delconn before id = some after) :
    Reaches start after := by
  obtain ⟨calls, forwarder, run, succeed, shown⟩ := reaches
  simp only [Proxy.delconn, Option.bind_eq_bind, Option.bind_eq_some_iff] at called
  obtain ⟨conn, present, deleted⟩ := called
  split at deleted
  · obtain rfl := Option.some.inj deleted
    obtain ⟨front, back, shape, erased⟩ := shown.split present
    have watched := shown.watched
    rw [shape] at watched
    obtain ⟨freed, still⟩ := watched.delconn
    have step : Step forwarder (.delconn id) _ := freed
    refine Reaches.call run succeed step (by simp [Call.Fails]) ?_
    refine
      { watched := by
          dsimp only
          rw [erased]
          exact still
        numEvents := congrArg (· - 1) shown.numEvents
        allocated := shown.allocated
        live := ?_ }
    intro cell
    by_cases same : cell = id
    · simp [Forwarder.freed, same]
    · simp [Forwarder.freed, same, shown.live]
  · simp at deleted

/-- A `newconn` that succeeds for the main loop does so in memory, whatever was left there. -/
theorem Shows.newconn
    {setup : Setup}
    {now : Int}
    {new : Nat}
    (shown : Shows forwarder before)
    (called : Proxy.newconn memory before setup now = some (new, after))
    (left : Leftover) :
    ∃ made,
      Connections.newconn forwarder left setup = some (some new, made) ∧
        Shows made after ∧
        setup.piped = true ∧
        setup.registered = true := by
  simp only [Proxy.newconn] at called
  split at called
  · rename_i succeeds
    obtain ⟨rfl, rfl⟩ := Prod.mk.inj (Option.some.inj called)
    obtain ⟨made, built, still, numEvents, allocated, live⟩ :=
      @Watched.newconn _ _ left _ shown.watched succeeds.1 succeeds.2
    rw [shown.allocated] at built still live
    refine ⟨made, built, ?_, succeeds⟩
    refine
      { watched := still
        numEvents := by rw [numEvents, shown.numEvents]
        allocated := by rw [allocated, shown.allocated]
        live := ?_ }
    intro cell
    rw [live]
    by_cases same : cell = before.allocated
    · simp [same, State.setConn]
    · simp [same, State.setConn, shown.live]
  · simp at called

/-- In memory that is zero the two models of `newconn` agree, also where it fails. -/
theorem newconn_agrees
    {setup : Setup}
    {now : Int}
    (shown : Shows forwarder before) :
    match Proxy.newconn memory before setup now with
    | some (new, after) =>
        ∃ made,
          Connections.newconn forwarder .zero setup = some (some new, made) ∧ Shows made after
    | none => Connections.newconn forwarder .zero setup = none := by
  cases called : Proxy.newconn memory before setup now with
  | some result =>
      obtain ⟨made, built, after, _⟩ := shown.newconn called .zero
      exact ⟨made, built, after⟩
  | none =>
      refine newconn_zero fun succeeds => ?_
      simp [Proxy.newconn, succeeds] at called

/-- `newconn` as the main loop sees it. -/
theorem Reaches.newconn
    {setup : Setup}
    {now : Int}
    {new : Nat}
    (reaches : Reaches start before)
    (called : Proxy.newconn memory before setup now = some (new, after)) :
    Reaches start after := by
  obtain ⟨calls, forwarder, run, succeed, shown⟩ := reaches
  obtain ⟨made, built, still, succeeds⟩ := shown.newconn called .zero
  have step : Step forwarder (.newconn .zero setup) made := congrArg (Option.map Prod.snd) built
  exact Reaches.call run succeed step (not_not.mpr succeeds) still

/-- Assigning to a connection makes no call. -/
theorem Reaches.setConn
    {former : Conn}
    (reaches : Reaches start before)
    (present : before.conns id = some former)
    (conn : Conn) :
    Reaches start (before.setConn id conn) := by
  obtain ⟨calls, forwarder, run, succeed, shown⟩ := reaches
  exact ⟨calls, forwarder, run, succeed, shown.setConn present conn⟩

/-- All the main loop does with connections are such calls. -/
theorem reaches_kept : Kept memory (Reaches start) where
  touchConn := Reaches.touchConn
  delconn := Reaches.delconn
  newconn := Reaches.newconn
  fill := by
    intro before after id results result reaches called
    simp only [fill, Option.bind_eq_bind, Option.bind_eq_some_iff] at called
    obtain ⟨conn, present, transfer, _, same⟩ := called
    obtain ⟨rfl, rfl⟩ := Prod.mk.inj (Option.some.inj same)
    obtain ⟨calls, forwarder, run, succeed, shown⟩ :=
      reaches.setConn present { conn with buf := transfer.buf }
    exact ⟨calls, forwarder, run, succeed, { shown with }⟩
  drain := by
    intro before after id target results result reaches called
    simp only [drain, Option.bind_eq_bind, Option.bind_eq_some_iff] at called
    obtain ⟨conn, present, _, _, transfer, _, same⟩ := called
    obtain ⟨rfl, rfl⟩ := Prod.mk.inj (Option.some.inj same)
    obtain ⟨calls, forwarder, run, succeed, shown⟩ :=
      reaches.setConn present { conn with buf := transfer.buf }
    exact ⟨calls, forwarder, run, succeed, { shown with }⟩
  openconn := by
    intro before after setup id now result reaches _ called
    simp only [openconn] at called
    split at called
    · simp only [Option.bind_eq_bind, Option.bind_eq_some_iff] at called
      obtain ⟨⟨new, middle⟩, made, conn, present, former, formerPresent, same⟩ := called
      obtain ⟨rfl, rfl⟩ := Prod.mk.inj (Option.some.inj same)
      exact ((reaches.newconn made).setConn present _).setConn formerPresent _
    · obtain ⟨rfl, rfl⟩ := Prod.mk.inj (Option.some.inj called)
      exact reaches

/-- Every run of the main loop is a run of calls, none of which is a failing `newconn`. -/
theorem reaches_of_run
    {events : List Event}
    {final : State}
    (run : Run (Proxy.Step memory) State.initial events final) :
    Reaches .initial final :=
  reaches_kept.run run ⟨[], .initial, .stop, by simp, shows_initial⟩

end MainLoop

end Sysprog.Proxy.Connections
