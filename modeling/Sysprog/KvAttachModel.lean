import Mathlib.Logic.Function.Basic
import Sysprog.Execution

namespace Sysprog.KvAttach

open Execution

/-!
# Attaching to the store of `key-value/kv.c` and leaving it

Processes call `kv_store_create` and `kv_store_destroy` on one name.  A call is divided
into its accesses to what the processes share: the name, the shared-memory object behind
it and the contents of that object.  What happens under `store->protect` is one access,
and so is the initialisation of a store.

The name stored in an initialised store is the one all calls pass, so the comparison of
names in `kv_store_destroy` always succeeds and is left out, as is `sem_destroy`, which
changes no value.
-/

/--
A shared-memory object: whether it has the size of a `store_t`, whether `protect` has
been initialised, and `clients`.  The program does not record whether some
`kv_store_destroy` has counted the object down below one.
-/
structure SharedObject where
  sized : Bool
  ready : Bool
  clients : Int
  closing : Bool

/-- An object as `shm_open` creates it: empty, and zero once it is extended. -/
def SharedObject.fresh : SharedObject where
  sized := false
  ready := false
  clients := 0
  closing := false

/-- What a process does next.  In `attached`, `idle` and `dead` it is in no call. -/
inductive Phase where
  | idle
  /-- At `sm_exists`. -/
  | checking
  /-- At the `shm_open` of `sm_create`. -/
  | opening (clear : Bool)
  /-- At the `ftruncate` of `sm_create`. -/
  | truncating (object : Nat)
  /-- At the `mmap` of `sm_attach`. -/
  | mapping (object : Nat) (clear : Bool)
  /-- Behind `if (clear)`. -/
  | initialising (object : Nat)
  /-- At the `sem_wait` of `kv_store_create`. -/
  | counting (object : Nat)
  | attached (object : Nat)
  /-- At the `sem_wait` of `kv_store_destroy`. -/
  | leaving (object : Nat)
  /-- At the `munmap` of `sm_detach`; `last` is `cl < 1`. -/
  | unmapping (object : Nat) (last : Bool)
  /-- At the `shm_unlink` of `sm_close`. -/
  | unlinking
  /-- Stopped by an access behind the end of an object. -/
  | dead
deriving DecidableEq

/-- The object the name refers to, all objects so far, and the processes. -/
structure State (Process : Type) where
  names : Option Nat
  allocated : Nat
  objects : Nat → SharedObject
  phases : Process → Phase

/-- What a process can do.  `succeeds` tells whether a system call does. -/
inductive Action where
  /-- `kv_store_create` is called. -/
  | createBegins
  | smExists (succeeds : Bool)
  | shmOpen (succeeds : Bool)
  | ftruncate (succeeds : Bool)
  | mmap (succeeds : Bool)
  | initialise
  | countUp
  /-- `kv_store_destroy` is called. -/
  | destroyBegins
  | countDown
  | munmap
  | shmUnlink

variable {Process : Type} [DecidableEq Process]

namespace State

omit [DecidableEq Process] in
/-- No object under the name, and no process has called anything. -/
def initial : State Process where
  names := none
  allocated := 0
  objects := fun _ => .fresh
  phases := fun _ => .idle

/-- A process goes on. -/
def move (state : State Process) (process : Process) (phase : Phase) : State Process :=
  { state with phases := Function.update state.phases process phase }

omit [DecidableEq Process] in
/-- The contents of an object change. -/
def store (state : State Process) (object : Nat) (contents : SharedObject) : State Process :=
  { state with objects := Function.update state.objects object contents }

omit [DecidableEq Process] in
/-- `shm_open` creates an object under the free name. -/
def create (state : State Process) : State Process :=
  { state with
    names := some state.allocated
    allocated := state.allocated + 1
    objects := Function.update state.objects state.allocated .fresh }

end State

/-- The next phase behind a successful `shm_open`. -/
def opened (object : Nat) (clear : Bool) : Phase :=
  if clear then .truncating object else .mapping object false

/-- `shm_open (name, flags, perms)`, with `O_CREAT` among the flags if `clear` is set. -/
def shmOpen (state : State Process) (process : Process) (clear : Bool) : Option (State Process) :=
  match state.names with
  | some object => some (state.move process (opened object clear))
  | none =>
      if clear then
        some (state.create.move process (opened state.allocated true))
      else
        none

/-- `sem_wait`, `store->clients++`, `sem_post`, by a process that has mapped the object. -/
def countUp (state : State Process) (process : Process) (object : Nat) : Option (State Process) :=
  let contents := state.objects object
  if contents.sized then
    if contents.ready then
      some
        ((state.store object { contents with clients := contents.clients + 1 }).move process
          (.attached object))
    else
      -- The value of a semaphore that is not initialised is zero: the process waits.
      none
  else
    some (state.move process .dead)

/-- `sem_wait`, `int cl = --(store->clients)`, `sem_post`. -/
def countDown (state : State Process) (process : Process) (object : Nat) :
    Option (State Process) :=
  let contents := state.objects object
  let cl := contents.clients - 1
  if contents.ready then
    some
      ((state.store object
          { contents with clients := cl, closing := contents.closing || decide (cl < 1) }).move
        process (.unmapping object (decide (cl < 1))))
  else
    none

/--
Carry out an action of a process, if it is the next one and can be done.  A system call
that fails makes `kv_store_create` return -1, apart from the one in `sm_exists`.
-/
def perform (state : State Process) (process : Process) (action : Action) :
    Option (State Process) :=
  match action, state.phases process with
  | .createBegins, .idle => some (state.move process .checking)
  -- With `store` set, `kv_store_create` returns 0 at once.
  | .createBegins, .attached _ => some state
  | .smExists succeeds, .checking =>
      if succeeds ∧ state.names = none then
        none
      else
        some (state.move process (.opening (!succeeds)))
  | .shmOpen true, .opening clear => shmOpen state process clear
  | .shmOpen false, .opening _ => some (state.move process .idle)
  | .ftruncate true, .truncating object =>
      some
        ((state.store object { state.objects object with sized := true }).move process
          (.mapping object true))
  | .ftruncate false, .truncating _ => some (state.move process .idle)
  | .mmap true, .mapping object clear =>
      some (state.move process (if clear then .initialising object else .counting object))
  | .mmap false, .mapping _ _ => some (state.move process .idle)
  | .initialise, .initialising object =>
      some
        ((state.store object { state.objects object with ready := true, clients := 0 }).move
          process (.counting object))
  | .countUp, .counting object => countUp state process object
  | .destroyBegins, .attached object => some (state.move process (.leaving object))
  -- Without `store`, `kv_store_destroy` returns -1 at once.
  | .destroyBegins, .idle => some state
  | .countDown, .leaving object => countDown state process object
  | .munmap, .unmapping _ last =>
      some (state.move process (if last then .unlinking else .idle))
  | .shmUnlink, .unlinking => some ({ state with names := none }.move process .idle)
  | _, _ => none

/-- One action of one process. -/
def Step (before : State Process) (label : Process × Action) (after : State Process) : Prop :=
  perform before label.1 label.2 = some after

end Sysprog.KvAttach
