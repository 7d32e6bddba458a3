import Sysprog.DescriptorTable
import Sysprog.Execution
import Sysprog.MachineWord

namespace Sysprog.EventLoop

open Execution

/-!
# The event loop of `event-loop/ev.c`

Entries are made, added to the epoll instance of the loop, deleted, cancelled and freed, by
the program and by the callbacks `ev_loop` calls.  `epoll_wait` hands over a batch of entries,
which are looked at one after the other; what a callback does comes between two of them.
What the system calls answer comes with each call.

Every `struct ev_entry` has a number of its own, also where `malloc` returns the same memory
again.  `none` stands for an access to memory that was freed, for a failed assertion, and
for an answer that is not possible.
-/

/-- What is behind a descriptor: something of the program, or the timer with this serial number. -/
inductive Descriptor where
  | outside
  | timer (serial : Nat)
deriving DecidableEq

/--
What `type` and `raw` of an entry say.  Entries of type `EV_READ`, `EV_WRITE` or `EV_SIGNAL`
cannot be made.
-/
inductive Kind where
  | raw
  | timeoutOneshot
  | timeoutPeriodic
deriving DecidableEq

/-- A `struct ev_entry`. -/
structure EvEntry where
  fd : Int
  kind : Kind
deriving DecidableEq

/-- The kernel's side: descriptors, and the epoll instance with `data.ptr` for each of them. -/
abbrev Kernel :=
  DescriptorTable.Table Descriptor Nat

/--
The entries in memory, the epoll instance and its counter, and the rest of the batch that
`ev_loop` goes through.  The last four fields are records the program does not keep: which
entries were deleted and not added again, for which entry each timer was created, how often
each timer was closed, and how often each entry was armed.
-/
structure State where
  memory : Nat → Option EvEntry
  allocated : Nat
  kernel : Kernel
  entries : Nat
  events : List Nat
  deleted : Nat → Bool
  origins : List Nat
  closings : Nat → Nat
  arms : Nat → Nat

/-- `ev_new`; no descriptor is open, and the program opens its own. -/
def State.initial : State where
  memory := fun _ => none
  allocated := 0
  kernel := .empty
  entries := 0
  events := []
  deleted := fun _ => false
  origins := []
  closings := fun _ => 0
  arms := fun _ => 0

/-- `-EINVAL`. -/
def negEinval : Int := -22

/-! ## Descriptors -/

namespace State

/-- Close whatever is open under a number. -/
def close (state : State) (fd : Int) : State :=
  { state with
    kernel := state.kernel.close fd
    closings :=
      match state.kernel.behind fd with
      | some (.timer serial) =>
          Function.update state.closings serial (state.closings serial + 1)
      | _ => state.closings }

/-- A timer is created under a number, for an entry. -/
def create (state : State) (fd : Int) (id : Nat) : Option State := do
  let kernel ← state.kernel.openAt? fd (.timer state.origins.length)
  return { state with kernel := kernel, origins := state.origins ++ [id] }

end State

/-! ## Entries -/

/-- `ev_entry_new_epoll_internal`, with the fields the caller fills in. -/
def evEntryNewEpollInternal (state : State) (granted : Bool) (entry : EvEntry) :
    Option Nat × State :=
  if granted then
    (some state.allocated,
      { state with
        memory := Function.update state.memory state.allocated (some entry)
        allocated := state.allocated + 1 })
  else
    (none, state)

/-- `ev_entry_new_raw`. -/
def evEntryNewRaw (state : State) (granted : Bool) (fd : Int) : Option Nat × State :=
  evEntryNewEpollInternal state granted { fd := fd, kind := .raw }

/-- `ev_timer_oneshot_new`. -/
def evTimerOneshotNew (state : State) (granted : Bool) : Option Nat × State :=
  evEntryNewEpollInternal state granted { fd := 0, kind := .timeoutOneshot }

/-- `ev_timer_periodic_new`. -/
def evTimerPeriodicNew (state : State) (granted : Bool) : Option Nat × State :=
  evEntryNewEpollInternal state granted { fd := 0, kind := .timeoutPeriodic }

/-- `ev_entry_timer_free`. -/
def evEntryTimerFree (state : State) (entry : EvEntry) : State :=
  state.close entry.fd

/-- `ev_entry_free`. -/
def evEntryFree (state : State) (id : Nat) : Option State := do
  let entry ← state.memory id
  let state :=
    match entry.kind with
    | .raw => state
    | .timeoutOneshot => evEntryTimerFree state entry
    | .timeoutPeriodic => evEntryTimerFree state entry
  return { state with memory := Function.update state.memory id none }

/-! ## Adding and deleting -/

/--
What the system calls of `ev_add` answer: whether they succeed, the number of the new timer,
and whether `epoll_ctl` fails for a reason of its own.
-/
structure Answers where
  gettime : Bool
  created : Option Int
  settime : Bool
  nonBlocking : Bool
  refused : Bool

/-- What the two functions that arm a timer do from `timerfd_create` on. -/
def armTimerfd (state : State) (id : Nat) (entry : EvEntry) (answers : Answers) :
    Option (Int × State) :=
  match answers.created with
  | none => some (negEinval, state)
  | some fd => do
      let state ← state.create fd id
      if !answers.settime then
        return (negEinval, state.close fd)
      else if !answers.nonBlocking then
        return (negEinval, state.close fd)
      else
        return (0,
          { state with
            memory := Function.update state.memory id (some { entry with fd := fd })
            arms := Function.update state.arms id (state.arms id + 1) })

/-- `ev_arm_timerfd_oneshot`. -/
def evArmTimerfdOneshot (state : State) (id : Nat) (entry : EvEntry) (answers : Answers) :
    Option (Int × State) :=
  if !answers.gettime then
    some (negEinval, state)
  else
    armTimerfd state id entry answers

/-- `ev_arm_timerfd_periodic`. -/
def evArmTimerfdPeriodic (state : State) (id : Nat) (entry : EvEntry) (answers : Answers) :
    Option (Int × State) :=
  armTimerfd state id entry answers

/-- What `ev_add` does before `out`: raw entries need no arming. -/
def armEntry (state : State) (id : Nat) (entry : EvEntry) (answers : Answers) :
    Option (Int × State) :=
  match entry.kind with
  | .raw => some (0, state)
  | .timeoutOneshot => evArmTimerfdOneshot state id entry answers
  | .timeoutPeriodic => evArmTimerfdPeriodic state id entry answers

/-- What `ev_add` does from `out` on. -/
def register (state : State) (id : Nat) (answers : Answers) : Option (Int × State) := do
  let entry ← state.memory id
  if answers.refused then
    return (negEinval, state)
  else
    match state.kernel.add? entry.fd id with
    | none => return (negEinval, state)
    | some kernel =>
        return (0,
          { state with
            kernel := kernel
            entries := MachineWord.add state.entries 1
            deleted := Function.update state.deleted id false })

/-- `ev_add`. -/
def evAdd (state : State) (id : Nat) (answers : Answers) : Option (Int × State) := do
  let entry ← state.memory id
  let (ret, state) ← armEntry state id entry answers
  if ret ≠ 0 then
    return (negEinval, state)
  else
    register state id answers

/-- `ev_del`. -/
def evDel (state : State) (id : Nat) : Option (Int × State) := do
  let entry ← state.memory id
  match state.kernel.delete? entry.fd with
  | none => return (negEinval, state)
  | some kernel =>
      return (0,
        { state with
          kernel := kernel
          entries := MachineWord.sub state.entries 1
          deleted := Function.update state.deleted id true })

/-- `ev_timer_cancel`. -/
def evTimerCancel (state : State) (id : Nat) : Option (Int × State) := do
  let (ret, state) ← evDel state id
  if ret ≠ 0 then
    return (negEinval, state)
  else
    return (0, state)

/-! ## The loop -/

/-- `EVE_EPOLL_ARRAY_SIZE`. -/
def eveEpollArraySize : Nat := 64

/--
Behind `while (ev->entries > 0)`: `epoll_wait` returns some of the watched descriptors, each
with its `data.ptr`.
-/
def epollWait (state : State) (ready : List (Int × Nat)) : Option State :=
  if state.events = [] ∧ state.entries > 0 ∧ ready.Nodup ∧ ready.length ≤ eveEpollArraySize ∧
      ∀ event ∈ ready, event ∈ state.kernel.interest then
    some { state with events := ready.map Prod.snd }
  else
    none

/-- `ev_process_timer_oneshot` up to the callback; `readable` if `read` succeeds. -/
def evProcessTimerOneshot (state : State) (id : Nat) (readable : Bool) : Option State :=
  if readable then do
    let (_, state) ← evDel state id
    return state
  else
    none

/-- `ev_process_timer_periodic` up to the callback. -/
def evProcessTimerPeriodic (state : State) (readable : Bool) : Option State :=
  if readable then some state else none

/-- `ev_process_call_internal` up to the callback. -/
def evProcessCallInternal (state : State) (id : Nat) (readable : Bool) : Option State := do
  let entry ← state.memory id
  match entry.kind with
  | .raw => return state
  | .timeoutOneshot => evProcessTimerOneshot state id readable
  | .timeoutPeriodic => evProcessTimerPeriodic state readable

/-- The body of the loop over `events` in `ev_loop`. -/
def dispatch (state : State) (readable : Bool) : Option State :=
  match state.events with
  | [] => none
  | id :: rest => evProcessCallInternal { state with events := rest } id readable

/-! ## Runs -/

/--
A call of the program or of a callback, or a step of `ev_loop`.  The program also opens
descriptors of its own, and closes those that are not watched.
-/
inductive Call where
  | entryNewRaw (granted : Bool) (fd : Int)
  | timerOneshotNew (granted : Bool)
  | timerPeriodicNew (granted : Bool)
  | add (id : Nat) (answers : Answers)
  | del (id : Nat)
  | timerCancel (id : Nat)
  | entryFree (id : Nat)
  | wait (ready : List (Int × Nat))
  | dispatch (readable : Bool)
  | opened (fd : Int)
  | closed (fd : Int)

/-- Carry out a call. -/
def perform (state : State) : Call → Option State
  | .entryNewRaw granted fd => some (evEntryNewRaw state granted fd).2
  | .timerOneshotNew granted => some (evTimerOneshotNew state granted).2
  | .timerPeriodicNew granted => some (evTimerPeriodicNew state granted).2
  | .add id answers => (evAdd state id answers).map Prod.snd
  | .del id => (evDel state id).map Prod.snd
  | .timerCancel id => (evTimerCancel state id).map Prod.snd
  | .entryFree id => evEntryFree state id
  | .wait ready => epollWait state ready
  | .dispatch readable => dispatch state readable
  | .opened fd => do
      let kernel ← state.kernel.openAt? fd .outside
      return { state with kernel := kernel }
  | .closed fd =>
      if state.kernel.behind fd = some .outside ∧ ¬ state.kernel.Registered fd then
        some (state.close fd)
      else
        none

/-- All system calls succeed, and the new timer has this number. -/
def sampleAnswers (fd : Int) : Answers where
  gettime := true
  created := some fd
  settime := true
  nonBlocking := true
  refused := false

/-- One call of a run. -/
def Step (before : State) (call : Call) (after : State) : Prop :=
  perform before call = some after

end Sysprog.EventLoop
