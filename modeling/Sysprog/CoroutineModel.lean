import Mathlib.Algebra.Group.Nat.Defs
import Mathlib.Logic.Function.Basic
import Sysprog.FuelLoop

namespace Sysprog.Coroutine

open FuelLoop

/-!
# The stackless coroutines of `coroutine/coroutine.c`

A coroutine is a function that returns the line it has to be resumed at.  `producer` and
`consumer` share a buffer with one index and two semaphores; `driver_thread` resumes
both, and `main` resumes `driver_thread`.

`numItems` and `bufsize` stand for `NUM_ITEMS` and `BUFSIZE`.  A value of type `int` that
grows beyond its range is undefined, written `none`.
-/

/-! ## Async states and semaphores -/

/-- What `_async_kcont` holds and an async subroutine returns, an `int`. -/
abbrev Async := BitVec 32

/-- `ASYNC_INIT`. -/
def asyncInit : Async :=
  0

/-- `ASYNC_DONE`, which is minus one. -/
def asyncDone : Async :=
  BitVec.allOnes 32

/-- The line of `await_sem(&full)` in `producer`. -/
def producerLine : Async :=
  142

/-- The line of `await_sem(&empty)` in `consumer`. -/
def consumerLine : Async :=
  157

/-- The line of `await` in `driver_thread`. -/
def driverLine : Async :=
  176

/-- `init_sem`; a count is an `unsigned int`. -/
def initSem (count : Nat) : Nat :=
  count % 2 ^ 32

/-- `signal_sem`. -/
def signalSem (count : Nat) : Nat :=
  (count + 1) % 2 ^ 32

/-- One more, as an `int`. -/
def increment (value : Nat) : Option Nat :=
  if value + 1 < 2 ^ 31 then some (value + 1) else none

/-! ## The program -/

/-- A line of output. -/
inductive Message where
  | produced (item : Nat)
  | added (item place : Nat)
  | retrieved (item place : Nat)
  | consumed (item : Nat)
deriving DecidableEq

/-- The static variables, `driver_pt` of `main` and the output. -/
structure State where
  buffer : Nat → Nat
  bufptr : Nat
  item : Nat
  produced : Nat
  consumed : Nat
  full : Nat
  empty : Nat
  crProducer : Async
  crConsumer : Async
  driverPt : Async
  output : List Message

/-- Static variables start at zero. -/
def State.initial : State where
  buffer := fun _ => 0
  bufptr := 0
  item := 0
  produced := 0
  consumed := 0
  full := 0
  empty := 0
  crProducer := 0
  crConsumer := 0
  driverPt := asyncInit
  output := []

/-- `printf`. -/
def State.print (state : State) (message : Message) : State :=
  { state with output := state.output ++ [message] }

/-- `add_to_buffer`. -/
def addToBuffer (bufsize : Nat) (state : State) (item : Nat) : Option State := do
  let state := state.print (.added item state.bufptr)
  let state := { state with buffer := Function.update state.buffer state.bufptr item }
  let next ← increment state.bufptr
  return { state with bufptr := next % bufsize }

/-- `get_from_buffer`. -/
def getFromBuffer (bufsize : Nat) (state : State) : Option (Nat × State) := do
  let item := state.buffer state.bufptr
  let state := state.print (.retrieved item state.bufptr)
  let next ← increment state.bufptr
  return (item, { state with bufptr := next % bufsize })

/-- `produce_item`. -/
def produceItem (state : State) : Option (Nat × State) := do
  let state := state.print (.produced state.item)
  let next ← increment state.item
  return (state.item, { state with item := next })

/-- `consume_item`. -/
def consumeItem (state : State) (item : Nat) : State :=
  state.print (.consumed item)

/-- `producer` from behind its `await_sem` to the end of the loop body, and `++produced`. -/
def producerBody (bufsize : Nat) (state : State) : Option State := do
  let (item, state) ← produceItem state
  let state ← addToBuffer bufsize state item
  let state := { state with empty := signalSem state.empty }
  let next ← increment state.produced
  return { state with produced := next }

/-- `consumer` from behind its `await_sem` to the end of the loop body, and `++consumed`. -/
def consumerBody (bufsize : Nat) (state : State) : Option State := do
  let (item, state) ← getFromBuffer bufsize state
  let state := consumeItem state item
  let state := { state with full := signalSem state.full }
  let next ← increment state.consumed
  return { state with consumed := next }

/-- What an async subroutine leaves: its return value and the state. -/
abbrev Returned := Option (Async × State)

/-- `producer` from its `await_sem` to the next one, or to where it returns. -/
def producerRound (numItems bufsize : Nat) (state : State) : Round State Returned :=
  if state.full > 0 then
    match producerBody bufsize { state with full := state.full - 1 } with
    | none => .leave none
    | some state =>
        if state.produced < numItems then .again state else .leave (some (asyncDone, state))
  else
    .leave (some (producerLine, state))

/-- `consumer` from its `await_sem` to the next one, or to where it returns. -/
def consumerRound (numItems bufsize : Nat) (state : State) : Round State Returned :=
  if state.empty > 0 then
    match consumerBody bufsize { state with empty := state.empty - 1 } with
    | none => .leave none
    | some state =>
        if state.consumed < numItems then .again state else .leave (some (asyncDone, state))
  else
    .leave (some (consumerLine, state))

/-- `producer` from its `await_sem`; every round takes one from the semaphore. -/
def resumeProducer (numItems bufsize : Nat) (state : State) : Returned :=
  (loop (producerRound numItems bufsize) (state.full + 1) state).join

/-- `consumer` from its `await_sem`; every round takes one from the semaphore. -/
def resumeConsumer (numItems bufsize : Nat) (state : State) : Returned :=
  (loop (consumerRound numItems bufsize) (state.empty + 1) state).join

/-- `producer`, resumed at a line. -/
def producer (numItems bufsize : Nat) (kcont : Async) (state : State) : Returned :=
  if kcont = asyncInit then
    let state := { state with produced := 0 }
    if state.produced < numItems then
      resumeProducer numItems bufsize state
    else
      some (asyncDone, state)
  else if kcont = producerLine then
    resumeProducer numItems bufsize state
  else
    some (asyncDone, state)

/-- `consumer`, resumed at a line. -/
def consumer (numItems bufsize : Nat) (kcont : Async) (state : State) : Returned :=
  if kcont = asyncInit then
    let state := { state with consumed := 0 }
    if state.consumed < numItems then
      resumeConsumer numItems bufsize state
    else
      some (asyncDone, state)
  else if kcont = consumerLine then
    resumeConsumer numItems bufsize state
  else
    some (asyncDone, state)

/-- Which operand of `&` the compiler evaluates first; the language leaves it open. -/
inductive Order where
  | producerFirst
  | consumerFirst
deriving DecidableEq

/-- `producer(&cr_producer) & consumer(&cr_consumer)`.  Neither state is assigned to. -/
def resumeBoth (order : Order) (numItems bufsize : Nat) (state : State) : Returned :=
  match order with
  | .producerFirst => do
      let (former, state) ← producer numItems bufsize state.crProducer state
      let (latter, state) ← consumer numItems bufsize state.crConsumer state
      return (former &&& latter, state)
  | .consumerFirst => do
      let (latter, state) ← consumer numItems bufsize state.crConsumer state
      let (former, state) ← producer numItems bufsize state.crProducer state
      return (former &&& latter, state)

/-- The `await` of `driver_thread` and what follows it. -/
def awaitBoth (order : Order) (numItems bufsize : Nat) (state : State) : Returned := do
  let (condition, state) ← resumeBoth order numItems bufsize state
  if condition = 0 then
    return (driverLine, state)
  else
    return (asyncDone, state)

/-- `driver_thread`, resumed at a line. -/
def driverThread (order : Order) (numItems bufsize : Nat) (kcont : Async) (state : State) :
    Returned :=
  if kcont = asyncInit then
    awaitBoth order numItems bufsize
      { state with
        empty := initSem 0
        full := initSem bufsize
        crProducer := asyncInit
        crConsumer := asyncInit }
  else if kcont = driverLine then
    awaitBoth order numItems bufsize state
  else
    some (asyncDone, state)

/-- `async_call(driver_thread, &driver_pt)`: whether it is done, and the state. -/
def asyncCall (order : Order) (numItems bufsize : Nat) (state : State) : Option (Bool × State) :=
  if state.driverPt = asyncDone then
    some (true, state)
  else do
    let (kcont, state) ← driverThread order numItems bufsize state.driverPt state
    return (kcont = asyncDone, { state with driverPt := kcont })

/-- One test of the loop of `main`. -/
def mainRound (order : Order) (numItems bufsize : Nat) (state : State) :
    Round State (Option State) :=
  match asyncCall order numItems bufsize state with
  | none => .leave none
  | some (true, state) => .leave (some state)
  | some (false, state) => .again state

/-- `main`, with a bound on the calls it makes. -/
def main (order : Order) (numItems bufsize calls : Nat) : Option State :=
  (loop (mainRound order numItems bufsize) calls State.initial).join

/-- The items the program says it produced. -/
def producedItems (output : List Message) : List Nat :=
  output.filterMap fun
    | .produced item => some item
    | _ => none

/-- The items the program says it consumed. -/
def consumedItems (output : List Message) : List Nat :=
  output.filterMap fun
    | .consumed item => some item
    | _ => none

end Sysprog.Coroutine
